import PostFga.Channel.Sizing
/-
# Where the structures lie in the segment (`state.c`, `channel_shmem.c`)

`struct_size` adds up what `_initialize_state` and `fga_channel_shmem_init` later hand out, with the same
roundings at both levels. Addresses are numbers; `ShmemInitStruct` returns one that is aligned.

| here | there |
| --- | --- |
| `ChannelShmem`, `fgaChannelShmemCarve` | the pointers of `fga_channel_shmem_init` (`channel_shmem.c:77`), what `pool_init` and `queue_init` are given, and the comparison at its end (`:106`) |
| `StateShmem`, `initializeState` | `_initialize_state` (`state.c:75`), with the capacity that `fga_cache_shmem_init` stores in its 32 bits |
| `fgaShmemStartup` | `fga_shmem_startup` (`state.c:139`) in the process that creates the segment; `base` is its address |
| `StateShmem.regions` | what the structures use: the arrays as long as their users take them to be |

* `shmem_layout` — they are disjoint, aligned and within what has been asked for.
-/

namespace PostFga

open Layout

structure ChannelShmem where
  pool : Nat
  queue : Nat
  /-- `pool_init` goes through as many slots. -/
  slotCount : UInt32
  /-- `queue->mask`. -/
  mask : UInt16
deriving DecidableEq, Repr

structure StateShmem where
  state : Nat
  channel : Nat
  channelShmem : ChannelShmem
  cache : Nat
  /-- `cache->capacity`. -/
  capacity : UInt32
  stats : Nat
deriving DecidableEq, Repr

namespace StructSizes
variable (z : StructSizes) (c : ShmemSettings)

def fgaChannelShmemCarve (ch : Nat) : Except ShmemError ChannelShmem := do
  let slotCount := slotCountOf c.maxConnections
  let queueCapacity := pow2Ceil slotCount
  let ptr := ch + z.maxAlign z.channel
  let pool := ptr
  let ptr := ptr + z.maxAlign (← z.poolShmemSize slotCount)
  let queue := ptr
  let ptr := ptr + z.maxAlign (← z.queueShmemSize queueCapacity)
  let mask := (queueInit queueCapacity.toUInt16 fun _ => 0).mask
  if ptr ≠ ch + z.maxAlign (← z.fgaChannelShmemSize c) then
    throw .sizeMiscalculation
  return ⟨pool, queue, slotCount, mask⟩

def initializeState (base : Nat) : Except ShmemError StateShmem := do
  let ptr := base
  let ptr := ptr + z.maxAlign z.state
  let channel := ptr
  let channelShmem ← z.fgaChannelShmemCarve c channel
  let ptr := ptr + z.maxAlign (← z.fgaChannelShmemSize c)
  let cache := ptr
  let capacity := UInt32.ofNat (z.l2Capacity c)
  let ptr := ptr + z.maxAlign (← z.fgaCacheShmemBaseSize c)
  let stats := ptr
  return ⟨base, channel, channelShmem, cache, capacity, stats⟩

/-- The size of the segment, and what lies in it. -/
def fgaShmemStartup (base : Nat) : Except ShmemError (Nat × StateShmem) := do
  let size ← z.structSize c
  let s ← z.initializeState c base
  return (size, s)

end StructSizes

/-- State, channel, slot pool, queue, L2 cache, statistics. -/
def StateShmem.regions (s : StateShmem) (z : StructSizes) (c : ShmemSettings) : List Region :=
  [⟨s.state, z.state⟩, ⟨s.channel, z.channel⟩,
    ⟨s.channelShmem.pool, z.poolSlots + z.slot * s.channelShmem.slotCount.toNat⟩,
    ⟨s.channelShmem.queue, z.queueValues + z.slotIndex * (s.channelShmem.mask.toNat + 1)⟩,
    ⟨s.cache, z.cacheEntries + z.entry * s.capacity.toNat⟩,
    ⟨s.stats, z.statsBackends + z.backendStats * c.maxBackends⟩]

namespace StructSizes
variable (z : StructSizes) (c : ShmemSettings)

/-! ## The pieces -/

/-- Each structure takes what it uses and moves the pointer on by its aligned size. -/
def pieces : List Piece :=
  [⟨z.state, z.align z.state⟩, ⟨z.channel, z.align z.channel⟩,
    ⟨z.poolBytes c.maxConnections, z.align (z.poolBytes c.maxConnections)⟩,
    ⟨z.queueBytes c.maxConnections, z.align (z.queueBytes c.maxConnections)⟩,
    ⟨z.cacheBytes c, z.align (z.cacheBytes c)⟩, ⟨z.statsBytes c, z.align (z.statsBytes c)⟩]

theorem pieces_aligned : ∀ p ∈ z.pieces c, p.len ≤ p.step ∧ z.maximumAlignof ∣ p.step := by
  simp only [pieces, List.forall_mem_cons, List.not_mem_nil, false_imp_iff, implies_true, and_true]
  exact ⟨⟨z.le_align _, z.dvd_align _⟩, ⟨z.le_align _, z.dvd_align _⟩, ⟨z.le_align _, z.dvd_align _⟩,
    ⟨z.le_align _, z.dvd_align _⟩, ⟨z.le_align _, z.dvd_align _⟩, z.le_align _, z.dvd_align _⟩

/-- The channel's size is a sum of aligned sizes: aligning it again, as `struct_size` does, adds nothing. -/
theorem align_channelBytes (maxConnections : Option Int) :
    z.align (z.channelBytes maxConnections) = z.channelBytes maxConnections :=
  roundUp_of_dvd z.maximumAlignof_pos
    (Nat.dvd_add (Nat.dvd_add (z.dvd_align _) (z.dvd_align _)) (z.dvd_align _))

theorem extent_pieces : extent (z.pieces c) = z.structBytes c := by
  rw [structBytes, align_channelBytes, channelBytes]
  simp only [pieces, extent]
  omega

/-- `channel_shmem.c` computes the end of the queue twice, and alike. -/
theorem fgaChannelShmemCarve_ok (ch : Nat) : z.fgaChannelShmemCarve c ch = .ok
    { pool := ch + z.align z.channel
      queue := ch + z.align z.channel + z.align (z.poolBytes c.maxConnections)
      slotCount := slotCountOf c.maxConnections
      mask := (queueInit (pow2Ceil (slotCountOf c.maxConnections)).toUInt16 fun _ => 0).mask } := by
  obtain ⟨-, hpool, hqueue, hall⟩ := z.channelBytes_le c.maxConnections
  have hchannel : z.channel ≤ 2 ^ 30 := z.le _ (by simp)
  simp only [fgaChannelShmemCarve, poolShmemSize_ok, queueShmemSize_ok, fgaChannelShmemSize_ok, bind, Except.bind]
  rw [z.maxAlign_eq (by omega), z.maxAlign_eq (by omega), z.maxAlign_eq (by omega), z.maxAlign_eq (by omega),
    align_channelBytes, channelBytes, if_neg (by omega)]
  rfl

def layout (base : Nat) : StateShmem where
  state := base
  channel := base + z.align z.state
  channelShmem :=
    { pool := base + z.align z.state + z.align z.channel
      queue := base + z.align z.state + z.align z.channel + z.align (z.poolBytes c.maxConnections)
      slotCount := slotCountOf c.maxConnections
      mask := (queueInit (pow2Ceil (slotCountOf c.maxConnections)).toUInt16 fun _ => 0).mask }
  cache := base + z.align z.state + z.channelBytes c.maxConnections
  capacity := .ofNat (z.l2Capacity c)
  stats := base + z.align z.state + z.channelBytes c.maxConnections + z.align (z.cacheBytes c)

theorem initializeState_ok (base : Nat) : z.initializeState c base = .ok (z.layout c base) := by
  obtain ⟨-, -, -, hall⟩ := z.channelBytes_le c.maxConnections
  obtain ⟨-, hcache, -⟩ := z.parts_le c
  have hstate : z.state ≤ 2 ^ 30 := z.le _ (by simp)
  simp only [initializeState, fgaChannelShmemCarve_ok, fgaChannelShmemSize_ok, fgaCacheShmemBaseSize_ok, bind,
    Except.bind]
  rw [z.maxAlign_eq (by omega), z.maxAlign_eq (by omega), z.maxAlign_eq (by omega), align_channelBytes]
  rfl

/-- `cache->capacity` has 32 bits, which are enough. -/
theorem capacity_toNat : (UInt32.ofNat (z.l2Capacity c)).toNat = z.l2Capacity c := by
  have hle := c.cacheSize_le
  have hdiv : z.l2Capacity c ≤ c.cacheSize * 1024 * 1024 := Nat.div_le_self _ _
  rw [UInt32.toNat_ofNat']
  exact Nat.mod_eq_of_lt (by omega)

/-- The arrays are as long as the sizes say: neither the mask nor the capacity has lost a bit. -/
theorem layout_regions (base : Nat) : (z.layout c base).regions z c = carve base (z.pieces c) := by
  simp only [StateShmem.regions, layout, mask_add_one, capacity_toNat, pieces, carve, poolBytes, queueBytes,
    cacheBytes, statsBytes, channelBytes, Nat.add_assoc]

/-- **The layout.** At every setting the six structures lie in the segment one after the other, each at an
aligned address, disjoint, and with arrays as long as their users take them to be; the segment is what
`fga_shmem_request` has asked for besides the hash table, no size overflows, and the channel never finds
its size miscalculated. -/
theorem shmem_layout (base : Nat) (hbase : z.maximumAlignof ∣ base) :
    ∃ size s, z.fgaShmemStartup c base = .ok (size, s) ∧
      (s.regions z c).Pairwise Region.Apart ∧
      (∀ r ∈ s.regions z c, z.maximumAlignof ∣ r.start ∧ r.bytes ⊆ Set.Ico base (base + size)) ∧
      s.channelShmem.slotCount = slotCountOf c.maxConnections ∧
      s.channelShmem.mask.toNat + 1 = (pow2Ceil (slotCountOf c.maxConnections)).toNat ∧
      s.capacity.toNat = z.l2Capacity c ∧
      (∀ hashEstimateSize total, z.fgaShmemRequest hashEstimateSize c = .ok total →
        total = size + z.maxAlign (z.fgaCacheShmemHashSize hashEstimateSize c)) ∧
      (∀ hashEstimateSize, z.fgaCacheShmemHashSize hashEstimateSize c ≤ 2 ^ 62 →
        ∃ total, z.fgaShmemRequest hashEstimateSize c = .ok total) ∧
      ∀ ch, z.fgaChannelShmemCarve c ch ≠ .error .sizeMiscalculation := by
  obtain ⟨hdisjoint, hwithin⟩ := carve_spec (z.pieces_aligned c) hbase
  rw [← layout_regions, extent_pieces] at hwithin
  rw [← layout_regions] at hdisjoint
  refine ⟨z.structBytes c, z.layout c base, ?_, hdisjoint, hwithin, rfl, mask_add_one _ (fun _ => 0), z.capacity_toNat c,
    fun hashEstimateSize total h => ?_, fun hashEstimateSize h => ?_, fun ch h => ?_⟩
  · simp only [fgaShmemStartup, structSize_ok, initializeState_ok, bind, Except.bind]
    rfl
  · simp only [fgaShmemRequest, structSize_ok, bind, Except.bind] at h
    exact addSize_eq_ok h
  · have htotal := z.structBytes_le c
    have hest := z.align_le (z.fgaCacheShmemHashSize hashEstimateSize c)
    refine ⟨z.structBytes c + z.align (z.fgaCacheShmemHashSize hashEstimateSize c), ?_⟩
    simp only [fgaShmemRequest, structSize_ok, bind, Except.bind]
    rw [z.maxAlign_eq (by omega)]
    exact addSize_ok (by omega)
  · rw [fgaChannelShmemCarve_ok] at h
    cases h

/-- The defaults: 100 connections, 32 MB, 128 backends; the segment at 4096. -/
def defaultSettings : ShmemSettings where
  maxConnections := some 100
  cacheSize := 32
  maxBackends := 128
  cacheSize_pos := by decide
  cacheSize_le := by decide
  maxBackends_lt := by decide

theorem shmem_layout_default : ∃ size s, x86_64.fgaShmemStartup defaultSettings 4096 = .ok (size, s) ∧
    (s.regions x86_64 defaultSettings).Pairwise Region.Apart := by
  obtain ⟨size, s, hs, hdisjoint, -⟩ := shmem_layout x86_64 defaultSettings 4096 (by decide)
  exact ⟨size, s, hs, hdisjoint⟩

end StructSizes

end PostFga
