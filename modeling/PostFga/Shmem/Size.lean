import PostFga.Cache.L2
import PostFga.Channel.Capacity
import PostFga.Lib.Layout
/-
# How much shared memory is asked for (`state.c`, `channel_shmem.c`, `cache.c`, `stats.c`)

| here | there |
| --- | --- |
| `StructSizes`       | what the compiler makes of the structures (`sizeof`, `offsetof`) and `MAXIMUM_ALIGNOF`; none of them is near a gigabyte |
| `ShmemSettings`     | `max_connections` (NULL is `none`), `fga.cache_size` in MB with the range of `guc.c`, `MaxBackends`, an `int` |
| `addSize`, `mulSize`, `maxAlign` | `add_size`, `mul_size`, `MAXALIGN` of PostgreSQL, with a `Size` of 64 bits |
| `slotCountOf`       | `uint32 slot_count = compute_slot_size()` |
| `poolShmemSize` .. `fgaChannelShmemSize` | `channel_shmem.c:26`–`:75` |
| `fgaCacheShmemBaseSize`, `fgaStatsShmemSize` | `cache.c:29`, `stats.c:21` |
| `structSize`        | `struct_size` (`state.c:40`) |
| `fgaShmemRequest`   | `fga_shmem_request` (`state.c:119`): what `RequestAddinShmemSpace` is called with. `hashEstimateSize` is PostgreSQL's `hash_estimate_size` |

The settings are fixed when the server starts, so that both hooks compute with the same ones.
-/

namespace PostFga

open Layout

structure StructSizes where
  maximumAlignof : Nat
  /-- `sizeof(FgaState)`. -/
  state : Nat
  /-- `sizeof(FgaChannel)`. -/
  channel : Nat
  /-- `offsetof(FgaChannelSlotPool, slots)`. -/
  poolSlots : Nat
  /-- `sizeof(FgaChannelSlot)`. -/
  slot : Nat
  /-- `offsetof(FgaChannelSlotQueue, values)`. -/
  queueValues : Nat
  /-- `sizeof(FgaChannelSlotIndex)`. -/
  slotIndex : Nat
  /-- `offsetof(FgaL2AclCache, entries)`. -/
  cacheEntries : Nat
  /-- `sizeof(FgaL2AclEntry)`. -/
  entry : Nat
  /-- `sizeof(FgaL2AclSlot)`. -/
  indexSlot : Nat
  /-- `offsetof(FgaStats, backends)`. -/
  statsBackends : Nat
  /-- `sizeof(FgaBackendStats)`. -/
  backendStats : Nat
  maximumAlignof_pos : 0 < maximumAlignof
  slot_pos : 0 < slot
  entry_pos : 0 < entry
  le : ∀ n ∈ [maximumAlignof, state, channel, poolSlots, slot, queueValues, slotIndex, cacheEntries, entry,
    indexSlot, statsBackends, backendStats], n ≤ 2 ^ 30

structure ShmemSettings where
  maxConnections : Option Int
  cacheSize : Nat
  maxBackends : Nat
  cacheSize_pos : 1 ≤ cacheSize
  cacheSize_le : cacheSize ≤ 1024
  maxBackends_lt : maxBackends < 2 ^ 31

inductive ShmemError where
  /-- "requested shared memory size overflows size_t". -/
  | sizeOverflow
  /-- FATAL, "postfga: channel shmem size miscalculation". -/
  | sizeMiscalculation
deriving DecidableEq, Repr

def addSize (s1 s2 : Nat) : Except ShmemError Nat :=
  if s1 + s2 < 2 ^ 64 then .ok (s1 + s2) else .error .sizeOverflow

def mulSize (s1 s2 : Nat) : Except ShmemError Nat :=
  if s1 * s2 < 2 ^ 64 then .ok (s1 * s2) else .error .sizeOverflow

def slotCountOf (maxConnections : Option Int) : UInt32 := .ofInt (computeSlotSize 0 maxConnections)

namespace StructSizes
variable (z : StructSizes)

/-- The low bits of `len + (MAXIMUM_ALIGNOF - 1)` cleared; the sum wraps, it is not checked. -/
def maxAlign (len : Nat) : Nat := (len + (z.maximumAlignof - 1)) % 2 ^ 64 / z.maximumAlignof * z.maximumAlignof

def poolShmemSize (capacity : UInt32) : Except ShmemError Nat := do
  let size := z.poolSlots
  addSize size (← mulSize z.slot capacity.toNat)

def queueShmemSize (capacity : UInt32) : Except ShmemError Nat := do
  let size := z.queueValues
  addSize size (← mulSize z.slotIndex capacity.toNat)

def fgaChannelShmemSize (c : ShmemSettings) : Except ShmemError Nat := do
  let slotCount := slotCountOf c.maxConnections
  let queueCapacity := pow2Ceil slotCount
  let size ← addSize 0 (z.maxAlign z.channel)
  let size ← addSize size (z.maxAlign (← z.poolShmemSize slotCount))
  addSize size (z.maxAlign (← z.queueShmemSize queueCapacity))

def l2Capacity (c : ShmemSettings) : Nat := l2CapacityFromConfig z.entry c.cacheSize

def fgaCacheShmemBaseSize (c : ShmemSettings) : Except ShmemError Nat := do
  let size := z.cacheEntries
  addSize size (← mulSize z.entry (z.l2Capacity c))

def fgaStatsShmemSize (c : ShmemSettings) : Except ShmemError Nat := do
  let size := z.statsBackends
  addSize size (← mulSize z.backendStats c.maxBackends)

def structSize (c : ShmemSettings) : Except ShmemError Nat := do
  let size := z.maxAlign z.state
  let size ← addSize size (z.maxAlign (← z.fgaChannelShmemSize c))
  let size ← addSize size (z.maxAlign (← z.fgaCacheShmemBaseSize c))
  addSize size (z.maxAlign (← z.fgaStatsShmemSize c))

def fgaCacheShmemHashSize (hashEstimateSize : Nat → Nat → Nat) (c : ShmemSettings) : Nat :=
  hashEstimateSize (l2HashSize (z.l2Capacity c)) z.indexSlot

def fgaShmemRequest (hashEstimateSize : Nat → Nat → Nat) (c : ShmemSettings) : Except ShmemError Nat := do
  let size ← z.structSize c
  addSize size (z.maxAlign (z.fgaCacheShmemHashSize hashEstimateSize c))

end StructSizes

/-! ## Nothing overflows -/

theorem addSize_ok {s1 s2 : Nat} (h : s1 + s2 < 2 ^ 64) : addSize s1 s2 = .ok (s1 + s2) := if_pos h

theorem mulSize_ok {s1 s2 : Nat} (h : s1 * s2 < 2 ^ 64) : mulSize s1 s2 = .ok (s1 * s2) := if_pos h

theorem addSize_eq_ok {s1 s2 s : Nat} (h : addSize s1 s2 = .ok s) : s = s1 + s2 := by
  unfold addSize at h
  split at h
  · exact (Except.ok.inj h).symm
  · cases h

/-- `max_connections` that is NULL counts as 100. -/
theorem slotCountOf_eq (maxConnections : Option Int) :
    slotCountOf maxConnections = slotCount (maxConnections.getD 100) := by
  cases maxConnections <;> rfl

theorem slotCountOf_bounds (maxConnections : Option Int) :
    1024 ≤ (slotCountOf maxConnections).toNat ∧ (slotCountOf maxConnections).toNat ≤ 2 ^ 14 := by
  rw [slotCountOf_eq]
  exact slotCount_bounds _

theorem queueCapacity_toNat (maxConnections : Option Int) :
    (pow2Ceil (slotCountOf maxConnections)).toNat = 2 ^ Nat.clog 2 (slotCountOf maxConnections).toNat ∧
      Nat.clog 2 (slotCountOf maxConnections).toNat ≤ 14 := by
  obtain ⟨hlo, hhi⟩ := slotCountOf_bounds maxConnections
  exact ⟨pow2Ceil_toNat (by omega) (hhi.trans (by decide)), Nat.clog_le_of_le_pow hhi⟩

theorem queueCapacity_le (maxConnections : Option Int) :
    (pow2Ceil (slotCountOf maxConnections)).toNat ≤ 2 ^ 14 := by
  obtain ⟨hpow, hk⟩ := queueCapacity_toNat maxConnections
  rw [hpow]
  exact Nat.pow_le_pow_right (by decide) hk

namespace StructSizes
variable (z : StructSizes) (c : ShmemSettings)

def align (len : Nat) : Nat := roundUp z.maximumAlignof len

theorem maxAlign_eq {len : Nat} (h : len ≤ 2 ^ 63) : z.maxAlign len = z.align len := by
  have : z.maximumAlignof ≤ 2 ^ 30 := z.le _ (by simp)
  rw [maxAlign, align, roundUp, Nat.mod_eq_of_lt (by omega)]

theorem align_le (len : Nat) : z.align len ≤ len + 2 ^ 30 :=
  (roundUp_le _ _).trans (Nat.add_le_add_left (z.le _ (by simp)) len)

theorem le_align (len : Nat) : len ≤ z.align len := le_roundUp z.maximumAlignof_pos

theorem dvd_align (len : Nat) : z.maximumAlignof ∣ z.align len := dvd_roundUp _ _

/-- A header and an array of `n` elements. -/
theorem flexible_ok {header elem n : Nat} (hh : header ≤ 2 ^ 30) (hn : elem * n ≤ 2 ^ 61) :
    (do addSize header (← mulSize elem n)) = Except.ok (header + elem * n) := by
  rw [mulSize_ok (by omega)]
  exact addSize_ok (by omega)

theorem elem_mul_le {elem n k : Nat} (he : elem ≤ 2 ^ 30) (hn : n ≤ 2 ^ k) : elem * n ≤ 2 ^ (30 + k) := by
  rw [Nat.pow_add]
  exact Nat.mul_le_mul he hn

section
variable (maxConnections : Option Int)

def poolBytes : Nat := z.poolSlots + z.slot * (slotCountOf maxConnections).toNat

def queueBytes : Nat := z.queueValues + z.slotIndex * (pow2Ceil (slotCountOf maxConnections)).toNat

def channelBytes : Nat := z.align z.channel + z.align (z.poolBytes maxConnections) + z.align (z.queueBytes maxConnections)

theorem slots_le : z.slot * (slotCountOf maxConnections).toNat ≤ 2 ^ 44 :=
  elem_mul_le (z.le _ (by simp)) (slotCountOf_bounds _).2

theorem indices_le : z.slotIndex * (pow2Ceil (slotCountOf maxConnections)).toNat ≤ 2 ^ 44 :=
  elem_mul_le (z.le _ (by simp)) (queueCapacity_le _)

theorem poolShmemSize_ok : z.poolShmemSize (slotCountOf maxConnections) = .ok (z.poolBytes maxConnections) :=
  flexible_ok (z.le _ (by simp)) ((z.slots_le _).trans (by decide))

theorem queueShmemSize_ok :
    z.queueShmemSize (pow2Ceil (slotCountOf maxConnections)) = .ok (z.queueBytes maxConnections) :=
  flexible_ok (z.le _ (by simp)) ((z.indices_le _).trans (by decide))

/-- What the sums need: the parts of the channel are far below 2^64. -/
theorem channelBytes_le : z.align z.channel ≤ 2 ^ 31 ∧ z.poolBytes maxConnections ≤ 2 ^ 45 ∧
    z.queueBytes maxConnections ≤ 2 ^ 45 ∧ z.channelBytes maxConnections ≤ 2 ^ 47 := by
  have hchannel : z.channel ≤ 2 ^ 30 := z.le _ (by simp)
  have hpool : z.poolSlots ≤ 2 ^ 30 := z.le _ (by simp)
  have hqueue : z.queueValues ≤ 2 ^ 30 := z.le _ (by simp)
  have h1 := z.slots_le maxConnections
  have h2 := z.indices_le maxConnections
  have h3 := z.align_le z.channel
  have h4 := z.align_le (z.poolBytes maxConnections)
  have h5 := z.align_le (z.queueBytes maxConnections)
  simp only [channelBytes, poolBytes, queueBytes] at *
  omega

end

theorem fgaChannelShmemSize_ok : z.fgaChannelShmemSize c = .ok (z.channelBytes c.maxConnections) := by
  obtain ⟨-, hpool, hqueue, -⟩ := z.channelBytes_le c.maxConnections
  have hchannel : z.channel ≤ 2 ^ 30 := z.le _ (by simp)
  have h1 := z.align_le z.channel
  have h2 := z.align_le (z.poolBytes c.maxConnections)
  have h3 := z.align_le (z.queueBytes c.maxConnections)
  simp only [fgaChannelShmemSize, poolShmemSize_ok, queueShmemSize_ok, bind, Except.bind]
  rw [z.maxAlign_eq (by omega), z.maxAlign_eq (by omega), z.maxAlign_eq (by omega), addSize_ok (by omega)]
  dsimp only
  rw [addSize_ok (by omega)]
  dsimp only
  rw [addSize_ok (by omega), channelBytes, Nat.zero_add]

def cacheBytes : Nat := z.cacheEntries + z.entry * z.l2Capacity c

def statsBytes : Nat := z.statsBackends + z.backendStats * c.maxBackends

def structBytes : Nat := z.align z.state + z.align (z.channelBytes c.maxConnections) + z.align (z.cacheBytes c) +
  z.align (z.statsBytes c)

/-- The entries take no more than the setting. -/
theorem entries_le : z.entry * z.l2Capacity c ≤ 2 ^ 30 := by
  have hle := c.cacheSize_le
  calc z.entry * z.l2Capacity c ≤ c.cacheSize * 1024 * 1024 := Nat.mul_div_le _ _
    _ ≤ 2 ^ 30 := by omega

theorem backends_le : z.backendStats * c.maxBackends ≤ 2 ^ 61 :=
  elem_mul_le (z.le _ (by simp)) (Nat.le_of_lt c.maxBackends_lt)

theorem fgaCacheShmemBaseSize_ok : z.fgaCacheShmemBaseSize c = .ok (z.cacheBytes c) :=
  flexible_ok (z.le _ (by simp)) ((z.entries_le c).trans (by decide))

theorem fgaStatsShmemSize_ok : z.fgaStatsShmemSize c = .ok (z.statsBytes c) :=
  flexible_ok (z.le _ (by simp)) (z.backends_le c)

theorem parts_le : z.align z.state ≤ 2 ^ 31 ∧ z.cacheBytes c ≤ 2 ^ 31 ∧ z.statsBytes c ≤ 2 ^ 62 := by
  have hstate : z.state ≤ 2 ^ 30 := z.le _ (by simp)
  have hcache : z.cacheEntries ≤ 2 ^ 30 := z.le _ (by simp)
  have hstats : z.statsBackends ≤ 2 ^ 30 := z.le _ (by simp)
  have h1 := z.entries_le c
  have h2 := z.backends_le c
  have h3 := z.align_le z.state
  simp only [cacheBytes, statsBytes]
  omega

theorem structBytes_le : z.structBytes c ≤ 2 ^ 63 := by
  obtain ⟨hstate, hcache, hstats⟩ := z.parts_le c
  obtain ⟨-, -, -, hchannel⟩ := z.channelBytes_le c.maxConnections
  have h1 := z.align_le (z.channelBytes c.maxConnections)
  have h2 := z.align_le (z.cacheBytes c)
  have h3 := z.align_le (z.statsBytes c)
  rw [structBytes]
  omega

/-- **The sum of the aligned parts.** -/
theorem structSize_ok : z.structSize c = .ok (z.structBytes c) := by
  obtain ⟨-, hcache, hstats⟩ := z.parts_le c
  obtain ⟨-, -, -, hchannel⟩ := z.channelBytes_le c.maxConnections
  have hstate : z.state ≤ 2 ^ 30 := z.le _ (by simp)
  have htotal := z.structBytes_le c
  rw [structBytes] at htotal
  simp only [structSize, fgaChannelShmemSize_ok, fgaCacheShmemBaseSize_ok, fgaStatsShmemSize_ok, bind, Except.bind]
  rw [z.maxAlign_eq (by omega), z.maxAlign_eq (by omega), z.maxAlign_eq (by omega), z.maxAlign_eq (by omega),
    addSize_ok (by omega)]
  dsimp only
  rw [addSize_ok (by omega)]
  dsimp only
  rw [addSize_ok (by omega), structBytes]

end StructSizes

/-- The sizes on x86-64. -/
def x86_64 : StructSizes where
  maximumAlignof := 8
  state := 48
  channel := 40
  poolSlots := 8
  slot := 744
  queueValues := 6
  slotIndex := 2
  cacheEntries := 24
  entry := 64
  indexSlot := 40
  statsBackends := 56
  backendStats := 104
  maximumAlignof_pos := by decide
  slot_pos := by decide
  entry_pos := by decide
  le := by decide

end PostFga
