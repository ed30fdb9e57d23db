import PostFga.Channel.Fifo
import PostFga.Shmem.Size
/-
# From `max_connections` to 16-bit indices (`channel_shmem.c`, `channel_slot.h`, `channel.c`)

The sizes are computed in `int` and `uint32`; the ring's capacity, mask, head and tail and the indices in it
are `uint16_t`, and each conversion is implicit.

| here | there |
| --- | --- |
| `QueueInitAsserts` | the asserts of `queue_init` (`channel_slot.h:46`) |
| `slotAddr`, `slotIndexOf` | `&pool->slots[i]` and `slot - pool->slots`, converted to `FgaChannelSlotIndex` (`channel.c:168`) |
| `pointerCall`      | what `fga_channel_execute_slot` (`channel.c:165`) and `fga_channel_drain_slots` (`:143`) do to the queue, from slot pointers to slot pointers |

* `pow2Ceil_isLeast` — the least power of two.
* `pointerCall_refines` — the ring of 16-bit indices is a bounded queue of slot pointers.
* `queue_sizing` — both, at the sizes of every setting.
-/

namespace PostFga

open Refinement

def QueueInitAsserts (capacity : UInt16) : Prop := 0 < capacity ∧ capacity &&& (capacity - 1) = 0

def FGA_CHANNEL_DRAIN_MAX : UInt32 := 64

inductive PointerOp where
  /-- `queue_enqueue` for the slot at an address. -/
  | execute (slot : Nat)
  | drain (maxCount : UInt32)
deriving DecidableEq, Repr

/-- A request that is too large is cut to the upper limit. -/
def cutCount (maxCount : UInt32) : UInt32 :=
  if maxCount > FGA_CHANNEL_DRAIN_MAX then FGA_CHANNEL_DRAIN_MAX else maxCount

/-- The call as one on a queue of pointers. -/
def PointerOp.asked : PointerOp → QueueOp Nat
  | .execute slot => .enqueue slot
  | .drain maxCount => .drain (cutCount maxCount)

namespace StructSizes
variable (z : StructSizes) (slots : Nat)

def slotAddr (i : Nat) : Nat := slots + z.slot * i

def slotIndexOf (slot : Nat) : UInt16 := .ofNat ((slot - slots) / z.slot)

def pointerCall (q : FgaChannelSlotQueue) : PointerOp → QueueResult Nat × FgaChannelSlotQueue
  | .execute slot =>
    let index := z.slotIndexOf slots slot
    match queueEnqueue q index with
    | none => (.flag false, q)
    | some q' => (.flag true, q')
  | .drain maxCount =>
    let (buf, q') := queueDrain (cutCount maxCount).toNat q
    (.slots (buf.map fun index => z.slotAddr slots index.toNat), q')

/-- The addresses of the first `n` slots. -/
def InPool (n slot : Nat) : Prop := ∃ i < n, slot = z.slotAddr slots i

/-! ## Slot pointers through 16 bits -/

theorem slotIndexOf_slotAddr {i : Nat} (hi : i < 2 ^ 16) : (z.slotIndexOf slots (z.slotAddr slots i)).toNat = i := by
  rw [slotIndexOf, slotAddr, Nat.add_sub_cancel_left, Nat.mul_div_cancel_left _ z.slot_pos, UInt16.toNat_ofNat']
  exact Nat.mod_eq_of_lt hi

/-- The slot that is drained is the slot that was enqueued. -/
theorem slotAddr_slotIndexOf {n slot : Nat} (hn : n ≤ 2 ^ 16) (h : z.InPool slots n slot) :
    z.slotAddr slots (z.slotIndexOf slots slot).toNat = slot := by
  obtain ⟨i, hi, rfl⟩ := h
  rw [slotIndexOf_slotAddr z slots (by omega)]

/-- The ring holds the indices of the pointers in the list. -/
structure Holds (n k : Nat) (q : FgaChannelSlotQueue) (l : List Nat) : Prop where
  ring : Ring q k (l.map (z.slotIndexOf slots))
  inPool : ∀ slot ∈ l, z.InPool slots n slot

theorem pointerCall_refines {n : Nat} (hn : n ≤ 2 ^ 16) (k : Nat) :
    Refines (z.Holds slots n k) (fun op => ∀ slot, op = .execute slot → z.InPool slots n slot)
      (z.pointerCall slots) fun l op => Bounded.call (2 ^ k - 1) l op.asked := by
  intro q l op hop h
  cases op with
  | execute slot =>
    simp only [pointerCall, PointerOp.asked, Bounded.call]
    rcases h.ring.enqueue (z.slotIndexOf slots slot) with ⟨hl, he⟩ | ⟨q', hl, he, h'⟩
    · rw [List.length_map] at hl
      rw [he, if_pos hl]
      exact ⟨rfl, h⟩
    · rw [List.length_map] at hl
      rw [he, if_neg (by omega)]
      refine ⟨rfl, by simpa using h', ?_⟩
      rw [List.forall_mem_append]
      exact ⟨h.inPool, by simpa using hop slot rfl⟩
  | drain maxCount =>
    simp only [pointerCall, PointerOp.asked, Bounded.call]
    obtain ⟨hbuf, h'⟩ := h.ring.drain (cutCount maxCount).toNat
    refine ⟨?_, by simpa using h', fun slot hs => h.inPool slot (List.mem_of_mem_drop hs)⟩
    have hback : ∀ slot ∈ l.take (cutCount maxCount).toNat,
        z.slotAddr slots (z.slotIndexOf slots slot).toNat = slot := fun slot hs =>
      slotAddr_slotIndexOf z slots hn (h.inPool slot (List.mem_of_mem_take hs))
    rw [hbuf, ← List.map_take, List.map_map]
    refine congrArg QueueResult.slots ?_
    calc _ = (l.take (cutCount maxCount).toNat).map id := List.map_congr_left hback
      _ = _ := List.map_id _

end StructSizes

/-! ## The sizes -/

/-- **Rounding up**: the least power of two that is not less. -/
theorem pow2Ceil_isLeast {x : UInt32} (hx : 1 ≤ x.toNat) (hle : x.toNat ≤ 2 ^ 31) :
    IsLeast {p | (∃ k, p = 2 ^ k) ∧ x.toNat ≤ p} (pow2Ceil x).toNat := by
  rw [pow2Ceil_toNat hx hle]
  constructor
  · exact ⟨⟨_, rfl⟩, Nat.le_pow_clog (by decide) _⟩
  · rintro _ ⟨⟨k, rfl⟩, hk⟩
    exact Nat.pow_le_pow_right (by decide) (Nat.clog_le_of_le_pow hk)

/-- A power of two below 2^16, as a capacity. -/
theorem queueInitAsserts_two_pow {k : Nat} (hk : k ≤ 15) : QueueInitAsserts (.ofNat (2 ^ k)) := by
  have h2 := two_pow_le hk
  have h0 := Nat.two_pow_pos k
  have hn : (UInt16.ofNat (2 ^ k)).toNat = 2 ^ k := by
    rw [UInt16.toNat_ofNat']
    exact Nat.mod_eq_of_lt (by omega)
  have hsub : (UInt16.ofNat (2 ^ k) - 1).toNat = 2 ^ k - 1 := by
    rw [UInt16.toNat_sub_of_le _ _ (UInt16.le_iff_toNat_le.2 (by rw [hn]; exact h0)), hn]
    rfl
  constructor
  · rw [UInt16.lt_iff_toNat_lt, hn]
    exact h0
  · rw [← UInt16.toNat_inj, and_mask hsub, hn, Nat.mod_self]
    rfl

section
variable (maxConnections : Option Int)

/-- The narrowing of the capacity to `uint16` keeps it. -/
theorem capacity_toUInt16 : (pow2Ceil (slotCountOf maxConnections)).toUInt16.toNat =
    (pow2Ceil (slotCountOf maxConnections)).toNat := by
  have hle := queueCapacity_le maxConnections
  rw [UInt32.toNat_toUInt16]
  exact Nat.mod_eq_of_lt (by omega)

theorem capacity_eq : (pow2Ceil (slotCountOf maxConnections)).toUInt16 =
    .ofNat (2 ^ Nat.clog 2 (slotCountOf maxConnections).toNat) := by
  obtain ⟨hpow, hk⟩ := queueCapacity_toNat maxConnections
  rw [← UInt16.toNat_inj, capacity_toUInt16, hpow, UInt16.toNat_ofNat']
  refine (Nat.mod_eq_of_lt ?_).symm
  exact Nat.lt_of_le_of_lt (two_pow_le (by omega)) (by decide)

/-- The ring of every setting. -/
theorem ring_of_setting (values : Nat → UInt16) :
    Ring (queueInit (pow2Ceil (slotCountOf maxConnections)).toUInt16 values)
      (Nat.clog 2 (slotCountOf maxConnections).toNat) [] := by
  have hk := (queueCapacity_toNat maxConnections).2
  rw [capacity_eq]
  exact ring_init (by omega) values

end

/-- One index for every value of `head & mask`. -/
theorem mask_add_one (maxConnections : Option Int) (values : Nat → UInt16) :
    (queueInit (pow2Ceil (slotCountOf maxConnections)).toUInt16 values).mask.toNat + 1 =
      (pow2Ceil (slotCountOf maxConnections)).toNat := by
  have hpos := Nat.two_pow_pos (Nat.clog 2 (slotCountOf maxConnections).toNat)
  rw [(ring_of_setting maxConnections values).mask, (queueCapacity_toNat maxConnections).1]
  omega

/-- What `fga_channel_shmem_init` makes of a setting. -/
structure Sized (z : StructSizes) (maxConnections : Option Int) (values : Nat → UInt16) : Prop where
  slots : (slotCountOf maxConnections).toUInt16.toNat = (slotCountOf maxConnections).toNat
  /-- The capacity is not changed by the conversion, and as `queue_init` asserts it to be. -/
  capacity : (pow2Ceil (slotCountOf maxConnections)).toUInt16.toNat =
    (pow2Ceil (slotCountOf maxConnections)).toNat
  asserts : QueueInitAsserts (pow2Ceil (slotCountOf maxConnections)).toUInt16
  power : ∃ k, (pow2Ceil (slotCountOf maxConnections)).toUInt16.toNat = 2 ^ k
  /-- `queue_shmem_size` has reserved `mask + 1` elements. -/
  reserved : z.queueShmemSize (pow2Ceil (slotCountOf maxConnections)) = .ok (z.queueValues + z.slotIndex *
    ((queueInit (pow2Ceil (slotCountOf maxConnections)).toUInt16 values).mask.toNat + 1))
  /-- A slot index is not changed by the conversion. -/
  index : ∀ slots, ∀ i < (slotCountOf maxConnections).toNat,
    (z.slotIndexOf slots (z.slotAddr slots i)).toNat = i
  /-- In any sequence of calls, slots drained are slots enqueued, the oldest first; and no call leaves the
  reserved elements. -/
  fifo : ∀ slots ops, (∀ slot, .execute slot ∈ ops → z.InPool slots (slotCountOf maxConnections).toNat slot) →
    let q := queueInit (pow2Ceil (slotCountOf maxConnections)).toUInt16 values
    (calls (z.pointerCall slots) q ops).1 = (calls (fun l op => Bounded.call q.mask.toNat l op.asked) [] ops).1 ∧
      ∀ op, ∀ i ∈ queueIndices (after (z.pointerCall slots) q ops) op, i < q.mask.toNat + 1

theorem sized (z : StructSizes) (maxConnections : Option Int) (values : Nat → UInt16) :
    Sized z maxConnections values := by
  have hring := ring_of_setting maxConnections values
  obtain ⟨hpow, hk⟩ := queueCapacity_toNat maxConnections
  have hslots := (slotCountOf_bounds maxConnections).2
  refine ⟨?_, capacity_toUInt16 _, ?_, ⟨_, (capacity_toUInt16 _).trans hpow⟩, ?_, ?_, ?_⟩
  · rw [UInt32.toNat_toUInt16]
    exact Nat.mod_eq_of_lt (by omega)
  · rw [capacity_eq]
    exact queueInitAsserts_two_pow (by omega)
  · rw [mask_add_one]
    exact z.queueShmemSize_ok maxConnections
  · intro slots i hi
    exact z.slotIndexOf_slotAddr slots (by omega)
  · intro slots ops hops q
    have h0 : z.Holds slots (slotCountOf maxConnections).toNat
        (Nat.clog 2 (slotCountOf maxConnections).toNat) q [] := ⟨hring, by simp⟩
    have hP : ∀ op ∈ ops, ∀ slot, op = .execute slot → z.InPool slots (slotCountOf maxConnections).toNat slot := by
      rintro _ hop slot rfl
      exact hops slot hop
    obtain ⟨h1, h2⟩ := (z.pointerCall_refines slots (by omega) _).calls h0 ops hP
    refine ⟨?_, fun op i hi => ?_⟩
    · rw [show q.mask.toNat = 2 ^ Nat.clog 2 (slotCountOf maxConnections).toNat - 1 from hring.mask]
      exact h1
    · rw [mask_add_one, hpow]
      exact h2.ring.indices_lt op i hi

/-- **The sizing arithmetic.** `pow2_ceil` gives the least power of two for every word up to 2^31; and at
every setting, nothing is lost on the way from the 32-bit sizes to the 16-bit ring, which has one element
for every value of `head & mask` and gives back the slot pointers that were put in. -/
theorem queue_sizing :
    (∀ x : UInt32, 1 ≤ x.toNat → x.toNat ≤ 2 ^ 31 →
      IsLeast {p | (∃ k, p = 2 ^ k) ∧ x.toNat ≤ p} (pow2Ceil x).toNat) ∧
    ∀ z maxConnections values, Sized z maxConnections values :=
  ⟨fun _ hx hle => pow2Ceil_isLeast hx hle, sized⟩

/-- 1400 slots, and the last one through the queue. -/
theorem queue_sizing_700 :
    IsLeast {p | (∃ k, p = 2 ^ k) ∧ 1400 ≤ p} (pow2Ceil 1400).toNat ∧
    (calls (x86_64.pointerCall 4096) (queueInit (pow2Ceil (slotCountOf (some 700))).toUInt16 fun _ => 0)
      [.execute (x86_64.slotAddr 4096 1399), .drain 50]).1 =
      [.flag true, .slots [x86_64.slotAddr 4096 1399]] := by
  obtain ⟨hround, hsized⟩ := queue_sizing
  refine ⟨hround 1400 (by decide) (by decide), ?_⟩
  have hin : x86_64.InPool 4096 (slotCountOf (some 700)).toNat (x86_64.slotAddr 4096 1399) :=
    ⟨1399, by decide, rfl⟩
  rw [((hsized x86_64 (some 700) fun _ => 0).fifo 4096 _ (by simpa using hin)).1]
  decide +kernel

end PostFga
