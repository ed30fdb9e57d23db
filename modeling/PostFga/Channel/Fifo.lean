import PostFga.Channel.Queue
import PostFga.Lib.Simulation
/-
# The ring is a bounded queue

`Bounded.call` is a first-in first-out list that holds at most `bound` elements: what the ring is
for. `queueCall` is one call of `channel_slot.h` on the ring, `queueIndices` the elements of
`values` it reads or writes. The ring of capacity `2^k` is the list bounded by `2^k - 1`, however
often its counters wrap.
-/

namespace PostFga

open Refinement

inductive QueueOp (α : Type) where
  | enqueue (slotIndex : α)
  | dequeue
  | drain (maxCount : UInt32)
  | peek (index : UInt16)
  | size
  | available
  | isEmpty
  | isFull
  deriving DecidableEq, Repr

/-- What a call returns, with what it wrote through its out parameter. -/
inductive QueueResult (α : Type) where
  | flag (b : Bool)
  | slot (out : Option α)
  | slots (out : List α)
  | count (n : Nat)
  deriving DecidableEq, Repr

def queueCall (q : FgaChannelSlotQueue) : QueueOp UInt16 → QueueResult UInt16 × FgaChannelSlotQueue
  | .enqueue slotIndex =>
    match queueEnqueue q slotIndex with
    | none => (.flag false, q)
    | some q' => (.flag true, q')
  | .dequeue =>
    match queueDequeue q with
    | none => (.slot none, q)
    | some (value, q') => (.slot (some value), q')
  | .drain maxCount =>
    let (values, q') := queueDrain maxCount.toNat q
    (.slots values, q')
  | .peek index => (.slot (queuePeek q index), q)
  | .size => (.count (queueSize q).toNat, q)
  | .available => (.count (queueAvailable q).toNat, q)
  | .isEmpty => (.flag (queueIsEmpty q), q)
  | .isFull => (.flag (queueIsFull q), q)

def queueDrainIndices : Nat → FgaChannelSlotQueue → List Nat
  | 0, _ => []
  | maxCount + 1, q =>
    if queueIsEmpty q then []
    else (q.tail &&& q.mask).toNat :: queueDrainIndices maxCount { q with tail := q.tail + 1 }

/-- The elements of `values` that a call reads or writes. -/
def queueIndices (q : FgaChannelSlotQueue) : QueueOp UInt16 → List Nat
  | .enqueue _ => if queueIsFull q then [] else [(q.head &&& q.mask).toNat]
  | .dequeue => if queueIsEmpty q then [] else [(q.tail &&& q.mask).toNat]
  | .drain maxCount => queueDrainIndices maxCount.toNat q
  | .peek index => if index ≥ queueSize q then [] else [(q.tail.toNat + index.toNat) &&& q.mask.toNat]
  | .size | .available | .isEmpty | .isFull => []

/-! ## The bounded queue -/

def Bounded.call {α : Type} (bound : Nat) (l : List α) : QueueOp α → QueueResult α × List α
  | .enqueue v => if l.length = bound then (.flag false, l) else (.flag true, l ++ [v])
  | .dequeue => (.slot l.head?, l.tail)
  | .drain n => (.slots (l.take n.toNat), l.drop n.toNat)
  | .peek i => (.slot l[i.toNat]?, l)
  | .size => (.count l.length, l)
  | .available => (.count (bound - l.length), l)
  | .isEmpty => (.flag l.isEmpty, l)
  | .isFull => (.flag (l.length == bound), l)

theorem Bounded.length_le {α : Type} {bound : Nat} {l : List α} (h : l.length ≤ bound) (op : QueueOp α) :
    (Bounded.call bound l op).2.length ≤ bound := by
  cases op with
  | enqueue v =>
    simp only [Bounded.call]
    split
    · exact h
    · simp only [List.length_append, List.length_cons, List.length_nil]
      omega
  | dequeue =>
    simp only [Bounded.call, List.length_tail]
    omega
  | drain n =>
    simp only [Bounded.call, List.length_drop]
    omega
  | peek | size | available | isEmpty | isFull => exact h

/-! ## The ring refines it -/

theorem queueCall_refines (k : Nat) :
    Refines (fun q l => Ring q k l) (fun _ => True) queueCall (Bounded.call (2 ^ k - 1)) := by
  intro q l op _ h
  cases op with
  | enqueue v =>
    simp only [queueCall, Bounded.call]
    rcases h.enqueue v with ⟨hl, hn⟩ | ⟨q', hl, hs, h'⟩
    · rw [hn, if_pos hl]
      exact ⟨rfl, h⟩
    · rw [hs, if_neg (by omega)]
      exact ⟨rfl, h'⟩
  | dequeue =>
    simp only [queueCall, Bounded.call]
    rcases h.dequeue with ⟨rfl, hn⟩ | ⟨v, l', q', rfl, hs, h'⟩
    · rw [hn]
      exact ⟨rfl, h⟩
    · rw [hs]
      exact ⟨rfl, h'⟩
  | drain n =>
    obtain ⟨h1, h2⟩ := h.drain n.toNat
    exact ⟨congrArg QueueResult.slots h1, h2⟩
  | peek i => exact ⟨congrArg QueueResult.slot (h.peek i), h⟩
  | size => exact ⟨congrArg QueueResult.count h.size, h⟩
  | available => exact ⟨congrArg QueueResult.count h.available, h⟩
  | isEmpty =>
    refine ⟨congrArg QueueResult.flag ?_, h⟩
    rw [Bool.eq_iff_iff, h.isEmpty, List.isEmpty_iff]
  | isFull =>
    refine ⟨congrArg QueueResult.flag ?_, h⟩
    rw [Bool.eq_iff_iff, h.isFull, beq_iff_eq]

section
variable {q : FgaChannelSlotQueue} {k : Nat} {l : List UInt16}

theorem Ring.drainIndices_lt (h : Ring q k l) (n : Nat) : ∀ i ∈ queueDrainIndices n q, i < 2 ^ k := by
  induction n generalizing q l with
  | zero => simp [queueDrainIndices]
  | succ n ih =>
    cases l with
    | nil => simp [queueDrainIndices, h.isEmpty.2 rfl]
    | cons v l =>
      obtain ⟨he, -, h'⟩ := h.shift
      intro i hi
      simp only [queueDrainIndices, he, Bool.false_eq_true, if_false, List.mem_cons] at hi
      rcases hi with rfl | hi
      · rw [and_mask h.mask]
        exact Nat.mod_lt _ (Nat.two_pow_pos k)
      · exact ih h' i hi

theorem Ring.indices_lt (h : Ring q k l) (op : QueueOp UInt16) : ∀ i ∈ queueIndices q op, i < 2 ^ k := by
  have hpos := Nat.two_pow_pos k
  intro i hi
  cases op with
  | enqueue v =>
    obtain ⟨-, rfl⟩ : queueIsFull q = false ∧ i = (q.head &&& q.mask).toNat := by
      simpa [queueIndices] using hi
    rw [and_mask h.mask]
    exact Nat.mod_lt _ hpos
  | dequeue =>
    obtain ⟨-, rfl⟩ : queueIsEmpty q = false ∧ i = (q.tail &&& q.mask).toNat := by
      simpa [queueIndices] using hi
    rw [and_mask h.mask]
    exact Nat.mod_lt _ hpos
  | drain n => exact h.drainIndices_lt n.toNat i hi
  | peek j =>
    obtain ⟨-, rfl⟩ : j < queueSize q ∧ i = (q.tail.toNat + j.toNat) &&& q.mask.toNat := by
      simpa [queueIndices] using hi
    rw [h.mask, Nat.and_two_pow_sub_one_eq_mod]
    exact Nat.mod_lt _ hpos
  | size | available | isEmpty | isFull => simp [queueIndices] at hi

end

/-- **The ring is the bounded queue**: from `queue_init` on, every call answers as the list of at
most `2^k - 1` indices does, and stays inside the array. -/
theorem queue_refines_bounded (k : Nat) (hk : k ≤ 15) (mem : Nat → UInt16) (ops : List (QueueOp UInt16)) :
    let q := queueInit (UInt16.ofNat (2 ^ k)) mem
    (calls queueCall q ops).1 = (calls (Bounded.call (2 ^ k - 1)) [] ops).1 ∧
      (after (Bounded.call (2 ^ k - 1)) [] ops).length ≤ 2 ^ k - 1 ∧
      ∀ op, ∀ i ∈ queueIndices (after queueCall q ops) op, i < 2 ^ k := by
  intro q
  have h0 : Ring q k [] := ring_init hk mem
  obtain ⟨h1, h2⟩ := (queueCall_refines k).calls h0 ops fun _ _ => trivial
  refine ⟨h1, ?_, fun op => h2.indices_lt op⟩
  exact calls_inv (fun l : List UInt16 => l.length ≤ 2 ^ k - 1) (fun l op h => Bounded.length_le h op)
    (Nat.zero_le _) ops

theorem queue_refines_bounded_two :
    let ops : List (QueueOp UInt16) := [.enqueue 7, .enqueue 8, .isFull, .dequeue, .enqueue 9, .drain 3]
    let q := queueInit (UInt16.ofNat (2 ^ 1)) fun _ => 0
    (calls queueCall q ops).1 =
        [.flag true, .flag false, .flag true, .slot (some 7), .flag true, .slots [9]] ∧
      (calls queueCall q ops).1 = (calls (Bounded.call (2 ^ 1 - 1)) [] ops).1 ∧
      ∀ op, ∀ i ∈ queueIndices (after queueCall q ops) op, i < 2 ^ 1 := by
  intro ops q
  obtain ⟨h1, -, h2⟩ := queue_refines_bounded 1 (by decide) (fun _ => 0) ops
  exact ⟨by decide +kernel, h1, h2⟩

end PostFga
