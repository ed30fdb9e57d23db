import Mathlib.Data.Nat.ModEq
import Mathlib.Logic.Function.Basic
/-
# The ring of slot indices (`channel_slot.h`)

`head` and `tail` are 16-bit counters that run freely and wrap; an index is masked when the array
is accessed. A ring of capacity `2^k` holds at most `2^k - 1` indices.

| here | there |
| --- | --- |
| `FgaChannelSlotQueue` | `channel.h:49` |
| `queueInit`, `queueSize`, `queueIsEmpty`, `queueIsFull` | `channel_slot.h:43`, `:54`, `:59`, `:64` |
| `queueAvailable`      | `:73`; its `unsigned` differences are cut to 16 bits on return |
| `queueEnqueue`, `queueDequeue` | `:85`, `:102`; `none` is a full or an empty ring |
| `queueDrain`          | `:119`, its `while` by recursion on `max_count - n` |
| `queuePeek`           | `:138`; `tail + index` is an `int` and does not wrap |

`Ring q k l` says that a ring of capacity `2^k` holds the indices `l`, the oldest first.
-/

namespace PostFga

structure FgaChannelSlotQueue where
  mask : UInt16
  head : UInt16
  tail : UInt16
  values : Nat → UInt16

/-- The array keeps what the segment held. -/
def queueInit (capacity : UInt16) (mem : Nat → UInt16) : FgaChannelSlotQueue :=
  { mask := capacity - 1, head := 0, tail := 0, values := mem }

section
variable (q : FgaChannelSlotQueue)

def queueSize : UInt16 := (q.head - q.tail) &&& q.mask

def queueIsEmpty : Bool := q.head == q.tail

def queueIsFull : Bool := queueSize q == q.mask

def queueAvailable : UInt16 :=
  let capacity := q.mask + 1
  capacity - 1 - queueSize q

def queueEnqueue (slotIndex : UInt16) : Option FgaChannelSlotQueue :=
  if queueIsFull q then none
  else some { q with
    values := Function.update q.values (q.head &&& q.mask).toNat slotIndex
    head := q.head + 1 }

def queueDequeue : Option (UInt16 × FgaChannelSlotQueue) :=
  if queueIsEmpty q then none
  else some (q.values (q.tail &&& q.mask).toNat, { q with tail := q.tail + 1 })

def queuePeek (index : UInt16) : Option UInt16 :=
  if index ≥ queueSize q then none
  else some (q.values ((q.tail.toNat + index.toNat) &&& q.mask.toNat))

end

def queueDrain : Nat → FgaChannelSlotQueue → List UInt16 × FgaChannelSlotQueue
  | 0, q => ([], q)
  | maxCount + 1, q =>
    if queueIsEmpty q then ([], q)
    else
      let value := q.values (q.tail &&& q.mask).toNat
      let (rest, q) := queueDrain maxCount { q with tail := q.tail + 1 }
      (value :: rest, q)

/-- The indices in the ring, the oldest first. -/
def queueContents (q : FgaChannelSlotQueue) : List UInt16 := (queueDrain (queueSize q).toNat q).1

/-! ## The indices a ring holds -/

structure Ring (q : FgaChannelSlotQueue) (k : Nat) (l : List UInt16) : Prop where
  k_le : k ≤ 15
  mask : q.mask.toNat = 2 ^ k - 1
  length_lt : l.length < 2 ^ k
  head : q.head = q.tail + UInt16.ofNat l.length
  get : ∀ (i : Nat) v, l[i]? = some v → q.values ((q.tail.toNat + i) % 2 ^ k) = v

theorem and_mask {x m : UInt16} {k : Nat} (hm : m.toNat = 2 ^ k - 1) :
    (x &&& m).toNat = x.toNat % 2 ^ k := by
  rw [UInt16.toNat_and, hm, Nat.and_two_pow_sub_one_eq_mod]

theorem two_pow_le {k : Nat} (hk : k ≤ 15) : 2 ^ k ≤ 32768 :=
  Nat.pow_le_pow_right (by decide) hk

/-- Wrapping a counter at 2^16 does not move its index. -/
theorem toNat_add_mod {x : UInt16} {n k : Nat} (hk : k ≤ 15) :
    (x + UInt16.ofNat n).toNat % 2 ^ k = (x.toNat + n) % 2 ^ k := by
  have hd : 2 ^ k ∣ 2 ^ 16 := Nat.pow_dvd_pow 2 (by omega)
  have hn : (UInt16.ofNat n).toNat = n % 2 ^ 16 := UInt16.toNat_ofNat'
  rw [UInt16.toNat_add, hn, Nat.add_mod_mod, Nat.mod_mod_of_dvd _ hd]

/-- Two positions of one ring have different indices. -/
theorem add_mod_inj {a i j m : Nat} (hi : i < m) (hj : j < m) (h : (a + i) % m = (a + j) % m) : i = j := by
  have := Nat.ModEq.add_left_cancel' a h
  rwa [Nat.ModEq, Nat.mod_eq_of_lt hi, Nat.mod_eq_of_lt hj] at this

section
variable {q : FgaChannelSlotQueue} {k : Nat} {l : List UInt16}

theorem Ring.sub (h : Ring q k l) : (q.head - q.tail).toNat = l.length := by
  have hk := two_pow_le h.k_le
  have hl := h.length_lt
  have hn : (UInt16.ofNat l.length).toNat = l.length % 2 ^ 16 := UInt16.toNat_ofNat'
  have ht := UInt16.toNat_lt q.tail
  rw [h.head, UInt16.toNat_sub, UInt16.toNat_add, hn]
  omega

theorem Ring.size (h : Ring q k l) : (queueSize q).toNat = l.length := by
  rw [queueSize, and_mask h.mask, h.sub, Nat.mod_eq_of_lt h.length_lt]

theorem Ring.isEmpty (h : Ring q k l) : queueIsEmpty q = true ↔ l = [] := by
  rw [queueIsEmpty, beq_iff_eq, ← List.length_eq_zero_iff, ← h.sub]
  constructor
  · intro he
    rw [he, UInt16.sub_self]; rfl
  · intro h0
    have h0' : q.head - q.tail = 0 := UInt16.toNat_inj.1 h0
    calc q.head = q.tail + (q.head - q.tail) := by rw [UInt16.add_comm, UInt16.sub_add_cancel]
      _ = q.tail := by rw [h0', UInt16.add_zero]

theorem Ring.isFull (h : Ring q k l) : queueIsFull q = true ↔ l.length = 2 ^ k - 1 := by
  rw [queueIsFull, beq_iff_eq, ← UInt16.toNat_inj, h.size, h.mask]

theorem ring_init {k : Nat} (hk : k ≤ 15) (mem : Nat → UInt16) :
    Ring (queueInit (UInt16.ofNat (2 ^ k)) mem) k [] where
  k_le := hk
  mask := by
    have h2 := two_pow_le hk
    have h0 := Nat.two_pow_pos k
    have hn : (UInt16.ofNat (2 ^ k)).toNat = 2 ^ k % 2 ^ 16 := UInt16.toNat_ofNat'
    have h1 : (1 : UInt16).toNat = 1 := rfl
    change (UInt16.ofNat (2 ^ k) - 1).toNat = _
    rw [UInt16.toNat_sub, hn, h1]
    generalize 2 ^ k = m at *
    omega
  length_lt := Nat.two_pow_pos k
  head := rfl
  get i v hi := by simp at hi

/-- **Enqueue** puts the index last, and refuses exactly when the ring holds `2^k - 1`. -/
theorem Ring.enqueue (h : Ring q k l) (v : UInt16) :
    (l.length = 2 ^ k - 1 ∧ queueEnqueue q v = none) ∨
    ∃ q', l.length < 2 ^ k - 1 ∧ queueEnqueue q v = some q' ∧ Ring q' k (l ++ [v]) := by
  unfold queueEnqueue
  split
  · rename_i hf
    exact Or.inl ⟨h.isFull.1 hf, rfl⟩
  · rename_i hf
    have hne : l.length ≠ 2 ^ k - 1 := fun he => hf (h.isFull.2 he)
    have hl := h.length_lt
    refine Or.inr ⟨_, by omega, rfl, h.k_le, h.mask, by simp; omega, ?_, fun i w hi => ?_⟩
    · show q.head + 1 = _
      rw [h.head, UInt16.add_assoc, List.length_append, UInt16.ofNat_add]
      rfl
    · show Function.update q.values (q.head &&& q.mask).toNat v ((q.tail.toNat + i) % 2 ^ k) = w
      rw [and_mask h.mask, h.head, toNat_add_mod h.k_le]
      rcases Nat.lt_or_ge i l.length with hlt | hge
      · rw [List.getElem?_append_left hlt] at hi
        rw [Function.update_of_ne, h.get i w hi]
        intro he
        have := add_mod_inj (by omega) hl he
        omega
      · have hlen := (List.getElem?_eq_some_iff.1 hi).1
        simp only [List.length_append, List.length_cons, List.length_nil] at hlen
        obtain rfl : i = l.length := by omega
        rw [Function.update_self]
        simpa using hi

theorem Ring.of_enqueue {v : UInt16} {q' : FgaChannelSlotQueue} (h : Ring q k l)
    (hq : queueEnqueue q v = some q') : Ring q' k (l ++ [v]) := by
  obtain ⟨-, hnone⟩ | ⟨q'', -, hsome, h'⟩ := h.enqueue v
  · rw [hnone] at hq; cases hq
  rw [hq] at hsome
  cases hsome
  exact h'

theorem Ring.available (h : Ring q k l) : (queueAvailable q).toNat = 2 ^ k - 1 - l.length := by
  have h1 : queueAvailable q = q.mask - queueSize q := by
    simp only [queueAvailable, UInt16.add_sub_cancel]
  have hle : (queueSize q).toNat ≤ q.mask.toNat := by
    have := h.length_lt
    rw [h.size, h.mask]
    omega
  rw [h1, UInt16.toNat_sub_of_le _ _ (UInt16.le_iff_toNat_le.2 hle), h.mask, h.size]

/-- What every removal reads and leaves. -/
theorem Ring.shift {v : UInt16} (h : Ring q k (v :: l)) :
    queueIsEmpty q = false ∧ q.values (q.tail &&& q.mask).toNat = v ∧
      Ring { q with tail := q.tail + 1 } k l := by
  have hne : queueIsEmpty q ≠ true := fun he => List.cons_ne_nil v l (h.isEmpty.1 he)
  refine ⟨Bool.eq_false_iff.2 hne, ?_, h.k_le, h.mask, ?_, ?_, fun i w hi => ?_⟩
  · rw [and_mask h.mask]
    exact h.get 0 v rfl
  · have hl := h.length_lt
    rw [List.length_cons] at hl
    omega
  · show q.head = q.tail + 1 + _
    rw [h.head, UInt16.add_assoc, List.length_cons, Nat.add_comm, UInt16.ofNat_add]
    rfl
  · have hg := h.get (i + 1) w hi
    have hm := toNat_add_mod (x := q.tail) (n := 1) h.k_le
    show q.values (((q.tail + 1).toNat + i) % 2 ^ k) = w
    rw [← hg, Nat.add_mod, show (q.tail + 1).toNat % 2 ^ k = (q.tail.toNat + 1) % 2 ^ k from hm,
      ← Nat.add_mod, Nat.add_assoc, Nat.add_comm 1 i]

/-- **Dequeue** takes the oldest index, and refuses exactly when there is none. -/
theorem Ring.dequeue (h : Ring q k l) :
    (l = [] ∧ queueDequeue q = none) ∨
    ∃ v l' q', l = v :: l' ∧ queueDequeue q = some (v, q') ∧ Ring q' k l' := by
  unfold queueDequeue
  cases l with
  | nil => exact Or.inl ⟨rfl, if_pos (h.isEmpty.2 rfl)⟩
  | cons v l =>
    obtain ⟨he, hv, h'⟩ := h.shift
    refine Or.inr ⟨v, l, _, rfl, ?_, h'⟩
    rw [he, hv]
    rfl

/-- **Peek** reads the index at a position, counted from the oldest. -/
theorem Ring.peek (h : Ring q k l) (i : UInt16) : queuePeek q i = l[i.toNat]? := by
  unfold queuePeek
  have hs := h.size
  split
  · rename_i hge
    have := UInt16.le_iff_toNat_le.1 hge
    rw [List.getElem?_eq_none (by omega)]
  · rename_i hge
    have hlt : i.toNat < l.length := by
      have := mt UInt16.le_iff_toNat_le.2 hge
      omega
    rw [List.getElem?_eq_getElem hlt, h.mask, Nat.and_two_pow_sub_one_eq_mod,
      h.get _ _ (List.getElem?_eq_getElem hlt)]

/-- **Drain** takes the oldest indices, at most `n` of them. -/
theorem Ring.drain (n : Nat) (h : Ring q k l) :
    (queueDrain n q).1 = l.take n ∧ Ring (queueDrain n q).2 k (l.drop n) := by
  induction n generalizing q l with
  | zero => exact ⟨rfl, h⟩
  | succ n ih =>
    cases l with
    | nil =>
      have he := h.isEmpty.2 rfl
      simp only [queueDrain, he, if_true]
      exact ⟨rfl, h⟩
    | cons v l =>
      obtain ⟨he, h0, h'⟩ := h.shift
      obtain ⟨h1, h2⟩ := ih h'
      simp only [queueDrain, he, Bool.false_eq_true, if_false, h0, List.take_succ_cons, List.drop_succ_cons]
      exact ⟨by rw [h1], h2⟩

theorem Ring.contents (h : Ring q k l) : queueContents q = l := by
  rw [queueContents, (h.drain _).1, h.size, List.take_length]

end

end PostFga
