import Mathlib.Algebra.BigOperators.Fin
import Mathlib.Algebra.Order.BigOperators.Group.List
import Mathlib.Algebra.Order.Ring.Nat
/-
# A sum of counters that go on while they are read

The components of a sum are read one after the other, and only grow: what comes out lies between the sum
before and the sum after.

* `Between` — the components in `read` have been added up, each at a time of its own.
* `Between.nil`, `Between.snoc`, `Between.mono` — nothing read, one component more, and time passing.
* `sum_countP` — counters that share out what is counted.
* `countP_of_count` — what is counted of the same things as often is as much.
-/

namespace PostFga.Totals

open Finset

variable {ι : Type}

structure Between (c₀ c : ι → Nat) (read : List ι) (total : Nat) : Prop where
  lower : (read.map c₀).sum ≤ total
  upper : total ≤ (read.map c).sum

theorem Between.nil (c₀ c : ι → Nat) : Between c₀ c [] 0 := ⟨Nat.le_refl 0, Nat.le_refl 0⟩

theorem Between.mono {c₀ c c' : ι → Nat} {read : List ι} {total : Nat} (h : Between c₀ c read total)
    (hc : ∀ i, c i ≤ c' i) : Between c₀ c' read total := by
  refine ⟨h.lower, h.upper.trans (List.sum_le_sum fun i _ => hc i)⟩

theorem Between.snoc {c₀ c : ι → Nat} {read : List ι} {total : Nat} (h : Between c₀ c read total) {i : ι}
    (hc : c₀ i ≤ c i) : Between c₀ c (read ++ [i]) (total + c i) := by
  constructor
  · rw [List.map_append, List.sum_append, List.map_singleton, List.sum_singleton]
    exact Nat.add_le_add h.lower hc
  · rw [List.map_append, List.sum_append, List.map_singleton, List.sum_singleton]
    exact Nat.add_le_add_right h.upper (c i)

/-- What is counted at a place is counted at one place. -/
theorem sum_countP {α : Type} {n : Nat} (place : α → Option (Fin n)) (p : α → Bool) (l : List α) :
    ∑ i, l.countP (fun x => decide (place x = some i) && p x) = l.countP fun x => (place x).isSome && p x := by
  induction l with
  | nil => simp
  | cons x l ih =>
    simp only [List.countP_cons, sum_add_distrib, ih]
    congr 1
    cases hx : place x with
    | none => simp
    | some i => cases hp : p x <;> simp

theorem countP_of_count {l l' : List Nat} {p : Nat → Bool} (h : ∀ b, p b = true → l.count b = l'.count b) :
    l.countP p = l'.countP p := by
  have hperm : (l.filter p).Perm (l'.filter p) := by
    refine List.perm_iff_count.2 fun b => ?_
    cases hp : p b with
    | true => rw [List.count_filter hp, List.count_filter hp, h b hp]
    | false =>
      have hnot : ∀ l : List Nat, b ∉ l.filter p := by
        intro l hb
        rw [(List.mem_filter.1 hb).2] at hp
        cases hp
      rw [List.count_eq_zero_of_not_mem (hnot l), List.count_eq_zero_of_not_mem (hnot l')]
  rw [List.countP_eq_length_filter, List.countP_eq_length_filter, hperm.length_eq]

end PostFga.Totals
