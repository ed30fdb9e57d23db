import Mathlib.Data.List.Nodup
import Mathlib.Data.List.Perm.Subperm
import Mathlib.Data.Nat.ModEq
/-
# A counter that wraps, used modulo something else

`turn m n v` is what `n` reads of a counter modulo `m` give modulo `n`, the first one at the value `v`. They
are the numbers below `n`, each once, if the counter does not wrap in between or `n` divides `m`; and only
then (`turn_perm_iff`).
-/

namespace PostFga.WrappedCounter

def turn (m n v : Nat) : List Nat := (List.range n).map fun i => (v + i) % m % n

variable {m n v : Nat}

/-- Without a wrap `n` numbers in a row leave every remainder once. -/
theorem range_add_mod_perm (v : Nat) (hn : 0 < n) :
    List.Perm ((List.range n).map fun i => (v + i) % n) (List.range n) := by
  have hnodup : ((List.range n).map fun i => (v + i) % n).Nodup := by
    refine List.Nodup.map_on ?_ List.nodup_range
    intro i hi j hj h
    rw [List.mem_range] at hi hj
    have hmod : i ≡ j [MOD n] := Nat.ModEq.add_left_cancel' v h
    rwa [Nat.ModEq, Nat.mod_eq_of_lt hi, Nat.mod_eq_of_lt hj] at hmod
  have hsub : ((List.range n).map fun i => (v + i) % n) ⊆ List.range n := by
    intro x hx
    obtain ⟨i, -, rfl⟩ := List.mem_map.1 hx
    exact List.mem_range.2 (Nat.mod_lt _ hn)
  exact (hnodup.subperm hsub).perm_of_length_le (by simp)

theorem turn_eq (h : n ∣ m ∨ v + n ≤ m) : turn m n v = (List.range n).map fun i => (v + i) % n := by
  refine List.map_congr_left fun i hi => ?_
  rw [List.mem_range] at hi
  rcases h with h | h
  · exact Nat.mod_mod_of_dvd _ h
  · rw [Nat.mod_eq_of_lt (by omega : v + i < m)]

/-- Over a wrap, two of the reads agree. -/
theorem turn_collision (hv : v < m) (hnm : n ≤ m) (hwrap : m < v + n) (hdvd : ¬ n ∣ m) :
    ∃ i j, i < j ∧ j < n ∧ (v + i) % m % n = (v + j) % m % n := by
  have hn : 0 < n := by omega
  have hr : 0 < m % n := Nat.pos_of_ne_zero fun h => hdvd (Nat.dvd_of_mod_eq_zero h)
  have hrn : m % n < n := Nat.mod_lt m hn
  have hdiv := Nat.div_add_mod m n
  -- the reads before the wrap end with the remainder of `m - 1`, those after it begin with 0
  have before : ∀ i, v + i < m → (v + i) % m % n = (v + i) % n := fun i hi => by rw [Nat.mod_eq_of_lt hi]
  have after : ∀ d, d < n → (v + (m - v + d)) % m % n = d := by
    intro d hd
    rw [show v + (m - v + d) = m + d by omega, Nat.add_mod_left, Nat.mod_eq_of_lt (hd.trans_le hnm),
      Nat.mod_eq_of_lt hd]
  rcases Nat.lt_or_ge (m % n) (m - v) with hlt | hge
  · refine ⟨m - v - m % n, m - v + 0, by omega, by omega, ?_⟩
    rw [before _ (by omega), after 0 hn, show v + (m - v - m % n) = n * (m / n) by omega, Nat.mul_mod_right]
  · refine ⟨0, m - v + (m % n - (m - v)), by omega, by omega, ?_⟩
    rw [before _ (by omega), after _ (by omega), show v + 0 = m % n - (m - v) + n * (m / n) by omega,
      Nat.add_mul_mod_self_left, Nat.mod_eq_of_lt (by omega)]

/-- **A turn visits every number once exactly when** the counter does not wrap in it or wraps at a
multiple. -/
theorem turn_perm_iff (hn : 0 < n) (hv : v < m) (hnm : n ≤ m) :
    List.Perm (turn m n v) (List.range n) ↔ n ∣ m ∨ v + n ≤ m := by
  constructor
  · intro h
    by_contra hno
    obtain ⟨i, j, hij, hj, heq⟩ := turn_collision hv hnm (by omega) fun h => hno (Or.inl h)
    have hnodup : (turn m n v).Nodup := h.nodup_iff.2 List.nodup_range
    have := List.inj_on_of_nodup_map hnodup (List.mem_range.2 (by omega)) (List.mem_range.2 hj) heq
    omega
  · intro h
    rw [turn_eq h]
    exact range_add_mod_perm v hn

end PostFga.WrappedCounter
