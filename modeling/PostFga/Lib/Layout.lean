import Mathlib.Order.Interval.Set.Basic
/-
# Regions carved out of one segment

A cursor starts at the beginning of the segment; a piece takes `len` bytes at the cursor and moves it on by
`step`. If no piece takes more than it moves the cursor, the regions are disjoint and end before the cursor
does (`carve_spec`), and if the steps are rounded up to an alignment, the regions are aligned.
-/

namespace PostFga.Layout

/-! ## Rounding up -/

def roundUp (a n : Nat) : Nat := (n + (a - 1)) / a * a

theorem dvd_roundUp (a n : Nat) : a ∣ roundUp a n := Nat.dvd_mul_left a _

section
variable {a n : Nat}

theorem le_roundUp (ha : 0 < a) : n ≤ roundUp a n := by
  have hdiv := Nat.div_add_mod (n + (a - 1)) a
  have hmod := Nat.mod_lt (n + (a - 1)) ha
  rw [roundUp, Nat.mul_comm]
  omega

theorem roundUp_le (a n : Nat) : roundUp a n ≤ n + a := by
  have := Nat.div_mul_le_self (n + (a - 1)) a
  rw [roundUp]
  omega

/-- Rounding up a second time does nothing. -/
theorem roundUp_of_dvd (ha : 0 < a) (h : a ∣ n) : roundUp a n = n := by
  obtain ⟨k, rfl⟩ := h
  rw [roundUp, Nat.mul_add_div ha, Nat.div_eq_of_lt (by omega), Nat.add_zero, Nat.mul_comm]

end

/-! ## Regions -/

structure Region where
  start : Nat
  len : Nat
deriving DecidableEq, Repr

/-- The addresses of its bytes. -/
def Region.bytes (r : Region) : Set Nat := Set.Ico r.start (r.start + r.len)

/-- They have no byte in common. -/
def Region.Apart (r s : Region) : Prop := ∀ x ∈ r.bytes, x ∉ s.bytes

structure Piece where
  len : Nat
  step : Nat
deriving DecidableEq, Repr

def carve : Nat → List Piece → List Region
  | _, [] => []
  | cursor, p :: ps => ⟨cursor, p.len⟩ :: carve (cursor + p.step) ps

/-- How far the pieces move the cursor. -/
def extent : List Piece → Nat
  | [] => 0
  | p :: ps => p.step + extent ps

/-- A region starts where the cursor is or later, and ends before the cursor does. -/
theorem carve_within {ps : List Piece} (h : ∀ p ∈ ps, p.len ≤ p.step) (cursor : Nat) :
    ∀ r ∈ carve cursor ps, cursor ≤ r.start ∧ r.start + r.len ≤ cursor + extent ps := by
  induction ps generalizing cursor with
  | nil => simp [carve]
  | cons p ps ih =>
    rw [List.forall_mem_cons] at h
    intro r hr
    rw [carve, List.mem_cons] at hr
    rw [extent]
    rcases hr with rfl | hr
    · have := h.1
      dsimp only
      omega
    · have := ih h.2 _ r hr
      omega

theorem carve_aligned {a : Nat} {ps : List Piece} (h : ∀ p ∈ ps, a ∣ p.step) {cursor : Nat} (hc : a ∣ cursor) :
    ∀ r ∈ carve cursor ps, a ∣ r.start := by
  induction ps generalizing cursor with
  | nil => simp [carve]
  | cons p ps ih =>
    rw [List.forall_mem_cons] at h
    rw [carve, List.forall_mem_cons]
    exact ⟨hc, ih h.2 (Nat.dvd_add hc h.1)⟩

theorem carve_apart {ps : List Piece} (h : ∀ p ∈ ps, p.len ≤ p.step) (cursor : Nat) :
    (carve cursor ps).Pairwise Region.Apart := by
  induction ps generalizing cursor with
  | nil => exact List.Pairwise.nil
  | cons p ps ih =>
    rw [List.forall_mem_cons] at h
    refine List.pairwise_cons.2 ⟨fun r hr => ?_, ih h.2 _⟩
    have hstart := (carve_within h.2 _ r hr).1
    intro x hx hx'
    simp only [Region.bytes, Set.mem_Ico] at hx hx'
    have := h.1
    omega

/-- **Carving**: the regions are apart, aligned, and lie between the cursor's first and last
position. -/
theorem carve_spec {a : Nat} {ps : List Piece} (h : ∀ p ∈ ps, p.len ≤ p.step ∧ a ∣ p.step) {cursor : Nat}
    (hc : a ∣ cursor) :
    (carve cursor ps).Pairwise Region.Apart ∧
    ∀ r ∈ carve cursor ps, a ∣ r.start ∧ r.bytes ⊆ Set.Ico cursor (cursor + extent ps) := by
  have hlen : ∀ p ∈ ps, p.len ≤ p.step := fun p hp => (h p hp).1
  refine ⟨carve_apart hlen cursor, fun r hr => ⟨carve_aligned (fun p hp => (h p hp).2) hc r hr, ?_⟩⟩
  obtain ⟨hlo, hhi⟩ := carve_within hlen cursor r hr
  exact Set.Ico_subset_Ico hlo hhi

end PostFga.Layout
