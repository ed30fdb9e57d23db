import Mathlib.Data.Nat.Bitwise
import Mathlib.Data.Nat.Log
/-
# Rounding up to a power of two by smearing the highest bit

`x ||| x >>> 1`, then the result with `>>> 2`, `>>> 4` and so on, sets every bit below the highest one.
One less before and one more after round a number up to a power of two.
-/

namespace PostFga.Smear

def smear (m x : Nat) : Nat := x ||| x >>> m

/-- After the first `t` steps. -/
def smears : Nat → Nat → Nat
  | 0, x => x
  | t + 1, x => smear (2 ^ t) (smears t x)

/-- A bit is set if one of the `2^t` from it upwards was. -/
theorem testBit_smears (t x i : Nat) :
    (smears t x).testBit i = true ↔ ∃ d < 2 ^ t, x.testBit (i + d) = true := by
  induction t generalizing i with
  | zero =>
    constructor
    · intro h
      exact ⟨0, by simp, h⟩
    · rintro ⟨d, hd, h⟩
      obtain rfl : d = 0 := by simpa using hd
      exact h
  | succ t ih =>
    have hpow : 2 ^ (t + 1) = 2 ^ t + 2 ^ t := by rw [Nat.pow_succ, Nat.mul_two]
    rw [smears, smear, Nat.testBit_or, Nat.testBit_shiftRight, Bool.or_eq_true, ih, ih]
    constructor
    · rintro (⟨d, hd, h⟩ | ⟨d, hd, h⟩)
      · exact ⟨d, by omega, h⟩
      · exact ⟨2 ^ t + d, by omega, by rwa [← Nat.add_assoc, Nat.add_comm i]⟩
    · rintro ⟨d, hd, h⟩
      rcases Nat.lt_or_ge d (2 ^ t) with hlt | hge
      · exact Or.inl ⟨d, hlt, h⟩
      · refine Or.inr ⟨d - 2 ^ t, by omega, ?_⟩
        rwa [show 2 ^ t + i + (d - 2 ^ t) = i + d by omega]

/-- Every bit up to the highest one is set. -/
theorem smears_eq {t j x : Nat} (hlo : 2 ^ j ≤ x) (hhi : x < 2 ^ (j + 1)) (hj : j < 2 ^ t) :
    smears t x = 2 ^ (j + 1) - 1 := by
  refine Nat.eq_of_testBit_eq fun i => ?_
  rw [Nat.testBit_two_pow_sub_one, Bool.eq_iff_iff, testBit_smears, decide_eq_true_iff]
  constructor
  · rintro ⟨d, _, h⟩
    by_contra hi
    have hbig : x < 2 ^ (i + d) := hhi.trans_le (Nat.pow_le_pow_right (by decide) (by omega))
    rw [Nat.testBit_lt_two_pow hbig] at h
    cases h
  · intro hi
    refine ⟨j - i, by omega, ?_⟩
    rw [show i + (j - i) = j by omega]
    have hdiv : x / 2 ^ j = 1 := by
      rw [Nat.pow_succ] at hhi
      exact Nat.div_eq_of_lt_le (by omega) (by omega)
    rw [Nat.testBit_eq_decide_div_mod_eq, hdiv]
    rfl

/-- **Rounding up** gives the least power of two that is not smaller. -/
theorem smears_round {t x : Nat} (hx : 1 ≤ x) (ht : x ≤ 2 ^ 2 ^ t) :
    smears t (x - 1) + 1 = 2 ^ Nat.clog 2 x := by
  rcases Nat.eq_or_lt_of_le hx with rfl | h1
  · have hzero : ∀ t, smears t 0 = 0 := by
      intro t
      refine Nat.eq_of_testBit_eq fun i => ?_
      rw [Bool.eq_iff_iff, testBit_smears]
      simp
    simp [hzero]
  · have hpos : 0 < Nat.clog 2 x := Nat.clog_pos (by decide) h1
    have hlo : 2 ^ (Nat.clog 2 x - 1) < x := Nat.pow_pred_clog_lt_self (by decide) h1
    have hhi : x ≤ 2 ^ Nat.clog 2 x := Nat.le_pow_clog (by decide) x
    have hj : Nat.clog 2 x ≤ 2 ^ t := Nat.clog_le_of_le_pow ht
    have hsucc : Nat.clog 2 x - 1 + 1 = Nat.clog 2 x := by omega
    rw [smears_eq (j := Nat.clog 2 x - 1) (by omega) (by rw [hsucc]; omega) (by omega), hsucc]
    have := Nat.two_pow_pos (Nat.clog 2 x)
    omega

end PostFga.Smear
