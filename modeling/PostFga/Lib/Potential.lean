import PostFga.Lib.Transition
/-
# Runs that are paid for

Every step of a run costs one. What its label brings in and what is left in the state pay for it, the
way an amortised bound is shown: `Φ` is what a state has in store, `c` what a label brings in.

* `Pays.run` — a run is no longer than its labels and its first state pay for.
* `Pays.stuck` — steps whose label brings nothing come to an end, whichever are taken.
-/

namespace PostFga.Transition

variable {σ α : Type} {step : σ → α → Option σ} {Inv : σ → Prop} {L : α → Prop} {Φ : σ → Nat} {c : α → Nat}

def total (c : α → Nat) : List α → Nat
  | [] => 0
  | a :: as => c a + total c as

theorem total_append (as bs : List α) : total c (as ++ bs) = total c as + total c bs := by
  induction as with
  | nil => simp [total]
  | cons a as ih => simp [total, ih, Nat.add_assoc]

theorem total_set {as : List α} {i : Nat} {a : α} (b : α) (h : as[i]? = some a) :
    total c (as.set i b) + c a = total c as + c b := by
  induction as generalizing i with
  | nil => simp at h
  | cons x as ih =>
    cases i with
    | zero =>
      obtain rfl : x = a := by simpa using h
      simp only [List.set_cons_zero, total]
      omega
    | succ i =>
      have := ih (i := i) (by simpa using h)
      simp only [List.set_cons_succ, total]
      omega

/-- A step keeps the invariant, and leaves less in store by the one it costs, but for what its label
brings in. -/
def Pays (step : σ → α → Option σ) (Inv : σ → Prop) (L : α → Prop) (Φ : σ → Nat) (c : α → Nat) : Prop :=
  ∀ s a s', Inv s → L a → step s a = some s' → Inv s' ∧ Φ s' + 1 ≤ Φ s + c a

theorem Pays.run (h : Pays step Inv L Φ c) (as : List α) {s t : σ} (hs : Inv s) (hL : ∀ a ∈ as, L a)
    (hr : Transition.run step s as = some t) : Inv t ∧ Φ t + as.length ≤ Φ s + total c as := by
  induction as generalizing s with
  | nil =>
    cases hr
    exact ⟨hs, Nat.le_refl _⟩
  | cons a as ih =>
    obtain ⟨s', h1, h2⟩ := run_cons.1 hr
    obtain ⟨hs', hstep⟩ := h s a s' hs (hL a (by simp)) h1
    obtain ⟨ht, hrest⟩ := ih hs' (fun b hb => hL b (by simp [hb])) h2
    refine ⟨ht, ?_⟩
    rw [List.length_cons, total]
    omega

/-- No step is left that brings nothing in. -/
def Stuck (step : σ → α → Option σ) (L : α → Prop) (c : α → Nat) (s : σ) : Prop :=
  ∀ a, L a → c a = 0 → step s a = none

/-- Every run goes on, by steps that bring nothing in, to where there is none left. -/
theorem Pays.stuck (h : Pays step Inv L Φ c) {s : σ} (hs : Inv s) : ∃ as t, (∀ a ∈ as, L a ∧ c a = 0) ∧
    as.length ≤ Φ s ∧ Transition.run step s as = some t ∧ Stuck step L c t := by
  by_cases hstuck : Stuck step L c s
  · exact ⟨[], s, by simp, Nat.zero_le _, rfl, hstuck⟩
  · obtain ⟨a, hne⟩ := Classical.not_forall.1 hstuck
    obtain ⟨hL, hne⟩ := Classical.not_imp.1 hne
    obtain ⟨ha, hne⟩ := Classical.not_imp.1 hne
    obtain ⟨s', hstep⟩ := Option.ne_none_iff_exists'.1 hne
    obtain ⟨hs', hlt⟩ := h s a s' hs hL hstep
    rw [ha] at hlt
    obtain ⟨as, t, has, hlen, hr, ht⟩ := Pays.stuck h hs'
    refine ⟨a :: as, t, fun b hb => ?_, ?_, run_cons.2 ⟨s', hstep, hr⟩, ht⟩
    · rcases List.mem_cons.1 hb with rfl | hb
      · exact ⟨hL, ha⟩
      · exact has b hb
    · rw [List.length_cons]
      omega
termination_by Φ s

end PostFga.Transition
