/-
# Transition systems with labelled steps

A system is a function `step : σ → α → Option σ`: the label says who moves and with which
outcome, `none` says the step is not enabled. A run is a list of labels.

* `run` — the state after a run, if every step of it is enabled.
* `Meets G` — every step of the run satisfies `G` of the state before it and its label.
* `run_inv`, `run_inv_of_meets` — what every step keeps, every run keeps.
* `meets_congr` — guards that agree under such an invariant.
* `Always P` — `P` of every state a run comes through; `always_iff_meets` — when that comes to a guard.
-/

namespace PostFga.Transition

variable {σ α : Type} {step : σ → α → Option σ}

def run (step : σ → α → Option σ) : σ → List α → Option σ
  | s, [] => some s
  | s, a :: as => (step s a).bind fun s' => run step s' as

def Meets (step : σ → α → Option σ) (G : σ → α → Prop) : σ → List α → Prop
  | _, [] => True
  | s, a :: as => G s a ∧ ∀ s', step s a = some s' → Meets step G s' as

def Always (step : σ → α → Option σ) (P : σ → Prop) (s : σ) (as : List α) : Prop :=
  ∀ pre post t, as = pre ++ post → run step s pre = some t → P t

/-- Where the guard can be evaluated, so can a run. -/
def decidableMeets (G : σ → α → Prop) [∀ s a, Decidable (G s a)] : ∀ (as : List α) (s : σ),
    Decidable (Meets step G s as)
  | [], _ => isTrue trivial
  | a :: as, s =>
    match h : step s a with
    | none => decidable_of_iff (G s a) ⟨fun hg => ⟨hg, fun s' hs => by rw [h] at hs; cases hs⟩, And.left⟩
    | some s1 =>
      have := decidableMeets G as s1
      decidable_of_iff (G s a ∧ Meets step G s1 as)
        ⟨fun hg => ⟨hg.1, fun s' hs => by rw [h] at hs; cases hs; exact hg.2⟩, fun hg => ⟨hg.1, hg.2 s1 h⟩⟩

instance (G : σ → α → Prop) [∀ s a, Decidable (G s a)] (s : σ) (as : List α) : Decidable (Meets step G s as) :=
  decidableMeets G as s

theorem run_cons {s t : σ} {a : α} {as : List α} :
    run step s (a :: as) = some t ↔ ∃ s', step s a = some s' ∧ run step s' as = some t := by
  simp [run, Option.bind_eq_some_iff]

theorem run_append {s t : σ} {as bs : List α} :
    run step s (as ++ bs) = some t ↔ ∃ u, run step s as = some u ∧ run step u bs = some t := by
  induction as generalizing s with
  | nil => simp [run]
  | cons a as ih =>
    rw [List.cons_append, run_cons]
    simp only [ih, run_cons]
    constructor
    · rintro ⟨s', h, u, has, hbs⟩
      exact ⟨u, ⟨s', h, has⟩, hbs⟩
    · rintro ⟨u, ⟨s', h, has⟩, hbs⟩
      exact ⟨s', h, u, has, hbs⟩

theorem Meets.mono {G G' : σ → α → Prop} {as : List α} {s : σ} (hm : Meets step G s as)
    (h : ∀ s a, G s a → G' s a) : Meets step G' s as := by
  induction as generalizing s with
  | nil => trivial
  | cons a as ih => exact ⟨h s a hm.1, fun s' hs => ih (hm.2 s' hs)⟩

theorem Meets.and {G G' : σ → α → Prop} {as : List α} {s : σ} (h : Meets step G s as) (h' : Meets step G' s as) :
    Meets step (fun s a => G s a ∧ G' s a) s as := by
  induction as generalizing s with
  | nil => trivial
  | cons a as ih => exact ⟨⟨h.1, h'.1⟩, fun s' hs => ih (h.2 s' hs) (h'.2 s' hs)⟩

/-- What every step that meets `G` keeps, every run of such steps keeps. -/
theorem run_inv_of_meets (Inv : σ → Prop) (G : σ → α → Prop)
    (hstep : ∀ s a s', Inv s → G s a → step s a = some s' → Inv s') (as : List α) {s t : σ} (hs : Inv s)
    (hG : Meets step G s as) (hr : run step s as = some t) : Inv t := by
  induction as generalizing s with
  | nil =>
    cases hr
    exact hs
  | cons a as ih =>
    obtain ⟨s', h1, h2⟩ := run_cons.1 hr
    exact ih (hstep s a s' hs hG.1 h1) (hG.2 s' h1) h2

/-- What every step keeps, every run keeps. -/
theorem run_inv (Inv : σ → Prop) (hstep : ∀ s a s', Inv s → step s a = some s' → Inv s')
    (as : List α) {s t : σ} (hs : Inv s) (hr : run step s as = some t) : Inv t := by
  refine run_inv_of_meets Inv (fun _ _ => True) (fun s a s' h _ => hstep s a s' h) as hs ?_ hr
  clear hr hs
  induction as generalizing s with
  | nil => trivial
  | cons a as ih => exact ⟨trivial, fun _ _ => ih⟩

/-- Guards that are the same where every step leads meet the same runs. -/
theorem meets_congr {G G' : σ → α → Prop} (Inv : σ → Prop)
    (hstep : ∀ s a s', Inv s → step s a = some s' → Inv s') (h : ∀ s, Inv s → ∀ a, G s a ↔ G' s a)
    (as : List α) {s : σ} (hs : Inv s) : Meets step G s as ↔ Meets step G' s as := by
  induction as generalizing s with
  | nil => exact Iff.rfl
  | cons a as ih =>
    refine and_congr (h s hs a) (forall_congr' fun s' => imp_congr_right fun hstep' => ?_)
    exact ih (hstep s a s' hs hstep')

theorem Always.head {P : σ → Prop} {as : List α} {s : σ} (h : Always step P s as) : P s := h [] as s rfl rfl

theorem Always.last {P : σ → Prop} {as : List α} {s t : σ} (h : Always step P s as) (hr : run step s as = some t) :
    P t := h as [] t (List.append_nil as).symm hr

theorem always_cons {P : σ → Prop} {a : α} {as : List α} {s : σ} :
    Always step P s (a :: as) ↔ P s ∧ ∀ s', step s a = some s' → Always step P s' as := by
  constructor
  · intro h
    refine ⟨h.head, fun s' hs pre post t he hr => ?_⟩
    exact h (a :: pre) post t (by rw [he]; rfl) (run_cons.2 ⟨s', hs, hr⟩)
  · rintro ⟨hP, h⟩ pre post t he hr
    cases pre with
    | nil =>
      obtain rfl := Option.some.inj hr
      exact hP
    | cons b pre =>
      obtain ⟨rfl, rfl⟩ := List.cons.inj he
      obtain ⟨s', hs, hr⟩ := run_cons.1 hr
      exact h s' hs pre post t rfl hr

/-- A guard that reads the label only. -/
theorem meets_of_forall {P : α → Prop} (as : List α) (s : σ) (h : ∀ a ∈ as, P a) :
    Meets step (fun _ => P) s as := by
  induction as generalizing s with
  | nil => trivial
  | cons a as ih => exact ⟨h a (by simp), fun s' _ => ih s' fun b hb => h b (by simp [hb])⟩

theorem meets_append {G : σ → α → Prop} {as bs : List α} {s : σ} :
    Meets step G s (as ++ bs) ↔ Meets step G s as ∧ ∀ u, run step s as = some u → Meets step G u bs := by
  induction as generalizing s with
  | nil => simp [Meets, run]
  | cons a as ih =>
    simp only [List.cons_append, Meets, ih, run_cons]
    constructor
    · rintro ⟨hg, h⟩
      exact ⟨⟨hg, fun s' hs => (h s' hs).1⟩, fun u ⟨s', hs, hu⟩ => (h s' hs).2 u hu⟩
    · rintro ⟨⟨hg, has⟩, hbs⟩
      exact ⟨hg, fun s' hs => ⟨has s' hs, fun u hu => hbs u ⟨s', hs, hu⟩⟩⟩

/-- What grows by at most one in a step stays below a bound that a run is too short to reach. -/
theorem meets_of_growth {G : σ → α → Prop} (m : σ → Nat) (bound : Nat) (hG : ∀ s a, m s + 1 < bound → G s a)
    (hstep : ∀ s a s', G s a → step s a = some s' → m s' ≤ m s + 1) (as : List α) {s : σ}
    (h : m s + as.length < bound) : Meets step G s as := by
  induction as generalizing s with
  | nil => trivial
  | cons a as ih =>
    rw [List.length_cons] at h
    have hg : G s a := hG s a (by omega)
    refine ⟨hg, fun s' hs => ih ?_⟩
    have := hstep s a s' hg hs
    omega

/-- In a run that meets `G₀`: if a step that meets the guard keeps an invariant with `P`, and one that does
not meet it takes the run to where `P` fails, then `P` holds all along exactly when every step meets it. -/
theorem always_iff_meets_of_meets {P : σ → Prop} {G₀ G : σ → α → Prop} (Inv : σ → Prop) (hP : ∀ s, Inv s → P s)
    (hkeep : ∀ s a s', Inv s → G₀ s a → G s a → step s a = some s' → Inv s')
    (hneed : ∀ s a, Inv s → G₀ s a → (∀ s', step s a = some s' → P s') → G s a) (as : List α) {s : σ}
    (hs : Inv s) (h₀ : Meets step G₀ s as) : Always step P s as ↔ Meets step G s as := by
  induction as generalizing s with
  | nil =>
    refine ⟨fun _ => trivial, fun _ pre post t he hr => ?_⟩
    obtain ⟨rfl, -⟩ := List.append_eq_nil_iff.1 he.symm
    obtain rfl := Option.some.inj hr
    exact hP s hs
  | cons a as ih =>
    rw [always_cons]
    constructor
    · rintro ⟨-, h⟩
      have hG := hneed s a hs h₀.1 fun s' hs' => (h s' hs').head
      exact ⟨hG, fun s' hs' => (ih (hkeep s a s' hs h₀.1 hG hs') (h₀.2 s' hs')).1 (h s' hs')⟩
    · rintro ⟨hG, h⟩
      exact ⟨hP s hs, fun s' hs' => (ih (hkeep s a s' hs h₀.1 hG hs') (h₀.2 s' hs')).2 (h s' hs')⟩

/-- If a step that meets the guard keeps an invariant with `P`, and one that does not meet it takes the
run to where `P` fails, then `P` holds all along exactly when every step meets the guard. -/
theorem always_iff_meets {P : σ → Prop} {G : σ → α → Prop} (Inv : σ → Prop) (hP : ∀ s, Inv s → P s)
    (hkeep : ∀ s a s', Inv s → G s a → step s a = some s' → Inv s')
    (hneed : ∀ s a, Inv s → (∀ s', step s a = some s' → P s') → G s a) (as : List α) {s : σ} (hs : Inv s) :
    Always step P s as ↔ Meets step G s as :=
  always_iff_meets_of_meets Inv hP (fun s a s' h _ => hkeep s a s' h) (fun s a h _ => hneed s a h) as hs
    (meets_of_forall as s fun _ _ => trivial)

end PostFga.Transition
