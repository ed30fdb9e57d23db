import PostFga.Lib.Transition
/-
# Relating transition systems

* `events` — what a labelling says of the steps of a run, in their order.
* `Pipe.run` — where every step puts what it brings in behind what the state holds, and takes what it
  gives out from the front, a run does: all comes out in the order it went in.
* `Simulates.run` — where every step, from states that `R` relates, is answered by the steps it is seen
  as, what is seen of a run is a run of the other system.
* `Sheds.run` — what the steps of a run leave behind adds up.
* `Projects.run`, `exists_run_over` — runs of a finer system and of the coarser one that forgets a part.
* `withEnv`, `envGuard`, `meets_act` — a system whose environment changes between its steps.
* `Refines.calls`, `calls_inv` — objects that answer calls, and the same of every list of calls.
-/

namespace PostFga.Transition

variable {σ τ α β δ ε : Type} {step : σ → α → Option σ} {step' : τ → β → Option τ}

/-! ## What goes in and what comes out -/

def events (step : σ → α → Option σ) (e : σ → α → List β) : σ → List α → List β
  | _, [] => []
  | s, a :: as => e s a ++ match step s a with
    | some s' => events step e s' as
    | none => []

theorem events_cons {e : σ → α → List β} {s s' : σ} {a : α} (as : List α) (h : step s a = some s') :
    events step e s (a :: as) = e s a ++ events step e s' as := by
  rw [events, h]

/-- A step of a pipe that holds `held`. -/
def Pipe (step : σ → α → Option σ) (Inv : σ → Prop) (inn out : σ → α → List β) (held : σ → List β) : Prop :=
  ∀ s a s', Inv s → step s a = some s' → Inv s' ∧ held s ++ inn s a = out s a ++ held s'

theorem Pipe.run {Inv : σ → Prop} {inn out : σ → α → List β} {held : σ → List β}
    (h : Pipe step Inv inn out held) (as : List α) {s t : σ} (hs : Inv s)
    (hr : Transition.run step s as = some t) :
    held s ++ events step inn s as = events step out s as ++ held t := by
  induction as generalizing s with
  | nil =>
    cases hr
    simp [events]
  | cons a as ih =>
    obtain ⟨s', h1, h2⟩ := run_cons.1 hr
    obtain ⟨hs', hstep⟩ := h s a s' hs h1
    rw [events_cons as h1, events_cons as h1, ← List.append_assoc, hstep, List.append_assoc, List.append_assoc,
      ih hs' h2]

/-! ## What can be seen from outside -/

/-- `obs` says which labels of the other system a step is to be seen as: none, one or several. -/
def Simulates (step : σ → α → Option σ) (step' : τ → β → Option τ) (G : σ → α → Prop) (R : σ → τ → Prop)
    (obs : σ → α → List β) : Prop :=
  ∀ s a s' t, R s t → G s a → step s a = some s' → ∃ t', run step' t (obs s a) = some t' ∧ R s' t'

theorem Simulates.run {G : σ → α → Prop} {R : σ → τ → Prop} {obs : σ → α → List β}
    (h : Simulates step step' G R obs) (as : List α) {s s' : σ} {t : τ} (hR : R s t) (hG : Meets step G s as)
    (hr : Transition.run step s as = some s') :
    ∃ t', Transition.run step' t (events step obs s as) = some t' ∧ R s' t' := by
  induction as generalizing s t with
  | nil =>
    cases hr
    exact ⟨t, rfl, hR⟩
  | cons a as ih =>
    obtain ⟨u, hstep, hrest⟩ := run_cons.1 hr
    obtain ⟨v, hv, hRv⟩ := h s a u t hR hG.1 hstep
    obtain ⟨t', ht', hR'⟩ := ih hRv (hG.2 u hstep) hrest
    rw [events_cons as hstep]
    exact ⟨t', run_append.2 ⟨v, hv, ht'⟩, hR'⟩

/-! ## What is left behind -/

/-- `R d s`: how the system is in `s` when it has left `d` behind. A step may leave more, which counts for
its events `e`; `w` says what one part of it counts for. The order does not matter. -/
def Sheds (step : σ → α → Option σ) (G : σ → α → Prop) (R : List δ → σ → Prop) (w : δ → List β)
    (e : σ → α → List β) : Prop :=
  ∀ d s a s', R d s → G s a → step s a = some s' → ∃ more, (more.flatMap w).Perm (e s a) ∧ R (d ++ more) s'

theorem Sheds.run {G : σ → α → Prop} {R : List δ → σ → Prop} {w : δ → List β} {e : σ → α → List β}
    (h : Sheds step G R w e) (as : List α) {s t : σ} {d : List δ} (hR : R d s) (hG : Meets step G s as)
    (hr : Transition.run step s as = some t) :
    ∃ more, (more.flatMap w).Perm (events step e s as) ∧ R (d ++ more) t := by
  induction as generalizing s d with
  | nil =>
    cases hr
    exact ⟨[], List.Perm.refl _, by rwa [List.append_nil]⟩
  | cons a as ih =>
    obtain ⟨u, hu, hrest⟩ := run_cons.1 hr
    obtain ⟨more, hmore, hR'⟩ := h d s a u hR hG.1 hu
    obtain ⟨more', hmore', hR''⟩ := ih hR' (hG.2 u hu) hrest
    refine ⟨more ++ more', ?_, by rwa [List.append_assoc] at hR''⟩
    rw [events_cons as hu, List.flatMap_append]
    exact hmore.append hmore'

/-! ## A finer system over a coarser one -/

section
variable {f : σ → τ} {g : α → Option β}

/-- `f` forgets a part of the finer state, and `g` says which step of the coarser system a label stands
for, if it stands for one. -/
structure Projects (step : σ → α → Option σ) (step' : τ → β → Option τ) (f : σ → τ) (g : α → Option β) :
    Prop where
  seen : ∀ s a s' b, g a = some b → step s a = some s' → step' (f s) b = some (f s')
  unseen : ∀ s a s', g a = none → step s a = some s' → f s' = f s

theorem Projects.run (h : Projects step step' f g) (as : List α) {s t : σ}
    (hr : Transition.run step s as = some t) : Transition.run step' (f s) (as.filterMap g) = some (f t) := by
  induction as generalizing s with
  | nil =>
    cases hr
    rfl
  | cons a as ih =>
    obtain ⟨s', h1, h2⟩ := run_cons.1 hr
    cases hg : g a with
    | none =>
      rw [List.filterMap_cons_none hg, ← h.unseen s a s' hg h1]
      exact ih h2
    | some b =>
      rw [List.filterMap_cons_some hg]
      exact run_cons.2 ⟨f s', h.seen s a s' b hg h1, ih h2⟩

/-- Where every coarser step can be made by finer ones, so can every coarser run. -/
theorem exists_run_over (Inv : σ → Prop)
    (hmake : ∀ s b t, Inv s → step' (f s) b = some t → ∃ as s', Transition.run step s as = some s' ∧
      as.filterMap g = [b] ∧ f s' = t ∧ Inv s')
    (bs : List β) {s : σ} {t : τ} (hs : Inv s) (hr : Transition.run step' (f s) bs = some t) :
    ∃ as s', Transition.run step s as = some s' ∧ as.filterMap g = bs ∧ f s' = t := by
  induction bs generalizing s with
  | nil =>
    cases hr
    exact ⟨[], s, rfl, rfl, rfl⟩
  | cons b bs ih =>
    obtain ⟨t', h1, h2⟩ := run_cons.1 hr
    obtain ⟨as, s', has, hg, rfl, hs'⟩ := hmake s b t' hs h1
    obtain ⟨as', s'', has', hg', rfl⟩ := ih hs' h2
    exact ⟨as ++ as', s'', run_append.2 ⟨s', has, has'⟩, by rw [List.filterMap_append, hg, hg']; rfl, rfl⟩

end

/-! ## A system whose environment changes -/

structure WithEnv (σ ε : Type) where
  state : σ
  env : ε

inductive EnvAct (α ε : Type) where
  | act (a : α)
  | change (e : ε)

def withEnv (step : σ → α → Option σ) (s : WithEnv σ ε) : EnvAct α ε → Option (WithEnv σ ε)
  | .act a => (step s.state a).map fun state => { s with state := state }
  | .change e => some { s with env := e }

def envGuard (G : ε → σ → α → Prop) (s : WithEnv σ ε) : EnvAct α ε → Prop
  | .act a => G s.env s.state a
  | .change _ => True

theorem run_act {e : ε} {s s' : σ} {as : List α} (h : run step s as = some s') :
    run (withEnv step) ⟨s, e⟩ (as.map .act) = some ⟨s', e⟩ := by
  induction as generalizing s with
  | nil =>
    cases h
    rfl
  | cons a as ih =>
    obtain ⟨t, ht, h⟩ := run_cons.1 h
    exact run_cons.2 ⟨⟨t, e⟩, by simp only [withEnv, ht, Option.map_some], ih h⟩

theorem meets_act {G : ε → σ → α → Prop} {e : ε} {s : σ} {as : List α} :
    Meets (withEnv step) (envGuard G) ⟨s, e⟩ (as.map .act) ↔ Meets step (G e) s as := by
  induction as generalizing s with
  | nil => exact Iff.rfl
  | cons a as ih =>
    constructor
    · intro h
      exact ⟨h.1, fun t ht => ih.1 (h.2 ⟨t, e⟩ (by simp only [withEnv, ht, Option.map_some]))⟩
    · intro h
      refine ⟨h.1, fun s' hs => ?_⟩
      obtain ⟨t, ht, rfl⟩ := Option.map_eq_some_iff.1 hs
      exact ih.2 (h.2 t ht)

theorem envGuard_of_growth {G : σ → α → Prop} (m : σ → Nat) (bound : Nat) (hG : ∀ s a, m s + 1 < bound → G s a)
    (hstep : ∀ s a s', G s a → step s a = some s' → m s' ≤ m s + 1) (as : List (EnvAct α ε)) {s : WithEnv σ ε}
    (h : m s.state + as.length < bound) : Meets (withEnv step) (envGuard fun _ => G) s as := by
  refine meets_of_growth (fun s : WithEnv σ ε => m s.state) bound (fun s a hlt => ?_) (fun s a s' hg hs => ?_) as h
  · cases a with
    | act a => exact hG s.state a hlt
    | change e => trivial
  · cases a with
    | act a =>
      obtain ⟨t, ht, rfl⟩ := Option.map_eq_some_iff.1 hs
      exact hstep s.state a t hg ht
    | change e =>
      obtain rfl := Option.some.inj hs
      exact Nat.le_succ _

end PostFga.Transition

/-! ## Objects

An object answers each call and moves to its next state: `op : σ → ι → ω × σ`. It is total, a refusal
is an answer. -/

namespace PostFga.Refinement

variable {σ τ ι ω : Type}

def calls (op : σ → ι → ω × σ) : σ → List ι → List ω × σ
  | s, [] => ([], s)
  | s, i :: is =>
    let (w, s') := op s i
    let (ws, s'') := calls op s' is
    (w :: ws, s'')

/-- The state alone. -/
def after (op : σ → ι → ω × σ) (s : σ) (is : List ι) : σ := (calls op s is).2

theorem calls_cons (op : σ → ι → ω × σ) (s : σ) (i : ι) (is : List ι) :
    calls op s (i :: is) = ((op s i).1 :: (calls op (op s i).2 is).1, (calls op (op s i).2 is).2) := rfl

theorem after_cons (op : σ → ι → ω × σ) (s : σ) (i : ι) (is : List ι) :
    after op s (i :: is) = after op (op s i).2 is := rfl

/-- `R` may fail on calls outside `P`, which no caller makes. -/
def Refines (R : σ → τ → Prop) (P : ι → Prop) (op : σ → ι → ω × σ) (op' : τ → ι → ω × τ) : Prop :=
  ∀ s t i, P i → R s t → (op s i).1 = (op' t i).1 ∧ R (op s i).2 (op' t i).2

section
variable {R : σ → τ → Prop} {P : ι → Prop} {op : σ → ι → ω × σ} {op' : τ → ι → ω × τ}

theorem Refines.calls (h : Refines R P op op') {s : σ} {t : τ} (hR : R s t) (is : List ι) (hP : ∀ i ∈ is, P i) :
    (Refinement.calls op s is).1 = (Refinement.calls op' t is).1 ∧ R (after op s is) (after op' t is) := by
  induction is generalizing s t with
  | nil => exact ⟨rfl, hR⟩
  | cons i is ih =>
    obtain ⟨h1, h2⟩ := h s t i (hP i (by simp)) hR
    obtain ⟨h3, h4⟩ := ih h2 fun j hj => hP j (by simp [hj])
    constructor
    · simp only [calls_cons, h1, h3]
    · simpa only [after_cons] using h4

end

theorem calls_inv {op : σ → ι → ω × σ} (Inv : σ → Prop) (hop : ∀ s i, Inv s → Inv (op s i).2) {s : σ}
    (hs : Inv s) (is : List ι) : Inv (after op s is) := by
  induction is generalizing s with
  | nil => exact hs
  | cons i is ih => exact ih (hop s i hs)

end PostFga.Refinement
