/-
# ERRORs that jump to the handler a pointer names

`PG_TRY` saves the pointer to the current handler and makes it name a frame of its own; `PG_CATCH`
and `PG_END_TRY` put the saved one back; an ERROR jumps to the frame the pointer names, whether or
not the function of that frame is still active. A `return` from inside the block goes past
`PG_END_TRY`.

* `Tidy m p` — `m` returns if `p` and otherwise raises an ERROR to the handler it was entered with;
  when it returns, the pointer is as it was. The rules follow the program text.
* `Stray m p` — the same, but when it returns, the pointer names a frame that was not there before.
-/

namespace PostFga

structure ErrorState where
  /-- The frame that the pointer names. -/
  handler : Nat
  /-- The frames of the functions that have not ended. -/
  active : List Nat
  /-- The next new frame. -/
  next : Nat
deriving DecidableEq, Repr

inductive PgOutcome (α : Type) where
  | ok (a : α)
  | raised (frame : Nat)
deriving DecidableEq, Repr

def Pg (α : Type) : Type := ErrorState → PgOutcome α × ErrorState

namespace Pg

variable {α β : Type}

def bind (m : Pg α) (k : α → Pg β) : Pg β := fun s =>
  match m s with
  | (.ok a, s') => k a s'
  | (.raised frame, s') => (.raised frame, s')

instance : Monad Pg where
  pure a := fun s => (.ok a, s)
  bind := bind

/-- `ereport(ERROR, ..)` and `PG_RE_THROW()`. -/
def ereport : Pg α := fun s => (.raised s.handler, s)

/-- A step that may raise an ERROR. -/
def unlessRaises (ok : Bool) : Pg Unit := if ok then pure () else ereport

/-- A function: when it ends, so do its frames. -/
def function (body : Pg α) : Pg α := fun s =>
  let (r, s') := body s
  (r, { s' with active := s.active })

/-- How control leaves a block. -/
inductive Exit where
  | fallThrough
  | returned
deriving DecidableEq, Repr

/-- `PG_TRY(); body PG_CATCH(); handler PG_END_TRY();` -/
def pgTry (body handler : Pg Exit) : Pg Exit := fun s =>
  let save := s.handler
  let frame := s.next
  match body ⟨frame, frame :: s.active, frame + 1⟩ with
  | (.ok .fallThrough, s') => (.ok .fallThrough, { s' with handler := save })
  | (.ok .returned, s') => (.ok .returned, s')
  | (.raised target, s') =>
    if target = frame then
      match handler { s' with handler := save } with
      | (.ok e, s') => (.ok e, { s' with handler := save })
      | (.raised target, s') => (.raised target, s')
    else (.raised target, s')

/-! ## Blocks that put the handler back -/

structure Tidy (m : Pg α) (p : Prop) : Prop where
  returns : p → ∀ s, ∃ a s', m s = (.ok a, s') ∧ s'.handler = s.handler ∧ s.next ≤ s'.next
  raises : ¬ p → ∀ s, ∃ s', m s = (.raised s.handler, s') ∧ s.next ≤ s'.next

section
variable {m : Pg α} {k : α → Pg β} {p q : Prop}

theorem tidy_pure (a : α) : Tidy (pure a) True :=
  ⟨fun _ s => ⟨a, s, rfl, rfl, Nat.le_refl _⟩, fun h => absurd trivial h⟩

theorem tidy_ereport : Tidy (ereport : Pg α) False :=
  ⟨False.elim, fun _ s => ⟨s, rfl, Nat.le_refl _⟩⟩

theorem Tidy.congr (h : Tidy m p) (hpq : p ↔ q) : Tidy m q :=
  ⟨fun hq => h.returns (hpq.2 hq), fun hq => h.raises fun hp => hq (hpq.1 hp)⟩

theorem tidy_unlessRaises (ok : Bool) : Tidy (unlessRaises ok) (ok = true) := by
  cases ok with
  | true => exact (tidy_pure ()).congr (by simp)
  | false => exact tidy_ereport.congr (by simp)

/-- In sequence. -/
theorem Tidy.bind (hm : Tidy m p) (hk : ∀ a, Tidy (k a) q) : Tidy (m >>= k) (p ∧ q) := by
  have heq : ∀ s, (m >>= k) s = Pg.bind m k s := fun _ => rfl
  constructor
  · rintro ⟨hp, hq⟩ s
    obtain ⟨a, s₁, h₁, hh₁, hn₁⟩ := hm.returns hp s
    obtain ⟨b, s₂, h₂, hh₂, hn₂⟩ := (hk a).returns hq s₁
    exact ⟨b, s₂, by rw [heq, Pg.bind, h₁]; exact h₂, hh₂.trans hh₁, Nat.le_trans hn₁ hn₂⟩
  · intro hpq s
    by_cases hp : p
    · obtain ⟨a, s₁, h₁, hh₁, hn₁⟩ := hm.returns hp s
      obtain ⟨s₂, h₂, hn₂⟩ := (hk a).raises (fun hq => hpq ⟨hp, hq⟩) s₁
      exact ⟨s₂, by rw [heq, Pg.bind, h₁, ← hh₁]; exact h₂, Nat.le_trans hn₁ hn₂⟩
    · obtain ⟨s₁, h₁, hn₁⟩ := hm.raises hp s
      exact ⟨s₁, by rw [heq, Pg.bind, h₁], hn₁⟩

theorem Tidy.ite {m m' : Pg α} {c : Prop} [Decidable c] (hm : Tidy m p) (hm' : Tidy m' q) :
    Tidy (if c then m else m') (if c then p else q) := by
  split
  · exact hm
  · exact hm'

theorem Tidy.function (h : Tidy m p) : Tidy (Pg.function m) p := by
  constructor
  · intro hp s
    obtain ⟨a, s', hs, hh, hn⟩ := h.returns hp s
    exact ⟨a, { s' with active := s.active }, by rw [Pg.function, hs], hh, hn⟩
  · intro hp s
    obtain ⟨s', hs, hn⟩ := h.raises hp s
    exact ⟨{ s' with active := s.active }, by rw [Pg.function, hs], hn⟩

/-- A block and how control leaves it. -/
theorem Tidy.exit (h : Tidy m p) (e : Exit) (s : ErrorState) :
    (p → ∃ s', (m >>= fun _ => pure e : Pg Exit) s = (.ok e, s') ∧ s'.handler = s.handler ∧ s.next ≤ s'.next) ∧
    (¬ p → ∃ s', (m >>= fun _ => pure e : Pg Exit) s = (.raised s.handler, s') ∧ s.next ≤ s'.next) := by
  have heq : (m >>= fun _ => pure e : Pg Exit) s = Pg.bind m (fun _ => pure e) s := rfl
  constructor
  · intro hp
    obtain ⟨a, s', hs, hh, hn⟩ := h.returns hp s
    exact ⟨s', by rw [heq, Pg.bind, hs]; rfl, hh, hn⟩
  · intro hp
    obtain ⟨s', hs, hn⟩ := h.raises hp s
    exact ⟨s', by rw [heq, Pg.bind, hs], hn⟩

section
variable {handler : Pg Exit} {s : ErrorState}

/-- The state at the start of the block. -/
def enter (s : ErrorState) : ErrorState := ⟨s.next, s.next :: s.active, s.next + 1⟩

/-- An ERROR in the block is raised again, to the handler outside. -/
theorem pgTry_raises {body : Pg Exit} (hh : Tidy handler False) {s₁ : ErrorState}
    (hb : body (enter s) = (.raised s.next, s₁)) (hn : (enter s).next ≤ s₁.next) :
    ∃ s', Pg.pgTry body handler s = (.raised s.handler, s') ∧ s.next ≤ s'.next := by
  obtain ⟨s₂, h₂, hn₂⟩ := hh.raises id { s₁ with handler := s.handler }
  have hlt : s.next + 1 ≤ s₁.next := hn
  have hle : s₁.next ≤ s₂.next := hn₂
  refine ⟨s₂, ?_, by omega⟩
  rw [Pg.pgTry, show body ⟨s.next, s.next :: s.active, s.next + 1⟩ = _ from hb]
  simp only [if_true, h₂]

/-- A block that control leaves at its end. -/
theorem Tidy.pgTry (h : Tidy m p) (hh : Tidy handler False) :
    Tidy (Pg.pgTry (m >>= fun _ => pure .fallThrough) handler) p := by
  constructor
  · intro hp s
    obtain ⟨s₁, h₁, -, hn₁⟩ := (h.exit .fallThrough (enter s)).1 hp
    have hlt : s.next + 1 ≤ s₁.next := hn₁
    refine ⟨.fallThrough, { s₁ with handler := s.handler }, ?_, rfl, by show s.next ≤ s₁.next; omega⟩
    rw [Pg.pgTry, show (m >>= fun _ => pure .fallThrough : Pg Exit) ⟨s.next, s.next :: s.active, s.next + 1⟩ = _ from h₁]
  · intro hp s
    obtain ⟨s₁, h₁, hn₁⟩ := (h.exit .fallThrough (enter s)).2 hp
    exact pgTry_raises hh h₁ hn₁

end

end

/-! ## Blocks that control leaves by a `return` -/

structure Stray (m : Pg α) (p : Prop) : Prop where
  returns : p → ∀ s, ∃ a s', m s = (.ok a, s') ∧ s.next ≤ s'.handler ∧ s'.active = s.active
  raises : ¬ p → ∀ s, ∃ s', m s = (.raised s.handler, s') ∧ s.next ≤ s'.next

/-- **A `return` from inside `PG_TRY`** leaves the pointer at the frame of the block. -/
theorem Tidy.stray {pre : Pg α} {body : α → Pg β} {handler : Pg Exit} {p q : Prop} (hpre : Tidy pre p)
    (hbody : ∀ a, Tidy (body a) q) (hh : Tidy handler False) :
    Stray (Pg.function (pre >>= fun a => Pg.pgTry (body a >>= fun _ => pure .returned) handler)) (p ∧ q) := by
  have heq : ∀ s, (pre >>= fun a => Pg.pgTry (body a >>= fun _ => pure .returned) handler) s =
      Pg.bind pre (fun a => Pg.pgTry (body a >>= fun _ => pure .returned) handler) s := fun _ => rfl
  constructor
  · rintro ⟨hp, hq⟩ s
    obtain ⟨a, s₁, h₁, hh₁, hn₁⟩ := hpre.returns hp s
    obtain ⟨s₂, h₂, hh₂, -⟩ := ((hbody a).exit .returned (enter s₁)).1 hq
    refine ⟨.returned, { s₂ with active := s.active }, ?_, ?_, rfl⟩
    · rw [Pg.function, heq, Pg.bind, h₁]
      simp only [Pg.pgTry, show (body a >>= fun _ => pure .returned : Pg Exit)
        ⟨s₁.next, s₁.next :: s₁.active, s₁.next + 1⟩ = _ from h₂]
    · show s.next ≤ s₂.handler
      rw [hh₂]
      exact hn₁
  · intro hpq s
    by_cases hp : p
    · obtain ⟨a, s₁, h₁, hh₁, hn₁⟩ := hpre.returns hp s
      obtain ⟨s₂, h₂, hn₂⟩ := ((hbody a).exit .returned (enter s₁)).2 fun hq => hpq ⟨hp, hq⟩
      obtain ⟨s₃, h₃, hn₃⟩ := pgTry_raises hh h₂ hn₂
      refine ⟨{ s₃ with active := s.active }, ?_, Nat.le_trans hn₁ hn₃⟩
      rw [Pg.function, heq, Pg.bind, h₁]
      simp only [h₃, hh₁]
    · obtain ⟨s₁, h₁, hn₁⟩ := hpre.raises hp s
      exact ⟨{ s₁ with active := s.active }, by rw [Pg.function, heq, Pg.bind, h₁], hn₁⟩

end Pg

end PostFga
