import PostFga.Lib.PgTry
/-
# Which handler an ERROR reaches after the five functions

The control flow of the functions, without their data: every condition that decides where control
goes is one of the `Circumstances` of the call.

| here | there |
| --- | --- |
| `waitLoop`, `waitResponse` | `wait_response` (`channel.c:55`): the turns of its `for (;;)` (`:66`), which ends by the `break` of a slot that is DONE or CANCELED |
| `fgaChannelAcquireSlot`, `fgaChannelReleaseSlot`, `fgaChannelExecuteSlot` | `channel.c:107`, `:135`, `:165` |
| `fgaCheck` | `func_fga.c:129`; an INFO is no ERROR |
| `slotCall` | what the other four have in common: the arguments and the slot before `PG_TRY`, a `PG_RETURN_..` at the end of the block, and a `PG_CATCH` that releases and rethrows |
| `fgaWriteTuple`, `fgaDeleteTuple`, `fgaCreateStore`, `fgaDeleteStore` | `func_fga.c:165`, `:197`, `:229`, `:295` |
-/

namespace PostFga.ErrorPath

open Pg

/-- What one call meets. -/
structure Circumstances where
  /-- `read_tuple_args`, `text_to_cstring`: no argument is missing or empty. -/
  argsRead : Bool
  cacheHit : Bool
  /-- The pool has a slot. -/
  acquired : Bool
  /-- `fill_request`: `store_id` is configured. -/
  storeIdSet : Bool
  /-- The queue has room. -/
  enqueued : Bool
  /-- One for each turn of the wait: `CHECK_FOR_INTERRUPTS` raises. -/
  interrupts : List Bool
  /-- The wait ended with the slot CANCELED. -/
  canceled : Bool
  /-- `response->status == FGA_RESPONSE_OK`. -/
  statusOk : Bool
  /-- `get_call_result_type` finds a composite type. -/
  composite : Bool
  /-- The two texts of the row are built. -/
  texts : Bool
  /-- `heap_form_tuple`. -/
  formed : Bool
deriving DecidableEq, Repr

section
variable (c : Circumstances)

def waitLoop : List Bool → Pg Unit
  | [] => pure ()
  | interrupt :: turns => do
    unlessRaises !interrupt
    waitLoop turns

/-- Takes a lock and gives it back. -/
def fgaChannelReleaseSlot : Pg Unit := pure ()

/-- A `PG_CATCH` that tidies up and rethrows. -/
def rethrow : Pg Exit := do
  fgaChannelReleaseSlot
  ereport

def waitResponse : Pg Exit :=
  function (pgTry (waitLoop c.interrupts >>= fun _ => pure .fallThrough) rethrow)

def fgaChannelAcquireSlot : Pg Unit := function (unlessRaises c.acquired)

def fgaChannelExecuteSlot : Pg Unit := function do
  unlessRaises c.enqueued
  let _ ← waitResponse c
  unlessRaises !c.canceled

def fgaCheck : Pg Exit := function do
  unlessRaises c.argsRead
  if c.cacheHit then pure .returned
  else
    fgaChannelAcquireSlot c
    unlessRaises c.storeIdSet
    fgaChannelExecuteSlot c
    fgaChannelReleaseSlot
    pure .returned

def slotCall (work : Pg Unit) : Pg Exit :=
  function ((do unlessRaises c.argsRead; fgaChannelAcquireSlot c) >>= fun _ =>
    pgTry (work >>= fun _ => pure .returned) rethrow)

def fgaWriteTuple : Pg Exit := slotCall c do
  unlessRaises c.storeIdSet
  fgaChannelExecuteSlot c
  unlessRaises c.statusOk
  fgaChannelReleaseSlot

def fgaDeleteTuple : Pg Exit := slotCall c do
  unlessRaises c.storeIdSet
  fgaChannelExecuteSlot c
  unlessRaises c.statusOk
  fgaChannelReleaseSlot

def fgaCreateStore : Pg Exit := slotCall c do
  fgaChannelExecuteSlot c
  unlessRaises c.statusOk
  unlessRaises c.composite
  unlessRaises c.texts
  fgaChannelReleaseSlot
  unlessRaises c.formed

def fgaDeleteStore : Pg Exit := slotCall c do
  fgaChannelExecuteSlot c
  unlessRaises c.statusOk
  fgaChannelReleaseSlot

end

inductive SqlFunction where
  | check | writeTuple | deleteTuple | createStore | deleteStore
deriving DecidableEq, Repr

def SqlFunction.run : SqlFunction → Circumstances → Pg Exit
  | .check => fgaCheck
  | .writeTuple => fgaWriteTuple
  | .deleteTuple => fgaDeleteTuple
  | .createStore => fgaCreateStore
  | .deleteStore => fgaDeleteStore

/-- The request was enqueued and answered. -/
def Circumstances.Answered (c : Circumstances) : Prop :=
  c.enqueued = true ∧ (∀ interrupt ∈ c.interrupts, interrupt = false) ∧ c.canceled = false

instance (c : Circumstances) : Decidable c.Answered := inferInstanceAs (Decidable (_ ∧ _))

/-- Nothing in the way of the call raises an ERROR. -/
def SqlFunction.GoesThrough (f : SqlFunction) (c : Circumstances) : Prop :=
  c.argsRead = true ∧ match f with
    | .check => c.cacheHit = true ∨ c.acquired = true ∧ c.storeIdSet = true ∧ c.Answered
    | .writeTuple | .deleteTuple => c.acquired = true ∧ c.storeIdSet = true ∧ c.Answered ∧ c.statusOk = true
    | .createStore => c.acquired = true ∧ c.Answered ∧ c.statusOk = true ∧ c.composite = true ∧
        c.texts = true ∧ c.formed = true
    | .deleteStore => c.acquired = true ∧ c.Answered ∧ c.statusOk = true

/-! ## Each function -/

section
variable (c : Circumstances)

theorem tidy_release : Tidy fgaChannelReleaseSlot True := tidy_pure ()

theorem tidy_rethrow : Tidy rethrow False := (tidy_release.bind fun _ => tidy_ereport).congr (by simp)

theorem tidy_waitLoop (turns : List Bool) : Tidy (waitLoop turns) (∀ interrupt ∈ turns, interrupt = false) := by
  induction turns with
  | nil => exact (tidy_pure ()).congr (by simp)
  | cons interrupt turns ih =>
    exact ((tidy_unlessRaises !interrupt).bind fun _ => ih).congr (by simp)

/-- The `break` of the loop stays inside the block: the handler is put back. -/
theorem tidy_waitResponse : Tidy (waitResponse c) (∀ interrupt ∈ c.interrupts, interrupt = false) :=
  ((tidy_waitLoop c.interrupts).pgTry tidy_rethrow).function

theorem tidy_acquire : Tidy (fgaChannelAcquireSlot c) (c.acquired = true) := (tidy_unlessRaises _).function

theorem tidy_execute : Tidy (fgaChannelExecuteSlot c) c.Answered :=
  ((tidy_unlessRaises _).bind fun _ => (tidy_waitResponse c).bind fun _ => tidy_unlessRaises _).function.congr
    (by simp [Circumstances.Answered])

/-- **`fga_check`** has no block of its own. -/
theorem tidy_check : Tidy (fgaCheck c) (SqlFunction.check.GoesThrough c) := by
  have hslow := (tidy_acquire c).bind fun _ => (tidy_unlessRaises c.storeIdSet).bind fun _ =>
    (tidy_execute c).bind fun _ => tidy_release.bind fun _ => tidy_pure Exit.returned
  refine ((tidy_unlessRaises c.argsRead).bind fun _ => (tidy_pure Exit.returned).ite hslow).function.congr ?_
  cases hc : c.cacheHit <;> simp [SqlFunction.GoesThrough, hc]

theorem stray_slotCall {work : Pg Unit} {q : Prop} (hw : Tidy work q) :
    Stray (slotCall c work) ((c.argsRead = true ∧ c.acquired = true) ∧ q) :=
  ((tidy_unlessRaises c.argsRead).bind fun _ => tidy_acquire c).stray (fun _ => hw) tidy_rethrow

theorem Stray.congr {m : Pg Exit} {p q : Prop} (h : Stray m p) (hpq : p ↔ q) : Stray m q :=
  ⟨fun hq => h.returns (hpq.2 hq), fun hq => h.raises fun hp => hq (hpq.1 hp)⟩

/-- **The other four** return from inside theirs. -/
theorem stray_run {f : SqlFunction} (hf : f ≠ .check) : Stray (f.run c) (f.GoesThrough c) := by
  have htail := (tidy_execute c).bind fun _ => (tidy_unlessRaises c.statusOk).bind fun _ => tidy_release
  cases f with
  | check => exact absurd rfl hf
  | writeTuple | deleteTuple =>
    refine Stray.congr (stray_slotCall c ((tidy_unlessRaises c.storeIdSet).bind fun _ => htail)) ?_
    simp [SqlFunction.GoesThrough, and_assoc]
  | createStore =>
    have hrow := (tidy_unlessRaises c.composite).bind fun _ => (tidy_unlessRaises c.texts).bind fun _ =>
      tidy_release.bind fun _ => tidy_unlessRaises c.formed
    refine Stray.congr (stray_slotCall c ((tidy_execute c).bind fun _ =>
      (tidy_unlessRaises c.statusOk).bind fun _ => hrow)) ?_
    simp [SqlFunction.GoesThrough, and_assoc]
  | deleteStore =>
    refine Stray.congr (stray_slotCall c htail) ?_
    simp [SqlFunction.GoesThrough, and_assoc]

end

/-! ## The calls of a statement -/

/-- One surrounding handler and nothing else. -/
def surrounding (frame : Nat) : ErrorState := ⟨frame, [frame], frame + 1⟩

/-- Calls one after the other, from the state `s`. One that returns leaves the pointer as it was, at
a frame that is active; an ERROR reaches such a frame, and its handler goes on with the next call. -/
def Delivered : ErrorState → List (SqlFunction × Circumstances) → Prop
  | _, [] => True
  | s, call :: calls =>
    match call.1.run call.2 s with
    | (.ok _, s') => s'.handler = s.handler ∧ s'.handler ∈ s'.active ∧ Delivered s' calls
    | (.raised frame, s') => frame ∈ s.active ∧ Delivered { s' with handler := frame, active := s.active } calls

/-- The pointer names a frame that is active, new frames are new. -/
structure Sound (s : ErrorState) : Prop where
  live : s.handler ∈ s.active
  fresh : ∀ frame ∈ s.active, frame < s.next

theorem Sound.later {s s' : ErrorState} (hs : Sound s) (hh : s'.handler = s.handler)
    (hact : s'.active = s.active) (hn : s.next ≤ s'.next) : Sound s' where
  live := by
    rw [hh, hact]
    exact hs.live
  fresh frame hf := by
    rw [hact] at hf
    exact Nat.lt_of_lt_of_le (hs.fresh frame hf) hn

theorem function_active {α : Type} {body : Pg α} {s s' : ErrorState} {r : PgOutcome α}
    (h : function body s = (r, s')) : s'.active = s.active := by
  have := congrArg (fun x => x.2.active) h
  exact this.symm

theorem delivered_iff {s : ErrorState} (hs : Sound s) (calls : List (SqlFunction × Circumstances)) :
    Delivered s calls ↔ ∀ call ∈ calls, call.1 ≠ .check → ¬ call.1.GoesThrough call.2 := by
  induction calls generalizing s with
  | nil => simp [Delivered]
  | cons call calls ih =>
    obtain ⟨f, c⟩ := call
    -- after an ERROR the surrounding handler is in place again
    have hraised : ∀ s', f.run c s = (.raised s.handler, s') → s.next ≤ s'.next →
        (Delivered s ((f, c) :: calls) ↔ ∀ call ∈ calls, call.1 ≠ .check → ¬ call.1.GoesThrough call.2) := by
      intro s' hr hn
      have hs' : Sound { s' with handler := s.handler, active := s.active } := hs.later rfl rfl hn
      simp only [Delivered, hr]
      rw [ih hs']
      exact ⟨And.right, fun h => ⟨hs.live, h⟩⟩
    rw [List.forall_mem_cons]
    by_cases hf : f = .check
    · subst hf
      by_cases hg : SqlFunction.check.GoesThrough c
      · obtain ⟨a, s', hr, hh, hn⟩ := (tidy_check c).returns hg s
        have hs' : Sound s' := hs.later hh (function_active hr) hn
        simp only [Delivered, show SqlFunction.check.run c s = _ from hr]
        rw [ih hs']
        exact ⟨fun h => ⟨fun hne => absurd rfl hne, h.2.2⟩, fun h => ⟨hh, hs'.live, h.2⟩⟩
      · obtain ⟨s', hr, hn⟩ := (tidy_check c).raises hg s
        rw [hraised s' hr hn]
        exact ⟨fun h => ⟨fun hne => absurd rfl hne, h⟩, And.right⟩
    · by_cases hg : f.GoesThrough c
      · obtain ⟨a, s', hr, hle, -⟩ := (stray_run c hf).returns hg s
        have hlt := hs.fresh _ hs.live
        constructor
        · intro h
          simp only [Delivered, hr] at h
          have := h.1
          omega
        · intro h
          exact absurd hg (h.1 hf)
      · obtain ⟨s', hr, hn⟩ := (stray_run c hf).raises hg s
        rw [hraised s' hr hn]
        exact ⟨fun h => ⟨fun _ => hg, h⟩, And.right⟩

theorem sound_surrounding (frame : Nat) : Sound (surrounding frame) :=
  ⟨List.mem_singleton.2 rfl, fun f hf => by rw [List.mem_singleton.1 hf]; exact Nat.lt_succ_self frame⟩

/-- **Errors reach a live handler exactly when** no call of a function other than `fga_check` goes
through. -/
theorem errors_delivered_iff (frame : Nat) (calls : List (SqlFunction × Circumstances)) :
    Delivered (surrounding frame) calls ↔
      ∀ call ∈ calls, call.1 ≠ .check → ¬ call.1.GoesThrough call.2 :=
  delivered_iff (sound_surrounding frame) calls

/-- A call to which nothing happens. -/
def smooth : Circumstances := ⟨true, false, true, true, true, [], false, true, true, true, true⟩

/-- **A dead frame**: after `fga_write_tuple` has returned true, the pointer names the frame of its
block, and the next ERROR in the statement, that of a check without an argument, jumps there. -/
theorem errors_lost :
    (fgaWriteTuple smooth (surrounding 0)).1 = .ok .returned ∧
    (fgaCheck { smooth with argsRead := false } (fgaWriteTuple smooth (surrounding 0)).2).1 = .raised 1 ∧
    1 ∉ (fgaWriteTuple smooth (surrounding 0)).2.active ∧
    ¬ Delivered (surrounding 0) [(.writeTuple, smooth), (.check, { smooth with argsRead := false })] := by
  refine ⟨by decide, by decide, by decide, fun h => ?_⟩
  exact absurd h.1 (by decide)

end PostFga.ErrorPath
