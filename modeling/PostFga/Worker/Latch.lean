import PostFga.Channel.Effects
/-
# The worker's latch over its life (`worker.cpp:65`)

The worker process comes and goes beside the channel, and `FgaState.bgw_latch` points to the latch of
the one that wrote it last. A latch is the one of a `PGPROC`, named by a number; a worker that starts
may be given any, also one that was used before.

| here | there |
| --- | --- |
| `Bgw.bgwLatch` | `FgaState.bgw_latch` (`state.h:42`); NULL, with which the segment starts (`state.c:85`), is `none` |
| `Phase`, `Bgw.start` to `Bgw.exit` | `postfga_bgw_work` (`worker.cpp:135`) and `Worker::run` (`:65`); the postmaster starts a worker again when it ended by exit code 1 (`bgw.c:15`) |
| `Bgw.wakeBgw`  | `fga_wake_bgw` (`state.h:72`), called at `Stage.wakeBgw` (`channel.c:184`) |

`Bgw.left` is not the program's: the `PGPROC` of the last worker that registered, when it did not
get to clear the pointer.
-/

namespace PostFga

open Transition

inductive Phase where
  | notStarted
  /-- Forked, before `:68`. -/
  | started
  /-- In `process()`. -/
  | running
  /-- `process()` has returned, before `:87`. -/
  | returned
  /-- An exception or an ERROR has left `process()`: `PG_CATCH`, before its `proc_exit(1)`. -/
  | caught
  /-- Before `proc_exit(0)`. -/
  | cleared
  | exited (code : Nat)
deriving DecidableEq, Repr

/-- There is a worker process. -/
def Phase.alive : Phase → Bool
  | .notStarted | .exited _ => false
  | _ => true

/-- Its latch is registered. -/
def Phase.registered : Phase → Bool
  | .running | .returned | .caught => true
  | _ => false

structure Bgw where
  chan : St
  bgwLatch : Option Nat
  phase : Phase
  /-- The `PGPROC` of the worker process, if there is one. -/
  proc : Nat
  shutdownRequested : Bool
  crashed : Bool
  left : Option Nat

inductive BgwAct where
  /-- A step of a backend, of the worker's loop, or of a completion handler. -/
  | chan (a : Act)
  /-- The postmaster forks a worker and gives it a `PGPROC`, with its latch as it was left. -/
  | start (proc : Nat) (latch : Bool)
  | register
  | sigterm
  /-- The loop ends (`:101`). -/
  | leave
  /-- `process()` ends by an exception or an ERROR. -/
  | fail
  | clear
  | exit

namespace Bgw

def init (chan : St) : Bgw where
  chan := chan
  bgwLatch := none
  phase := .notStarted
  proc := 0
  shutdownRequested := false
  crashed := false
  left := none

/-- The latch of the worker that is running. -/
def current (s : Bgw) : Option Nat := if s.phase.alive then some s.proc else none

/-- `SetLatch` of a pointer that is not the running worker's sets the latch of a process that has
ended, or of another one; of NULL it ends the whole server. -/
def wakeBgw (s : Bgw) (b : Nat) (job : Job) : Bgw :=
  match s.bgwLatch with
  | none => { s with crashed := true }
  | some l =>
    if s.current = some l then { s with chan := s.chan.advance b job false .wakeBgw }
    else { s with chan := s.chan.goto b job (.wait .readState) }

/-- What the process held besides the shared memory ends with it. -/
def exit (s : Bgw) (code : Nat) : Bgw :=
  { s with phase := .exited code, chan := { s.chan with worker := .waitLatch, completed := [], rpcs := [] } }

def stepChan (s : Bgw) : Act → Option Bgw
  | .backend b fails =>
    match s.chan.backends b with
    | .running job .wakeBgw => some (s.wakeBgw b job)
    | _ => (s.chan.step (.backend b fails)).map fun chan => { s with chan := chan }
  | .worker =>
    if s.phase = .running then (s.chan.step .worker).map fun chan => { s with chan := chan } else none
  | a => (s.chan.step a).map fun chan => { s with chan := chan }

def stepLife (s : Bgw) : BgwAct → Option Bgw
  | .chan a => s.stepChan a
  | .start proc latch =>
    if s.phase = .notStarted ∨ s.phase = .exited 1 then
      some { s with
        phase := .started, proc := proc, shutdownRequested := false, chan := { s.chan with latch := latch } }
    else none
  | .register => if s.phase = .started then some { s with bgwLatch := some s.proc, phase := .running } else none
  | .sigterm =>
    if s.phase.alive then some { s with shutdownRequested := true, chan := { s.chan with latch := true } } else none
  | .leave =>
    if s.phase = .running ∧ s.chan.worker = .waitLatch ∧ s.shutdownRequested then
      some { s with phase := .returned }
    else none
  | .fail => if s.phase = .running then some { s with phase := .caught } else none
  | .clear => if s.phase = .returned then some { s with bgwLatch := none, phase := .cleared } else none
  | .exit =>
    match s.phase with
    | .caught => some { s.exit 1 with left := some s.proc }
    | .cleared => some { s.exit 0 with left := none }
    | _ => none

def step (s : Bgw) (a : BgwAct) : Option Bgw := if s.crashed then none else s.stepLife a

/-- The step is a backend's `fga_wake_bgw`. -/
def wakes (s : Bgw) : BgwAct → Bool
  | .chan (.backend b _) =>
    match s.chan.backends b with
    | .running _ .wakeBgw => true
    | _ => false
  | _ => false

/-- If the step wakes the worker, it reads the latch of the one that is running. -/
def FindsWorker (s : Bgw) (a : BgwAct) : Prop :=
  s.wakes a = true → s.bgwLatch.isSome = true ∧ s.bgwLatch = s.current

instance (s : Bgw) (a : BgwAct) : Decidable (s.FindsWorker a) := inferInstanceAs (Decidable (_ → _))

/-- If the step wakes the worker, the one that is running has registered and has not cleared the
pointer, or it was given the `PGPROC` of one that ended without clearing it. -/
def Registered (s : Bgw) (a : BgwAct) : Prop :=
  s.wakes a = true → s.phase.registered = true ∨ s.phase = .started ∧ s.left = some s.proc

/-! ## What the pointer holds -/

/-- The pointer by the phase of the worker's life. -/
def pointer (s : Bgw) : Option Nat :=
  match s.phase with
  | .running | .returned | .caught => some s.proc
  | .cleared => none
  | .notStarted | .started | .exited _ => s.left

theorem stepChan_life {s s' : Bgw} {a : Act} (h : s.stepChan a = some s') :
    s'.bgwLatch = s.bgwLatch ∧ s'.phase = s.phase ∧ s'.proc = s.proc ∧ s'.left = s.left := by
  have hmap : ∀ {x : Option St}, x.map (fun chan => { s with chan := chan }) = some s' →
      s'.bgwLatch = s.bgwLatch ∧ s'.phase = s.phase ∧ s'.proc = s.proc ∧ s'.left = s.left := by
    intro x hx
    obtain ⟨chan, _, rfl⟩ := Option.map_eq_some_iff.1 hx
    exact ⟨rfl, rfl, rfl, rfl⟩
  unfold stepChan at h
  split at h
  · split at h
    · rename_i b job _
      obtain rfl := Option.some.inj h
      unfold wakeBgw
      split
      · exact ⟨rfl, rfl, rfl, rfl⟩
      · split <;> exact ⟨rfl, rfl, rfl, rfl⟩
    · exact hmap h
  · split at h
    · exact hmap h
    · cases h
  · exact hmap h

/-- **The pointer** is the running worker's from its registration on, and stays when it ends in
another way than by SIGTERM. -/
theorem step_pointer (s : Bgw) (a : BgwAct) (s' : Bgw) (hp : s.bgwLatch = s.pointer)
    (h : s.step a = some s') : s'.bgwLatch = s'.pointer := by
  unfold step at h
  split at h
  · cases h
  cases a with
  | chan a =>
    obtain ⟨hlatch, hphase, hproc, hleft⟩ := stepChan_life h
    rw [hlatch, hp]
    simp only [pointer, hphase, hproc, hleft]
  | exit =>
    simp only [stepLife] at h
    split at h
    · rename_i hphase
      obtain rfl := Option.some.inj h
      simpa only [pointer, hphase, exit] using hp
    · rename_i hphase
      obtain rfl := Option.some.inj h
      simpa only [pointer, hphase, exit] using hp
    · cases h
  | start proc latch =>
    simp only [stepLife, Option.ite_none_right_eq_some, Option.some.injEq] at h
    obtain ⟨hphase | hphase, rfl⟩ := h <;> simpa only [pointer, hphase] using hp
  | register =>
    simp only [stepLife, Option.ite_none_right_eq_some, Option.some.injEq] at h
    obtain ⟨_, rfl⟩ := h
    rfl
  | sigterm =>
    simp only [stepLife, Option.ite_none_right_eq_some, Option.some.injEq] at h
    obtain ⟨_, rfl⟩ := h
    exact hp
  | leave =>
    simp only [stepLife, Option.ite_none_right_eq_some, Option.some.injEq] at h
    obtain ⟨⟨hphase, _⟩, rfl⟩ := h
    simpa only [pointer, hphase] using hp
  | fail =>
    simp only [stepLife, Option.ite_none_right_eq_some, Option.some.injEq] at h
    obtain ⟨hphase, rfl⟩ := h
    simpa only [pointer, hphase] using hp
  | clear =>
    simp only [stepLife, Option.ite_none_right_eq_some, Option.some.injEq] at h
    obtain ⟨_, rfl⟩ := h
    rfl

theorem findsWorker_iff {s : Bgw} (hp : s.bgwLatch = s.pointer) (a : BgwAct) :
    s.FindsWorker a ↔ s.Registered a := by
  unfold FindsWorker Registered
  refine imp_congr_right fun _ => ?_
  rw [hp]
  cases hphase : s.phase with
  | notStarted | exited | started =>
    simp only [pointer, current, hphase, Phase.alive, Phase.registered]
    cases s.left <;> simp
  | _ => simp [pointer, current, hphase, Phase.alive, Phase.registered]

/-! ## Every run -/

/-- **Every wake-up finds the running worker exactly when** each comes while the worker is registered,
or before a restarted worker registers that has the `PGPROC` of one that did not clear the pointer. -/
theorem wakes_find_iff (n k : Nat) (mem : Nat → FgaChannelSlot) (values : Nat → UInt16) (acts : List BgwAct) :
    Meets step FindsWorker (init (.init n k mem values)) acts ↔
      Meets step Registered (init (.init n k mem values)) acts :=
  meets_congr (fun s => s.bgwLatch = s.pointer) step_pointer (fun _ => findsWorker_iff) acts rfl

/-- A check by backend 0 up to its wake-up. -/
def checkAndWake : List BgwAct :=
  (.acquire 0 ⟨some (.lit "s"), none⟩ checkViewer :: goOn 0 13).map .chan

/-- A wake-up before the first worker has started is `SetLatch` of NULL; one after a worker has ended by
an ERROR goes to the latch it left. -/
theorem wakes_find_none :
    ¬ Meets step FindsWorker (init PostFga.start) checkAndWake ∧
      (run step (init PostFga.start) checkAndWake).any (fun s => s.crashed) = true ∧
      ¬ Meets step FindsWorker (init PostFga.start)
        ([.start 5 false, .register, .fail, .exit] ++ checkAndWake) ∧
      (run step (init PostFga.start) ([.start 5 false, .register, .fail, .exit] ++ checkAndWake)).any
        (fun s => s.bgwLatch == some 5 && s.current == none && s.chan.latch == false) = true := by
  refine ⟨?_, ?_, ?_, ?_⟩ <;> decide +kernel

end Bgw

end PostFga
