import PostFga.Channel.Wait
import PostFga.Lib.Transition
/-
# The cancel/complete handshake on one slot

One slot, the backend that has enqueued it and waits for it, and the worker. The caller is like
`fga_check`: it releases the slot after a normal return and does nothing after an ERROR. The process
may end by a FATAL in `wait_response` or after its call.

* `Handshake.step` — the steps of both parties, in any order; `log` lists what they did to the slot.
* `Handshake.Guard` — the four things that must not happen.
* `Ok` and `Bad` — where a run is as long as they have not, and once one has.
* `releasedOnce_iff` — a run in which both parties have finished has released the slot once, as the
  last thing it did to it, exactly when none of the four has happened.
-/

namespace PostFga.Handshake

open Transition

inductive Backend where
  | wait (pc : WaitPc)
  /-- The release in `fga_channel_execute_slot` of a slot seen CANCELED (`channel.c:193`). -/
  | rollback
  /-- The caller's release after a normal return. -/
  | release
  | done
  /-- The process is gone. -/
  | ended
deriving DecidableEq, Repr

inductive Worker where
  | queued
  | cas
  | releaseCanceled
  /-- The RPC is under way. -/
  | rpc
  | handle (pc : HandlePc)
  | done
deriving DecidableEq, Repr

structure St where
  state : FgaChannelSlotState
  /-- The backend's, or `InvalidPid`. -/
  pid : Option Nat
  alive : Bool
  backend : Backend
  worker : Worker
  log : List SlotEffect
deriving DecidableEq, Repr

inductive Act where
  | backend (interrupt : Bool)
  | fatal
  | exit
  | worker
deriving DecidableEq, Repr

def St.apply (s : St) : SlotEffect → St
  | .none => s
  | .writeState st => { s with state := st, log := s.log ++ [.writeState st] }
  | .writePid pid => { s with pid := pid, log := s.log ++ [.writePid pid] }
  | .release => { s with state := .empty, log := s.log ++ [.release] }

/-- The slot as it is when `wait_response` is entered. -/
def init (pid : Nat) : St := ⟨.pending, some pid, true, .wait .readState, .queued, []⟩

def afterWait : WaitNext → Backend
  | .goto pc => .wait pc
  | .returned .canceled => .rollback
  | .returned _ => .release
  | .rethrown => .done

def afterCas : BeginNext → Worker
  | .begun => .rpc
  | .cancelled => .releaseCanceled
  | .unexpected => .done

def afterHandle : Option HandlePc → Worker
  | some pc => .handle pc
  | none => .done

def St.found (s : St) : Bool := s.alive && s.pid.isSome

def step (s : St) : Act → Option St
  | .backend interrupt =>
    match s.backend with
    | .wait pc =>
      let (e, next) := waitStep s.state interrupt pc
      some { s.apply e with backend := afterWait next }
    | .rollback | .release => some { s.apply .release with backend := .done }
    | .done | .ended => none
  | .fatal =>
    match s.backend with
    | .wait .waitLatch => some { s with backend := .ended, alive := false }
    | _ => none
  | .exit =>
    match s.backend with
    | .done => some { s with backend := .ended, alive := false }
    | _ => none
  | .worker =>
    match s.worker with
    | .queued => some { s with worker := .cas }
    | .cas =>
      let (e, next) := beginCas s.state
      some { s.apply e with worker := afterCas next }
    | .releaseCanceled => some { s.apply .release with worker := .done }
    | .rpc => some { s with worker := .handle .readState }
    | .handle pc =>
      let (e, next) := handleStep s.state s.found pc
      some { s.apply e with worker := afterHandle next }
    | .done => none

/-- Neither party has a step left on the slot. -/
def St.Complete (s : St) : Prop := (s.backend = .done ∨ s.backend = .ended) ∧ s.worker = .done

/-- Pushed on the free list once, and nothing written after. -/
def St.ReleasedOnce (s : St) : Prop := ∃ l, s.log = l ++ [.release] ∧ SlotEffect.release ∉ l

/-- * `PG_CATCH` does not find the slot DONE;
* the worker does not look the pid up, and does not release a slot found CANCELED, while the backend
  is in `PG_CATCH` between its read of the state and its write of the pid;
* the backend does not end by FATAL when the worker has finished;
* it does not end after its release when the worker is yet to look its pid up. -/
def Guard (s : St) : Act → Prop
  | .backend _ => s.backend = .wait .catchReadState → s.state ≠ .done
  | .worker =>
    (s.worker = .handle .lookup → s.backend ≠ .wait .catchCancel ∧ s.backend ≠ .wait .catchWritePid) ∧
    (s.worker = .releaseCanceled ∨ s.worker = .handle .releaseCanceled → s.backend ≠ .wait .catchWritePid)
  | .fatal => s.worker ≠ .done
  | .exit => s.worker = .handle .lookup → SlotEffect.release ∉ s.log

instance (s : St) : ∀ a, Decidable (Guard s a)
  | .backend _ => inferInstanceAs (Decidable (_ → _))
  | .worker => inferInstanceAs (Decidable ((_ → _) ∧ (_ → _)))
  | .fatal => inferInstanceAs (Decidable (_ ≠ _))
  | .exit => inferInstanceAs (Decidable (_ → _))

/-! ## As long as the guard is met -/

/-- The worker and the state when no cancel has been written. -/
def Ahead (w : Worker) (st : FgaChannelSlotState) : Prop :=
  match w with
  | .queued | .cas => st = .pending
  | .rpc | .handle .readState | .handle .writeDone => st = .processing
  | .handle .lookup | .done => st = .done
  | .releaseCanceled | .handle .releaseCanceled | .handle .releaseUnfound => False

/-- The worker and the state after CANCELED has been written: the worker will release the slot. -/
def Cancelled (w : Worker) (st : FgaChannelSlotState) : Prop :=
  match w with
  | .queued | .cas | .releaseCanceled | .rpc | .handle .readState | .handle .releaseCanceled
  | .handle .writeDone => st = .canceled
  | .handle .lookup => st = .canceled ∨ st = .done
  | .handle .releaseUnfound | .done => False

/-- The worker and the state when the process has ended and nobody has released the slot. -/
def Deserted (w : Worker) (st : FgaChannelSlotState) : Prop :=
  w = .handle .releaseUnfound ∨ Cancelled w st ∨ Ahead w st ∧ w ≠ .done

def St.Unreleased (s : St) : Prop := SlotEffect.release ∉ s.log

/-- Where a run is while the guard has been met. -/
def Ok (s : St) : Prop :=
  match s.backend with
  | .wait .readState | .wait .waitLatch | .wait .catchReadState =>
    s.Unreleased ∧ s.found = true ∧ Ahead s.worker s.state
  | .wait .catchCancel => s.Unreleased ∧ s.found = true ∧ Ahead s.worker s.state ∧ s.worker ≠ .done
  | .wait .catchWritePid => s.Unreleased ∧ s.found = true ∧ Cancelled s.worker s.state
  | .wait .catchRelease | .rollback => False
  | .release => s.Unreleased ∧ s.found = true ∧ s.state = .done ∧ (s.worker = .handle .lookup ∨ s.worker = .done)
  | .done =>
    s.ReleasedOnce ∧ (s.worker = .done ∨ s.worker = .handle .lookup ∧ s.found = true) ∨
    s.Unreleased ∧ s.found = false ∧ Deserted s.worker s.state
  | .ended => s.ReleasedOnce ∧ s.worker = .done ∨ s.Unreleased ∧ s.found = false ∧ Deserted s.worker s.state

section
variable {s s' : St}

theorem unreleased_apply (h : s.Unreleased) {e : SlotEffect} (he : e ≠ .release) : (s.apply e).Unreleased := by
  cases e with
  | none => exact h
  | release => exact absurd rfl he
  | writeState st => simpa [St.Unreleased, St.apply] using h
  | writePid pid => simpa [St.Unreleased, St.apply] using h

/-- The first release is the last thing in the log. -/
theorem releasedOnce_apply (h : s.Unreleased) : (s.apply .release).ReleasedOnce := ⟨s.log, rfl, h⟩

theorem St.ReleasedOnce.mem (h : s.ReleasedOnce) : SlotEffect.release ∈ s.log := by
  obtain ⟨l, hl, -⟩ := h
  rw [hl]; simp

/-- The worker while no cancel has been written. -/
theorem worker_ahead (hu : s.Unreleased) (ha : Ahead s.worker s.state) (hs : step s .worker = some s') :
    s'.Unreleased ∧ s'.backend = s.backend ∧ s'.found = s.found ∧
      (Ahead s'.worker s'.state ∧ (s'.worker = .done → s.worker = .handle .lookup) ∧
        (s.worker = .handle .lookup → s.found = true) ∨
       s.found = false ∧ s.worker = .handle .lookup ∧ s'.worker = .handle .releaseUnfound) := by
  obtain ⟨st, pid, alive, b, w, log⟩ := s
  cases w with
  | queued => cases hs; exact ⟨hu, rfl, rfl, Or.inl ⟨ha, by simp, by simp⟩⟩
  | cas =>
    obtain rfl : st = .pending := ha
    cases hs
    exact ⟨unreleased_apply hu (by simp), rfl, rfl, Or.inl ⟨rfl, by simp [afterCas], by simp⟩⟩
  | releaseCanceled => exact ha.elim
  | rpc => cases hs; exact ⟨hu, rfl, rfl, Or.inl ⟨ha, by simp, by simp⟩⟩
  | done => cases hs
  | handle pc =>
    cases pc with
    | readState =>
      obtain rfl : st = .processing := ha
      cases hs
      exact ⟨hu, rfl, rfl, Or.inl ⟨rfl, by simp [afterHandle], by simp⟩⟩
    | releaseCanceled => exact ha.elim
    | writeDone =>
      cases hs
      exact ⟨unreleased_apply hu (by simp), rfl, rfl, Or.inl ⟨rfl, by simp [afterHandle], by simp⟩⟩
    | lookup =>
      obtain rfl : st = .done := ha
      cases hs
      refine ⟨hu, rfl, rfl, ?_⟩
      cases hf : St.found ⟨.done, pid, alive, b, .handle .lookup, log⟩ with
      | true => exact Or.inl ⟨by simp [afterHandle, Ahead, St.apply], by simp, by simp⟩
      | false => exact Or.inr ⟨rfl, rfl, by simp [afterHandle]⟩
    | releaseUnfound => exact ha.elim

/-- The worker after CANCELED has been written. -/
theorem worker_cancelled (hu : s.Unreleased) (hc : Cancelled s.worker s.state)
    (hl : s.worker = .handle .lookup → s.found = false) (hs : step s .worker = some s') :
    s'.backend = s.backend ∧ s'.found = s.found ∧
      (s'.Unreleased ∧ Cancelled s'.worker s'.state ∧ s.worker ≠ .handle .lookup ∨
       s'.Unreleased ∧ s.worker = .handle .lookup ∧ s'.worker = .handle .releaseUnfound ∨
       s'.ReleasedOnce ∧ s'.worker = .done ∧
        (s.worker = .releaseCanceled ∨ s.worker = .handle .releaseCanceled)) := by
  obtain ⟨st, pid, alive, b, w, log⟩ := s
  cases w with
  | queued => cases hs; exact ⟨rfl, rfl, Or.inl ⟨hu, hc, by simp⟩⟩
  | cas =>
    obtain rfl : st = .canceled := hc
    cases hs
    exact ⟨rfl, rfl, Or.inl ⟨hu, rfl, by simp⟩⟩
  | releaseCanceled => cases hs; exact ⟨rfl, rfl, Or.inr (Or.inr ⟨releasedOnce_apply hu, rfl, Or.inl rfl⟩)⟩
  | rpc => cases hs; exact ⟨rfl, rfl, Or.inl ⟨hu, hc, by simp⟩⟩
  | done => cases hs
  | handle pc =>
    cases pc with
    | readState =>
      obtain rfl : st = .canceled := hc
      cases hs
      exact ⟨rfl, rfl, Or.inl ⟨hu, rfl, by simp⟩⟩
    | releaseCanceled =>
      cases hs; exact ⟨rfl, rfl, Or.inr (Or.inr ⟨releasedOnce_apply hu, rfl, Or.inr rfl⟩)⟩
    | writeDone =>
      cases hs
      exact ⟨rfl, rfl, Or.inl ⟨unreleased_apply hu (by simp), Or.inr rfl, by simp⟩⟩
    | lookup =>
      have hf := hl rfl
      cases hs
      exact ⟨rfl, rfl, Or.inr (Or.inl ⟨hu, rfl, by simp [afterHandle, hf]⟩)⟩
    | releaseUnfound => exact hc.elim

/-- The worker when the backend has gone and nobody has released the slot. -/
theorem worker_deserted (hu : s.Unreleased) (hf : s.found = false) (hd : Deserted s.worker s.state)
    (hs : step s .worker = some s') : s'.backend = s.backend ∧
      (s'.ReleasedOnce ∧ s'.worker = .done ∨
       s'.Unreleased ∧ s'.found = false ∧ Deserted s'.worker s'.state) := by
  rcases hd with hw | hc | ⟨ha, hw⟩
  · obtain ⟨st, pid, alive, b, w, log⟩ := s
    obtain rfl : w = .handle .releaseUnfound := hw
    cases hs
    exact ⟨rfl, Or.inl ⟨releasedOnce_apply hu, rfl⟩⟩
  · obtain ⟨hb, hff, hcase⟩ := worker_cancelled hu hc (fun _ => hf) hs
    refine ⟨hb, ?_⟩
    rcases hcase with ⟨hu', hc', -⟩ | ⟨hu', -, hw'⟩ | ⟨hr, hw', -⟩
    · exact Or.inr ⟨hu', hff.trans hf, Or.inr (Or.inl hc')⟩
    · exact Or.inr ⟨hu', hff.trans hf, Or.inl hw'⟩
    · exact Or.inl ⟨hr, hw'⟩
  · obtain ⟨hu', hb, hff, hcase⟩ := worker_ahead hu ha hs
    refine ⟨hb, Or.inr ⟨hu', hff.trans hf, ?_⟩⟩
    rcases hcase with ⟨ha', hdone, hfound⟩ | ⟨-, -, hw'⟩
    · refine Or.inr (Or.inr ⟨ha', fun hd => ?_⟩)
      rw [hfound (hdone hd)] at hf; cases hf
    · exact Or.inl hw'

/-- Nothing is left for the worker to do when the slot is free and the backend's pid is found. -/
theorem worker_found (hw : s.worker = .handle .lookup) (hf : s.found = true)
    (hs : step s .worker = some s') : s' = { s with worker := .done } := by
  simp only [step, hw, handleStep, hf, if_true, St.apply, afterHandle, Option.some.injEq] at hs
  exact hs.symm

theorem ok_worker (h : Ok s) (hg : Guard s .worker) (hs : step s .worker = some s') : Ok s' := by
  unfold Ok at h
  split at h
  case h_1 hb | h_2 hb | h_3 hb =>
    obtain ⟨hu, hf, ha⟩ := h
    obtain ⟨hu', hb', hf', hcase⟩ := worker_ahead hu ha hs
    rw [hb] at hb'
    rcases hcase with ⟨ha', -, -⟩ | ⟨hff, -, -⟩
    · simp only [Ok, hb']; exact ⟨hu', hf'.trans hf, ha'⟩
    · rw [hf] at hff; cases hff
  case h_4 hb =>
    obtain ⟨hu, hf, ha, hw⟩ := h
    obtain ⟨hu', hb', hf', hcase⟩ := worker_ahead hu ha hs
    rw [hb] at hb'
    rcases hcase with ⟨ha', hdone, -⟩ | ⟨hff, -, -⟩
    · simp only [Ok, hb']
      exact ⟨hu', hf'.trans hf, ha', fun hd => (hg.1 (hdone hd)).1 hb⟩
    · rw [hf] at hff; cases hff
  case h_5 hb =>
    obtain ⟨hu, hf, hc⟩ := h
    obtain ⟨hb', hf', hcase⟩ := worker_cancelled hu hc (fun hl => absurd hb (hg.1 hl).2) hs
    rw [hb] at hb'
    rcases hcase with ⟨hu', hc', -⟩ | ⟨-, hl, -⟩ | ⟨-, -, hrel⟩
    · simp only [Ok, hb']; exact ⟨hu', hf'.trans hf, hc'⟩
    · exact absurd hb (hg.1 hl).2
    · exact absurd hb (hg.2 hrel)
  case h_6 => exact h.elim
  case h_7 => exact h.elim
  case h_8 hb =>
    obtain ⟨hu, hf, hst, hw⟩ := h
    rcases hw with hw | hw
    · rw [worker_found hw hf hs]
      simp only [Ok, hb]
      exact ⟨hu, hf, hst, by simp⟩
    · simp only [step, hw] at hs; cases hs
  case h_9 hb =>
    rcases h with ⟨hr, hw | ⟨hw, hf⟩⟩ | ⟨hu, hf, hd⟩
    · simp only [step, hw] at hs; cases hs
    · rw [worker_found hw hf hs]
      simp only [Ok, hb]
      exact Or.inl ⟨hr, by simp⟩
    · obtain ⟨hb', hcase⟩ := worker_deserted hu hf hd hs
      rw [hb] at hb'
      simp only [Ok, hb']
      exact hcase.imp_left fun ⟨hr, hw⟩ => ⟨hr, Or.inl hw⟩
  case h_10 hb =>
    rcases h with ⟨hr, hw⟩ | ⟨hu, hf, hd⟩
    · simp only [step, hw] at hs; cases hs
    · obtain ⟨hb', hcase⟩ := worker_deserted hu hf hd hs
      rw [hb] at hb'
      simp only [Ok, hb']
      exact hcase

theorem ahead_cancel {w : Worker} {st : FgaChannelSlotState} (h : Ahead w st) (hw : w ≠ .done) :
    Cancelled w .canceled := by
  cases w with
  | handle pc => cases pc <;> simp_all [Ahead, Cancelled]
  | _ => simp_all [Ahead, Cancelled]

theorem ok_backend (h : Ok s) {interrupt : Bool} (hg : Guard s (.backend interrupt))
    (hs : step s (.backend interrupt) = some s') : Ok s' := by
  obtain ⟨st, pid, alive, b, w, log⟩ := s
  cases b with
  | wait pc =>
    cases pc with
    | readState =>
      obtain ⟨hu, hf, ha⟩ := h
      cases hs
      -- the state is not CANCELED, and the worker that has written DONE has the lookup left at most
      cases st with
      | done =>
        have hw : w = .handle .lookup ∨ w = .done := by
          cases w with
          | handle pc => cases pc <;> simp_all [Ahead]
          | _ => simp_all [Ahead]
        exact ⟨hu, hf, rfl, hw⟩
      | canceled =>
        cases w with
        | handle pc => cases pc <;> simp [Ahead] at ha
        | _ => simp [Ahead] at ha
      | empty | pending | processing => exact ⟨hu, hf, ha⟩
    | waitLatch => cases hs; cases interrupt <;> exact h
    | catchReadState =>
      obtain ⟨hu, hf, ha⟩ := h
      cases hs
      have hst : st ≠ .done := hg rfl
      have hw : w ≠ .done := by rintro rfl; exact hst ha
      cases st with
      | done => exact absurd rfl hst
      | pending | processing => exact ⟨hu, hf, ha, hw⟩
      | empty | canceled =>
        cases w with
        | handle pc => cases pc <;> simp [Ahead] at ha
        | _ => simp [Ahead] at ha
    | catchCancel =>
      obtain ⟨hu, hf, ha, hw⟩ := h
      cases hs
      exact ⟨unreleased_apply hu (by simp), hf, ahead_cancel ha hw⟩
    | catchRelease => exact h.elim
    | catchWritePid =>
      obtain ⟨hu, hf, hc⟩ := h
      cases hs
      exact Or.inr ⟨unreleased_apply hu (by simp), by simp [St.found, St.apply], Or.inr (Or.inl hc)⟩
  | rollback => exact h.elim
  | release =>
    obtain ⟨hu, hf, -, hw⟩ := h
    cases hs
    exact Or.inl ⟨releasedOnce_apply hu, hw.elim (fun hw => Or.inr ⟨hw, hf⟩) Or.inl⟩
  | done => cases hs
  | ended => cases hs

theorem ok_fatal (h : Ok s) (hg : Guard s .fatal) (hs : step s .fatal = some s') : Ok s' := by
  obtain ⟨st, pid, alive, b, w, log⟩ := s
  simp only [step] at hs
  split at hs
  · cases hs
    obtain ⟨hu, -, ha⟩ := h
    exact Or.inr ⟨hu, by simp [St.found], Or.inr (Or.inr ⟨ha, hg⟩)⟩
  · cases hs

theorem ok_exit (h : Ok s) (hg : Guard s .exit) (hs : step s .exit = some s') : Ok s' := by
  obtain ⟨st, pid, alive, b, w, log⟩ := s
  simp only [step] at hs
  split at hs
  · cases hs
    rcases h with ⟨hr, hw | ⟨hw, -⟩⟩ | ⟨hu, hf, hd⟩
    · exact Or.inl ⟨hr, hw⟩
    · exact absurd hr.mem (hg hw)
    · exact Or.inr ⟨hu, by simp [St.found], hd⟩
  · cases hs

/-- What a step that meets the guard keeps. -/
theorem ok_step (s : St) (a : Act) (s' : St) (h : Ok s) (hg : Guard s a) (hs : step s a = some s') : Ok s' := by
  cases a with
  | backend interrupt => exact ok_backend h hg hs
  | fatal => exact ok_fatal h hg hs
  | exit => exact ok_exit h hg hs
  | worker => exact ok_worker h hg hs

theorem ok_init (pid : Nat) : Ok (init pid) := ⟨by simp [St.Unreleased, init], rfl, rfl⟩

theorem Ok.releasedOnce (h : Ok s) (hend : s.Complete) : s.ReleasedOnce := by
  obtain ⟨st, pid, alive, b, w, log⟩ := s
  obtain ⟨hb, hw⟩ := hend
  obtain rfl : w = .done := hw
  have hd : ¬ Deserted .done st := by simp [Deserted, Cancelled]
  rcases hb with hb | hb
  · obtain rfl : b = .done := hb
    rcases h with ⟨hr, -⟩ | ⟨-, -, hd'⟩
    · exact hr
    · exact absurd hd' hd
  · obtain rfl : b = .ended := hb
    rcases h with ⟨hr, -⟩ | ⟨-, -, hd'⟩
    · exact hr
    · exact absurd hd' hd

/-! ## Once it has not -/

/-- Something was written after the first release. -/
def Broken (log : List SlotEffect) : Prop :=
  ∃ l e l', log = l ++ .release :: e :: l'

/-- Where a run is once the guard has been broken: something has been written after the push, or
will be, or nobody is left to push. -/
def Bad (s : St) : Prop :=
  Broken s.log ∨ s.backend = .wait .catchRelease ∨
  s.backend = .wait .catchWritePid ∧ SlotEffect.release ∈ s.log ∨
  s.worker = .done ∧ s.Unreleased ∧ (s.backend = .wait .catchCancel ∨ s.backend = .wait .catchWritePid ∨
    s.backend = .done ∨ s.backend = .ended) ∨
  s.backend = .ended ∧ s.alive = false ∧ SlotEffect.release ∈ s.log ∧
    (s.worker = .handle .lookup ∨ s.worker = .handle .releaseUnfound)

theorem Broken.snoc {log : List SlotEffect} (h : Broken log) (e : SlotEffect) : Broken (log ++ [e]) := by
  obtain ⟨l, e', l', rfl⟩ := h
  exact ⟨l, e', l' ++ [e], by simp⟩

theorem broken_snoc {log : List SlotEffect} (h : SlotEffect.release ∈ log) (e : SlotEffect) :
    Broken (log ++ [e]) := by
  obtain ⟨l, l', rfl⟩ := List.append_of_mem h
  cases l' with
  | nil => exact ⟨l, e, [], by simp⟩
  | cons e' l' => exact ⟨l, e', l' ++ [e], by simp⟩

theorem broken_apply (h : Broken s.log) (e : SlotEffect) : Broken (s.apply e).log := by
  cases e with
  | none => exact h
  | _ => exact h.snoc _

theorem Broken.not_releasedOnce (h : Broken s.log) : ¬ s.ReleasedOnce := by
  rintro ⟨l₀, hl, hnot⟩
  obtain ⟨l, e, l', he⟩ := h
  rw [hl, List.append_eq_append_iff] at he
  rcases he with ⟨m, rfl, hm⟩ | ⟨m, rfl, hm⟩
  · have := congrArg List.length hm
    simp at this
    omega
  · cases m with
    | nil => simp at hm
    | cons x m =>
      simp only [List.cons_append, List.cons.injEq] at hm
      exact hnot (by rw [← hm.1]; simp)

theorem Bad.not_releasedOnce (h : Bad s) (hend : s.Complete) : ¬ s.ReleasedOnce := by
  obtain ⟨hb, hw⟩ := hend
  rcases h with hbr | hb' | ⟨hb', -⟩ | ⟨-, hu, -⟩ | ⟨-, -, -, hw'⟩
  · exact hbr.not_releasedOnce
  · rw [hb'] at hb; simp at hb
  · rw [hb'] at hb; simp at hb
  · exact fun hr => hu hr.mem
  · rw [hw] at hw'; simp at hw'

/-- Before the guard is broken the log has nothing after a release, and then it gets there. -/
theorem bad_of_not_guard (h : Ok s) {a : Act} (hg : ¬ Guard s a) (hs : step s a = some s') : Bad s' := by
  obtain ⟨st, pid, alive, b, w, log⟩ := s
  cases a with
  | backend interrupt =>
    obtain ⟨hb, hst⟩ := Classical.not_imp.1 hg
    obtain rfl : b = .wait .catchReadState := hb
    obtain rfl : st = .done := Classical.not_not.1 hst
    cases hs
    exact Or.inr (Or.inl rfl)
  | fatal =>
    obtain rfl : w = .done := Classical.not_not.1 hg
    simp only [step] at hs
    split at hs
    · cases hs
      exact Or.inr (Or.inr (Or.inr (Or.inl ⟨rfl, h.1, by simp⟩)))
    · cases hs
  | exit =>
    obtain ⟨hw, hr⟩ := Classical.not_imp.1 hg
    obtain rfl : w = .handle .lookup := hw
    simp only [step] at hs
    split at hs
    · cases hs
      exact Or.inr (Or.inr (Or.inr (Or.inr ⟨rfl, rfl, Classical.not_not.1 hr, Or.inl rfl⟩)))
    · cases hs
  | worker =>
    by_cases h1 : w = .handle .lookup → b ≠ .wait .catchCancel ∧ b ≠ .wait .catchWritePid
    · -- a release of a slot whose pid the backend is about to write
      obtain ⟨hw, hb⟩ := Classical.not_imp.1 fun h2 => hg ⟨h1, h2⟩
      obtain rfl : b = .wait .catchWritePid := Classical.not_not.1 hb
      rcases hw with hw | hw
      · obtain rfl : w = .releaseCanceled := hw
        cases hs
        exact Or.inr (Or.inr (Or.inl ⟨rfl, by simp [St.apply]⟩))
      · obtain rfl : w = .handle .releaseCanceled := hw
        cases hs
        exact Or.inr (Or.inr (Or.inl ⟨rfl, by simp [St.apply]⟩))
    · -- the lookup finds a backend that is on its way out
      obtain ⟨rfl, hb⟩ := Classical.not_imp.1 h1
      have hb' : b = .wait .catchCancel ∨ b = .wait .catchWritePid := by
        by_contra hno
        rw [not_or] at hno
        exact hb hno
      rcases hb' with rfl | rfl
      · obtain ⟨hu, hf, -⟩ := h
        rw [worker_found rfl hf hs]
        exact Or.inr (Or.inr (Or.inr (Or.inl ⟨rfl, hu, Or.inl rfl⟩)))
      · obtain ⟨hu, hf, -⟩ := h
        rw [worker_found rfl hf hs]
        exact Or.inr (Or.inr (Or.inr (Or.inl ⟨rfl, hu, Or.inr (Or.inl rfl)⟩)))

@[simp] theorem apply_backend (e : SlotEffect) : (s.apply e).backend = s.backend := by cases e <;> rfl

theorem mem_apply {x : SlotEffect} (h : x ∈ s.log) (e : SlotEffect) : x ∈ (s.apply e).log := by
  cases e <;> simp [St.apply, h]

/-- A step of the worker has one effect on the slot and moves the worker. -/
theorem worker_moves (hs : step s .worker = some s') : ∃ e w, s' = { s.apply e with worker := w } := by
  simp only [step] at hs
  split at hs
  · cases hs; exact ⟨.none, _, rfl⟩
  · cases hs; exact ⟨_, _, rfl⟩
  · cases hs; exact ⟨_, _, rfl⟩
  · cases hs; exact ⟨.none, _, rfl⟩
  · cases hs; exact ⟨_, _, rfl⟩
  · cases hs

theorem broken_step (h : Broken s.log) {a : Act} (hs : step s a = some s') : Broken s'.log := by
  cases a with
  | backend interrupt =>
    simp only [step] at hs
    split at hs
    · cases hs; exact broken_apply h _
    · cases hs; exact broken_apply h _
    · cases hs; exact broken_apply h _
    · cases hs
    · cases hs
  | fatal =>
    simp only [step] at hs
    split at hs
    · cases hs; exact h
    · cases hs
  | exit =>
    simp only [step] at hs
    split at hs
    · cases hs; exact h
    · cases hs
  | worker =>
    obtain ⟨e, w, rfl⟩ := worker_moves hs
    exact broken_apply h e

/-- What a broken guard has begun, every step goes on with. -/
theorem bad_step (h : Bad s) {a : Act} (hs : step s a = some s') : Bad s' := by
  rcases h with hbr | hb | ⟨hb, hr⟩ | ⟨hw, hu, hb⟩ | ⟨hb, hal, hr, hw⟩
  · exact Or.inl (broken_step hbr hs)
  all_goals obtain ⟨st, pid, alive, b, w, log⟩ := s
  · -- `PG_CATCH` is about to release
    obtain rfl : b = .wait .catchRelease := hb
    cases a with
    | backend interrupt => cases hs; exact Or.inr (Or.inr (Or.inl ⟨rfl, by simp [St.apply]⟩))
    | fatal => cases hs
    | exit => cases hs
    | worker =>
      obtain ⟨e, w', rfl⟩ := worker_moves hs
      exact Or.inr (Or.inl (apply_backend e))
  · -- the write of the pid comes after a release
    obtain rfl : b = .wait .catchWritePid := hb
    cases a with
    | backend interrupt => cases hs; exact Or.inl (broken_snoc hr _)
    | fatal => cases hs
    | exit => cases hs
    | worker =>
      obtain ⟨e, w', rfl⟩ := worker_moves hs
      exact Or.inr (Or.inr (Or.inl ⟨apply_backend e, mem_apply hr e⟩))
  · -- the worker has finished and the backend will not release
    obtain rfl : w = .done := hw
    refine Or.inr (Or.inr (Or.inr (Or.inl ?_)))
    rcases hb with rfl | rfl | rfl | rfl <;> cases a <;> cases hs
    · exact ⟨rfl, unreleased_apply hu (by simp), Or.inr (Or.inl rfl)⟩
    · exact ⟨rfl, unreleased_apply hu (by simp), Or.inr (Or.inr (Or.inl rfl))⟩
    · exact ⟨rfl, hu, Or.inr (Or.inr (Or.inr rfl))⟩
  · -- the worker will not find the process that has released the slot
    obtain rfl : b = .ended := hb
    obtain rfl : alive = false := hal
    rcases hw with rfl | rfl <;> cases a <;> cases hs
    · exact Or.inr (Or.inr (Or.inr (Or.inr ⟨rfl, rfl, hr, Or.inr rfl⟩)))
    · exact Or.inl (broken_snoc hr _)

/-! ## Runs -/

theorem bad_run (acts : List Act) {s s' : St} (h : Bad s) (hr : run step s acts = some s') : Bad s' :=
  run_inv Bad (fun _ _ _ h hs => bad_step h hs) acts h hr

/-- A run either meets the guard all along, or ends where a broken guard leads. -/
theorem meets_or_bad (acts : List Act) {s s' : St} (h : Ok s) (hr : run step s acts = some s') :
    Meets step Guard s acts ∨ Bad s' := by
  induction acts generalizing s with
  | nil => exact Or.inl trivial
  | cons a acts ih =>
    obtain ⟨s1, h1, h2⟩ := run_cons.1 hr
    by_cases hg : Guard s a
    · refine (ih (ok_step s a s1 h hg h1) h2).imp_left fun hm => ⟨hg, fun s1' h1' => ?_⟩
      rw [h1] at h1'; cases h1'
      exact hm
    · exact Or.inr (bad_run acts (bad_of_not_guard h hg h1) h2)

/-- **Released exactly once.** When neither party has a step left, the slot has been pushed on the
free list once and not touched after, if and only if every step of the run has met the guard. -/
theorem releasedOnce_iff (pid : Nat) (acts : List Act) {s : St} (hrun : run step (init pid) acts = some s)
    (hend : s.Complete) : s.ReleasedOnce ↔ Meets step Guard (init pid) acts := by
  constructor
  · intro hr
    refine (meets_or_bad acts (ok_init pid) hrun).resolve_right fun hbad => ?_
    exact hbad.not_releasedOnce hend hr
  · intro hm
    exact (run_inv_of_meets Ok Guard ok_step acts (ok_init pid) hm hrun).releasedOnce hend

/-- A cancel in time: the worker has begun, and finds the slot CANCELED when the RPC completes. -/
def cancelledInTime : List Act :=
  [.worker, .backend false, .worker, .backend true, .backend false, .backend false, .backend false,
    .worker, .worker, .worker]

theorem releasedOnce_iff_cancelled : ∃ s, run step (init 7) cancelledInTime = some s ∧ s.ReleasedOnce := by
  refine ⟨_, rfl, (releasedOnce_iff 7 cancelledInTime rfl ⟨Or.inl rfl, rfl⟩).2 ?_⟩
  decide

/-- A cancel that finds the slot DONE. -/
def cancelledDone : List Act :=
  [.backend false, .worker, .worker, .worker, .worker, .worker, .worker, .backend true, .backend false,
    .backend false, .backend false]

/-- **Written after the push**: `PG_CATCH` releases the slot it finds DONE and then writes
`backend_pid`, by when the slot may be another backend's. -/
theorem not_releasedOnce_done : ∃ s, run step (init 7) cancelledDone = some s ∧ s.Complete ∧
    s.log = [.writeState .processing, .writeState .done, .release, .writePid none] ∧ ¬ s.ReleasedOnce := by
  refine ⟨_, rfl, ⟨Or.inl rfl, rfl⟩, rfl, fun h => ?_⟩
  exact Broken.not_releasedOnce ⟨[.writeState .processing, .writeState .done], .writePid none, [], rfl⟩ h

end

end PostFga.Handshake
