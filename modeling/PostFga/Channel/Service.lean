import PostFga.Channel.EndToEnd
import PostFga.Lib.Simulation
/-
# What the channel is for

Seen from the SQL functions there are no slots, no queue, no worker and no batches: a process asks, and
it is told the answer to its question, once, or its call ends with an ERROR.

* `Service` — a process is outside of a call, has asked, or has been told.
* `serviceStep` — what a process may see next.
* `St.seen` — what a step of the channel is to be seen as, if it is to be seen.
* `channel_simulates` — every step of the channel is seen as steps of the service.
-/

namespace PostFga

open Transition

inductive Client where
  | idle
  | asking (config : FgaConfig) (call : SqlCall)
  | told (res : FgaResponse)
  /-- The process has ended. -/
  | gone

abbrev Service := Nat → Client

inductive ServiceAct where
  | ask (b : Nat) (config : FgaConfig) (call : SqlCall)
  /-- `slot` names the RPC that has the answer. -/
  | tell (b slot : Nat) (res : FgaResponse)
  /-- The call ends with an ERROR, and has not been told. -/
  | drop (b : Nat)
  | done (b : Nat)
  | leave (b : Nat)

open Classical in
noncomputable def serviceStep (Up : Server → Prop) (Down : Call → Prop) (t : Service) : ServiceAct → Option Service
  | .ask b config call =>
    match t b with
    | .idle => some (Function.update t b (.asking config call))
    | _ => none
  | .tell b slot res =>
    match t b with
    | .asking config call =>
      if ToldRight Up Down config call slot res then some (Function.update t b (.told res)) else none
    | _ => none
  | .drop b =>
    match t b with
    | .asking .. => some (Function.update t b .idle)
    | _ => none
  | .done b =>
    match t b with
    | .told _ => some (Function.update t b .idle)
    | _ => none
  | .leave b =>
    match t b with
    | .idle => some (Function.update t b .gone)
    | _ => none

/-! ## What is seen -/

/-- The function has read the response. -/
def Stage.told : Stage → Bool
  | .release | .formTuple | .catchBlock .response | .catchBlock .formTuple => true
  | _ => false

def Backend.isIdle : Backend → Bool
  | .idle => true
  | _ => false

def St.seen (s : St) : Act → List ServiceAct
  | .acquire b config call => if (acquireSlot s.pool).isSome then [.ask b config call] else []
  | .backend b fails =>
    match s.backends b with
    | .running job .response => [.tell b job.slot (s.mem job.slot).response]
    | .running job stage =>
      if ((s.advance b job fails stage).backends b).isIdle then [if stage.told then .done b else .drop b] else []
    | _ => []
  | .exit b => [.leave b]
  | _ => []

/-- A process of the channel and what it is as a client of the service. -/
def Backend.Shows : Backend → Client → Prop
  | .idle, .idle => True
  | .gone, .gone => True
  | .running job stage, .asking config call => stage.told = false ∧ job.config = config ∧ job.call = call
  | .running _ stage, .told _ => stage.told = true
  | _, _ => False

def Shows (s : St) (t : Service) : Prop := ∀ b, (s.backends b).Shows (t b)

/-! ## Steps -/

section
variable {n k : Nat} {s s' : St} {t : Service} {Up : Server → Prop} {Down : Call → Prop}

theorem shows_idle {b : Nat} (h : Shows s t) (hb : s.backends b = .idle) : t b = .idle := by
  have hb' := h b
  rw [hb] at hb'
  cases ht : t b with
  | idle => rfl
  | asking | told | gone =>
    rw [ht] at hb'
    exact hb'.elim

theorem shows_running {b : Nat} {job : Job} {stage : Stage} (h : Shows s t) (hb : s.backends b = .running job stage) :
    stage.told = false ∧ t b = .asking job.config job.call ∨ stage.told = true ∧ ∃ res, t b = .told res := by
  have hb' := h b
  rw [hb] at hb'
  cases ht : t b with
  | asking config call =>
    rw [ht] at hb'
    obtain ⟨htold, rfl, rfl⟩ := hb'
    exact Or.inl ⟨htold, rfl⟩
  | told res =>
    rw [ht] at hb'
    exact Or.inr ⟨hb', res, rfl⟩
  | idle | gone =>
    rw [ht] at hb'
    exact hb'.elim

/-- One process moves, and its client with it. -/
theorem Shows.update (h : Shows s t) {b : Nat} {client : Client} (hself : (s'.backends b).Shows client)
    (hother : ∀ b', b' ≠ b → s'.backends b' = s.backends b') : Shows s' (Function.update t b client) := by
  intro b'
  by_cases hb : b' = b
  · subst hb
    rw [Function.update_self]
    exact hself
  · rw [Function.update_of_ne hb, hother b' hb]
    exact h b'

/-- The call `job` is over, or goes on with its question, told or not. -/
def Backend.Continues (x : Backend) (job : Job) (told : Bool) : Prop :=
  x = .idle ∨ ∃ job' stage, x = .running job' stage ∧ job'.config = job.config ∧ job'.call = job.call ∧
    stage.told = told

theorem continues_running (job : Job) (stage : Stage) : (Backend.running job stage).Continues job stage.told :=
  Or.inr ⟨job, stage, rfl, rfl, rfl, rfl⟩

theorem continues_thrown (job : Job) (raised : Raised) :
    (job.thrown raised).Continues job (Stage.catchBlock raised).told := by
  unfold Job.thrown
  split
  · exact Or.inl rfl
  · exact continues_running job (.catchBlock raised)

theorem continues_wait (job : Job) (next : WaitNext) : (next.backend job).Continues job false := by
  cases next with
  | goto pc => exact continues_running job (.wait pc)
  | returned st =>
    cases st with
    | canceled => exact continues_running job .canceled
    | empty | pending | processing | done => exact continues_running job .response
  | rethrown => exact continues_thrown job .execute

/-- A call has its answer from `response` on. -/
theorem advance_continues (s : St) (b : Nat) (job : Job) (fails : Bool) (stage : Stage) (hne : stage ≠ .response) :
    ((s.advance b job fails stage).backends b).Continues job stage.told := by
  cases stage with
  | setPid =>
    simp only [St.advance, goto_self]
    exact continues_running job .resetPayload
  | resetPayload =>
    simp only [St.advance, goto_self]
    exact continues_running job .nextRequestId
  | nextRequestId =>
    simp only [St.advance, goto_self]
    exact Or.inr ⟨_, _, rfl, rfl, rfl, rfl⟩
  | fill todo err =>
    cases todo with
    | cons w todo =>
      simp only [St.advance, goto_self]
      exact continues_running job (.fill todo err)
    | nil =>
      cases err with
      | some e =>
        simp only [St.advance, raise_eq, setBackend_self]
        exact continues_thrown job .before
      | none =>
        simp only [St.advance]
        split
        · rw [goto_self]
          exact continues_running job .queueFull
        · rw [goto_self]
          exact continues_running job .wakeBgw
  | queueFull | canceled =>
    simp only [St.advance, raise_eq, setBackend_self]
    exact continues_thrown job .execute
  | wakeBgw =>
    simp only [St.advance, goto_self]
    exact continues_running job (.wait .readState)
  | wait pc =>
    simp only [St.advance, afterWait_eq, setBackend_self]
    exact continues_wait job _
  | response => exact absurd rfl hne
  | release =>
    simp only [St.advance]
    split
    · rw [goto_self]
      exact continues_running job .formTuple
    · exact Or.inl (setBackend_self ..)
  | formTuple =>
    simp only [St.advance, raise_eq]
    split
    · rw [setBackend_self]
      exact continues_thrown job .formTuple
    · exact Or.inl (setBackend_self ..)
  | catchBlock raised => exact Or.inl (setBackend_self ..)

/-- The step that reads the response. -/
theorem advance_response (s : St) (b : Nat) (job : Job) (fails : Bool) :
    ∃ stage, (s.advance b job fails .response).backends b = .running job stage ∧ stage.told = true := by
  simp only [St.advance, raise_eq]
  split
  · exact ⟨.release, goto_self .., rfl⟩
  · rename_i hcheck
    split
    · exact ⟨.catchBlock .response, by rw [setBackend_self, Job.thrown, if_neg hcheck], rfl⟩
    · exact ⟨.release, goto_self .., rfl⟩

theorem advance_other (s : St) {b b' : Nat} (job : Job) (fails : Bool) (stage : Stage) (hb : b' ≠ b) :
    (s.advance b job fails stage).backends b' = s.backends b' := by
  obtain ⟨⟨x, hx, -⟩, -⟩ := advance_backend s b job fails stage
  rw [hx]
  exact Function.update_of_ne hb ..

theorem shows_backend (h : Serving n k Up Down s) (hsim : Shows s t) {b : Nat} {job : Job} {fails : Bool}
    {stage : Stage} (hb : s.backends b = .running job stage) :
    ∃ t', run (serviceStep Up Down) t (s.seen (.backend b fails)) = some t' ∧
      Shows (s.advance b job fails stage) t' := by
  have hother : ∀ b', b' ≠ b → (s.advance b job fails stage).backends b' = s.backends b' :=
    fun b' hne => advance_other s job fails stage hne
  by_cases hstage : stage = .response
  · -- it has asked, and is told
    subst hstage
    obtain ⟨-, hclient⟩ := (shows_running hsim hb).resolve_right fun h => by cases h.1
    obtain ⟨stage', hnext, htold⟩ := advance_response s b job fails
    refine ⟨Function.update t b (.told (s.mem job.slot).response), ?_, hsim.update ?_ hother⟩
    · simp only [St.seen, hb, run, serviceStep, hclient, if_pos (h.told hb), Option.bind_some]
    · rw [hnext]
      exact htold
  · have hseen : s.seen (.backend b fails) = if ((s.advance b job fails stage).backends b).isIdle then
        [if stage.told then .done b else .drop b] else [] := by
      cases stage with
      | response => exact absurd rfl hstage
      | _ => simp only [St.seen, hb]
    rw [hseen]
    rcases advance_continues s b job fails stage hstage with hidle | ⟨job', stage', hnext, hconfig, hcall, htold⟩
    · rw [hidle]
      have hself : ((s.advance b job fails stage).backends b).Shows .idle := by
        rw [hidle]
        trivial
      refine ⟨Function.update t b .idle, ?_, hsim.update hself hother⟩
      rcases shows_running hsim hb with ⟨htold, hclient⟩ | ⟨htold, res, hclient⟩
      · simp [Backend.isIdle, htold, run, serviceStep, hclient]
      · simp [Backend.isIdle, htold, run, serviceStep, hclient]
    · rw [hnext]
      refine ⟨t, rfl, fun b' => ?_⟩
      by_cases hb' : b' = b
      · subst hb'
        rw [hnext]
        rcases shows_running hsim hb with ⟨ht, hclient⟩ | ⟨ht, res, hclient⟩
        · rw [hclient]
          exact ⟨htold.trans ht, hconfig, hcall⟩
        · rw [hclient]
          exact htold.trans ht
      · rw [hother b' hb']
        exact hsim b'

/-- Steps in which no process moves. -/
theorem Shows.congr (h : Shows s t) (hb : s'.backends = s.backends) : Shows s' t := by
  unfold Shows
  rw [hb]
  exact h

theorem shows_acquire (hsim : Shows s t) {b : Nat} (config : FgaConfig) (call : SqlCall)
    (hidle : s.backends b = .idle) : ∃ t', run (serviceStep Up Down) t (s.seen (.acquire b config call)) = some t' ∧
      Shows (s.acquire b config call) t' := by
  unfold St.acquire St.seen
  cases hp : acquireSlot s.pool with
  | none => exact ⟨t, rfl, hsim⟩
  | some p =>
    refine ⟨Function.update t b (.asking config call), ?_, hsim.update ?_ fun b' hne => ?_⟩
    · simp only [Option.isSome_some, if_true, run, serviceStep, shows_idle hsim hidle, Option.bind_some]
    · rw [goto_self]
      exact ⟨rfl, rfl, rfl⟩
    · exact Function.update_of_ne hne ..

/-- **Every step is seen as steps of the service.** -/
theorem channel_simulates (n k : Nat) (Up : Server → Prop) (Down : Call → Prop) :
    Simulates St.step (serviceStep Up Down) (fun s a => ServingGuard Up Down s a ∧ CountGuard s a)
      (fun s t => Serving n k Up Down s ∧ Shows s t) St.seen := by
  rintro s a s' t ⟨h, hsim⟩ ⟨hg, hcount⟩ hs
  have hserving := serving_step h hg hcount hs
  suffices ∃ t', run (serviceStep Up Down) t (s.seen a) = some t' ∧ Shows s' t' by
    obtain ⟨t', hrun, hsim'⟩ := this
    exact ⟨t', hrun, hserving, hsim'⟩
  cases a with
  | acquire b config call =>
    obtain ⟨hidle, rfl⟩ := step_acquire hs
    exact shows_acquire hsim config call hidle
  | backend b fails =>
    obtain ⟨job, stage, hb, rfl⟩ := step_backend hs
    exact shows_backend h hsim hb
  | exit b =>
    obtain ⟨hidle, rfl⟩ := step_exit hs
    refine ⟨Function.update t b .gone, ?_, hsim.update ?_ fun b' hne => Function.update_of_ne hne ..⟩
    · simp only [St.seen, run, serviceStep, shows_idle hsim hidle, Option.bind_some]
    · rw [setBackend_self]
      trivial
  | worker | complete | handler =>
    refine ⟨t, rfl, hsim.congr (funext fun b => step_backends (b := b) (by simp [Act.pid]) hs)⟩

end

end PostFga
