import PostFga.Channel.System
/-
# What a step does, and what it leaves alone

A step by its label, with the state it needs. A step of a call writes to its own slot and its own stage,
and to the free list, the queue and the latch where the stage says so. It writes to no list of the
worker's or of the issued calls, and it never writes DONE.
-/

namespace PostFga

/-! ## What a step is -/

section
variable {s s' : St}

theorem step_acquire {b : Nat} {config : FgaConfig} {call : SqlCall}
    (hs : s.step (.acquire b config call) = some s') :
    s.backends b = .idle ∧ s.acquire b config call = s' := by
  simp only [St.step] at hs
  split at hs
  · rename_i hb
    exact ⟨hb, Option.some.inj hs⟩
  · cases hs

theorem step_backend {b : Nat} {fails : Bool} (hs : s.step (.backend b fails) = some s') :
    ∃ job stage, s.backends b = .running job stage ∧ s.advance b job fails stage = s' := by
  simp only [St.step] at hs
  split at hs
  · rename_i job stage hb
    exact ⟨job, stage, hb, Option.some.inj hs⟩
  · cases hs

theorem step_exit {b : Nat} (hs : s.step (.exit b) = some s') :
    s.backends b = .idle ∧ s.setBackend b .gone = s' := by
  simp only [St.step] at hs
  split at hs
  · rename_i hb
    exact ⟨hb, Option.some.inj hs⟩
  · cases hs

theorem step_complete {m : Nat} {o : RpcOutcome} (hs : s.step (.complete m o) = some s') :
    ∃ r, s.rpcs[m]? = some r ∧ r.pc = .issued ∧ s.setRpc m { r with pc := .write o } = s' := by
  simp only [St.step] at hs
  split at hs
  · rename_i r hr
    split at hs
    · rename_i hpc
      exact ⟨r, hr, hpc, Option.some.inj hs⟩
    · cases hs
  · cases hs

theorem step_handler {m : Nat} (hs : s.step (.handler m) = some s') :
    ∃ r, s.rpcs[m]? = some r ∧ s.stepHandler m r = some s' := Option.bind_eq_some_iff.1 hs

/-- The handler writes the response of its next slot, appends the slot, or sets the latch. -/
theorem stepHandler_cases {m : Nat} {r : Rpc} (hs : s.stepHandler m r = some s') :
    (∃ o i todo, r.pc = .write o ∧ r.todo = i :: todo ∧
      { s.setPayload i (r.call.complete o (s.mem i)) with
        author := Function.update s.author i (some (r.call, o)) }.setRpc m { r with pc := .append o } = s') ∨
    (∃ o i todo, r.pc = .append o ∧ r.todo = i :: todo ∧
      { s with completed := s.completed ++ [i] }.setRpc m ⟨r.call, .setLatch o, todo⟩ = s') ∨
    ∃ o, r.pc = .setLatch o ∧ { s with latch := true }.setRpc m { r with pc := .write o } = s' := by
  unfold St.stepHandler at hs
  split at hs
  · rename_i o i todo hpc htodo
    exact Or.inl ⟨o, i, todo, hpc, htodo, Option.some.inj hs⟩
  · rename_i o i todo hpc htodo
    exact Or.inr (Or.inl ⟨o, i, todo, hpc, htodo, Option.some.inj hs⟩)
  · rename_i o hpc
    exact Or.inr (Or.inr ⟨o, hpc, Option.some.inj hs⟩)
  · cases hs

theorem stepWorker_waitLatch (hw : s.worker = .waitLatch) (hs : s.stepWorker = some s') :
    s.latch = true ∧ { s with worker := .resetLatch } = s' := by
  simpa only [St.stepWorker, hw, Option.ite_none_right_eq_some, Option.some.injEq] using hs

end

@[simp] theorem setBackend_self (s : St) (b : Nat) (x : Backend) : (s.setBackend b x).backends b = x := by
  show Function.update s.backends b x b = x
  rw [Function.update_self]

@[simp] theorem goto_self (s : St) (b : Nat) (job : Job) (stage : Stage) :
    (s.goto b job stage).backends b = .running job stage := setBackend_self s b _

/-! ## What a call's step leaves alone -/

/-- A backend after an ERROR. -/
def Job.thrown (job : Job) (raised : Raised) : Backend :=
  if job.call.isCheck then .idle else .running job (.catchBlock raised)

theorem raise_eq (s : St) (b : Nat) (job : Job) (raised : Raised) :
    s.raise b job raised = s.setBackend b (job.thrown raised) := by
  unfold St.raise Job.thrown
  split <;> rfl

/-- The next step writes to the payload. -/
def Stage.writes : Stage → Bool
  | .resetPayload | .fill (_ :: _) _ => true
  | _ => false

/-- The backend after a step of `wait_response`. -/
def WaitNext.backend (job : Job) : WaitNext → Backend
  | .goto pc => .running job (.wait pc)
  | .returned .canceled => .running job .canceled
  | .returned _ => .running job .response
  | .rethrown => job.thrown .execute

theorem afterWait_eq (s : St) (b : Nat) (job : Job) (next : WaitNext) :
    s.afterWait b job next = s.setBackend b (next.backend job) := by
  cases next with
  | goto pc => rfl
  | returned st => cases st <;> rfl
  | rethrown => exact raise_eq s b job .execute

theorem apply_mem (s : St) (e : SlotEffect) (i j : Nat) : (s.apply e i).mem j = s.mem j := by
  cases e with
  | none => rfl
  | writeState st => exact setState_payload s.pool i st j
  | writePid pid => exact setPid_payload s.pool i pid j
  | release => exact releaseSlot_payload s.pool i j

/-- Only the worker writes DONE. -/
theorem apply_done (s : St) (e : SlotEffect) (he : e ≠ .writeState .done) (i j : Nat)
    (h : ((s.apply e i).pool.slots j).state = .done) : (s.pool.slots j).state = .done := by
  cases e with
  | none => exact h
  | writeState st =>
    by_cases hj : j = i
    · subst hj
      rw [show ((s.apply (.writeState st) j).pool.slots j).state = st from setState_self ..] at h
      exact absurd (congrArg SlotEffect.writeState h) he
    · rwa [show (s.apply (.writeState st) i).pool.slots j = _ from setState_ne _ _ hj] at h
  | writePid pid => rwa [show ((s.apply (.writePid pid) i).pool.slots j).state = _ from setPid_state ..] at h
  | release =>
    by_cases hj : j = i
    · subst hj
      rw [show ((s.apply .release j).pool.slots j).state = .empty from releaseSlot_self ..] at h
      cases h
    · rwa [show (s.apply .release i).pool.slots j = _ from releaseSlot_ne _ hj] at h

theorem waitStep_ne_done (st : FgaChannelSlotState) (interrupt : Bool) (pc : WaitPc) :
    (waitStep st interrupt pc).1 ≠ .writeState .done := by
  cases pc <;> simp [waitStep]

/-- What a call's step leaves alone. -/
theorem advance_lists (s : St) (b : Nat) (job : Job) (fails : Bool) (stage : Stage) :
    (s.advance b job fails stage).worker = s.worker ∧ (s.advance b job fails stage).rpcs = s.rpcs ∧
      (s.advance b job fails stage).completed = s.completed ∧
      (s.advance b job fails stage).author = s.author ∧
      (stage ≠ .fill [] none → (s.advance b job fails stage).queue = s.queue) := by
  cases stage with
  | fill todo err =>
    cases todo with
    | cons w todo => exact ⟨rfl, rfl, rfl, rfl, fun _ => rfl⟩
    | nil =>
      cases err with
      | some e => simp only [St.advance, raise_eq]; exact ⟨rfl, rfl, rfl, rfl, fun _ => rfl⟩
      | none =>
        simp only [St.advance]
        split <;> exact ⟨rfl, rfl, rfl, rfl, fun h => absurd rfl h⟩
  | _ =>
    simp only [St.advance, raise_eq, afterWait_eq]
    repeat' split
    all_goals exact ⟨rfl, rfl, rfl, rfl, fun _ => rfl⟩

/-- The call it runs, if it runs one, is on slot `i`. -/
def Backend.On (backend : Backend) (i : Nat) : Prop := ∀ job stage, backend = .running job stage → job.slot = i

theorem on_running {job : Job} {stage : Stage} {i : Nat} (h : job.slot = i) : (Backend.running job stage).On i := by
  intro job' stage' he
  cases he
  exact h

theorem on_idle (i : Nat) : Backend.idle.On i := by
  intro job stage he
  cases he

theorem on_thrown (job : Job) (raised : Raised) : (job.thrown raised).On job.slot := by
  unfold Job.thrown
  split
  · exact on_idle _
  · exact on_running rfl

theorem on_wait (job : Job) (next : WaitNext) : (next.backend job).On job.slot := by
  cases next with
  | goto pc => exact on_running rfl
  | returned st => cases st <;> exact on_running rfl
  | rethrown => exact on_thrown job .execute

/-- A call's step changes the stage of its own backend only, and sets the latch in `fga_wake_bgw` only. -/
theorem advance_backend (s : St) (b : Nat) (job : Job) (fails : Bool) (stage : Stage) :
    (∃ x, (s.advance b job fails stage).backends = Function.update s.backends b x ∧ x.On job.slot) ∧
      (stage ≠ .wakeBgw → (s.advance b job fails stage).latch = s.latch) := by
  cases stage with
  | wakeBgw => exact ⟨⟨_, rfl, on_running rfl⟩, fun h => absurd rfl h⟩
  | fill todo err =>
    cases todo with
    | cons w todo => exact ⟨⟨_, rfl, on_running rfl⟩, fun _ => rfl⟩
    | nil =>
      cases err with
      | some e => simp only [St.advance, raise_eq]; exact ⟨⟨_, rfl, on_thrown job _⟩, fun _ => rfl⟩
      | none =>
        simp only [St.advance]
        split <;> exact ⟨⟨_, rfl, on_running rfl⟩, fun _ => rfl⟩
  | wait pc =>
    simp only [St.advance, afterWait_eq]
    exact ⟨⟨_, rfl, on_wait job _⟩, fun _ => rfl⟩
  | _ =>
    simp only [St.advance, raise_eq]
    repeat' split
    all_goals first
      | exact ⟨⟨_, rfl, on_running rfl⟩, fun _ => rfl⟩
      | exact ⟨⟨_, rfl, on_thrown job _⟩, fun _ => rfl⟩
      | exact ⟨⟨_, rfl, on_idle _⟩, fun _ => rfl⟩

theorem apply_slots_ne (s : St) (e : SlotEffect) {i j : Nat} (hj : j ≠ i) :
    (s.apply e i).pool.slots j = s.pool.slots j := by
  cases e with
  | none => rfl
  | writeState st => exact setState_ne _ _ hj
  | writePid pid => exact setPid_ne _ _ hj
  | release => exact releaseSlot_ne _ hj

/-- The other slots do not see a call's step. -/
theorem advance_slots_ne (s : St) (b : Nat) (job : Job) (fails : Bool) (stage : Stage) {j : Nat}
    (hj : j ≠ job.slot) : (s.advance b job fails stage).pool.slots j = s.pool.slots j := by
  cases stage with
  | setPid => exact setPid_ne _ _ hj
  | resetPayload => exact setPayload_ne _ _ hj
  | fill todo err =>
    cases todo with
    | cons w todo => exact setPayload_ne _ _ hj
    | nil =>
      cases err with
      | some e => simp only [St.advance, raise_eq]; rfl
      | none =>
        simp only [St.advance]
        split <;> rfl
  | wait pc =>
    simp only [St.advance, afterWait_eq]
    exact apply_slots_ne s _ hj
  | _ =>
    simp only [St.advance, raise_eq]
    repeat' split
    all_goals first
      | rfl
      | exact apply_slots_ne s .release hj

/-- A call's step writes to the payload of its own slot only, and never DONE. -/
theorem advance_slots (s : St) (b : Nat) (job : Job) (fails : Bool) (stage : Stage) (j : Nat) :
    (((s.advance b job fails stage).pool.slots j).state = .done → (s.pool.slots j).state = .done) ∧
      ((s.advance b job fails stage).mem j = s.mem j ∨ j = job.slot ∧ stage.writes = true) := by
  have hrelease : ∀ x, (((s.apply .release job.slot).setBackend b x).pool.slots j).state = .done →
      (s.pool.slots j).state = .done := fun _ => apply_done s .release (by simp) job.slot j
  have hmem : ∀ e x, ((s.apply e job.slot).setBackend b x).mem j = s.mem j := fun e x => apply_mem s e _ j
  have hwrite : ∀ w x, (((s.write job.slot w).setBackend b x).pool.slots j).state = .done →
      (s.pool.slots j).state = .done := by
    intro w x h
    rwa [show (((s.write job.slot w).setBackend b x).pool.slots j).state = _ from setPayload_state ..] at h
  have hother : ∀ w x, j ≠ job.slot → ((s.write job.slot w).setBackend b x).mem j = s.mem j := by
    intro w x hj
    exact congrArg FgaChannelSlot.payload (setPayload_ne _ _ hj)
  cases stage with
  | setPid =>
    refine ⟨fun h => ?_, Or.inl (setPid_payload ..)⟩
    rwa [show (((s.advance b job fails .setPid).pool.slots j).state) = _ from setPid_state ..] at h
  | resetPayload =>
    refine ⟨hwrite _ _, ?_⟩
    by_cases hj : j = job.slot
    · exact Or.inr ⟨hj, rfl⟩
    · exact Or.inl (hother _ _ hj)
  | fill todo err =>
    cases todo with
    | cons w todo =>
      refine ⟨hwrite _ _, ?_⟩
      by_cases hj : j = job.slot
      · exact Or.inr ⟨hj, rfl⟩
      · exact Or.inl (hother _ _ hj)
    | nil =>
      cases err with
      | some e => simp only [St.advance, raise_eq]; exact ⟨id, Or.inl rfl⟩
      | none =>
        simp only [St.advance]
        split <;> exact ⟨id, Or.inl rfl⟩
  | wait pc =>
    simp only [St.advance, afterWait_eq]
    exact ⟨apply_done s _ (waitStep_ne_done _ _ _) job.slot j, Or.inl (hmem _ _)⟩
  | queueFull => simp only [St.advance, raise_eq]; exact ⟨hrelease _, Or.inl (hmem _ _)⟩
  | canceled => simp only [St.advance, raise_eq]; exact ⟨hrelease _, Or.inl (hmem _ _)⟩
  | catchBlock raised => exact ⟨hrelease _, Or.inl (hmem _ _)⟩
  | release =>
    simp only [St.advance]
    split <;> exact ⟨hrelease _, Or.inl (hmem _ _)⟩
  | response =>
    simp only [St.advance, raise_eq]
    repeat' split
    all_goals exact ⟨id, Or.inl rfl⟩
  | formTuple =>
    simp only [St.advance, raise_eq]
    split <;> exact ⟨id, Or.inl rfl⟩
  | nextRequestId => exact ⟨id, Or.inl rfl⟩
  | wakeBgw => exact ⟨id, Or.inl rfl⟩

/-- What a step of the worker does to the slots: it writes no pid, and goes on from a write of DONE to
look the process up. -/
theorem stepWorker_pool {s s' : St} (hs : s.stepWorker = some s') : ∃ e i, s'.pool = (s.apply e i).pool ∧
    (∀ pid, e ≠ .writePid pid) ∧ (e = .writeState .done → ∃ rest, s'.worker = .handle i .lookup rest) := by
  cases hw : s.worker with
  | waitLatch =>
    obtain ⟨-, rfl⟩ := stepWorker_waitLatch hw hs
    exact ⟨.none, 0, rfl, by simp, by simp⟩
  | begin todo begun =>
    cases todo with
    | nil =>
      simp only [St.stepWorker, hw, Option.some.injEq] at hs
      subst hs
      exact ⟨.none, 0, rfl, by simp, by simp⟩
    | cons i todo =>
      simp only [St.stepWorker, hw, Option.some.injEq] at hs
      subst hs
      refine ⟨_, i, rfl, ?_⟩
      cases (s.pool.slots i).state <;> simp [beginCas]
  | releaseCanceled i todo begun =>
    simp only [St.stepWorker, hw, Option.some.injEq] at hs
    subst hs
    exact ⟨.release, i, rfl, by simp, by simp⟩
  | handle i pc rest =>
    simp only [St.stepWorker, hw, Option.some.injEq] at hs
    subst hs
    refine ⟨_, i, rfl, ?_⟩
    cases pc <;> simp [handleStep]
  | resetLatch | drain | swap =>
    simp only [St.stepWorker, hw, Option.some.injEq] at hs
    subst hs
    exact ⟨.none, 0, rfl, by simp, by simp⟩

/-- The calls are those of before, and at the hand-over those for the slots that are begun. -/
theorem worker_rpcs {s s' : St} (hs : s.stepWorker = some s') : s'.author = s.author ∧
    (s'.rpcs = s.rpcs ∨ ∃ begun, s.worker = .begin [] begun ∧
      s'.rpcs = s.rpcs ++ (processBatch s.mem begun).map St.issue) := by
  cases hw : s.worker with
  | begin todo begun =>
    cases todo with
    | nil =>
      simp only [St.stepWorker, hw, Option.some.injEq] at hs
      subst hs
      exact ⟨rfl, Or.inr ⟨begun, rfl, rfl⟩⟩
    | cons i todo =>
      simp only [St.stepWorker, hw, Option.some.injEq] at hs
      subst hs
      exact ⟨rfl, Or.inl rfl⟩
  | waitLatch =>
    obtain ⟨-, rfl⟩ := stepWorker_waitLatch hw hs
    exact ⟨rfl, Or.inl rfl⟩
  | resetLatch | drain | releaseCanceled | swap | handle =>
    simp only [St.stepWorker, hw, Option.some.injEq] at hs
    subst hs
    exact ⟨rfl, Or.inl rfl⟩

theorem worker_mem {s s' : St} (hs : s.stepWorker = some s') (j : Nat) : s'.mem j = s.mem j := by
  obtain ⟨e, i, hpool, -, -⟩ := stepWorker_pool hs
  unfold St.mem
  rw [hpool]
  exact apply_mem s e i j

/-- The backend that takes the step. -/
def Act.pid : Act → Option Nat
  | .acquire b _ _ | .backend b _ | .exit b => some b
  | .worker | .complete .. | .handler _ => none

/-- The others stay where they are. -/
theorem step_backends {s s' : St} {a : Act} {b : Nat} (hb : a.pid ≠ some b) (hs : s.step a = some s') :
    s'.backends b = s.backends b := by
  have hne : ∀ b' x, some b' ≠ some b → Function.update s.backends b' x b = s.backends b :=
    fun b' x h => Function.update_of_ne (fun he => h (by rw [he])) x s.backends
  cases a with
  | acquire b' config call =>
    obtain ⟨-, rfl⟩ := step_acquire hs
    unfold St.acquire
    split
    · rfl
    · exact hne b' _ hb
  | backend b' fails =>
    obtain ⟨job, stage, -, rfl⟩ := step_backend hs
    obtain ⟨⟨x, hx, -⟩, -⟩ := advance_backend s b' job fails stage
    rw [hx]
    exact hne b' x hb
  | exit b' =>
    obtain ⟨-, rfl⟩ := step_exit hs
    exact hne b' _ hb
  | worker =>
    simp only [St.step, St.stepWorker] at hs
    repeat' split at hs
    all_goals cases hs
    all_goals rfl
  | complete m o =>
    obtain ⟨r, -, -, rfl⟩ := step_complete hs
    rfl
  | handler m =>
    obtain ⟨r, -, hs⟩ := step_handler hs
    obtain ⟨o, i, todo, -, -, rfl⟩ | ⟨o, i, todo, -, -, rfl⟩ | ⟨o, -, rfl⟩ := stepHandler_cases hs
    all_goals rfl

/-- Only the worker moves itself. -/
theorem step_worker_stays {s s' : St} {a : Act} (ha : a ≠ .worker) (hs : s.step a = some s') : s'.worker = s.worker := by
  cases a with
  | acquire b config call =>
    obtain ⟨-, rfl⟩ := step_acquire hs
    unfold St.acquire
    split <;> rfl
  | backend b fails =>
    obtain ⟨job, stage, -, rfl⟩ := step_backend hs
    exact (advance_lists s b job fails stage).1
  | exit b =>
    obtain ⟨-, rfl⟩ := step_exit hs
    rfl
  | worker => exact absurd rfl ha
  | complete m o =>
    obtain ⟨r, -, -, rfl⟩ := step_complete hs
    rfl
  | handler m =>
    obtain ⟨r, -, hs⟩ := step_handler hs
    obtain ⟨o, j, todo, -, -, rfl⟩ | ⟨o, j, todo, -, -, rfl⟩ | ⟨o, -, rfl⟩ := stepHandler_cases hs
    all_goals rfl

/-- Backends that do not occur in a run. -/
theorem run_backends {n k b : Nat} {mem : Nat → FgaChannelSlot} {values : Nat → UInt16} {acts : List Act} {s : St}
    (hrun : Transition.run St.step (St.init n k mem values) acts = some s) (hb : ∀ a ∈ acts, a.pid ≠ some b) :
    s.backends b = .idle :=
  Transition.run_inv_of_meets (fun s => s.backends b = .idle) (fun _ a => a.pid ≠ some b)
    (fun _ _ _ h ha hs => (step_backends ha hs).trans h) acts rfl
    (Transition.meets_of_forall acts _ hb) hrun

end PostFga
