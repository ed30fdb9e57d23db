import PostFga.Channel.Effects
import PostFga.Lib.Simulation
/-
# In which order requests are served

The worker drains the ring in batches and looks at the drained slots one by one; it swaps the completed
queue and handles what it has taken in order. Backends enqueue, and handlers append, while it does.

* `St.unseen` — the requests enqueued that the worker has not looked at, the oldest first.
* `St.unanswered` — the completions appended that it has not come to.
* `served_in_order` — requests are looked at in the order in which they were enqueued, and answered in
  the order in which they completed; none is left out and none comes twice.
-/

namespace PostFga

open Transition

/-- The index that a step puts into the ring. -/
def St.enqueues (s : St) : Act → List Nat
  | .backend b _ =>
    match s.backends b with
    | .running job (.fill [] none) => if queueIsFull s.queue then [] else [(UInt16.ofNat job.slot).toNat]
    | _ => []
  | _ => []

/-- The slot that `beginProcessing` is called for. -/
def St.picks (s : St) : Act → List Nat
  | .worker =>
    match s.worker with
    | .begin (i :: _) _ => [i]
    | _ => []
  | _ => []

/-- The slot that a step appends to the completed queue. -/
def St.appends (s : St) : Act → List Nat
  | .handler m =>
    match s.rpcs[m]? with
    | some ⟨_, .append _, i :: _⟩ => [i]
    | _ => []
  | _ => []

/-- The slot that `handleResponse` is called for. -/
def St.answers (s : St) : Act → List Nat
  | .worker =>
    match s.worker with
    | .handle i .readState _ => [i]
    | _ => []
  | _ => []

def WorkerPc.unseen : WorkerPc → List Nat
  | .begin todo _ | .releaseCanceled _ todo _ => todo
  | _ => []

def WorkerPc.unanswered : WorkerPc → List Nat
  | .handle i .readState rest => i :: rest
  | .handle _ _ rest => rest
  | _ => []

def St.unseen (s : St) : List Nat := s.worker.unseen ++ (queueContents s.queue).map UInt16.toNat

def St.unanswered (s : St) : List Nat := s.worker.unanswered ++ s.completed

/-! ## The ring -/

section
variable {k : Nat} {s s' : St}

theorem worker_queue (hs : s.stepWorker = some s') (hw : s.worker ≠ .drain) : s'.queue = s.queue := by
  simp only [St.stepWorker] at hs
  repeat' split at hs
  all_goals first
    | (cases hs; done)
    | (cases hs; rfl)
    | (rename_i he; exact absurd he hw)

/-- A step enqueues, drains, or leaves the ring alone. -/
theorem step_queue (h : Ring s.queue k (queueContents s.queue)) {a : Act} (hs : s.step a = some s') :
    (s'.queue = s.queue ∧ s.enqueues a = [] ∧ (a = .worker → s.worker ≠ .drain)) ∨
    (∃ b fails job, a = .backend b fails ∧ s.backends b = .running job (.fill [] none) ∧
      s'.backends b = .running job .wakeBgw ∧ s.enqueues a = [(UInt16.ofNat job.slot).toNat] ∧
      queueContents s'.queue = queueContents s.queue ++ [.ofNat job.slot] ∧
      Ring s'.queue k (queueContents s'.queue)) ∨
    (a = .worker ∧ s.worker = .drain ∧ s'.worker = .begin ((queueContents s.queue).take 50 |>.map UInt16.toNat) [] ∧
      queueContents s'.queue = (queueContents s.queue).drop 50 ∧ Ring s'.queue k (queueContents s'.queue)) := by
  cases a with
  | acquire b config call =>
    obtain ⟨-, rfl⟩ := step_acquire hs
    refine Or.inl ⟨?_, rfl, fun ha => by cases ha⟩
    unfold St.acquire
    split <;> rfl
  | backend b fails =>
    obtain ⟨job, stage, hb, rfl⟩ := step_backend hs
    by_cases hstage : stage = .fill [] none
    · subst hstage
      obtain ⟨hlen, hq⟩ | ⟨queue, hlen, hq, hring⟩ := h.enqueue (.ofNat job.slot)
      · have hfull := h.isFull.2 hlen
        refine Or.inl ⟨?_, ?_, fun ha => by cases ha⟩
        · simp only [St.advance, hq]
          rfl
        · simp only [St.enqueues, hb, hfull, if_true]
      · have hfull : queueIsFull s.queue = false :=
          Bool.eq_false_iff.2 fun hf => absurd (h.isFull.1 hf) (Nat.ne_of_lt hlen)
        have hnext : s.advance b job fails (.fill [] none) = { s with queue := queue }.goto b job .wakeBgw := by
          simp only [St.advance, hq]
        rw [hnext]
        have hcon := hring.contents
        refine Or.inr (Or.inl ⟨b, fails, job, rfl, hb, goto_self .., ?_, hcon, ?_⟩)
        · simp only [St.enqueues, hb, hfull, Bool.false_eq_true, if_false]
        · show Ring queue k (queueContents queue)
          rw [hcon]
          exact hring
    · refine Or.inl ⟨(advance_lists s b job fails stage).2.2.2.2 hstage, ?_, fun ha => by cases ha⟩
      simp only [St.enqueues, hb]
      split
      · rename_i he
        cases he
        exact absurd rfl hstage
      · rfl
  | exit b =>
    obtain ⟨-, rfl⟩ := step_exit hs
    exact Or.inl ⟨rfl, rfl, fun ha => by cases ha⟩
  | worker =>
    by_cases hw : s.worker = .drain
    · obtain ⟨hslots, hring⟩ := h.drain 50
      simp only [St.step, St.stepWorker, hw, Option.some.injEq] at hs
      subst hs
      have hcon := hring.contents
      refine Or.inr (Or.inr ⟨rfl, hw, by rw [hslots], hcon, ?_⟩)
      rw [hcon]
      exact hring
    · exact Or.inl ⟨worker_queue hs hw, rfl, fun _ => hw⟩
  | complete m o =>
    obtain ⟨r, -, -, rfl⟩ := step_complete hs
    exact Or.inl ⟨rfl, rfl, fun ha => by cases ha⟩
  | handler m =>
    obtain ⟨r, -, hs⟩ := step_handler hs
    refine Or.inl ⟨?_, rfl, fun ha => by cases ha⟩
    obtain ⟨o, i, todo, -, -, rfl⟩ | ⟨o, i, todo, -, -, rfl⟩ | ⟨o, -, rfl⟩ := stepHandler_cases hs
    all_goals rfl

theorem ring_step (h : Ring s.queue k (queueContents s.queue)) {a : Act} (hs : s.step a = some s') :
    Ring s'.queue k (queueContents s'.queue) := by
  obtain ⟨hq, -⟩ | ⟨b, fails, job, -, -, -, -, -, hring⟩ | ⟨-, -, -, -, hring⟩ := step_queue h hs
  · rwa [hq]
  · exact hring
  · exact hring

/-! ## Requests -/

theorem handleNext_unseen (l : List Nat) : (St.handleNext l).unseen = [] := by cases l <;> rfl

/-- Away from the ring, the worker looks at the drained slots from the front. -/
theorem worker_unseen (hs : s.stepWorker = some s') (hw : s.worker ≠ .drain) :
    s.worker.unseen = s.picks .worker ++ s'.worker.unseen := by
  cases hpc : s.worker with
  | waitLatch =>
    obtain ⟨-, rfl⟩ := stepWorker_waitLatch hpc hs
    simp [St.picks, hpc, WorkerPc.unseen]
  | drain => exact absurd hpc hw
  | begin todo begun =>
    simp only [St.picks, hpc]
    cases todo with
    | nil =>
      simp only [St.stepWorker, hpc, Option.some.injEq] at hs
      subst hs
      rfl
    | cons i todo =>
      simp only [St.stepWorker, hpc, Option.some.injEq] at hs
      subst hs
      cases (s.pool.slots i).state <;> rfl
  | swap =>
    simp only [St.stepWorker, hpc, Option.some.injEq] at hs
    subst hs
    show [] = s.picks .worker ++ (St.handleNext s.completed).unseen
    rw [handleNext_unseen]
    simp only [St.picks, hpc, List.append_nil]
  | handle i pc rest =>
    simp only [St.stepWorker, hpc, Option.some.injEq] at hs
    subst hs
    simp only [St.picks, hpc]
    cases (handleStep (s.pool.slots i).state (s.found i) pc).2 with
    | some pc' => rfl
    | none => exact (handleNext_unseen rest).symm
  | resetLatch | releaseCanceled =>
    simp only [St.stepWorker, hpc, Option.some.injEq] at hs
    subst hs
    simp [St.picks, hpc, WorkerPc.unseen]

theorem requests_pipe : Pipe St.step (fun s => Ring s.queue k (queueContents s.queue)) St.enqueues St.picks
    St.unseen := by
  intro s a s' h hs
  refine ⟨ring_step h hs, ?_⟩
  unfold St.unseen
  obtain ⟨hq, hin, hdrain⟩ | ⟨b, fails, job, rfl, -, -, hin, hcon, -⟩ | ⟨rfl, hw, hw', hcon, -⟩ := step_queue h hs
  · rw [hq, hin, List.append_nil, ← List.append_assoc]
    by_cases ha : a = .worker
    · subst ha
      rw [worker_unseen hs (hdrain rfl)]
    · rw [step_worker_stays ha hs]
      cases a <;> first | rfl | exact absurd rfl ha
  · rw [hin, hcon, step_worker_stays (by simp) hs]
    simp [St.picks]
  · have htake : ((queueContents s.queue).take 50).map UInt16.toNat ++
        ((queueContents s.queue).drop 50).map UInt16.toNat = (queueContents s.queue).map UInt16.toNat := by
      rw [← List.map_append, List.take_append_drop]
    simp only [hw, hw', hcon, St.picks, St.enqueues, WorkerPc.unseen, List.nil_append, List.append_nil, htake]

/-! ## Completions -/

theorem handleNext_unanswered (l : List Nat) : (St.handleNext l).unanswered = l := by cases l <;> rfl

theorem worker_unanswered (hs : s.stepWorker = some s') : s.unanswered = s.answers .worker ++ s'.unanswered := by
  unfold St.unanswered
  cases hw : s.worker with
  | waitLatch =>
    obtain ⟨-, rfl⟩ := stepWorker_waitLatch hw hs
    simp [St.answers, hw, WorkerPc.unanswered]
  | begin todo begun =>
    cases todo with
    | nil =>
      simp only [St.stepWorker, hw, Option.some.injEq] at hs
      subst hs
      simp [St.answers, hw, WorkerPc.unanswered]
    | cons i todo =>
      simp only [St.stepWorker, hw, Option.some.injEq] at hs
      subst hs
      simp only [St.answers, hw]
      cases (s.pool.slots i).state <;> rfl
  | swap =>
    simp only [St.stepWorker, hw, Option.some.injEq] at hs
    subst hs
    show [] ++ s.completed = s.answers .worker ++ ((St.handleNext s.completed).unanswered ++ [])
    rw [handleNext_unanswered]
    simp [St.answers, hw]
  | handle i pc rest =>
    simp only [St.stepWorker, hw, Option.some.injEq] at hs
    subst hs
    simp only [St.answers, hw]
    have hnext : (St.handleNext rest).unanswered = rest := handleNext_unanswered rest
    cases pc with
    | readState =>
      by_cases hst : (s.pool.slots i).state = .canceled
      · simp only [handleStep, hst, if_true]; rfl
      · simp only [handleStep, hst, if_false]; rfl
    | lookup =>
      cases hf : s.found i with
      | true => simp only [handleStep, if_true, hnext]; rfl
      | false => rfl
    | writeDone => rfl
    | releaseCanceled | releaseUnfound => simp only [handleStep, hnext]; rfl
  | resetLatch | drain | releaseCanceled =>
    simp only [St.stepWorker, hw, Option.some.injEq] at hs
    subst hs
    simp only [St.answers, hw]
    rfl

theorem completions_pipe : Pipe St.step (fun _ => True) St.appends St.answers St.unanswered := by
  intro s a s' _ hs
  refine ⟨trivial, ?_⟩
  cases a with
  | worker =>
    rw [show s.appends .worker = [] from rfl, List.append_nil]
    exact worker_unanswered hs
  | acquire b config call =>
    obtain ⟨-, rfl⟩ := step_acquire hs
    unfold St.unanswered St.acquire
    split <;> simp [St.appends, St.answers, St.goto, St.setBackend]
  | backend b fails =>
    obtain ⟨job, stage, -, rfl⟩ := step_backend hs
    obtain ⟨hworker, -, hcompleted, -⟩ := advance_lists s b job fails stage
    unfold St.unanswered
    rw [hworker, hcompleted]
    simp [St.appends, St.answers]
  | exit b =>
    obtain ⟨-, rfl⟩ := step_exit hs
    exact List.append_nil _
  | complete m o =>
    obtain ⟨r, -, -, rfl⟩ := step_complete hs
    exact List.append_nil _
  | handler m =>
    obtain ⟨r, hr, hs⟩ := step_handler hs
    obtain ⟨c, pc, todo⟩ := r
    obtain ⟨o, i, todo, hpc, htodo, rfl⟩ | ⟨o, i, todo, hpc, htodo, rfl⟩ | ⟨o, hpc, rfl⟩ := stepHandler_cases hs
    · simp only at hpc htodo
      subst hpc htodo
      simp only [St.appends, hr, List.append_nil]
      rfl
    · simp only at hpc htodo
      subst hpc htodo
      simp only [St.appends, hr]
      exact List.append_assoc ..
    · simp only at hpc
      subst hpc
      simp only [St.appends, hr, List.append_nil]
      rfl

end

/-- **First come, first served.** -/
theorem served_in_order {n k : Nat} (hk : k ≤ 15) (mem : Nat → FgaChannelSlot) (values : Nat → UInt16)
    (acts : List Act) {s : St} (hrun : run St.step (St.init n k mem values) acts = some s) :
    events St.step St.enqueues (St.init n k mem values) acts =
        events St.step St.picks (St.init n k mem values) acts ++ s.unseen ∧
      events St.step St.appends (St.init n k mem values) acts =
        events St.step St.answers (St.init n k mem values) acts ++ s.unanswered := by
  have hring := ring_init hk values
  have hcon : queueContents (St.init n k mem values).queue = [] := hring.contents
  have hempty : (St.init n k mem values).unseen = [] := by
    unfold St.unseen
    rw [hcon]
    rfl
  constructor
  · have h := (requests_pipe (k := k)).run acts (by rw [hcon]; exact hring) hrun
    rwa [hempty] at h
  · exact completions_pipe.run acts trivial hrun

/-- Two checks go out in a batch and come back, and the worker has taken up the first; a third one waits. -/
def inTurn : List Act :=
  .acquire 0 ⟨some (.lit "s"), none⟩ checkViewer :: goOn 0 14 ++
    .acquire 1 ⟨some (.lit "s"), none⟩ checkViewer :: goOn 1 14 ++ List.replicate 6 .worker ++
    .acquire 2 ⟨some (.lit "s"), none⟩ checkViewer :: goOn 2 14 ++
    .complete 0 { allowedOutcome with result := fun _ => some (.allowed true) } ::
    List.replicate 6 (.handler 0) ++ List.replicate 2 .worker

theorem served_in_order_inTurn : ∃ s, run St.step start inTurn = some s ∧
    events St.step St.picks start inTurn = [1023, 1022] ∧ s.unseen = [1021] ∧
    events St.step St.answers start inTurn = [1023] ∧ s.unanswered = [1022] ∧
    events St.step St.enqueues start inTurn = [1023, 1022, 1021] ∧
    events St.step St.appends start inTurn = [1023, 1022] := by
  have hend : (run St.step start inTurn).any (fun s => s.unseen == [1021] && s.unanswered == [1022]) = true := by
    decide +kernel
  have hpicks : events St.step St.picks start inTurn = [1023, 1022] := by decide +kernel
  have hanswers : events St.step St.answers start inTurn = [1023] := by decide +kernel
  obtain ⟨s, hs, hboth⟩ := (Option.any_eq_true ..).1 hend
  simp only [Bool.and_eq_true, beq_iff_eq] at hboth
  obtain ⟨hrequests, hcompletions⟩ := served_in_order (k := 10) (by decide) freshSlot (fun _ => 0) inTurn hs
  refine ⟨s, hs, hpicks, hboth.1, hanswers, hboth.2, hrequests.trans ?_, hcompletions.trans ?_⟩
  · show events St.step St.picks start inTurn ++ s.unseen = _
    rw [hpicks, hboth.1]
    rfl
  · show events St.step St.answers start inTurn ++ s.unanswered = _
    rw [hanswers, hboth.2]
    rfl

end PostFga
