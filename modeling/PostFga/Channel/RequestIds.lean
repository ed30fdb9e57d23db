import PostFga.Channel.SlotPid
/-
# Request ids

`fga_channel_acquire_slot` numbers the requests by one shared counter (`channel.c:130`), and a batch of
checks is sorted out by these numbers when it comes back (`openfga_client_check.cpp:63`, `:80`). The
number sits in a slot, among old numbers in other slots that nobody has written over.

* `St.Carries` — the number that counts for a slot: its call's, or what it holds while something names it.
* `Numbered` — no two slots carry the same.
* `numbered_run` — so it is in every run of fewer than 2^64 steps, and the items of a batch can be told
  apart.
-/

namespace PostFga

open Transition

/-- The call has its number. -/
def Stage.numbered : Stage → Bool
  | .setPid | .resetPayload | .nextRequestId => false
  | stage => stage.owns

def St.Carries (s : St) (i : Nat) (id : UInt64) : Prop :=
  s.Named i ∧ (s.mem i).request.requestId = id ∨
    ∃ b job stage, s.backends b = .running job stage ∧ stage.numbered = true ∧ job.slot = i ∧ job.requestId = id

structure Numbered (s : St) : Prop where
  given : ∀ i id, s.Carries i id → id.toNat ≤ s.requestId.toNat
  unique : ∀ i j id, s.Carries i id → s.Carries j id → i = j

/-- The counter does not wrap. -/
def CountGuard (s : St) : Act → Prop
  | .backend b _ => ∀ job, s.backends b = .running job .nextRequestId → s.requestId.toNat + 1 < 2 ^ 64
  | _ => True

theorem Stage.owns_of_numbered {stage : Stage} (h : stage.numbered = true) : stage.owns = true := by
  unfold Stage.numbered at h
  split at h
  · cases h
  · cases h
  · cases h
  · exact h

section
variable {n k : Nat} {s s' : St} {free : List Nat} {i : Nat}

/-! ## What names a slot after a step did before -/

theorem named_of_handle {j : Nat} {pc : HandlePc} {rest : List Nat} (hw : s.worker = .handle j pc rest)
    (hs : s.stepWorker = some s') (hi : s'.Named i) : s.Named i := by
  have hnext : s'.worker.todo = [] ∧ ∀ x ∈ s'.worker.begun, x ∈ s.worker.begun := by
    simp only [St.stepWorker, hw, Option.some.injEq] at hs
    subst hs
    rw [hw]
    have hrest : ∀ x ∈ (St.handleNext rest).begun, x ∈ (WorkerPc.handle j pc rest).begun := by
      intro x hx
      rw [handleNext_begun] at hx
      cases pc with
      | lookup | releaseUnfound => exact hx
      | _ => exact List.mem_cons_of_mem j hx
    cases pc with
    | readState =>
      by_cases hst : (s.pool.slots j).state = .canceled
      · simp only [handleStep, hst, if_true]
        exact ⟨rfl, fun x hx => hx⟩
      · simp only [handleStep, hst, if_false]
        exact ⟨rfl, fun x hx => hx⟩
    | writeDone => exact ⟨rfl, fun x hx => List.mem_cons_of_mem j hx⟩
    | lookup =>
      cases hf : s.found j with
      | true =>
        simp only [handleStep, if_true]
        exact ⟨handleNext_todo rest, hrest⟩
      | false => exact ⟨rfl, fun x hx => hx⟩
    | releaseCanceled | releaseUnfound => exact ⟨handleNext_todo rest, hrest⟩
  have hsame : s'.queue = s.queue ∧ s'.rpcs = s.rpcs ∧ s'.completed = s.completed := by
    simp only [St.stepWorker, hw, Option.some.injEq] at hs
    subst hs
    exact ⟨rfl, rfl, rfl⟩
  rw [named_mem, hnext.1, hsame.1, hsame.2.1, hsame.2.2] at hi
  rw [named_mem]
  rcases hi with (hi | hi) | hi | hi
  · exact Or.inl (Or.inl hi)
  · cases hi
  · exact Or.inr (Or.inl (hnext.2 i hi))
  · exact Or.inr (Or.inr hi)

theorem named_of_worker (ten : Tenancy n k s free) (hs : s.stepWorker = some s') (hi : s'.Named i) : s.Named i := by
  cases hw : s.worker with
  | waitLatch =>
    obtain ⟨-, rfl⟩ := stepWorker_waitLatch hw hs
    rw [named_mem, hw]
    exact named_mem.1 hi
  | resetLatch =>
    simp only [St.stepWorker, hw, Option.some.injEq] at hs
    subst hs
    rw [named_mem, hw]
    exact named_mem.1 hi
  | drain =>
    obtain ⟨hslots, hring⟩ := ten.ring.drain 50
    simp only [St.stepWorker, hw, Option.some.injEq] at hs
    subst hs
    rw [named_mem, hring.contents, hslots] at hi
    rw [named_mem, ← List.take_append_drop 50 (queueContents s.queue), List.map_append, List.mem_append]
    refine hi.imp (fun hi => Or.inl hi.symm) (Or.imp_left fun hi => ?_)
    cases hi
  | begin todo begun =>
    cases todo with
    | nil =>
      simp only [St.stepWorker, hw, Option.some.injEq] at hs
      subst hs
      rw [named_mem] at hi
      rw [named_mem, hw]
      rcases hi with hi | hi | hi | hi
      · exact Or.inl hi
      · cases hi
      · rw [List.flatMap_append, List.mem_append] at hi
        rcases hi with hi | hi
        · exact Or.inr (Or.inr (Or.inl hi))
        · -- the slots of the new calls are begun ones
          refine Or.inr (Or.inl ?_)
          obtain ⟨r, hr, hi⟩ := List.mem_flatMap.1 hi
          obtain ⟨c, hc, rfl⟩ := List.mem_map.1 hr
          have hpos : 0 < ((processBatch s.mem begun).flatMap Call.slots).count i :=
            List.count_pos_iff.2 (List.mem_flatMap.2 ⟨c, hc, hi⟩)
          rw [count_processBatch] at hpos
          split at hpos
          · exact List.count_pos_iff.1 hpos
          · omega
      · exact Or.inr (Or.inr (Or.inr hi))
    | cons j todo =>
      simp only [St.stepWorker, hw, Option.some.injEq] at hs
      subst hs
      rw [named_mem] at hi
      rw [named_mem, hw]
      have hhead : i = j → i ∈ (WorkerPc.begin (j :: todo) begun).todo := fun he => by rw [he]; exact List.mem_cons_self
      have htail : i ∈ todo → i ∈ (WorkerPc.begin (j :: todo) begun).todo := List.mem_cons_of_mem j
      cases hst : (s.pool.slots j).state with
      | pending =>
        simp only [hst, beginCas] at hi
        rcases hi with (hi | hi) | hi | hi
        · exact Or.inl (Or.inl hi)
        · exact Or.inl (Or.inr (htail hi))
        · rcases List.mem_append.1 hi with hi | hi
          · exact Or.inr (Or.inl hi)
          · exact Or.inl (Or.inr (hhead (List.mem_singleton.1 hi)))
        · exact Or.inr (Or.inr hi)
      | canceled =>
        simp only [hst, beginCas] at hi
        exact hi
      | empty | processing | done =>
        simp only [hst, beginCas] at hi
        exact hi.imp_left (Or.imp_right htail)
  | releaseCanceled j todo begun =>
    simp only [St.stepWorker, hw, Option.some.injEq] at hs
    subst hs
    rw [named_mem] at hi
    rw [named_mem, hw]
    exact hi.imp_left (Or.imp_right (List.mem_cons_of_mem j))
  | swap =>
    simp only [St.stepWorker, hw, Option.some.injEq] at hs
    subst hs
    rw [named_mem] at hi
    simp only [handleNext_todo, handleNext_begun] at hi
    rw [named_mem, hw]
    rcases hi with (hi | hi) | hi | hi | hi
    · exact Or.inl (Or.inl hi)
    · cases hi
    · exact Or.inr (Or.inr (Or.inr hi))
    · exact Or.inr (Or.inr (Or.inl hi))
    · cases hi
  | handle j pc rest => exact named_of_handle hw hs hi

/-! ## Steps -/

/-- A call keeps its number, or has just taken it. -/
theorem advance_numbered {b : Nat} {job job' : Job} {fails : Bool} {stage stage' : Stage}
    (h : (s.advance b job fails stage).backends b = .running job' stage') (hn : stage'.numbered = true) :
    job' = job ∧ stage.numbered = true ∨
      stage = .nextRequestId ∧ job' = { job with requestId := s.requestId + 1 } := by
  obtain ⟨-, howns⟩ := advance_owns h (Stage.owns_of_numbered hn)
  have hthrown : ∀ raised, job.thrown raised = .running job' stage' → job' = job := by
    intro raised he
    unfold Job.thrown at he
    split at he
    · cases he
    · cases he
      rfl
  cases stage with
  | setPid | resetPayload =>
    simp only [St.advance, goto_self] at h
    cases h
    cases hn
  | nextRequestId =>
    simp only [St.advance, goto_self] at h
    cases h
    exact Or.inr ⟨rfl, rfl⟩
  | fill todo err =>
    refine Or.inl ⟨?_, rfl⟩
    cases todo with
    | cons w todo =>
      simp only [St.advance, goto_self] at h
      cases h
      rfl
    | nil =>
      cases err with
      | some e =>
        simp only [St.advance, raise_eq, setBackend_self] at h
        exact hthrown _ h
      | none =>
        simp only [St.advance] at h
        split at h
        · rw [goto_self] at h
          cases h
          rfl
        · rw [goto_self] at h
          cases h
          rfl
  | wait pc =>
    refine Or.inl ⟨?_, howns⟩
    simp only [St.advance, afterWait_eq, setBackend_self] at h
    generalize (waitStep (s.pool.slots job.slot).state fails pc).2 = next at h
    cases next with
    | goto pc => cases h; rfl
    | returned st => cases st <;> cases h <;> rfl
    | rethrown => exact hthrown _ h
  | _ =>
    refine Or.inl ⟨?_, howns⟩
    simp only [St.advance, raise_eq] at h
    repeat' split at h
    all_goals first
      | (rw [goto_self] at h; cases h; rfl)
      | (rw [setBackend_self] at h; exact hthrown _ h)
      | (rw [show (St.finish _ b).backends b = _ from setBackend_self ..] at h; cases h)

theorem asks_requestId {job : Job} {r : FgaRequest} (h : job.Asks r) : r.requestId = job.requestId := by
  obtain ⟨ws, hws, rfl⟩ := request_ok h
  have htuple : ∀ type args, tupleWrites type job.config args = (ws, none) →
      (applyWrites (acquireWrites job.requestId ++ ws) .zero).request.requestId = job.requestId := by
    intro type args hw
    obtain ⟨r, hr, hid, -⟩ := tupleWrites_request hw job.requestId
    rw [hr, hid]
  cases hcall : job.call with
  | check args | writeTuple args | deleteTuple args =>
    rw [hcall] at hws
    exact htuple _ args hws
  | createStore name | deleteStore storeId =>
    rw [hcall] at hws
    cases hws
    rfl

/-- A call that is about to enqueue has its number in its slot. -/
theorem filling_requestId (ten : Tenancy n k s free) {b : Nat} {job : Job}
    (hb : s.backends b = .running job (.fill [] none)) : (s.mem job.slot).request.requestId = job.requestId := by
  obtain ⟨-, -, ⟨-, hfill⟩, -⟩ := (ten.tenure job.slot).of_owner hb rfl rfl
  exact asks_requestId hfill.asks

/-- What a named slot holds comes from before the step, or is the number of the call that has enqueued it. -/
theorem carries_advance (ten : Tenancy n k s free) {b : Nat} {job : Job} {stage : Stage}
    (hb : s.backends b = .running job stage) (fails : Bool) {id : UInt64}
    (hi : (s.advance b job fails stage).Named i)
    (hid : ((s.advance b job fails stage).mem i).request.requestId = id) : s.Carries i id := by
  by_cases hself : i = job.slot ∧ (stage = .fill [] none ∨ stage.writes = true)
  · obtain ⟨rfl, rfl | hw⟩ := hself
    · refine Or.inr ⟨b, job, _, hb, rfl, rfl, ?_⟩
      rw [← filling_requestId ten hb, ← hid]
      exact congrArg (·.request.requestId) (((advance_slots s b job fails (.fill [] none) job.slot).2.resolve_right
        (by simp [Stage.writes])).symm)
    · -- a slot that is being written is named by nothing
      exfalso
      have hnot : stage.owns = true ∧ stage.enqueued = false ∧ stage ≠ .fill [] none := by
        cases stage with
        | resetPayload => exact ⟨rfl, rfl, by simp⟩
        | fill todo err =>
          cases todo with
          | nil => cases hw
          | cons w todo => exact ⟨rfl, rfl, by simp⟩
        | _ => cases hw
      obtain ⟨hworker, hrpcs, hcompleted, -, hqueue⟩ := advance_lists s b job fails stage
      obtain ⟨hwait, htake⟩ := ten.no_entry hb hnot.1 hnot.2.1
      rw [named_congr (hqueue hnot.2.2) hworker hrpcs hcompleted] at hi
      exact hi.elim hwait htake
  · have hmem : (s.advance b job fails stage).mem i = s.mem i :=
      (advance_slots s b job fails stage i).2.resolve_right fun hw => hself ⟨hw.1, Or.inr hw.2⟩
    rw [hmem] at hid
    refine Or.inl ⟨?_, hid⟩
    by_cases hslot : i = job.slot
    · have hfill : stage ≠ .fill [] none := fun he => hself ⟨hslot, Or.inl he⟩
      obtain ⟨hworker, hrpcs, hcompleted, -, hqueue⟩ := advance_lists s b job fails stage
      exact (named_congr (hqueue hfill) hworker hrpcs hcompleted).1 hi
    · exact (advance_named ten hb fails hslot).1 hi

/-- A slot carries its number from before the step, or its call has just taken it from the counter. -/
theorem carries_step (ten : Tenancy n k s free) {a : Act} (hs : s.step a = some s') {id : UInt64}
    (h : s'.Carries i id) : s.Carries i id ∨ ∃ b fails job, a = .backend b fails ∧
      s.backends b = .running job .nextRequestId ∧ job.slot = i ∧ id = s.requestId + 1 := by
  rcases h with ⟨hi, hid⟩ | ⟨b, job, stage, hb, hn, hslot, hid⟩
  · refine Or.inl ?_
    cases a with
    | acquire b config call =>
      obtain ⟨-, rfl⟩ := step_acquire hs
      refine Or.inl ⟨?_, ?_⟩
      · unfold St.acquire at hi
        split at hi <;> exact hi
      · rw [← hid]
        unfold St.acquire acquireSlot
        cases hp : s.pool.free.popHead with
        | none => rfl
        | some p => exact congrArg (·.request.requestId) (setState_payload _ p.1 .pending i).symm
    | backend b fails =>
      obtain ⟨job, stage, hb, rfl⟩ := step_backend hs
      exact carries_advance ten hb fails hi hid
    | exit b =>
      obtain ⟨-, rfl⟩ := step_exit hs
      exact Or.inl ⟨hi, hid⟩
    | worker =>
      rw [worker_mem hs] at hid
      exact Or.inl ⟨named_of_worker ten hs hi, hid⟩
    | complete m o =>
      obtain ⟨r, hr, -, rfl⟩ := step_complete hs
      exact Or.inl ⟨(rpc_named hr (by rfl)).1 hi, hid⟩
    | handler m =>
      obtain ⟨r, hr, hs⟩ := step_handler hs
      obtain ⟨o, j, todo, -, htodo, rfl⟩ | ⟨o, j, todo, -, htodo, rfl⟩ | ⟨o, -, rfl⟩ := stepHandler_cases hs
      · refine Or.inl ⟨(rpc_named hr (by rfl)).1 hi, ?_⟩
        rw [← hid]
        show _ = ((s.pool.setPayload j (r.call.complete o (s.mem j))).slots i).payload.request.requestId
        by_cases hj : i = j
        · subst hj
          rw [setPayload_self, complete_request]
        · rw [setPayload_ne _ _ hj]
          rfl
      · refine Or.inl ⟨(rpc_named hr ?_).1 hi, hid⟩
        simp only [htodo, List.count_append, List.count_cons, List.count_nil]
        omega
      · exact Or.inl ⟨(rpc_named hr (by rfl)).1 hi, hid⟩
  · by_cases hpid : a.pid = some b
    · cases a with
      | acquire b' config call =>
        cases hpid
        obtain ⟨hidle, rfl⟩ := step_acquire hs
        unfold St.acquire at hb
        split at hb
        · rw [hidle] at hb
          cases hb
        · rw [goto_self] at hb
          cases hb
          cases hn
      | backend b' fails =>
        cases hpid
        obtain ⟨job', stage', hb', rfl⟩ := step_backend hs
        obtain ⟨rfl, hn'⟩ | ⟨rfl, rfl⟩ := advance_numbered hb hn
        · exact Or.inl (Or.inr ⟨b, job, stage', hb', hn', hslot, hid⟩)
        · exact Or.inr ⟨b, fails, job', rfl, hb', hslot, hid.symm⟩
      | exit b' =>
        cases hpid
        obtain ⟨-, rfl⟩ := step_exit hs
        rw [setBackend_self] at hb
        cases hb
      | worker | complete | handler => cases hpid
    · exact Or.inl (Or.inr ⟨b, job, stage, (step_backends hpid hs).symm.trans hb, hn, hslot, hid⟩)

/-- The counter moves when a call takes its number. -/
theorem step_requestId {a : Act} (hs : s.step a = some s') : s'.requestId = s.requestId ∨
    ∃ b fails job, a = .backend b fails ∧ s.backends b = .running job .nextRequestId ∧
      s'.requestId = s.requestId + 1 := by
  cases a with
  | acquire b config call =>
    obtain ⟨-, rfl⟩ := step_acquire hs
    unfold St.acquire
    split <;> exact Or.inl rfl
  | backend b fails =>
    obtain ⟨job, stage, hb, rfl⟩ := step_backend hs
    by_cases hstage : stage = .nextRequestId
    · subst hstage
      exact Or.inr ⟨b, fails, job, rfl, hb, rfl⟩
    · refine Or.inl ?_
      cases stage with
      | nextRequestId => exact absurd rfl hstage
      | fill todo err =>
        cases todo with
        | cons w todo => rfl
        | nil =>
          cases err with
          | some e => simp only [St.advance, raise_eq]; rfl
          | none =>
            simp only [St.advance]
            split <;> rfl
      | wait pc => simp only [St.advance, afterWait_eq]; rfl
      | _ =>
        simp only [St.advance, raise_eq]
        repeat' split
        all_goals rfl
  | exit b =>
    obtain ⟨-, rfl⟩ := step_exit hs
    exact Or.inl rfl
  | worker =>
    refine Or.inl ?_
    simp only [St.step, St.stepWorker] at hs
    repeat' split at hs
    all_goals cases hs
    all_goals rfl
  | complete m o =>
    obtain ⟨r, -, -, rfl⟩ := step_complete hs
    exact Or.inl rfl
  | handler m =>
    obtain ⟨r, -, hs⟩ := step_handler hs
    obtain ⟨o, j, todo, -, -, rfl⟩ | ⟨o, j, todo, -, -, rfl⟩ | ⟨o, -, rfl⟩ := stepHandler_cases hs
    all_goals exact Or.inl rfl

theorem toNat_succ {x : UInt64} (h : x.toNat + 1 < 2 ^ 64) : (x + 1).toNat = x.toNat + 1 := by
  rw [UInt64.toNat_add]
  exact Nat.mod_eq_of_lt h

theorem numbered_step (ten : Tenancy n k s free) (h : Numbered s) {a : Act} (hg : CountGuard s a)
    (hs : s.step a = some s') : Numbered s' := by
  have hup : s.requestId.toNat ≤ s'.requestId.toNat := by
    obtain hsame | ⟨b, fails, job, rfl, hb, hnext⟩ := step_requestId hs
    · rw [hsame]
    · rw [hnext, toNat_succ (hg job hb)]
      exact Nat.le_succ _
  -- the number that a step gives out is the counter's new value, which no slot carries
  have hnew : ∀ i id, (∃ b fails job, a = .backend b fails ∧ s.backends b = .running job .nextRequestId ∧
      job.slot = i ∧ id = s.requestId + 1) → s'.requestId = id ∧ id.toNat = s.requestId.toNat + 1 := by
    rintro i id ⟨b, fails, job, rfl, hb, -, rfl⟩
    obtain ⟨job', stage, hb', rfl⟩ := step_backend hs
    rw [hb] at hb'
    cases hb'
    exact ⟨rfl, toNat_succ (hg job hb)⟩
  refine ⟨fun i id hc => ?_, fun i j id hi hj => ?_⟩
  · rcases carries_step ten hs hc with hc | hc
    · exact (h.given i id hc).trans hup
    · obtain ⟨hid, -⟩ := hnew i id hc
      rw [hid]
  · rcases carries_step ten hs hi with hci | hci <;> rcases carries_step ten hs hj with hcj | hcj
    · exact h.unique i j id hci hcj
    · have := h.given i id hci
      have := (hnew j id hcj).2
      omega
    · have := h.given j id hcj
      have := (hnew i id hci).2
      omega
    · obtain ⟨b, fails, job, rfl, hb, rfl, -⟩ := hci
      obtain ⟨b', fails', job', ha, hb', rfl, -⟩ := hcj
      cases ha
      rw [hb] at hb'
      cases hb'
      rfl

/-! ## Runs -/

theorem countGuard_of_lt {s : St} (h : s.requestId.toNat + 1 < 2 ^ 64) (a : Act) : CountGuard s a := by
  cases a with
  | backend b fails => exact fun job _ => h
  | acquire | exit | worker | complete | handler => trivial

theorem requestId_le {s s' : St} {a : Act} (hcount : CountGuard s a) (hs : s.step a = some s') :
    s'.requestId.toNat ≤ s.requestId.toNat + 1 := by
  obtain hsame | ⟨b, fails, job, rfl, hb, hnext⟩ := step_requestId hs
  · rw [hsame]
    exact Nat.le_succ _
  · rw [hnext, toNat_succ (hcount job hb)]

/-- A run of fewer steps than there are numbers. -/
theorem countGuard_of_length (acts : List Act) {s : St} (h : s.requestId.toNat + acts.length < 2 ^ 64) :
    Meets St.step CountGuard s acts :=
  meets_of_growth (fun s => s.requestId.toNat) (2 ^ 64) (fun _ a hlt => countGuard_of_lt hlt a)
    (fun _ _ _ hcount hs => requestId_le hcount hs) acts h

theorem numbered_init {n k : Nat} (hk : k ≤ 15) (mem : Nat → FgaChannelSlot) (values : Nat → UInt16) :
    Numbered (St.init n k mem values) := by
  have hnone : ∀ i id, ¬ (St.init n k mem values).Carries i id := by
    rintro i id (⟨hi, -⟩ | ⟨b, job, stage, hb, -⟩)
    · rw [named_mem, show queueContents (St.init n k mem values).queue = [] from (ring_init hk values).contents] at hi
      simp [St.init, WorkerPc.todo, WorkerPc.begun] at hi
    · cases hb
  exact ⟨fun i id h => absurd h (hnone i id), fun i j id h => absurd h (hnone i id)⟩

theorem numbered_of_run {n k : Nat} (hn : n ≤ 2 ^ 16) (hk : k ≤ 15) (mem : Nat → FgaChannelSlot)
    (values : Nat → UInt16) (acts : List Act) (hlen : acts.length < 2 ^ 64) {s : St}
    (hg : Meets St.step Guard (St.init n k mem values) acts)
    (hrun : run St.step (St.init n k mem values) acts = some s) : (∃ free, Tenancy n k s free) ∧ Numbered s := by
  have hcount : Meets St.step CountGuard (St.init n k mem values) acts :=
    countGuard_of_length acts (by rw [show (St.init n k mem values).requestId.toNat = 0 from rfl]; omega)
  exact run_inv_of_meets (fun s => (∃ free, Tenancy n k s free) ∧ Numbered s)
    (fun s a => Guard s a ∧ CountGuard s a)
    (fun _ _ _ ⟨⟨_, ten⟩, h⟩ hg hs => ⟨tenancy_step ten hg.1 hs, numbered_step ten h hg.2 hs⟩) acts
    ⟨⟨_, tenancy_init hn hk mem values⟩, numbered_init hk mem values⟩ (hg.and hcount) hrun

/-- The items the worker is about to hand over are different slots with different numbers. -/
theorem Numbered.begun (ten : Tenancy n k s free) (h : Numbered s) {begun : List Nat}
    (hw : s.worker = .begin [] begun) : begun.Nodup ∧
      ∀ i ∈ begun, ∀ j ∈ begun, (s.mem i).request.requestId = (s.mem j).request.requestId → i = j := by
  have hnamed : ∀ i ∈ begun, s.Named i := fun i hi => named_mem.2 (Or.inr (Or.inl (by rw [hw]; exact hi)))
  constructor
  · obtain ⟨-, hnd, -⟩ := List.nodup_append.1 ten.entries_nodup
    unfold St.taken at hnd
    rw [hw] at hnd
    exact (List.nodup_append.1 hnd).1
  · intro i hi j hj he
    exact h.unique i j _ (Or.inl ⟨hnamed i hi, rfl⟩) (Or.inl ⟨hnamed j hj, he.symm⟩)

/-- **Request ids**: no two slots carry one number, and the items of a batch are told apart by theirs. -/
theorem numbered_run {n k : Nat} (hn : n ≤ 2 ^ 16) (hk : k ≤ 15) (mem : Nat → FgaChannelSlot)
    (values : Nat → UInt16) (acts : List Act) (hlen : acts.length < 2 ^ 64) {s : St}
    (hg : Meets St.step Guard (St.init n k mem values) acts)
    (hrun : run St.step (St.init n k mem values) acts = some s) : Numbered s ∧ ∀ begun, s.worker = .begin [] begun →
      begun.Nodup ∧
        ∀ i ∈ begun, ∀ j ∈ begun, (s.mem i).request.requestId = (s.mem j).request.requestId → i = j := by
  obtain ⟨⟨free, ten⟩, h⟩ := numbered_of_run hn hk mem values acts hlen hg hrun
  exact ⟨h, fun begun hw => h.begun ten hw⟩

end

/-- Two `fga_check`s in one batch. -/
def twoChecks : List Act :=
  waitingCheck ++ .acquire 1 ⟨some (.lit "s"), none⟩ checkViewer :: goOn 1 14 ++ List.replicate 5 .worker

theorem numbered_run_two : ∃ s, run St.step start twoChecks = some s ∧ s.worker = .begin [] [1023, 1022] ∧
    Numbered s ∧ (s.mem 1023).request.requestId ≠ (s.mem 1022).request.requestId := by
  have hend : (run St.step start twoChecks).any (fun s => s.worker == .begin [] [1023, 1022]) = true := by
    decide +kernel
  obtain ⟨s, hs, hw⟩ := (Option.any_eq_true ..).1 hend
  have hw := eq_of_beq hw
  have hplain : Meets St.step (fun s a => s.plain a = true) start twoChecks := by decide +kernel
  obtain ⟨h, hbegun⟩ := numbered_run (by decide) (by decide) freshSlot (fun _ => 0) twoChecks (by decide)
    (hplain.mono fun s a h => (plain_guard s a h).1) hs
  refine ⟨s, hs, hw, h, fun he => ?_⟩
  cases (hbegun _ hw).2 1023 (by simp) 1022 (by simp) he

end PostFga
