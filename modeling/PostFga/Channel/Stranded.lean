import PostFga.Channel.Effects
/-
# Does the worker sleep on a request?

The worker's latch is one bit, a pass drains at most fifty requests, and the hand-over issues an RPC
only for those that were not cancelled. `Awake` says what covers the requests that are left: the latch,
a backend that is about to set it, an RPC whose completion will set it, or the pass that is under way.

* `WakeGuard` — a pass that leaves requests in the queue issues an RPC, unless something else is due.
* `notStranded_run` — in every run that meets it, a worker asleep has nothing to do or is going to be
  woken.
* `stranded_cancelled` — fifty cancelled checks, and the one behind them.
-/

namespace PostFga

open Transition

/-- The handler of the call has run. -/
def Rpc.finished (r : Rpc) : Bool :=
  match r.pc, r.todo with
  | .write _, [] => true
  | _, _ => false

/-- The handler is between its append and its `SetLatch`. -/
def Rpc.appended (r : Rpc) : Bool :=
  match r.pc with
  | .setLatch _ => true
  | _ => false

/-- Blocked in `WaitLatch`. -/
def St.Asleep (s : St) : Prop := s.worker = .waitLatch ∧ s.latch = false

/-- A backend is between its enqueue and its `SetLatch`. -/
def St.Waking (s : St) : Prop := ∃ b job, s.backends b = .running job .wakeBgw

/-- An issued RPC has not completed. -/
def St.Outstanding (s : St) : Prop := ∃ r ∈ s.rpcs, r.finished = false

/-- A worker that sleeps leaves no request behind, unless a wake-up is due, and no completion. -/
def NotStranded (s : St) : Prop :=
  s.Asleep → ¬ s.Waking → (queueIsEmpty s.queue = true ∨ s.Outstanding) ∧ s.completed = []

/-- When a pass that has left requests in the queue hands its batch over, the client issues an RPC, or
one is outstanding, or the latch is set, or about to be set. -/
def WakeGuard (s : St) : Act → Prop
  | .worker => ∀ begun, s.worker = .begin [] begun → queueIsEmpty s.queue = true ∨
      processBatch s.mem begun ≠ [] ∨ s.Outstanding ∨ s.latch = true ∨ s.Waking
  | _ => True

/-! ## The invariant -/

/-- Between `ResetLatch` and the hand-over. -/
def WorkerPc.draining : WorkerPc → Bool
  | .drain | .begin .. | .releaseCanceled .. => true
  | _ => false

/-- Between `ResetLatch` and the swap of the completed queue. -/
def WorkerPc.passing : WorkerPc → Bool
  | .swap => true
  | w => w.draining

structure Awake (k : Nat) (s : St) : Prop where
  ring : Ring s.queue k (queueContents s.queue)
  issued : ∀ r ∈ s.rpcs, r.pc = .issued → r.todo ≠ []
  queue : queueIsEmpty s.queue = true ∨ s.worker.draining = true ∨ s.latch = true ∨ s.Waking ∨ s.Outstanding
  completed : s.completed = [] ∨ s.worker.passing = true ∨ s.latch = true ∨ ∃ r ∈ s.rpcs, r.appended = true

theorem slots_ne_nil {mem : Nat → FgaPayload} {items : List Nat} {c : Call} (h : c ∈ processBatch mem items) :
    c.slots ≠ [] := by
  rcases mem_processBatch h with ⟨i, -, hc⟩ | hc
  · rw [slots_of_mem_handleRequest hc]
    simp
  · obtain ⟨first, hfirst, rfl⟩ := mem_handleCheckBatch hc
    exact List.ne_nil_of_mem hfirst

section
variable {k : Nat} {s s' : St}

theorem waking_update {b : Nat} {x : Backend} (h : s.Waking) (hb : ∀ job, s.backends b ≠ .running job .wakeBgw)
    (hs : s'.backends = Function.update s.backends b x) : s'.Waking := by
  obtain ⟨b', job, hb'⟩ := h
  have hne : b' ≠ b := by
    rintro rfl
    exact hb job hb'
  exact ⟨b', job, by rw [hs, Function.update_of_ne hne]; exact hb'⟩

/-- Steps of a backend that is not about to set the latch. -/
theorem Awake.backend (h : Awake k s) {b : Nat} {x : Backend} (hb : ∀ job, s.backends b ≠ .running job .wakeBgw)
    (hs : s'.backends = Function.update s.backends b x) (hq : s'.queue = s.queue) (hl : s'.latch = s.latch)
    (hw : s'.worker = s.worker) (hc : s'.completed = s.completed) (hr : s'.rpcs = s.rpcs) : Awake k s' where
  ring := by rw [hq]; exact h.ring
  issued := by rw [hr]; exact h.issued
  queue := by
    rw [hq, hw, hl]
    refine h.queue.imp_right (Or.imp_right (Or.imp_right (Or.imp ?_ ?_)))
    · exact fun hwake => waking_update hwake hb hs
    · unfold St.Outstanding; rw [hr]; exact id
  completed := by rw [hc, hw, hl, hr]; exact h.completed

theorem awake_advance (h : Awake k s) {b : Nat} {job : Job} {stage : Stage}
    (hb : s.backends b = .running job stage) (fails : Bool) : Awake k (s.advance b job fails stage) := by
  obtain ⟨hworker, hrpcs, hcompleted, -, hqueue⟩ := advance_lists s b job fails stage
  by_cases hwake : stage = .wakeBgw
  · subst hwake
    exact ⟨h.ring, h.issued, Or.inr (Or.inr (Or.inl rfl)), Or.inr (Or.inr (Or.inl rfl))⟩
  have hne : ∀ job', s.backends b ≠ .running job' .wakeBgw := by
    intro job' hb'
    rw [hb] at hb'
    cases hb'
    exact hwake rfl
  by_cases hstage : stage = .fill [] none
  · subst hstage
    simp only [St.advance]
    cases hq : queueEnqueue s.queue (.ofNat job.slot) with
    | none => exact h.backend hne rfl rfl rfl rfl rfl rfl
    | some queue =>
      have hring := h.ring.of_enqueue hq
      refine ⟨?_, h.issued, ?_, h.completed⟩
      · show Ring queue k (queueContents queue)
        rw [hring.contents]; exact hring
      · exact Or.inr (Or.inr (Or.inr (Or.inl ⟨b, job, goto_self ..⟩)))
  · obtain ⟨⟨x, hx, -⟩, hlatch⟩ := advance_backend s b job fails stage
    exact h.backend hne hx (hqueue hstage) (hlatch hwake) hworker hcompleted hrpcs

theorem awake_worker (h : Awake k s) (hg : WakeGuard s .worker) (hs : s.stepWorker = some s') : Awake k s' := by
  cases hw : s.worker with
  | waitLatch =>
    obtain ⟨hl, rfl⟩ := stepWorker_waitLatch hw hs
    exact ⟨h.ring, h.issued, Or.inr (Or.inr (Or.inl hl)), Or.inr (Or.inr (Or.inl hl))⟩
  | resetLatch =>
    simp only [St.stepWorker, hw, Option.some.injEq] at hs
    subst hs
    exact ⟨h.ring, h.issued, Or.inr (Or.inl rfl), Or.inr (Or.inl rfl)⟩
  | drain =>
    obtain ⟨-, hring⟩ := h.ring.drain 50
    have hcon := hring.contents
    simp only [St.stepWorker, hw, Option.some.injEq] at hs
    subst hs
    refine ⟨?_, h.issued, Or.inr (Or.inl rfl), Or.inr (Or.inl rfl)⟩
    rw [hcon]
    exact hring
  | begin todo begun =>
    cases todo with
    | nil =>
      have hdue := hg begun hw
      simp only [St.stepWorker, hw, Option.some.injEq] at hs
      subst hs
      refine ⟨h.ring, fun r hr hpc => ?_, ?_, Or.inr (Or.inl rfl)⟩
      · rcases List.mem_append.1 hr with hr | hr
        · exact h.issued r hr hpc
        · obtain ⟨c, hc, rfl⟩ := List.mem_map.1 hr
          exact slots_ne_nil hc
      · have hold : s.Outstanding → ∃ r ∈ s.rpcs ++ (processBatch s.mem begun).map St.issue,
            r.finished = false := by
          rintro ⟨r, hr, hf⟩
          exact ⟨r, List.mem_append_left _ hr, hf⟩
        rcases hdue with he | hcalls | hout | hl | hwake
        · exact Or.inl he
        · obtain ⟨c, hc⟩ := List.exists_mem_of_ne_nil _ hcalls
          refine Or.inr (Or.inr (Or.inr (Or.inr ⟨St.issue c, ?_, rfl⟩)))
          exact List.mem_append_right _ (List.mem_map_of_mem hc)
        · exact Or.inr (Or.inr (Or.inr (Or.inr (hold hout))))
        · exact Or.inr (Or.inr (Or.inl hl))
        · exact Or.inr (Or.inr (Or.inr (Or.inl hwake)))
    | cons i todo =>
      simp only [St.stepWorker, hw, Option.some.injEq] at hs
      subst hs
      refine ⟨h.ring, h.issued, Or.inr (Or.inl ?_), Or.inr (Or.inl ?_)⟩
      · split <;> rfl
      · split <;> rfl
  | releaseCanceled i todo begun =>
    simp only [St.stepWorker, hw, Option.some.injEq] at hs
    subst hs
    exact ⟨h.ring, h.issued, Or.inr (Or.inl rfl), Or.inr (Or.inl rfl)⟩
  | swap =>
    have hqueue := h.queue
    rw [hw] at hqueue
    simp only [St.stepWorker, hw, Option.some.injEq] at hs
    subst hs
    refine ⟨h.ring, h.issued, hqueue.imp_right fun hq => ?_, Or.inl rfl⟩
    exact Or.inr (hq.resolve_left (by simp [WorkerPc.draining]))
  | handle i pc rest =>
    have hqueue := h.queue
    have hcompleted := h.completed
    rw [hw] at hqueue hcompleted
    have hq : queueIsEmpty s.queue = true ∨ s.latch = true ∨ s.Waking ∨ s.Outstanding :=
      hqueue.imp_right fun hq => hq.resolve_left (by simp [WorkerPc.draining])
    have hc : s.completed = [] ∨ s.latch = true ∨ ∃ r ∈ s.rpcs, r.appended = true :=
      hcompleted.imp_right fun hc => hc.resolve_left (by simp [WorkerPc.passing, WorkerPc.draining])
    simp only [St.stepWorker, hw, Option.some.injEq] at hs
    subst hs
    exact ⟨h.ring, h.issued, hq.imp_right Or.inr, hc.imp_right Or.inr⟩

/-- A step of an issued call that has not run its handler to the end, and does not yet. -/
theorem Awake.rpc (h : Awake k s) {m : Nat} {r r' : Rpc} (hr : s.rpcs[m]? = some r) (hr' : r'.finished = false)
    (hi : r'.pc ≠ .issued) {completed : List Nat} (hc : r'.appended = true ∨
      completed = s.completed ∧ r.appended = false) {p : FgaChannelSlotPool}
    {author : Nat → Option (Call × RpcOutcome)} :
    Awake k ({ s with pool := p, author := author, completed := completed }.setRpc m r') := by
  obtain ⟨hm, hrm⟩ := List.getElem?_eq_some_iff.1 hr
  have hnew : r' ∈ s.rpcs.set m r' := List.mem_set hm r'
  refine ⟨h.ring, fun x hx hpc => ?_, ?_, ?_⟩
  · rcases List.mem_or_eq_of_mem_set hx with hx | rfl
    · exact h.issued x hx hpc
    · exact absurd hpc hi
  · refine h.queue.imp_right (Or.imp_right (Or.imp_right (Or.imp_right fun _ => ?_)))
    exact ⟨r', hnew, hr'⟩
  · rcases hc with hc | ⟨rfl, hrc⟩
    · exact Or.inr (Or.inr (Or.inr ⟨r', hnew, hc⟩))
    · refine h.completed.imp_right (Or.imp_right (Or.imp_right ?_))
      rintro ⟨x, hx, ha⟩
      obtain ⟨m', hm', rfl⟩ := List.getElem_of_mem hx
      have hne : m' ≠ m := by
        rintro rfl
        rw [hrm, hrc] at ha
        cases ha
      refine ⟨s.rpcs[m'], ?_, ha⟩
      show s.rpcs[m'] ∈ s.rpcs.set m r'
      rw [← List.getElem_set_of_ne (Ne.symm hne) r' (by rwa [List.length_set])]
      exact List.getElem_mem _

theorem awake_handler (h : Awake k s) {m : Nat} {r : Rpc} (hr : s.rpcs[m]? = some r)
    (hs : s.stepHandler m r = some s') : Awake k s' := by
  obtain ⟨o, i, todo, hpc, htodo, rfl⟩ | ⟨o, i, todo, hpc, htodo, rfl⟩ | ⟨o, hpc, rfl⟩ := stepHandler_cases hs
  · exact h.rpc hr rfl (by simp) (Or.inr ⟨rfl, by unfold Rpc.appended; rw [hpc]⟩)
  · exact h.rpc hr rfl (by simp) (Or.inl rfl)
  · refine ⟨h.ring, fun x hx hpc => ?_, Or.inr (Or.inr (Or.inl rfl)), Or.inr (Or.inr (Or.inl rfl))⟩
    rcases List.mem_or_eq_of_mem_set hx with hx | rfl
    · exact h.issued x hx hpc
    · cases hpc

/-- **What a step keeps.** -/
theorem awake_step (s : St) (a : Act) (s' : St) (h : Awake k s) (hg : WakeGuard s a) (hs : s.step a = some s') :
    Awake k s' := by
  cases a with
  | acquire b config call =>
    obtain ⟨hb, rfl⟩ := step_acquire hs
    unfold St.acquire
    split
    · exact h
    · refine h.backend (fun job => ?_) rfl rfl rfl rfl rfl rfl
      rw [hb]; simp
  | backend b fails =>
    obtain ⟨job, stage, hb, rfl⟩ := step_backend hs
    exact awake_advance h hb fails
  | exit b =>
    obtain ⟨hb, rfl⟩ := step_exit hs
    refine h.backend (fun job => ?_) rfl rfl rfl rfl rfl rfl
    rw [hb]; simp
  | worker => exact awake_worker h hg hs
  | complete m o =>
    obtain ⟨r, hr, hpc, rfl⟩ := step_complete hs
    have hne := h.issued r (List.mem_of_getElem? hr) hpc
    refine h.rpc hr ?_ (by simp) (Or.inr ⟨rfl, by unfold Rpc.appended; rw [hpc]⟩)
    unfold Rpc.finished
    split
    · rename_i htodo; exact absurd htodo hne
    · rfl
  | handler m =>
    obtain ⟨r, hr, hs⟩ := step_handler hs
    exact awake_handler h hr hs

end

theorem awake_init {n k : Nat} (hk : k ≤ 15) (mem : Nat → FgaChannelSlot) (values : Nat → UInt16) :
    Awake k (St.init n k mem values) := by
  have hring := ring_init hk values
  have hempty : queueIsEmpty (queueInit (.ofNat (2 ^ k)) values) = true := hring.isEmpty.2 rfl
  refine ⟨?_, fun r hr => (by cases hr), Or.inl hempty, Or.inl rfl⟩
  show Ring (queueInit _ values) k (queueContents (queueInit _ values))
  rw [hring.contents]
  exact hring

/-! ## Runs -/

/-- **The worker sleeps on nothing.** -/
theorem notStranded_run {n k : Nat} (hk : k ≤ 15) (mem : Nat → FgaChannelSlot) (values : Nat → UInt16)
    (acts : List Act) {s : St} (hg : Meets St.step WakeGuard (St.init n k mem values) acts)
    (hrun : run St.step (St.init n k mem values) acts = some s) (hr : ∀ r ∈ s.rpcs, r.appended = false) :
    NotStranded s := by
  have h := run_inv_of_meets (Awake k) WakeGuard awake_step acts (awake_init hk mem values) hg hrun
  rintro ⟨hw, hl⟩ hnw
  have hqueue := h.queue
  have hcompleted := h.completed
  rw [hw, hl] at hqueue hcompleted
  refine ⟨?_, ?_⟩
  · rcases hqueue with he | hd | hl' | hwake | hout
    · exact Or.inl he
    · cases hd
    · cases hl'
    · exact absurd hwake hnw
    · exact Or.inr hout
  · rcases hcompleted with he | hd | hl' | ⟨r, hmem, ha⟩
    · exact he
    · cases hd
    · cases hl'
    · rw [hr r hmem] at ha; cases ha

/-- The step is not a hand-over that leaves requests behind. -/
def St.clears (s : St) : Act → Bool
  | .worker =>
    match s.worker with
    | .begin [] _ => queueIsEmpty s.queue
    | _ => true
  | _ => true

theorem clears_guard (s : St) (a : Act) (h : s.clears a = true) : WakeGuard s a := by
  cases a with
  | worker =>
    intro begun hw
    simp only [St.clears, hw] at h
    exact Or.inl h
  | _ => trivial

/-- One `fga_create_store`, and a pass of the worker. -/
def onePass : List Act :=
  .acquire 0 ⟨none, none⟩ (.createStore (.lit "docs")) :: goOn 0 8 ++ List.replicate 6 .worker

theorem notStranded_run_pass : ∃ s, run St.step start onePass = some s ∧ s.Asleep ∧ NotStranded s := by
  have hend : (run St.step start onePass).any (fun s => s.worker == .waitLatch && s.latch == false &&
      s.rpcs.all fun r => r.appended == false) = true := by decide +kernel
  obtain ⟨s, hs, hall⟩ := (Option.any_eq_true ..).1 hend
  simp only [Bool.and_eq_true, beq_iff_eq, List.all_eq_true] at hall
  have hclears : Meets St.step (fun s a => s.clears a = true) start onePass := by decide +kernel
  exact ⟨s, hs, hall.1, notStranded_run (by decide) freshSlot (fun _ => 0) onePass (hclears.mono clears_guard)
    hs hall.2⟩

/-- An `fga_check` up to its wait. -/
def waitingCheck : List Act := .acquire 0 ⟨some (.lit "s"), none⟩ checkViewer :: goOn 0 14

/-- `m` of them, each cancelled in its wait. -/
def cancelledChecks : Nat → List Act
  | 0 => []
  | m + 1 => waitingCheck ++ .backend 0 true :: goOn 0 3 ++ cancelledChecks m

/-- Fifty cancelled checks and one more, and a pass of the worker. -/
def fiftyOne : List Act := cancelledChecks 50 ++ waitingCheck ++ List.replicate 105 .worker

/-- The fifty-first. -/
def lastJob : Job := ⟨⟨some (.lit "s"), none⟩, checkViewer, 973, 51⟩

/-- **Stranded**: the worker has released the fifty slots it has drained and sleeps; the fifty-first
request is in the queue, and nothing is going to wake it. -/
theorem stranded_cancelled : ∃ s, run St.step start fiftyOne = some s ∧ s.Asleep ∧ ¬ s.Waking ∧
    queueIsEmpty s.queue = false ∧ s.rpcs.length = 0 ∧ ¬ NotStranded s := by
  have hend : (run St.step start fiftyOne).any (fun s => s.worker == .waitLatch && s.latch == false &&
      queueIsEmpty s.queue == false && s.rpcs.length == 0 &&
      s.backends 0 == .running lastJob (.wait .waitLatch)) = true := by decide +kernel
  obtain ⟨s, hs, hall⟩ := (Option.any_eq_true ..).1 hend
  simp only [Bool.and_eq_true, beq_iff_eq] at hall
  obtain ⟨⟨⟨⟨hw, hl⟩, hq⟩, hr⟩, h0⟩ := hall
  -- no other backend has moved
  have hothers : ∀ b, b ≠ 0 → s.backends b = .idle := by
    have hpid : ∀ a ∈ fiftyOne, a.pid = some 0 ∨ a.pid = none := by decide +kernel
    refine fun b hb => run_backends hs fun a ha hab => ?_
    rcases hpid a ha with h0 | h0
    · rw [h0] at hab
      exact hb (Option.some.inj hab).symm
    · rw [h0] at hab
      cases hab
  have hnw : ¬ s.Waking := by
    rintro ⟨b, job, hb⟩
    by_cases h : b = 0
    · subst h
      rw [hb] at h0
      cases h0
    · rw [hothers b h] at hb
      cases hb
  refine ⟨s, hs, ⟨hw, hl⟩, hnw, hq, hr, fun h => ?_⟩
  rcases (h ⟨hw, hl⟩ hnw).1 with he | ⟨r, hmem, -⟩
  · rw [hq] at he; cases he
  · rw [List.length_eq_zero_iff.1 hr] at hmem; cases hmem

end PostFga
