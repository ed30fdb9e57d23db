import PostFga.Channel.WorkBound
/-
# Every call comes to an end

A state is at rest when nobody has a step left but calls not yet made and signals. `work_bound` says
that every run comes there; here is what is found there.

* `comes_to_rest` — every run goes on to a state at rest, and where the guards of the tenancy, of the
  worker's latch and of the pids have been met, no call is under way in it.
* `asleep_stolen` — a run that breaks the last of the three: an `fga_check` whose answer is in its slot
  sleeps, and nobody is going to wake it.
-/

namespace PostFga

open Transition

/-- Calls, signals and the rest of PostgreSQL aside, nobody has a step. The RPCs have completed. -/
def LatchSt.AtRest (s : LatchSt) : Prop := Stuck LatchSt.step (fun _ => True) LatchAct.brings s

/-- A handler that is about to append has a slot to append. -/
def St.Appends (s : St) : Prop := ∀ r ∈ s.rpcs, ∀ o, r.pc = .append o → r.todo ≠ []

section
variable {s s' : St}

theorem Appends.set (h : s.Appends) {m : Nat} {r' : Rpc} (hr' : ∀ o, r'.pc = .append o → r'.todo ≠ []) :
    ∀ r ∈ s.rpcs.set m r', ∀ o, r.pc = .append o → r.todo ≠ [] := by
  intro r hr o hpc
  rcases List.mem_or_eq_of_mem_set hr with hr | rfl
  · exact h r hr o hpc
  · exact hr' o hpc

theorem appends_step (s : St) (a : Act) (s' : St) (h : s.Appends) (hs : s.step a = some s') : s'.Appends := by
  cases a with
  | acquire b config call =>
    obtain ⟨-, rfl⟩ := step_acquire hs
    unfold St.acquire
    split <;> exact h
  | backend b fails =>
    obtain ⟨job, stage, -, rfl⟩ := step_backend hs
    unfold St.Appends
    rw [(advance_lists s b job fails stage).2.1]
    exact h
  | exit b =>
    obtain ⟨-, rfl⟩ := step_exit hs
    exact h
  | worker =>
    obtain ⟨-, hrpcs | ⟨begun, -, hrpcs⟩⟩ := worker_rpcs hs
    · unfold St.Appends
      rw [hrpcs]
      exact h
    · intro r hr o hpc
      rw [hrpcs] at hr
      rcases List.mem_append.1 hr with hr | hr
      · exact h r hr o hpc
      · obtain ⟨c, -, rfl⟩ := List.mem_map.1 hr
        cases hpc
  | complete m o =>
    obtain ⟨r, hr, hpc, rfl⟩ := step_complete hs
    exact Appends.set h fun o' ho' => by cases ho'
  | handler m =>
    obtain ⟨r, hr, hs⟩ := step_handler hs
    obtain ⟨o, i, todo, hpc, htodo, rfl⟩ | ⟨o, i, todo, hpc, htodo, rfl⟩ | ⟨o, hpc, rfl⟩ := stepHandler_cases hs
    · exact Appends.set h fun o' _ => by rw [htodo]; simp
    · exact Appends.set h fun o' ho' => by cases ho'
    · exact Appends.set h fun o' ho' => by cases ho'

/-- An issued call that has no step left has run its handler to the end. -/
theorem finished_of_stuck (h : s.Appends) (hcomplete : ∀ m o, s.step (.complete m o) = none)
    (hhandler : ∀ m, s.step (.handler m) = none) : ∀ r ∈ s.rpcs, r.finished = true := by
  intro r hr
  obtain ⟨m, hm⟩ := List.mem_iff_getElem?.1 hr
  obtain ⟨c, pc, todo⟩ := r
  have hnone := hhandler m
  simp only [St.step, hm, Option.bind_some] at hnone
  cases pc with
  | issued =>
    have := hcomplete m storeCreated
    simp only [St.step, hm] at this
    cases this
  | write o =>
    cases todo with
    | nil => rfl
    | cons i todo => cases hnone
  | append o =>
    cases todo with
    | nil => exact absurd rfl (h _ hr o rfl)
    | cons i todo => cases hnone
  | setLatch o => cases hnone

theorem finished_iff {r : Rpc} : r.finished = true ↔ (∃ o, r.pc = .write o) ∧ r.todo = [] := by
  unfold Rpc.finished
  constructor
  · intro h
    split at h
    · rename_i o hpc htodo
      exact ⟨⟨o, hpc⟩, htodo⟩
    · cases h
  · rintro ⟨⟨o, hpc⟩, htodo⟩
    rw [hpc, htodo]

theorem appended_of_finished {r : Rpc} (h : r.finished = true) : r.appended = false := by
  obtain ⟨⟨o, hpc⟩, -⟩ := finished_iff.1 h
  unfold Rpc.appended
  rw [hpc]

/-- A worker without a step sleeps. -/
theorem asleep_of_stuck (h : s.step .worker = none) : s.Asleep := by
  have h' : s.stepWorker = none := h
  cases hw : s.worker with
  | waitLatch =>
    refine ⟨hw, ?_⟩
    cases hl : s.latch with
    | false => rfl
    | true =>
      simp only [St.stepWorker, hw, hl, if_true] at h'
      cases h'
  | begin todo begun => cases todo <;> simp only [St.stepWorker, hw] at h' <;> cases h'
  | _ => simp only [St.stepWorker, hw] at h'; cases h'

end

section
variable {n k : Nat} {s : LatchSt} {free : List Nat}

theorem AtRest.act {s : LatchSt} (h : s.AtRest) {a : Act} (hb : (LatchAct.act a).brings = 0)
    (hr : s.chan.resets a = none) : s.chan.step a = none := by
  have hnone := h (.act a) trivial hb
  simp only [LatchSt.step, hr, Option.all_none, if_true, Option.map_eq_none_iff] at hnone
  exact hnone

/-- A call that has no step left is asleep in `WaitLatch`. -/
theorem AtRest.backend (h : s.AtRest) {b : Nat} {job : Job} {stage : Stage}
    (hb : s.chan.backends b = .running job stage) : stage = .wait .waitLatch ∧ s.latches b = false := by
  by_cases hin : s.chan.inWaitLatch b = true
  · obtain ⟨job', hb'⟩ := inWaitLatch_iff.1 hin
    rw [hb] at hb'
    cases hb'
    refine ⟨rfl, Bool.eq_false_iff.2 fun hl => ?_⟩
    cases hw : s.woken b with
    | false =>
      have := h (.waitLatch b) trivial rfl
      rw [step_waitLatch_of hin hl hw] at this
      cases this
    | true =>
      have hreset : s.chan.resets (.backend b false) = some b := by simp only [St.resets, hin, if_true]
      have hstep : s.chan.step (.backend b false) = some (s.chan.advance b job false (.wait .waitLatch)) := by
        simp only [St.step, hb]
      have := h (.act (.backend b false)) trivial rfl
      rw [step_act_of (fun b' hb' => by rw [hreset] at hb'; cases hb'; exact hw) hstep] at this
      cases this
  · have hreset : s.chan.resets (.backend b false) = none := by simp [St.resets, hin]
    have := AtRest.act h (a := .backend b false) rfl hreset
    simp only [St.step, hb] at this
    cases this

/-- **At rest no call is under way**: what it waits for would be queued, drained, with an RPC or done, and
for each of these somebody would have a step. -/
theorem quiet_of_atRest (hrest : s.AtRest) (ten : Tenancy n k s.chan free) (hawake : Awake k s.chan)
    (hatt : Attentive s) (hpid : PidKept s.chan) (happ : s.chan.Appends) : s.chan.Quiet := by
  have hfinished := finished_of_stuck happ (fun m o => AtRest.act hrest (a := .complete m o) rfl rfl)
    fun m => AtRest.act hrest (a := .handler m) rfl rfl
  obtain ⟨hw, hl⟩ := asleep_of_stuck (AtRest.act hrest (a := .worker) rfl rfl)
  have htodo : ∀ r ∈ s.chan.rpcs, r.todo = [] := fun r hr => (finished_iff.1 (hfinished r hr)).2
  have hqueue : queueIsEmpty s.chan.queue = true := by
    rcases hawake.queue with hq | hd | hl' | ⟨b, job, hb⟩ | ⟨r, hr, hf⟩
    · exact hq
    · rw [hw] at hd; cases hd
    · rw [hl] at hl'; cases hl'
    · cases (AtRest.backend hrest hb).1
    · rw [hfinished r hr] at hf; cases hf
  have hcompleted : s.chan.completed = [] := by
    rcases hawake.completed with hc | hd | hl' | ⟨r, hr, ha⟩
    · exact hc
    · rw [hw] at hd; cases hd
    · rw [hl] at hl'; cases hl'
    · rw [appended_of_finished (hfinished r hr)] at ha; cases ha
  have hwaiting : s.chan.waiting = [] := by
    unfold St.waiting
    rw [ten.ring.isEmpty.1 hqueue, hw]
    rfl
  have htaken : s.chan.taken = [] := by
    unfold St.taken
    rw [hcompleted, hw, List.append_nil]
    exact List.flatMap_eq_nil_iff.2 htodo
  refine ⟨fun b job stage hb => ?_, hw, hqueue, hcompleted, htodo⟩
  obtain ⟨rfl, hlatch⟩ := AtRest.backend hrest hb
  obtain ⟨-, -, hat, -⟩ := (ten.tenure job.slot).of_owner hb rfl rfl
  rw [hwaiting, htaken, List.count_nil] at hat
  obtain ⟨-, ⟨-, hc, -⟩ | ⟨-, -, hc⟩ | ⟨hdone, -, -⟩⟩ := hat
  · cases hc
  · cases hc
  · rcases hatt.done b job hb hdone (hpid b job _ hb rfl) with hl' | ⟨rest, hw'⟩
    · rw [hlatch] at hl'; cases hl'
    · rw [hw] at hw'; cases hw'

end

/-- Where nobody has a step. -/
theorem atRest_of {s : LatchSt} (hb : ∀ b job stage, s.chan.backends b = .running job stage →
      stage = .wait .waitLatch ∧ s.latches b = false ∧ s.woken b = false)
    (hw : s.chan.Asleep) (hr : ∀ r ∈ s.chan.rpcs, r.finished = true) : s.AtRest := by
  intro a _ ha
  cases a with
  | act a =>
    have hnone : s.chan.resets a = none → s.chan.step a = none → s.step (.act a) = none := by
      intro hreset hstep
      simp only [LatchSt.step, hreset, hstep, Option.all_none, if_true, Option.map_none]
    cases a with
    | acquire | exit => cases ha
    | backend b fails =>
      cases hrun : s.chan.backends b with
      | running job stage =>
        obtain ⟨rfl, -, hwoken⟩ := hb b job stage hrun
        have hreset : s.chan.resets (.backend b fails) = some b := by
          simp only [St.resets, inWaitLatch_iff.2 ⟨job, hrun⟩, if_true]
        simp only [LatchSt.step, hreset, Option.all_some, hwoken, Bool.false_eq_true, if_false]
      | idle | gone =>
        have hin : s.chan.inWaitLatch b = false := by simp only [St.inWaitLatch, hrun]
        exact hnone (by simp [St.resets, hin]) (by simp only [St.step, hrun])
    | worker =>
      refine hnone rfl ?_
      simp only [St.step, St.stepWorker, hw.1, hw.2, Bool.false_eq_true, if_false]
    | complete m o =>
      refine hnone rfl ?_
      simp only [St.step]
      cases hm : s.chan.rpcs[m]? with
      | none => rfl
      | some r =>
        obtain ⟨⟨o', hpc⟩, -⟩ := finished_iff.1 (hr r (List.mem_of_getElem? hm))
        simp only [hpc]
    | handler m =>
      refine hnone rfl ?_
      simp only [St.step]
      cases hm : s.chan.rpcs[m]? with
      | none => rfl
      | some r =>
        obtain ⟨⟨o', hpc⟩, htodo⟩ := finished_iff.1 (hr r (List.mem_of_getElem? hm))
        simp only [Option.bind_some, St.stepHandler, hpc, htodo]
  | setLatch | resetLatch => cases ha
  | waitLatch b =>
    cases hin : s.chan.inWaitLatch b with
    | false => simp only [LatchSt.step, hin, Bool.false_and, Bool.false_eq_true, if_false]
    | true =>
      obtain ⟨job, hrun⟩ := inWaitLatch_iff.1 hin
      simp only [LatchSt.step, (hb b job _ hrun).2.1, Bool.and_false, Bool.false_and, Bool.false_eq_true, if_false]

/-! ## Runs -/

/-- The guards of the tenancy, of the worker's latch and of the pids. -/
def RestGuard (s : St) (a : Act) : Prop := Guard s a ∧ WakeGuard s a ∧ PidGuard s a

/-- A process that no label names has no step. -/
theorem atRest_of_below {m : Nat} {s : LatchSt} (h : Stuck LatchSt.step (LatchAct.Below m) LatchAct.brings s)
    (hidle : ∀ b, m ≤ b → s.chan.backends b = .idle) : s.AtRest := by
  intro a _ ha
  by_cases hbelow : a.Below m
  · exact h a hbelow ha
  · obtain ⟨b, hb⟩ := Classical.not_forall.1 hbelow
    obtain ⟨hpid, hle⟩ := Classical.not_imp.1 hb
    have hgone := hidle b (Nat.le_of_not_lt hle)
    cases a with
    | act a =>
      cases a with
      | acquire | exit => cases ha
      | backend b' fails =>
        cases hpid
        have hin : s.chan.inWaitLatch b = false := by simp only [St.inWaitLatch, hgone]
        simp [LatchSt.step, St.resets, hin, St.step, hgone]
      | worker | complete | handler => cases hpid
    | setLatch | resetLatch => cases ha
    | waitLatch b' =>
      cases hpid
      have hin : s.chan.inWaitLatch b = false := by simp only [St.inWaitLatch, hgone]
      simp [LatchSt.step, hin]

/-- **Every call comes to an end**: every run goes on to rest, and at rest no call is under way. -/
theorem comes_to_rest {n k : Nat} (hn : n ≤ 2 ^ 16) (hk : k ≤ 15) (mem : Nat → FgaChannelSlot)
    (values : Nat → UInt16) (acts : List LatchAct) {s : LatchSt}
    (hrun : run LatchSt.step (.init (St.init n k mem values)) acts = some s) :
    (∃ acts' t, (∀ a ∈ acts', a.brings = 0) ∧ run LatchSt.step s acts' = some t ∧ t.AtRest) ∧
      (s.AtRest → Meets St.step RestGuard (St.init n k mem values) (acts.filterMap LatchAct.act?) →
        s.chan.Quiet) := by
  constructor
  · obtain ⟨m, hm⟩ := exists_below acts
    obtain ⟨hring, -⟩ := (step_pays k m).run acts (ring_start hk mem values) hm hrun
    obtain ⟨acts', t, hacts', -, hrun', hstuck⟩ := (step_pays k m).stuck hring
    refine ⟨acts', t, fun a ha => (hacts' a ha).2, hrun', atRest_of_below hstuck fun b hb => ?_⟩
    have hall := latchSt_projects.run (acts ++ acts') (run_append.2 ⟨s, hrun, hrun'⟩)
    refine run_backends hall fun a ha hpid => ?_
    obtain ⟨la, hla, hact⟩ := List.mem_filterMap.1 ha
    obtain ⟨a', rfl⟩ : ∃ a', la = .act a' := by
      cases la with
      | act a' => exact ⟨a', rfl⟩
      | setLatch | resetLatch | waitLatch => cases hact
    cases hact
    have hbelow : (LatchAct.act a).Below m := by
      rcases List.mem_append.1 hla with hla | hla
      · exact hm _ hla
      · exact (hacts' _ hla).1
    exact absurd (hbelow b hpid) (Nat.not_lt.2 hb)
  · intro hrest hg
    have hchan := latchSt_projects.run acts hrun
    obtain ⟨⟨free, ten⟩, hpid⟩ := signed_run hn hk mem values _ (hg.mono fun _ _ h => ⟨h.1, h.2.2⟩) hchan
    have hawake := run_inv_of_meets (Awake k) WakeGuard awake_step _ (awake_init hk mem values)
      (hg.mono fun _ _ h => h.2.1) hchan
    have happ := run_inv St.Appends appends_step _ (fun r hr => by cases hr) hchan
    exact quiet_of_atRest hrest ten hawake (attentive_run acts hrun) hpid happ

/-- The step is not one that the guards are about. -/
def St.orderly (s : St) (a : Act) : Bool :=
  s.plain a && s.clears a && match a with
    | .backend b _ =>
      match s.backends b with
      | .running _ (.wait .catchWritePid) => false
      | _ => true
    | _ => true

theorem orderly_guard (s : St) (a : Act) (h : s.orderly a = true) : RestGuard s a := by
  simp only [St.orderly, Bool.and_eq_true] at h
  obtain ⟨⟨hplain, hclears⟩, hpid⟩ := h
  refine ⟨(plain_guard s a hplain).1, clears_guard s a hclears, ?_⟩
  cases a with
  | backend b fails =>
    intro job hb
    simp only [hb] at hpid
    cases hpid
  | acquire | exit | worker | complete | handler => trivial

/-- One `fga_check`, from the first step to the last. -/
def oneCheck : List LatchAct :=
  latched (waitingCheck ++ List.replicate 6 .worker ++ [.complete 0 allowedOutcome] ++ List.replicate 3 (.handler 0) ++
    List.replicate 8 .worker) ++ .waitLatch 0 :: latched (goOn 0 4)

theorem idle_others {acts : List LatchAct} {s : LatchSt} (hrun : run LatchSt.step (.init start) acts = some s)
    {m : Nat} (hpid : ∀ a ∈ acts.filterMap LatchAct.act?, ∀ b ∈ a.pid, b < m) {b : Nat} (hb : m ≤ b) :
    s.chan.backends b = .idle := by
  refine run_backends (latchSt_projects.run acts hrun) fun a ha hab => ?_
  exact absurd (hpid a ha b hab) (Nat.not_lt.2 hb)

theorem comes_to_rest_check : ∃ s, run LatchSt.step (.init start) oneCheck = some s ∧ s.AtRest ∧ s.chan.Quiet := by
  have hend : (run LatchSt.step (.init start) oneCheck).any (fun s => s.chan.worker == .waitLatch &&
      s.chan.latch == false && s.chan.backends 0 == .idle && s.chan.rpcs.all Rpc.finished) = true := by
    decide +kernel
  obtain ⟨s, hs, hall⟩ := (Option.any_eq_true ..).1 hend
  simp only [Bool.and_eq_true, beq_iff_eq, List.all_eq_true] at hall
  obtain ⟨⟨⟨hw, hl⟩, h0⟩, hr⟩ := hall
  have horderly : Meets St.step (fun s a => s.orderly a = true) start (oneCheck.filterMap LatchAct.act?) := by
    decide +kernel
  have hrest : s.AtRest := by
    refine atRest_of (fun b job stage hb => ?_) ⟨hw, hl⟩ hr
    cases b with
    | zero => rw [h0] at hb; cases hb
    | succ b =>
      rw [idle_others hs (m := 1) (by decide +kernel) (by omega)] at hb
      cases hb
  exact ⟨s, hs, hrest, (comes_to_rest (by decide) (by decide) freshSlot (fun _ => 0) oneCheck hs).2 hrest
    (horderly.mono orderly_guard)⟩

/-- `stolenPid`, and on to the end: the worker answers the second `fga_check` and finds no process. -/
def stolenCheck : List LatchAct :=
  earlyWake ++
    latched (.backend 0 true :: goOn 0 2 ++ List.replicate 5 .worker ++
        [.acquire 1 ⟨some (.lit "s"), none⟩ checkViewer, .backend 1 false, .backend 0 false] ++ goOn 1 13 ++
      List.replicate 8 .worker ++ [.complete 0 allowedOutcome] ++ List.replicate 3 (.handler 0) ++
      List.replicate 9 .worker)

/-- **Asleep for good**: the second check waits, its slot is back on the free list, and nobody has a step. -/
theorem asleep_stolen : ∃ s, run LatchSt.step (.init start) stolenCheck = some s ∧ s.AtRest ∧
    s.chan.inWaitLatch 1 = true ∧ s.chan.acquired 1023 = 2 ∧ s.chan.released 1023 = 2 ∧ ¬ s.chan.Quiet := by
  have hend : (run LatchSt.step (.init start) stolenCheck).any (fun s => s.chan.worker == .waitLatch &&
      s.chan.latch == false && s.chan.backends 0 == .idle && s.chan.rpcs.all Rpc.finished &&
      s.chan.inWaitLatch 1 && s.latches 1 == false && s.woken 1 == false && s.chan.acquired 1023 == 2 &&
      s.chan.released 1023 == 2) = true := by
    decide +kernel
  obtain ⟨s, hs, hall⟩ := (Option.any_eq_true ..).1 hend
  simp only [Bool.and_eq_true, beq_iff_eq, List.all_eq_true] at hall
  obtain ⟨⟨⟨⟨⟨⟨⟨⟨hw, hl⟩, h0⟩, hr⟩, hin⟩, hlatch⟩, hwoken⟩, hacq⟩, hrel⟩ := hall
  obtain ⟨job, h1⟩ := inWaitLatch_iff.1 hin
  refine ⟨s, hs, atRest_of (fun b job' stage hb => ?_) ⟨hw, hl⟩ hr, hin, hacq, hrel, fun h => h.backends 1 job _ h1⟩
  match b with
  | 0 => rw [h0] at hb; cases hb
  | 1 =>
    rw [h1] at hb
    cases hb
    exact ⟨rfl, hlatch, hwoken⟩
  | b + 2 =>
    rw [idle_others hs (m := 2) (by decide +kernel) (by omega)] at hb
    cases hb

end PostFga
