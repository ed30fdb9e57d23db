import PostFga.Channel.Accounting
import PostFga.Channel.Isolation
import PostFga.Channel.Stranded
/-
# The pid in a slot

A call writes its pid to the slot it has taken (`channel.c:125`), and the worker finds the process to
wake by it (`:235`). The `PG_CATCH` of `wait_response` takes it back (`:94`), after it has written
CANCELED or released the slot, so that by then the slot may be another call's.

* `PidGuard` — no call takes the pid of a slot back when another has written its own.
* `pidKept_iff` — the pid in the slot of every call is its own all along exactly when every step is so.
-/

namespace PostFga

open Transition

/-! ## Who writes a pid -/

section
variable {s s' : St}

theorem setState_pid (pool : FgaChannelSlotPool) (i : Nat) (st : FgaChannelSlotState) (j : Nat) :
    ((pool.setState i st).slots j).backendPid = (pool.slots j).backendPid := by
  simp only [FgaChannelSlotPool.setState, modify_slots]; split <;> simp_all

theorem setPayload_pid (pool : FgaChannelSlotPool) (i : Nat) (p : FgaPayload) (j : Nat) :
    ((pool.setPayload i p).slots j).backendPid = (pool.slots j).backendPid := by
  simp only [FgaChannelSlotPool.setPayload, modify_slots]; split <;> simp_all

theorem setPid_self (pool : FgaChannelSlotPool) (i : Nat) (pid : Option Nat) :
    ((pool.setPid i pid).slots i).backendPid = pid := by
  simp [FgaChannelSlotPool.setPid, modify_slots]

theorem apply_pid (s : St) {e : SlotEffect} (i j : Nat) (he : ∀ pid, e ≠ .writePid pid) :
    ((s.apply e i).pool.slots j).backendPid = (s.pool.slots j).backendPid := by
  cases e with
  | none => rfl
  | writeState st => exact setState_pid s.pool i st j
  | writePid pid => exact absurd rfl (he pid)
  | release => exact setState_pid s.pool i .empty j

theorem waitStep_pid (st : FgaChannelSlotState) (interrupt : Bool) {pc : WaitPc} (hpc : pc ≠ .catchWritePid)
    (pid : Option Nat) : (waitStep st interrupt pc).1 ≠ .writePid pid := by
  cases pc <;> simp [waitStep] at hpc ⊢

/-- A call writes the pid of its slot when it has taken it, and when an ERROR ends its wait. -/
theorem advance_pid (s : St) (b : Nat) (job : Job) (fails : Bool) {stage : Stage} (hset : stage ≠ .setPid)
    (hcatch : stage ≠ .wait .catchWritePid) (j : Nat) :
    ((s.advance b job fails stage).pool.slots j).backendPid = (s.pool.slots j).backendPid := by
  have hrelease : ((s.apply .release job.slot).pool.slots j).backendPid = (s.pool.slots j).backendPid :=
    apply_pid s (e := .release) job.slot j (by simp)
  cases stage with
  | setPid => exact absurd rfl hset
  | resetPayload => exact setPayload_pid ..
  | fill todo err =>
    cases todo with
    | cons w todo => exact setPayload_pid ..
    | nil =>
      cases err with
      | some e => simp only [St.advance, raise_eq]; rfl
      | none =>
        simp only [St.advance]
        split <;> rfl
  | wait pc =>
    simp only [St.advance, afterWait_eq]
    exact apply_pid s job.slot j (waitStep_pid _ _ fun h => hcatch (by rw [h]))
  | _ =>
    simp only [St.advance, raise_eq]
    repeat' split
    all_goals first
      | rfl
      | exact hrelease

theorem worker_pid (hs : s.stepWorker = some s') (j : Nat) :
    (s'.pool.slots j).backendPid = (s.pool.slots j).backendPid := by
  obtain ⟨e, i, hpool, hpid, -⟩ := stepWorker_pool hs
  rw [hpool]
  exact apply_pid s i j hpid

/-- A step is a call's that writes a pid, or leaves the pids alone. -/
theorem step_pid {a : Act} (hs : s.step a = some s') :
    (∀ j, (s'.pool.slots j).backendPid = (s.pool.slots j).backendPid) ∨
      ∃ b fails job stage, a = .backend b fails ∧ s.backends b = .running job stage ∧
        (stage = .setPid ∨ stage = .wait .catchWritePid) := by
  cases a with
  | acquire b config call =>
    obtain ⟨-, rfl⟩ := step_acquire hs
    unfold St.acquire acquireSlot
    cases hp : s.pool.free.popHead with
    | none => exact Or.inl fun _ => rfl
    | some p => exact Or.inl fun j => setState_pid _ p.1 .pending j
  | backend b fails =>
    obtain ⟨job, stage, hb, rfl⟩ := step_backend hs
    by_cases hstage : stage = .setPid ∨ stage = .wait .catchWritePid
    · exact Or.inr ⟨b, fails, job, stage, rfl, hb, hstage⟩
    · exact Or.inl (advance_pid s b job fails (fun h => hstage (Or.inl h)) fun h => hstage (Or.inr h))
  | exit b =>
    obtain ⟨-, rfl⟩ := step_exit hs
    exact Or.inl fun _ => rfl
  | worker => exact Or.inl (worker_pid hs)
  | complete m o =>
    obtain ⟨r, -, -, rfl⟩ := step_complete hs
    exact Or.inl fun _ => rfl
  | handler m =>
    obtain ⟨r, -, hs⟩ := step_handler hs
    obtain ⟨o, i, todo, -, -, rfl⟩ | ⟨o, i, todo, -, -, rfl⟩ | ⟨o, -, rfl⟩ := stepHandler_cases hs
    · exact Or.inl fun j => setPayload_pid ..
    · exact Or.inl fun _ => rfl
    · exact Or.inl fun _ => rfl

end

/-! ## Whose pid it is -/

/-- The call has taken its slot and written its pid. -/
def Stage.signed : Stage → Bool
  | .setPid => false
  | stage => stage.owns

/-- The slot of every call has its pid. -/
def PidKept (s : St) : Prop :=
  ∀ b job stage, s.backends b = .running job stage → stage.signed = true →
    (s.pool.slots job.slot).backendPid = some b

/-- The `PG_CATCH` of `wait_response` does not take back the pid of another call. -/
def PidGuard (s : St) : Act → Prop
  | .backend b _ => ∀ job, s.backends b = .running job (.wait .catchWritePid) →
      ∀ b' job' stage, s.backends b' = .running job' stage → stage.signed = true → job'.slot ≠ job.slot
  | _ => True

theorem Stage.signed_iff {stage : Stage} : stage.signed = true ↔ stage ≠ .setPid ∧ stage.owns = true := by
  unfold Stage.signed
  split
  · simp
  · rename_i hne
    exact ⟨fun h => ⟨hne, h⟩, fun h => h.2⟩

section
variable {s s' : St}

/-- A call whose slot is its own had it before. -/
theorem advance_owns {b : Nat} {job job' : Job} {fails : Bool} {stage stage' : Stage}
    (h : (s.advance b job fails stage).backends b = .running job' stage') (ho : stage'.owns = true) :
    job'.slot = job.slot ∧ stage.owns = true := by
  obtain ⟨⟨x, hx, hon⟩, -⟩ := advance_backend s b job fails stage
  have hslot : job'.slot = job.slot := hon job' stage' (by rw [← h, hx, Function.update_self])
  refine ⟨hslot, ?_⟩
  have hthrown : ∀ raised, job.thrown raised = .running job' stage' → raised = .before ∨ raised = .response := by
    intro raised he
    unfold Job.thrown at he
    split at he
    · cases he
    · cases he
      cases raised <;> first | exact Or.inl rfl | exact Or.inr rfl | cases ho
  by_contra hno
  cases stage with
  | wait pc =>
    cases pc with
    | catchWritePid =>
      simp only [St.advance, waitStep, St.afterWait, raise_eq, setBackend_self] at h
      rcases hthrown _ h with he | he <;> cases he
    | _ => exact hno rfl
  | formTuple =>
    simp only [St.advance, raise_eq] at h
    split at h
    · rw [setBackend_self] at h
      rcases hthrown _ h with he | he <;> cases he
    · rw [show (s.finish b).backends b = .idle from setBackend_self ..] at h
      cases h
  | catchBlock raised =>
    rw [show (s.advance b job fails (.catchBlock raised)).backends b = .idle from setBackend_self ..] at h
    cases h
  | _ => exact hno rfl

/-- The call that takes the step keeps its pid, or has just written it. -/
theorem pidKept_self (h : PidKept s) {b : Nat} {job job' : Job} {fails : Bool} {stage stage' : Stage}
    (hb : s.backends b = .running job stage)
    (hb' : (s.advance b job fails stage).backends b = .running job' stage') (ho : stage'.signed = true) :
    ((s.advance b job fails stage).pool.slots job'.slot).backendPid = some b := by
  obtain ⟨hslot, howns⟩ := advance_owns hb' (Stage.signed_iff.1 ho).2
  rw [hslot]
  by_cases hset : stage = .setPid
  · subst hset
    exact setPid_self ..
  · have hcatch : stage ≠ .wait .catchWritePid := by
      rintro rfl
      cases howns
    rw [advance_pid s b job fails hset hcatch]
    exact h b job stage hb (Stage.signed_iff.2 ⟨hset, howns⟩)

theorem pidKept_step {n k : Nat} {free : List Nat} (ten : Tenancy n k s free) (h : PidKept s) {a : Act}
    (hg : PidGuard s a) (hs : s.step a = some s') : PidKept s' := by
  intro b job stage hb ho
  by_cases hpid : a.pid = some b
  · cases a with
    | acquire b' config call =>
      cases hpid
      obtain ⟨hidle, rfl⟩ := step_acquire hs
      unfold St.acquire at hb
      split at hb
      · rw [hidle] at hb
        cases hb
      · rw [goto_self] at hb
        cases hb
        cases ho
    | backend b' fails =>
      cases hpid
      obtain ⟨job', stage', hb', rfl⟩ := step_backend hs
      exact pidKept_self h hb' hb ho
    | exit b' =>
      cases hpid
      obtain ⟨-, rfl⟩ := step_exit hs
      rw [setBackend_self] at hb
      cases hb
    | worker | complete | handler => cases hpid
  · have hold := (step_backends hpid hs).symm.trans hb
    obtain hsame | ⟨b', fails, job', stage', rfl, hb', hstage'⟩ := step_pid hs
    · rw [hsame]
      exact h b job stage hold ho
    · obtain ⟨job1, stage1, hb1, rfl⟩ := step_backend hs
      rw [hb'] at hb1
      cases hb1
      have hne : job.slot ≠ job'.slot := by
        rcases hstage' with rfl | rfl
        · -- one slot has one owner
          intro he
          obtain ⟨-, -, -, huniq⟩ := (ten.tenure job'.slot).of_owner hb' rfl rfl
          refine hpid (congrArg some (huniq b ⟨job, stage, hold, (Stage.signed_iff.1 ho).2, he⟩).symm)
        · exact hg job' hb' b job stage hold ho
      rw [advance_slots_ne s b' job' fails stage' hne]
      exact h b job stage hold ho

/-- A call that takes back the pid of another leaves its slot without. -/
theorem pidGuard_of_kept {a : Act} (h : ∀ s', s.step a = some s' → PidKept s') : PidGuard s a := by
  cases a with
  | backend b fails =>
    intro job hb b' job' stage hb' ho he
    have hs : s.step (.backend b fails) = some (s.advance b job fails (.wait .catchWritePid)) := by
      simp only [St.step, hb]
    have hne : b' ≠ b := by
      rintro rfl
      rw [hb] at hb'
      cases hb'
      cases ho
    have hpid : (Act.backend b fails).pid ≠ some b' := fun hp => hne (Option.some.inj hp).symm
    have hstay := (step_backends hpid hs).trans hb'
    have hkept := h _ hs b' job' stage hstay ho
    simp only [St.advance, waitStep, afterWait_eq] at hkept
    rw [he] at hkept
    have hnone : ((s.pool.setPid job.slot none).slots job.slot).backendPid = none := setPid_self ..
    cases hkept.symm.trans hnone
  | acquire | exit | worker | complete | handler => trivial

end

theorem signed_run {n k : Nat} (hn : n ≤ 2 ^ 16) (hk : k ≤ 15) (mem : Nat → FgaChannelSlot)
    (values : Nat → UInt16) (acts : List Act) {s : St}
    (hg : Meets St.step (fun s a => Guard s a ∧ PidGuard s a) (St.init n k mem values) acts)
    (hrun : run St.step (St.init n k mem values) acts = some s) : (∃ free, Tenancy n k s free) ∧ PidKept s :=
  run_inv_of_meets (fun s => (∃ free, Tenancy n k s free) ∧ PidKept s) _
    (fun _ _ _ ⟨⟨_, ten⟩, h⟩ hg hs => ⟨tenancy_step ten hg.1 hs, pidKept_step ten h hg.2 hs⟩) acts
    ⟨⟨_, tenancy_init hn hk mem values⟩, fun _ _ _ hb => by cases hb⟩ hg hrun

/-- **Whose pid a slot has.** -/
theorem pidKept_iff {n k : Nat} (hn : n ≤ 2 ^ 16) (hk : k ≤ 15) (mem : Nat → FgaChannelSlot)
    (values : Nat → UInt16) (acts : List Act) (hg : Meets St.step Guard (St.init n k mem values) acts) :
    Always St.step PidKept (St.init n k mem values) acts ↔ Meets St.step PidGuard (St.init n k mem values) acts := by
  refine always_iff_meets_of_meets (fun s => (∃ free, Tenancy n k s free) ∧ PidKept s) (fun _ h => h.2)
    (fun s a s' ⟨⟨_, ten⟩, h⟩ hg hp hs => ⟨tenancy_step ten hg hs, pidKept_step ten h hp hs⟩)
    (fun s a _ _ h => pidGuard_of_kept h) acts ?_ hg
  exact ⟨⟨_, tenancy_init hn hk mem values⟩, fun b job stage hb => by cases hb⟩

/-- An `fga_check` is cancelled in its wait and the worker releases its slot, which another `fga_check`
takes and signs; then the first one takes the pid back. -/
def stolenPid : List Act :=
  waitingCheck ++ .backend 0 true :: goOn 0 2 ++ List.replicate 5 .worker ++
    [.acquire 1 ⟨some (.lit "s"), none⟩ checkViewer, .backend 1 false, .backend 0 false]

theorem pidKept_iff_stolen : ¬ Always St.step PidKept start stolenPid ∧ ¬ Meets St.step PidGuard start stolenPid := by
  have hend : (run St.step start stolenPid).any (fun s =>
      s.backends 1 == .running ⟨⟨some (.lit "s"), none⟩, checkViewer, 1023, 0⟩ .resetPayload &&
      (s.pool.slots 1023).backendPid == none) = true := by decide +kernel
  obtain ⟨s, hs, hall⟩ := (Option.any_eq_true ..).1 hend
  simp only [Bool.and_eq_true, beq_iff_eq] at hall
  obtain ⟨hb, hpid⟩ := hall
  have hplain : Meets St.step (fun s a => s.plain a = true) start stolenPid := by decide +kernel
  have hnot : ¬ Always St.step PidKept start stolenPid := by
    intro h
    cases (h.last hs 1 _ _ hb rfl).symm.trans hpid
  refine ⟨hnot, fun hp => hnot ?_⟩
  exact (pidKept_iff (by decide) (by decide) freshSlot (fun _ => 0) stolenPid
    (hplain.mono fun s a h => (plain_guard s a h).1)).2 hp

end PostFga
