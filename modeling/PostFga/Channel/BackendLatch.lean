import PostFga.Channel.SlotPid
import PostFga.Lib.Simulation
/-
# The backends' latches

`wait_response` (`channel.c:66`) blocks in `WaitLatch` on the backend's own latch. The worker sets it
in `fga_channel_wake_backend` (`:233`), when it has found the process of `backend_pid`; signals and the
rest of PostgreSQL set it at any time, and reset it between two calls.

| here | there |
| --- | --- |
| `LatchSt.latches`     | `MyProc->procLatch` of each backend |
| `LatchAct.waitLatch`, `LatchSt.woken` | `WaitLatch` returns (`channel.c:72`) |
| `St.resets`           | `ResetLatch` and `CHECK_FOR_INTERRUPTS` (`:75`, `:77`); a signal has set the latch before |
| `St.wakes`            | `SetLatch(&proc->procLatch)` (`:238`) |

* `latched_run_iff` — connects `LatchSt` with `St`: a step with the latches is a step of the channel or none,
  and since anybody may set a latch, every run of the channel is one with them. What the steps of the channel
  do plays no part in it.
* `attentive_run` — a backend asleep on a slot that is DONE is about to be woken, if the slot still
  has its pid.
-/

namespace PostFga

open Transition

structure LatchSt where
  chan : St
  latches : Nat → Bool
  /-- `WaitLatch` has returned, and `ResetLatch` is to come. -/
  woken : Nat → Bool

inductive LatchAct where
  | act (a : Act)
  /-- A signal, or whoever else has the process wake up. -/
  | setLatch (pid : Nat)
  /-- Not in a call. -/
  | resetLatch (pid : Nat)
  | waitLatch (pid : Nat)

/-- The step of the channel. -/
def LatchAct.act? : LatchAct → Option Act
  | .act a => some a
  | _ => none

def St.inWaitLatch (s : St) (b : Nat) : Bool :=
  match s.backends b with
  | .running _ (.wait .waitLatch) => true
  | _ => false

/-- The process that resets its latch. -/
def St.resets (s : St) : Act → Option Nat
  | .backend b _ => if s.inWaitLatch b then some b else none
  | _ => none

/-- The process whose latch the worker sets. -/
def St.wakes (s : St) : Act → Option Nat
  | .worker =>
    match s.worker with
    | .handle i .lookup _ => if s.found i then (s.pool.slots i).backendPid else none
    | _ => none
  | _ => none

def setFlag (flags : Nat → Bool) (pid : Option Nat) (v : Bool) : Nat → Bool :=
  match pid with
  | none => flags
  | some b => Function.update flags b v

namespace LatchSt

def step (s : LatchSt) : LatchAct → Option LatchSt
  | .act a =>
    let reset := s.chan.resets a
    if reset.all s.woken then
      (s.chan.step a).map fun chan =>
        { chan := chan
          latches := setFlag (setFlag s.latches reset false) (s.chan.wakes a) true
          woken := setFlag s.woken reset false }
    else none
  | .setLatch b => some { s with latches := Function.update s.latches b true }
  | .resetLatch b =>
    match s.chan.backends b with
    | .running .. => none
    | _ => some { s with latches := Function.update s.latches b false }
  | .waitLatch b =>
    if s.chan.inWaitLatch b && s.latches b && !s.woken b then
      some { s with woken := Function.update s.woken b true }
    else none

def init (chan : St) : LatchSt := ⟨chan, fun _ => false, fun _ => false⟩

end LatchSt

/-! ## What a step is -/

section
variable {s s' : LatchSt}

theorem step_act {a : Act} (hs : s.step (.act a) = some s') :
    (∀ b, s.chan.resets a = some b → s.woken b = true) ∧ s.chan.step a = some s'.chan ∧
      s'.latches = setFlag (setFlag s.latches (s.chan.resets a) false) (s.chan.wakes a) true ∧
      s'.woken = setFlag s.woken (s.chan.resets a) false := by
  simp only [LatchSt.step, Option.ite_none_right_eq_some, Option.map_eq_some_iff] at hs
  obtain ⟨hall, chan, hchan, rfl⟩ := hs
  refine ⟨fun b hb => ?_, hchan, rfl, rfl⟩
  rw [hb] at hall
  exact hall

theorem step_act_of {a : Act} {t : St} (hw : ∀ b, s.chan.resets a = some b → s.woken b = true)
    (hs : s.chan.step a = some t) : s.step (.act a) = some
      { chan := t
        latches := setFlag (setFlag s.latches (s.chan.resets a) false) (s.chan.wakes a) true
        woken := setFlag s.woken (s.chan.resets a) false } := by
  have hall : (s.chan.resets a).all s.woken = true := by
    cases hr : s.chan.resets a with
    | none => rfl
    | some b => exact hw b hr
  simp only [LatchSt.step, hall, hs, if_true, Option.map_some]

theorem step_setLatch {b : Nat} (hs : s.step (.setLatch b) = some s') :
    { s with latches := Function.update s.latches b true } = s' := Option.some.inj hs

theorem step_resetLatch {b : Nat} (hs : s.step (.resetLatch b) = some s') :
    (∀ job stage, s.chan.backends b ≠ .running job stage) ∧
      { s with latches := Function.update s.latches b false } = s' := by
  simp only [LatchSt.step] at hs
  split at hs
  · cases hs
  · rename_i hne
    exact ⟨hne, Option.some.inj hs⟩

theorem step_waitLatch {b : Nat} (hs : s.step (.waitLatch b) = some s') :
    s.chan.inWaitLatch b = true ∧ s.latches b = true ∧ s.woken b = false ∧
      { s with woken := Function.update s.woken b true } = s' := by
  simp only [LatchSt.step, Option.ite_none_right_eq_some, Bool.and_eq_true, Bool.not_eq_true'] at hs
  obtain ⟨⟨⟨hin, hl⟩, hw⟩, hs⟩ := hs
  exact ⟨hin, hl, hw, Option.some.inj hs⟩

theorem step_waitLatch_of {b : Nat} (hin : s.chan.inWaitLatch b = true) (hl : s.latches b = true)
    (hw : s.woken b = false) : s.step (.waitLatch b) = some { s with woken := Function.update s.woken b true } := by
  simp only [LatchSt.step, hin, hl, hw, Bool.and_self, Bool.not_false, if_true]

theorem inWaitLatch_iff {s : St} {b : Nat} :
    s.inWaitLatch b = true ↔ ∃ job, s.backends b = .running job (.wait .waitLatch) := by
  unfold St.inWaitLatch
  constructor
  · intro h
    split at h
    · rename_i job hb
      exact ⟨job, hb⟩
    · cases h
  · rintro ⟨job, hb⟩
    rw [hb]

theorem resets_eq_some {s : St} {a : Act} {b : Nat} (h : s.resets a = some b) :
    ∃ fails, a = .backend b fails ∧ s.inWaitLatch b = true := by
  unfold St.resets at h
  split at h
  · split at h
    · rename_i fails hin
      cases h
      exact ⟨fails, rfl, hin⟩
    · cases h
  · cases h

theorem setFlag_of_ne {flags : Nat → Bool} {pid : Option Nat} {v : Bool} {b : Nat} (h : pid ≠ some b) :
    setFlag flags pid v b = flags b := by
  cases pid with
  | none => rfl
  | some b' => exact Function.update_of_ne (fun he : b = b' => h (by rw [he])) v flags

@[simp] theorem setFlag_self (flags : Nat → Bool) (b : Nat) (v : Bool) : setFlag flags (some b) v b = v :=
  Function.update_self ..

end

/-! ## With and without the latches -/

theorem latchSt_projects : Projects LatchSt.step St.step LatchSt.chan LatchAct.act? where
  seen s a s' b hb hs := by
    cases a with
    | act a =>
      cases hb
      exact (step_act hs).2.1
    | setLatch | resetLatch | waitLatch => cases hb
  unseen s a s' hb hs := by
    cases a with
    | act a => cases hb
    | setLatch b =>
      obtain rfl := step_setLatch hs
      rfl
    | resetLatch b =>
      obtain ⟨-, rfl⟩ := step_resetLatch hs
      rfl
    | waitLatch b =>
      obtain ⟨-, -, -, rfl⟩ := step_waitLatch hs
      rfl

/-- A step that resets a latch is made where somebody has set it and `WaitLatch` has returned. -/
theorem exists_latched_run {s : LatchSt} (acts : List Act) {t : St} (hr : run St.step s.chan acts = some t) :
    ∃ acts' t', run LatchSt.step s acts' = some t' ∧ acts'.filterMap LatchAct.act? = acts ∧ t'.chan = t := by
  refine exists_run_over (fun _ => True) (fun s a t _ hs => ?_) acts trivial hr
  by_cases hw : ∀ b, s.chan.resets a = some b → s.woken b = true
  · exact ⟨[.act a], _, run_cons.2 ⟨_, step_act_of hw hs, rfl⟩, rfl, rfl, trivial⟩
  · obtain ⟨b, hb⟩ := Classical.not_forall.1 hw
    obtain ⟨hreset, hwoken⟩ := Classical.not_imp.1 hb
    obtain ⟨fails, rfl, hin⟩ := resets_eq_some hreset
    let s1 : LatchSt := { s with latches := Function.update s.latches b true }
    let s2 : LatchSt := { s1 with woken := Function.update s1.woken b true }
    have h2 : s1.step (.waitLatch b) = some s2 :=
      step_waitLatch_of hin (Function.update_self ..) (Bool.eq_false_iff.2 hwoken)
    have h3 : ∀ b', s2.chan.resets (.backend b fails) = some b' → s2.woken b' = true := by
      intro b' hb'
      obtain rfl : b = b' := Option.some.inj (hreset.symm.trans hb')
      exact Function.update_self ..
    exact ⟨[.setLatch b, .waitLatch b, .act (.backend b fails)], _,
      run_cons.2 ⟨s1, rfl, run_cons.2 ⟨s2, h2, run_cons.2 ⟨_, step_act_of h3 hs, rfl⟩⟩⟩, rfl, rfl, trivial⟩

/-- The runs of the channel are those with the latches, spurious wake-ups included. -/
theorem latched_run_iff (s : LatchSt) (acts : List Act) (t : St) :
    (∃ acts' t', run LatchSt.step s acts' = some t' ∧ acts'.filterMap LatchAct.act? = acts ∧ t'.chan = t) ↔
      run St.step s.chan acts = some t := by
  constructor
  · rintro ⟨acts', t', hr, rfl, rfl⟩
    exact latchSt_projects.run acts' hr
  · exact exists_latched_run acts

/-! ## Who writes DONE, who moves the worker and who enters `WaitLatch` -/

section
variable {s s' : St}

theorem worker_done {i : Nat} (hs : s.stepWorker = some s') (h : (s'.pool.slots i).state = .done) :
    (s.pool.slots i).state = .done ∨ s'.LooksUp i := by
  obtain ⟨e, j, hpool, -, hdone⟩ := stepWorker_pool hs
  rw [hpool] at h
  by_cases he : e = .writeState .done
  · subst he
    by_cases hj : i = j
    · subst hj
      exact Or.inr (hdone rfl)
    · rw [apply_slots_ne s _ hj] at h
      exact Or.inl h
  · exact Or.inl (apply_done s e he j i h)

/-- A slot becomes DONE by the worker, who goes on to look its process up. -/
theorem step_done {a : Act} {i : Nat} (hs : s.step a = some s') (h : (s'.pool.slots i).state = .done) :
    (s.pool.slots i).state = .done ∨ s'.LooksUp i := by
  cases a with
  | acquire b config call =>
    obtain ⟨-, rfl⟩ := step_acquire hs
    unfold St.acquire acquireSlot at h
    cases hp : s.pool.free.popHead with
    | none =>
      simp only [hp, Option.map_none] at h
      exact Or.inl h
    | some p =>
      simp only [hp, Option.map_some] at h
      exact Or.inl (apply_done { s with pool.free := p.2 } (.writeState .pending) (by simp) p.1 i h)
  | backend b fails =>
    obtain ⟨job, stage, -, rfl⟩ := step_backend hs
    exact Or.inl ((advance_slots s b job fails stage i).1 h)
  | exit b =>
    obtain ⟨-, rfl⟩ := step_exit hs
    exact Or.inl h
  | worker => exact worker_done hs h
  | complete m o =>
    obtain ⟨r, -, -, rfl⟩ := step_complete hs
    exact Or.inl h
  | handler m =>
    obtain ⟨r, -, hs⟩ := step_handler hs
    obtain ⟨o, j, todo, -, -, rfl⟩ | ⟨o, j, todo, -, -, rfl⟩ | ⟨o, -, rfl⟩ := stepHandler_cases hs
    · exact Or.inl ((setPayload_state s.pool j _ i).symm.trans h)
    · exact Or.inl h
    · exact Or.inl h

/-- A call comes to `WaitLatch` from a read of its slot's state that was not DONE. -/
theorem advance_waitLatch {b : Nat} {job job' : Job} {fails : Bool} {stage : Stage}
    (h : (s.advance b job fails stage).backends b = .running job' (.wait .waitLatch)) :
    stage = .wait .readState ∧ job' = job ∧ (s.pool.slots job.slot).state ≠ .done := by
  have hthrown : ∀ raised, job.thrown raised ≠ .running job' (.wait .waitLatch) := by
    intro raised he
    unfold Job.thrown at he
    split at he <;> cases he
  cases stage with
  | wait pc =>
    simp only [St.advance, afterWait_eq, setBackend_self] at h
    cases pc with
    | readState =>
      simp only [waitStep] at h
      split at h
      · rename_i hst
        cases hst' : (s.pool.slots job.slot).state <;> rw [hst'] at h <;> cases h
      · rename_i hst
        cases h
        exact ⟨rfl, rfl, fun hd => hst (Or.inl hd)⟩
    | waitLatch => cases fails <;> cases h
    | catchReadState => cases hst : (s.pool.slots job.slot).state <;> simp only [hst, waitStep] at h <;> cases h
    | catchCancel | catchRelease => cases h
    | catchWritePid => exact absurd h (hthrown .execute)
  | fill todo err =>
    cases todo with
    | cons w todo =>
      simp only [St.advance, goto_self] at h
      cases h
    | nil =>
      cases err with
      | some e =>
        simp only [St.advance, raise_eq, setBackend_self] at h
        exact absurd h (hthrown .before)
      | none =>
        simp only [St.advance] at h
        split at h
        · rw [goto_self] at h
          cases h
        · rw [goto_self] at h
          cases h
  | _ =>
    simp only [St.advance, raise_eq] at h
    repeat' split at h
    all_goals first
      | (rw [goto_self] at h; cases h)
      | (rw [setBackend_self] at h; exact absurd h (hthrown _))
      | (rw [show (St.finish _ b).backends b = _ from setBackend_self ..] at h; cases h)

end

/-! ## Who sleeps on a slot that is DONE -/

structure Attentive (s : LatchSt) : Prop where
  /-- A process past `WaitLatch` has not reset its latch. -/
  woken : ∀ b, s.woken b = true → s.chan.inWaitLatch b = true ∧ s.latches b = true
  /-- One in `WaitLatch`, on a slot that is DONE and has its pid, is woken or about to be. -/
  done : ∀ b job, s.chan.backends b = .running job (.wait .waitLatch) →
    (s.chan.pool.slots job.slot).state = .done → (s.chan.pool.slots job.slot).backendPid = some b →
    s.latches b = true ∨ s.chan.LooksUp job.slot

section
variable {s s' : LatchSt}

/-- A process in `WaitLatch` that does not reset its latch stays there. -/
theorem inWaitLatch_stays {s s' : St} {a : Act} {b : Nat} (hin : s.inWaitLatch b = true)
    (hreset : s.resets a ≠ some b) (hs : s.step a = some s') : s'.backends b = s.backends b := by
  obtain ⟨job, hb⟩ := inWaitLatch_iff.1 hin
  refine step_backends (fun hpid => ?_) hs
  cases a with
  | acquire b' config call =>
    cases hpid
    rw [(step_acquire hs).1] at hb
    cases hb
  | backend b' fails =>
    cases hpid
    exact hreset (by simp only [St.resets, hin, if_true])
  | exit b' =>
    cases hpid
    rw [(step_exit hs).1] at hb
    cases hb
  | worker | complete | handler => cases hpid

/-- A latch that is set stays set while its process does not reset it. -/
theorem latch_stays {a : Act} {b : Nat} (hs : s.step (.act a) = some s') (hreset : s.chan.resets a ≠ some b)
    (hl : s.latches b = true) : s'.latches b = true := by
  obtain ⟨-, -, hlatches, -⟩ := step_act hs
  rw [hlatches]
  by_cases hw : s.chan.wakes a = some b
  · rw [hw, setFlag_self]
  · rw [setFlag_of_ne hw, setFlag_of_ne hreset, hl]

/-- The look-up of a slot finds the process in `WaitLatch` whose pid it has, and sets its latch. -/
theorem looksUp_wakes {s s' : St} {b : Nat} {job : Job} {stage : Stage} (hb : s.backends b = .running job stage)
    {i : Nat} (hpid : (s.pool.slots i).backendPid = some b) (hl : s.LooksUp i) {a : Act}
    (hs : s.step a = some s') : s.wakes a = some b ∨ s'.LooksUp i := by
  by_cases ha : a = .worker
  · subst ha
    obtain ⟨rest, hw⟩ := hl
    have hfound : s.found i = true := by
      unfold St.found
      rw [hpid]
      simp [hb]
    exact Or.inl (by simp only [St.wakes, hw, hfound, if_true, hpid])
  · exact Or.inr (by unfold St.LooksUp; rw [step_worker_stays ha hs]; exact hl)

/-- Nobody but a process itself writes its pid to a slot. -/
theorem pid_before {s s' : St} {a : Act} (hs : s.step a = some s') {b i : Nat}
    (hb : s'.backends b = s.backends b) {job : Job} {stage : Stage} (hrun : s.backends b = .running job stage)
    (hstage : stage = .wait .waitLatch) (hpid : (s'.pool.slots i).backendPid = some b) :
    (s.pool.slots i).backendPid = some b := by
  subst hstage
  obtain hsame | ⟨b', fails, job', stage', rfl, hb', hstage'⟩ := step_pid hs
  · rw [← hsame i, hpid]
  · obtain ⟨job1, stage1, hb1, rfl⟩ := step_backend hs
    rw [hb'] at hb1
    cases hb1
    by_cases hi : i = job'.slot
    · subst hi
      rcases hstage' with rfl | rfl
      · rw [show ((s.advance b' job' fails .setPid).pool.slots job'.slot).backendPid = some b' from
          setPid_self ..] at hpid
        obtain rfl : b' = b := Option.some.inj hpid
        rw [hrun] at hb'
        cases hb'
      · have hnone : ((s.advance b' job' fails (.wait .catchWritePid)).pool.slots job'.slot).backendPid = none := by
          simp only [St.advance, afterWait_eq]
          exact setPid_self ..
        rw [hnone] at hpid
        cases hpid
    · rwa [advance_slots_ne s b' job' fails stage' hi] at hpid

theorem attentive_act (h : Attentive s) {a : Act} (hs : s.step (.act a) = some s') : Attentive s' := by
  obtain ⟨-, hchan, -, hwoken⟩ := step_act hs
  refine ⟨fun b hb => ?_, fun b job hb hst hpid => ?_⟩
  · rw [hwoken] at hb
    have hreset : s.chan.resets a ≠ some b := by
      intro he
      rw [he, setFlag_self] at hb
      cases hb
    rw [setFlag_of_ne hreset] at hb
    obtain ⟨hin, hl⟩ := h.woken b hb
    have hsame := inWaitLatch_stays hin hreset hchan
    obtain ⟨job, hjob⟩ := inWaitLatch_iff.1 hin
    exact ⟨inWaitLatch_iff.2 ⟨job, hsame.trans hjob⟩, latch_stays hs hreset hl⟩
  · by_cases hin : s.chan.inWaitLatch b = true ∧ s.chan.resets a ≠ some b
    · have hsame := inWaitLatch_stays hin.1 hin.2 hchan
      have hrun := hsame.symm.trans hb
      have hold := pid_before hchan hsame hrun rfl hpid
      rcases step_done hchan hst with hd | hlook
      · rcases h.done b job hrun hd hold with hl | hlook
        · exact Or.inl (latch_stays hs hin.2 hl)
        · refine (looksUp_wakes hrun hold hlook hchan).imp_left fun hw => ?_
          rw [(step_act hs).2.2.1, hw, setFlag_self]
      · exact Or.inr hlook
    · -- it comes from a read of the state, which was not DONE
      refine (step_done hchan hst).imp_left fun hd => absurd hd ?_
      have hpid : a.pid = some b := by
        by_contra hne
        have hsame := step_backends hne hchan
        refine hin ⟨inWaitLatch_iff.2 ⟨job, hsame.symm.trans hb⟩, fun hreset => ?_⟩
        obtain ⟨fails, rfl, -⟩ := resets_eq_some hreset
        exact hne rfl
      cases a with
      | acquire b' config call =>
        cases hpid
        obtain ⟨hidle, he⟩ := step_acquire hchan
        rw [← he] at hb
        unfold St.acquire at hb
        split at hb
        · rw [hidle] at hb
          cases hb
        · rw [goto_self] at hb
          cases hb
      | backend b' fails =>
        cases hpid
        obtain ⟨job', stage, -, he⟩ := step_backend hchan
        rw [← he] at hb
        obtain ⟨-, rfl, hne⟩ := advance_waitLatch hb
        exact hne
      | exit b' =>
        cases hpid
        obtain ⟨-, he⟩ := step_exit hchan
        rw [← he, setBackend_self] at hb
        cases hb
      | worker | complete | handler => cases hpid

theorem attentive_step (s : LatchSt) (a : LatchAct) (s' : LatchSt) (h : Attentive s) (hs : s.step a = some s') :
    Attentive s' := by
  cases a with
  | act a => exact attentive_act h hs
  | setLatch b =>
    obtain rfl := step_setLatch hs
    have hup : ∀ b', s.latches b' = true → Function.update s.latches b true b' = true := by
      intro b' hl
      rw [Function.update_apply]
      split
      · rfl
      · exact hl
    refine ⟨fun b' hw => ?_, fun b' job hb hst hpid => (h.done b' job hb hst hpid).imp_left (hup b')⟩
    exact ⟨(h.woken b' hw).1, hup b' (h.woken b' hw).2⟩
  | resetLatch b =>
    obtain ⟨hidle, rfl⟩ := step_resetLatch hs
    have hother : ∀ b' job stage, s.chan.backends b' = .running job stage →
        Function.update s.latches b false b' = s.latches b' := by
      intro b' job stage hb
      refine Function.update_of_ne ?_ ..
      rintro rfl
      exact hidle job stage hb
    refine ⟨fun b' hw => ?_, fun b' job hb hst hpid => ?_⟩
    · obtain ⟨hin, hl⟩ := h.woken b' hw
      obtain ⟨job, hb⟩ := inWaitLatch_iff.1 hin
      exact ⟨hin, (hother b' job _ hb).trans hl⟩
    · exact (h.done b' job hb hst hpid).imp_left (hother b' job _ hb).trans
  | waitLatch b =>
    obtain ⟨hin, hl, -, rfl⟩ := step_waitLatch hs
    refine ⟨fun b' hw => ?_, h.done⟩
    by_cases hb : b' = b
    · subst hb
      exact ⟨hin, hl⟩
    · have hw' : Function.update s.woken b true b' = true := hw
      rw [Function.update_of_ne hb] at hw'
      exact h.woken b' hw'

theorem attentive_init (n k : Nat) (mem : Nat → FgaChannelSlot) (values : Nat → UInt16) :
    Attentive (.init (St.init n k mem values)) :=
  ⟨fun _ hw => (by cases hw), fun _ _ hb => (by cases hb)⟩

/-- **No lost wake-up.** -/
theorem attentive_run {n k : Nat} {mem : Nat → FgaChannelSlot} {values : Nat → UInt16}
    (acts : List LatchAct) {s : LatchSt}
    (hrun : run LatchSt.step (.init (St.init n k mem values)) acts = some s) : Attentive s :=
  run_inv Attentive attentive_step acts (attentive_init n k mem values) hrun

end

def latched (acts : List Act) : List LatchAct := acts.map .act

/-- A latch set by somebody else, and the wake-up. -/
def earlyWake : List LatchAct := latched waitingCheck ++ [.setLatch 0, .waitLatch 0]

/-- A check that is asleep while its slot becomes DONE. -/
def doneAsleep : List LatchAct :=
  latched (waitingCheck ++ List.replicate 6 .worker ++ .complete 0 allowedOutcome :: List.replicate 3 (.handler 0) ++
    List.replicate 7 .worker)

/-- The worker is at the look-up, its next step sets the latch, and the check wakes up. -/
theorem attentive_run_done : ∃ s s', run LatchSt.step (.init start) doneAsleep = some s ∧
    s.chan.inWaitLatch 0 = true ∧ (s.chan.pool.slots 1023).state = .done ∧ s.latches 0 = false ∧ Attentive s ∧
    s.chan.worker = .handle 1023 .lookup [] ∧
    run LatchSt.step s [.act .worker, .waitLatch 0] = some s' ∧ s'.woken 0 = true ∧ Attentive s' := by
  have hall : (run LatchSt.step (.init start) doneAsleep).any (fun s =>
      (s.chan.inWaitLatch 0 && (s.chan.pool.slots 1023).state == .done && !s.latches 0 &&
        s.chan.worker == .handle 1023 .lookup []) &&
      (run LatchSt.step s [.act .worker, .waitLatch 0]).any fun s' => s'.woken 0) = true := by decide +kernel
  obtain ⟨s, hs, hall⟩ := (Option.any_eq_true ..).1 hall
  simp only [Bool.and_eq_true, beq_iff_eq, Bool.not_eq_true'] at hall
  obtain ⟨⟨⟨⟨hin, hdone⟩, hlatch⟩, hlook⟩, hwake⟩ := hall
  obtain ⟨s', hs', hwoken⟩ := (Option.any_eq_true ..).1 hwake
  exact ⟨s, s', hs, hin, hdone, hlatch, attentive_run doneAsleep hs, hlook, hs', hwoken,
    attentive_run (doneAsleep ++ [.act .worker, .waitLatch 0]) (run_append.2 ⟨s, hs, hs'⟩)⟩

end PostFga
