import PostFga.Channel.TenancyWorker
/-
# Every slot comes back

The releases of a slot are split over the function, `fga_channel_execute_slot` with `wait_response`, and
the worker. `Duty` says who is still to release a slot that nobody owns: the worker, when it finds the
entry that names the slot, or when it finds no process to wake.

* `AccountGuard` — which branches must not be taken.
* `accounted_run` — in every run in which they are not, a slot has been released once for every time it was
  acquired, but for a tenancy that lasts; when nothing is under way every slot is free, once.
* `leaked_check` — an `fga_check` with no store configured.
-/

namespace PostFga

open Transition

/-- An entry names the slot. -/
def St.Named (s : St) (i : Nat) : Prop := i ∈ s.waiting ∨ i ∈ s.taken

/-- The worker is about to look up the pid in the slot. -/
def St.LooksUp (s : St) (i : Nat) : Prop := ∃ rest, s.worker = .handle i .lookup rest

/-- The worker has found no process to wake. -/
def St.GivesUp (s : St) (i : Nat) : Prop := ∃ rest, s.worker = .handle i .releaseUnfound rest

/-- A `PG_CATCH` of `wait_response` has read PENDING or PROCESSING and is about to write CANCELED. -/
def St.Cancelling (s : St) (i : Nat) : Prop :=
  ∃ b job, s.backends b = .running job (.wait .catchCancel) ∧ job.slot = i

/-- Who is to release a slot that nobody owns. -/
structure Duty (n : Nat) (s : St) (i : Nat) : Prop where
  lost : i < n → s.Lost i → s.worker.waking = some i
  givesUp : s.GivesUp i → s.Lost i
  cancelling : s.Cancelling i → (s.pool.slots i).state = .done → s.LooksUp i

section
variable {n k : Nat} {s s' : St} {free free' : List Nat} {i : Nat}

theorem lost_iff : s.Lost i ↔
    (s.pool.slots i).state ≠ .empty ∧ (∀ b, ¬ (s.backends b).Owns i) ∧ ¬ s.Named i := by
  unfold St.Lost St.Named
  rw [not_or]

theorem waking_iff : s.worker.waking = some i ↔ s.LooksUp i ∨ s.GivesUp i := by
  unfold St.LooksUp St.GivesUp WorkerPc.waking
  constructor
  · intro h
    split at h
    · rename_i hw; cases h; exact Or.inl ⟨_, hw⟩
    · rename_i hw; cases h; exact Or.inr ⟨_, hw⟩
    · cases h
  · rintro (⟨rest, hw⟩ | ⟨rest, hw⟩) <;> rw [hw]

/-- The worker's position says as much about the slot as before, and what names it as well; or it says
nothing, before or after, and what named the slot names it still. -/
def SameDuty (s s' : St) (i : Nat) : Prop :=
  s'.worker = s.worker ∧ (s'.Named i ↔ s.Named i) ∨
    s.worker.waking ≠ some i ∧ s'.worker.waking ≠ some i ∧ (s.Named i → s'.Named i)

/-- Slots that a step does not take from anyone and gives to nobody. -/
theorem Duty.frame (h : Duty n s i) (hB : SameOwner s.backends s'.backends i)
    (hempty : (s'.pool.slots i).state = .empty ↔ (s.pool.slots i).state = .empty)
    (hdone : (s'.pool.slots i).state = .done → (s.pool.slots i).state = .done)
    (hw : SameDuty s s' i) : Duty n s' i := by
  have howns := hB.owns
  have hcancel : s'.Cancelling i → s.Cancelling i := by
    rintro ⟨b, job, hb, hi⟩
    exact ⟨b, job, (hB b job _ rfl hi).1 hb, hi⟩
  rcases hw with ⟨hw, hnamed⟩ | ⟨hw, hw', hnamed⟩
  · have hlost : s'.Lost i ↔ s.Lost i := by
      rw [lost_iff, lost_iff]
      exact and_congr (not_congr hempty) (and_congr (forall_congr' fun b => not_congr (howns b))
        (not_congr hnamed))
    refine ⟨fun hn hl => ?_, fun hg => ?_, fun hc hst => ?_⟩
    · rw [hw]
      exact h.lost hn (hlost.1 hl)
    · refine hlost.2 (h.givesUp ?_)
      unfold St.GivesUp at hg ⊢
      rwa [hw] at hg
    · have hl := h.cancelling (hcancel hc) (hdone hst)
      unfold St.LooksUp at hl ⊢
      rwa [hw]
  · refine ⟨fun hn hl => ?_, fun hg => ?_, fun hc hst => ?_⟩
    · obtain ⟨hst, ho, hno⟩ := lost_iff.1 hl
      refine absurd (h.lost hn (lost_iff.2 ⟨fun he => hst (hempty.2 he), fun b hb => ho b ((howns b).2 hb), ?_⟩)) hw
      exact fun hold => hno (hnamed hold)
    · exact absurd (waking_iff.2 (Or.inr hg)) hw'
    · exact absurd (waking_iff.2 (Or.inl (h.cancelling (hcancel hc) (hdone hst)))) hw

/-- A slot that a call owns. -/
theorem Duty.of_owner {b : Nat} (hb : (s.backends b).Owns i) (hg : ¬ s.GivesUp i)
    (hc : s.Cancelling i → (s.pool.slots i).state = .done → s.LooksUp i) : Duty n s i :=
  ⟨fun _ hl => absurd hb (hl.2.1 b), fun h => absurd h hg, hc⟩

/-! ## Steps of a call -/

theorem named_congr (hq : s'.queue = s.queue) (hw : s'.worker = s.worker) (hr : s'.rpcs = s.rpcs)
    (hc : s'.completed = s.completed) : s'.Named i ↔ s.Named i := by
  unfold St.Named
  rw [waiting_congr hq hw, taken_congr hw hr hc]

/-- A step of a call moves no entry of another slot. -/
theorem advance_named (ten : Tenancy n k s free) {b : Nat} {job : Job} {stage : Stage}
    (hb : s.backends b = .running job stage) (fails : Bool) {j : Nat} (hj : j ≠ job.slot) :
    (s.advance b job fails stage).Named j ↔ s.Named j := by
  obtain ⟨hworker, hrpcs, hcompleted, -, hqueue⟩ := advance_lists s b job fails stage
  by_cases hstage : stage = .fill [] none
  · subst hstage
    obtain ⟨hn, -⟩ := (ten.tenure job.slot).of_owner hb rfl rfl
    simp only [St.advance]
    cases hq : queueEnqueue s.queue (.ofNat job.slot) with
    | none => exact Iff.rfl
    | some queue =>
      have hcount := tenancy_enqueue_waiting ten hn hq b j
      rw [if_neg (Ne.symm hj), Nat.add_zero] at hcount
      refine or_congr ?_ Iff.rfl
      rw [← List.count_pos_iff, hcount, List.count_pos_iff]
  · exact named_congr (hqueue hstage) hworker hrpcs hcompleted

theorem named_iff : s.Named i ↔ 0 < s.waiting.count i + s.taken.count i := by
  unfold St.Named
  rw [← List.count_pos_iff, ← List.count_pos_iff]
  omega

theorem named_mem : s.Named i ↔
    (i ∈ (queueContents s.queue).map UInt16.toNat ∨ i ∈ s.worker.todo) ∨
      i ∈ s.worker.begun ∨ i ∈ s.rpcs.flatMap Rpc.todo ∨ i ∈ s.completed := by
  unfold St.Named
  rw [mem_waiting, mem_taken]

/-- The worker comes to a slot to wake its backend by the write of DONE. -/
theorem worker_waking (hs : s.stepWorker = some s') (h : s'.worker.waking = some i) :
    (∃ rest, s.worker = .handle i .writeDone rest) ∨ s.LooksUp i := by
  cases hw : s.worker with
  | waitLatch =>
    obtain ⟨-, rfl⟩ := stepWorker_waitLatch hw hs
    cases h
  | begin todo begun =>
    cases todo with
    | nil =>
      simp only [St.stepWorker, hw, Option.some.injEq] at hs
      subst hs
      cases h
    | cons j todo =>
      simp only [St.stepWorker, hw, Option.some.injEq] at hs
      subst hs
      cases hst : (s.pool.slots j).state <;> simp only [hst, beginCas] at h <;> cases h
  | swap =>
    simp only [St.stepWorker, hw, Option.some.injEq] at hs
    subst hs
    rw [show (St.handleNext s.completed).waking = _ from handleNext_waking _] at h
    cases h
  | handle j pc rest =>
    simp only [St.stepWorker, hw, Option.some.injEq] at hs
    subst hs
    cases pc with
    | readState =>
      by_cases hst : (s.pool.slots j).state = .canceled
      · simp only [handleStep, hst, if_true] at h
        cases h
      · simp only [handleStep, hst, if_false] at h
        cases h
    | writeDone =>
      cases h
      exact Or.inl ⟨rest, rfl⟩
    | lookup =>
      cases hfound : s.found j with
      | true =>
        simp only [handleStep, hfound, if_true] at h
        rw [handleNext_waking] at h
        cases h
      | false =>
        simp only [handleStep, hfound] at h
        cases h
        exact Or.inr ⟨rest, hw⟩
    | _ =>
      simp only [handleStep] at h
      rw [handleNext_waking] at h
      cases h
  | _ =>
    simp only [St.stepWorker, hw, Option.some.injEq] at hs
    subst hs
    cases h

/-- A completion moves its slot from the call to the completed queue. -/
theorem rpc_named {m : Nat} {r r' : Rpc} (hr : s.rpcs[m]? = some r) {pool : FgaChannelSlotPool}
    {author : Nat → Option (Call × RpcOutcome)} {completed : List Nat} {latch : Bool} {j : Nat}
    (ht : r'.todo.count j + completed.count j = r.todo.count j + s.completed.count j) :
    ({ s with pool := pool, author := author, completed := completed, latch := latch }.setRpc m r').Named j ↔
      s.Named j := by
  have hcount := count_set_todo r' j hr
  rw [named_iff, named_iff]
  show 0 < s.waiting.count j + (s.worker.begun ++ ((s.rpcs.set m r').flatMap Rpc.todo ++ completed)).count j ↔ _
  unfold St.taken
  simp only [List.count_append]
  omega

end

/-! ## Runs -/

/-- No call is under way, and the worker is idle. -/
structure St.Quiet (s : St) : Prop where
  backends : ∀ b job stage, s.backends b ≠ .running job stage
  worker : s.worker = .waitLatch
  queue : queueIsEmpty s.queue = true
  completed : s.completed = []
  rpcs : ∀ r ∈ s.rpcs, r.todo = []

end PostFga
