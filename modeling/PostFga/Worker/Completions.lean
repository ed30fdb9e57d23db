import PostFga.Channel.TenancyWorker
import PostFga.Worker.Reload
/-
# Completions across reloads (`worker.cpp:92`)

The loop of `Worker::process` with its Processor, the channel, and the reloads that replace the
Processor. A Processor owns its completed queue. `emplace` and `reset` destroy the one that is installed;
`emplace` then constructs the new one in the same storage, so that for a callback that comes later `this`
is the new one. Between the two, and after `reset`, there is none, and what a callback appends is lost.

| here | there |
| --- | --- |
| `Loop.chan`       | `St`, whose `completed` is the installed Processor's `completed_queue_` |
| `Loop.requested`  | `reload_requested` (`worker.cpp:22`) |
| `ReloadPc`        | where the worker is between `ResetLatch` (`:106`) and `execute` (`:130`) |
| `Loop.check`      | `:114`–`:127`, up to the destruction of the Processor; `guc` are the settings that `ProcessConfigFile` finds |
| `Loop.construct`  | the construction of the new one |
| `Loop.pass`       | `:129` without a Processor |

`begun` and `handled` are not the program's: how often `beginProcessing` has moved a slot to PROCESSING,
and how often `handleResponse` has taken it up.
-/

namespace PostFga

open Transition

/-! ## What a Processor owes -/

/-- The slots the worker has in hand: begun and not handed over, or taken from the completed queue and
not handled. -/
def WorkerPc.held : WorkerPc → List Nat
  | .begin _ begun | .releaseCanceled _ _ begun => begun
  | .handle i .readState rest => i :: rest
  | .handle _ _ rest => rest
  | _ => []

/-- The worker is in `execute`. -/
def WorkerPc.executing : WorkerPc → Bool
  | .waitLatch | .resetLatch | .drain => false
  | _ => true

namespace St

/-- The slots of the calls under way, and those completed. -/
def outstanding (s : St) : List Nat := s.rpcs.flatMap Rpc.todo ++ s.completed

/-- The slot that the worker's next step moves to PROCESSING. -/
def begins (s : St) : Option Nat :=
  match s.worker with
  | .begin (i :: _) _ => if (s.pool.slots i).state = .pending then some i else none
  | _ => none

/-- The slot that the worker's next step is the begin of `handleResponse` for. -/
def handles (s : St) : Option Nat :=
  match s.worker with
  | .handle i .readState _ => some i
  | _ => none

/-- How often slot `i` is handed over with a request that the client issues no call for. -/
def dropped (s : St) (i : Nat) : Nat :=
  match s.worker with
  | .begin [] begun => if (s.mem i).request.Callable then 0 else begun.count i
  | _ => 0

end St

/-! ## The loop -/

inductive ReloadPc where
  | unchecked
  /-- The old Processor is gone. -/
  | constructing (config : Config)
  | checked
deriving DecidableEq, Repr

structure Loop where
  chan : St
  reload : ReloadState
  requested : Bool
  pc : ReloadPc
  begun : Nat → Nat
  handled : Nat → Nat

inductive LoopAct where
  | chan (a : Act)
  | sighup
  | check (guc : EndpointConfig)
  | construct
  | pass

namespace Loop

def init (guc : EndpointConfig) (chan : St) : Loop where
  chan := chan
  reload := .start guc
  requested := false
  pc := .unchecked
  begun _ := 0
  handled _ := 0

def bump (f : Nat → Nat) : Option Nat → Nat → Nat
  | none => f
  | some i => Function.update f i (f i + 1)

def stepChan (s : Loop) : Act → Option Loop
  | .worker =>
    if s.chan.worker = .drain ∧ ¬ (s.pc = .checked ∧ s.reload.processor.isSome = true) then none
    else
      (s.chan.step .worker).map fun chan =>
        { s with
          chan := chan
          pc := .unchecked
          begun := bump s.begun s.chan.begins
          handled := bump s.handled s.chan.handles }
  | .handler k =>
    (s.chan.step (.handler k)).map fun chan =>
      { s with chan := if s.reload.processor.isSome then chan else { chan with completed := s.chan.completed } }
  | a => (s.chan.step a).map fun chan => { s with chan := chan }

def check (s : Loop) (guc : EndpointConfig) : Loop :=
  if s.requested then
    let newConfig := loadConfigFromGuc guc
    if newConfig ≠ s.reload.config then
      { s with
        requested := false
        reload := s.reload.reset
        chan := { s.chan with completed := [] }
        pc := if newConfig.endpoint ≠ [] then .constructing newConfig else .checked }
    else { s with requested := false, pc := .checked }
  else { s with pc := .checked }

def step (s : Loop) : LoopAct → Option Loop
  | .chan a => s.stepChan a
  | .sighup => some { s with requested := true, chan := { s.chan with latch := true } }
  | .check guc => if s.chan.worker = .drain ∧ s.pc = .unchecked then some (s.check guc) else none
  | .construct =>
    match s.pc with
    | .constructing config => some { s with reload := s.reload.emplace config, pc := .checked }
    | _ => none
  | .pass =>
    if s.chan.worker = .drain ∧ s.pc = .checked ∧ s.reload.processor = none then
      some { s with chan := { s.chan with worker := .waitLatch }, pc := .unchecked }
    else none

/-- The slots begun and not yet handled that are in the worker's hands, the subject of a call whose
callback will reach the installed Processor, or in the completed queue of that. -/
def due (s : Loop) : List Nat :=
  s.chan.worker.held ++ if s.reload.processor.isSome then s.chan.outstanding else []

/-- A slot has been handled as often as it was begun, but for the times that it is due. -/
def Kept (s : Loop) : Prop := ∀ i, s.begun i = s.handled i + s.due.count i

/-- The check finds new settings and replaces the Processor, or takes it away. -/
def Replaces (s : Loop) (guc : EndpointConfig) : Prop :=
  s.chan.worker = .drain ∧ s.pc = .unchecked ∧ s.requested = true ∧ loadConfigFromGuc guc ≠ s.reload.config

/-- * When the Processor is replaced no call is under way and its completed queue is empty;
* the client has a call for every request that is handed over. -/
def Guard (s : Loop) : LoopAct → Prop
  | .check guc => s.Replaces guc → s.chan.outstanding = []
  | .chan .worker => ∀ begun, s.chan.worker = .begin [] begun → ∀ i ∈ begun, (s.chan.mem i).request.Callable
  | _ => True

/-! ## One step -/

end Loop

section
variable {s s' : St}

theorem handleNext_held (l : List Nat) : (St.handleNext l).held = l := by cases l <;> rfl

theorem held_idle {w : WorkerPc} (h : w.executing = false) : w.held = [] := by
  cases w <;> first | rfl | cases h

theorem count_outstanding (s : St) (i : Nat) :
    s.outstanding.count i = (s.rpcs.flatMap Rpc.todo).count i + s.completed.count i := List.count_append ..

theorem outstanding_nil (h : s.outstanding = []) (hout : ∀ i, s'.outstanding.count i = s.outstanding.count i) :
    s'.outstanding = [] := by
  have hperm := List.perm_iff_count.2 hout
  rw [h] at hperm
  exact hperm.eq_nil

/-- The hand-over: what the client has a call for is under way. -/
theorem count_handOver (s : St) (begun : List Nat) (i : Nat) :
    (((processBatch s.mem begun).map St.issue).flatMap Rpc.todo).count i =
      if (s.mem i).request.Callable then begun.count i else 0 := by
  rw [List.flatMap_map, ← count_processBatch]
  rfl

/-- `handleResponse` has the slot in hand until it has read its state. -/
theorem handle_held {s s' : St} {j : Nat} {pc : HandlePc} {rest : List Nat} (hw : s.worker = .handle j pc rest)
    (hs : s.stepWorker = some s') :
    s'.worker.held = rest ∧ s'.rpcs = s.rpcs ∧ s'.completed = s.completed := by
  simp only [St.stepWorker, hw, Option.some.injEq] at hs
  subst hs
  refine ⟨?_, rfl, rfl⟩
  cases pc with
  | readState =>
    simp only [handleStep]
    split <;> rfl
  | writeDone => rfl
  | lookup =>
    simp only [handleStep]
    cases s.found j <;> first | rfl | exact handleNext_held rest
  | releaseCanceled | releaseUnfound => exact handleNext_held rest

theorem idle_step (h : s.worker.executing = false) :
    s.begins = none ∧ s.handles = none ∧ ∀ i, s.dropped i = 0 := by
  unfold St.begins St.handles St.dropped
  cases hw : s.worker with
  | waitLatch | resetLatch | drain => exact ⟨rfl, rfl, fun _ => rfl⟩
  | _ =>
    rw [hw] at h
    cases h

/-- **A step of the worker**: what it begins it has in hand, and what it handles it has no more; between
them it hands over what the client has a call for, and takes over what is completed. -/
theorem worker_due (hs : s.stepWorker = some s') (i : Nat) :
    s'.worker.held.count i + s'.outstanding.count i + (if s.handles = some i then 1 else 0) + s.dropped i =
      s.worker.held.count i + s.outstanding.count i + if s.begins = some i then 1 else 0 := by
  cases hw : s.worker with
  | handle j pc rest =>
    obtain ⟨hheld, hrpcs, hcompleted⟩ := handle_held hw hs
    have hbegins : s.begins = none := by simp only [St.begins, hw]
    have hdropped : s.dropped i = 0 := by simp only [St.dropped, hw]
    rw [count_outstanding, count_outstanding, hheld, hrpcs, hcompleted, hbegins, hdropped]
    cases pc with
    | readState =>
      simp only [St.handles, hw, WorkerPc.held, List.count_cons, Option.some.injEq, beq_iff_eq, reduceCtorEq, if_false]
      omega
    | _ => simp [St.handles, hw, WorkerPc.held]
  | begin todo begun =>
    have hhandles : s.handles = none := by simp only [St.handles, hw]
    rw [hhandles, count_outstanding, count_outstanding]
    cases todo with
    | nil =>
      simp only [St.stepWorker, hw, Option.some.injEq] at hs
      subst hs
      simp only [St.dropped, St.begins, hw, WorkerPc.held, List.flatMap_append, List.count_append, count_handOver,
        List.count_nil, reduceCtorEq, if_false]
      split <;> omega
    | cons j todo =>
      simp only [St.stepWorker, hw, Option.some.injEq] at hs
      subst hs
      simp only [St.dropped, St.begins, hw, reduceCtorEq, if_false, St.apply]
      cases hst : (s.pool.slots j).state with
      | pending =>
        simp only [beginCas, WorkerPc.held, List.count_append, List.count_singleton, if_true, Option.some.injEq,
          beq_iff_eq]
        omega
      | _ => simp [beginCas, WorkerPc.held]
  | releaseCanceled j todo begun =>
    simp only [St.stepWorker, hw, Option.some.injEq] at hs
    subst hs
    simp [St.dropped, St.begins, St.handles, hw, WorkerPc.held, count_outstanding, St.apply]
  | swap =>
    simp only [St.stepWorker, hw, Option.some.injEq] at hs
    subst hs
    simp only [St.dropped, St.begins, St.handles, hw, count_outstanding, handleNext_held, reduceCtorEq, if_false]
    simp only [WorkerPc.held, List.count_nil]
    omega
  | waitLatch =>
    obtain ⟨-, rfl⟩ := stepWorker_waitLatch hw hs
    simp [St.dropped, St.begins, St.handles, hw, WorkerPc.held, count_outstanding]
  | resetLatch | drain =>
    simp only [St.stepWorker, hw, Option.some.injEq] at hs
    subst hs
    simp [St.dropped, St.begins, St.handles, hw, WorkerPc.held, count_outstanding]

/-- The worker is in `execute` after a step only if it was, or drains. -/
theorem worker_executing (hs : s.stepWorker = some s') (h : s'.worker.executing = true) :
    s.worker.executing = true ∨ s.worker = .drain := by
  cases hw : s.worker with
  | waitLatch =>
    obtain ⟨-, rfl⟩ := stepWorker_waitLatch hw hs
    cases h
  | resetLatch =>
    simp only [St.stepWorker, hw, Option.some.injEq] at hs
    subst hs
    cases h
  | drain => exact Or.inr rfl
  | _ => exact Or.inl rfl

/-- A step of anybody else leaves the worker alone, and what is outstanding. -/
theorem others_due {a : Act} (ha : a ≠ .worker) (hs : s.step a = some s') :
    s'.worker = s.worker ∧ ∀ i, s'.outstanding.count i = s.outstanding.count i := by
  have hrpc : ∀ {m : Nat} {r r' : Rpc} {u : St}, s.rpcs[m]? = some r → u.rpcs = s.rpcs → u.worker = s.worker →
      (∀ i, r'.todo.count i + u.completed.count i = r.todo.count i + s.completed.count i) →
      (u.setRpc m r').worker = s.worker ∧ ∀ i, (u.setRpc m r').outstanding.count i = s.outstanding.count i := by
    intro m r r' u hr hu hw ht
    refine ⟨hw, fun i => ?_⟩
    have h1 := count_set_todo r' i hr
    have h2 := ht i
    rw [count_outstanding, count_outstanding]
    show ((u.rpcs.set m r').flatMap Rpc.todo).count i + u.completed.count i = _
    rw [hu]
    omega
  cases a with
  | worker => exact absurd rfl ha
  | acquire b config call =>
    obtain ⟨-, rfl⟩ := step_acquire hs
    unfold St.acquire
    split <;> exact ⟨rfl, fun i => rfl⟩
  | backend b fails =>
    obtain ⟨job, stage, -, rfl⟩ := step_backend hs
    obtain ⟨hw, hrpcs, hcompleted, -⟩ := advance_lists s b job fails stage
    exact ⟨hw, fun i => by rw [St.outstanding, hrpcs, hcompleted, St.outstanding]⟩
  | exit b =>
    obtain ⟨-, rfl⟩ := step_exit hs
    exact ⟨rfl, fun i => rfl⟩
  | complete m o =>
    obtain ⟨r, hr, -, rfl⟩ := step_complete hs
    exact hrpc hr rfl rfl fun i => rfl
  | handler m =>
    obtain ⟨r, hr, hs⟩ := step_handler hs
    obtain ⟨o, j, todo, -, htodo, rfl⟩ | ⟨o, j, todo, -, htodo, rfl⟩ | ⟨o, -, rfl⟩ := stepHandler_cases hs
    · exact hrpc hr rfl rfl fun i => rfl
    · refine hrpc hr rfl rfl fun i => ?_
      show todo.count i + (s.completed ++ [j]).count i = r.todo.count i + s.completed.count i
      simp only [htodo, List.count_append, List.count_cons, List.count_nil]
      omega
    · exact hrpc hr rfl rfl fun i => rfl

/-- A handler appends nothing when nothing is outstanding. -/
theorem handler_idle {m : Nat} (hout : s.outstanding = []) (hs : s.step (.handler m) = some s') :
    s'.completed = s.completed := by
  obtain ⟨r, hr, hs⟩ := step_handler hs
  have hnil : r.todo = [] := by
    refine List.eq_nil_iff_forall_not_mem.2 fun i hi => ?_
    have : i ∈ s.outstanding := List.mem_append_left _ (mem_todo_of_get hr hi)
    rw [hout] at this
    cases this
  obtain ⟨o, j, todo, -, -, rfl⟩ | ⟨o, j, todo, -, htodo, -⟩ | ⟨o, -, rfl⟩ := stepHandler_cases hs
  · rfl
  · rw [hnil] at htodo
    cases htodo
  · rfl

end

/-! ## Every run -/

namespace Loop

variable {s s' : Loop}

theorem count_due (s : Loop) (i : Nat) : s.due.count i =
    s.chan.worker.held.count i + if s.reload.processor.isSome then s.chan.outstanding.count i else 0 := by
  rw [due, List.count_append]
  split <;> rfl

/-- What runs keep whose steps meet the guard. -/
structure Inv (s : Loop) : Prop where
  kept : s.Kept
  /-- With no Processor installed nothing is under way. -/
  gone : s.reload.processor = none → s.chan.outstanding = []
  idle : s.reload.processor = none → s.chan.worker.executing = false

theorem bump_apply (f : Nat → Nat) (x : Option Nat) (i : Nat) :
    bump f x i = f i + if x = some i then 1 else 0 := by
  cases x with
  | none => rfl
  | some j =>
    by_cases hj : j = i
    · subst hj
      rw [bump, Function.update_self, if_pos rfl]
    · rw [bump, Function.update_of_ne (Ne.symm hj), if_neg fun he => hj (Option.some.inj he), Nat.add_zero]

theorem Inv.others (h : s.Inv) {chan : St} (hw : chan.worker = s.chan.worker)
    (hout : ∀ i, chan.outstanding.count i = s.chan.outstanding.count i) : Inv { s with chan := chan } := by
  refine ⟨fun i => ?_, fun hp => ?_, fun hp => ?_⟩
  · have := h.kept i
    rw [count_due] at this ⊢
    rw [hw, hout]
    exact this
  · exact outstanding_nil (h.gone hp) hout
  · rw [hw]
    exact h.idle hp

/-- **A step of the worker** keeps the account but for what it drops. -/
theorem Inv.worker (h : s.Inv) (hs : s.step (.chan .worker) = some s') :
    (∀ i, s'.begun i = s'.handled i + (s'.due.count i + s.chan.dropped i)) ∧
      (s'.reload.processor = none → s'.chan.outstanding = []) ∧
      (s'.reload.processor = none → s'.chan.worker.executing = false) := by
  simp only [step, stepChan] at hs
  split at hs
  · cases hs
  rename_i hdrain
  obtain ⟨chan, hchan, rfl⟩ := Option.map_eq_some_iff.1 hs
  have hdue := worker_due (show s.chan.stepWorker = some chan from hchan)
  cases hp : s.reload.processor with
  | none =>
    have hidle := h.idle hp
    have hidle' : chan.worker.executing = false := by
      rw [← Bool.not_eq_true]
      intro he
      rcases worker_executing hchan he with he | hw
      · rw [hidle] at he
        cases he
      · exact hdrain ⟨hw, fun hc => by rw [hp] at hc; cases hc.2⟩
    obtain ⟨hbegins, hhandles, hdropped⟩ := idle_step hidle
    refine ⟨fun i => ?_, fun _ => ?_, fun _ => hidle'⟩
    · have hkept := h.kept i
      simp only [count_due, hp, hbegins, hhandles, hdropped, held_idle hidle, held_idle hidle', bump] at hkept ⊢
      exact hkept
    · refine outstanding_nil (h.gone hp) fun i => ?_
      have := hdue i
      simpa only [hbegins, hhandles, hdropped, held_idle hidle, held_idle hidle', List.count_nil, reduceCtorEq,
        if_false, Nat.zero_add, Nat.add_zero] using this
  | some p =>
    refine ⟨fun i => ?_, fun hno => ?_, fun hno => ?_⟩
    · have hkept := h.kept i
      have := hdue i
      simp only [count_due, hp, Option.isSome_some, if_true, bump_apply] at hkept ⊢
      omega
    · cases hno
    · cases hno

theorem check_eq (s : Loop) (guc : EndpointConfig)
    (hno : ¬ (s.requested = true ∧ loadConfigFromGuc guc ≠ s.reload.config)) :
    s.check guc = { s with requested := false, pc := .checked } := by
  unfold check
  cases hr : s.requested with
  | false => simp [← hr]
  | true =>
    have he : loadConfigFromGuc guc = s.reload.config := Decidable.not_not.1 fun hne => hno ⟨hr, hne⟩
    simp [he]

/-- **A check that was requested**, with the construction after it, is a reload. -/
theorem check_construct (s : Loop) (guc : EndpointConfig) (hreq : s.requested = true) :
    ((s.check guc).pc = .checked → (s.check guc).reload = s.reload.reload guc) ∧
      ∀ c, (s.check guc).pc = .constructing c → (s.check guc).reload.emplace c = s.reload.reload guc := by
  unfold check ReloadState.reload
  simp only [hreq, if_true]
  split
  · split
    · constructor
      · intro hpc
        cases hpc
      · intro c hpc
        cases hpc
        rfl
    · refine ⟨fun _ => rfl, fun c hpc => ?_⟩
      cases hpc
  · refine ⟨fun _ => rfl, fun c hpc => ?_⟩
    cases hpc

/-- **A check** keeps the account if and only if it destroys no Processor that owes anything. -/
theorem Inv.check (h : s.Inv) (hw : s.chan.worker = .drain) (hpc : s.pc = .unchecked) (guc : EndpointConfig) :
    (s.check guc).Kept ↔ s.Guard (.check guc) := by
  by_cases hre : s.requested = true ∧ loadConfigFromGuc guc ≠ s.reload.config
  · have hdue : ∀ i, (s.check guc).due.count i = 0 := by
      intro i
      simp only [count_due, Loop.check, hre.1, hre.2, if_true, ne_eq, not_false_eq_true, hw, ReloadState.reset]
      rfl
    have hsame : (s.check guc).begun = s.begun ∧ (s.check guc).handled = s.handled := by
      simp only [Loop.check, hre.1, hre.2, if_true, ne_eq, not_false_eq_true, and_self]
    constructor
    · intro hkept _
      cases hp : s.reload.processor with
      | none => exact h.gone hp
      | some p =>
        refine List.eq_nil_iff_forall_not_mem.2 fun i hi => ?_
        have h1 := h.kept i
        have h2 := hkept i
        have hpos := List.count_pos_iff.2 hi
        rw [hdue, hsame.1, hsame.2] at h2
        simp only [count_due, hp, Option.isSome_some, if_true] at h1
        omega
    · intro hG i
      have hout := hG ⟨hw, hpc, hre.1, hre.2⟩
      have h1 := h.kept i
      rw [hdue, hsame.1, hsame.2]
      rw [count_due, hout, hw] at h1
      simpa [WorkerPc.held] using h1
  · rw [check_eq s guc hre]
    exact iff_of_true h.kept fun hr => absurd ⟨hr.2.2.1, hr.2.2.2⟩ hre

theorem Inv.check_inv (h : s.Inv) (hw : s.chan.worker = .drain) (hpc : s.pc = .unchecked) {guc : EndpointConfig}
    (hG : s.Guard (.check guc)) : (s.check guc).Inv := by
  refine ⟨(h.check hw hpc guc).2 hG, ?_, ?_⟩
  · by_cases hre : s.requested = true ∧ loadConfigFromGuc guc ≠ s.reload.config
    · intro _
      have hout := hG ⟨hw, hpc, hre.1, hre.2⟩
      have hrpcs := (List.append_eq_nil_iff.1 hout).1
      simp only [Loop.check, hre.1, hre.2, if_true, ne_eq, not_false_eq_true, St.outstanding, hrpcs]
      rfl
    · rw [check_eq s guc hre]
      exact h.gone
  · intro _
    have : (s.check guc).chan.worker = .drain := by
      unfold Loop.check
      simp only
      repeat' split
      all_goals exact hw
    rw [this]
    rfl

/-- Without a Processor there is no callback to come. -/
theorem Inv.stepChan (h : s.Inv) {a : Act} (ha : a ≠ .worker) (hs : s.stepChan a = some s') :
    ∃ chan, s.chan.step a = some chan ∧ s' = { s with chan := chan } := by
  cases a with
  | worker => exact absurd rfl ha
  | handler m =>
    obtain ⟨chan, hchan, rfl⟩ := Option.map_eq_some_iff.1 hs
    refine ⟨chan, hchan, ?_⟩
    cases hp : s.reload.processor with
    | none =>
      rw [← handler_idle (h.gone hp) hchan]
      rfl
    | some p => rfl
  | _ =>
    obtain ⟨chan, hchan, rfl⟩ := Option.map_eq_some_iff.1 hs
    exact ⟨chan, hchan, rfl⟩

/-- A step that meets the guard. -/
theorem Inv.step (h : s.Inv) {a : LoopAct} (hG : s.Guard a) (hs : s.step a = some s') : s'.Inv := by
  cases a with
  | chan a =>
    by_cases ha : a = .worker
    · subst ha
      obtain ⟨hkept, hgone, hidle⟩ := h.worker hs
      refine ⟨fun i => ?_, hgone, hidle⟩
      have hdropped : s.chan.dropped i = 0 := by
        unfold St.dropped
        split
        · rename_i begun hw
          split
          · rfl
          · rename_i hcall
            exact List.count_eq_zero.2 fun hi => hcall (hG begun hw i hi)
        · rfl
      rw [hkept i, hdropped, Nat.add_zero]
    · obtain ⟨chan, hchan, rfl⟩ := h.stepChan ha hs
      obtain ⟨hw, hout⟩ := others_due ha hchan
      exact h.others hw hout
  | sighup =>
    obtain rfl := Option.some.inj hs
    exact ⟨h.kept, h.gone, h.idle⟩
  | check guc =>
    simp only [Loop.step, Option.ite_none_right_eq_some, Option.some.injEq] at hs
    obtain ⟨⟨hw, hpc⟩, rfl⟩ := hs
    exact h.check_inv hw hpc hG
  | construct =>
    simp only [Loop.step] at hs
    split at hs
    · obtain rfl := Option.some.inj hs
      refine ⟨fun i => ?_, ?_, ?_⟩
      · have h1 := h.kept i
        show s.begun i = s.handled i + List.count i (s.chan.worker.held ++ s.chan.outstanding)
        rw [List.count_append]
        rw [count_due] at h1
        cases hp : s.reload.processor with
        | none =>
          rw [h.gone hp]
          simpa [hp] using h1
        | some p => simpa [hp] using h1
      · intro hp
        cases hp
      · intro hp
        cases hp
    · cases hs
  | pass =>
    simp only [Loop.step, Option.ite_none_right_eq_some, Option.some.injEq] at hs
    obtain ⟨⟨hw, hpc, hp⟩, rfl⟩ := hs
    refine ⟨fun i => ?_, fun _ => h.gone hp, fun _ => rfl⟩
    have h1 := h.kept i
    rw [count_due, hw] at h1
    rw [count_due]
    exact h1

/-- A step that leads to where the account does not fit has not met the guard. -/
theorem Inv.guard_of_kept (h : s.Inv) {a : LoopAct} (hkept : ∀ s', s.step a = some s' → s'.Kept) : s.Guard a := by
  cases a with
  | chan a =>
    by_cases ha : a = .worker
    · subst ha
      intro begun hw i hi
      by_contra hcall
      have hs : ∃ s', s.step (.chan .worker) = some s' := by
        refine Option.isSome_iff_exists.1 ?_
        simp [Loop.step, Loop.stepChan, St.step, St.stepWorker, hw]
      obtain ⟨s', hs⟩ := hs
      have h1 := (h.worker hs).1 i
      have h2 := hkept s' hs i
      have hdropped : s.chan.dropped i = begun.count i := by
        simp only [St.dropped, hw, if_neg hcall]
      have hpos := List.count_pos_iff.2 hi
      omega
    · cases a with
      | worker => exact absurd rfl ha
      | _ => trivial
  | check guc =>
    intro hr
    have hs : s.step (.check guc) = some (s.check guc) := if_pos ⟨hr.1, hr.2.1⟩
    exact (h.check hr.1 hr.2.1 guc).1 (hkept _ hs) hr
  | _ => trivial

theorem inv_init (guc : EndpointConfig) (n k : Nat) (mem : Nat → FgaChannelSlot) (values : Nat → UInt16) :
    (init guc (.init n k mem values)).Inv := by
  refine ⟨fun i => ?_, fun _ => rfl, fun _ => rfl⟩
  rw [count_due]
  show 0 = 0 + (0 + if _ then 0 else 0)
  split <;> rfl

/-- **No completion is lost exactly when** no Processor is replaced that still owes one, and the client has
a call for every request handed over: then at every moment every slot has been handled as often as it was
begun, but for the times that it is on its way through the installed Processor. -/
theorem kept_iff (guc : EndpointConfig) (n k : Nat) (mem : Nat → FgaChannelSlot) (values : Nat → UInt16)
    (acts : List LoopAct) :
    Always step Kept (init guc (.init n k mem values)) acts ↔
      Meets step Guard (init guc (.init n k mem values)) acts :=
  always_iff_meets Inv (fun _ h => h.kept) (fun _ _ _ h hG hs => h.step hG hs)
    (fun _ _ h hkept => h.guard_of_kept hkept) acts (inv_init guc n k mem values)

def hostA : EndpointConfig := ⟨some (.lit "dns:///a:8081"), 60000⟩

def hostB : EndpointConfig := ⟨some (.lit "dns:///b:8081"), 60000⟩

/-- A check up to its wait. -/
def checkAndWait : List Act :=
  .acquire 0 ⟨some (.lit "s"), none⟩ checkViewer :: goOn 0 15

/-- A check is completed, and before the worker's next turn the endpoint changes. -/
def reloadOverCompletion : List LoopAct :=
  List.flatten [
    checkAndWait.map .chan,
    [.chan .worker, .chan .worker, .check hostA], List.replicate 4 (.chan .worker),
    [.chan (.complete 0 ⟨.ok, true, fun _ => none, .empty, .empty⟩)], List.replicate 3 (.chan (.handler 0)),
    [.sighup, .chan .worker, .chan .worker, .check hostB, .construct], List.replicate 3 (.chan .worker)]

/-- **The completion is gone**: the slot is PROCESSING for ever, its backend waits, and nothing is due. -/
theorem completion_lost :
    ¬ Always step Kept (init hostA PostFga.start) reloadOverCompletion ∧
      (run step (init hostA PostFga.start) reloadOverCompletion).any (fun s =>
        s.begun 1023 == 1 && s.handled 1023 == 0 && s.due == [] && s.chan.worker == .waitLatch &&
          s.chan.latch == false && (s.chan.pool.slots 1023).state == .processing) = true := by
  have hend : (run step (init hostA PostFga.start) reloadOverCompletion).any (fun s =>
      s.begun 1023 == 1 && s.handled 1023 == 0 && s.due == [] && s.chan.worker == .waitLatch &&
        s.chan.latch == false && (s.chan.pool.slots 1023).state == .processing) = true := by
    decide +kernel
  refine ⟨fun halways => ?_, hend⟩
  obtain ⟨s, hs, hall⟩ := (Option.any_eq_true ..).1 hend
  simp only [Bool.and_eq_true, beq_iff_eq] at hall
  obtain ⟨⟨⟨⟨⟨hbegun, hhandled⟩, hdue⟩, -⟩, -⟩, -⟩ := hall
  have hkept := halways.last hs 1023
  rw [hbegun, hhandled, hdue] at hkept
  cases hkept

end Loop

end PostFga
