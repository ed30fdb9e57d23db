import PostFga.Channel.Atomic
import Mathlib.Data.List.Perm.Subperm
/-
# Calls that nobody completes

What the worker's process holds besides the shared memory may go: its RPCs, its completed queue, the slots
it has in hand. The shared memory stays. `St.keep` is the channel as if the calls that are gone were still
out, and for what has gone without a call there was one; the invariants go on to hold of that.

* `Lived` — what is known of a channel that has lost the calls `dead`; `Trusted`, if servers answer.
* `Loses` — the step that loses them: slots that have been taken are in nobody's hands any more.
* `Lived.left` — the slots stay in use; `Lived.returnsOwn` — and no call gets what is not its own.
* `Trusted.step` — the processes see the atomic service.
-/

namespace PostFga

open Transition

namespace St

/-- The channel as if the calls `dead` were still out. -/
def keep (s : St) (dead : List Rpc) : St := { s with rpcs := dead ++ s.rpcs }

end St

/-- The label, `d` calls on. -/
def Act.after (d : Nat) : Act → Act
  | .complete m o => .complete (d + m) o
  | .handler m => .handler (d + m)
  | .acquire b config call => .acquire b config call
  | .backend b fails => .backend b fails
  | .exit b => .exit b
  | .worker => .worker

section
variable {s s' : St} (dead : List Rpc)

theorem keep_raise (s : St) (dead : List Rpc) (b : Nat) (job : Job) (raised : Raised) :
    (s.keep dead).raise b job raised = (s.raise b job raised).keep dead := by
  unfold St.raise
  split <;> rfl

theorem keep_advance (b : Nat) (job : Job) (fails : Bool) (stage : Stage) :
    (s.keep dead).advance b job fails stage = (s.advance b job fails stage).keep dead := by
  cases stage with
  | fill todo err =>
    cases todo with
    | cons w todo => rfl
    | nil =>
      cases err with
      | some e => exact keep_raise s dead b job .before
      | none =>
        have hqueue : (s.keep dead).queue = s.queue := rfl
        simp only [St.advance, hqueue]
        cases queueEnqueue s.queue (.ofNat job.slot) <;> rfl
  | setPid | resetPayload | nextRequestId | wakeBgw => rfl
  | queueFull | canceled => exact keep_raise (s.apply .release job.slot) dead b job .execute
  | wait pc =>
    have hpool : (s.keep dead).pool = s.pool := rfl
    simp only [St.advance, hpool]
    rcases waitStep (s.pool.slots job.slot).state fails pc with ⟨e, next⟩
    cases next with
    | goto pc => rfl
    | returned st => cases st <;> rfl
    | rethrown => exact keep_raise (s.apply e job.slot) dead b job .execute
  | response =>
    have hmem : (s.keep dead).mem = s.mem := rfl
    simp only [St.advance, hmem]
    split
    · rfl
    · split
      · exact keep_raise s dead b job .response
      · rfl
  | release =>
    simp only [St.advance]
    split <;> rfl
  | formTuple =>
    simp only [St.advance]
    split
    · exact keep_raise s dead b job .formTuple
    · rfl
  | catchBlock raised => rfl

theorem keep_stepWorker (hs : s.stepWorker = some s') : (s.keep dead).stepWorker = some (s'.keep dead) := by
  have hworker : (s.keep dead).worker = s.worker := rfl
  cases hw : s.worker with
  | waitLatch =>
    simp only [St.stepWorker, hw] at hs
    simp only [St.stepWorker, hworker, hw]
    have hlatch : (s.keep dead).latch = s.latch := rfl
    rw [hlatch]
    split at hs
    · rename_i hl
      rw [if_pos hl, ← Option.some.inj hs]
      rfl
    · cases hs
  | «begin» todo begun =>
    cases todo with
    | nil =>
      simp only [St.stepWorker, hw, Option.some.injEq] at hs
      subst hs
      simp only [St.stepWorker, hw, St.keep, List.append_assoc]
      rfl
    | cons i todo =>
      simp only [St.stepWorker, hw, Option.some.injEq] at hs
      subst hs
      simp only [St.stepWorker, hworker, hw]
      rfl
  | resetLatch | drain | releaseCanceled | swap | handle =>
    simp only [St.stepWorker, hw, Option.some.injEq] at hs
    subst hs
    simp only [St.stepWorker, hworker, hw]
    rfl

theorem keep_getElem? (m : Nat) : (s.keep dead).rpcs[dead.length + m]? = s.rpcs[m]? := by
  rw [St.keep, List.getElem?_append_right (Nat.le_add_right ..), Nat.add_sub_cancel_left]

theorem keep_setRpc (s : St) (dead : List Rpc) (m : Nat) (r : Rpc) :
    (s.keep dead).setRpc (dead.length + m) r = (s.setRpc m r).keep dead := by
  unfold St.setRpc St.keep
  simp only [List.set_append_right _ _ (Nat.le_add_right dead.length m), Nat.add_sub_cancel_left]

theorem keep_step {a : Act} (hs : s.step a = some s') :
    (s.keep dead).step (a.after dead.length) = some (s'.keep dead) := by
  cases a with
  | acquire b config call =>
    obtain ⟨hidle, rfl⟩ := step_acquire hs
    have hidle' : (s.keep dead).backends b = .idle := hidle
    simp only [Act.after, St.step, hidle', Option.some.injEq]
    have hpool : (s.keep dead).pool = s.pool := rfl
    unfold St.acquire
    rw [hpool]
    cases acquireSlot s.pool <;> rfl
  | backend b fails =>
    obtain ⟨job, stage, hb, rfl⟩ := step_backend hs
    have hb' : (s.keep dead).backends b = .running job stage := hb
    simp only [Act.after, St.step, hb', keep_advance]
  | exit b =>
    obtain ⟨hidle, rfl⟩ := step_exit hs
    have hidle' : (s.keep dead).backends b = .idle := hidle
    simp only [Act.after, St.step, hidle']
    rfl
  | worker => exact keep_stepWorker dead hs
  | complete m o =>
    obtain ⟨r, hr, hpc, rfl⟩ := step_complete hs
    simp only [Act.after, St.step, keep_getElem?, hr, hpc, keep_setRpc]
  | handler m =>
    obtain ⟨r, hr, hs⟩ := step_handler hs
    simp only [Act.after, St.step, keep_getElem?, hr, Option.bind_some]
    obtain ⟨o, i, todo, hpc, htodo, rfl⟩ | ⟨o, i, todo, hpc, htodo, rfl⟩ | ⟨o, hpc, rfl⟩ :=
      stepHandler_cases hs
    · simp only [St.stepHandler, hpc, htodo]
      exact congrArg some (keep_setRpc { s.setPayload i (r.call.complete o (s.mem i)) with
        author := Function.update s.author i (some (r.call, o)) } dead m _)
    · simp only [St.stepHandler, hpc, htodo]
      exact congrArg some (keep_setRpc { s with completed := s.completed ++ [i] } dead m _)
    · simp only [St.stepHandler, hpc]
      exact congrArg some (keep_setRpc { s with latch := true } dead m _)

theorem keep_seen (a : Act) : (s.keep dead).seen (a.after dead.length) = s.seen a := by
  cases a with
  | backend b fails =>
    have hback : (s.keep dead).backends = s.backends := rfl
    simp only [Act.after, St.seen, hback, keep_advance]
    rfl
  | acquire | exit | worker | complete | handler => rfl

end

/-! ## Calls that stand for a slot -/

section
variable {n k : Nat} {s s' : St} {free : List Nat}

/-- An issued call has not written to the slots it is yet to append, but for one, which has the answer. -/
structure Vouched (s : St) (r : Rpc) : Prop where
  unwritten : ∀ i ∈ r.unwritten,
    (s.mem i).response = FgaPayload.zero.response ∧ r.call.IssuedFor i (s.mem i).request
  written : ∀ i, r.written = some i → Answered (s.mem i) (s.author i) i

/-- The server answers it, if it answers the others, and by the time it answers for its slots. -/
structure Fair (s : St) (r : Rpc) : Prop where
  honest : ∀ Up Down, Honest Up Down s → r.call.Distinct ∧ ∀ o, r.pc.outcome = some o → ServedBy Up Down r.call o
  recent : ∀ i ∈ r.todo, ∀ o, r.pc.outcome = some o → ∀ Up Down, Recent Up Down s i → ServedBy Up Down r.call o
  answered : ∀ i, r.written = some i → s.AnsweredAt i

def StandsFor (s : St) (i : Nat) (r : Rpc) : Prop := r.todo = [i] ∧ Vouched s r ∧ Fair s r

/-- A call whose handler is about to append the slot. -/
theorem standsFor_answered {i : Nat} (ha : Answered (s.mem i) (s.author i) i) (hat : s.AnsweredAt i) :
    ∃ r, StandsFor s i r := by
  obtain ⟨c, o, hauthor, -⟩ := id ha
  refine ⟨⟨c, .append o, [i]⟩, rfl, ⟨fun j hj => (by cases hj), fun j hj => ?_⟩,
    ⟨fun Up Down h => ?_, fun j hj o' ho' Up Down h => ?_, fun j hj => ?_⟩⟩
  · obtain rfl := Option.some.inj hj
    exact ha
  · obtain ⟨hdistinct, hserves⟩ := h.author i c o hauthor
    refine ⟨hdistinct, fun o' ho' => ?_⟩
    obtain rfl := Option.some.inj ho'
    exact hserves
  · obtain rfl := List.mem_singleton.1 hj
    obtain rfl := Option.some.inj ho'
    exact h.author hat c o hauthor
  · obtain rfl := Option.some.inj hj
    exact hat

/-- The call that asks for a slot in hand alone. -/
theorem standsFor_inHand (h : Isolated n s) {i : Nat} (hi : i ∈ s.worker.inHand)
    (hcallable : (s.mem i).request.Callable) : ∃ r, StandsFor s i r := by
  have hslots := handleRequest_slots s.mem i
  rw [if_pos hcallable] at hslots
  obtain ⟨c, hc, hmem⟩ : ∃ c ∈ handleRequest s.mem i, i ∈ c.slots := by
    rw [← List.mem_flatMap, hslots]
    exact List.mem_singleton_self i
  have hproc : c ∈ processBatch s.mem [i] := hc
  have hsame : SameStore s.mem [i] := by
    intro a ha b hb _ _
    rw [List.mem_singleton.1 ha, List.mem_singleton.1 hb]
    exact ⟨rfl, rfl⟩
  have hone : c.slots = [i] := slots_of_mem_handleRequest hc
  refine ⟨St.issue c, hone, ⟨fun j hj => ?_, fun j hj => (by cases hj)⟩,
    ⟨fun Up Down _ => ⟨?_, fun o ho => by cases ho⟩, fun j _ o ho => (by cases ho), fun j hj => by cases hj⟩⟩
  · have hj : j ∈ c.slots := hj
    rw [hone, List.mem_singleton] at hj
    subst hj
    exact ⟨h.inHand j hi, issuedFor_processBatch hsame hproc hmem⟩
  · cases c with
    | batchCheck slots req =>
      exfalso
      simp only [handleRequest] at hc
      split at hc <;> simp at hc
    | _ => trivial

/-- Slots for each of which a call stands have such calls. -/
theorem exists_standIns (l : List Nat) (h : ∀ i ∈ l, ∃ r, StandsFor s i r) :
    ∃ rs : List Rpc, rs.flatMap Rpc.todo = l ∧ ∀ r ∈ rs, Vouched s r ∧ Fair s r := by
  induction l with
  | nil => exact ⟨[], rfl, fun r hr => by cases hr⟩
  | cons i l ih =>
    obtain ⟨r, hr, hsound⟩ := h i List.mem_cons_self
    obtain ⟨rs, hrs, hall⟩ := ih fun j hj => h j (List.mem_cons_of_mem i hj)
    refine ⟨r :: rs, by rw [List.flatMap_cons, hr, hrs]; rfl, fun x hx => ?_⟩
    rcases List.mem_cons.1 hx with rfl | hx
    · exact hsound
    · exact hall x hx

theorem begun_cases {w : WorkerPc} {i : Nat} (h : i ∈ w.begun) : i ∈ w.inHand ∨ i ∈ w.finishing := by
  cases w with
  | handle j pc rest =>
    right
    cases pc <;> exact h
  | «begin» | releaseCanceled => exact Or.inl h
  | waitLatch | resetLatch | drain | swap => cases h

end

/-! ## The channel without its dead -/

section
variable {n k : Nat} {s s' : St} {dead more : List Rpc} {Up : Server → Prop} {Down : Call → Prop}

/-- The calls `dead` are out, and nobody completes them. -/
structure Lived (n k : Nat) (dead : List Rpc) (s : St) : Prop where
  tenancy : ∃ free, Tenancy n k (s.keep dead) free
  isolated : Isolated n (s.keep dead)
  /-- The slot that the worker has just completed is not one of theirs. -/
  waking : ∀ i, s.worker.waking = some i → i ∉ dead.flatMap Rpc.todo

structure Trusted (n k : Nat) (Down : Call → Prop) (dead : List Rpc) (s : St) (S : Server) (t : Atomic) : Prop
    extends Lived n k dead s where
  tracks : Tracks n k Down (s.keep dead) S t

theorem lived_init {n k : Nat} (hn : n ≤ 2 ^ 16) (hk : k ≤ 15) (mem : Nat → FgaChannelSlot)
    (values : Nat → UInt16) : Lived n k [] (St.init n k mem values) :=
  ⟨⟨_, tenancy_init hn hk mem values⟩, isolated_init hk mem values, fun i hi => by cases hi⟩

theorem trusted_init {n k : Nat} (hn : n ≤ 2 ^ 16) (hk : k ≤ 15) (mem : Nat → FgaChannelSlot)
    (values : Nat → UInt16) (S : Server) (Down : Call → Prop) :
    Trusted n k Down [] (St.init n k mem values) S (.init S) :=
  ⟨lived_init hn hk mem values, tracks_init hn hk mem values S Down⟩

/-! ### Steps of the channel -/

theorem keep_todo (s : St) (dead : List Rpc) :
    (s.keep dead).rpcs.flatMap Rpc.todo = dead.flatMap Rpc.todo ++ s.rpcs.flatMap Rpc.todo := List.flatMap_append

theorem keep_taken {i : Nat} (hi : i ∈ dead.flatMap Rpc.todo) : i ∈ (s.keep dead).taken := by
  refine mem_taken.2 (Or.inr (Or.inl ?_))
  rw [keep_todo]
  exact List.mem_append_left _ hi

theorem not_dead_of_begun {free : List Nat} (ten : Tenancy n k (s.keep dead) free) {i : Nat}
    (hi : i ∈ s.worker.begun) : i ∉ dead.flatMap Rpc.todo := by
  intro hdead
  obtain ⟨-, hnd, -⟩ := List.nodup_append.1 ten.entries_nodup
  obtain ⟨-, -, hdisj⟩ := List.nodup_append.1 hnd
  refine hdisj i hi i (List.mem_append_left _ ?_) rfl
  rw [keep_todo]
  exact List.mem_append_left _ hdead

theorem keep_lost {i : Nat} (h : s.Lost i) (hi : i ∉ dead.flatMap Rpc.todo) : (s.keep dead).Lost i := by
  obtain ⟨hstate, howns, hwaiting, htaken⟩ := h
  refine ⟨hstate, howns, hwaiting, fun hmem => ?_⟩
  rcases mem_taken.1 hmem with hbegun | hcalls | hcompleted
  · exact htaken (mem_taken.2 (Or.inl hbegun))
  · rw [keep_todo] at hcalls
    exact htaken (mem_taken.2 (Or.inr (Or.inl ((List.mem_append.1 hcalls).resolve_left hi))))
  · exact htaken (mem_taken.2 (Or.inr (Or.inr hcompleted)))

theorem keep_isolationGuard (h : Lived n k dead s) {a : Act} (hg : IsolationGuard s a) :
    IsolationGuard (s.keep dead) (a.after dead.length) := by
  obtain ⟨hguard, hsame⟩ := hg
  cases a with
  | worker =>
    refine ⟨fun i rest hw => ?_, hsame⟩
    exact keep_lost (hguard i rest hw) (h.waking i (waking_iff.2 (Or.inr ⟨rest, hw⟩)))
  | backend b fails => exact ⟨hguard, fun ha => by cases ha⟩
  | acquire | exit | complete | handler => exact ⟨trivial, fun ha => by cases ha⟩

theorem keep_servingGuard (h : Lived n k dead s) {a : Act} (hg : ServingGuard Up Down s a) :
    ServingGuard Up Down (s.keep dead) (a.after dead.length) := by
  refine ⟨keep_isolationGuard h hg.1, ?_⟩
  cases a with
  | complete m o =>
    intro r hr
    rw [keep_getElem?] at hr
    exact hg.2 r hr
  | acquire | backend | exit | worker | handler => trivial

theorem keep_countGuard {a : Act} (h : CountGuard s a) : CountGuard (s.keep dead) (a.after dead.length) := by
  cases a with
  | backend b fails => exact h
  | acquire | exit | worker | complete | handler => trivial

theorem Lived.step (h : Lived n k dead s) {a : Act} (hg : IsolationGuard s a) (hs : s.step a = some s') :
    Lived n k dead s' := by
  obtain ⟨free, ten⟩ := h.tenancy
  have hguard := keep_isolationGuard h hg
  refine ⟨tenancy_step ten hguard.1 (keep_step dead hs), isolated_step ten h.isolated hguard (keep_step dead hs),
    fun i hi => ?_⟩
  by_cases ha : a = .worker
  · subst ha
    rcases worker_waking hs hi with ⟨rest, hw⟩ | hlooks
    · exact not_dead_of_begun ten (by rw [hw]; exact List.mem_cons_self)
    · exact h.waking i (waking_iff.2 (Or.inl hlooks))
  · rw [step_worker_stays ha hs] at hi
    exact h.waking i hi

/-- Whatever has been lost, a step is seen as steps of the service. -/
theorem Trusted.step {S : Server} {t : Atomic} (h : Trusted n k Down dead s S t) {a : Act}
    (hg : ServingNow Down S s a) (hcount : CountGuard s a) (hs : s.step a = some s') :
    ∃ t', run (atomicStep Down) t ((s.seen a).map .seen) = some t' ∧ Trusted n k Down dead s' S t' := by
  obtain ⟨t', ht', htracks⟩ := h.tracks.step (keep_servingGuard h.toLived hg) (keep_countGuard hcount)
    (keep_step dead hs)
  rw [keep_seen] at ht'
  exact ⟨t', ht', h.toLived.step hg.1 hs, htracks⟩

/-! ### Losses -/

/-- Nothing changes but what the worker's process holds, and its latch. -/
structure Shares (s s' : St) : Prop where
  pool : s'.pool = s.pool
  queue : s'.queue = s.queue
  requestId : s'.requestId = s.requestId
  backends : s'.backends = s.backends
  author : s'.author = s.author
  acquired : s'.acquired = s.acquired
  released : s'.released = s.released

/-- Slots that have been taken go to the calls `more`. -/
structure Loses (s s' : St) (more : List Rpc) : Prop extends Shares s s' where
  todo : s'.worker.todo = s.worker.todo
  taken : (s'.taken ++ more.flatMap Rpc.todo).Perm s.taken
  inHand : s'.worker.inHand ⊆ s.worker.inHand
  finishing : s'.worker.finishing ⊆ s.worker.finishing
  completed : s'.completed ⊆ s.completed
  releasing : ∀ i, s'.worker.releasing = some i → s.worker.releasing = some i
  waking : ∀ i, s'.worker.waking = some i → s.worker.waking = some i ∧ i ∉ more.flatMap Rpc.todo
  rpcs : s'.rpcs ⊆ s.rpcs

theorem Loses.mem (hl : Loses s s' more) : s'.mem = s.mem := by
  unfold St.mem
  rw [hl.pool]

theorem Loses.keep_waiting (hl : Loses s s' more) : (s'.keep (dead ++ more)).waiting = (s.keep dead).waiting := by
  unfold St.waiting
  rw [show (s'.keep (dead ++ more)).worker.todo = (s.keep dead).worker.todo from hl.todo,
    show (s'.keep (dead ++ more)).queue = (s.keep dead).queue from hl.queue]

theorem Loses.keep_taken (hl : Loses s s' more) : (s'.keep (dead ++ more)).taken.Perm (s.keep dead).taken := by
  have htaken := hl.taken
  rw [List.perm_iff_count] at htaken ⊢
  intro i
  have hcount := htaken i
  have hnew : (s'.keep (dead ++ more)).taken =
      s'.worker.begun ++ (((dead ++ more) ++ s'.rpcs).flatMap Rpc.todo ++ s'.completed) := rfl
  have hold : (s.keep dead).taken = s.worker.begun ++ ((dead ++ s.rpcs).flatMap Rpc.todo ++ s.completed) := rfl
  rw [hnew, hold]
  simp only [St.taken, List.flatMap_append, List.count_append] at hcount ⊢
  omega

/-- A call that is out then was out before, or is one of `more`. -/
theorem Loses.keep_rpcs (hl : Loses s s' more) {r : Rpc} (hr : r ∈ (s'.keep (dead ++ more)).rpcs) :
    r ∈ (s.keep dead).rpcs ∨ r ∈ more := by
  rcases List.mem_append.1 hr with hr | hr
  · exact (List.mem_append.1 hr).imp_left (List.mem_append_left _)
  · exact Or.inl (List.mem_append_right _ (hl.rpcs hr))

/-- **What is lost is in the hands of calls that nobody completes.** -/
theorem Lived.loses (h : Lived n k dead s) (hl : Loses s s' more) (hmore : ∀ r ∈ more, Vouched (s.keep dead) r) :
    Lived n k (dead ++ more) s' := by
  obtain ⟨free, ten⟩ := h.tenancy
  have hmem : (s'.keep (dead ++ more)).mem = (s.keep dead).mem := hl.mem
  have hauthor : (s'.keep (dead ++ more)).author = (s.keep dead).author := hl.author
  have hvouched : ∀ r ∈ (s'.keep (dead ++ more)).rpcs, Vouched (s.keep dead) r := by
    intro r hr
    rcases hl.keep_rpcs hr with hr | hr
    · exact ⟨h.isolated.unwritten r hr, h.isolated.written r hr⟩
    · exact hmore r hr
  refine ⟨⟨free, ?_⟩, ?_, fun i hi hdead => ?_⟩
  · refine ten.relist hl.pool hl.backends hl.acquired hl.released ?_ (fun i => by rw [hl.keep_waiting])
      (fun i => hl.keep_taken.count_eq i) (fun i hi => ten.releasing i (hl.releasing i hi))
      fun i hi => ten.waking i (hl.waking i hi).1
    rw [show (s'.keep (dead ++ more)).queue = (s.keep dead).queue from hl.queue]
    exact ten.ring
  · refine ⟨fun i hi => ?_, fun i hi => ?_, fun r hr => ?_, fun r hr => ?_, fun i hi => ?_, fun i hi => ?_,
      fun i hi hst => ?_⟩
    · rw [hmem]
      exact h.isolated.waiting i (hl.keep_waiting ▸ hi)
    · rw [hmem]
      exact h.isolated.inHand i (hl.inHand hi)
    · rw [hmem]
      exact (hvouched r hr).unwritten
    · rw [hmem, hauthor]
      exact (hvouched r hr).written
    · rw [hmem, hauthor]
      exact h.isolated.completed i (hl.completed hi)
    · rw [hmem, hauthor]
      exact h.isolated.finishing i (hl.finishing hi)
    · rw [hmem, hauthor]
      rw [show (s'.keep (dead ++ more)).pool = (s.keep dead).pool from hl.pool] at hst
      exact h.isolated.done i hi hst
  · obtain ⟨hwas, hnot⟩ := hl.waking i hi
    rw [List.flatMap_append] at hdead
    rcases List.mem_append.1 hdead with hdead | hmore
    · exact h.waking i hwas hdead
    · exact hnot hmore

theorem numbered_loses (h : Numbered (s.keep dead)) (hl : Loses s s' more) : Numbered (s'.keep (dead ++ more)) := by
  have hcarries : ∀ i id, (s'.keep (dead ++ more)).Carries i id → (s.keep dead).Carries i id := by
    intro i id hcarry
    unfold St.Carries at hcarry ⊢
    rw [show (s'.keep (dead ++ more)).mem = (s.keep dead).mem from hl.mem,
      show (s'.keep (dead ++ more)).backends = (s.keep dead).backends from hl.backends] at hcarry
    refine hcarry.imp_left fun ⟨hnamed, hid⟩ => ⟨?_, hid⟩
    rcases hnamed with hw | ht
    · exact Or.inl (hl.keep_waiting ▸ hw)
    · exact Or.inr (hl.keep_taken.mem_iff.1 ht)
  refine ⟨fun i id hi => ?_, fun i j id hi hj => h.unique i j id (hcarries i id hi) (hcarries j id hj)⟩
  rw [show (s'.keep (dead ++ more)).requestId = (s.keep dead).requestId from hl.requestId]
  exact h.given i id (hcarries i id hi)

theorem Honest.loses (h : Honest Up Down (s.keep dead)) (hl : Loses s s' more)
    (hmore : ∀ r ∈ more, Fair (s.keep dead) r) : Honest Up Down (s'.keep (dead ++ more)) where
  calls r hr := by
    rcases hl.keep_rpcs hr with hr | hr
    · exact h.calls r hr
    · exact (hmore r hr).honest Up Down h
  author := by
    rw [show (s'.keep (dead ++ more)).author = (s.keep dead).author from hl.author]
    exact h.author

/-- What is lost is as recent as before. -/
theorem Recent.loses {i : Nat} (h : Recent Up Down (s.keep dead) i) (hl : Loses s s' more)
    (hmore : ∀ r ∈ more, Fair (s.keep dead) r) : Recent Up Down (s'.keep (dead ++ more)) i where
  calls r hr hi o ho := by
    rcases hl.keep_rpcs hr with hr | hr
    · exact h.calls r hr hi o ho
    · exact (hmore r hr).recent i hi o ho Up Down h
  author ha c o hauthor := by
    rw [show (s'.keep (dead ++ more)).author = (s.keep dead).author from hl.author] at hauthor
    refine h.author ?_ c o hauthor
    rcases ha with ⟨r, hr, hi⟩ | hi | hi | hi
    · rcases hl.keep_rpcs hr with hr | hr
      · exact Or.inl ⟨r, hr, hi⟩
      · exact (hmore r hr).answered i hi
    · exact Or.inr (Or.inl (hl.completed hi))
    · exact Or.inr (Or.inr (Or.inl (hl.finishing hi)))
    · rw [show (s'.keep (dead ++ more)).pool = (s.keep dead).pool from hl.pool] at hi
      exact Or.inr (Or.inr (Or.inr hi))

theorem Trusted.loses {S : Server} {t : Atomic} (h : Trusted n k Down dead s S t) (hl : Loses s s' more)
    (hmore : ∀ r ∈ more, Vouched (s.keep dead) r ∧ Fair (s.keep dead) r) :
    Trusted n k Down (dead ++ more) s' S t := by
  have hlived := h.toLived.loses hl fun r hr => (hmore r hr).1
  have hfair : ∀ r ∈ more, Fair (s.keep dead) r := fun r hr => (hmore r hr).2
  refine ⟨hlived, ⟨hlived.tenancy, numbered_loses h.tracks.serving.numbered hl, hlived.isolated,
    h.tracks.serving.honest.loses hl hfair⟩, h.tracks.shows.congr hl.backends, h.tracks.server, ?_⟩
  rw [show (s'.keep (dead ++ more)).backends = (s.keep dead).backends from hl.backends]
  intro b job stage hb
  obtain ⟨hnow, hrecent⟩ := h.tracks.recent b job stage hb
  exact ⟨hnow, hrecent.loses hl hfair⟩

theorem loses_latch (s : St) (latch : Bool) : Loses s { s with latch := latch } [] where
  toShares := ⟨rfl, rfl, rfl, rfl, rfl, rfl, rfl⟩
  todo := rfl
  taken := by rw [List.flatMap_nil, List.append_nil]; rfl
  inHand := List.Subset.refl _
  finishing := List.Subset.refl _
  completed := List.Subset.refl _
  releasing _ h := h
  waking _ h := ⟨h, List.not_mem_nil⟩
  rpcs := List.Subset.refl _

/-- The worker goes back to wait without having drained. -/
theorem loses_pass (hw : s.worker = .drain) : Loses s { s with worker := .waitLatch } [] where
  toShares := ⟨rfl, rfl, rfl, rfl, rfl, rfl, rfl⟩
  todo := by rw [hw]; rfl
  taken := by rw [List.flatMap_nil, List.append_nil, St.taken, St.taken, hw]; rfl
  inHand := List.nil_subset _
  finishing := List.nil_subset _
  completed := List.Subset.refl _
  releasing _ h := by cases h
  waking _ h := by cases h
  rpcs := List.Subset.refl _

/-- **The completed queue goes**, or what has come in last. -/
theorem exists_loses_completed (h : Lived n k dead s) {left lost : List Nat} (hsplit : s.completed = left ++ lost)
    (hwaking : ∀ i, s.worker.waking = some i → i ∉ lost) : ∃ more : List Rpc, more.flatMap Rpc.todo = lost ∧
      Loses s { s with completed := left } more ∧ ∀ r ∈ more, Vouched (s.keep dead) r ∧ Fair (s.keep dead) r := by
  have hone : ∀ i ∈ lost, ∃ r, StandsFor (s.keep dead) i r := by
    intro i hi
    have hcompleted : i ∈ (s.keep dead).completed := by
      rw [show (s.keep dead).completed = left ++ lost from hsplit]
      exact List.mem_append_right _ hi
    exact standsFor_answered (h.isolated.completed i hcompleted) (Or.inr (Or.inl hcompleted))
  obtain ⟨more, hmore, hsound⟩ := exists_standIns lost hone
  refine ⟨more, hmore, ?_, hsound⟩
  exact {
    toShares := ⟨rfl, rfl, rfl, rfl, rfl, rfl, rfl⟩
    todo := rfl
    taken := by
      simp only [St.taken, hmore, hsplit, List.append_assoc]
      exact List.Perm.refl _
    inHand := List.Subset.refl _
    finishing := List.Subset.refl _
    completed := by
      rw [hsplit]
      exact List.subset_append_left _ _
    releasing := fun _ h => h
    waking := fun i hi => ⟨hi, by rw [hmore]; exact hwaking i hi⟩
    rpcs := List.Subset.refl _ }

/-- **The process ends.** -/
theorem exists_loses_ended (h : Lived n k dead s) (htodo : s.worker.todo = []) :
    ∃ more : List Rpc, (more.flatMap Rpc.todo).Perm s.taken ∧
      Loses s { s with worker := .waitLatch, completed := [], rpcs := [] } more ∧
      ∀ r ∈ more, Vouched (s.keep dead) r ∧ Fair (s.keep dead) r := by
  obtain ⟨free, ten⟩ := h.tenancy
  have hone : ∀ i ∈ s.worker.begun ++ s.completed, ∃ r, StandsFor (s.keep dead) i r := by
    intro i hi
    rcases List.mem_append.1 hi with hbegun | hcompleted
    · rcases begun_cases hbegun with hin | hfin
      · have hpos : 0 < (s.keep dead).taken.count i := List.count_pos_iff.2 (mem_taken.2 (Or.inl hbegun))
        exact standsFor_inHand h.isolated hin ((ten.tenure i).of_entry (by omega)).2.2.2.1
      · exact standsFor_answered (h.isolated.finishing i hfin) (Or.inr (Or.inr (Or.inl hfin)))
    · exact standsFor_answered (h.isolated.completed i hcompleted) (Or.inr (Or.inl hcompleted))
  obtain ⟨rs, hrs, hsound⟩ := exists_standIns _ hone
  have hperm : ((s.rpcs ++ rs).flatMap Rpc.todo).Perm s.taken := by
    rw [List.perm_iff_count]
    intro i
    simp only [St.taken, List.flatMap_append, hrs, List.count_append]
    omega
  refine ⟨s.rpcs ++ rs, hperm, ?_, fun r hr => ?_⟩
  · exact {
      toShares := ⟨rfl, rfl, rfl, rfl, rfl, rfl, rfl⟩
      todo := htodo.symm
      taken := hperm
      inHand := List.nil_subset _
      finishing := List.nil_subset _
      completed := List.nil_subset _
      releasing := fun _ h => by cases h
      waking := fun _ h => by cases h
      rpcs := List.nil_subset _ }
  · rcases List.mem_append.1 hr with hr | hr
    · have hr : r ∈ (s.keep dead).rpcs := List.mem_append_right _ hr
      exact ⟨⟨h.isolated.unwritten r hr, h.isolated.written r hr⟩, ⟨fun Up Down hh => hh.calls r hr,
        fun i hi o ho Up Down hh => hh.calls r hr hi o ho, fun i hi => Or.inl ⟨r, hr, hi⟩⟩⟩
    · exact hsound r hr

/-! ### What becomes of it -/

/-- The slot is in use, and its call, if there is one, waits for it. -/
structure LeftBehind (n : Nat) (free : List Nat) (s : St) (i : Nat) : Prop where
  lt : i < n
  not_free : i ∉ free
  state : (s.pool.slots i).state = .processing ∨ (s.pool.slots i).state = .canceled
  waits : ∀ b job stage, s.backends b = .running job stage → stage.owns = true → job.slot = i →
    stage.enqueued = true

theorem leftBehind_of_dead {free : List Nat} (ten : Tenancy n k (s.keep dead) free) {i : Nat}
    (hi : i ∈ dead.flatMap Rpc.todo) : LeftBehind n free s i := by
  have htaken : 0 < (s.keep dead).taken.count i := List.count_pos_iff.2 (keep_taken hi)
  obtain ⟨hlt, hfree, hone, -, ⟨⟨b, job, stage, hby⟩, hstate⟩ | ⟨hstate, hnone⟩⟩ :=
    (ten.tenure i).of_entry (by omega)
  · rw [if_neg (by omega)] at hstate
    refine ⟨hlt, hfree, Or.inl hstate, fun b' job' stage' hb' howns hslot => ?_⟩
    obtain rfl := hby.unique b' ⟨job', stage', hb', howns, hslot⟩
    have hb := hby.running
    rw [show (s.keep dead).backends b' = s.backends b' from rfl, hb'] at hb
    cases hb
    exact hby.enqueued
  · refine ⟨hlt, hfree, Or.inr hstate, fun b job stage hb howns hslot => ?_⟩
    exact absurd ⟨job, stage, hb, howns, hslot⟩ (hnone b)

/-- **The slots that are lost stay in use**, and are different ones. -/
theorem Lived.left (h : Lived n k dead s) {lost : List Nat} (hlost : (dead.flatMap Rpc.todo).Perm lost) :
    lost.Nodup ∧ ∃ free, s.pool.free.Spells free ∧ free.length + lost.length ≤ n ∧
      ∀ i ∈ lost, LeftBehind n free s i := by
  obtain ⟨free, ten⟩ := h.tenancy
  have hleft : ∀ i ∈ lost, LeftBehind n free s i := fun i hi => leftBehind_of_dead ten (hlost.mem_iff.2 hi)
  have hnodup : lost.Nodup := by
    obtain ⟨-, htaken, -⟩ := List.nodup_append.1 ten.entries_nodup
    obtain ⟨-, hcalls, -⟩ := List.nodup_append.1 htaken
    obtain ⟨htodo, -, -⟩ := List.nodup_append.1 hcalls
    rw [keep_todo] at htodo
    exact hlost.nodup_iff.1 (List.nodup_append.1 htodo).1
  refine ⟨hnodup, free, ten.spells, ?_, hleft⟩
  -- both are among the `n` slots, and apart
  have hboth : (free ++ lost).Nodup := by
    refine List.nodup_append.2 ⟨ten.nodup, hnodup, fun i hi j hj he => ?_⟩
    subst he
    exact (hleft i hj).not_free hi
  have hsub : free ++ lost ⊆ List.range n := by
    intro i hi
    rw [List.mem_range]
    rcases List.mem_append.1 hi with hfree | hlost
    · exact ((ten.tenure i).of_free hfree).1
    · exact (hleft i hlost).lt
  have hle := (List.Nodup.subperm hboth hsub).length_le
  rwa [List.length_append, List.length_range] at hle

/-- Whatever has been lost, a response is the one to the call's own request. -/
theorem Lived.returnsOwn (h : Lived n k dead s) : ReturnsOwn s := by
  obtain ⟨free, ten⟩ := h.tenancy
  intro b job hb
  obtain ⟨hlt, -, ⟨hasks, hat⟩, -⟩ := (ten.tenure job.slot).of_owner hb rfl rfl
  exact ⟨hasks, h.isolated.done job.slot hlt hat.1⟩

end

end PostFga
