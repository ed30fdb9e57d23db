import PostFga.Channel.System
import PostFga.Sql.Wire
/-
# Who has a slot

Queue entries, drained slots, issued calls and completions name slots and nobody checks that a slot
is still the one they were made for. `Tenancy` says that it is:

* a free slot is EMPTY and nothing names it;
* a slot that a call owns has no other owner, and is named by at most one entry: by none while the
  request is written, then by one that waits (PENDING), one that is being worked on (PROCESSING), or
  by none again (DONE);
* a slot that was given up while an entry names it is CANCELED, and the worker will find it so;
* a slot that is neither is lost.

`Guard` is what a step must not do.
-/

namespace PostFga

/-- The slot is the call's at this stage. -/
def Stage.owns : Stage → Bool
  | .wait .catchWritePid | .formTuple | .catchBlock .execute | .catchBlock .formTuple => false
  | _ => true

/-- The slot has been enqueued, and the wait is not over. -/
def Stage.enqueued : Stage → Bool
  | .wakeBgw | .wait .readState | .wait .waitLatch | .wait .catchReadState | .wait .catchCancel => true
  | _ => false

def Backend.Owns (backend : Backend) (i : Nat) : Prop :=
  ∃ job stage, backend = .running job stage ∧ stage.owns = true ∧ job.slot = i

/-! ## What names a slot -/

/-- The slots whose request has not been begun. -/
def WorkerPc.todo : WorkerPc → List Nat
  | .begin todo _ => todo
  | .releaseCanceled i todo _ => i :: todo
  | _ => []

/-- The slots the worker has begun and not handed over, and those it has yet to complete. -/
def WorkerPc.begun : WorkerPc → List Nat
  | .begin _ begun | .releaseCanceled _ _ begun => begun
  | .handle i .readState rest | .handle i .releaseCanceled rest | .handle i .writeDone rest => i :: rest
  | .handle _ .lookup rest | .handle _ .releaseUnfound rest => rest
  | _ => []

def St.waiting (s : St) : List Nat := (queueContents s.queue).map UInt16.toNat ++ s.worker.todo

def St.taken (s : St) : List Nat := s.worker.begun ++ (s.rpcs.flatMap Rpc.todo ++ s.completed)

theorem mem_waiting {s : St} {i : Nat} : i ∈ s.waiting ↔
    i ∈ (queueContents s.queue).map UInt16.toNat ∨ i ∈ s.worker.todo := List.mem_append

theorem mem_taken {s : St} {i : Nat} : i ∈ s.taken ↔
    i ∈ s.worker.begun ∨ i ∈ s.rpcs.flatMap Rpc.todo ∨ i ∈ s.completed := by
  unfold St.taken
  rw [List.mem_append, List.mem_append]

/-- Nobody owns the slot, it is not free, and nothing names it. -/
def St.Lost (s : St) (i : Nat) : Prop :=
  (s.pool.slots i).state ≠ .empty ∧ (∀ b, ¬ (s.backends b).Owns i) ∧ i ∉ s.waiting ∧ i ∉ s.taken

/-- * A `PG_CATCH` does not release when `fga_channel_execute_slot` has raised the ERROR, nor after the
  function's own release;
* `wakeBackend` does not release unless the slot is lost. -/
def Guard (s : St) : Act → Prop
  | .backend b _ => ∀ job raised, s.backends b = .running job (.catchBlock raised) →
      raised ≠ .execute ∧ raised ≠ .formTuple
  | .worker => ∀ i rest, s.worker = .handle i .releaseUnfound rest → s.Lost i
  | _ => True

/-! ## The invariant -/

/-- The request of the call. -/
def Job.Asks (job : Job) (r : FgaRequest) : Prop := job.call.request job.config job.requestId = .ok r

/-- The writes up to `todo` have been done to a payload of zeros. -/
def Job.Filling (job : Job) (p : FgaPayload) (todo : List FieldWrite) (err : Option SqlError) : Prop :=
  ∃ done ws, job.call.writes job.config = (ws, err) ∧
    acquireWrites job.requestId ++ ws = done ++ todo ∧ p = applyWrites done .zero

/-- The state of a slot, and how many entries that wait and that are taken name it. -/
def At (slot : FgaChannelSlot) (w t : Nat) (st : FgaChannelSlotState) (w' t' : Nat) : Prop :=
  slot.state = st ∧ w = w' ∧ t = t'

/-- The slot of a call, by the stage of the call. -/
def HeldAt (job : Job) (slot : FgaChannelSlot) (w t : Nat) : Stage → Prop
  | .setPid | .resetPayload | .queueFull | .catchBlock .before => At slot w t .pending 0 0
  | .nextRequestId => At slot w t .pending 0 0 ∧ slot.payload = .zero
  | .fill todo err => At slot w t .pending 0 0 ∧ job.Filling slot.payload todo err
  | .wakeBgw | .wait .readState | .wait .waitLatch | .wait .catchReadState | .wait .catchCancel =>
    job.Asks slot.payload.request ∧
      (At slot w t .pending 1 0 ∨ At slot w t .processing 0 1 ∨ At slot w t .done 0 0)
  | .wait .catchRelease | .canceled | .response | .release | .catchBlock .response =>
    job.Asks slot.payload.request ∧ At slot w t .done 0 0
  | .wait .catchWritePid | .formTuple | .catchBlock .execute | .catchBlock .formTuple => False

inductive Tenure (n : Nat) (backends : Nat → Backend) (slot : FgaChannelSlot) (isFree : Prop)
    (w t i : Nat) : Prop where
  | free (hn : i < n) (hf : isFree) (hat : At slot w t .empty 0 0) (ho : ∀ b, ¬ (backends b).Owns i)
  | held (hn : i < n) (hf : ¬ isFree) (b : Nat) (job : Job) (stage : Stage)
    (hb : backends b = .running job stage) (hi : job.slot = i) (hat : HeldAt job slot w t stage)
    (ho : ∀ b', (backends b').Owns i → b' = b)
  | cancelled (hn : i < n) (hf : ¬ isFree) (hst : slot.state = .canceled) (hwt : w + t = 1)
    (hc : slot.payload.request.Callable) (ho : ∀ b, ¬ (backends b).Owns i)
  | lost (hf : ¬ isFree) (hst : i < n → slot.state ≠ .empty) (hw : w = 0) (ht : t = 0)
    (ho : ∀ b, ¬ (backends b).Owns i)

/-- The slot the worker is about to release because it was CANCELED. -/
def WorkerPc.releasing : WorkerPc → Option Nat
  | .releaseCanceled i _ _ | .handle i .releaseCanceled _ => some i
  | _ => none

/-- The slot whose backend the worker is about to wake. -/
def WorkerPc.waking : WorkerPc → Option Nat
  | .handle i .lookup _ | .handle i .releaseUnfound _ => some i
  | _ => none

structure Tenancy (n k : Nat) (s : St) (free : List Nat) : Prop where
  /-- An index fits in the ring. -/
  fits : n ≤ 2 ^ 16
  ring : Ring s.queue k (queueContents s.queue)
  spells : s.pool.free.Spells free
  nodup : free.Nodup
  tenure : ∀ i, Tenure n s.backends (s.pool.slots i) (i ∈ free) (s.waiting.count i) (s.taken.count i) i
  account : ∀ i < n, s.acquired i = s.released i + if i ∈ free then 0 else 1
  releasing : ∀ i, s.worker.releasing = some i → (s.pool.slots i).state = .canceled
  waking : ∀ i, s.worker.waking = some i → i < n

/-! ## Ownership -/

theorem owns_running {job : Job} {stage : Stage} {i : Nat} :
    (Backend.running job stage).Owns i ↔ stage.owns = true ∧ job.slot = i := by
  constructor
  · rintro ⟨job', stage', he, ho, hi⟩
    cases he
    exact ⟨ho, hi⟩
  · rintro ⟨ho, hi⟩
    exact ⟨job, stage, rfl, ho, hi⟩

@[simp] theorem not_owns_idle (i : Nat) : ¬ Backend.idle.Owns i := by
  rintro ⟨job, stage, he, -⟩; cases he

@[simp] theorem not_owns_gone (i : Nat) : ¬ Backend.gone.Owns i := by
  rintro ⟨job, stage, he, -⟩; cases he

/-- What a call asks for has an RPC. -/
theorem asks_callable {job : Job} {r : FgaRequest} (h : job.Asks r) : r.Callable := by
  let mem : Nat → FgaPayload := fun _ => ⟨r, FgaPayload.zero.response⟩
  have hmem : (mem 0).request = r := rfl
  have hs := handleRequest_slots mem 0
  rw [show handleRequest mem 0 = _ from process_asks h hmem] at hs
  by_contra hc
  rw [if_neg hc] at hs
  cases hcall : job.call <;> simp [hcall, SqlCall.asks, Call.slots] at hs

theorem HeldAt.owns {job : Job} {slot : FgaChannelSlot} {w t : Nat} {stage : Stage}
    (h : HeldAt job slot w t stage) : stage.owns = true := by
  unfold HeldAt at h
  split at h <;> first | rfl | exact h.elim

/-- The owner of slot `j`, if it has one, is the same and at the same stage. -/
def SameOwner (B B' : Nat → Backend) (j : Nat) : Prop :=
  ∀ b job stage, stage.owns = true → job.slot = j → (B' b = .running job stage ↔ B b = .running job stage)

theorem SameOwner.refl (B : Nat → Backend) (j : Nat) : SameOwner B B j := fun _ _ _ _ _ => Iff.rfl

section
variable {B B' : Nat → Backend} {b j : Nat} {x : Backend}

theorem sameOwner_update (h : ¬ (B b).Owns j) (hx : ¬ x.Owns j) : SameOwner B (Function.update B b x) j := by
  intro b' job stage ho hj
  by_cases hb : b' = b
  · subst hb
    rw [Function.update_self]
    constructor
    · intro he; exact absurd ⟨job, stage, he, ho, hj⟩ hx
    · intro he; exact absurd ⟨job, stage, he, ho, hj⟩ h
  · rw [Function.update_of_ne hb]

theorem SameOwner.owns (h : SameOwner B B' j) (b : Nat) : (B' b).Owns j ↔ (B b).Owns j := by
  constructor
  · rintro ⟨job, stage, he, ho, hj⟩; exact ⟨job, stage, (h b job stage ho hj).1 he, ho, hj⟩
  · rintro ⟨job, stage, he, ho, hj⟩; exact ⟨job, stage, (h b job stage ho hj).2 he, ho, hj⟩

theorem no_owner_update (h : ∀ b', (B b').Owns j → b' = b) (hx : ¬ x.Owns j) (b' : Nat) :
    ¬ (Function.update B b x b').Owns j := by
  by_cases hb : b' = b
  · subst hb; rwa [Function.update_self]
  · rw [Function.update_of_ne hb]
    exact fun ho => hb (h b' ho)

theorem owner_update (h : ∀ b', (B b').Owns j → b' = b) (x : Backend) (b' : Nat)
    (ho : (Function.update B b x b').Owns j) : b' = b := by
  by_contra hb
  rw [Function.update_of_ne hb] at ho
  exact hb (h b' ho)

end

/-! ## Tenures -/

section
variable {n : Nat} {B B' : Nat → Backend} {slot slot' : FgaChannelSlot} {F F' : Prop} {w t w' t' i : Nat}

/-- Slots that a step is not about. -/
theorem Tenure.frame (h : Tenure n B slot F w t i) (hB : SameOwner B B' i) (hst : slot'.state = slot.state)
    (hp : slot'.payload = slot.payload) (hF : F' ↔ F) (hw : w' = w) (ht : t' = t) :
    Tenure n B' slot' F' w' t' i := by
  subst hw ht
  have hno : (∀ b, ¬ (B b).Owns i) → ∀ b, ¬ (B' b).Owns i := fun ho b hb => ho b ((hB.owns b).1 hb)
  cases h with
  | free hn hf hat ho => exact .free hn (hF.2 hf) (by unfold At at *; rwa [hst]) (hno ho)
  | held hn hf b job stage hb hi hat ho =>
    refine .held hn (fun hf' => hf (hF.1 hf')) b job stage ((hB b job stage hat.owns hi).2 hb) hi ?_
      fun b' hb' => ho b' ((hB.owns b').1 hb')
    have he : slot' = { slot' with state := slot.state, payload := slot.payload } := by rw [← hst, ← hp]
    rw [he]
    unfold HeldAt At at *
    exact hat
  | cancelled hn hf hs hwt hc ho =>
    exact .cancelled hn (fun hf' => hf (hF.1 hf')) (hst.trans hs) hwt (by rwa [hp]) (hno ho)
  | lost hf hs hw ht ho =>
    exact .lost (fun hf' => hf (hF.1 hf')) (fun hn he => hs hn (hst.symm.trans he)) hw ht (hno ho)

/-- A slot on the free list. -/
theorem Tenure.of_free (h : Tenure n B slot F w t i) (hF : F) :
    i < n ∧ At slot w t .empty 0 0 ∧ ∀ b, ¬ (B b).Owns i := by
  cases h with
  | free hn hf hat ho => exact ⟨hn, hat, ho⟩
  | held hn hf => exact absurd hF hf
  | cancelled hn hf => exact absurd hF hf
  | lost hf => exact absurd hF hf

/-- A slot that an owner has. -/
theorem Tenure.of_owner (h : Tenure n B slot F w t i) {b : Nat} {job : Job} {stage : Stage}
    (hb : B b = .running job stage) (ho : stage.owns = true) (hi : job.slot = i) :
    i < n ∧ ¬ F ∧ HeldAt job slot w t stage ∧ ∀ b', (B b').Owns i → b' = b := by
  have hown : (B b).Owns i := ⟨job, stage, hb, ho, hi⟩
  cases h with
  | free hn hf hat hno => exact absurd hown (hno b)
  | held hn hf b' job' stage' hb' hi' hat huniq =>
    obtain rfl := huniq b hown
    rw [hb] at hb'
    cases hb'
    exact ⟨hn, hf, hat, huniq⟩
  | cancelled hn hf hs hwt hc hno => exact absurd hown (hno b)
  | lost hf hs hw ht hno => exact absurd hown (hno b)

theorem HeldAt.state_ne_empty {job : Job} {stage : Stage} (h : HeldAt job slot w t stage) :
    slot.state ≠ .empty := by
  unfold HeldAt At at h
  split at h <;> grind

/-- Only a call that has enqueued its slot has an entry for it. -/
theorem HeldAt.enqueued {job : Job} {stage : Stage} (h : HeldAt job slot w t stage) (hwt : 0 < w + t) :
    stage.enqueued = true := by
  unfold HeldAt At at h
  split at h <;> first | rfl | omega | exact h.elim

theorem heldAt_enqueued {job : Job} {stage : Stage} (he : stage.enqueued = true) :
    HeldAt job slot w t stage ↔ job.Asks slot.payload.request ∧
      (At slot w t .pending 1 0 ∨ At slot w t .processing 0 1 ∨ At slot w t .done 0 0) := by
  unfold Stage.enqueued at he
  split at he <;> first | exact Iff.rfl | cases he

/-- The owner of an enqueued slot. -/
structure EnqueuedBy (B : Nat → Backend) (slot : FgaChannelSlot) (i b : Nat) (job : Job) (stage : Stage) :
    Prop where
  running : B b = .running job stage
  slot_eq : job.slot = i
  enqueued : stage.enqueued = true
  asks : job.Asks slot.payload.request
  unique : ∀ b', (B b').Owns i → b' = b

/-- A slot that an entry names is its owner's, who has enqueued it, or was given up. -/
theorem Tenure.of_entry (h : Tenure n B slot F w t i) (hwt : 0 < w + t) : i < n ∧ ¬ F ∧ w + t = 1 ∧
    slot.payload.request.Callable ∧
    ((∃ b job stage, EnqueuedBy B slot i b job stage) ∧
        slot.state = (if 0 < w then .pending else .processing) ∨
      slot.state = .canceled ∧ ∀ b, ¬ (B b).Owns i) := by
  cases h with
  | free hn hf hat ho => obtain ⟨-, h1, h2⟩ := hat; omega
  | held hn hf b job stage hb hi hat ho =>
    have he := hat.enqueued hwt
    obtain ⟨hasks, hcase⟩ := (heldAt_enqueued he).1 hat
    have hst : w + t = 1 ∧ slot.state = if 0 < w then .pending else .processing := by
      rcases hcase with ⟨hs, rfl, rfl⟩ | ⟨hs, rfl, rfl⟩ | ⟨hs, rfl, rfl⟩
      · exact ⟨rfl, hs⟩
      · exact ⟨rfl, hs⟩
      · omega
    exact ⟨hn, hf, hst.1, asks_callable hasks, Or.inl ⟨⟨b, job, stage, hb, hi, he, hasks, ho⟩, hst.2⟩⟩
  | cancelled hn hf hs hwt' hc ho => exact ⟨hn, hf, hwt', hc, Or.inr ⟨hs, ho⟩⟩
  | lost hf hs hw' ht ho => omega

end

/-! ## Steps -/

section
variable {n k : Nat} {s s' : St} {free free' : List Nat}

/-- A step is about one slot; nothing about the others changes. -/
theorem Tenancy.of_slot (h : Tenancy n k s free) (i : Nat)
    (hring : Ring s'.queue k (queueContents s'.queue)) (hspells : s'.pool.free.Spells free')
    (hnodup : free'.Nodup) (hB : ∀ j, j ≠ i → SameOwner s.backends s'.backends j)
    (hslots : ∀ j, j ≠ i → s'.pool.slots j = s.pool.slots j)
    (hfree : ∀ j, j ≠ i → (j ∈ free' ↔ j ∈ free))
    (hw : ∀ j, j ≠ i → s'.waiting.count j = s.waiting.count j)
    (ht : ∀ j, j ≠ i → s'.taken.count j = s.taken.count j)
    (hacq : ∀ j, j ≠ i → s'.acquired j = s.acquired j ∧ s'.released j = s.released j)
    (hi : Tenure n s'.backends (s'.pool.slots i) (i ∈ free') (s'.waiting.count i) (s'.taken.count i) i)
    (hacc : i < n → s'.acquired i = s'.released i + if i ∈ free' then 0 else 1)
    (hrel : ∀ j, s'.worker.releasing = some j → (s'.pool.slots j).state = .canceled)
    (hwake : ∀ j, s'.worker.waking = some j → j < n) : Tenancy n k s' free' where
  fits := h.fits
  ring := hring
  spells := hspells
  nodup := hnodup
  tenure j := by
    by_cases hj : j = i
    · subst hj; exact hi
    · exact (h.tenure j).frame (hB j hj) (by rw [hslots j hj]) (by rw [hslots j hj]) (hfree j hj) (hw j hj)
        (ht j hj)
  account j hjn := by
    by_cases hj : j = i
    · subst hj; exact hacc hjn
    · rw [(hacq j hj).1, (hacq j hj).2, h.account j hjn]
      simp only [hfree j hj]
  releasing := hrel
  waking := hwake

/-- The slot the worker is about to release has no owner. -/
theorem Tenancy.releasing_no_owner (h : Tenancy n k s free) {i : Nat} (hi : s.worker.releasing = some i) :
    i < n ∧ i ∉ free ∧ s.waiting.count i + s.taken.count i = 1 ∧ ∀ b, ¬ (s.backends b).Owns i := by
  have hst := h.releasing i hi
  have hmem : i ∈ s.worker.todo ∨ i ∈ s.worker.begun := by
    unfold WorkerPc.releasing at hi
    split at hi
    · cases hi; rename_i hw; exact Or.inl (by simp [hw, WorkerPc.todo])
    · cases hi; rename_i hw; exact Or.inr (by simp [hw, WorkerPc.begun])
    · cases hi
  have hwt : 0 < s.waiting.count i + s.taken.count i := by
    rcases hmem with hm | hm
    · have : 0 < s.waiting.count i := List.count_pos_iff.2 (by simp [St.waiting, hm])
      omega
    · have : 0 < s.taken.count i := List.count_pos_iff.2 (by simp [St.taken, hm])
      omega
  obtain ⟨hn, hf, hone, -, ⟨-, hst'⟩ | ⟨-, ho⟩⟩ := (h.tenure i).of_entry hwt
  · rw [hst] at hst'
    split at hst' <;> cases hst'
  · exact ⟨hn, hf, hone, ho⟩

end

end PostFga
