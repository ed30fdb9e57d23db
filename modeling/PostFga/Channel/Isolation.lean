import PostFga.Channel.TenancyWorker
/-
# Whose response a call gets

`Isolated` follows the response of a slot from the zeros of `fga_channel_acquire_slot` to the answer of
a call of the client that was issued for the request in the slot.

* `IsolationGuard` — the tenancy's guard, and the checks handed over together name one store and one
  model.
* `isolated_run` — in every run that meets it, the worker begins no request but a complete one that
  its call has enqueued, and every call that gets a response gets the one to its own request.
* `not_isolated_cancelled` — a run that does not: a cancelled `fga_write_tuple` releases its slot, which
  is still queued.
-/

namespace PostFga

open Transition

/-- The call asks the request `r` of slot `i`: alone, or as one check of a batch, under its id. -/
def Call.IssuedFor (c : Call) (i : Nat) (r : FgaRequest) : Prop :=
  match c with
  | .batchCheck slots req => i ∈ slots ∧ makeRequestVariant r = .checkTuple ∧
      req.storeId = r.storeId.cstr ∧ req.authorizationModelId = r.modelId.cstr ∧
      ⟨correlationId r, fillTupleKey r.body⟩ ∈ req.checks
  | c => handleRequest (fun _ => ⟨r, FgaPayload.zero.response⟩) i = [c]

/-- The response is what the handler of a call issued for the request leaves in a payload that was
zero but for the request. -/
def Answered (p : FgaPayload) (author : Option (Call × RpcOutcome)) (i : Nat) : Prop :=
  ∃ c o, author = some (c, o) ∧ c.IssuedFor i p.request ∧
    p = c.complete o ⟨p.request, FgaPayload.zero.response⟩

/-- The checks handed over together name one store and one model. -/
def SameStore (mem : Nat → FgaPayload) (items : List Nat) : Prop :=
  ∀ i ∈ items, ∀ j ∈ items, isCheckTuple mem i = true → isCheckTuple mem j = true →
    (mem i).request.storeId.cstr = (mem j).request.storeId.cstr ∧
    (mem i).request.modelId.cstr = (mem j).request.modelId.cstr

instance (mem : Nat → FgaPayload) (items : List Nat) : Decidable (SameStore mem items) :=
  inferInstanceAs (Decidable (∀ i ∈ items, ∀ j ∈ items, _ → _ → _ ∧ _))

def IsolationGuard (s : St) (a : Act) : Prop :=
  Guard s a ∧ (a = .worker → ∀ begun, s.worker = .begin [] begun → SameStore s.mem begun)

/-- Begun, and not handed to the client. -/
def WorkerPc.inHand : WorkerPc → List Nat
  | .begin _ begun | .releaseCanceled _ _ begun => begun
  | _ => []

/-- Taken from the completed queue, and not DONE. -/
def WorkerPc.finishing : WorkerPc → List Nat
  | .handle i .readState rest | .handle i .releaseCanceled rest | .handle i .writeDone rest => i :: rest
  | .handle _ .lookup rest | .handle _ .releaseUnfound rest => rest
  | _ => []

/-- The slots the handler of a call has not written to. -/
def Rpc.unwritten (r : Rpc) : List Nat :=
  match r.pc with
  | .append _ => r.todo.tail
  | _ => r.todo

/-- The slot the handler has written to and not appended. -/
def Rpc.written (r : Rpc) : Option Nat :=
  match r.pc with
  | .append _ => r.todo.head?
  | _ => none

structure Isolated (n : Nat) (s : St) : Prop where
  waiting : ∀ i ∈ s.waiting, (s.mem i).response = FgaPayload.zero.response
  inHand : ∀ i ∈ s.worker.inHand, (s.mem i).response = FgaPayload.zero.response
  unwritten : ∀ r ∈ s.rpcs, ∀ i ∈ r.unwritten,
    (s.mem i).response = FgaPayload.zero.response ∧ r.call.IssuedFor i (s.mem i).request
  written : ∀ r ∈ s.rpcs, ∀ i, r.written = some i → Answered (s.mem i) (s.author i) i
  completed : ∀ i ∈ s.completed, Answered (s.mem i) (s.author i) i
  finishing : ∀ i ∈ s.worker.finishing, Answered (s.mem i) (s.author i) i
  done : ∀ i < n, (s.pool.slots i).state = .done → Answered (s.mem i) (s.author i) i

/-! ## Calls and requests -/

theorem handleRequest_congr {mem mem' : Nat → FgaPayload} {i : Nat}
    (h : (mem i).request = (mem' i).request) : handleRequest mem i = handleRequest mem' i := by
  unfold handleRequest
  rw [h]

/-- A call that the client issues for a slot is issued for its request. -/
theorem issuedFor_processBatch {mem : Nat → FgaPayload} {items : List Nat} (hsame : SameStore mem items)
    {c : Call} (hc : c ∈ processBatch mem items) {i : Nat} (hi : i ∈ c.slots) :
    c.IssuedFor i (mem i).request := by
  rcases mem_processBatch hc with ⟨j, -, hj⟩ | hc
  · obtain rfl : i = j := by
      rw [slots_of_mem_handleRequest hj, List.mem_singleton] at hi
      exact hi
    have hone : handleRequest mem i = [c] := by
      have hlen : (handleRequest mem i).length ≤ 1 := by
        unfold handleRequest
        dsimp only
        split <;> simp
      match hl : handleRequest mem i, hj, hlen with
      | [c'], hj, _ => rw [List.mem_singleton] at hj; rw [hj]
      | c' :: d :: l, _, hlen => simp at hlen
    have hone' : handleRequest (fun _ => ⟨(mem i).request, FgaPayload.zero.response⟩) i = [c] :=
      (handleRequest_congr rfl).trans hone
    unfold Call.IssuedFor
    cases c with
    | batchCheck slots req =>
      exfalso
      unfold handleRequest at hone
      dsimp only at hone
      split at hone <;> simp at hone
    | _ => exact hone'
  · obtain ⟨first, hfirst, rfl⟩ := mem_handleCheckBatch hc
    obtain ⟨hfirst, hfck⟩ := List.mem_filter.1 hfirst
    obtain ⟨hmem, hck⟩ := List.mem_filter.1 hi
    obtain ⟨hst, hmo⟩ := hsame first hfirst i hmem hfck hck
    refine ⟨hi, by simpa [isCheckTuple] using hck, hst, hmo, ?_⟩
    exact List.mem_map.2 ⟨i, hi, rfl⟩

/-! ## Where an entry is, it is once -/

section
variable {n k : Nat} {s s' : St} {free free' : List Nat}

theorem inHand_sub {w : WorkerPc} {i : Nat} (h : i ∈ w.inHand) : i ∈ w.begun := by
  cases w <;> first | exact h | cases h

theorem finishing_sub {w : WorkerPc} {i : Nat} (h : i ∈ w.finishing) : i ∈ w.begun := by
  cases w with
  | handle j pc rest => cases pc <;> exact h
  | _ => cases h

theorem unwritten_sub {r : Rpc} {i : Nat} (h : i ∈ r.unwritten) : i ∈ r.todo := by
  unfold Rpc.unwritten at h
  split at h
  · exact List.mem_of_mem_tail h
  · exact h

theorem written_mem {r : Rpc} {i : Nat} (h : r.written = some i) : i ∈ r.todo := by
  unfold Rpc.written at h
  split at h
  · exact List.mem_of_mem_head? h
  · cases h

/-- A slot without entries is in none of the places. -/
theorem Tenancy.no_entry (h : Tenancy n k s free) {b : Nat} {job : Job} {stage : Stage}
    (hb : s.backends b = .running job stage) (ho : stage.owns = true) (hne : stage.enqueued = false) :
    job.slot ∉ s.waiting ∧ job.slot ∉ s.taken := by
  obtain ⟨-, -, hat, -⟩ := (h.tenure job.slot).of_owner hb ho rfl
  rw [← List.count_eq_zero, ← List.count_eq_zero]
  by_contra hcon
  have := hat.enqueued (by omega)
  rw [hne] at this
  cases this

/-- The entries that name a slot are one. -/
theorem Tenancy.entries_nodup (h : Tenancy n k s free) : (s.waiting ++ s.taken).Nodup := by
  rw [List.nodup_iff_count_le_one]
  intro i
  rw [List.count_append]
  by_contra hcon
  have := ((h.tenure i).of_entry (by omega)).2.2.1
  omega

/-- A slot an issued call has to complete is with no other call, and nowhere else. -/
theorem Tenancy.todo_alone (h : Tenancy n k s free) {m : Nat} {r : Rpc} (hr : s.rpcs[m]? = some r) {i : Nat}
    (hi : i ∈ r.todo) : r.todo.Nodup ∧ i ∉ s.waiting ∧ i ∉ s.worker.begun ∧ i ∉ s.completed ∧
      ∀ m' r', s.rpcs[m']? = some r' → i ∈ r'.todo → m' = m := by
  obtain ⟨-, hnd, hdisj⟩ := List.nodup_append.1 h.entries_nodup
  obtain ⟨-, hnd', hdisj'⟩ := List.nodup_append.1 hnd
  obtain ⟨hrpcs, -, hdisj''⟩ := List.nodup_append.1 hnd'
  have hmem := mem_todo_of_get hr hi
  obtain ⟨hself, hpair⟩ := List.nodup_flatMap.1 hrpcs
  refine ⟨hself r (List.mem_of_getElem? hr), fun hw => ?_, fun hb => ?_, fun hc => ?_, fun m' r' hr' hi' => ?_⟩
  · exact hdisj i hw i (by simp only [St.taken, List.mem_append]; exact Or.inr (Or.inl hmem)) rfl
  · exact hdisj' i hb i (List.mem_append_left _ hmem) rfl
  · exact hdisj'' i hmem i hc rfl
  · by_contra hne
    obtain ⟨hm, rfl⟩ := List.getElem?_eq_some_iff.1 hr
    obtain ⟨hm', rfl⟩ := List.getElem?_eq_some_iff.1 hr'
    rw [List.pairwise_iff_getElem] at hpair
    rcases Nat.lt_or_gt_of_ne hne with hlt | hgt
    · exact hpair m' m hm' hm hlt hi' hi
    · exact hpair m m' hm hm' hgt hi hi'

/-- A slot an issued call has to complete is not DONE. -/
theorem Tenancy.todo_ne_done (h : Tenancy n k s free) {m : Nat} {r : Rpc} (hr : s.rpcs[m]? = some r) {i : Nat}
    (hi : i ∈ r.todo) : (s.pool.slots i).state ≠ .done := by
  intro hst
  have hpos : 0 < s.taken.count i :=
    List.count_pos_iff.2 (mem_taken.2 (Or.inr (Or.inl (mem_todo_of_get hr hi))))
  obtain ⟨-, -, -, -, ⟨-, hs⟩ | ⟨hs, -⟩⟩ := (h.tenure i).of_entry (by omega)
  · rw [hst] at hs
    split at hs <;> cases hs
  · rw [hst] at hs; cases hs

/-! ## What a step keeps -/

/-- Steps that leave the responses of named slots alone. -/
theorem Isolated.move (h : Isolated n s) (hmem : ∀ i, i ∈ s.waiting ∨ i ∈ s.taken → s'.mem i = s.mem i)
    (hauthor : s'.author = s.author) (hrpcs : s'.rpcs = s.rpcs)
    (hwait : ∀ i ∈ s'.waiting, i ∈ s.waiting)
    (hhand : ∀ i ∈ s'.worker.inHand, i ∈ s.waiting ∨ i ∈ s.worker.inHand)
    (hcompleted : ∀ i ∈ s'.completed, i ∈ s.completed)
    (hfinishing : ∀ i ∈ s'.worker.finishing, i ∈ s.completed ∨ i ∈ s.worker.finishing)
    (hdone : ∀ i < n, (s'.pool.slots i).state = .done →
      i ∈ s.worker.finishing ∨ (s.pool.slots i).state = .done ∧ s'.mem i = s.mem i) : Isolated n s' := by
  have htaken : ∀ i, i ∈ s.worker.begun ∨ i ∈ s.rpcs.flatMap Rpc.todo ∨ i ∈ s.completed → s'.mem i = s.mem i :=
    fun i hi => hmem i (Or.inr (by simp only [St.taken, List.mem_append]; exact hi))
  have hrpc : ∀ r ∈ s.rpcs, ∀ i ∈ r.todo, s'.mem i = s.mem i :=
    fun r hr i hi => htaken i (Or.inr (Or.inl (List.mem_flatMap.2 ⟨r, hr, hi⟩)))
  refine ⟨fun i hi => ?_, fun i hi => ?_, fun r hr i hi => ?_, fun r hr i hi => ?_, fun i hi => ?_, fun i hi => ?_,
    fun i hn hst => ?_⟩
  · rw [hmem i (Or.inl (hwait i hi))]
    exact h.waiting i (hwait i hi)
  · rcases hhand i hi with hi | hi
    · rw [hmem i (Or.inl hi)]; exact h.waiting i hi
    · rw [htaken i (Or.inl (inHand_sub hi))]; exact h.inHand i hi
  · rw [hrpcs] at hr
    rw [hrpc r hr i (unwritten_sub hi)]
    exact h.unwritten r hr i hi
  · rw [hrpcs] at hr
    rw [hrpc r hr i (written_mem hi), hauthor]
    exact h.written r hr i hi
  · have hi' := hcompleted i hi
    rw [htaken i (Or.inr (Or.inr hi')), hauthor]
    exact h.completed i hi'
  · rcases hfinishing i hi with hi | hi
    · rw [htaken i (Or.inr (Or.inr hi)), hauthor]; exact h.completed i hi
    · rw [htaken i (Or.inl (finishing_sub hi)), hauthor]; exact h.finishing i hi
  · rcases hdone i hn hst with hi | ⟨hst', hm⟩
    · rw [htaken i (Or.inl (finishing_sub hi)), hauthor]; exact h.finishing i hi
    · rw [hm, hauthor]; exact h.done i hn hst'

theorem applyWrites_response (ws : List FieldWrite) (p : FgaPayload)
    (h : p.response = FgaPayload.zero.response) :
    (applyWrites ws p).response = FgaPayload.zero.response := by
  induction ws generalizing p with
  | nil => exact h
  | cons w ws ih =>
    rw [applyWrites_cons]
    refine ih _ ?_
    cases w <;> first | rfl | exact h

theorem isolated_advance (ten : Tenancy n k s free) (h : Isolated n s) {b : Nat} {job : Job} {stage : Stage}
    (hb : s.backends b = .running job stage) (fails : Bool) : Isolated n (s.advance b job fails stage) := by
  obtain ⟨hworker, hrpcs, hcompleted, hauthor, hqueue⟩ := advance_lists s b job fails stage
  have hslots := advance_slots s b job fails stage
  have hwrites : stage.writes = true →
      job.slot ∉ s.waiting ∧ job.slot ∉ s.taken ∧ (s.pool.slots job.slot).state ≠ .done := by
    intro hw
    cases stage with
    | resetPayload =>
      obtain ⟨-, -, hat, -⟩ := (ten.tenure job.slot).of_owner hb rfl rfl
      obtain ⟨h1, h2⟩ := ten.no_entry hb rfl rfl
      exact ⟨h1, h2, by rw [hat.1]; simp⟩
    | fill todo err =>
      obtain ⟨-, -, ⟨hat, -⟩, -⟩ := (ten.tenure job.slot).of_owner hb rfl rfl
      obtain ⟨h1, h2⟩ := ten.no_entry hb rfl rfl
      exact ⟨h1, h2, by rw [hat.1]; simp⟩
    | _ => cases hw
  have hmem : ∀ i, i ∈ s.waiting ∨ i ∈ s.taken → (s.advance b job fails stage).mem i = s.mem i := by
    intro i hi
    refine (hslots i).2.resolve_right ?_
    rintro ⟨rfl, hw⟩
    exact hi.elim (hwrites hw).1 (hwrites hw).2.1
  have hdone : ∀ i < n, ((s.advance b job fails stage).pool.slots i).state = .done →
      i ∈ s.worker.finishing ∨
        (s.pool.slots i).state = .done ∧ (s.advance b job fails stage).mem i = s.mem i := by
    intro i _ hst
    have hst' := (hslots i).1 hst
    refine Or.inr ⟨hst', (hslots i).2.resolve_right ?_⟩
    rintro ⟨rfl, hw⟩
    exact (hwrites hw).2.2 hst'
  by_cases hstage : stage = .fill [] none
  · subst hstage
    simp only [St.advance] at hmem hdone ⊢
    cases hq : queueEnqueue s.queue (.ofNat job.slot) with
    | none =>
      exact h.move (fun _ _ => rfl) rfl rfl (fun _ h => h) (fun _ h => Or.inr h) (fun _ h => h)
        (fun _ h => Or.inr h) (fun i _ hst => Or.inr ⟨hst, rfl⟩)
    | some queue =>
      -- the slot is the one entry that is new, and its response is still zero
      obtain ⟨hn, -, ⟨-, hfill⟩, -⟩ := (ten.tenure job.slot).of_owner hb rfl rfl
      have hfresh : (s.mem job.slot).response = FgaPayload.zero.response := by
        obtain ⟨done, ws, -, -, hp⟩ := hfill
        rw [show s.mem job.slot = _ from hp]
        exact applyWrites_response done .zero rfl
      show Isolated n ({ s with queue := queue }.goto b job .wakeBgw)
      refine ⟨fun i hi => ?_, h.inHand, h.unwritten, h.written, h.completed, h.finishing, h.done⟩
      have hcount := tenancy_enqueue_waiting ten hn hq b i
      by_cases hi' : i ∈ s.waiting
      · exact h.waiting i hi'
      · rw [List.count_eq_zero.2 hi'] at hcount
        have hpos := List.count_pos_iff.2 hi
        split at hcount
        · rename_i he; subst he; exact hfresh
        · omega
  · have hwait : (s.advance b job fails stage).waiting = s.waiting :=
      waiting_congr (hqueue hstage) hworker
    exact h.move hmem hauthor hrpcs (fun i hi => by rwa [hwait] at hi)
      (fun i hi => Or.inr (by rwa [hworker] at hi)) (fun i hi => by rwa [hcompleted] at hi)
      (fun i hi => Or.inr (by rwa [hworker] at hi)) hdone

theorem handleNext_finishing (l : List Nat) : (St.handleNext l).finishing = l := by cases l <;> rfl

theorem handleNext_inHand (l : List Nat) : (St.handleNext l).inHand = [] := by cases l <;> rfl

/-- A step of the worker that moves no completion and issues no call. -/
theorem Isolated.pass (h : Isolated n s) (e : SlotEffect) (i : Nat) {worker : WorkerPc} {latch : Bool}
    (he : e = .writeState .done → i ∈ s.worker.finishing) (htodo : ∀ j ∈ worker.todo, j ∈ s.worker.todo)
    (hhand : ∀ j ∈ worker.inHand, j ∈ s.waiting ∨ j ∈ s.worker.inHand)
    (hfinishing : ∀ j ∈ worker.finishing, j ∈ s.worker.finishing) :
    Isolated n { s.apply e i with worker := worker, latch := latch } := by
  refine h.move (fun j _ => apply_mem s e i j) rfl rfl (fun j hj => ?_) hhand (fun _ hj => hj)
    (fun j hj => Or.inr (hfinishing j hj)) (fun j _ hst => ?_)
  · exact mem_waiting.2 ((mem_waiting.1 hj).imp_right (htodo j))
  · by_cases hd : e = .writeState .done
    · by_cases hj : j = i
      · subst hj; exact Or.inl (he hd)
      · subst hd
        refine Or.inr ⟨?_, apply_mem s (.writeState .done) i j⟩
        rwa [show ((s.apply (.writeState .done) i).pool.slots j) = _ from setState_ne _ _ hj] at hst
    · exact Or.inr ⟨apply_done s e hd i j hst, apply_mem s e i j⟩

/-- The worker writes DONE to a slot that its call has answered. -/
theorem isolated_handle (h : Isolated n s) {i : Nat} {pc : HandlePc} {rest : List Nat}
    (hw : s.worker = .handle i pc rest) (hs : s.stepWorker = some s') : Isolated n s' := by
  have hnext : ∀ e, e ≠ .writeState .done → (∀ j ∈ rest, j ∈ s.worker.finishing) →
      Isolated n { s.apply e i with worker := St.handleNext rest } := by
    intro e he hrest
    refine h.pass e i (fun hd => absurd hd he) (fun j hj => ?_) (fun j hj => ?_) fun j hj => ?_
    · rw [handleNext_todo] at hj; cases hj
    · rw [handleNext_inHand] at hj; cases hj
    · rw [handleNext_finishing] at hj
      exact hrest j hj
  cases pc with
  | readState =>
    simp only [St.stepWorker, hw, handleStep, Option.some.injEq] at hs
    subst hs
    refine h.pass .none i (by simp) (fun j hj => by cases hj) (fun j hj => by cases hj) fun j hj => ?_
    rw [hw]
    split at hj <;> exact hj
  | releaseCanceled =>
    simp only [St.stepWorker, hw, handleStep, Option.some.injEq] at hs
    subst hs
    refine hnext .release (by simp) fun j hj => ?_
    rw [hw]
    exact List.mem_cons_of_mem i hj
  | writeDone =>
    simp only [St.stepWorker, hw, handleStep, Option.some.injEq] at hs
    subst hs
    refine h.pass (.writeState .done) i (fun _ => ?_) (fun j hj => by cases hj) (fun j hj => by cases hj)
      fun j hj => ?_
    · rw [hw]
      exact List.mem_cons_self
    · rw [hw]
      exact List.mem_cons_of_mem i hj
  | lookup =>
    have hrest : ∀ j ∈ rest, j ∈ s.worker.finishing := by
      intro j hj
      rwa [hw]
    cases hf : s.found i with
    | true =>
      simp only [St.stepWorker, hw, handleStep, hf, if_true, Option.some.injEq] at hs
      subst hs
      exact hnext .none (by simp) hrest
    | false =>
      simp only [St.stepWorker, hw, handleStep, hf, Option.some.injEq] at hs
      subst hs
      exact h.pass .none i (by simp) (fun j hj => by cases hj) (fun j hj => by cases hj) hrest
  | releaseUnfound =>
    simp only [St.stepWorker, hw, handleStep, Option.some.injEq] at hs
    subst hs
    refine hnext .release (by simp) fun j hj => ?_
    rwa [hw]

/-- The hand-over issues, for every slot that is begun, a call for its request. -/
theorem isolated_dispatch (h : Isolated n s) {begun : List Nat} (hw : s.worker = .begin [] begun)
    (hsame : SameStore s.mem begun) (hs : s.stepWorker = some s') : Isolated n s' := by
  simp only [St.stepWorker, hw, Option.some.injEq] at hs
  subst hs
  refine ⟨fun i hi => ?_, fun i hi => (by cases hi), fun r hr i hi => ?_, fun r hr i hi => ?_, h.completed,
    fun i hi => (by cases hi), h.done⟩
  · rw [mem_waiting] at hi
    exact h.waiting i (mem_waiting.2 (Or.inl (hi.resolve_right (by simp [WorkerPc.todo]))))
  · rcases List.mem_append.1 hr with hr | hr
    · exact h.unwritten r hr i hi
    · obtain ⟨c, hc, rfl⟩ := List.mem_map.1 hr
      have hslot : i ∈ c.slots := hi
      have hbegun : i ∈ begun := by
        have hpos : 0 < ((processBatch s.mem begun).flatMap Call.slots).count i :=
          List.count_pos_iff.2 (List.mem_flatMap.2 ⟨c, hc, hslot⟩)
        rw [count_processBatch] at hpos
        split at hpos
        · exact List.count_pos_iff.1 hpos
        · omega
      exact ⟨h.inHand i (by rw [hw]; exact hbegun), issuedFor_processBatch hsame hc hslot⟩
  · rcases List.mem_append.1 hr with hr | hr
    · exact h.written r hr i hi
    · obtain ⟨c, -, rfl⟩ := List.mem_map.1 hr
      cases hi

/-- What is drained was queued. -/
theorem waiting_drain (ten : Tenancy n k s free) {s' : St} (hq : s'.queue = (queueDrain 50 s.queue).2)
    (hw : s'.worker = .begin ((queueDrain 50 s.queue).1.map UInt16.toNat) []) {i : Nat} (hi : i ∈ s'.waiting) :
    i ∈ s.waiting := by
  obtain ⟨hslots, hring⟩ := ten.ring.drain 50
  rw [mem_waiting, hq, hw, hring.contents, hslots] at hi
  rw [mem_waiting]
  refine Or.inl (List.mem_map.2 ?_)
  rcases hi with hi | hi
  · obtain ⟨v, hv, hvi⟩ := List.mem_map.1 hi
    exact ⟨v, List.mem_of_mem_drop hv, hvi⟩
  · obtain ⟨v, hv, hvi⟩ := List.mem_map.1 hi
    exact ⟨v, List.mem_of_mem_take hv, hvi⟩

theorem isolated_drain (ten : Tenancy n k s free) (h : Isolated n s) (hw : s.worker = .drain)
    (hs : s.stepWorker = some s') : Isolated n s' := by
  simp only [St.stepWorker, hw, Option.some.injEq] at hs
  subst hs
  exact h.move (fun _ _ => rfl) rfl rfl (fun i hi => waiting_drain ten rfl rfl hi) (fun _ hi => by cases hi)
    (fun _ hi => hi) (fun _ hi => by cases hi) (fun _ _ hst => Or.inr ⟨hst, rfl⟩)

theorem isolated_begin (h : Isolated n s) {i : Nat} {todo begun : List Nat}
    (hw : s.worker = .begin (i :: todo) begun) (hs : s.stepWorker = some s') : Isolated n s' := by
  have htodo : s.worker.todo = i :: todo := by rw [hw]; rfl
  have hi : i ∈ s.waiting := mem_waiting.2 (Or.inr (by rw [htodo]; exact List.mem_cons_self))
  have hsub : ∀ j ∈ todo, j ∈ s.worker.todo := by
    intro j hj
    rw [htodo]
    exact List.mem_cons_of_mem i hj
  have hhand : s.worker.inHand = begun := by rw [hw]; rfl
  have hbegun : ∀ j ∈ begun, j ∈ s.waiting ∨ j ∈ s.worker.inHand := fun j hj => Or.inr (by rwa [hhand])
  -- what the worker goes on with, by what the compare-and-swap has found
  have hcase : (∃ e, e ≠ SlotEffect.writeState .done ∧
      s' = { s.apply e i with worker := .begin todo (begun ++ [i]) }) ∨
      s' = { s.apply .none i with worker := .releaseCanceled i todo begun } ∨
      s' = { s.apply .none i with worker := .begin todo begun } := by
    simp only [St.stepWorker, hw, Option.some.injEq] at hs
    subst hs
    cases (s.pool.slots i).state with
    | pending => exact Or.inl ⟨.writeState .processing, by simp, rfl⟩
    | canceled => exact Or.inr (Or.inl rfl)
    | empty | processing | done => exact Or.inr (Or.inr rfl)
  rcases hcase with ⟨e, he, rfl⟩ | rfl | rfl
  · refine h.pass e i (fun hd => absurd hd he) hsub (fun j hj => ?_) fun j hj => by cases hj
    rcases List.mem_append.1 hj with hj | hj
    · exact hbegun j hj
    · obtain rfl := List.mem_singleton.1 hj
      exact Or.inl hi
  · refine h.pass .none i (by simp) (fun j hj => ?_) hbegun fun j hj => by cases hj
    rw [htodo]
    exact hj
  · exact h.pass .none i (by simp) hsub hbegun fun j hj => by cases hj

theorem isolated_worker (ten : Tenancy n k s free) (h : Isolated n s)
    (hsame : ∀ begun, s.worker = .begin [] begun → SameStore s.mem begun) (hs : s.stepWorker = some s') :
    Isolated n s' := by
  cases hw : s.worker with
  | waitLatch =>
    obtain ⟨-, rfl⟩ := stepWorker_waitLatch hw hs
    exact h.pass .none 0 (by simp) (fun i hi => by cases hi) (fun i hi => by cases hi) fun i hi => by cases hi
  | resetLatch =>
    simp only [St.stepWorker, hw, Option.some.injEq] at hs
    subst hs
    exact h.pass .none 0 (by simp) (fun i hi => by cases hi) (fun i hi => by cases hi) fun i hi => by cases hi
  | drain => exact isolated_drain ten h hw hs
  | begin todo begun =>
    cases todo with
    | nil => exact isolated_dispatch h hw (hsame begun hw) hs
    | cons i todo => exact isolated_begin h hw hs
  | releaseCanceled i todo begun =>
    simp only [St.stepWorker, hw, Option.some.injEq] at hs
    subst hs
    refine h.pass .release i (by simp) (fun j hj => ?_) (fun j hj => ?_) fun j hj => by cases hj
    · rw [hw]
      exact List.mem_cons_of_mem i hj
    · rw [hw]
      exact Or.inr hj
  | swap =>
    simp only [St.stepWorker, hw, Option.some.injEq] at hs
    subst hs
    refine h.move (fun _ _ => rfl) rfl rfl (fun i hi => ?_) (fun i hi => ?_) (fun i hi => by cases hi)
      (fun i hi => ?_) (fun _ _ hst => Or.inr ⟨hst, rfl⟩)
    · rw [mem_waiting, handleNext_todo] at hi
      exact mem_waiting.2 (Or.inl (hi.resolve_right (by simp)))
    · rw [handleNext_inHand] at hi; cases hi
    · rw [handleNext_finishing] at hi
      exact Or.inl hi
  | handle i pc rest => exact isolated_handle h hw hs

/-- Calls that are issued stay what they are, but for one. -/
theorem get_set_rpc {rpcs : List Rpc} {m : Nat} {r r' : Rpc} (hr : rpcs[m]? = some r) {x : Rpc}
    (hx : x ∈ rpcs.set m r') : x = r' ∨ ∃ m', m' ≠ m ∧ rpcs[m']? = some x := by
  obtain ⟨m', hm', rfl⟩ := List.getElem_of_mem hx
  by_cases he : m' = m
  · subst he
    exact Or.inl (List.getElem_set_self ..)
  · refine Or.inr ⟨m', he, ?_⟩
    rw [List.getElem_set_of_ne (Ne.symm he)]
    rw [List.length_set] at hm'
    exact List.getElem?_eq_getElem hm'

/-- A call that was issued for the request of a payload with no response yet answers it. -/
theorem answered_complete {c : Call} {i : Nat} {p : FgaPayload} (hfresh : p.response = FgaPayload.zero.response)
    (hissued : c.IssuedFor i p.request) (o : RpcOutcome) : Answered (c.complete o p) (some (c, o)) i := by
  refine ⟨c, o, rfl, by rw [complete_request]; exact hissued, ?_⟩
  have he : p = ⟨p.request, FgaPayload.zero.response⟩ := by rw [← hfresh]
  rw [complete_request, ← he]

/-- The handler of a call writes to a slot whose request the call was issued for. -/
theorem isolated_respond (ten : Tenancy n k s free) (h : Isolated n s) {m : Nat} {r : Rpc} {o : RpcOutcome}
    {i : Nat} {todo : List Nat} (hr : s.rpcs[m]? = some r) (hpc : r.pc = .write o) (htodo : r.todo = i :: todo) :
    Isolated n ({ s.setPayload i (r.call.complete o (s.mem i)) with
      author := Function.update s.author i (some (r.call, o)) }.setRpc m { r with pc := .append o }) := by
  have hmem : r ∈ s.rpcs := List.mem_of_getElem? hr
  have hi : i ∈ r.todo := by rw [htodo]; exact List.mem_cons_self
  obtain ⟨hnd, hnw, hnb, hnc, halone⟩ := ten.todo_alone hr hi
  obtain ⟨hfresh, hissued⟩ := h.unwritten r hmem i (by unfold Rpc.unwritten; rw [hpc]; exact hi)
  have hother : ∀ j, j ≠ i → (s.setPayload i (r.call.complete o (s.mem i))).mem j = s.mem j := fun j hj =>
    congrArg FgaChannelSlot.payload (setPayload_ne _ _ hj)
  have hself : (s.setPayload i (r.call.complete o (s.mem i))).mem i = r.call.complete o (s.mem i) :=
    setPayload_self ..
  have hne : ∀ j, j ∈ s.waiting ∨ j ∈ s.worker.begun ∨ j ∈ s.completed → j ≠ i := by
    rintro j hj rfl
    rcases hj with hj | hj | hj
    · exact hnw hj
    · exact hnb hj
    · exact hnc hj
  have keep : ∀ j, j ≠ i → Answered (s.mem j) (s.author j) j →
      Answered ((s.setPayload i (r.call.complete o (s.mem i))).mem j)
        (Function.update s.author i (some (r.call, o)) j) j := by
    intro j hj ha
    rwa [hother j hj, Function.update_of_ne hj]
  refine ⟨fun j hj => ?_, fun j hj => ?_, fun x hx j hj => ?_, fun x hx j hj => ?_, fun j hj => ?_, fun j hj => ?_,
    fun j hn hst => ?_⟩
  · exact (congrArg FgaPayload.response (hother j (hne j (Or.inl hj)))).trans (h.waiting j hj)
  · exact (congrArg FgaPayload.response (hother j (hne j (Or.inr (Or.inl (inHand_sub hj)))))).trans (h.inHand j hj)
  · show ((s.setPayload i (r.call.complete o (s.mem i))).mem j).response = _ ∧
      x.call.IssuedFor j ((s.setPayload i (r.call.complete o (s.mem i))).mem j).request
    rcases get_set_rpc hr hx with rfl | ⟨m', hm', hx'⟩
    · have hj' : j ∈ todo := by
        have : j ∈ r.todo.tail := hj
        rwa [htodo] at this
      have hji : j ≠ i := by
        rintro rfl
        rw [htodo] at hnd
        exact (List.nodup_cons.1 hnd).1 hj'
      rw [hother j hji]
      exact h.unwritten r hmem j (by unfold Rpc.unwritten; rw [hpc, htodo]; exact List.mem_cons_of_mem i hj')
    · have hji : j ≠ i := by
        rintro rfl
        exact hm' (halone m' x hx' (unwritten_sub hj))
      rw [hother j hji]
      exact h.unwritten x (List.mem_of_getElem? hx') j hj
  · show Answered ((s.setPayload i (r.call.complete o (s.mem i))).mem j)
      (Function.update s.author i (some (r.call, o)) j) j
    rcases get_set_rpc hr hx with rfl | ⟨m', hm', hx'⟩
    · have hj' : r.todo.head? = some j := hj
      rw [htodo] at hj'
      cases hj'
      rw [hself, Function.update_self]
      exact answered_complete hfresh hissued o
    · have hji : j ≠ i := by
        rintro rfl
        exact hm' (halone m' x hx' (written_mem hj))
      exact keep j hji (h.written x (List.mem_of_getElem? hx') j hj)
  · exact keep j (hne j (Or.inr (Or.inr hj))) (h.completed j hj)
  · exact keep j (hne j (Or.inr (Or.inl (finishing_sub hj)))) (h.finishing j hj)
  · have hst' : (s.pool.slots j).state = .done := by
      rw [← setPayload_state s.pool i (r.call.complete o (s.mem i)) j]
      exact hst
    have hji : j ≠ i := by
      rintro rfl
      exact ten.todo_ne_done hr hi hst'
    exact keep j hji (h.done j hn hst')

/-- A step of an issued call that writes to no slot. -/
theorem Isolated.rpc (h : Isolated n s) {m : Nat} {r r' : Rpc} (hr : s.rpcs[m]? = some r)
    (hcall : r'.call = r.call) (hunwritten : ∀ i ∈ r'.unwritten, i ∈ r.unwritten) (hwritten : r'.written = none)
    {completed : List Nat} {latch : Bool} (hc : ∀ i ∈ completed, i ∈ s.completed ∨ r.written = some i) :
    Isolated n ({ s with completed := completed, latch := latch }.setRpc m r') := by
  have hmem : r ∈ s.rpcs := List.mem_of_getElem? hr
  refine ⟨h.waiting, h.inHand, fun x hx i hi => ?_, fun x hx i hi => ?_, fun i hi => ?_, h.finishing, h.done⟩
  · rcases get_set_rpc hr hx with rfl | ⟨m', -, hx'⟩
    · rw [hcall]
      exact h.unwritten r hmem i (hunwritten i hi)
    · exact h.unwritten x (List.mem_of_getElem? hx') i hi
  · rcases get_set_rpc hr hx with rfl | ⟨m', -, hx'⟩
    · rw [hwritten] at hi
      cases hi
    · exact h.written x (List.mem_of_getElem? hx') i hi
  · rcases hc i hi with hi | hi
    · exact h.completed i hi
    · exact h.written r hmem i hi

theorem isolated_handler (ten : Tenancy n k s free) (h : Isolated n s) {m : Nat} {r : Rpc}
    (hr : s.rpcs[m]? = some r) (hs : s.stepHandler m r = some s') : Isolated n s' := by
  obtain ⟨o, i, todo, hpc, htodo, rfl⟩ | ⟨o, i, todo, hpc, htodo, rfl⟩ | ⟨o, hpc, rfl⟩ := stepHandler_cases hs
  · exact isolated_respond ten h hr hpc htodo
  · refine h.rpc hr (by rfl) (fun j hj => ?_) (by rfl) fun j hj => ?_
    · unfold Rpc.unwritten
      rw [hpc, htodo]
      exact hj
    · refine (List.mem_append.1 hj).imp_right fun hj => ?_
      obtain rfl := List.mem_singleton.1 hj
      unfold Rpc.written
      rw [hpc, htodo]
      rfl
  · refine h.rpc hr (by rfl) (fun j hj => ?_) (by rfl) fun j hj => Or.inl hj
    unfold Rpc.unwritten
    rw [hpc]
    exact hj

theorem isolated_acquire (h : Isolated n s) (b : Nat) (config : FgaConfig) (call : SqlCall) :
    Isolated n (s.acquire b config call) := by
  unfold St.acquire acquireSlot
  cases hp : s.pool.free.popHead with
  | none => exact h
  | some p =>
    obtain ⟨i, rest⟩ := p
    have hmem : ∀ j, (({ s.pool with free := rest }.setState i .pending).slots j).payload =
        (s.pool.slots j).payload := setState_payload _ i .pending
    refine h.move (fun j _ => hmem j) rfl rfl (fun _ hj => hj) (fun _ hj => Or.inr hj) (fun _ hj => hj)
      (fun _ hj => Or.inr hj) (fun j _ hst => Or.inr ⟨?_, hmem j⟩)
    by_cases hj : j = i
    · subst hj
      have hpend : (({ s.pool with free := rest }.setState j .pending).slots j).state = .pending :=
        setState_self ..
      have hdone : (({ s.pool with free := rest }.setState j .pending).slots j).state = .done := hst
      rw [hpend] at hdone
      cases hdone
    · have hsame : ({ s.pool with free := rest }.setState i .pending).slots j = s.pool.slots j :=
        setState_ne _ _ hj
      rw [← hsame]
      exact hst

/-- **What a step keeps**, while the slots have the owners they should. -/
theorem isolated_step (ten : Tenancy n k s free) (h : Isolated n s) {a : Act} (hg : IsolationGuard s a)
    (hs : s.step a = some s') : Isolated n s' := by
  cases a with
  | acquire b config call =>
    obtain ⟨-, rfl⟩ := step_acquire hs
    exact isolated_acquire h b config call
  | backend b fails =>
    obtain ⟨job, stage, hb, rfl⟩ := step_backend hs
    exact isolated_advance ten h hb fails
  | exit b =>
    obtain ⟨-, rfl⟩ := step_exit hs
    exact ⟨h.waiting, h.inHand, h.unwritten, h.written, h.completed, h.finishing, h.done⟩
  | worker => exact isolated_worker ten h (hg.2 rfl) hs
  | complete m o =>
    obtain ⟨r, hr, hpc, rfl⟩ := step_complete hs
    refine h.rpc hr (by rfl) (fun i hi => ?_) (by rfl) fun i hi => Or.inl hi
    unfold Rpc.unwritten
    rw [hpc]
    exact hi
  | handler m =>
    obtain ⟨r, hr, hs⟩ := step_handler hs
    exact isolated_handler ten h hr hs

end

theorem isolated_init {n k : Nat} (hk : k ≤ 15) (mem : Nat → FgaChannelSlot) (values : Nat → UInt16) :
    Isolated n (St.init n k mem values) := by
  have hwait : (St.init n k mem values).waiting = [] := by
    show (queueContents (queueInit _ values)).map UInt16.toNat ++ [] = []
    rw [(ring_init hk values).contents]; rfl
  refine ⟨fun i hi => ?_, fun i hi => ?_, fun r hr => ?_, fun r hr => ?_, fun i hi => ?_, fun i hi => ?_,
    fun i hi hst => ?_⟩
  · rw [hwait] at hi; cases hi
  · cases hi
  · cases hr
  · cases hr
  · cases hi
  · cases hi
  · have hempty : ((poolInit mem n).slots i).state = .empty := (poolInit_spec mem n).2 i hi
    have hdone : ((poolInit mem n).slots i).state = .done := hst
    rw [hempty] at hdone
    cases hdone

/-! ## Runs -/

/-- Whenever the compare-and-swap of `beginProcessing` is about to succeed, the slot has one owner,
whose request in it is complete and who has enqueued it. -/
def BeginsEnqueued (s : St) : Prop :=
  ∀ i todo begun, s.worker = .begin (i :: todo) begun → (s.pool.slots i).state = .pending →
    ∃ b job stage, EnqueuedBy s.backends (s.pool.slots i) i b job stage

/-- Whenever `fga_channel_execute_slot` has returned, the slot holds the request of the call and the
response of an RPC issued for it. -/
def ReturnsOwn (s : St) : Prop :=
  ∀ b job, s.backends b = .running job .response →
    job.Asks (s.mem job.slot).request ∧ Answered (s.mem job.slot) (s.author job.slot) job.slot

/-- **Response isolation.** -/
theorem isolated_run {n k : Nat} (hn : n ≤ 2 ^ 16) (hk : k ≤ 15) (mem : Nat → FgaChannelSlot)
    (values : Nat → UInt16) (acts : List Act) {s : St}
    (hg : Meets St.step IsolationGuard (St.init n k mem values) acts)
    (hrun : run St.step (St.init n k mem values) acts = some s) : BeginsEnqueued s ∧ ReturnsOwn s := by
  obtain ⟨⟨free, ten⟩, h⟩ := run_inv_of_meets (fun s => (∃ free, Tenancy n k s free) ∧ Isolated n s)
    IsolationGuard
    (fun _ _ _ ⟨⟨_, ten⟩, h⟩ hg hs => ⟨tenancy_step ten hg.1 hs, isolated_step ten h hg hs⟩) acts
    ⟨⟨_, tenancy_init hn hk mem values⟩, isolated_init hk mem values⟩ hg hrun
  refine ⟨fun i todo begun hw hst => ?_, fun b job hb => ?_⟩
  · have hpos : 0 < s.waiting.count i :=
      List.count_pos_iff.2 (mem_waiting.2 (Or.inr (by rw [hw]; exact List.mem_cons_self)))
    obtain ⟨-, -, -, -, ⟨he, -⟩ | ⟨hst', -⟩⟩ := (ten.tenure i).of_entry (by omega)
    · exact he
    · rw [hst] at hst'; cases hst'
  · obtain ⟨hn, -, ⟨hasks, hat⟩, -⟩ := (ten.tenure job.slot).of_owner hb rfl rfl
    exact ⟨hasks, h.done job.slot hn hat.1⟩

/-- The step is not one that the guard is about. -/
def St.plain (s : St) : Act → Bool
  | .backend b _ =>
    match s.backends b with
    | .running _ (.catchBlock _) => false
    | _ => true
  | .worker =>
    match s.worker with
    | .handle _ .releaseUnfound _ => false
    | .begin [] begun => decide (SameStore s.mem begun)
    | _ => true
  | _ => true

theorem plain_guard (s : St) (a : Act) (h : s.plain a = true) : IsolationGuard s a := by
  cases a with
  | backend b fails =>
    refine ⟨fun job raised hb => ?_, fun ha => by cases ha⟩
    simp only [St.plain, hb] at h
    cases h
  | worker =>
    refine ⟨fun i rest hw => ?_, fun _ begun hw => ?_⟩
    · simp only [St.plain, hw] at h
      cases h
    · simp only [St.plain, hw] at h
      exact of_decide_eq_true h
  | acquire | exit | complete | handler => exact ⟨trivial, fun ha => by cases ha⟩

/-- One `fga_create_store`, up to the return of `fga_channel_execute_slot`. -/
def oneStore : List Act :=
  .acquire 0 ⟨none, none⟩ (.createStore (.lit "docs")) :: goOn 0 9 ++ List.replicate 5 .worker ++
    [.complete 0 storeCreated, .handler 0, .handler 0, .handler 0] ++ List.replicate 4 .worker ++ goOn 0 2

def storeJob : Job := ⟨⟨none, none⟩, .createStore (.lit "docs"), 1023, 1⟩

theorem isolated_run_store : ∃ s, run St.step start oneStore = some s ∧
    s.backends 0 = .running storeJob .response ∧ BeginsEnqueued s ∧ ReturnsOwn s := by
  have hend : (run St.step start oneStore).any (fun s => s.backends 0 == .running storeJob .response) = true := by
    decide +kernel
  obtain ⟨s, hs, hb⟩ := (Option.any_eq_true ..).1 hend
  have hplain : Meets St.step (fun s a => s.plain a = true) start oneStore := by decide +kernel
  exact ⟨s, hs, by simpa using hb, isolated_run (by decide) (by decide) freshSlot (fun _ => 0) oneStore
    (hplain.mono plain_guard) hs⟩

/-- A cancelled `fga_write_tuple`: `PG_CATCH` releases the slot it has left in the queue, and the next
call takes it. -/
def cancelledWrite : List Act :=
  .acquire 0 ⟨some (.lit "s"), none⟩
      (.writeTuple ⟨.lit "doc", .lit "1", .lit "user", .lit "ann", .lit "viewer"⟩) :: goOn 0 14 ++
    .backend 0 true :: goOn 0 4 ++ [.acquire 1 ⟨none, none⟩ (.createStore (.lit "docs"))] ++
    List.replicate 3 .worker

def nextJob : Job := ⟨⟨none, none⟩, .createStore (.lit "docs"), 1023, 0⟩

/-- **A request begun that nobody has enqueued.** The worker is about to begin the slot for the entry of
the call that has released it; its owner has not written a thing. -/
theorem not_isolated_cancelled : ∃ s, run St.step start cancelledWrite = some s ∧
    s.worker = .begin [1023] [] ∧ (s.pool.slots 1023).state = .pending ∧
    s.backends 1 = .running nextJob .setPid ∧ ¬ BeginsEnqueued s := by
  have hend : (run St.step start cancelledWrite).any (fun s => s.worker == .begin [1023] [] &&
      (s.pool.slots 1023).state == .pending && s.backends 1 == .running nextJob .setPid) = true := by
    decide +kernel
  obtain ⟨s, hs, hall⟩ := (Option.any_eq_true ..).1 hend
  simp only [Bool.and_eq_true, beq_iff_eq] at hall
  obtain ⟨⟨hw, hst⟩, hb⟩ := hall
  refine ⟨s, hs, hw, hst, hb, fun h => ?_⟩
  obtain ⟨b, job, stage, he⟩ := h 1023 [] [] hw hst
  have hown : (s.backends 1).Owns 1023 := by rw [hb]; exact owns_running.2 ⟨rfl, rfl⟩
  have hrun := he.running
  rw [← he.unique 1 hown, hb] at hrun
  cases hrun
  cases he.enqueued

end PostFga
