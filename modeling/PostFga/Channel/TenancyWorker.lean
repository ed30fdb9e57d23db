import PostFga.Channel.TenancyCalls
/-
# Who has a slot: the steps of the worker and of the issued calls

`tenancy_init` and `tenancy_step`: what the fresh channel has, and a step that meets the guard keeps.
-/

namespace PostFga

open Transition

section
variable {n k : Nat} {s s' : St} {free free' : List Nat}

/-- A step that moves entries about. -/
theorem Tenancy.relist (h : Tenancy n k s free) (hpool : s'.pool = s.pool) (hback : s'.backends = s.backends)
    (hacq : s'.acquired = s.acquired) (hrel : s'.released = s.released)
    (hring : Ring s'.queue k (queueContents s'.queue))
    (hw : ∀ i, s'.waiting.count i = s.waiting.count i) (ht : ∀ i, s'.taken.count i = s.taken.count i)
    (hreleasing : ∀ i, s'.worker.releasing = some i → (s.pool.slots i).state = .canceled)
    (hwake : ∀ i, s'.worker.waking = some i → i < n) : Tenancy n k s' free := by
  refine h.of_slot 0 hring (by rw [hpool]; exact h.spells) h.nodup (fun j _ => by rw [hback]; exact .refl _ j)
    (fun _ _ => by rw [hpool]) (fun _ _ => Iff.rfl) (fun j _ => hw j) (fun j _ => ht j)
    (fun _ _ => by rw [hacq, hrel]; exact ⟨rfl, rfl⟩) ?_ (by rw [hacq, hrel]; exact h.account 0) ?_ hwake
  · rw [hback, hpool, hw, ht]
    exact h.tenure 0
  · rw [hpool]
    exact hreleasing

/-- The worker goes on with the slots it has, and no slot changes. -/
theorem Tenancy.workerAt (h : Tenancy n k s free) {pc : WorkerPc} {latch : Bool} (htodo : pc.todo = s.worker.todo)
    (hbegun : pc.begun = s.worker.begun)
    (hreleasing : ∀ i, pc.releasing = some i → (s.pool.slots i).state = .canceled)
    (hwake : ∀ i, pc.waking = some i → i < n) : Tenancy n k { s with worker := pc, latch := latch } free := by
  refine h.relist rfl rfl rfl rfl h.ring ?_ ?_ hreleasing hwake
  · intro i
    simp only [St.waiting, htodo]
  · intro i
    simp only [St.taken, hbegun]

@[simp] theorem handleNext_todo (l : List Nat) : (St.handleNext l).todo = [] := by cases l <;> rfl
@[simp] theorem handleNext_begun (l : List Nat) : (St.handleNext l).begun = l := by cases l <;> rfl
@[simp] theorem handleNext_releasing (l : List Nat) : (St.handleNext l).releasing = none := by
  cases l <;> rfl
@[simp] theorem handleNext_waking (l : List Nat) : (St.handleNext l).waking = none := by cases l <;> rfl

theorem tenancy_drain (h : Tenancy n k s free) (hw : s.worker = .drain) (hs : s.stepWorker = some s') :
    Tenancy n k s' free := by
  simp only [St.stepWorker, hw, Option.some.injEq] at hs
  obtain ⟨hslots, hring⟩ := h.ring.drain 50
  have hcon := hring.contents
  subst hs
  refine h.relist rfl rfl rfl rfl ?_ ?_ ?_ ?_ ?_
  · rw [hcon]; exact hring
  · intro i
    show List.count i ((queueContents (queueDrain 50 s.queue).2).map UInt16.toNat ++
      (queueDrain 50 s.queue).1.map UInt16.toNat) = _
    simp only [St.waiting, hcon, hslots, hw, WorkerPc.todo, List.append_nil]
    rw [List.count_append, Nat.add_comm, ← List.count_append, ← List.map_append, List.take_append_drop]
  · intro i
    simp [St.taken, hw, WorkerPc.begun]
  · intro i hi; cases hi
  · intro i hi; cases hi

/-- A slot that waits is pending, and its owner's, or CANCELED. -/
theorem tenancy_begin (h : Tenancy n k s free) {i : Nat} {todo begun : List Nat}
    (hw : s.worker = .begin (i :: todo) begun) (hs : s.stepWorker = some s') : Tenancy n k s' free := by
  have hpos : 0 < s.waiting.count i := List.count_pos_iff.2 (by simp [St.waiting, hw, WorkerPc.todo])
  obtain ⟨hn, hf, hone, hcall, hcase⟩ := (h.tenure i).of_entry (by omega)
  rw [if_pos hpos] at hcase
  rcases hcase with ⟨⟨b, job, stage, he⟩, hst⟩ | ⟨hst, ho⟩
  · simp only [St.stepWorker, hw, hst, beginCas, Option.some.injEq] at hs
    subst hs
    have hwait : ∀ j, s.waiting.count j = (if i = j then 1 else 0) +
        ((queueContents s.queue).map UInt16.toNat ++ todo).count j := by
      intro j
      simp only [St.waiting, hw, WorkerPc.todo, List.count_append, List.count_cons, beq_iff_eq]
      omega
    have htaken : ∀ j, ((begun ++ [i]) ++ (s.rpcs.flatMap Rpc.todo ++ s.completed)).count j =
        s.taken.count j + if i = j then 1 else 0 := by
      intro j
      simp only [St.taken, hw, WorkerPc.begun, List.count_append, List.count_singleton, beq_iff_eq]
      omega
    have hwi := hwait i
    have hti := htaken i
    rw [if_pos rfl] at hwi hti
    refine h.of_slot i h.ring h.spells h.nodup (fun j _ => .refl _ j) (fun j hj => setState_ne _ _ hj)
      (fun _ _ => Iff.rfl) ?_ ?_ (fun _ _ => ⟨rfl, rfl⟩) ?_ (h.account i) ?_ ?_
    · intro j hj
      rw [hwait j, if_neg fun he => hj he.symm, Nat.zero_add]
      rfl
    · intro j hj
      refine (htaken j).trans ?_
      rw [if_neg fun he => hj he.symm, Nat.add_zero]
    · refine .held hn hf b job stage he.running he.slot_eq
        ((heldAt_enqueued he.enqueued).2 ⟨?_, Or.inr (Or.inl ⟨setState_self .., ?_, ?_⟩)⟩) he.unique
      · show job.Asks ((s.pool.setState i .processing).slots i).payload.request
        rw [setState_payload]
        exact he.asks
      · show ((queueContents s.queue).map UInt16.toNat ++ todo).count i = 0
        omega
      · exact hti.trans (by omega)
    · intro j hj; cases hj
    · intro j hj; cases hj
  · simp only [St.stepWorker, hw, hst, beginCas, Option.some.injEq] at hs
    subst hs
    refine h.relist rfl rfl rfl rfl h.ring ?_ ?_ ?_ ?_
    · intro j
      simp [St.waiting, hw, WorkerPc.todo, St.apply]
    · intro j
      simp [St.taken, hw, WorkerPc.begun, St.apply]
    · intro j hj
      cases hj
      exact hst
    · intro j hj; cases hj

/-- The worker returns a slot it has seen CANCELED. -/
theorem tenancy_releaseCanceled (h : Tenancy n k s free) {i : Nat} (hi : s.worker.releasing = some i)
    {worker : WorkerPc} (hs : s' = { s.apply .release i with worker := worker })
    (hw : ∀ j, s.waiting.count j + s.taken.count j =
      (s'.waiting.count j + s'.taken.count j) + if i = j then 1 else 0)
    (hle : ∀ j, s'.waiting.count j ≤ s.waiting.count j ∧ s'.taken.count j ≤ s.taken.count j)
    (hrel : worker.releasing = none) (hwake : worker.waking = none) : Tenancy n k s' (i :: free) := by
  obtain ⟨hn, hf, hone, ho⟩ := h.releasing_no_owner hi
  have hwi := hw i
  rw [if_pos rfl] at hwi
  have hframe : ∀ j, j ≠ i → s'.waiting.count j = s.waiting.count j ∧ s'.taken.count j = s.taken.count j := by
    intro j hj
    have hwj := hw j
    rw [if_neg fun he => hj he.symm] at hwj
    obtain ⟨h1, h2⟩ := hle j
    omega
  have hworker : s'.worker = worker := by rw [hs]
  refine h.push hn hf (by rw [hs]; rfl) (by rw [hs]; rfl) (by rw [hs]; rfl) (by rw [hs]; rfl)
    (fun j _ => by rw [hs]; exact .refl _ j) (by rw [hs]; exact ho) (fun j hj => (hframe j hj).1) (by omega)
    (fun j hj => (hframe j hj).2) (by omega) ?_ ?_
  · intro j hj
    rw [hworker, hrel] at hj; cases hj
  · intro j hj
    rw [hworker, hwake] at hj; cases hj

/-- Every begun slot has a call issued for it. -/
theorem tenancy_dispatch (h : Tenancy n k s free) {begun : List Nat} (hw : s.worker = .begin [] begun)
    (hs : s.stepWorker = some s') : Tenancy n k s' free := by
  simp only [St.stepWorker, hw, Option.some.injEq] at hs
  subst hs
  refine h.relist rfl rfl rfl rfl h.ring ?_ ?_ ?_ ?_
  · intro i
    simp [St.waiting, hw, WorkerPc.todo]
  · intro i
    have htodo : ((processBatch s.mem begun).map St.issue).flatMap Rpc.todo =
        (processBatch s.mem begun).flatMap Call.slots := by
      rw [List.flatMap_map]; rfl
    have hcount : ((processBatch s.mem begun).flatMap Call.slots).count i = begun.count i := by
      rw [count_processBatch]
      split
      · rfl
      · rename_i hc
        by_contra hne
        have hpos : 0 < s.taken.count i := by
          simp only [St.taken, hw, WorkerPc.begun, List.count_append]
          omega
        exact hc ((h.tenure i).of_entry (by omega)).2.2.2.1
    simp only [St.taken, hw, WorkerPc.begun, List.flatMap_append, htodo, List.count_append, hcount,
      List.nil_append]
    omega
  · intro i hi; cases hi
  · intro i hi; cases hi

theorem tenancy_swap (h : Tenancy n k s free) (hw : s.worker = .swap) (hs : s.stepWorker = some s') :
    Tenancy n k s' free := by
  simp only [St.stepWorker, hw, Option.some.injEq] at hs
  subst hs
  refine h.relist rfl rfl rfl rfl h.ring ?_ ?_ (by simp) (by simp)
  · intro i
    simp only [St.waiting, hw, handleNext_todo]
    rfl
  · intro i
    simp only [St.taken, hw, handleNext_begun]
    simp only [WorkerPc.begun, List.count_append, List.append_nil, List.nil_append]
    omega

/-- A completed slot is its owner's, or CANCELED: with DONE the owner has it back, or nobody. -/
theorem tenancy_writeDone (h : Tenancy n k s free) {i : Nat} {rest : List Nat}
    (hw : s.worker = .handle i .writeDone rest) (hs : s.stepWorker = some s') : Tenancy n k s' free := by
  have hpos : 0 < s.taken.count i := List.count_pos_iff.2 (by simp [St.taken, hw, WorkerPc.begun])
  obtain ⟨hn, hf, hone, hcall, hcase⟩ := (h.tenure i).of_entry (by omega)
  simp only [St.stepWorker, hw, handleStep, Option.some.injEq] at hs
  subst hs
  have hwait : St.waiting { s.apply (.writeState .done) i with worker := .handle i .lookup rest } =
      s.waiting := by
    simp only [St.waiting, hw, WorkerPc.todo, St.apply]
  have htaken : ∀ j, s.taken.count j = (if i = j then 1 else 0) + List.count j
      (St.taken { s.apply (.writeState .done) i with worker := .handle i .lookup rest }) := by
    intro j
    simp only [St.taken, hw, WorkerPc.begun, List.count_append, List.count_cons, beq_iff_eq, St.apply]
    omega
  have hti := htaken i
  rw [if_pos rfl] at hti
  refine h.of_slot i h.ring h.spells h.nodup (fun j _ => .refl _ j) (fun j hj => setState_ne _ _ hj)
    (fun _ _ => Iff.rfl) (fun j _ => by rw [hwait]) ?_ (fun _ _ => ⟨rfl, rfl⟩) ?_ (h.account i) ?_ ?_
  · intro j hj
    rw [htaken j, if_neg fun he => hj he.symm, Nat.zero_add]
  · rw [hwait]
    have ht0 : List.count i
        (St.taken { s.apply (.writeState .done) i with worker := .handle i .lookup rest }) = 0 := by omega
    rw [ht0]
    rcases hcase with ⟨⟨b, job, stage, he⟩, -⟩ | ⟨-, ho⟩
    · refine .held hn hf b job stage he.running he.slot_eq
        ((heldAt_enqueued he.enqueued).2 ⟨?_, Or.inr (Or.inr ⟨setState_self .., by omega, rfl⟩)⟩) he.unique
      show job.Asks ((s.pool.setState i .done).slots i).payload.request
      rw [setState_payload]
      exact he.asks
    · refine .lost hf (fun _ he => ?_) (by omega) rfl ho
      have hd : ((s.pool.setState i .done).slots i).state = .done := setState_self ..
      cases hd.symm.trans he
  · intro j hj; cases hj
  · intro j hj
    cases hj
    exact hn

theorem tenancy_handle (h : Tenancy n k s free) {i : Nat} {pc : HandlePc} {rest : List Nat}
    (hw : s.worker = .handle i pc rest) (hg : Guard s .worker) (hs : s.stepWorker = some s') :
    ∃ free', Tenancy n k s' free' := by
  have hwait : s.waiting = (queueContents s.queue).map UInt16.toNat ++ [] := by rw [St.waiting, hw]; rfl
  cases pc with
  | readState =>
    by_cases hst : (s.pool.slots i).state = .canceled
    · simp only [St.stepWorker, hw, handleStep, hst, if_true, Option.some.injEq] at hs
      subst hs
      refine ⟨free, h.workerAt (by rw [hw]; rfl) (by rw [hw]; rfl) ?_ ?_⟩
      · intro j hj; cases hj; exact hst
      · intro j hj; cases hj
    · simp only [St.stepWorker, hw, handleStep, hst, if_false, Option.some.injEq] at hs
      subst hs
      refine ⟨free, h.workerAt (by rw [hw]; rfl) (by rw [hw]; rfl) ?_ ?_⟩
      · intro j hj; cases hj
      · intro j hj; cases hj
  | releaseCanceled =>
    have htaken : s.taken = i :: rest ++ (s.rpcs.flatMap Rpc.todo ++ s.completed) := by rw [St.taken, hw]; rfl
    simp only [St.stepWorker, hw, handleStep, Option.some.injEq] at hs
    have hwait' : s'.waiting = s.waiting := by rw [hwait, ← hs, St.waiting, handleNext_todo]; rfl
    have htaken' : s'.taken = rest ++ (s.rpcs.flatMap Rpc.todo ++ s.completed) := by
      rw [← hs, St.taken, handleNext_begun]; rfl
    have hrel : s.worker.releasing = some i := by rw [hw]; rfl
    refine ⟨i :: free, tenancy_releaseCanceled h hrel hs.symm ?_ ?_ (by simp) (by simp)⟩
    · intro j
      rw [hwait', htaken, htaken', List.cons_append, List.count_cons]
      simp only [beq_iff_eq]
      omega
    · intro j
      rw [hwait', htaken, htaken', List.cons_append, List.count_cons]
      omega
  | writeDone => exact ⟨free, tenancy_writeDone h hw hs⟩
  | lookup =>
    have hn : i < n := h.waking i (by rw [hw]; rfl)
    cases hfound : s.found i with
    | true =>
      simp only [St.stepWorker, hw, handleStep, hfound, if_true, Option.some.injEq] at hs
      subst hs
      exact ⟨free, h.workerAt (by rw [hw, handleNext_todo]; rfl) (by rw [hw, handleNext_begun]; rfl) (by simp)
        (by simp)⟩
    | false =>
      simp only [St.stepWorker, hw, handleStep, hfound, Option.some.injEq] at hs
      subst hs
      refine ⟨free, h.workerAt (by rw [hw]; rfl) (by rw [hw]; rfl) ?_ ?_⟩
      · intro j hj; cases hj
      · intro j hj; cases hj; exact hn
  | releaseUnfound =>
    obtain ⟨hst, ho, hnowait, htaken⟩ := hg i rest hw
    have hn : i < n := h.waking i (by rw [hw]; rfl)
    have hf : i ∉ free := fun hf => hst ((h.tenure i).of_free hf).2.1.1
    simp only [St.stepWorker, hw, handleStep, Option.some.injEq] at hs
    subst hs
    have hwc : St.waiting { s.apply .release i with worker := St.handleNext rest } = s.waiting := by
      rw [St.waiting, handleNext_todo, St.waiting, hw]; rfl
    have htc : St.taken { s.apply .release i with worker := St.handleNext rest } = s.taken := by
      rw [St.taken, handleNext_begun, St.taken, hw]; rfl
    refine ⟨i :: free, h.push hn hf rfl rfl rfl rfl (fun j _ => .refl _ j) ho (fun _ _ => by rw [hwc])
      (by rw [hwc]; exact List.count_eq_zero.2 hnowait) (fun _ _ => by rw [htc])
      (by rw [htc]; exact List.count_eq_zero.2 htaken) ?_ ?_⟩
    · intro j hj
      simp at hj
    · intro j hj
      simp at hj

theorem tenancy_worker (h : Tenancy n k s free) (hg : Guard s .worker) (hs : s.stepWorker = some s') :
    ∃ free', Tenancy n k s' free' := by
  cases hw : s.worker with
  | waitLatch =>
    obtain ⟨-, rfl⟩ := stepWorker_waitLatch hw hs
    refine ⟨free, h.workerAt (by rw [hw]; rfl) (by rw [hw]; rfl) ?_ ?_⟩
    · intro i hi; cases hi
    · intro i hi; cases hi
  | resetLatch =>
    simp only [St.stepWorker, hw, Option.some.injEq] at hs
    subst hs
    refine ⟨free, h.workerAt (by rw [hw]; rfl) (by rw [hw]; rfl) ?_ ?_⟩
    · intro i hi; cases hi
    · intro i hi; cases hi
  | drain => exact ⟨free, tenancy_drain h hw hs⟩
  | begin todo begun =>
    cases todo with
    | nil => exact ⟨free, tenancy_dispatch h hw hs⟩
    | cons i todo => exact ⟨free, tenancy_begin h hw hs⟩
  | releaseCanceled i todo begun =>
    simp only [St.stepWorker, hw, Option.some.injEq] at hs
    refine ⟨i :: free, tenancy_releaseCanceled h (by rw [hw]; rfl) hs.symm ?_ ?_ rfl rfl⟩
    · intro j
      subst hs
      simp only [St.waiting, St.taken, hw, WorkerPc.todo, WorkerPc.begun, St.apply, List.count_append,
        List.count_cons, beq_iff_eq]
      omega
    · intro j
      subst hs
      simp only [St.waiting, St.taken, hw, WorkerPc.todo, WorkerPc.begun, St.apply, List.count_append,
        List.count_cons]
      omega
  | swap => exact ⟨free, tenancy_swap h hw hs⟩
  | handle i pc rest => exact tenancy_handle h hw hg hs

theorem count_set_todo {r : Rpc} (r' : Rpc) (i : Nat) {rpcs : List Rpc} {k : Nat} (h : rpcs[k]? = some r) :
    ((rpcs.set k r').flatMap Rpc.todo).count i + r.todo.count i =
      (rpcs.flatMap Rpc.todo).count i + r'.todo.count i := by
  induction rpcs generalizing k with
  | nil => cases h
  | cons r₀ rpcs ih =>
    cases k with
    | zero =>
      cases h
      simp only [List.set_cons_zero, List.flatMap_cons, List.count_append]
      omega
    | succ k =>
      have := ih (show rpcs[k]? = some r from h)
      simp only [List.set_cons_succ, List.flatMap_cons, List.count_append]
      omega

theorem mem_todo_of_get {rpcs : List Rpc} {k : Nat} {r : Rpc} (h : rpcs[k]? = some r) {i : Nat}
    (hi : i ∈ r.todo) : i ∈ rpcs.flatMap Rpc.todo :=
  List.mem_flatMap.2 ⟨r, List.mem_of_getElem? h, hi⟩

/-- A step of a call that is issued, in which no slot changes. -/
theorem Tenancy.rpc (h : Tenancy n k s free) {m : Nat} {r r' : Rpc} (hr : s.rpcs[m]? = some r)
    {completed : List Nat} (latch : Bool)
    (ht : ∀ i, r'.todo.count i + completed.count i = r.todo.count i + s.completed.count i) :
    Tenancy n k ({ s with completed := completed, latch := latch }.setRpc m r') free := by
  refine h.relist rfl rfl rfl rfl h.ring (fun _ => rfl) ?_ h.releasing h.waking
  intro i
  have h1 := count_set_todo r' i hr
  have h2 := ht i
  show List.count i (s.worker.begun ++ ((s.rpcs.set m r').flatMap Rpc.todo ++ completed)) = _
  simp only [St.taken, List.count_append]
  omega

/-- The handler of an issued call answers a slot that is still there for it. -/
theorem tenancy_respond (h : Tenancy n k s free) {m i : Nat} {r r' : Rpc} (hr : s.rpcs[m]? = some r)
    (hi : i ∈ r.todo) (hr' : r'.todo = r.todo) {p : FgaPayload} (hp : p.request = (s.mem i).request)
    (author : Nat → Option (Call × RpcOutcome)) :
    Tenancy n k ({ s.setPayload i p with author := author }.setRpc m r') free := by
  have hpos : 0 < s.taken.count i :=
    List.count_pos_iff.2 (by simp only [St.taken, List.mem_append]; exact Or.inr (Or.inl (mem_todo_of_get hr hi)))
  have htaken : ∀ j, ({ s.setPayload i p with author := author }.setRpc m r').taken.count j =
      s.taken.count j := by
    intro j
    have h1 := count_set_todo r' j hr
    rw [hr'] at h1
    show List.count j (s.worker.begun ++ ((s.rpcs.set m r').flatMap Rpc.todo ++ s.completed)) = _
    simp only [St.taken, List.count_append]
    omega
  refine h.of_slot i h.ring h.spells h.nodup (fun j _ => .refl _ j) (fun j hj => setPayload_ne _ _ hj)
    (fun _ _ => Iff.rfl) (fun _ _ => rfl) (fun j _ => htaken j) (fun _ _ => ⟨rfl, rfl⟩) ?_ (h.account i) ?_
    h.waking
  · rw [htaken i]
    have hst : ((s.pool.setPayload i p).slots i).state = (s.pool.slots i).state := setPayload_state ..
    have hreq : ((s.pool.setPayload i p).slots i).payload.request = (s.pool.slots i).payload.request := by
      rw [setPayload_self]; exact hp
    cases h.tenure i with
    | free hn hf hat ho => have := hat.2.2; omega
    | held hn hf b job stage hb hslot hat ho =>
      have he := hat.enqueued (by omega)
      refine .held hn hf b job stage hb hslot ((heldAt_enqueued he).2 ?_) ho
      have hat' := (heldAt_enqueued he).1 hat
      unfold At at *
      show job.Asks ((s.pool.setPayload i p).slots i).payload.request ∧ _
      rw [hreq]
      exact hst ▸ hat'
    | cancelled hn hf hs hwt hc ho => exact .cancelled hn hf (hst.trans hs) hwt (hreq ▸ hc) ho
    | lost hf hs hw ht ho => omega
  · intro j hj
    exact (setPayload_state ..).trans (h.releasing j hj)

theorem tenancy_handler (h : Tenancy n k s free) {m : Nat} {r : Rpc} (hr : s.rpcs[m]? = some r)
    (hs : s.stepHandler m r = some s') : Tenancy n k s' free := by
  obtain ⟨o, i, todo, -, htodo, rfl⟩ | ⟨o, i, todo, -, htodo, rfl⟩ | ⟨o, -, rfl⟩ := stepHandler_cases hs
  · have hi : i ∈ r.todo := by rw [htodo]; exact List.mem_cons_self
    refine tenancy_respond h hr hi ?_ (complete_request r.call o (s.mem i)) _
    rfl
  · refine h.rpc hr s.latch fun j => ?_
    simp only [htodo, List.count_append, List.count_cons, List.count_nil]
    omega
  · exact h.rpc hr true fun _ => rfl

/-- **What a step keeps.** -/
theorem tenancy_step (h : Tenancy n k s free) {a : Act} (hg : Guard s a) (hs : s.step a = some s') :
    ∃ free', Tenancy n k s' free' := by
  cases a with
  | acquire b config call =>
    obtain ⟨hb, rfl⟩ := step_acquire hs
    exact tenancy_acquire h hb config call
  | backend b fails =>
    obtain ⟨job, stage, hb, rfl⟩ := step_backend hs
    refine tenancy_advance h hb (fun raised he => ?_) fails
    subst he
    exact hg job raised hb
  | exit b =>
    obtain ⟨hb, rfl⟩ := step_exit hs
    exact ⟨free, h.off (i := 0) (fun j => by rw [hb]; exact not_owns_idle j) not_owns_gone none (Or.inl rfl)⟩
  | worker => exact tenancy_worker h hg hs
  | complete m o =>
    obtain ⟨r, hr, -, rfl⟩ := step_complete hs
    exact ⟨free, h.rpc hr s.latch fun _ => rfl⟩
  | handler m =>
    obtain ⟨r, hr, hs⟩ := step_handler hs
    exact ⟨free, tenancy_handler h hr hs⟩

theorem tenancy_init {n k : Nat} (hn : n ≤ 2 ^ 16) (hk : k ≤ 15) (mem : Nat → FgaChannelSlot)
    (values : Nat → UInt16) : Tenancy n k (St.init n k mem values) (initFree n) := by
  obtain ⟨hspells, hempty⟩ := poolInit_spec mem n
  have hring := ring_init hk values
  have hwait : (St.init n k mem values).waiting = [] := by
    show (queueContents (queueInit _ values)).map UInt16.toNat ++ [] = []
    rw [hring.contents]; rfl
  refine ⟨hn, ?_, hspells, nodup_initFree n, fun i => ?_, fun i hi => ?_, ?_, ?_⟩
  · show Ring (queueInit _ values) k (queueContents (queueInit _ values))
    rw [hring.contents]
    exact hring
  · rw [hwait]
    by_cases hi : i < n
    · exact .free hi (mem_initFree.2 hi) ⟨hempty i hi, rfl, rfl⟩ fun b => not_owns_idle i
    · exact .lost (fun hm => hi (mem_initFree.1 hm)) (fun hn => absurd hn hi) rfl rfl fun b => not_owns_idle i
  · rw [if_pos (mem_initFree.2 hi)]
    rfl
  · intro i hi; cases hi
  · intro i hi; cases hi

end

end PostFga
