import PostFga.Channel.Effects
import PostFga.Channel.Tenancy
/-
# Who has a slot: the steps of a call

A call takes a slot from the free list, writes its request into it, enqueues it, waits, and releases
it or gives it up. `Tenancy.keep`, `Tenancy.push` and `Tenancy.off` are the three kinds of steps:
on a slot the call owns, of a slot that goes back to the free list, and of a call without a slot.
-/

namespace PostFga

section
variable {n k : Nat} {s s' : St} {free free' : List Nat}

theorem waiting_congr (hq : s'.queue = s.queue) (hw : s'.worker = s.worker) : s'.waiting = s.waiting := by
  unfold St.waiting; rw [hq, hw]

theorem taken_congr (hw : s'.worker = s.worker) (hr : s'.rpcs = s.rpcs) (hc : s'.completed = s.completed) :
    s'.taken = s.taken := by
  unfold St.taken; rw [hw, hr, hc]

/-- A step of a call on the slot it owns, without queue or free list. -/
theorem Tenancy.keep (h : Tenancy n k s free) {b : Nat} {job : Job} {stage : Stage} {x : Backend}
    (hb : s.backends b = .running job stage) (ho : stage.owns = true)
    (hback : s'.backends = Function.update s.backends b x) (hx : ∀ j, j ≠ job.slot → ¬ x.Owns j)
    (hslots : ∀ j, j ≠ job.slot → s'.pool.slots j = s.pool.slots j) (hfree : s'.pool.free = s.pool.free)
    (hq : s'.queue = s.queue) (hw : s'.worker = s.worker) (hr : s'.rpcs = s.rpcs)
    (hc : s'.completed = s.completed) (hacq : s'.acquired = s.acquired) (hrel : s'.released = s.released)
    (hi : ∀ w t, HeldAt job (s.pool.slots job.slot) w t stage →
      (∃ job' stage', x = .running job' stage' ∧ job'.slot = job.slot ∧
        HeldAt job' (s'.pool.slots job.slot) w t stage') ∨
      ¬ x.Owns job.slot ∧ ((s'.pool.slots job.slot).state ≠ .empty ∧ w = 0 ∧ t = 0 ∨
        (s'.pool.slots job.slot).state = .canceled ∧
        (s'.pool.slots job.slot).payload.request.Callable ∧ w + t = 1)) : Tenancy n k s' free := by
  obtain ⟨hn, hf, hat, huniq⟩ := (h.tenure job.slot).of_owner hb ho rfl
  have hwc := waiting_congr hq hw
  have htc := taken_congr hw hr hc
  refine h.of_slot job.slot (by rw [hq]; exact h.ring) (by rw [hfree]; exact h.spells) h.nodup ?_ hslots
    (fun _ _ => Iff.rfl) (fun _ _ => by rw [hwc]) (fun _ _ => by rw [htc])
    (fun _ _ => by rw [hacq, hrel]; exact ⟨rfl, rfl⟩) ?_ (by rw [hacq, hrel]; exact h.account job.slot) ?_ ?_
  · intro j hj
    rw [hback]
    refine sameOwner_update ?_ (hx j hj)
    rw [hb, owns_running]
    exact fun hown => hj hown.2.symm
  · rw [hwc, htc, hback]
    rcases hi _ _ hat with ⟨job', stage', rfl, hslot, hat'⟩ | ⟨hno, ⟨hst, hw0, ht0⟩ | ⟨hst, hcall, hwt⟩⟩
    · exact .held hn hf b job' stage' (Function.update_self ..) hslot hat' (owner_update huniq _)
    · exact .lost hf (fun _ => hst) hw0 ht0 (no_owner_update huniq hno)
    · exact .cancelled hn hf hst hwt hcall (no_owner_update huniq hno)
  · intro j hj
    rw [hw] at hj
    rw [hslots j]
    · exact h.releasing j hj
    · rintro rfl
      exact (h.releasing_no_owner hj).2.2.2 b (by rw [hb]; exact owns_running.2 ⟨ho, rfl⟩)
  · intro j hj
    rw [hw] at hj
    exact h.waking j hj

/-- A slot that nothing names and nobody owns any more is pushed. -/
theorem Tenancy.push (h : Tenancy n k s free) {i : Nat} (hn : i < n) (hf : i ∉ free)
    (hpool : s'.pool = releaseSlot s.pool i) (hacq : s'.acquired = s.acquired)
    (hrel : s'.released = Function.update s.released i (s.released i + 1)) (hq : s'.queue = s.queue)
    (hB : ∀ j, j ≠ i → SameOwner s.backends s'.backends j) (hno : ∀ b, ¬ (s'.backends b).Owns i)
    (hw : ∀ j, j ≠ i → s'.waiting.count j = s.waiting.count j) (hw0 : s'.waiting.count i = 0)
    (ht : ∀ j, j ≠ i → s'.taken.count j = s.taken.count j) (ht0 : s'.taken.count i = 0)
    (hreleasing : ∀ j, s'.worker.releasing = some j → j ≠ i ∧ s.worker.releasing = some j)
    (hwake : ∀ j, s'.worker.waking = some j → j < n) : Tenancy n k s' (i :: free) := by
  refine h.of_slot i (by rw [hq]; exact h.ring) (by rw [hpool]; exact h.spells.pushHead hf)
    (List.nodup_cons.2 ⟨hf, h.nodup⟩) hB (fun j hj => by rw [hpool, releaseSlot_ne _ hj])
    (fun j hj => by simp [hj]) hw ht
    (fun j hj => by rw [hacq, hrel, Function.update_of_ne hj]; exact ⟨rfl, rfl⟩) ?_ ?_ ?_ hwake
  · rw [hw0, ht0]
    exact .free hn (by simp) ⟨by rw [hpool, releaseSlot_self], rfl, rfl⟩ hno
  · intro _
    have := h.account i hn
    rw [if_neg hf] at this
    rw [hacq, hrel, Function.update_self, if_pos (by simp)]
    omega
  · intro j hj
    obtain ⟨hne, hj'⟩ := hreleasing j hj
    rw [hpool, releaseSlot_ne _ hne]
    exact h.releasing j hj'

/-- The owner of a slot without entries releases it. -/
theorem Tenancy.ownerRelease (h : Tenancy n k s free) {b : Nat} {job : Job} {stage : Stage} {x : Backend}
    (hb : s.backends b = .running job stage) (ho : stage.owns = true) (hne : stage.enqueued = false)
    (hx : ∀ j, ¬ x.Owns j) (hs' : s' = (s.apply .release job.slot).setBackend b x) :
    Tenancy n k s' (job.slot :: free) := by
  obtain ⟨hn, hf, hat, huniq⟩ := (h.tenure job.slot).of_owner hb ho rfl
  have h0 : s.waiting.count job.slot = 0 ∧ s.taken.count job.slot = 0 := by
    by_contra hcon
    have := hat.enqueued (by omega)
    rw [hne] at this
    cases this
  subst hs'
  refine h.push hn hf rfl rfl rfl rfl ?_ (no_owner_update huniq (hx _)) (fun _ _ => rfl) h0.1 (fun _ _ => rfl)
    h0.2 ?_ h.waking
  · intro j hj
    refine sameOwner_update ?_ (hx j)
    rw [hb, owns_running]
    exact fun hown => hj hown.2.symm
  · intro j hj
    refine ⟨?_, hj⟩
    rintro rfl
    exact (h.releasing_no_owner hj).2.2.2 b (by rw [hb]; exact owns_running.2 ⟨ho, rfl⟩)

/-- A step of a backend that owns no slot, before or after. -/
theorem Tenancy.off (h : Tenancy n k s free) {b i : Nat} {x : Backend} (hold : ∀ j, ¬ (s.backends b).Owns j)
    (hx : ∀ j, ¬ x.Owns j) (pid : Option Nat)
    (hs' : s' = s.setBackend b x ∨ s' = (s.apply (.writePid pid) i).setBackend b x) : Tenancy n k s' free := by
  have hB : ∀ j, SameOwner s.backends (Function.update s.backends b x) j :=
    fun j => sameOwner_update (hold j) (hx j)
  rcases hs' with rfl | rfl
  · exact h.of_slot i h.ring h.spells h.nodup (fun j _ => hB j) (fun _ _ => rfl) (fun _ _ => Iff.rfl)
      (fun _ _ => rfl) (fun _ _ => rfl) (fun _ _ => ⟨rfl, rfl⟩)
      ((h.tenure i).frame (hB i) rfl rfl Iff.rfl rfl rfl) (h.account i) h.releasing h.waking
  · refine h.of_slot i h.ring h.spells h.nodup (fun j _ => hB j) (fun j hj => setPid_ne _ _ hj)
      (fun _ _ => Iff.rfl) (fun _ _ => rfl) (fun _ _ => rfl) (fun _ _ => ⟨rfl, rfl⟩)
      ((h.tenure i).frame (hB i) (setPid_state ..) (setPid_payload ..) Iff.rfl rfl rfl) (h.account i) ?_ h.waking
    intro j hj
    exact (setPid_state ..).trans (h.releasing j hj)

theorem thrown_owns {job : Job} {raised : Raised} {j : Nat} (h : (job.thrown raised).Owns j) :
    job.slot = j ∧ (raised = .before ∨ raised = .response) := by
  unfold Job.thrown at h
  split at h
  · exact absurd h (not_owns_idle j)
  · obtain ⟨ho, hj⟩ := owns_running.1 h
    refine ⟨hj, ?_⟩
    cases raised <;> first | exact Or.inl rfl | exact Or.inr rfl | cases ho

theorem tenancy_acquire (h : Tenancy n k s free) {b : Nat} (hb : s.backends b = .idle) (config : FgaConfig)
    (call : SqlCall) : ∃ free', Tenancy n k (s.acquire b config call) free' := by
  unfold St.acquire acquireSlot
  cases hp : s.pool.free.popHead with
  | none => exact ⟨free, h⟩
  | some p =>
    obtain ⟨i, rest⟩ := p
    obtain ⟨free', rfl, hspells⟩ := h.spells.popHead hp
    obtain ⟨hi, hnodup⟩ := List.nodup_cons.1 h.nodup
    have hidle : ∀ j, ¬ (s.backends b).Owns j := fun j => by rw [hb]; exact not_owns_idle j
    refine ⟨free', h.of_slot i h.ring hspells hnodup ?_ (fun j hj => setState_ne _ _ hj)
      (fun j hj => by simp [hj]) (fun _ _ => rfl) (fun _ _ => rfl) ?_ ?_ ?_ ?_ h.waking⟩
    · intro j hj
      exact sameOwner_update (hidle j) fun hown => hj (owns_running.1 hown).2.symm
    · intro j hj
      exact ⟨Function.update_of_ne hj _ _, rfl⟩
    · obtain ⟨hn, ⟨-, hw, ht⟩, ho⟩ := (h.tenure i).of_free List.mem_cons_self
      exact .held hn hi b ⟨config, call, i, 0⟩ .setPid (goto_self ..) rfl
        ⟨setState_self _ i .pending, hw, ht⟩ (owner_update (fun b' hb' => absurd hb' (ho b')) _)
    · intro hn
      have := h.account i hn
      rw [if_pos (by simp)] at this
      show Function.update s.acquired i (s.acquired i + 1) i = s.released i + _
      rw [Function.update_self, if_neg hi, this]
    · intro j hj
      have hne : j ≠ i := by
        rintro rfl
        exact (h.releasing_no_owner hj).2.1 (by simp)
      exact (congrArg _ (setState_ne _ _ hne)).trans (h.releasing j hj)

/-- When all writes are done the slot holds the request of the call. -/
theorem Job.Filling.asks {job : Job} {p : FgaPayload} (h : job.Filling p [] none) : job.Asks p.request := by
  obtain ⟨done, ws, hws, hdone, rfl⟩ := h
  rw [List.append_nil] at hdone
  show job.call.request job.config job.requestId = _
  unfold SqlCall.request
  rw [hws, ← hdone]

/-- The entry that is new is the slot's. -/
theorem tenancy_enqueue_waiting (h : Tenancy n k s free) {job : Job} (hn : job.slot < n)
    {queue : FgaChannelSlotQueue} (hq : queueEnqueue s.queue (.ofNat job.slot) = some queue) (b j : Nat) :
    ({ s with queue := queue }.goto b job .wakeBgw).waiting.count j =
      s.waiting.count j + if job.slot = j then 1 else 0 := by
  have hfits : (UInt16.ofNat job.slot).toNat = job.slot := by
    have h16 := h.fits
    have hmod : (UInt16.ofNat job.slot).toNat = job.slot % 2 ^ 16 := UInt16.toNat_ofNat'
    rw [hmod, Nat.mod_eq_of_lt (by omega)]
  have hring := h.ring.of_enqueue hq
  show List.count j ((queueContents queue).map UInt16.toNat ++ s.worker.todo) = _
  rw [hring.contents, List.map_append, List.map_singleton, hfits]
  unfold St.waiting
  simp only [List.count_append, List.count_singleton, beq_iff_eq]
  omega

theorem tenancy_enqueue (h : Tenancy n k s free) {b : Nat} {job : Job}
    (hb : s.backends b = .running job (.fill [] none)) {queue : FgaChannelSlotQueue}
    (hq : queueEnqueue s.queue (.ofNat job.slot) = some queue) :
    Tenancy n k ({ s with queue := queue }.goto b job .wakeBgw) free := by
  obtain ⟨hn, hf, ⟨⟨hst, hw, ht⟩, hfill⟩, huniq⟩ := (h.tenure job.slot).of_owner hb rfl rfl
  have hwait := tenancy_enqueue_waiting h hn hq b
  have hring := h.ring.of_enqueue hq
  refine h.of_slot job.slot ?_ h.spells h.nodup ?_ (fun _ _ => rfl) (fun _ _ => Iff.rfl) ?_ (fun _ _ => rfl)
    (fun _ _ => ⟨rfl, rfl⟩) ?_ (h.account job.slot) h.releasing h.waking
  · show Ring queue k (queueContents queue)
    rw [hring.contents]
    exact hring
  · intro j hj
    refine sameOwner_update ?_ fun hown => hj (owns_running.1 hown).2.symm
    rw [hb, owns_running]
    exact fun hown => hj hown.2.symm
  · intro j hj
    rw [hwait, if_neg fun he => hj he.symm, Nat.add_zero]
  · rw [hwait, if_pos rfl, hw]
    exact .held hn hf b job .wakeBgw (Function.update_self ..) rfl ⟨hfill.asks, Or.inl ⟨hst, rfl, ht⟩⟩
      (owner_update huniq _)

/-- A step of a call from one stage to another, on a slot that it keeps. -/
theorem Tenancy.stay (h : Tenancy n k s free) {b : Nat} {job job' : Job} {stage stage' : Stage}
    (hb : s.backends b = .running job stage) (ho : stage.owns = true) {slot : FgaChannelSlot}
    {pool : FgaChannelSlotPool} {requestId : UInt64} {latch : Bool} (hfree : pool.free = s.pool.free)
    (hslots : ∀ j, j ≠ job.slot → pool.slots j = s.pool.slots j) (hslot : pool.slots job.slot = slot)
    (hjob : job'.slot = job.slot)
    (hi : ∀ w t, HeldAt job (s.pool.slots job.slot) w t stage → HeldAt job' slot w t stage') :
    Tenancy n k
      ({ s with pool := pool, requestId := requestId, latch := latch }.setBackend b (.running job' stage'))
      free := by
  refine h.keep hb ho rfl ?_ hslots hfree rfl rfl rfl rfl rfl rfl fun w t hat => Or.inl ?_
  · intro j hj hown
    exact hj ((owns_running.1 hown).2.symm.trans hjob)
  · refine ⟨job', stage', rfl, hjob, ?_⟩
    show HeldAt job' (pool.slots job.slot) w t stage'
    rw [hslot]
    exact hi w t hat

/-- A step of a call in which the channel does not change. -/
theorem Tenancy.goto (h : Tenancy n k s free) {b : Nat} {job : Job} {stage stage' : Stage}
    (hb : s.backends b = .running job stage) (ho : stage.owns = true)
    (hi : ∀ w t, HeldAt job (s.pool.slots job.slot) w t stage →
      HeldAt job (s.pool.slots job.slot) w t stage') :
    Tenancy n k (s.goto b job stage') free :=
  h.stay hb ho rfl (fun _ _ => rfl) rfl rfl hi

/-- An ERROR of a call whose slot nothing names: the slot is its `PG_CATCH`'s, or lost. -/
theorem Tenancy.raise (h : Tenancy n k s free) {b : Nat} {job : Job} {stage : Stage} {raised : Raised}
    (hb : s.backends b = .running job stage) (ho : stage.owns = true) (hne : stage.enqueued = false)
    (hi : ∀ w t, HeldAt job (s.pool.slots job.slot) w t stage →
      HeldAt job (s.pool.slots job.slot) w t (.catchBlock raised)) :
    Tenancy n k (s.raise b job raised) free := by
  rw [raise_eq]
  refine h.keep hb ho rfl (fun j hj hown => hj (thrown_owns hown).1.symm) (fun _ _ => rfl) rfl rfl rfl rfl rfl
    rfl rfl fun w t hat => ?_
  by_cases hck : job.call.isCheck = true
  · have hidle : job.thrown raised = .idle := if_pos hck
    refine Or.inr ⟨by rw [hidle]; exact not_owns_idle _, Or.inl ⟨hat.state_ne_empty, ?_⟩⟩
    by_contra hcon
    have := hat.enqueued (by omega)
    rw [hne] at this
    cases this
  · exact Or.inl ⟨job, _, if_neg hck, rfl, hi w t hat⟩

/-- A waiting call that reads DONE: no list names its slot any more. -/
theorem HeldAt.of_done {job : Job} {slot : FgaChannelSlot} {w t : Nat}
    (hat : HeldAt job slot w t (.wait .readState)) (hst : slot.state = .done) :
    HeldAt job slot w t .response := by
  refine ⟨hat.1, ?_⟩
  rcases hat.2 with ⟨hst', -, -⟩ | ⟨hst', -, -⟩ | hat'
  · rw [hst] at hst'; cases hst'
  · rw [hst] at hst'; cases hst'
  · exact hat'

theorem tenancy_wait (h : Tenancy n k s free) {b : Nat} {job : Job} {pc : WaitPc}
    (hb : s.backends b = .running job (.wait pc)) (fails : Bool) :
    ∃ free', Tenancy n k (s.advance b job fails (.wait pc)) free' := by
  cases pc with
  | readState =>
    obtain ⟨-, -, ⟨-, hcase⟩, -⟩ := (h.tenure job.slot).of_owner hb rfl rfl
    refine ⟨free, ?_⟩
    unfold St.advance waitStep
    rcases hcase with ⟨hst, -, -⟩ | ⟨hst, -, -⟩ | ⟨hst, -, -⟩
    · simp only [hst]
      exact h.goto hb rfl fun w t hat => hat
    · simp only [hst]
      exact h.goto hb rfl fun w t hat => hat
    · simp only [hst]
      exact h.goto hb rfl fun w t hat => HeldAt.of_done hat hst
  | waitLatch =>
    refine ⟨free, ?_⟩
    cases fails
    · exact h.goto hb rfl fun w t hat => hat
    · exact h.goto hb rfl fun w t hat => hat
  | catchReadState =>
    obtain ⟨-, -, ⟨-, hcase⟩, -⟩ := (h.tenure job.slot).of_owner hb rfl rfl
    refine ⟨free, ?_⟩
    unfold St.advance waitStep
    rcases hcase with ⟨hst, -, -⟩ | ⟨hst, -, -⟩ | ⟨hst, -, -⟩
    · simp only [hst]
      exact h.goto hb rfl fun w t hat => hat
    · simp only [hst]
      exact h.goto hb rfl fun w t hat => hat
    · simp only [hst]
      exact h.goto hb rfl fun w t hat => HeldAt.of_done hat hst
  | catchCancel =>
    refine ⟨free, h.keep hb rfl rfl (fun j hj hown => hj (owns_running.1 hown).2.symm)
      (fun j hj => setState_ne _ _ hj) rfl rfl rfl rfl rfl rfl rfl fun w t hat => Or.inr ⟨?_, ?_⟩⟩
    · intro hown; cases (owns_running.1 hown).1
    · obtain ⟨hasks, hcase⟩ := hat
      have hcall : ((s.pool.setState job.slot .canceled).slots job.slot).payload.request.Callable := by
        rw [setState_payload]
        exact asks_callable hasks
      rcases hcase with ⟨-, hw, ht⟩ | ⟨-, hw, ht⟩ | ⟨-, hw, ht⟩
      · exact Or.inr ⟨setState_self .., hcall, by omega⟩
      · exact Or.inr ⟨setState_self .., hcall, by omega⟩
      · refine Or.inl ⟨?_, hw, ht⟩
        rw [show ((s.advance b job fails (.wait .catchCancel)).pool.slots job.slot).state = .canceled from
          setState_self ..]
        simp
  | catchRelease =>
    refine ⟨_, h.ownerRelease hb rfl rfl ?_ rfl⟩
    intro j hown
    cases (owns_running.1 hown).1
  | catchWritePid =>
    refine ⟨free, h.off ?_ ?_ none (Or.inr (raise_eq _ b job .execute))⟩
    · intro j hown
      rw [hb] at hown
      cases (owns_running.1 hown).1
    · intro j hown
      rcases (thrown_owns hown).2 with he | he <;> cases he

/-- A step of a call. -/
theorem tenancy_advance (h : Tenancy n k s free) {b : Nat} {job : Job} {stage : Stage}
    (hb : s.backends b = .running job stage)
    (hg : ∀ raised, stage = .catchBlock raised → raised ≠ .execute ∧ raised ≠ .formTuple) (fails : Bool) :
    ∃ free', Tenancy n k (s.advance b job fails stage) free' := by
  have hthrown : ∀ raised, raised ≠ .before → raised ≠ .response → ∀ j, ¬ (job.thrown raised).Owns j := by
    intro raised h1 h2 j hown
    exact (thrown_owns hown).2.elim h1 h2
  cases stage with
  | setPid =>
    refine ⟨free, h.stay hb rfl rfl (fun j hj => setPid_ne _ _ hj) rfl rfl fun w t hat => ?_⟩
    exact ⟨(setPid_state ..).trans hat.1, hat.2⟩
  | resetPayload =>
    refine ⟨free, h.stay hb rfl rfl (fun j hj => setPayload_ne _ _ hj) rfl rfl fun w t hat => ?_⟩
    exact ⟨⟨(setPayload_state ..).trans hat.1, hat.2⟩, setPayload_self ..⟩
  | nextRequestId =>
    refine ⟨free, h.stay hb rfl rfl (fun _ _ => rfl) rfl rfl fun w t hat => ⟨hat.1, [.reset], _, rfl, rfl, ?_⟩⟩
    exact hat.2
  | fill todo err =>
    cases todo with
    | cons w todo =>
      refine ⟨free, h.stay hb rfl rfl (fun j hj => setPayload_ne _ _ hj) rfl rfl fun _ _ hat => ?_⟩
      obtain ⟨hat, done, ws, hws, hdone, hp⟩ := hat
      refine ⟨⟨(setPayload_state ..).trans hat.1, hat.2⟩, done ++ [w], ws, hws, by simp [hdone], ?_⟩
      rw [setPayload_self, applyWrites_append, ← hp]
      rfl
    | nil =>
      cases err with
      | some e => exact ⟨free, h.raise hb rfl rfl fun w t hat => hat.1⟩
      | none =>
        unfold St.advance
        cases hq : queueEnqueue s.queue (.ofNat job.slot) with
        | none => exact ⟨free, h.goto hb rfl fun w t hat => hat.1⟩
        | some queue => exact ⟨free, tenancy_enqueue h hb hq⟩
  | queueFull => exact ⟨_, h.ownerRelease hb rfl rfl (hthrown .execute (by simp) (by simp)) (raise_eq ..)⟩
  | wakeBgw => exact ⟨free, h.stay hb rfl rfl (fun _ _ => rfl) rfl rfl fun w t hat => hat⟩
  | wait pc => exact tenancy_wait h hb fails
  | canceled => exact ⟨_, h.ownerRelease hb rfl rfl (hthrown .execute (by simp) (by simp)) (raise_eq ..)⟩
  | response =>
    refine ⟨free, ?_⟩
    simp only [St.advance]
    split
    · exact h.goto hb rfl fun w t hat => hat
    · split
      · exact h.raise hb rfl rfl fun w t hat => hat
      · exact h.goto hb rfl fun w t hat => hat
  | release =>
    refine ⟨job.slot :: free, ?_⟩
    simp only [St.advance]
    split
    · refine h.ownerRelease hb rfl rfl ?_ rfl
      intro j hown; cases (owns_running.1 hown).1
    · exact h.ownerRelease hb rfl rfl (fun j => not_owns_idle j) rfl
  | formTuple =>
    have hold : ∀ j, ¬ (s.backends b).Owns j := by
      intro j hown
      rw [hb] at hown
      cases (owns_running.1 hown).1
    refine ⟨free, ?_⟩
    simp only [St.advance]
    split
    · exact h.off (i := 0) hold (hthrown .formTuple (by simp) (by simp)) none (Or.inl (raise_eq ..))
    · exact h.off (i := 0) hold (fun j => not_owns_idle j) none (Or.inl rfl)
  | catchBlock raised =>
    obtain ⟨h1, h2⟩ := hg raised rfl
    have ho : (Stage.catchBlock raised).owns = true := by cases raised <;> first | rfl | contradiction
    exact ⟨_, h.ownerRelease hb ho rfl (fun j => not_owns_idle j) rfl⟩

end

end PostFga
