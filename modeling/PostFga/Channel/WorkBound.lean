import Mathlib.Algebra.BigOperators.Group.Finset.Basic
import PostFga.Channel.BackendLatch
import PostFga.Channel.Order
import PostFga.Lib.Potential
/-
# What a call costs

Latches make it hard to see that the channel comes to rest: the worker goes round because a latch is
set, sets latches of backends, and they go round because of that. Here every stage has its price, what
it may still cause included: the entry in the ring, the worker's pass, the RPC and its handler, the
wake-up at the end. A step is paid for by the price of what it moves.

* `LatchSt.store` — what a state has in store.
* `step_pays` — a step costs one; calls, signals and the rest of PostgreSQL bring in what is spent.
* `work_bound` — the length of every run, whoever takes the steps.
-/

namespace PostFga

open Transition

/-! ## Prices -/

def WaitPc.price : WaitPc → Nat
  | .readState => 5
  | .waitLatch | .catchReadState => 4
  | .catchCancel | .catchRelease => 3
  | .catchWritePid => 2

def Stage.price : Stage → Nat
  | .setPid => 40
  | .resetPayload => 39
  | .nextRequestId => 38
  | .fill todo _ => 28 + todo.length
  | .queueFull | .canceled | .formTuple => 2
  | .wakeBgw => 11
  | .wait pc => pc.price
  | .response => 4
  | .release => 3
  | .catchBlock _ => 1

def Backend.price : Backend → Nat
  | .running _ stage => stage.price
  | _ => 0

/-- Of a backend's latch. -/
def flagPrice (latch woken : Bool) : Nat := if woken then 2 else if latch then 3 else 0

def HandlePc.price : HandlePc → Nat
  | .readState => 6
  | .releaseCanceled | .writeDone => 5
  | .lookup => 4
  | .releaseUnfound => 3

def WorkerPc.price : WorkerPc → Nat
  | .waitLatch => 0
  | .resetLatch => 4
  | .drain => 3
  | .begin todo begun => 2 + 16 * todo.length + 15 * begun.length
  | .releaseCanceled _ todo begun => 3 + 16 * todo.length + 15 * begun.length
  | .swap => 1
  | .handle _ pc rest => pc.price + 6 * rest.length

def Rpc.price (r : Rpc) : Nat :=
  match r.pc with
  | .issued => 14 * r.todo.length + 1
  | .write _ => 14 * r.todo.length
  | .append _ => 14 * r.todo.length - 1
  | .setLatch _ => 14 * r.todo.length + 6

/-- Of the worker's latch: nothing, when it is about to be reset. -/
def St.latchPrice (s : St) : Nat := if s.latch = true ∧ s.worker ≠ .resetLatch then 5 else 0

/-- What is in store but for the backends. -/
def St.workPrice (s : St) : Nat :=
  s.worker.price + s.latchPrice + 16 * (queueContents s.queue).length + 6 * s.completed.length +
    total Rpc.price s.rpcs

def LatchSt.backendPrice (s : LatchSt) (b : Nat) : Nat :=
  (s.chan.backends b).price + flagPrice (s.latches b) (s.woken b)

/-- With `m` processes. -/
def LatchSt.store (m : Nat) (s : LatchSt) : Nat := s.chan.workPrice + ∑ b ∈ Finset.range m, s.backendPrice b

/-- What a label brings in. -/
def LatchAct.brings : LatchAct → Nat
  | .act (.acquire ..) => 41
  | .setLatch _ => 4
  | .act (.exit _) | .resetLatch _ => 1
  | _ => 0

def LatchAct.pid : LatchAct → Option Nat
  | .act a => a.pid
  | .setLatch b | .resetLatch b | .waitLatch b => some b

/-- The process that takes the step is one of `m`. -/
def LatchAct.Below (m : Nat) (a : LatchAct) : Prop := ∀ b, a.pid = some b → b < m

/-! ## Calls -/

section
variable {k : Nat} {s s' : St}

theorem writes_length (config : FgaConfig) (call : SqlCall) : (call.writes config).1.length ≤ 8 := by
  have htuple : ∀ type args, (tupleWrites type config args).1.length ≤ 8 := by
    intro type args
    unfold tupleWrites fillRequest fillTuple
    cases config.storeId with
    | none => simp
    | some storeId =>
      by_cases h0 : storeId.length = 0
      · simp [h0]
      · cases config.modelId <;> simp [h0]
  cases call with
  | check args => exact htuple _ args
  | writeTuple args => exact htuple _ args
  | deleteTuple args => exact htuple _ args
  | createStore name => simp [SqlCall.writes, fgaCreateStoreWrites]
  | deleteStore storeId => simp [SqlCall.writes, fgaDeleteStoreWrites]

theorem thrown_price (job : Job) (raised : Raised) : (job.thrown raised).price ≤ 1 := by
  unfold Job.thrown
  split
  · exact Nat.zero_le _
  · exact Nat.le_refl _

theorem workPrice_congr (hw : s'.worker = s.worker) (hl : s'.latch = s.latch) (hq : s'.queue = s.queue)
    (hc : s'.completed = s.completed) (hr : s'.rpcs = s.rpcs) : s'.workPrice = s.workPrice := by
  unfold St.workPrice St.latchPrice
  rw [hw, hl, hq, hc, hr]

/-- What is in the latch to pay for the next turn of the wait. -/
def Stage.refund : Stage → Nat
  | .wait .waitLatch => 2
  | _ => 0

theorem wait_price (job : Job) (st : FgaChannelSlotState) (fails : Bool) (pc : WaitPc) :
    ((waitStep st fails pc).2.backend job).price + 1 ≤ (Stage.wait pc).price + (Stage.wait pc).refund := by
  cases pc with
  | readState | catchReadState =>
    cases st <;> simp [waitStep, WaitNext.backend, Backend.price, Stage.price, WaitPc.price, Stage.refund]
  | waitLatch =>
    cases fails <;> simp [waitStep, WaitNext.backend, Backend.price, Stage.price, WaitPc.price, Stage.refund]
  | catchCancel | catchRelease =>
    simp [waitStep, WaitNext.backend, Backend.price, Stage.price, WaitPc.price]
  | catchWritePid => exact Nat.succ_le_succ (thrown_price job .execute)

/-- A step of a call that neither enqueues nor wakes the worker. -/
theorem advance_stage_price (s : St) (b : Nat) (job : Job) (fails : Bool) {stage : Stage}
    (hfill : stage ≠ .fill [] none) (hwake : stage ≠ .wakeBgw) :
    ((s.advance b job fails stage).backends b).price + 1 ≤ stage.price + stage.refund := by
  have hthrown := thrown_price job
  cases stage with
  | nextRequestId =>
    have := writes_length job.config job.call
    simp only [St.advance, goto_self, Backend.price, Stage.price, Stage.refund, List.length_cons]
    omega
  | fill todo err =>
    cases todo with
    | cons w todo =>
      simp only [St.advance, goto_self, Backend.price, Stage.price, Stage.refund, List.length_cons]
      omega
    | nil =>
      cases err with
      | none => exact absurd rfl hfill
      | some e =>
        simp only [St.advance, raise_eq, setBackend_self, Stage.price]
        have := hthrown .before
        omega
  | wakeBgw => exact absurd rfl hwake
  | wait pc =>
    simp only [St.advance, afterWait_eq, setBackend_self]
    exact wait_price job _ fails pc
  | setPid | resetPayload =>
    simp only [St.advance, goto_self, Backend.price, Stage.price, Stage.refund]
    omega
  | queueFull | canceled =>
    simp only [St.advance, raise_eq, setBackend_self, Stage.price]
    exact Nat.succ_le_succ (hthrown .execute)
  | response =>
    simp only [St.advance, raise_eq]
    repeat' split
    · simp [Backend.price, Stage.price]
    · rw [setBackend_self]
      exact Nat.succ_le_succ ((hthrown .response).trans (by decide))
    · simp [Backend.price, Stage.price]
  | release =>
    simp only [St.advance]
    split
    · simp [Backend.price, Stage.price]
    · rw [show (St.finish _ b).backends b = .idle from setBackend_self ..]; decide
  | formTuple =>
    simp only [St.advance, raise_eq, Stage.price]
    split
    · rw [setBackend_self]
      exact Nat.succ_le_succ (hthrown .formTuple)
    · rw [show (St.finish _ b).backends b = .idle from setBackend_self ..]; decide
  | catchBlock raised =>
    rw [show (s.advance b job fails (.catchBlock raised)).backends b = .idle from setBackend_self ..]
    exact Nat.le_refl _

/-- A step of a call is paid for by its stage, and pays for the entry and for the worker's latch. -/
theorem advance_price (h : Ring s.queue k (queueContents s.queue)) (b : Nat) (job : Job) (fails : Bool)
    (stage : Stage) : (s.advance b job fails stage).workPrice + ((s.advance b job fails stage).backends b).price + 1 ≤
      s.workPrice + stage.price + stage.refund := by
  obtain ⟨hworker, hrpcs, hcompleted, -, hqueue⟩ := advance_lists s b job fails stage
  by_cases hfill : stage = .fill [] none
  · subst hfill
    obtain ⟨-, hq⟩ | ⟨queue, -, hq, hring⟩ := h.enqueue (.ofNat job.slot)
    · have hnext : s.advance b job fails (.fill [] none) = s.goto b job .queueFull := by
        simp only [St.advance, hq]
      have hwork : (s.goto b job .queueFull).workPrice = s.workPrice := rfl
      rw [hnext, goto_self, hwork]
      simp only [Backend.price, Stage.price, Stage.refund, List.length_nil]
      omega
    · have hnext : s.advance b job fails (.fill [] none) = { s with queue := queue }.goto b job .wakeBgw := by
        simp only [St.advance, hq]
      have hwork : ({ s with queue := queue }.goto b job .wakeBgw).workPrice = s.workPrice + 16 := by
        show s.worker.price + s.latchPrice + 16 * (queueContents queue).length + 6 * s.completed.length +
          total Rpc.price s.rpcs = _
        rw [hring.contents, List.length_append]
        unfold St.workPrice
        simp only [List.length_cons, List.length_nil]
        omega
      rw [hnext, goto_self, hwork]
      simp only [Backend.price, Stage.price, Stage.refund, List.length_nil]
      omega
  by_cases hwake : stage = .wakeBgw
  · subst hwake
    have hwork : (s.advance b job fails .wakeBgw).workPrice ≤ s.workPrice + 5 := by
      have hl : ({ s with latch := true } : St).latchPrice ≤ s.latchPrice + 5 := by
        unfold St.latchPrice
        split <;> omega
      show s.worker.price + ({ s with latch := true } : St).latchPrice + 16 * (queueContents s.queue).length +
        6 * s.completed.length + total Rpc.price s.rpcs ≤ _
      unfold St.workPrice
      omega
    rw [show (s.advance b job fails .wakeBgw).backends b = .running job (.wait .readState) from goto_self ..]
    simp only [Backend.price, Stage.price, WaitPc.price, Stage.refund]
    omega
  · have hstage := advance_stage_price s b job fails hfill hwake
    have hlatch := (advance_backend s b job fails stage).2 hwake
    rw [workPrice_congr hworker hlatch (hqueue hfill) hcompleted hrpcs]
    omega

/-! ## The worker and the issued calls -/

theorem total_issue (calls : List Call) (h : ∀ c ∈ calls, c.slots ≠ []) :
    total Rpc.price (calls.map St.issue) ≤ 15 * (calls.flatMap Call.slots).length := by
  induction calls with
  | nil => exact Nat.zero_le _
  | cons c calls ih =>
    have hpos := List.length_pos_iff.2 (h c (by simp))
    have hrest := ih fun c' hc' => h c' (by simp [hc'])
    simp only [List.map_cons, total, List.flatMap_cons, List.length_append]
    show 14 * c.slots.length + 1 + _ ≤ _
    omega

/-- The calls of a batch have no more slots than it has items. -/
theorem processBatch_length (mem : Nat → FgaPayload) (items : List Nat) :
    ((processBatch mem items).flatMap Call.slots).length ≤ items.length := by
  refine List.Subperm.length_le (List.subperm_ext_iff.2 fun i _ => ?_)
  rw [count_processBatch]
  split
  · exact Nat.le_refl _
  · exact Nat.zero_le _

theorem handleNext_price (l : List Nat) : (St.handleNext l).price = 6 * l.length := by
  cases l with
  | nil => rfl
  | cons i l => simp only [St.handleNext, WorkerPc.price, HandlePc.price, List.length_cons]; omega

theorem handleNext_ne_resetLatch (l : List Nat) : St.handleNext l ≠ .resetLatch := by
  cases l <;> simp [St.handleNext]

/-- The worker's latch costs the same in every turn but its own. -/
theorem latchPrice_congr (hl : s'.latch = s.latch) (hw : s.worker ≠ .resetLatch) (hw' : s'.worker ≠ .resetLatch) :
    s'.latchPrice = s.latchPrice := by
  unfold St.latchPrice
  simp only [hl, hw, hw', ne_eq, not_false_eq_true, and_true]

/-- A step of the worker that moves nothing but itself. -/
theorem workPrice_worker {x : Nat} (hprice : s'.worker.price + x ≤ s.worker.price) (hl : s'.latch = s.latch)
    (hw : s.worker ≠ .resetLatch) (hw' : s'.worker ≠ .resetLatch) (hq : s'.queue = s.queue)
    (hc : s'.completed = s.completed) (hr : s'.rpcs = s.rpcs) : s'.workPrice + x ≤ s.workPrice := by
  unfold St.workPrice
  rw [latchPrice_congr hl hw hw', hq, hc, hr]
  omega

/-- What the worker pays for the backend it wakes. -/
def St.wakePrice (s : St) : Nat :=
  match s.wakes .worker with
  | some _ => 3
  | none => 0

theorem wakePrice_zero (hw : ∀ i rest, s.worker ≠ .handle i .lookup rest) : s.wakePrice = 0 := by
  have hnone : s.wakes .worker = none := by
    cases hpc : s.worker with
    | handle i pc rest =>
      cases pc with
      | lookup => exact absurd hpc (hw i rest)
      | _ => simp only [St.wakes, hpc]
    | _ => simp only [St.wakes, hpc]
  rw [St.wakePrice, hnone]

theorem worker_handle_price {i : Nat} {pc : HandlePc} {rest : List Nat} (hw : s.worker = .handle i pc rest)
    (hs : s.stepWorker = some s') : s'.worker.price + s.wakePrice + 1 ≤ s.worker.price ∧
      s'.worker ≠ .resetLatch ∧ s'.latch = s.latch ∧ s'.queue = s.queue ∧ s'.completed = s.completed ∧
      s'.rpcs = s.rpcs := by
  have hnext := handleNext_price rest
  have hne := handleNext_ne_resetLatch rest
  simp only [St.stepWorker, hw, Option.some.injEq] at hs
  subst hs
  rw [hw]
  refine ⟨?_, ?_, rfl, rfl, rfl, rfl⟩
  · by_cases hpc : pc = .lookup
    · subst hpc
      have hle : s.wakePrice ≤ if s.found i then 3 else 0 := by
        unfold St.wakePrice St.wakes
        simp only [hw]
        split
        · rename_i hsome
          split at hsome
          · rename_i hf
            rw [if_pos hf]
          · cases hsome
        · exact Nat.zero_le _
      cases hf : s.found i with
      | true =>
        rw [hf, if_pos rfl] at hle
        simp only [handleStep, if_true, hnext]
        simp only [WorkerPc.price, HandlePc.price]
        omega
      | false =>
        rw [hf, if_neg (by simp)] at hle
        simp only [handleStep, Bool.false_eq_true, if_false, WorkerPc.price, HandlePc.price]
        omega
    · have hzero : s.wakePrice = 0 := wakePrice_zero fun i' rest' he => by
        rw [hw] at he
        cases he
        exact hpc rfl
      rw [hzero]
      cases pc with
      | readState =>
        by_cases hst : (s.pool.slots i).state = .canceled
        · simp only [handleStep, hst, if_true, WorkerPc.price, HandlePc.price]; omega
        · simp only [handleStep, hst, if_false, WorkerPc.price, HandlePc.price]; omega
      | lookup => exact absurd rfl hpc
      | writeDone => simp only [handleStep, WorkerPc.price, HandlePc.price]; omega
      | releaseCanceled | releaseUnfound =>
        simp only [handleStep, hnext]
        simp only [WorkerPc.price, HandlePc.price]
        omega
  · cases hstep : (handleStep (s.pool.slots i).state (s.found i) pc).2 with
    | some pc' => simp
    | none => exact hne

/-- The worker is paid by what it moves, and pays for the latch it sets. -/
theorem worker_price (h : Ring s.queue k (queueContents s.queue)) (hs : s.stepWorker = some s') :
    s'.workPrice + s.wakePrice + 1 ≤ s.workPrice := by
  by_cases hhandle : ∃ i pc rest, s.worker = .handle i pc rest
  · obtain ⟨i, pc, rest, hw⟩ := hhandle
    obtain ⟨hprice, hne, hl, hq, hc, hr⟩ := worker_handle_price hw hs
    rw [Nat.add_assoc] at hprice ⊢
    exact workPrice_worker hprice hl (by rw [hw]; simp) hne hq hc hr
  have hzero : s.wakePrice = 0 := wakePrice_zero fun i rest hw => hhandle ⟨i, .lookup, rest, hw⟩
  rw [hzero]
  cases hw : s.worker with
  | waitLatch =>
    obtain ⟨hl, rfl⟩ := stepWorker_waitLatch hw hs
    simp only [St.workPrice, St.latchPrice, hw, hl, WorkerPc.price, ne_eq, not_true_eq_false, and_false, if_false,
      true_and, reduceCtorEq, not_false_eq_true, if_true]
    omega
  | resetLatch =>
    simp only [St.stepWorker, hw, Option.some.injEq] at hs
    subst hs
    simp only [St.workPrice, St.latchPrice, hw, WorkerPc.price, ne_eq, not_true_eq_false, and_false,
      Bool.false_eq_true, false_and, if_false]
    omega
  | drain =>
    obtain ⟨hslots, hring⟩ := h.drain 50
    simp only [St.stepWorker, hw, Option.some.injEq] at hs
    subst hs
    have hlatch : ({ s with
        queue := (queueDrain 50 s.queue).2
        worker := .begin ((queueDrain 50 s.queue).1.map UInt16.toNat) [] } : St).latchPrice = s.latchPrice :=
      latchPrice_congr rfl (by rw [hw]; simp) (by simp)
    have hlen : ((queueContents s.queue).take 50).length + ((queueContents s.queue).drop 50).length =
        (queueContents s.queue).length := by
      rw [← List.length_append, List.take_append_drop]
    unfold St.workPrice
    rw [hlatch, hw]
    simp only [hring.contents, hslots, WorkerPc.price, List.length_map, List.length_nil]
    omega
  | begin todo begun =>
    cases todo with
    | nil =>
      simp only [St.stepWorker, hw, Option.some.injEq] at hs
      subst hs
      have hissue := total_issue (processBatch s.mem begun) fun c hc => slots_ne_nil hc
      have hlen := processBatch_length s.mem begun
      have hlatch : ({ s with
          rpcs := s.rpcs ++ (processBatch s.mem begun).map St.issue
          worker := .swap } : St).latchPrice = s.latchPrice :=
        latchPrice_congr rfl (by rw [hw]; simp) (by simp)
      unfold St.workPrice
      rw [hlatch, hw, total_append]
      simp only [WorkerPc.price, List.length_nil]
      omega
    | cons i todo =>
      simp only [St.stepWorker, hw, Option.some.injEq] at hs
      have hnext : s'.worker.price + 1 ≤ s.worker.price ∧ s'.worker ≠ .resetLatch := by
        subst hs
        rw [hw]
        cases (s.pool.slots i).state <;>
          simp [beginCas, WorkerPc.price] <;> omega
      refine workPrice_worker hnext.1 ?_ (by rw [hw]; simp) hnext.2 ?_ ?_ ?_
      all_goals
        subst hs
        cases (s.pool.slots i).state <;> rfl
  | releaseCanceled i todo begun =>
    simp only [St.stepWorker, hw, Option.some.injEq] at hs
    subst hs
    refine workPrice_worker ?_ rfl (by rw [hw]; simp) (by simp) rfl rfl rfl
    simp only [hw, WorkerPc.price]
    omega
  | swap =>
    simp only [St.stepWorker, hw, Option.some.injEq] at hs
    have hlatch : s'.latchPrice = s.latchPrice :=
      latchPrice_congr (by subst hs; rfl) (by rw [hw]; simp) (by subst hs; exact handleNext_ne_resetLatch _)
    unfold St.workPrice
    rw [hlatch, hw]
    subst hs
    show (St.handleNext s.completed).price + s.latchPrice + 16 * (queueContents s.queue).length + 6 * 0 +
      total Rpc.price s.rpcs + 0 + 1 ≤ 1 + s.latchPrice + _ + _ + _
    rw [handleNext_price]
    omega
  | handle i pc rest => exact absurd ⟨i, pc, rest, hw⟩ hhandle

/-- A step of an issued call, paid for by it. -/
theorem rpc_price {m : Nat} {r : Rpc} (hr : s.rpcs[m]? = some r) (r' : Rpc) {x : Nat} (latch : Bool)
    {completed : List Nat} {pool : FgaChannelSlotPool} {author : Nat → Option (Call × RpcOutcome)}
    (hlatch : ({ s with latch := latch } : St).latchPrice + 6 * completed.length + r'.price + x ≤
      s.latchPrice + 6 * s.completed.length + r.price) :
    ({ s with pool := pool, author := author, completed := completed, latch := latch }.setRpc m r').workPrice + x ≤
      s.workPrice := by
  have hset := total_set (c := Rpc.price) r' hr
  show s.worker.price + ({ s with latch := latch } : St).latchPrice + 16 * (queueContents s.queue).length +
    6 * completed.length + total Rpc.price (s.rpcs.set m r') + x ≤ _
  unfold St.workPrice
  omega

theorem complete_price {m : Nat} {r : Rpc} {o : RpcOutcome} (hr : s.rpcs[m]? = some r) (hpc : r.pc = .issued) :
    (s.setRpc m { r with pc := .write o }).workPrice + 1 ≤ s.workPrice := by
  refine rpc_price hr { r with pc := .write o } s.latch ?_
  simp only [Rpc.price, hpc]
  show s.latchPrice + _ + _ + 1 ≤ _
  omega

theorem handler_price {m : Nat} {r : Rpc} (hr : s.rpcs[m]? = some r) (hs : s.stepHandler m r = some s') :
    s'.workPrice + 1 ≤ s.workPrice := by
  obtain ⟨o, i, todo, hpc, htodo, rfl⟩ | ⟨o, i, todo, hpc, htodo, rfl⟩ | ⟨o, hpc, rfl⟩ := stepHandler_cases hs
  · refine rpc_price hr { r with pc := .append o } s.latch ?_
    simp only [Rpc.price, hpc, htodo, List.length_cons]
    show s.latchPrice + 6 * s.completed.length + _ + 1 ≤ _
    omega
  · refine rpc_price hr ⟨r.call, .setLatch o, todo⟩ s.latch ?_
    simp only [Rpc.price, hpc, htodo, List.length_cons, List.length_append, List.length_nil]
    show s.latchPrice + _ + _ + 1 ≤ _
    omega
  · refine rpc_price hr { r with pc := .write o } true ?_
    have hl : ({ s with latch := true } : St).latchPrice ≤ s.latchPrice + 5 := by
      unfold St.latchPrice
      split <;> omega
    simp only [Rpc.price, hpc]
    omega

end

/-! ## Steps -/

section
variable {m : Nat} {s s' : LatchSt}

theorem sum_of_one {b : Nat} {f f' : Nat → Nat} (hne : ∀ b', b' ≠ b → f' b' = f b') (hb : b < m) :
    ∑ x ∈ Finset.range m, f' x + f b = ∑ x ∈ Finset.range m, f x + f' b := by
  have hmem := Finset.mem_range.2 hb
  have hrest : ∑ x ∈ (Finset.range m).erase b, f' x = ∑ x ∈ (Finset.range m).erase b, f x :=
    Finset.sum_congr rfl fun x hx => hne x (Finset.ne_of_mem_erase hx)
  rw [← Finset.add_sum_erase _ f hmem, ← Finset.add_sum_erase _ f' hmem, hrest]
  omega

theorem sum_le_of_one {b x : Nat} {f f' : Nat → Nat} (hne : ∀ b', b' ≠ b → f' b' = f b') (hle : f' b ≤ f b + x) :
    ∑ x ∈ Finset.range m, f' x ≤ ∑ x ∈ Finset.range m, f x + x := by
  by_cases hb : b < m
  · have := sum_of_one hne hb
    omega
  · have hsame : ∑ x ∈ Finset.range m, f' x = ∑ x ∈ Finset.range m, f x :=
      Finset.sum_congr rfl fun y hy => hne y fun he => hb (he ▸ Finset.mem_range.1 hy)
    omega

/-- A step of process `b` that moves its backend and its flags. -/
theorem store_of_one {b x y : Nat} (hb : b < m) (hwork : s'.chan.workPrice + s'.backendPrice b + x ≤
      s.chan.workPrice + s.backendPrice b + y) (hne : ∀ b', b' ≠ b → s'.backendPrice b' = s.backendPrice b') :
    s'.store m + x ≤ s.store m + y := by
  have := sum_of_one hne hb
  unfold LatchSt.store
  omega

/-- Where nothing happens to the latches but in the process that takes the step. -/
theorem backendPrice_of_ne {a : Act} {b : Nat} (hs : s.step (.act a) = some s') (hpid : a.pid ≠ some b)
    (hwake : s.chan.wakes a ≠ some b) : s'.backendPrice b = s.backendPrice b := by
  obtain ⟨-, hchan, hlatches, hwoken⟩ := step_act hs
  have hreset : s.chan.resets a ≠ some b := by
    intro he
    obtain ⟨fails, rfl, -⟩ := resets_eq_some he
    exact hpid rfl
  unfold LatchSt.backendPrice
  rw [step_backends hpid hchan, hlatches, hwoken, setFlag_of_ne hwake, setFlag_of_ne hreset, setFlag_of_ne hreset]

theorem pays_acquire {b : Nat} {config : FgaConfig} {call : SqlCall} (hb : b < m)
    (hs : s.step (.act (.acquire b config call)) = some s') : s'.store m + 1 ≤ s.store m + 41 := by
  obtain ⟨-, hchan, hlatches, hwoken⟩ := step_act hs
  obtain ⟨hidle, he⟩ := step_acquire hchan
  refine store_of_one hb ?_ fun b' hne => backendPrice_of_ne hs (by simpa [Act.pid] using Ne.symm hne) (by simp [St.wakes])
  have hflags : flagPrice (s'.latches b) (s'.woken b) = flagPrice (s.latches b) (s.woken b) := by
    rw [hlatches, hwoken]
    rfl
  have hwork : s'.chan.workPrice = s.chan.workPrice := by
    rw [← he]
    unfold St.acquire
    split <;> rfl
  have hprice : (s'.chan.backends b).price ≤ 40 := by
    rw [← he]
    unfold St.acquire
    split
    · rw [hidle]
      exact Nat.zero_le _
    · rw [goto_self]
      exact Nat.le_refl _
  unfold LatchSt.backendPrice
  omega

theorem pays_backend {k b : Nat} {fails : Bool} (h : Ring s.chan.queue k (queueContents s.chan.queue)) (hb : b < m)
    (hs : s.step (.act (.backend b fails)) = some s') : s'.store m + 1 ≤ s.store m := by
  obtain ⟨hreset, hchan, hlatches, hwoken⟩ := step_act hs
  obtain ⟨job, stage, hrun, he⟩ := step_backend hchan
  have hprice := advance_price h b job fails stage
  rw [he] at hprice
  refine store_of_one (y := 0) hb ?_ fun b' hne => backendPrice_of_ne hs (by simpa [Act.pid] using Ne.symm hne)
    (by simp [St.wakes])
  have hflags : flagPrice (s'.latches b) (s'.woken b) + stage.refund ≤ flagPrice (s.latches b) (s.woken b) := by
    rw [hlatches, hwoken]
    by_cases hstage : stage = .wait .waitLatch
    · subst hstage
      have hin : s.chan.resets (.backend b fails) = some b := by
        simp only [St.resets, inWaitLatch_iff.2 ⟨job, hrun⟩, if_true]
      have hw := hreset b hin
      rw [hin, hw]
      show flagPrice (setFlag s.latches (some b) false b) (setFlag s.woken (some b) false b) + 2 ≤ _
      rw [setFlag_self, setFlag_self]
      exact Nat.le_refl _
    · have hout : s.chan.resets (.backend b fails) = none := by
        have hnot : s.chan.inWaitLatch b = false := by
          refine Bool.eq_false_iff.2 fun hin => ?_
          obtain ⟨job', hb'⟩ := inWaitLatch_iff.1 hin
          rw [hrun] at hb'
          cases hb'
          exact hstage rfl
        simp only [St.resets, hnot, Bool.false_eq_true, if_false]
      have hrefund : stage.refund = 0 := by
        unfold Stage.refund
        split
        · exact absurd rfl hstage
        · rfl
      rw [hout, hrefund]
      exact Nat.le_refl _
  unfold LatchSt.backendPrice
  rw [hrun, show (Backend.running job stage).price = stage.price from rfl]
  omega

theorem pays_worker {k : Nat} (h : Ring s.chan.queue k (queueContents s.chan.queue))
    (hs : s.step (.act .worker) = some s') : s'.store m + 1 ≤ s.store m := by
  obtain ⟨-, hchan, hlatches, hwoken⟩ := step_act hs
  have hprice := worker_price h hchan
  have hsum : ∑ b ∈ Finset.range m, s'.backendPrice b ≤ ∑ b ∈ Finset.range m, s.backendPrice b + s.chan.wakePrice := by
    cases hwake : s.chan.wakes .worker with
    | none =>
      refine sum_le_of_one (b := 0) (fun b _ => ?_) ?_
      · exact backendPrice_of_ne hs (by simp [Act.pid]) (by rw [hwake]; simp)
      · rw [backendPrice_of_ne hs (by simp [Act.pid]) (by rw [hwake]; simp)]
        exact Nat.le_add_right _ _
    | some b =>
      refine sum_le_of_one (b := b) (fun b' hne => ?_) ?_
      · exact backendPrice_of_ne hs (by simp [Act.pid]) (by rw [hwake]; simpa using Ne.symm hne)
      · have hw : s.chan.wakePrice = 3 := by rw [St.wakePrice, hwake]
        have hflags : ∀ l w, flagPrice true w ≤ flagPrice l w + 3 := by decide
        unfold LatchSt.backendPrice
        rw [step_backends (a := .worker) (by simp [Act.pid]) hchan, hlatches, hwoken, hwake, setFlag_self, hw]
        have := hflags (s.latches b) (s.woken b)
        show _ + flagPrice true (s.woken b) ≤ _
        omega
  unfold LatchSt.store
  omega

/-- A step of an issued call touches no backend. -/
theorem pays_rpc {a : Act} (hs : s.step (.act a) = some s') (hpid : a.pid = none) (hwake : s.chan.wakes a = none)
    (hprice : s'.chan.workPrice + 1 ≤ s.chan.workPrice) : s'.store m + 1 ≤ s.store m := by
  have hsame : ∑ b ∈ Finset.range m, s'.backendPrice b = ∑ b ∈ Finset.range m, s.backendPrice b :=
    Finset.sum_congr rfl fun b _ => backendPrice_of_ne hs (by rw [hpid]; simp) (by rw [hwake]; simp)
  unfold LatchSt.store
  omega

/-- A flag of process `b` moves. -/
theorem store_flag {b x y : Nat} (hb : b < m) (hchan : s'.chan = s.chan)
    (hflags : flagPrice (s'.latches b) (s'.woken b) + x ≤ flagPrice (s.latches b) (s.woken b) + y)
    (hlatches : ∀ b', b' ≠ b → s'.latches b' = s.latches b') (hwoken : ∀ b', b' ≠ b → s'.woken b' = s.woken b') :
    s'.store m + x ≤ s.store m + y := by
  refine store_of_one hb ?_ fun b' hne => ?_
  · unfold LatchSt.backendPrice
    rw [hchan]
    omega
  · unfold LatchSt.backendPrice
    rw [hchan, hlatches b' hne, hwoken b' hne]

theorem step_pays (k m : Nat) : Pays LatchSt.step (fun s => Ring s.chan.queue k (queueContents s.chan.queue))
    (LatchAct.Below m) (LatchSt.store m) LatchAct.brings := by
  intro s a s' h hbelow hs
  cases a with
  | act a =>
    obtain ⟨-, hchan, hlatches, hwoken⟩ := step_act hs
    refine ⟨ring_step h hchan, ?_⟩
    cases a with
    | acquire b config call => exact pays_acquire (hbelow b rfl) hs
    | backend b fails => exact pays_backend h (hbelow b rfl) hs
    | exit b =>
      obtain ⟨hidle, he⟩ := step_exit hchan
      refine store_of_one (y := 1) (hbelow b rfl) ?_ fun b' hne =>
        backendPrice_of_ne hs (by simpa [Act.pid] using Ne.symm hne) (by simp [St.wakes])
      unfold LatchSt.backendPrice
      rw [hlatches, hwoken, ← he, setBackend_self, hidle]
      exact Nat.le_refl _
    | worker => exact pays_worker h hs
    | complete i o =>
      obtain ⟨r, hr, hpc, he⟩ := step_complete hchan
      exact pays_rpc hs rfl rfl (by rw [← he]; exact complete_price hr hpc)
    | handler i =>
      obtain ⟨r, hr, hstep⟩ := step_handler hchan
      exact pays_rpc hs rfl rfl (handler_price hr hstep)
  | setLatch b =>
    obtain rfl := step_setLatch hs
    have hflags : ∀ l w, flagPrice true w + 1 ≤ flagPrice l w + 4 := by decide
    refine ⟨h, store_flag (hbelow b rfl) rfl ?_ (fun b' hne => Function.update_of_ne hne ..) fun _ _ => rfl⟩
    show flagPrice (Function.update s.latches b true b) (s.woken b) + 1 ≤ _
    rw [Function.update_self]
    exact hflags _ _
  | resetLatch b =>
    obtain ⟨-, rfl⟩ := step_resetLatch hs
    have hflags : ∀ l w, flagPrice false w + 1 ≤ flagPrice l w + 1 := by decide
    refine ⟨h, store_flag (hbelow b rfl) rfl ?_ (fun b' hne => Function.update_of_ne hne ..) fun _ _ => rfl⟩
    show flagPrice (Function.update s.latches b false b) (s.woken b) + 1 ≤ _
    rw [Function.update_self]
    exact hflags _ _
  | waitLatch b =>
    obtain ⟨-, hl, hw, rfl⟩ := step_waitLatch hs
    refine ⟨h, store_flag (y := 0) (hbelow b rfl) rfl ?_ (fun _ _ => rfl) fun b' hne => Function.update_of_ne hne ..⟩
    show flagPrice (s.latches b) (Function.update s.woken b true b) + 1 ≤ _
    rw [Function.update_self, hl, hw]
    decide

/-! ## Runs -/

def LatchAct.isCall : LatchAct → Bool
  | .act (.acquire ..) => true
  | _ => false

/-- Somebody else sets a latch. -/
def LatchAct.isSignal : LatchAct → Bool
  | .setLatch _ => true
  | _ => false

/-- A process ends, or resets its latch between two calls. -/
def LatchAct.isIdle : LatchAct → Bool
  | .act (.exit _) | .resetLatch _ => true
  | _ => false

theorem total_brings (acts : List LatchAct) : total LatchAct.brings acts =
    41 * acts.countP LatchAct.isCall + 4 * acts.countP LatchAct.isSignal + acts.countP LatchAct.isIdle := by
  induction acts with
  | nil => rfl
  | cons a acts ih =>
    have hone : a.brings = (if a.isCall then 41 else 0) + (if a.isSignal then 4 else 0) + if a.isIdle then 1 else 0 := by
      cases a with
      | act a => cases a <;> rfl
      | _ => rfl
    rw [total, ih, hone, List.countP_cons, List.countP_cons, List.countP_cons]
    cases a.isCall <;> cases a.isSignal <;> cases a.isIdle <;> simp <;> omega

theorem exists_below (acts : List LatchAct) : ∃ m, ∀ a ∈ acts, a.Below m := by
  induction acts with
  | nil => exact ⟨0, by simp⟩
  | cons a acts ih =>
    obtain ⟨m, hm⟩ := ih
    refine ⟨max m (a.pid.elim 0 (· + 1)), fun x hx b hb => ?_⟩
    rcases List.mem_cons.1 hx with rfl | hx
    · rw [hb]
      exact Nat.lt_of_lt_of_le (Nat.lt_succ_self b) (Nat.le_max_right ..)
    · exact Nat.lt_of_lt_of_le (hm x hx b hb) (Nat.le_max_left ..)

theorem store_init {n k : Nat} (hk : k ≤ 15) (mem : Nat → FgaChannelSlot) (values : Nat → UInt16) (m : Nat) :
    (LatchSt.init (St.init n k mem values)).store m = 0 := by
  have hcon : queueContents (St.init n k mem values).queue = [] := (ring_init hk values).contents
  have hwork : (St.init n k mem values).workPrice = 0 := by
    unfold St.workPrice
    rw [hcon]
    rfl
  show (St.init n k mem values).workPrice + ∑ b ∈ Finset.range m, (LatchSt.init _).backendPrice b = 0
  rw [hwork, Nat.zero_add]
  exact Finset.sum_eq_zero fun _ _ => rfl

theorem ring_start {n k : Nat} (hk : k ≤ 15) (mem : Nat → FgaChannelSlot) (values : Nat → UInt16) :
    Ring (St.init n k mem values).queue k (queueContents (St.init n k mem values).queue) := by
  have hring := ring_init hk values
  rw [show queueContents (St.init n k mem values).queue = [] from hring.contents]
  exact hring

/-- **What a call costs**: at most 41 steps of everybody, its own included, and a signal four. -/
theorem work_bound {n k : Nat} (hk : k ≤ 15) (mem : Nat → FgaChannelSlot) (values : Nat → UInt16)
    (acts : List LatchAct) {s : LatchSt}
    (hrun : run LatchSt.step (.init (St.init n k mem values)) acts = some s) : acts.length ≤
      41 * acts.countP LatchAct.isCall + 4 * acts.countP LatchAct.isSignal + acts.countP LatchAct.isIdle := by
  obtain ⟨m, hm⟩ := exists_below acts
  have h := ((step_pays k m).run acts (ring_start hk mem values) hm hrun).2
  rw [store_init hk, total_brings] at h
  omega

theorem work_bound_early : ∃ s, run LatchSt.step (.init start) earlyWake = some s ∧ earlyWake.length ≤
    41 * earlyWake.countP LatchAct.isCall + 4 * earlyWake.countP LatchAct.isSignal +
      earlyWake.countP LatchAct.isIdle := by
  obtain ⟨s, hs⟩ := Option.isSome_iff_exists.1 (show (run LatchSt.step (.init start) earlyWake).isSome = true by
    decide +kernel)
  exact ⟨s, hs, work_bound (k := 10) (by decide) freshSlot (fun _ => 0) earlyWake hs⟩

end

end PostFga
