import PostFga.Channel.RequestIds
import PostFga.Sql.Wire
/-
# What a call is told

From the SQL function to the server and back: the request in the slot, the batch it goes out in, the
correlation id under which it comes back, the handler that writes the response. What the
server answers may change from one RPC to the next, as the store does under writes, and an RPC may fail, with
a status that is not OK.

* `SqlCall.answer` — the response to the call if its RPC is the one it would send alone.
* `FgaResponse.Alike` — what the SQL functions read of a response.
* `ServedBy` — an outcome that one of the servers `Up` gives, or a failure.
* `Honest` — the RPCs have completed as a server answers, and no batch names an item twice.
* `Serving` — what is known of a run; `served_run`: a call gets the answer to its own question.
-/

namespace PostFga

open Transition

def SqlCall.answer (S : Server) (config : FgaConfig) (slot : Nat) (call : SqlCall) : FgaResponse :=
  let c := call.asks cut config slot
  (c.complete (S.outcome c) .zero).response

/-- The status but for the kind of failure, the message and the result. -/
structure FgaResponse.Alike (res res' : FgaResponse) : Prop where
  ok : res.status = .ok ↔ res'.status = .ok
  errorMessage : res.errorMessage = res'.errorMessage
  body : res.body = res'.body

/-- The items of a batch have different correlation ids. -/
def Call.Distinct : Call → Prop
  | .batchCheck _ req => (req.checks.map BatchCheckItem.correlationId).Nodup
  | _ => True

/-- As the server answers at some time, or a failure of an RPC that may fail. -/
def ServedBy (Up : Server → Prop) (Down : Call → Prop) (c : Call) (o : RpcOutcome) : Prop :=
  (∃ S, Up S ∧ o = S.outcome c) ∨ Down c ∧ ∃ message, o.status = .error message

/-- The outcome of a call that has completed. -/
def RpcPc.outcome : RpcPc → Option RpcOutcome
  | .issued => none
  | .write o | .append o | .setLatch o => some o

structure Honest (Up : Server → Prop) (Down : Call → Prop) (s : St) : Prop where
  calls : ∀ r ∈ s.rpcs, r.call.Distinct ∧ ∀ o, r.pc.outcome = some o → ServedBy Up Down r.call o
  author : ∀ i c o, s.author i = some (c, o) → c.Distinct ∧ ServedBy Up Down c o

/-- The servers complete the calls. -/
def ServedGuard (Up : Server → Prop) (Down : Call → Prop) (s : St) : Act → Prop
  | .complete m o => ∀ r, s.rpcs[m]? = some r → ServedBy Up Down r.call o
  | _ => True

/-! ## One call -/

theorem find_check {checks : List BatchCheckItem} {item : BatchCheckItem} (hmem : item ∈ checks)
    (hnd : (checks.map BatchCheckItem.correlationId).Nodup) :
    checks.find? (fun x => x.correlationId == item.correlationId) = some item := by
  induction checks with
  | nil => cases hmem
  | cons x checks ih =>
    rw [List.map_cons, List.nodup_cons] at hnd
    rcases List.mem_cons.1 hmem with rfl | hmem
    · rw [List.find?_cons_of_pos (by simp)]
    · have hne : x.correlationId ≠ item.correlationId := fun he => hnd.1 (by rw [he]; exact List.mem_map_of_mem hmem)
      rw [List.find?_cons_of_neg (by simpa using hne)]
      exact ih hmem hnd.2

/-- A failure is not OK, whatever was asked. -/
theorem complete_failed {o : RpcOutcome} {message : CStr} (h : o.status = .error message) (c : Call) (p : FgaPayload) :
    (c.complete o p).response.status ≠ .ok := by
  cases c <;> simp [Call.complete, checkDone, writeDone, deleteDone, createStoreDone, deleteStoreDone, batchItemDone, h]

theorem Call.IssuedFor.mem_slots {c : Call} {i : Nat} {r : FgaRequest} (h : c.IssuedFor i r) : i ∈ c.slots := by
  have hone : ∀ c' : Call, handleRequest (fun _ => ⟨r, FgaPayload.zero.response⟩) i = [c'] → i ∈ c'.slots := by
    intro c' hc'
    have hmem : c' ∈ handleRequest (fun _ => ⟨r, FgaPayload.zero.response⟩) i := by
      rw [hc']
      exact List.mem_singleton_self c'
    rw [slots_of_mem_handleRequest hmem]
    exact List.mem_singleton_self i
  cases c with
  | batchCheck slots req => exact h.1
  | check | write | delete | createStore | deleteStore => exact hone _ h

/-- The answer to an item of a batch is the one to its check alone. -/
theorem alike_batchItem (S : Server) {slots : List Nat} {req : BatchCheckRequest} {p : FgaPayload} {i : Nat}
    (hfresh : p.response = FgaPayload.zero.response) (hissued : (Call.batchCheck slots req).IssuedFor i p.request)
    (hdistinct : (Call.batchCheck slots req).Distinct) :
    ((Call.batchCheck slots req).complete (S.outcome (.batchCheck slots req)) p).response.Alike
      ((Call.check i (fillCheckRequest p.request)).complete
        (S.outcome (.check i (fillCheckRequest p.request))) .zero).response := by
  obtain ⟨-, -, hstore, hmodel, hitem⟩ := hissued
  have hfind := find_check hitem hdistinct
  simp only at hfind
  simp only [Call.complete, Server.outcome, batchItemDone, hfind, Option.map_some, hstore, hmodel, fillCheckRequest,
    hfresh]
  cases S.check p.request.storeId.cstr p.request.modelId.cstr (fillTupleKey p.request.body) with
  | allowed | denied => exact ⟨Iff.rfl, rfl, rfl⟩
  | error message => exact ⟨by simp [Answer.single, checkDone], rfl, rfl⟩

/-- A call of its own reads nothing but the response of the payload. -/
theorem complete_alone {c : Call} (hc : ∀ slots req, c ≠ .batchCheck slots req) (o : RpcOutcome) {p : FgaPayload}
    (hfresh : p.response = FgaPayload.zero.response) : (c.complete o p).response = (c.complete o .zero).response := by
  cases c with
  | batchCheck slots req => exact absurd rfl (hc slots req)
  | check | write | delete | createStore | deleteStore => simp only [Call.complete, hfresh]

/-- A call that was issued for the request of `job` answers it as the job's own RPC does. -/
theorem alike_answer (S : Server) {job : Job} {p : FgaPayload} {c : Call} (hasks : job.Asks p.request)
    (hfresh : p.response = FgaPayload.zero.response) (hissued : c.IssuedFor job.slot p.request)
    (hdistinct : c.Distinct) :
    (c.complete (S.outcome c) p).response.Alike (job.call.answer S job.config job.slot) := by
  let alone : Nat → FgaPayload := fun _ => ⟨p.request, FgaPayload.zero.response⟩
  have halone : handleRequest alone job.slot = [job.call.asks cut job.config job.slot] := by
    have hproc : process alone job.slot = _ := process_asks hasks rfl
    exact hproc
  unfold SqlCall.answer
  cases c with
  | batchCheck slots req =>
    have hck : isCheckTuple alone job.slot = true := by
      rw [isCheckTuple]
      exact decide_eq_true hissued.2.1
    have hcheck : handleRequest alone job.slot = [.check job.slot (fillCheckRequest p.request)] := process_check hck
    rw [hcheck] at halone
    rw [← List.singleton_inj.1 halone]
    exact alike_batchItem S hfresh hissued hdistinct
  | check | write | delete | createStore | deleteStore =>
    rw [← List.singleton_inj.1 (hissued.symm.trans halone), complete_alone (by simp) _ hfresh]
    exact ⟨Iff.rfl, rfl, rfl⟩

theorem verdict_of_not_ok {res : FgaResponse} (h : res.status ≠ .ok) : res.verdict = none := by
  unfold FgaResponse.verdict
  split
  · rename_i he
    exact absurd he h
  · rfl

theorem FgaResponse.Alike.verdict {res res' : FgaResponse} (h : res.Alike res') : res.verdict = res'.verdict := by
  have hallow : res.allow = res'.allow := congrArg FgaResponseBody.flag h.body
  by_cases hok : res.status = .ok
  · simp only [FgaResponse.verdict, hok, h.ok.1 hok, hallow]
  · rw [verdict_of_not_ok hok, verdict_of_not_ok fun he => hok (h.ok.2 he)]

/-- The answer to a check. -/
theorem answer_check (S : Server) (config : FgaConfig) (slot : Nat) (v : TupleArgsView) :
    ((SqlCall.check v).answer S config slot).verdict =
      (S.check (cut (settingBytes config.storeId)) (cut (settingBytes config.modelId)) (v.key cut)).verdict :=
  verdict_check S slot _ .zero

/-! ## What a step keeps -/

section
variable {n k : Nat} {s s' : St} {free : List Nat} {Up : Server → Prop} {Down : Call → Prop}

/-- The batch that is handed over names no item twice. -/
theorem distinct_of_processBatch (ten : Tenancy n k s free) (h : Numbered s) {begun : List Nat}
    (hw : s.worker = .begin [] begun) {c : Call} (hc : c ∈ processBatch s.mem begun) : c.Distinct := by
  obtain ⟨hnd, hid⟩ := h.begun ten hw
  rcases mem_processBatch hc with ⟨i, -, hi⟩ | hc
  · simp only [handleRequest] at hi
    split at hi <;> simp only [List.mem_singleton, List.not_mem_nil] at hi <;> subst hi <;> trivial
  · obtain ⟨first, -, rfl⟩ := mem_handleCheckBatch hc
    show List.Nodup _
    rw [List.map_map]
    refine List.Nodup.map_on (fun i hi j hj he => ?_) (hnd.filter _)
    exact hid i (List.mem_filter.1 hi).1 j (List.mem_filter.1 hj).1 (correlationId_inj he)

/-- One call changes. -/
theorem Honest.set (h : Honest Up Down s) {m : Nat} {r r' : Rpc} {author : Nat → Option (Call × RpcOutcome)}
    (hrpcs : s'.rpcs = s.rpcs.set m r') (hauthor : s'.author = author) (hr : s.rpcs[m]? = some r)
    (hcall : r'.call = r.call) (ho : ∀ o, r'.pc.outcome = some o → ServedBy Up Down r.call o)
    (ha : ∀ i c o, author i = some (c, o) → c.Distinct ∧ ServedBy Up Down c o) : Honest Up Down s' := by
  refine ⟨fun x hx => ?_, fun i c o => by rw [hauthor]; exact ha i c o⟩
  rw [hrpcs] at hx
  rcases get_set_rpc hr hx with rfl | ⟨m', -, hx'⟩
  · rw [hcall]
    exact ⟨(h.calls r (List.mem_of_getElem? hr)).1, ho⟩
  · exact h.calls x (List.mem_of_getElem? hx')

theorem honest_handler (h : Honest Up Down s) {m : Nat} {r : Rpc} (hr : s.rpcs[m]? = some r)
    (hs : s.stepHandler m r = some s') : Honest Up Down s' := by
  obtain ⟨hdistinct, hserves⟩ := h.calls r (List.mem_of_getElem? hr)
  obtain ⟨o, i, todo, hpc, -, rfl⟩ | ⟨o, i, todo, hpc, -, rfl⟩ | ⟨o, hpc, rfl⟩ := stepHandler_cases hs
  · rw [hpc] at hserves
    refine h.set rfl rfl hr rfl hserves fun j c o' hj => ?_
    have hj : Function.update s.author i (some (r.call, o)) j = some (c, o') := hj
    rw [Function.update_apply] at hj
    split at hj
    · cases hj
      exact ⟨hdistinct, hserves o rfl⟩
    · exact h.author j c o' hj
  · rw [hpc] at hserves
    exact h.set rfl rfl hr rfl hserves h.author
  · rw [hpc] at hserves
    exact h.set rfl rfl hr rfl hserves h.author

theorem honest_step (ten : Tenancy n k s free) (hnum : Numbered s) (h : Honest Up Down s) {a : Act}
    (hg : ServedGuard Up Down s a) (hs : s.step a = some s') : Honest Up Down s' := by
  cases a with
  | acquire b config call =>
    obtain ⟨-, rfl⟩ := step_acquire hs
    unfold St.acquire
    split <;> exact ⟨h.calls, h.author⟩
  | backend b fails =>
    obtain ⟨job, stage, -, rfl⟩ := step_backend hs
    obtain ⟨-, hrpcs, -, hauthor, -⟩ := advance_lists s b job fails stage
    exact ⟨by rw [hrpcs]; exact h.calls, by rw [hauthor]; exact h.author⟩
  | exit b =>
    obtain ⟨-, rfl⟩ := step_exit hs
    exact ⟨h.calls, h.author⟩
  | worker =>
    obtain ⟨hauthor, hrpcs | ⟨begun, hw, hrpcs⟩⟩ := worker_rpcs hs
    · exact ⟨by rw [hrpcs]; exact h.calls, by rw [hauthor]; exact h.author⟩
    · refine ⟨fun r hr => ?_, by rw [hauthor]; exact h.author⟩
      rw [hrpcs] at hr
      rcases List.mem_append.1 hr with hr | hr
      · exact h.calls r hr
      · obtain ⟨c, hc, rfl⟩ := List.mem_map.1 hr
        exact ⟨distinct_of_processBatch ten hnum hw hc, fun o ho => by cases ho⟩
  | complete m o =>
    obtain ⟨r, hr, -, rfl⟩ := step_complete hs
    refine h.set rfl rfl hr rfl (fun o' ho' => ?_) h.author
    obtain rfl := Option.some.inj ho'
    exact hg r hr
  | handler m =>
    obtain ⟨r, hr, hs⟩ := step_handler hs
    exact honest_handler h hr hs

/-! ## Runs -/

/-- The response to a call is alike a server's answer to the call, unless its RPC has failed. -/
def ToldRight (Up : Server → Prop) (Down : Call → Prop) (config : FgaConfig) (call : SqlCall) (slot : Nat)
    (res : FgaResponse) : Prop :=
  (∃ S, Up S ∧ res.Alike (call.answer S config slot)) ∨ res.status ≠ .ok ∧ ∃ c, Down c ∧ slot ∈ c.slots

/-- A verdict on a check is a server's. -/
theorem ToldRight.verdict {config : FgaConfig} {v : TupleArgsView} {slot : Nat} {res : FgaResponse}
    (h : ToldRight Up Down config (.check v) slot res) {allow : Bool} (hres : res.verdict = some allow) :
    ∃ S, Up S ∧ (S.check (cut (settingBytes config.storeId)) (cut (settingBytes config.modelId))
      (v.key cut)).verdict = some allow := by
  rcases h with ⟨S, hup, h⟩ | ⟨hstatus, -⟩
  · exact ⟨S, hup, by rw [← answer_check S config slot v, ← h.verdict, hres]⟩
  · rw [verdict_of_not_ok hstatus] at hres
    cases hres

/-- All that is known of a run in which the servers complete the calls. -/
structure Serving (n k : Nat) (Up : Server → Prop) (Down : Call → Prop) (s : St) : Prop where
  tenancy : ∃ free, Tenancy n k s free
  numbered : Numbered s
  isolated : Isolated n s
  honest : Honest Up Down s

def ServingGuard (Up : Server → Prop) (Down : Call → Prop) (s : St) (a : Act) : Prop :=
  IsolationGuard s a ∧ ServedGuard Up Down s a

theorem serving_step (h : Serving n k Up Down s) {a : Act} (hg : ServingGuard Up Down s a) (hcount : CountGuard s a)
    (hs : s.step a = some s') : Serving n k Up Down s' := by
  obtain ⟨free, ten⟩ := h.tenancy
  exact ⟨tenancy_step ten hg.1.1 hs, numbered_step ten h.numbered hcount hs, isolated_step ten h.isolated hg.1 hs,
    honest_step ten h.numbered h.honest hg.2 hs⟩

theorem serving_init {n k : Nat} (hn : n ≤ 2 ^ 16) (hk : k ≤ 15) (mem : Nat → FgaChannelSlot)
    (values : Nat → UInt16) : Serving n k Up Down (St.init n k mem values) where
  tenancy := ⟨_, tenancy_init hn hk mem values⟩
  numbered := numbered_init hk mem values
  isolated := isolated_init hk mem values
  honest := ⟨fun r hr => (by cases hr), fun i c o ho => (by cases ho)⟩

/-- A call that has a response has been told right by those who have served it. -/
theorem Serving.told_by {Up' : Server → Prop} (h : Serving n k Up' Down s) {b : Nat} {job : Job}
    (hb : s.backends b = .running job .response)
    (hby : ∀ c o, s.author job.slot = some (c, o) → ServedBy Up Down c o) :
    ToldRight Up Down job.config job.call job.slot (s.mem job.slot).response := by
  obtain ⟨free, ten⟩ := h.tenancy
  obtain ⟨hlt, -, ⟨hasks, hat⟩, -⟩ := (ten.tenure job.slot).of_owner hb rfl rfl
  obtain ⟨c, o, hauthor, hissued, hp⟩ := h.isolated.done job.slot hlt hat.1
  have hdistinct := (h.honest.author job.slot c o hauthor).1
  obtain ⟨S, hup, rfl⟩ | ⟨hdown, message, ho⟩ := hby c o hauthor
  · left
    refine ⟨S, hup, ?_⟩
    rw [hp]
    exact alike_answer S (p := ⟨(s.mem job.slot).request, FgaPayload.zero.response⟩) hasks rfl hissued hdistinct
  · right
    rw [hp]
    exact ⟨complete_failed ho c _, c, hdown, hissued.mem_slots⟩

theorem Serving.told (h : Serving n k Up Down s) {b : Nat} {job : Job} (hb : s.backends b = .running job .response) :
    ToldRight Up Down job.config job.call job.slot (s.mem job.slot).response :=
  h.told_by hb fun c o hauthor => (h.honest.author job.slot c o hauthor).2

theorem serving_run {n k : Nat} (hn : n ≤ 2 ^ 16) (hk : k ≤ 15) (mem : Nat → FgaChannelSlot)
    (values : Nat → UInt16) (acts : List Act) (hlen : acts.length < 2 ^ 64) {s : St}
    (hg : Meets St.step (ServingGuard Up Down) (St.init n k mem values) acts)
    (hrun : run St.step (St.init n k mem values) acts = some s) : Serving n k Up Down s := by
  have hcount : Meets St.step CountGuard (St.init n k mem values) acts :=
    countGuard_of_length acts (by rw [show (St.init n k mem values).requestId.toNat = 0 from rfl]; omega)
  exact run_inv_of_meets (Serving n k Up Down) (fun s a => ServingGuard Up Down s a ∧ CountGuard s a)
    (fun _ _ _ h hg hs => serving_step h hg.1 hg.2 hs) acts (serving_init hn hk mem values) (hg.and hcount) hrun

/-- **The answer to one's own question.** -/
theorem served_run {n k : Nat} (hn : n ≤ 2 ^ 16) (hk : k ≤ 15) (mem : Nat → FgaChannelSlot)
    (values : Nat → UInt16) (Up : Server → Prop) (Down : Call → Prop) (acts : List Act)
    (hlen : acts.length < 2 ^ 64) {s : St}
    (hg : Meets St.step (ServingGuard Up Down) (St.init n k mem values) acts)
    (hrun : run St.step (St.init n k mem values) acts = some s) : ∀ b job, s.backends b = .running job .response →
      ToldRight Up Down job.config job.call job.slot (s.mem job.slot).response ∧
      ∀ v allow, job.call = .check v → (s.mem job.slot).response.verdict = some allow →
        ∃ S, Up S ∧ (S.check (cut (settingBytes job.config.storeId)) (cut (settingBytes job.config.modelId))
          (v.key cut)).verdict = some allow := by
  intro b job hb
  have htold := (serving_run hn hk mem values acts hlen hg hrun).told hb
  refine ⟨htold, fun v allow hv hres => ?_⟩
  rw [hv] at htold
  exact htold.verdict hres

end

def viewerKey : TupleKey := TupleArgsView.key id ⟨.lit "doc", .lit "1", .lit "user", .lit "ann", .lit "viewer"⟩

/-- What the two checks of `twoChecks` go out in. -/
def twoBatch : Call :=
  .batchCheck [1023, 1022] ⟨(CStr.lit "s").bytes, [], [⟨"1", viewerKey⟩, ⟨"2", viewerKey⟩]⟩

/-- The server grants what is asked of the store `s`. -/
def grants : Server := allowOnly (CStr.lit "s").bytes []

/-- The batch is answered, and the first of the two returns. -/
def answeredChecks : List Act :=
  twoChecks ++ [.worker, .complete 0 (grants.outcome twoBatch), .handler 0, .handler 0, .handler 0] ++
    List.replicate 3 .worker ++ goOn 0 2

def firstJob : Job := ⟨⟨some (.lit "s"), none⟩, checkViewer, 1023, 1⟩

/-- A completion here is one of `twoBatch`. -/
def St.ofTwoBatch (s : St) : Act → Bool
  | .complete m _ => (s.rpcs[m]?).all fun r => r.call == twoBatch
  | _ => true

theorem serving_answered : Meets St.step (ServingGuard (Eq grants) fun _ => False) start answeredChecks := by
  have hplain : Meets St.step (fun s a => s.plain a = true) start answeredChecks := by decide +kernel
  have hbatch : Meets St.step (fun s a => s.ofTwoBatch a = true) start answeredChecks := by decide +kernel
  have houtcome : Meets St.step (fun _ a => ∀ m o, a = .complete m o → o = grants.outcome twoBatch) start
      answeredChecks := by
    refine meets_of_forall _ _ fun a ha m o he => ?_
    subst he
    simp [answeredChecks, twoChecks, waitingCheck, goOn] at ha
    exact ha.2
  refine ((hplain.mono plain_guard).and (hbatch.and houtcome)).mono fun s a h => ⟨h.1, ?_⟩
  cases a with
  | complete m o =>
    intro r hr
    have hcall : r.call = twoBatch := by simpa [St.ofTwoBatch, hr] using h.2.1
    exact Or.inl ⟨grants, rfl, by rw [hcall]; exact h.2.2 m o rfl⟩
  | acquire | backend | exit | worker | handler => trivial

theorem served_run_two : ∃ s, run St.step start answeredChecks = some s ∧ s.backends 0 = .running firstJob .response ∧
    (s.mem 1023).response.status = .ok ∧
    ToldRight (Eq grants) (fun _ => False) firstJob.config firstJob.call firstJob.slot
      (s.mem firstJob.slot).response := by
  have hend : (run St.step start answeredChecks).any (fun s => s.backends 0 == .running firstJob .response &&
      (s.mem 1023).response.status == .ok) = true := by decide +kernel
  obtain ⟨s, hs, hall⟩ := (Option.any_eq_true ..).1 hend
  simp only [Bool.and_eq_true, beq_iff_eq] at hall
  exact ⟨s, hs, hall.1, hall.2, (served_run (by decide) (by decide) freshSlot (fun _ => 0) (Eq grants)
    (fun _ => False) answeredChecks (by decide) serving_answered hs 0 firstJob hall.1).1⟩

end PostFga
