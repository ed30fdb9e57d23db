import Mathlib.Data.List.Pairwise
import PostFga.Client.Calls
/-
# A batch answers what the single calls answer, for one store and model

`handle_check_batch` sends every check of the batch under the store and the model of its first item
(`openfga_client_check.cpp:53`–`:55`); the single path sends each under its own (`:13`, `:14`).

* `Server` — a server that is a function of store, model and tuple key, and answers a batch item
  by item.
* `finish_apply` — calls with different payloads complete in any order.
* `verdict_check`, `verdict_batchCheck` — what each path makes of the server's answer.
* `processBatch_same_iff` — the two agree on every check exactly when the checks name one store
  and one model.
-/

namespace PostFga

inductive Answer where
  | allowed | denied
  | error (message : CStr)
deriving DecidableEq, Repr

structure Server where
  check : Bytes → Bytes → TupleKey → Answer
  /-- The outcomes of the other calls. -/
  other : Call → RpcOutcome

def Answer.single : Answer → BatchCheckSingleResult
  | .allowed => .allowed true
  | .denied => .allowed false
  | .error message => .error message

/-- How a call to the server completes. -/
def Server.outcome (S : Server) : Call → RpcOutcome
  | .check _ r =>
    match S.check r.storeId r.authorizationModelId r.tupleKey with
    | .allowed => ⟨.ok, true, fun _ => none, .empty, .empty⟩
    | .denied => ⟨.ok, false, fun _ => none, .empty, .empty⟩
    | .error message => ⟨.error message, false, fun _ => none, .empty, .empty⟩
  | .batchCheck _ r =>
    ⟨.ok, false, fun cid => (r.checks.find? fun item => item.correlationId == cid).map fun item =>
      (S.check r.storeId r.authorizationModelId item.tupleKey).single, .empty, .empty⟩
  | c => S.other c

/-- One call completes. -/
def Call.finish (S : Server) (mem : Nat → FgaPayload) (c : Call) : Nat → FgaPayload :=
  fun i => if i ∈ c.slots then c.complete (S.outcome c) (mem i) else mem i

/-- The calls complete one after the other. -/
def finish (S : Server) (mem : Nat → FgaPayload) (calls : List Call) : Nat → FgaPayload :=
  calls.foldl (Call.finish S) mem

/-- The outcome of a check: the `allow` value when the status is OK. -/
def FgaResponse.verdict (res : FgaResponse) : Option Bool :=
  match res.status with
  | .ok => some res.allow
  | _ => none

def Answer.verdict : Answer → Option Bool
  | .allowed => some true
  | .denied => some false
  | .error _ => none

/-! ## Completion -/

def ApartCalls (c c' : Call) : Prop := ∀ i ∈ c.slots, i ∉ c'.slots

theorem ApartCalls.symm {c c' : Call} (h : ApartCalls c c') : ApartCalls c' c :=
  fun i hi hi' => h i hi' hi

theorem finish_apply_of_notMem (S : Server) {i : Nat} (calls : List Call) (mem : Nat → FgaPayload)
    (h : ∀ c ∈ calls, i ∉ c.slots) : finish S mem calls i = mem i := by
  induction calls generalizing mem with
  | nil => rfl
  | cons c calls ih =>
    have hrest := ih (c.finish S mem) fun c' hc' => h c' (by simp [hc'])
    simp only [finish, List.foldl_cons] at hrest ⊢
    rw [hrest, Call.finish, if_neg (h c (by simp))]

/-- A payload ends as its own call leaves it. -/
theorem finish_apply (S : Server) {c : Call} {i : Nat} (hi : i ∈ c.slots) (calls : List Call)
    (mem : Nat → FgaPayload) (hc : c ∈ calls) (hap : calls.Pairwise ApartCalls) :
    finish S mem calls i = c.complete (S.outcome c) (mem i) := by
  induction calls generalizing mem with
  | nil => cases hc
  | cons d calls ih =>
    obtain ⟨hd, hap⟩ := List.pairwise_cons.1 hap
    rcases List.mem_cons.1 hc with rfl | hc
    · have hrest := finish_apply_of_notMem S calls (c.finish S mem) fun c' hc' => hd c' hc' i hi
      simp only [finish, List.foldl_cons] at hrest ⊢
      rw [hrest, Call.finish, if_pos hi]
    · have hrest := ih (d.finish S mem) hc hap
      simp only [finish, List.foldl_cons] at hrest ⊢
      rw [hrest, Call.finish, if_neg fun hid => hd c hc i hid hi]

theorem slots_of_mem_handleRequest {mem : Nat → FgaPayload} {i : Nat} {c : Call}
    (h : c ∈ handleRequest mem i) : c.slots = [i] := by
  simp only [handleRequest] at h
  split at h <;> simp only [List.mem_singleton, List.not_mem_nil] at h <;> subst h <;> rfl

theorem handleRequest_pairwise (mem : Nat → FgaPayload) (i : Nat) :
    (handleRequest mem i).Pairwise ApartCalls := by
  simp only [handleRequest]
  split <;> simp

/-- Every payload is captured by one call at most. -/
theorem processBatch_pairwise (mem : Nat → FgaPayload) {items : List Nat} (hnd : items.Nodup) :
    (processBatch mem items).Pairwise ApartCalls := by
  unfold processBatch
  split
  · exact List.Pairwise.nil
  · exact handleRequest_pairwise mem _
  · refine List.pairwise_append.2 ⟨List.pairwise_flatMap.2 ⟨fun i _ => handleRequest_pairwise mem i, ?_⟩,
      ?_, fun c hc c' hc' i hi hi' => ?_⟩
    · refine (hnd.filter _).imp fun {i j} hij c hc c' hc' x hx hx' => hij ?_
      rw [slots_of_mem_handleRequest hc, List.mem_singleton] at hx
      rw [slots_of_mem_handleRequest hc', List.mem_singleton] at hx'
      exact hx.symm.trans hx'
    · unfold handleCheckBatch; split <;> simp
    -- the single calls are those of the other items
    · obtain ⟨j, hj, hcj⟩ := List.mem_flatMap.1 hc
      rw [slots_of_mem_handleRequest hcj, List.mem_singleton] at hi
      subst hi
      have hj' := (List.mem_filter.1 hj).2
      obtain ⟨first, -, rfl⟩ := mem_handleCheckBatch hc'
      have hck := (List.mem_filter.1 hi').2
      simp [hck] at hj'

/-! ## What the two paths make of an answer -/

theorem verdict_check (S : Server) (slot : Nat) (r : CheckRequest) (p : FgaPayload) :
    ((Call.check slot r).complete (S.outcome (.check slot r)) p).response.verdict =
      (S.check r.storeId r.authorizationModelId r.tupleKey).verdict := by
  simp only [Call.complete, Server.outcome]
  cases S.check r.storeId r.authorizationModelId r.tupleKey <;>
    simp [checkDone, FgaResponse.verdict, Answer.verdict]

/-- The batch finds the item again by its correlation id. -/
theorem verdict_batchCheck (S : Server) {slots : List Nat} {r : BatchCheckRequest} {p : FgaPayload}
    {item : BatchCheckItem} (hfind : (r.checks.find? fun x => x.correlationId == correlationId p.request)
      = some item) :
    ((Call.batchCheck slots r).complete (S.outcome (.batchCheck slots r)) p).response.verdict =
      (S.check r.storeId r.authorizationModelId item.tupleKey).verdict := by
  simp only [Call.complete, Server.outcome, batchItemDone, hfind, Option.map_some]
  cases S.check r.storeId r.authorizationModelId item.tupleKey <;>
    simp [FgaResponse.verdict, Answer.verdict, Answer.single]

/-- Different request ids make different correlation ids. -/
theorem find_correlationId {mem : Nat → FgaPayload} {items : List Nat} {i : Nat} (hi : i ∈ items)
    (hid : ∀ j ∈ items, (mem j).request.requestId = (mem i).request.requestId → j = i) :
    ((items.map fun j => (⟨correlationId (mem j).request, fillTupleKey (mem j).request.body⟩ :
        BatchCheckItem)).find? fun x => x.correlationId == correlationId (mem i).request) =
      some ⟨correlationId (mem i).request, fillTupleKey (mem i).request.body⟩ := by
  induction items with
  | nil => cases hi
  | cons j items ih =>
    rw [List.map_cons]
    by_cases hc : correlationId (mem j).request = correlationId (mem i).request
    · have hji := hid j (by simp) (correlationId_inj hc)
      subst hji
      rw [List.find?_cons_of_pos (by simp)]
    · rw [List.find?_cons_of_neg (by simpa using hc)]
      rcases List.mem_cons.1 hi with rfl | hi
      · exact absurd rfl hc
      · exact ih hi fun k hk => hid k (by simp [hk])

section
variable {mem : Nat → FgaPayload} {items : List Nat}

theorem process_check {i : Nat} (hck : isCheckTuple mem i = true) :
    process mem i = [.check i (fillCheckRequest (mem i).request)] := by
  have hv : makeRequestVariant (mem i).request = .checkTuple := by simpa [isCheckTuple] using hck
  simp [process, handleRequest, hv]

/-- A check sent alone is answered under its own store and model. -/
theorem verdict_process (S : Server) {i : Nat} (hck : isCheckTuple mem i = true) :
    (finish S mem (process mem i) i).response.verdict =
      (S.check (mem i).request.storeId.cstr (mem i).request.modelId.cstr
        (fillTupleKey (mem i).request.body)).verdict := by
  rw [process_check hck, finish_apply S (c := .check i (fillCheckRequest (mem i).request)) (by simp [Call.slots]) _ _
    (by simp) (by simp), verdict_check]
  rfl

/-- A check of a batch is answered under the store and the model of the first check. -/
theorem verdict_processBatch (S : Server) (hnd : items.Nodup)
    (hid : ∀ i ∈ items, ∀ j ∈ items, isCheckTuple mem i = true → isCheckTuple mem j = true →
      (mem i).request.requestId = (mem j).request.requestId → i = j)
    {calls : List Call} (hcalls : calls.Perm (processBatch mem items)) {i : Nat} (hi : i ∈ items)
    (hck : isCheckTuple mem i = true) :
    ∃ first ∈ items, isCheckTuple mem first = true ∧
      (items.filter (isCheckTuple mem)).head? = some first ∧
      (finish S mem calls i).response.verdict =
        (S.check (mem first).request.storeId.cstr (mem first).request.modelId.cstr
          (fillTupleKey (mem i).request.body)).verdict := by
  have hpw : calls.Pairwise ApartCalls :=
    (hcalls.pairwise_iff ApartCalls.symm).2 (processBatch_pairwise mem hnd)
  have hmem : i ∈ items.filter (isCheckTuple mem) := List.mem_filter.2 ⟨hi, hck⟩
  match items, hi with
  | [j], hi =>
    obtain rfl := List.mem_singleton.1 hi
    have hcs : calls = process mem i := by
      have hp : calls.Perm (process mem i) := hcalls
      rw [process_check hck] at hp ⊢
      exact List.perm_singleton.1 hp
    exact ⟨i, hi, hck, by simp [hck], by rw [hcs, verdict_process S hck]⟩
  | a :: b :: rest, hi =>
    cases hf : (a :: b :: rest).filter (isCheckTuple mem) with
    | nil => rw [hf] at hmem; cases hmem
    | cons first others =>
      have hfirst : first ∈ (a :: b :: rest).filter (isCheckTuple mem) := by rw [hf]; simp
      obtain ⟨hfi, hfc⟩ := List.mem_filter.1 hfirst
      refine ⟨first, hfi, hfc, rfl, ?_⟩
      have hcall : Call.batchCheck (first :: others)
          { storeId := (mem first).request.storeId.cstr
            authorizationModelId := (mem first).request.modelId.cstr
            checks := (first :: others).map fun j =>
              ⟨correlationId (mem j).request, fillTupleKey (mem j).request.body⟩ } ∈ calls := by
        refine hcalls.mem_iff.2 ?_
        simp only [processBatch, hf, handleCheckBatch]
        exact List.mem_append_right _ (by simp)
      have hmem' : i ∈ first :: others := hf ▸ hmem
      rw [finish_apply S hmem' calls mem hcall hpw]
      refine verdict_batchCheck S (r := ⟨_, _, _⟩) (p := mem i) (find_correlationId hmem' fun j hj hjid => ?_)
      rw [← hf] at hj
      obtain ⟨hji, hjc⟩ := List.mem_filter.1 hj
      exact hid j hji i hi hjc hck hjid

/-- A server on which one store and model are allowed everything, and the others nothing. -/
def allowOnly (storeId modelId : Bytes) : Server where
  check st m _ := if st = storeId ∧ m = modelId then .allowed else .denied
  other _ := ⟨.ok, false, fun _ => none, .empty, .empty⟩

/-- **Batching does not change answers exactly when** the checks drained together name one store
and one model: then, whatever the server, every check of the batch, in whatever order the calls
complete, ends with the outcome it would get alone. -/
theorem processBatch_same_iff (hnd : items.Nodup)
    (hid : ∀ i ∈ items, ∀ j ∈ items, isCheckTuple mem i = true → isCheckTuple mem j = true →
      (mem i).request.requestId = (mem j).request.requestId → i = j) :
    (∀ (S : Server) (calls : List Call), calls.Perm (processBatch mem items) →
      ∀ i ∈ items, isCheckTuple mem i = true →
        (finish S mem calls i).response.verdict = (finish S mem (process mem i) i).response.verdict) ↔
    ∀ i ∈ items, ∀ j ∈ items, isCheckTuple mem i = true → isCheckTuple mem j = true →
      (mem i).request.storeId.cstr = (mem j).request.storeId.cstr ∧
      (mem i).request.modelId.cstr = (mem j).request.modelId.cstr := by
  constructor
  · intro h
    -- against the server that allows the first check's store and model only
    have hfirst : ∀ i ∈ items, isCheckTuple mem i = true → ∀ first,
        (items.filter (isCheckTuple mem)).head? = some first →
        (mem i).request.storeId.cstr = (mem first).request.storeId.cstr ∧
        (mem i).request.modelId.cstr = (mem first).request.modelId.cstr := by
      intro i hi hck first hf
      let S := allowOnly (mem first).request.storeId.cstr (mem first).request.modelId.cstr
      obtain ⟨first', -, -, hf', hb⟩ := verdict_processBatch S hnd hid (List.Perm.refl _) hi hck
      obtain rfl : first = first' := Option.some.inj (hf.symm.trans hf')
      have hsame := h S _ (List.Perm.refl _) i hi hck
      rw [hb, verdict_process S hck] at hsame
      by_contra hne
      simp [S, allowOnly, hne, Answer.verdict] at hsame
    intro i hi j hj hci hcj
    obtain ⟨first, -, -, hf, -⟩ := verdict_processBatch (allowOnly [] []) hnd hid (List.Perm.refl _) hi hci
    obtain ⟨hs, hm⟩ := hfirst i hi hci first hf
    obtain ⟨hs', hm'⟩ := hfirst j hj hcj first hf
    exact ⟨hs.trans hs'.symm, hm.trans hm'.symm⟩
  · intro h S calls hcalls i hi hck
    obtain ⟨first, hfi, hfc, -, hb⟩ := verdict_processBatch S hnd hid hcalls hi hck
    obtain ⟨hs, hm⟩ := h first hfi i hi hfc hck
    rw [hb, verdict_process S hck, hs, hm]

/-- A check under the given store. -/
def checkUnder (requestId : UInt64) (storeId : String) : FgaPayload :=
  { FgaPayload.zero with request :=
      { FgaPayload.zero.request with
        requestId := requestId
        type := FGA_REQUEST_CHECK
        storeId := strlcpy (.zero _) (.lit storeId) } }

def sameStore (i : Nat) : FgaPayload := checkUnder (.ofNat i) "a"

/-- Two checks of one store. -/
theorem processBatch_same_iff_two :
    (finish (allowOnly (CStr.lit "a").bytes []) sameStore (processBatch sameStore [0, 1]) 1).response.verdict =
      (finish (allowOnly (CStr.lit "a").bytes []) sameStore (process sameStore 1) 1).response.verdict :=
  (processBatch_same_iff (by decide) (by decide)).2 (fun _ _ _ _ _ _ => ⟨rfl, rfl⟩) _ _
    (List.Perm.refl _) 1 (by decide) (by decide)

def twoStores (i : Nat) : FgaPayload := if i = 0 then checkUnder 1 "a" else checkUnder 2 "b"

/-- **A grant under another session's store.** Two sessions check the same tuple, one under store
`a`, which allows it, one under store `b`, which does not. Drained together, both are allowed. -/
theorem processBatch_other_store :
    (finish (allowOnly (CStr.lit "a").bytes []) twoStores (processBatch twoStores [0, 1]) 1).response.verdict =
      some true ∧
    (finish (allowOnly (CStr.lit "a").bytes []) twoStores (process twoStores 1) 1).response.verdict =
      some false := by
  decide +kernel

end

end PostFga
