import PostFga.Payload
/-
# The OpenFGA client: what it sends and what it writes back (`client/`)

A payload is named by the index of its slot; the client reads the request of a payload when a
call is issued and writes its response when the call completes.

| here | there |
| --- | --- |
| `GrpcStatus`, `RpcOutcome` | `::grpc::Status`, and with it the response message the stub has filled in: the members a handler reads |
| `TupleKey` .. `DeleteStoreRequest` | the protobuf messages of the service, the fields the fillers set |
| `RequestVariant`, `makeRequestVariant` | `request_variant.hpp:207`, `:210` |
| `fillTupleKey`, `fillCheckRequest` | `openfga_client_check.cpp:27`, `:11` |
| `fillWriteRequest`, `fillDeleteRequest` | `openfga_client_write.cpp:17`, `:31` |
| `Call`          | one call on the stub: the payloads its callback captured, and the request |
| `handleRequest` | the `handle_request` overloads (`openfga_client_check.cpp:129`, `_write.cpp:54`, `:81`, `_store.cpp:26`, `:55`, `openfga_client.cpp:149`) |
| `handleCheckBatch` | `handle_check_batch` (`openfga_client_check.cpp:49`) |
| `process`, `processBatch` | `openfga_client.cpp:62`, `:70` |
| `Call.complete` | what the callback of the call writes into one payload |

Deadlines are left out: running into one is one of the outcomes.
-/

namespace PostFga

/-- `::grpc::Status`: OK, or an error with its message. -/
inductive GrpcStatus where
  | ok
  | error (message : CStr)
deriving DecidableEq, Repr

/-- `BatchCheckSingleResult`: the members of its `oneof`, or none of them. -/
inductive BatchCheckSingleResult where
  | allowed (b : Bool)
  | error (message : CStr)
  | notSet
deriving DecidableEq, Repr

structure RpcOutcome where
  status : GrpcStatus
  /-- `CheckResponse.allowed`. -/
  allowed : Bool
  /-- `BatchCheckResponse.result`, by correlation id. -/
  result : String → Option BatchCheckSingleResult
  /-- `CreateStoreResponse.id`. -/
  id : CStr
  /-- `CreateStoreResponse.name`. -/
  name : CStr

structure TupleKey where
  object : Bytes
  user : Bytes
  relation : Bytes
deriving DecidableEq, Repr

structure CheckRequest where
  storeId : Bytes
  authorizationModelId : Bytes
  tupleKey : TupleKey
deriving DecidableEq, Repr

structure BatchCheckItem where
  correlationId : String
  tupleKey : TupleKey
deriving DecidableEq, Repr

structure BatchCheckRequest where
  storeId : Bytes
  authorizationModelId : Bytes
  checks : List BatchCheckItem
deriving DecidableEq, Repr

structure WriteRequestWrites where
  tupleKeys : List TupleKey
  onDuplicate : String
deriving DecidableEq, Repr

structure WriteRequestDeletes where
  tupleKeys : List TupleKey
  onMissing : String
deriving DecidableEq, Repr

/-- A field that is not set is empty on the wire. -/
structure WriteRequest where
  storeId : Bytes
  authorizationModelId : Bytes
  writes : Option WriteRequestWrites
  deletes : Option WriteRequestDeletes
deriving DecidableEq, Repr

structure CreateStoreRequest where
  name : Bytes
deriving DecidableEq, Repr

structure DeleteStoreRequest where
  storeId : Bytes
deriving DecidableEq, Repr

inductive RequestVariant where
  | checkTuple | writeTuple | deleteTuple | getStore | createStore | deleteStore | invalidRequest
deriving DecidableEq, Repr

/-- The `switch` over the type. -/
def variantOf (type : UInt16) : RequestVariant :=
  if type = FGA_REQUEST_CHECK then .checkTuple
  else if type = FGA_REQUEST_WRITE_TUPLE then .writeTuple
  else if type = FGA_REQUEST_DELETE_TUPLE then .deleteTuple
  else if type = FGA_REQUEST_GET_STORE then .getStore
  else if type = FGA_REQUEST_CREATE_STORE then .createStore
  else if type = FGA_REQUEST_DELETE_STORE then .deleteStore
  else .invalidRequest

def makeRequestVariant (request : FgaRequest) : RequestVariant := variantOf request.type

/-! ## Fillers -/

/-- `type ":" id`. -/
def typedId (type id : Bytes) : Bytes := type ++ (58 : UInt8) :: id

def fillTupleKey (tuple : FgaTuple) : TupleKey where
  object := typedId tuple.objectType.cstr tuple.objectId.cstr
  user := typedId tuple.subjectType.cstr tuple.subjectId.cstr
  relation := tuple.relation.cstr

def fillCheckRequest (request : FgaRequest) : CheckRequest where
  storeId := request.storeId.cstr
  authorizationModelId := request.modelId.cstr
  tupleKey := fillTupleKey request.body

def fillWriteRequest (request : FgaRequest) : WriteRequest where
  storeId := request.storeId.cstr
  authorizationModelId := request.modelId.cstr
  writes := some { tupleKeys := [fillTupleKey request.body], onDuplicate := "ignore" }
  deletes := none

def fillDeleteRequest (request : FgaRequest) : WriteRequest where
  storeId := request.storeId.cstr
  authorizationModelId := []
  writes := none
  deletes := some { tupleKeys := [fillTupleKey request.body], onMissing := "ignore" }

/-- `std::to_string(request_id)`. -/
def correlationId (request : FgaRequest) : String := request.requestId.toNat.repr

/-! ## Issuing -/

inductive Call where
  | check (slot : Nat) (request : CheckRequest)
  | write (slot : Nat) (request : WriteRequest)
  | delete (slot : Nat) (request : WriteRequest)
  | createStore (slot : Nat) (request : CreateStoreRequest)
  | deleteStore (slot : Nat) (request : DeleteStoreRequest)
  | batchCheck (slots : List Nat) (request : BatchCheckRequest)
deriving DecidableEq, Repr

/-- The payloads the callback of the call writes and completes, in order. -/
def Call.slots : Call → List Nat
  | .check slot _ | .write slot _ | .delete slot _ | .createStore slot _ | .deleteStore slot _ => [slot]
  | .batchCheck slots _ => slots

/-- `GetStore` and `InvalidRequest` have empty handlers: no call, and the callback is dropped. -/
def handleRequest (mem : Nat → FgaPayload) (slot : Nat) : List Call :=
  let request := (mem slot).request
  match makeRequestVariant request with
  | .checkTuple => [.check slot (fillCheckRequest request)]
  | .writeTuple => [.write slot (fillWriteRequest request)]
  | .deleteTuple => [.delete slot (fillDeleteRequest request)]
  | .createStore => [.createStore slot ⟨request.storeName.cstr⟩]
  | .deleteStore => [.deleteStore slot ⟨request.storeId.cstr⟩]
  | .getStore | .invalidRequest => []

/-- The store and the model of the call are those of the first item. -/
def handleCheckBatch (mem : Nat → FgaPayload) (items : List Nat) : List Call :=
  match items with
  | [] => []
  | first :: _ =>
    [.batchCheck items
      { storeId := (mem first).request.storeId.cstr
        authorizationModelId := (mem first).request.modelId.cstr
        checks := items.map fun item =>
          ⟨correlationId (mem item).request, fillTupleKey (mem item).request.body⟩ }]

def process (mem : Nat → FgaPayload) (slot : Nat) : List Call := handleRequest mem slot

def isCheckTuple (mem : Nat → FgaPayload) (slot : Nat) : Bool :=
  makeRequestVariant (mem slot).request == .checkTuple

/-- One item goes the way of `process`; of several, the checks are put into one call, and the others
are issued one by one before it. -/
def processBatch (mem : Nat → FgaPayload) (items : List Nat) : List Call :=
  match items with
  | [] => []
  | [item] => handleRequest mem item
  | _ => (items.filter fun item => !isCheckTuple mem item).flatMap (handleRequest mem) ++
      handleCheckBatch mem (items.filter (isCheckTuple mem))

/-! ## Completing -/

/-- The message most handlers leave when the status is not OK. -/
def FgaResponse.fail (res : FgaResponse) (status : FgaResponseStatus) (message : CStr) : FgaResponse :=
  { res with status := status, errorMessage := strlcpy res.errorMessage message }

def FgaResponse.setAllow (res : FgaResponse) (v : Bool) : FgaResponse :=
  { res with body := res.body.setFlag v }

def checkDone (o : RpcOutcome) (res : FgaResponse) : FgaResponse :=
  match o.status with
  | .ok => { res with status := .ok }.setAllow o.allowed
  | .error message => (res.setAllow false).fail .clientError message

def writeDone (o : RpcOutcome) (res : FgaResponse) : FgaResponse :=
  match o.status with
  | .ok => { res with status := .ok }
  | .error message => res.fail .clientError message

def deleteDone (o : RpcOutcome) (res : FgaResponse) : FgaResponse :=
  match o.status with
  | .ok => { res with status := .ok, body := res.body.setFlag true }
  | .error message => res.fail .clientError message

def createStoreDone (o : RpcOutcome) (res : FgaResponse) : FgaResponse :=
  match o.status with
  | .ok => { res with status := .ok, body := ⟨strlcpy res.body.id o.id, strlcpy res.body.name o.name⟩ }
  | .error message => res.fail .clientError message

def deleteStoreDone (o : RpcOutcome) (res : FgaResponse) : FgaResponse :=
  match o.status with
  | .ok => { res with status := .ok }
  | .error message => res.fail .clientError message

/-- One item of a batch; the correlation id is taken from the payload again. -/
def batchItemDone (o : RpcOutcome) (p : FgaPayload) : FgaResponse :=
  let out := p.response
  match o.status with
  | .ok =>
    match o.result (correlationId p.request) with
    | none => { out.setAllow false with status := .clientError }
    | some (.allowed b) => { out with status := .ok }.setAllow b
    | some (.error message) => (out.setAllow false).fail .serverError message
    | some .notSet => (out.setAllow false).fail .clientError (.lit "Invalid response received")
  | .error message => (out.setAllow false).fail .clientError message

def Call.complete (c : Call) (o : RpcOutcome) (p : FgaPayload) : FgaPayload :=
  { p with response :=
      match c with
      | .check .. => checkDone o p.response
      | .write .. => writeDone o p.response
      | .delete .. => deleteDone o p.response
      | .createStore .. => createStoreDone o p.response
      | .deleteStore .. => deleteStoreDone o p.response
      | .batchCheck .. => batchItemDone o p }

/-! ## Small facts -/

@[simp] theorem setAllow_allow (res : FgaResponse) (v : Bool) : (res.setAllow v).allow = v :=
  flag_setFlag res.body v
@[simp] theorem setAllow_status (res : FgaResponse) (v : Bool) : (res.setAllow v).status = res.status := rfl
@[simp] theorem fail_status (res : FgaResponse) (s : FgaResponseStatus) (m : CStr) :
    (res.fail s m).status = s := rfl
@[simp] theorem fail_allow (res : FgaResponse) (s : FgaResponseStatus) (m : CStr) :
    (res.fail s m).allow = res.allow := rfl
@[simp] theorem complete_request (c : Call) (o : RpcOutcome) (p : FgaPayload) :
    (c.complete o p).request = p.request := rfl

/-! ## The slots of the calls -/

/-- The client issues a call for the request. -/
def FgaRequest.Callable (r : FgaRequest) : Prop :=
  makeRequestVariant r ≠ .getStore ∧ makeRequestVariant r ≠ .invalidRequest

instance (r : FgaRequest) : Decidable r.Callable := inferInstanceAs (Decidable (_ ∧ _))

theorem handleRequest_slots (mem : Nat → FgaPayload) (i : Nat) :
    (handleRequest mem i).flatMap Call.slots = if (mem i).request.Callable then [i] else [] := by
  unfold handleRequest
  dsimp only
  split <;> rename_i hv <;> simp [Call.slots, FgaRequest.Callable, hv]

theorem handleCheckBatch_slots (mem : Nat → FgaPayload) (items : List Nat) :
    (handleCheckBatch mem items).flatMap Call.slots = items := by
  cases items <;> simp [handleCheckBatch, Call.slots]

theorem mem_handleCheckBatch {mem : Nat → FgaPayload} {items : List Nat} {c : Call}
    (h : c ∈ handleCheckBatch mem items) : ∃ first ∈ items, c = .batchCheck items
      { storeId := (mem first).request.storeId.cstr
        authorizationModelId := (mem first).request.modelId.cstr
        checks := items.map fun item =>
          ⟨correlationId (mem item).request, fillTupleKey (mem item).request.body⟩ } := by
  cases items with
  | nil => cases h
  | cons first others => exact ⟨first, List.mem_cons_self, List.mem_singleton.1 h⟩

/-- A call of a batch: one for a single item, or the one for all checks. -/
theorem mem_processBatch {mem : Nat → FgaPayload} {items : List Nat} {c : Call} (h : c ∈ processBatch mem items) :
    (∃ i ∈ items, c ∈ handleRequest mem i) ∨ c ∈ handleCheckBatch mem (items.filter (isCheckTuple mem)) := by
  unfold processBatch at h
  split at h
  · cases h
  · exact Or.inl ⟨_, List.mem_singleton_self _, h⟩
  · rcases List.mem_append.1 h with h | h
    · obtain ⟨i, hi, h⟩ := List.mem_flatMap.1 h
      exact Or.inl ⟨i, (List.mem_filter.1 hi).1, h⟩
    · exact Or.inr h

theorem count_flatMap_handleRequest (mem : Nat → FgaPayload) (i : Nat) (items : List Nat) :
    ((items.flatMap (handleRequest mem)).flatMap Call.slots).count i =
      if (mem i).request.Callable then items.count i else 0 := by
  induction items with
  | nil => simp
  | cons j items ih =>
    rw [List.flatMap_cons, List.flatMap_append, List.count_append, ih, handleRequest_slots, List.count_cons]
    by_cases hj : j = i
    · subst hj
      split <;> simp; omega
    · have hne : (j == i) = false := beq_eq_false_iff_ne.2 hj
      split <;> split <;> simp [List.count_singleton, hne]

/-- Every item that has a call is a slot of one call; the others are dropped. -/
theorem count_processBatch (mem : Nat → FgaPayload) (items : List Nat) (i : Nat) :
    ((processBatch mem items).flatMap Call.slots).count i =
      if (mem i).request.Callable then items.count i else 0 := by
  unfold processBatch
  split
  · simp
  · rename_i item
    have := count_flatMap_handleRequest mem i [item]
    rwa [List.flatMap_singleton] at this
  · rw [List.flatMap_append, List.count_append, count_flatMap_handleRequest, handleCheckBatch_slots]
    cases hck : isCheckTuple mem i with
    | true =>
      have hv : makeRequestVariant (mem i).request = .checkTuple := by simpa [isCheckTuple] using hck
      have hc : (mem i).request.Callable := by simp [FgaRequest.Callable, hv]
      have h0 : (items.filter fun j => !isCheckTuple mem j).count i = 0 :=
        List.count_eq_zero.2 fun hm => by simpa [hck] using (List.mem_filter.1 hm).2
      rw [if_pos hc, if_pos hc, h0, List.count_filter hck, Nat.zero_add]
    | false =>
      have h0 : (items.filter (isCheckTuple mem)).count i = 0 :=
        List.count_eq_zero.2 fun hm => by simpa [hck] using (List.mem_filter.1 hm).2
      rw [h0, List.count_filter (by simp [hck]), Nat.add_zero]

theorem correlationId_inj {r r' : FgaRequest} (h : correlationId r = correlationId r') :
    r.requestId = r'.requestId := by
  have key : ∀ n : Nat, n = Nat.ofDigitChars 10 n.repr.toList 0 := fun n => by
    rw [Nat.toList_repr, Nat.ofDigitChars_ten_toDigits]
  have hn : r.requestId.toNat = r'.requestId.toNat := by
    unfold correlationId at h
    rw [key r.requestId.toNat, key r'.requestId.toNat, h]
  exact UInt64.toNat_inj.1 hn

end PostFga
