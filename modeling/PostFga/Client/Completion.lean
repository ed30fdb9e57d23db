import PostFga.Client.Calls
import PostFga.Lib.Merge
/-
# Every request completes once, if its type has a call

What a completion handler does is a sequence of writes to responses and of callbacks; several
handlers run side by side in the threads of the client. `Call.writes` are the writes of a handler to
one response, in the order of the source; done in that order they are `Call.complete`.

| here | there |
| --- | --- |
| `checkWrites`, `batchItemWrites` | `openfga_client_check.cpp:137`–`:152`, `:73`–`:123` |
| `writeWrites`, `deleteWrites`    | `openfga_client_write.cpp:62`–`:76`, `:89`–`:103` |
| `createStoreWrites`, `deleteStoreWrites` | `openfga_client_store.cpp:34`–`:50`, `:63`–`:76` |
| `Call.handler` | the whole handler: after the writes to a response the callback of its item |
-/

namespace PostFga

inductive ResponseWrite where
  | status (s : FgaResponseStatus)
  /-- `checkTuple.allow`, `deleteTuple.success`. -/
  | flag (v : Bool)
  | errorMessage (m : CStr)
  | createStoreId (id : CStr)
  | createStoreName (name : CStr)
deriving DecidableEq, Repr

def ResponseWrite.apply (res : FgaResponse) : ResponseWrite → FgaResponse
  | .status s => { res with status := s }
  | .flag v => res.setAllow v
  | .errorMessage m => { res with errorMessage := strlcpy res.errorMessage m }
  | .createStoreId id => { res with body := { res.body with id := strlcpy res.body.id id } }
  | .createStoreName name => { res with body := { res.body with name := strlcpy res.body.name name } }

/-! ## The handlers -/

def checkWrites (o : RpcOutcome) : List ResponseWrite :=
  match o.status with
  | .ok => [.status .ok, .flag o.allowed]
  | .error message => [.status .clientError, .flag false, .errorMessage message]

def writeWrites (o : RpcOutcome) : List ResponseWrite :=
  match o.status with
  | .ok => [.status .ok]
  | .error message => [.status .clientError, .errorMessage message]

def deleteWrites (o : RpcOutcome) : List ResponseWrite :=
  match o.status with
  | .ok => [.status .ok, .flag true]
  | .error message => [.status .clientError, .errorMessage message]

def createStoreWrites (o : RpcOutcome) : List ResponseWrite :=
  match o.status with
  | .ok => [.status .ok, .createStoreId o.id, .createStoreName o.name]
  | .error message => [.status .clientError, .errorMessage message]

def deleteStoreWrites (o : RpcOutcome) : List ResponseWrite :=
  match o.status with
  | .ok => [.status .ok]
  | .error message => [.status .clientError, .errorMessage message]

def batchItemWrites (o : RpcOutcome) (request : FgaRequest) : List ResponseWrite :=
  match o.status with
  | .ok =>
    match o.result (correlationId request) with
    | none => [.flag false, .status .clientError]
    | some (.allowed b) => [.status .ok, .flag b]
    | some (.error message) => [.status .serverError, .flag false, .errorMessage message]
    | some .notSet => [.status .clientError, .flag false, .errorMessage (.lit "Invalid response received")]
  | .error message => [.flag false, .status .clientError, .errorMessage message]

def Call.writes (c : Call) (o : RpcOutcome) (request : FgaRequest) : List ResponseWrite :=
  match c with
  | .check .. => checkWrites o
  | .write .. => writeWrites o
  | .delete .. => deleteWrites o
  | .createStore .. => createStoreWrites o
  | .deleteStore .. => deleteStoreWrites o
  | .batchCheck .. => batchItemWrites o request

/-- The writes, one after the other, are the effect of the handler on the response. -/
theorem complete_response (c : Call) (o : RpcOutcome) (p : FgaPayload) :
    (c.complete o p).response = (c.writes o p.request).foldl ResponseWrite.apply p.response := by
  cases c with
  | batchCheck slots request =>
    simp only [Call.complete, Call.writes, batchItemDone, batchItemWrites]
    cases o.status with
    | ok =>
      cases o.result (correlationId p.request) with
      | none => rfl
      | some r => cases r <;> rfl
    | error message => rfl
  | check | write | delete | createStore | deleteStore =>
    simp only [Call.complete, Call.writes, checkDone, checkWrites, writeDone, writeWrites, deleteDone,
      deleteWrites, createStoreDone, createStoreWrites, deleteStoreDone, deleteStoreWrites]
    cases o.status <;> rfl

/-- Whatever the outcome, a status is among the writes. -/
theorem exists_status (c : Call) (o : RpcOutcome) (request : FgaRequest) :
    ∃ s, .status s ∈ c.writes o request := by
  cases c with
  | batchCheck slots r =>
    simp only [Call.writes, batchItemWrites]
    split
    · split <;> simp
    · simp
  | check | write | delete | createStore | deleteStore =>
    simp only [Call.writes, checkWrites, writeWrites, deleteWrites, createStoreWrites, deleteStoreWrites]
    split <;> simp

inductive HandlerEvent where
  | write (item : Nat) (w : ResponseWrite)
  | callback (item : Nat)
deriving DecidableEq, Repr

/-- For one item. -/
def Call.handlerItem (c : Call) (o : RpcOutcome) (mem : Nat → FgaPayload) (i : Nat) : List HandlerEvent :=
  (c.writes o (mem i).request).map (.write i) ++ [.callback i]

def Call.handler (c : Call) (o : RpcOutcome) (mem : Nat → FgaPayload) : List HandlerEvent :=
  c.slots.flatMap (c.handlerItem o mem)

/-! ## Completing once -/

/-- When each of the issued calls has run its handler once, whatever the outcomes and however the
handlers interleave: every item's callback has been invoked once, after a status was written to its
response. `mem` is what the handlers find in the payloads. -/
def CompletesOnce (items : List Nat) (calls : List Call) : Prop :=
  ∀ (mem : Nat → FgaPayload) (runs : List (Call × RpcOutcome)) (es : List HandlerEvent),
    runs.map Prod.fst = calls → Merge (runs.map fun r => r.1.handler r.2 mem) es →
      (∀ i, es.count (.callback i) = items.count i) ∧
      ∀ before i after, es = before ++ .callback i :: after → ∃ s, .write i (.status s) ∈ before

section
variable {c : Call} {o : RpcOutcome} {mem : Nat → FgaPayload}

theorem count_handlerItem (i j : Nat) :
    (c.handlerItem o mem j).count (.callback i) = if j = i then 1 else 0 := by
  have hwrites : ((c.writes o (mem j).request).map (HandlerEvent.write j)).count (.callback i) = 0 :=
    List.count_eq_zero.2 fun h => by simp at h
  rw [Call.handlerItem, List.count_append, hwrites, Nat.zero_add, List.count_singleton]
  simp

/-- A handler invokes the callback of each of its items. -/
theorem count_handler (i : Nat) : (c.handler o mem).count (.callback i) = c.slots.count i := by
  unfold Call.handler
  induction c.slots with
  | nil => rfl
  | cons j slots ih =>
    rw [List.flatMap_cons, List.count_append, count_handlerItem, ih, List.count_cons, Nat.add_comm]
    simp

/-- What comes before a callback. -/
def Stated (seen : List HandlerEvent) : HandlerEvent → Prop
  | .write _ _ => True
  | .callback i => ∃ s, .write i (.status s) ∈ seen

theorem stated_mono (seen seen' : List HandlerEvent) (e : HandlerEvent) (hs : seen ⊆ seen') (h : Stated seen e) :
    Stated seen' e := by
  cases e with
  | write i w => trivial
  | callback i =>
    obtain ⟨s, hmem⟩ := h
    exact ⟨s, hs hmem⟩

theorem guarded_append {seen l l' : List HandlerEvent} (h : Guarded Stated seen l) (h' : Guarded Stated [] l') :
    Guarded Stated seen (l ++ l') := by
  induction l generalizing seen with
  | nil => exact h'.mono stated_mono (List.nil_subset _)
  | cons e l ih => exact ⟨h.1, ih h.2⟩

theorem guarded_writes {seen : List HandlerEvent} {i : Nat} (ws : List ResponseWrite)
    (h : ∃ s, .write i (.status s) ∈ seen ++ ws.map (.write i)) :
    Guarded Stated seen (ws.map (.write i) ++ [.callback i]) := by
  induction ws generalizing seen with
  | nil =>
    refine ⟨?_, trivial⟩
    simpa [Stated] using h
  | cons w ws ih =>
    refine ⟨trivial, ih ?_⟩
    simpa using h

/-- A handler invokes no callback before the status is written. -/
theorem guarded_handler : Guarded Stated [] (c.handler o mem) := by
  unfold Call.handler
  induction c.slots with
  | nil => trivial
  | cons i slots ih =>
    rw [List.flatMap_cons]
    refine guarded_append (guarded_writes _ ?_) ih
    obtain ⟨s, hs⟩ := exists_status c o (mem i).request
    exact ⟨s, List.mem_append_right _ (List.mem_map_of_mem hs)⟩

end

/-- Calls complete the items they captured, as often as they captured them. -/
theorem completesOnce_iff (items : List Nat) (calls : List Call) :
    CompletesOnce items calls ↔ ∀ i, (calls.flatMap Call.slots).count i = items.count i := by
  have hcount : ∀ (mem : Nat → FgaPayload) (runs : List (Call × RpcOutcome)) es,
      Merge (runs.map fun r => r.1.handler r.2 mem) es → ∀ i,
        es.count (.callback i) = ((runs.map Prod.fst).flatMap Call.slots).count i := by
    intro mem runs es hm i
    rw [hm.perm.count_eq]
    clear hm
    induction runs with
    | nil => rfl
    | cons r runs ih =>
      rw [List.map_cons, List.flatten_cons, List.count_append, ih, count_handler, List.map_cons,
        List.flatMap_cons, List.count_append]
  constructor
  · intro h i
    -- every call ends with the same outcome, one after the other
    let o : RpcOutcome := ⟨.ok, false, fun _ => none, .empty, .empty⟩
    let mem : Nat → FgaPayload := fun _ => .zero
    let runs := calls.map fun c => (c, o)
    have hruns : runs.map Prod.fst = calls := by simp [runs, Function.comp_def]
    have hm := Merge.flatten (runs.map fun r => r.1.handler r.2 mem)
    rw [← (h mem runs _ hruns hm).1 i, hcount mem runs _ hm, hruns]
  · intro h mem runs es hruns hm
    refine ⟨fun i => by rw [hcount mem runs es hm, hruns, h], fun before i after he => ?_⟩
    have hg : Guarded Stated [] es := hm.guarded stated_mono fun l hl => by
      obtain ⟨r, -, rfl⟩ := List.mem_map.1 hl
      exact guarded_handler
    rw [he] at hg
    simpa [Stated] using hg.split

/-- **Every request completes exactly once, exactly when** every payload has a type with a call:
CHECK, WRITE_TUPLE, DELETE_TUPLE, CREATE_STORE or DELETE_STORE. -/
theorem completes_iff (mem : Nat → FgaPayload) :
    (∀ items, CompletesOnce items (processBatch mem items) ↔ ∀ i ∈ items, (mem i).request.Callable) ∧
    ∀ i, CompletesOnce [i] (process mem i) ↔ (mem i).request.Callable := by
  have hbatch : ∀ items, CompletesOnce items (processBatch mem items) ↔
      ∀ i ∈ items, (mem i).request.Callable := by
    intro items
    rw [completesOnce_iff]
    constructor
    · intro h i hi
      by_contra hc
      have hnone := h i
      rw [count_processBatch, if_neg hc] at hnone
      exact absurd hi (List.count_eq_zero.1 hnone.symm)
    · intro h i
      rw [count_processBatch]
      by_cases hi : i ∈ items
      · rw [if_pos (h i hi)]
      · rw [List.count_eq_zero.2 hi]
        split <;> rfl
  refine ⟨hbatch, fun i => ?_⟩
  have hone := hbatch [i]
  rwa [show processBatch mem [i] = process mem i from rfl, List.forall_mem_singleton] at hone

/-- A payload of the given type. -/
def payloadOf (type : UInt16) : FgaPayload :=
  { FgaPayload.zero with request := { FgaPayload.zero.request with type := type } }

/-- **A dropped callback**: no call is issued for GET_STORE, nor for the zeros of a fresh payload,
alone or in a batch. -/
theorem completes_dropped :
    ¬ CompletesOnce [0] (process (fun _ => payloadOf FGA_REQUEST_GET_STORE) 0) ∧
    ¬ CompletesOnce [0] (process (fun _ => payloadOf 0) 0) ∧
    ¬ CompletesOnce [0, 1] (processBatch (fun i => payloadOf (if i = 0 then FGA_REQUEST_CHECK else 6)) [0, 1]) := by
  have hdrop : ∀ items calls i, (calls.flatMap Call.slots).count i ≠ items.count i → ¬ CompletesOnce items calls :=
    fun items calls i hne h => hne ((completesOnce_iff items calls).1 h i)
  exact ⟨hdrop _ _ 0 (by decide +kernel), hdrop _ _ 0 (by decide +kernel), hdrop _ _ 1 (by decide +kernel)⟩

end PostFga
