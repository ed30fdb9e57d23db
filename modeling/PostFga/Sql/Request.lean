import PostFga.Cache.Key
import PostFga.Client.Calls
/-
# From SQL arguments to the request in the slot (`func_fga.c`)

A function writes its request field by field into the shared payload; `FieldWrite` is one such
write. The list of a function's writes serves both the sequential reading (`SqlCall.request`: what
the payload holds when they are all done) and the concurrent one, where each is a step.

| here | there |
| --- | --- |
| `FgaConfig`        | `config.h:9`: the two settings read here; NULL is `none` |
| `SqlError`         | the `ereport(ERROR, ..)`s of the five functions and of the channel functions they call |
| `validateNotEmpty`, `readTupleArgs` | `func_fga.c:93`, `:107`; `options` is read and used for nothing |
| `fillTuple`, `fillRequest` | `:54`, `:63`; `write_text` (`:33`) copies at most 63 of the bytes and terminates them, as `strlcpy` does |
| `fgaCheckWrites` .. | the writes of `fga_check` (`:129`), `fga_write_tuple` (`:165`), `fga_delete_tuple` (`:197`), `fga_create_store` (`:229`), `fga_delete_store` (`:295`) |
| `acquireWrites`    | the writes of `fga_channel_acquire_slot` to the payload (`channel.c:128`, `:130`) |

`fga_create_store` and `fga_delete_store` are STRICT, so their argument is not NULL.
-/

namespace PostFga

structure FgaConfig where
  storeId : Option CStr
  modelId : Option CStr
deriving DecidableEq, Repr

inductive SqlError where
  | nullArgument (argname : String)
  | emptyArgument (argname : String)
  | storeIdNotConfigured
  | poolExhausted
  | enqueueFailed
  /-- PostgreSQL's own ERROR, raised by `CHECK_FOR_INTERRUPTS` in `wait_response`. -/
  | interrupted
  | requestCanceled
  | writeTupleFailed (errorMessage : Bytes)
  | deleteTupleFailed (errorMessage : Bytes)
  | createStoreFailed (storeName errorMessage : Bytes)
  | deleteStoreFailed (storeId errorMessage : Bytes)
  /-- "function returning record called in context that cannot accept type record". -/
  | notComposite
  /-- PostgreSQL's own ERROR while the result row is formed. -/
  | formTuple
deriving DecidableEq, Repr

/-- `errmsg`, where the ERROR is the extension's. -/
def SqlError.message : SqlError → Option Bytes
  | .nullArgument argname => text ["postfga: ", argname, " argument must not be NULL"] []
  | .emptyArgument argname => text ["postfga: ", argname, " argument must not be empty"] []
  | .storeIdNotConfigured => text ["postfga: store_id is not configured"] []
  | .poolExhausted => text ["channel slot pool exhausted"] []
  | .enqueueFailed => text ["postfga: failed to enqueue channel slot"] []
  | .requestCanceled => text ["postfga: request was canceled"] []
  | .writeTupleFailed m => text ["postfga: write tuple failed - "] m
  | .deleteTupleFailed m => text ["postfga: delete tuple failed - "] m
  | .createStoreFailed name _ => text ["postfga: create store failed: "] name
  | .deleteStoreFailed storeId _ => text ["postfga: delete store failed: "] storeId
  | .notComposite =>
    text ["function returning record called in context that cannot accept type record"] []
  | .interrupted | .formTuple => none
where
  text (parts : List String) (rest : Bytes) : Option Bytes :=
    some ((parts.flatMap fun s => (CStr.lit s).bytes) ++ rest)

/-- `errdetail`. -/
def SqlError.detail : SqlError → Option Bytes
  | .createStoreFailed _ m | .deleteStoreFailed _ m => some m
  | _ => none

/-- A `text` argument, or SQL NULL. -/
abbrev SqlText := Option CStr

structure TupleArgs where
  objectType : SqlText
  objectId : SqlText
  subjectType : SqlText
  subjectId : SqlText
  relation : SqlText
deriving DecidableEq, Repr

structure TupleArgsView where
  objectType : CStr
  objectId : CStr
  subjectType : CStr
  subjectId : CStr
  relation : CStr
deriving DecidableEq, Repr

def validateNotEmpty (arg : SqlText) (argname : String) : Except SqlError CStr :=
  match arg with
  | none => .error (.nullArgument argname)
  | some s => if s.length = 0 then .error (.emptyArgument argname) else .ok s

def readTupleArgs (args : TupleArgs) : Except SqlError TupleArgsView := do
  let objectType ← validateNotEmpty args.objectType "object_type"
  let objectId ← validateNotEmpty args.objectId "object_id"
  let subjectType ← validateNotEmpty args.subjectType "subject_type"
  let subjectId ← validateNotEmpty args.subjectId "subject_id"
  let relation ← validateNotEmpty args.relation "relation"
  return ⟨objectType, objectId, subjectType, subjectId, relation⟩

/-- What `build_cache_key` (`:78`) hands to `fga_cache_key`. -/
def questionOf (config : FgaConfig) (args : TupleArgsView) : Question where
  storeId := config.storeId
  modelId := config.modelId
  objectType := some args.objectType
  objectId := some args.objectId
  subjectType := some args.subjectType
  subjectId := some args.subjectId
  relation := some args.relation

/-- The arguments with their names, in the order in which they are read. -/
def TupleArgs.named (args : TupleArgs) : List (String × SqlText) :=
  [("object_type", args.objectType), ("object_id", args.objectId), ("subject_type", args.subjectType),
    ("subject_id", args.subjectId), ("relation", args.relation)]

theorem validateNotEmpty_error {arg : SqlText} {argname : String} {e : SqlError}
    (h : validateNotEmpty arg argname = .error e) :
    (∀ s, arg = some s → s.length = 0) ∧ ∃ m, e.message = some m ∧ (CStr.lit argname).bytes <:+: m := by
  have htext : ∀ before after : String,
      (CStr.lit argname).bytes <:+: ([before, argname, after].flatMap fun s => (CStr.lit s).bytes) ++ [] :=
    fun before after => ⟨(CStr.lit before).bytes, (CStr.lit after).bytes, by simp⟩
  unfold validateNotEmpty at h
  split at h
  · obtain rfl := Except.error.inj h
    exact ⟨fun s hs => (nomatch hs), _, rfl, htext ..⟩
  · rename_i t
    split at h
    · rename_i hlen
      obtain rfl := Except.error.inj h
      exact ⟨fun s hs => Option.some.inj hs ▸ hlen, _, rfl, htext ..⟩
    · cases h

theorem bind_eq_error {α β ε : Type} {x : Except ε α} {f : α → Except ε β} {e : ε} (h : x >>= f = .error e) :
    x = .error e ∨ ∃ a, x = .ok a ∧ f a = .error e := by
  cases x with
  | error e' => exact .inl (congrArg Except.error (Except.error.inj h))
  | ok a => exact .inr ⟨a, rfl, h⟩

/-- The arguments are validated in their order, and the first that is refused ends it. -/
theorem readTupleArgs_first {args : TupleArgs} {e : SqlError} (h : readTupleArgs args = .error e) :
    ∃ before argname arg after, args.named = before ++ (argname, arg) :: after ∧
      (∀ p ∈ before, ∃ s, validateNotEmpty p.2 p.1 = .ok s) ∧ validateNotEmpty arg argname = .error e := by
  obtain h1 | ⟨s1, h1, h⟩ := bind_eq_error h
  · exact ⟨[], _, _, _, rfl, by simp, h1⟩
  obtain h2 | ⟨s2, h2, h⟩ := bind_eq_error h
  · exact ⟨[_], _, _, _, rfl, by simp [h1], h2⟩
  obtain h3 | ⟨s3, h3, h⟩ := bind_eq_error h
  · exact ⟨[_, _], _, _, _, rfl, by simp [h1, h2], h3⟩
  obtain h4 | ⟨s4, h4, h⟩ := bind_eq_error h
  · exact ⟨[_, _, _], _, _, _, rfl, by simp [h1, h2, h3], h4⟩
  obtain h5 | ⟨s5, h5, h⟩ := bind_eq_error h
  · exact ⟨[_, _, _, _], _, _, _, rfl, by simp [h1, h2, h3, h4], h5⟩
  cases h

/-- **The ERROR names the first argument** that is NULL or empty. -/
theorem readTupleArgs_error {args : TupleArgs} {e : SqlError} (h : readTupleArgs args = .error e) :
    ∃ before argname arg after, args.named = before ++ (argname, arg) :: after ∧
      (∀ p ∈ before, ∃ s, validateNotEmpty p.2 p.1 = .ok s) ∧ (∀ s, arg = some s → s.length = 0) ∧
      ∃ m, e.message = some m ∧ (CStr.lit argname).bytes <:+: m := by
  obtain ⟨before, argname, arg, after, hnamed, hbefore, herr⟩ := readTupleArgs_first h
  exact ⟨before, argname, arg, after, hnamed, hbefore, validateNotEmpty_error herr⟩

/-! ## Writes to the payload -/

inductive FieldWrite where
  /-- `MemSet(&slot->payload, 0, ..)`. -/
  | reset
  | requestId (n : UInt64)
  | type (t : UInt16)
  | storeId (s : CStr)
  | modelId (s : CStr)
  | objectType (s : CStr)
  | objectId (s : CStr)
  | subjectType (s : CStr)
  | subjectId (s : CStr)
  | relation (s : CStr)
  | storeName (s : CStr)
deriving DecidableEq, Repr

def FgaRequest.setBody (r : FgaRequest) (f : FgaTuple → FgaTuple) : FgaRequest := { r with body := f r.body }

def FieldWrite.onRequest : FieldWrite → FgaRequest → FgaRequest
  | .reset, _ => FgaPayload.zero.request
  | .requestId n, r => { r with requestId := n }
  | .type t, r => { r with type := t }
  | .storeId s, r => { r with storeId := strlcpy r.storeId s }
  | .modelId s, r => { r with modelId := strlcpy r.modelId s }
  | .objectType s, r => r.setBody fun t => { t with objectType := strlcpy t.objectType s }
  | .objectId s, r => r.setBody fun t => { t with objectId := strlcpy t.objectId s }
  | .subjectType s, r => r.setBody fun t => { t with subjectType := strlcpy t.subjectType s }
  | .subjectId s, r => r.setBody fun t => { t with subjectId := strlcpy t.subjectId s }
  | .relation s, r => r.setBody fun t => { t with relation := strlcpy t.relation s }
  | .storeName s, r => r.setStoreName (strlcpy r.storeName s)

def FieldWrite.apply (w : FieldWrite) (p : FgaPayload) : FgaPayload where
  request := w.onRequest p.request
  response := match w with
    | .reset => FgaPayload.zero.response
    | _ => p.response

/-- What one call asks the channel. -/
inductive SqlCall where
  | check (args : TupleArgsView)
  | writeTuple (args : TupleArgsView)
  | deleteTuple (args : TupleArgsView)
  | createStore (name : CStr)
  | deleteStore (storeId : CStr)
deriving DecidableEq, Repr

/-- The ERROR of a call that has its response; `fga_check` reports one that is not OK at level INFO.
`fails`: the result row of `fga_create_store` has no type. -/
def SqlCall.failure (call : SqlCall) (r : FgaResponse) (fails : Bool) : Option SqlError :=
  match call, r.status with
  | .check _, _ => none
  | .createStore _, .ok => if fails then some .notComposite else none
  | .writeTuple _, .ok | .deleteTuple _, .ok | .deleteStore _, .ok => none
  | .writeTuple _, _ => some (.writeTupleFailed r.errorMessage.cstr)
  | .deleteTuple _, _ => some (.deleteTupleFailed r.errorMessage.cstr)
  | .createStore name, _ => some (.createStoreFailed name.bytes r.errorMessage.cstr)
  | .deleteStore storeId, _ => some (.deleteStoreFailed storeId.bytes r.errorMessage.cstr)

/-- The ERROR tells what the server said. -/
theorem failure_reports {call : SqlCall} {r : FgaResponse} {fails : Bool} {e : SqlError}
    (h : call.failure r fails = some e) (hr : r.status ≠ .ok) :
    ∃ text, (e.message = some text ∨ e.detail = some text) ∧ r.errorMessage.cstr <:+ text := by
  cases hs : r.status with
  | ok => exact absurd hs hr
  | clientError | transportError | serverError =>
    cases call with
    | check args => simp [SqlCall.failure] at h
    | writeTuple args | deleteTuple args =>
      simp only [SqlCall.failure, hs, Option.some.injEq] at h
      subst h
      exact ⟨_, .inl rfl, List.suffix_append _ _⟩
    | createStore name | deleteStore storeId =>
      simp only [SqlCall.failure, hs, Option.some.injEq] at h
      subst h
      exact ⟨_, .inr rfl, List.suffix_refl _⟩

/-- The writes of a function, and the ERROR that ends them early. -/
abbrev Writes := List FieldWrite × Option SqlError

def acquireWrites (requestId : UInt64) : List FieldWrite := [.reset, .requestId requestId]

def fillTuple (v : TupleArgsView) : List FieldWrite :=
  [.objectType v.objectType, .objectId v.objectId, .subjectType v.subjectType, .subjectId v.subjectId,
    .relation v.relation]

def fillRequest (config : FgaConfig) : Writes :=
  match config.storeId with
  | none => ([], some .storeIdNotConfigured)
  | some storeId =>
    if storeId.length = 0 then ([], some .storeIdNotConfigured)
    else
      (.storeId storeId :: match config.modelId with
        | none => []
        | some modelId => [.modelId modelId], none)

/-- `request->type = ..; fill_request(request); fill_tuple(args, ..)`. -/
def tupleWrites (type : UInt16) (config : FgaConfig) (args : TupleArgsView) : Writes :=
  match fillRequest config with
  | (ws, some e) => (.type type :: ws, some e)
  | (ws, none) => (.type type :: ws ++ fillTuple args, none)

def fgaCheckWrites : FgaConfig → TupleArgsView → Writes := tupleWrites FGA_REQUEST_CHECK

def fgaWriteTupleWrites : FgaConfig → TupleArgsView → Writes := tupleWrites FGA_REQUEST_WRITE_TUPLE

def fgaDeleteTupleWrites : FgaConfig → TupleArgsView → Writes := tupleWrites FGA_REQUEST_DELETE_TUPLE

def fgaCreateStoreWrites (storeName : CStr) : Writes :=
  ([.type FGA_REQUEST_CREATE_STORE, .storeName storeName], none)

def fgaDeleteStoreWrites (storeId : CStr) : Writes :=
  ([.type FGA_REQUEST_DELETE_STORE, .storeId storeId], none)

def SqlCall.writes (config : FgaConfig) : SqlCall → Writes
  | .check args => fgaCheckWrites config args
  | .writeTuple args => fgaWriteTupleWrites config args
  | .deleteTuple args => fgaDeleteTupleWrites config args
  | .createStore name => fgaCreateStoreWrites name
  | .deleteStore storeId => fgaDeleteStoreWrites storeId

/-- The payload after a list of writes. -/
def applyWrites (ws : List FieldWrite) (p : FgaPayload) : FgaPayload := ws.foldl (fun p w => w.apply p) p

/-- The request of a call when it is handed to `fga_channel_execute_slot`, or the ERROR that
comes before. -/
def SqlCall.request (config : FgaConfig) (requestId : UInt64) (call : SqlCall) : Except SqlError FgaRequest :=
  match call.writes config with
  | (_, some e) => .error e
  | (ws, none) => .ok (applyWrites (acquireWrites requestId ++ ws) .zero).request

/-! ## What the writes leave -/

@[simp] theorem applyWrites_nil (p : FgaPayload) : applyWrites [] p = p := rfl
@[simp] theorem applyWrites_cons (w : FieldWrite) (ws : List FieldWrite) (p : FgaPayload) :
    applyWrites (w :: ws) p = applyWrites ws (w.apply p) := rfl
theorem applyWrites_append (ws ws' : List FieldWrite) (p : FgaPayload) :
    applyWrites (ws ++ ws') p = applyWrites ws' (applyWrites ws p) := List.foldl_append

/-- A setting that is missing is as good as one that is empty. -/
def settingBytes (s : Option CStr) : Bytes := (s.map CStr.bytes).getD []

theorem fillRequest_none {config : FgaConfig} {ws : List FieldWrite} (h : fillRequest config = (ws, none)) :
    ∃ storeId, config.storeId = some storeId ∧ storeId.length ≠ 0 ∧
      ws = .storeId storeId :: match config.modelId with
        | none => []
        | some modelId => [.modelId modelId] := by
  unfold fillRequest at h
  split at h
  · cases h
  · rename_i storeId hs
    split at h
    · cases h
    · rename_i hne
      exact ⟨storeId, hs, hne, (Prod.mk.inj h).1.symm⟩

end PostFga
