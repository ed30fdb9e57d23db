import PostFga.Client.Batch
import PostFga.Sql.Request
/-
# What is asked: the strings of a call on the wire

Every string of a call goes through a `char[64]` (`payload.h:12`, `:114`), which keeps its first 63
bytes ("너무 길면 잘라서 저장": what is too long is stored cut, `func_fga.c:44`). `fga_check` has
built its cache key before: a call whose key does not fit in its buffer does not get this far.

* `SqlCall.asks` — the RPC that asks a call's question, each string passed through `f`.
* `process_asks`, `processBatch_asks` — an accepted call asks its question with every string cut to 63
  bytes, alone and in a batch.
* `asked_cut` — all of it, and when two checks leave the same question in their slots.
-/

namespace PostFga

/-- What is left of a string in a `char[64]`. -/
def cut (bytes : Bytes) : Bytes := bytes.take 63

theorem cut_of_length_le {bytes : Bytes} (h : bytes.length ≤ 63) : cut bytes = bytes :=
  List.take_of_length_le h

def TupleArgsView.key (f : Bytes → Bytes) (v : TupleArgsView) : TupleKey where
  object := typedId (f v.objectType.bytes) (f v.objectId.bytes)
  user := typedId (f v.subjectType.bytes) (f v.subjectId.bytes)
  relation := f v.relation.bytes

/-- The RPC that asks what the call asks, with `f` of every string. -/
def SqlCall.asks (f : Bytes → Bytes) (config : FgaConfig) (slot : Nat) : SqlCall → Call
  | .check v => .check slot
    { storeId := f (settingBytes config.storeId)
      authorizationModelId := f (settingBytes config.modelId)
      tupleKey := v.key f }
  | .writeTuple v => .write slot
    { storeId := f (settingBytes config.storeId)
      authorizationModelId := f (settingBytes config.modelId)
      writes := some { tupleKeys := [v.key f], onDuplicate := "ignore" }
      deletes := none }
  | .deleteTuple v => .delete slot
    { storeId := f (settingBytes config.storeId)
      authorizationModelId := []
      writes := none
      deletes := some { tupleKeys := [v.key f], onMissing := "ignore" } }
  | .createStore name => .createStore slot ⟨f name.bytes⟩
  | .deleteStore storeId => .deleteStore slot ⟨f storeId.bytes⟩

/-! ## The arguments of an accepted call -/

theorem validateNotEmpty_ok {arg : SqlText} {argname : String} {s : CStr} :
    validateNotEmpty arg argname = .ok s ↔ arg = some s ∧ s.length ≠ 0 := by
  unfold validateNotEmpty
  split
  · simp
  · rename_i t
    split
    · rename_i h
      simp only [reduceCtorEq, Option.some.injEq, false_iff, not_and]
      rintro rfl; simpa using h
    · rename_i h
      simp only [Except.ok.injEq, Option.some.injEq]
      exact ⟨fun e => ⟨e, e ▸ h⟩, fun e => e.1⟩

def TupleArgsView.strings (v : TupleArgsView) : List CStr :=
  [v.objectType, v.objectId, v.subjectType, v.subjectId, v.relation]

theorem TupleArgsView.forall_strings (v : TupleArgsView) {P : CStr → Prop} : (∀ s ∈ v.strings, P s) ↔
    P v.objectType ∧ P v.objectId ∧ P v.subjectType ∧ P v.subjectId ∧ P v.relation := by
  simp only [strings, List.forall_mem_cons, List.not_mem_nil, false_imp_iff, implies_true, and_true]

def TupleArgsView.NonEmpty (v : TupleArgsView) : Prop := ∀ s ∈ v.strings, s.length ≠ 0

instance (v : TupleArgsView) : Decidable v.NonEmpty := inferInstanceAs (Decidable (∀ s ∈ v.strings, s.length ≠ 0))

/-- Validation passes the arguments on as they are, if none is NULL or empty. -/
theorem readTupleArgs_eq_ok {args : TupleArgs} {v : TupleArgsView} : readTupleArgs args = .ok v ↔
    args = ⟨some v.objectType, some v.objectId, some v.subjectType, some v.subjectId, some v.relation⟩ ∧
      v.NonEmpty := by
  constructor
  · intro h
    unfold readTupleArgs at h
    rcases h1 : validateNotEmpty args.objectType "object_type" with e | s1
    · rw [h1] at h; cases h
    rcases h2 : validateNotEmpty args.objectId "object_id" with e | s2
    · rw [h1, h2] at h; cases h
    rcases h3 : validateNotEmpty args.subjectType "subject_type" with e | s3
    · rw [h1, h2, h3] at h; cases h
    rcases h4 : validateNotEmpty args.subjectId "subject_id" with e | s4
    · rw [h1, h2, h3, h4] at h; cases h
    rcases h5 : validateNotEmpty args.relation "relation" with e | s5
    · rw [h1, h2, h3, h4, h5] at h; cases h
    rw [h1, h2, h3, h4, h5] at h
    cases h
    cases args
    rw [validateNotEmpty_ok] at h1 h2 h3 h4 h5
    simp only [TupleArgs.mk.injEq]
    exact ⟨⟨h1.1, h2.1, h3.1, h4.1, h5.1⟩, (TupleArgsView.forall_strings _).2 ⟨h1.2, h2.2, h3.2, h4.2, h5.2⟩⟩
  · rintro ⟨rfl, h⟩
    obtain ⟨h1, h2, h3, h4, h5⟩ := v.forall_strings.1 h
    unfold readTupleArgs
    rw [validateNotEmpty_ok.2 ⟨rfl, h1⟩, validateNotEmpty_ok.2 ⟨rfl, h2⟩, validateNotEmpty_ok.2 ⟨rfl, h3⟩,
      validateNotEmpty_ok.2 ⟨rfl, h4⟩, validateNotEmpty_ok.2 ⟨rfl, h5⟩]
    rfl

/-! ## The request of an accepted call -/

/-- The fields of a tuple request, as a reader of the slot sees them. -/
theorem tupleWrites_request {type : UInt16} {config : FgaConfig} {v : TupleArgsView}
    {ws : List FieldWrite} (h : tupleWrites type config v = (ws, none)) (n : UInt64) :
    ∃ r, (applyWrites (acquireWrites n ++ ws) .zero).request = r ∧ r.requestId = n ∧ r.type = type ∧
      r.storeId.cstr = cut (settingBytes config.storeId) ∧
      r.modelId.cstr = cut (settingBytes config.modelId) ∧
      fillTupleKey r.body = v.key cut ∧
      r.body.objectType.cstr = cut v.objectType.bytes ∧ r.body.objectId.cstr = cut v.objectId.bytes ∧
      r.body.subjectType.cstr = cut v.subjectType.bytes ∧ r.body.subjectId.cstr = cut v.subjectId.bytes ∧
      r.body.relation.cstr = cut v.relation.bytes := by
  unfold tupleWrites at h
  split at h
  · cases h
  · rename_i ws' hfill
    cases h
    obtain ⟨storeId, hs, -, rfl⟩ := fillRequest_none hfill
    refine ⟨_, rfl, ?_⟩
    cases hm : config.modelId <;>
      simp [acquireWrites, fillTuple, FieldWrite.apply, FieldWrite.onRequest, FgaRequest.setBody,
        FgaPayload.zero, fillTupleKey, TupleArgsView.key, settingBytes, hs, cut]

theorem request_ok {config : FgaConfig} {n : UInt64} {call : SqlCall} {r : FgaRequest}
    (h : call.request config n = .ok r) : ∃ ws, call.writes config = (ws, none) ∧
      r = (applyWrites (acquireWrites n ++ ws) .zero).request := by
  unfold SqlCall.request at h
  split at h
  · cases h
  · rename_i ws hws
    exact ⟨ws, hws, (Except.ok.inj h).symm⟩

/-- The only ERROR between validation and the channel is a store that is not configured. -/
theorem request_error {config : FgaConfig} {n : UInt64} {call : SqlCall} {e : SqlError}
    (h : call.request config n = .error e) :
    e = .storeIdNotConfigured ∧ settingBytes config.storeId = [] := by
  have hfill : ∀ ws e, fillRequest config = (ws, some e) →
      e = .storeIdNotConfigured ∧ settingBytes config.storeId = [] := by
    intro ws e hf
    unfold fillRequest at hf
    split at hf
    · rename_i hs
      cases hf; exact ⟨rfl, by simp [settingBytes, hs]⟩
    · rename_i storeId hs
      split at hf
      · rename_i hz
        cases hf; exact ⟨rfl, by simpa [settingBytes, hs, CStr.length] using hz⟩
      · cases hf
  have htuple : ∀ t v, (∃ ws, tupleWrites t config v = (ws, some e)) →
      e = .storeIdNotConfigured ∧ settingBytes config.storeId = [] := by
    rintro t v ⟨ws, hw⟩
    unfold tupleWrites at hw
    split at hw
    · rename_i hf
      cases hw; exact hfill _ _ hf
    · cases hw
  unfold SqlCall.request at h
  split at h
  · rename_i ws e' hw
    cases h
    cases call with
    | check v => exact htuple _ v ⟨ws, hw⟩
    | writeTuple v => exact htuple _ v ⟨ws, hw⟩
    | deleteTuple v => exact htuple _ v ⟨ws, hw⟩
    | createStore name => cases hw
    | deleteStore storeId => cases hw
  · cases h

/-- **One call alone**: the client issues the RPC that asks the call's question, each string cut. -/
theorem process_asks {config : FgaConfig} {n : UInt64} {call : SqlCall} {r : FgaRequest}
    (h : call.request config n = .ok r) {mem : Nat → FgaPayload} {slot : Nat}
    (hmem : (mem slot).request = r) : process mem slot = [call.asks cut config slot] := by
  obtain ⟨ws, hws, rfl⟩ := request_ok h
  unfold process handleRequest
  cases call with
  | check v =>
    have hw : tupleWrites FGA_REQUEST_CHECK config v = (ws, none) := hws
    obtain ⟨r, hr, -, ht, hs, hm, hk, -⟩ := tupleWrites_request hw n
    have hv : makeRequestVariant r = .checkTuple := by rw [makeRequestVariant, ht]; rfl
    simp only [hmem, hr, hv, fillCheckRequest, hs, hm, hk, SqlCall.asks]
  | writeTuple v =>
    have hw : tupleWrites FGA_REQUEST_WRITE_TUPLE config v = (ws, none) := hws
    obtain ⟨r, hr, -, ht, hs, hm, hk, -⟩ := tupleWrites_request hw n
    have hv : makeRequestVariant r = .writeTuple := by rw [makeRequestVariant, ht]; rfl
    simp only [hmem, hr, hv, fillWriteRequest, hs, hm, hk, SqlCall.asks]
  | deleteTuple v =>
    have hw : tupleWrites FGA_REQUEST_DELETE_TUPLE config v = (ws, none) := hws
    obtain ⟨r, hr, -, ht, hs, hm, hk, -⟩ := tupleWrites_request hw n
    have hv : makeRequestVariant r = .deleteTuple := by rw [makeRequestVariant, ht]; rfl
    simp only [hmem, hr, hv, fillDeleteRequest, hs, hk, SqlCall.asks]
  | createStore name =>
    cases hws
    rw [hmem]
    have hv : variantOf FGA_REQUEST_CREATE_STORE = .createStore := rfl
    simp [makeRequestVariant, hv, SqlCall.asks, acquireWrites, FieldWrite.apply, FieldWrite.onRequest,
      FgaRequest.setStoreName, FgaRequest.storeName, FgaPayload.zero, cut]
  | deleteStore storeId =>
    cases hws
    rw [hmem]
    have hv : variantOf FGA_REQUEST_DELETE_STORE = .deleteStore := rfl
    simp [makeRequestVariant, hv, SqlCall.asks, acquireWrites, FieldWrite.apply, FieldWrite.onRequest,
      FgaPayload.zero, cut]

/-! ## All calls -/

/-- The strings of a call that are sent. -/
def SqlCall.strings (config : FgaConfig) : SqlCall → List Bytes
  | .check v | .writeTuple v => settingBytes config.storeId :: settingBytes config.modelId :: tuple v
  | .deleteTuple v => settingBytes config.storeId :: tuple v
  | .createStore name => [name.bytes]
  | .deleteStore storeId => [storeId.bytes]
where
  tuple (v : TupleArgsView) : List Bytes :=
    [v.objectType.bytes, v.objectId.bytes, v.subjectType.bytes, v.subjectId.bytes, v.relation.bytes]

/-- The question a check leaves in the fields of the slot. -/
def FgaRequest.question (r : FgaRequest) : List Bytes :=
  [r.storeId.cstr, r.modelId.cstr, r.body.objectType.cstr, r.body.objectId.cstr, r.body.subjectType.cstr,
    r.body.subjectId.cstr, r.body.relation.cstr]

theorem key_congr {f g : Bytes → Bytes} {v : TupleArgsView} (h : ∀ s ∈ SqlCall.strings.tuple v, f s = g s) :
    v.key f = v.key g := by
  simp only [SqlCall.strings.tuple, List.forall_mem_cons] at h
  simp only [TupleArgsView.key, h]

theorem asks_congr {f g : Bytes → Bytes} {config : FgaConfig} {call : SqlCall}
    (h : ∀ s ∈ call.strings config, f s = g s) (slot : Nat) :
    call.asks f config slot = call.asks g config slot := by
  cases call with
  | check v | writeTuple v =>
    simp only [SqlCall.strings, List.forall_mem_cons] at h
    simp only [SqlCall.asks, h.1, h.2.1, key_congr h.2.2]
  | deleteTuple v =>
    simp only [SqlCall.strings, List.forall_mem_cons] at h
    simp only [SqlCall.asks, h.1, key_congr h.2]
  | createStore name => simp only [SqlCall.asks, h name.bytes (by simp [SqlCall.strings])]
  | deleteStore storeId => simp only [SqlCall.asks, h storeId.bytes (by simp [SqlCall.strings])]

/-- The fields of a check hold its strings, cut. -/
theorem question_of_request {config : FgaConfig} {n : UInt64} {v : TupleArgsView} {r : FgaRequest}
    (h : (SqlCall.check v).request config n = .ok r) :
    r.question = ((SqlCall.check v).strings config).map cut := by
  obtain ⟨ws, hws, rfl⟩ := request_ok h
  have hw : tupleWrites FGA_REQUEST_CHECK config v = (ws, none) := hws
  obtain ⟨r, hr, -, -, hs, hm, -, h1, h2, h3, h4, h5⟩ := tupleWrites_request hw n
  rw [hr]
  simp [FgaRequest.question, SqlCall.strings, SqlCall.strings.tuple, hs, hm, h1, h2, h3, h4, h5]

/-- A call of the client on a slot with an accepted call's request: the RPC that asks the question,
or the batch its check is an item of. -/
theorem processBatch_asks {config : FgaConfig} {n : UInt64} {call : SqlCall} {r : FgaRequest}
    (h : call.request config n = .ok r) {mem : Nat → FgaPayload} {slot : Nat}
    (hmem : (mem slot).request = r) {items : List Nat} {c : Call} (hc : c ∈ processBatch mem items)
    (hslot : slot ∈ c.slots) : c = call.asks cut config slot ∨
      ∃ v slots req, call = .check v ∧ c = .batchCheck slots req ∧
        ⟨correlationId r, v.key cut⟩ ∈ req.checks := by
  have hp := process_asks h hmem
  rcases mem_processBatch hc with ⟨i, -, hci⟩ | hc
  · left
    rw [slots_of_mem_handleRequest hci, List.mem_singleton] at hslot
    subst hslot
    rw [process] at hp
    rwa [hp, List.mem_singleton] at hci
  · obtain ⟨first, -, rfl⟩ := mem_handleCheckBatch hc
    -- only the request of a check reads as one
    have hck : isCheckTuple mem slot = true := (List.mem_filter.1 hslot).2
    rw [process_check hck, List.cons.injEq] at hp
    cases call with
    | check v =>
      refine Or.inr ⟨v, _, _, rfl, rfl, List.mem_map.2 ⟨slot, hslot, ?_⟩⟩
      have hk : fillTupleKey (mem slot).request.body = v.key cut :=
        congrArg CheckRequest.tupleKey (Call.check.inj hp.1).2
      rw [hk, hmem]
    | writeTuple v => cases hp.1
    | deleteTuple v => cases hp.1
    | createStore name => cases hp.1
    | deleteStore storeId => cases hp.1

/-- **What is asked is what was given, cut to 63 bytes.** A call ends by the ERROR of a missing store
before it reaches the channel, or the RPC issued for its slot, alone or among others, asks its
question with every string cut to its first 63 bytes: the strings as given when none is longer. Two
checks leave the same question in their slots exactly when their strings agree in the first 63
bytes. -/
theorem asked_cut :
    (∀ config n (call : SqlCall) e, call.request config n = .error e →
      e = .storeIdNotConfigured ∧ settingBytes config.storeId = []) ∧
    (∀ config n (call : SqlCall) r, call.request config n = .ok r →
      ∀ mem slot, (mem slot).request = r → process mem slot = [call.asks cut config slot] ∧
        ∀ items c, c ∈ processBatch mem items → slot ∈ c.slots → c = call.asks cut config slot ∨
          ∃ v slots req, call = .check v ∧ c = .batchCheck slots req ∧
            ⟨correlationId r, v.key cut⟩ ∈ req.checks) ∧
    (∀ config (call : SqlCall), (∀ s ∈ call.strings config, s.length ≤ 63) →
      ∀ slot, call.asks cut config slot = call.asks id config slot) ∧
    ∀ config config' n n' v v' r r', (SqlCall.check v).request config n = .ok r →
      (SqlCall.check v').request config' n' = .ok r' → (r.question = r'.question ↔
        ((SqlCall.check v).strings config).map cut = ((SqlCall.check v').strings config').map cut) := by
  refine ⟨fun config n call e h => request_error h, fun config n call r h mem slot hmem =>
      ⟨process_asks h hmem, fun items c hc hs => processBatch_asks h hmem hc hs⟩,
    fun config call h slot => asks_congr (fun s hs => cut_of_length_le (h s hs)) slot,
    fun config config' n n' v v' r r' h h' => ?_⟩
  rw [question_of_request h, question_of_request h']

/-- `fga_check` about a document whose id is 63 `a`s and one more letter. -/
def longCheck (c : UInt8) (hc : c ≠ 0) : SqlCall :=
  .check { objectType := .lit "document"
           objectId := ⟨List.replicate 63 97 ++ [c], by simp [Ne.symm hc]⟩
           subjectType := .lit "user"
           subjectId := .lit "alice"
           relation := .lit "viewer" }

/-- **Two documents, one question**: ids that differ in their 64th byte are asked about as one, and
as neither. -/
theorem asked_cut_collision :
    longCheck 120 (by decide) ≠ longCheck 121 (by decide) ∧
    ((longCheck 120 (by decide)).request ⟨some (.lit "s"), none⟩ 1).toOption.map fillCheckRequest =
      ((longCheck 121 (by decide)).request ⟨some (.lit "s"), none⟩ 1).toOption.map fillCheckRequest ∧
    ((longCheck 120 (by decide)).request ⟨some (.lit "s"), none⟩ 1).toOption.isSome ∧
    (longCheck 120 (by decide)).asks cut ⟨some (.lit "s"), none⟩ 0 ≠
      (longCheck 120 (by decide)).asks id ⟨some (.lit "s"), none⟩ 0 := by
  decide +kernel

end PostFga
