import PostFga.Lib.Delimited
import PostFga.Sql.Wire
/-
# The object and the user of a tuple key (`type ":" id`)

Four encoders join a type and an id: `fill_check_request` and `fill_tuple_key` of
`openfga_client_check.cpp` (`:11`, `:27`), `fill_tuple_key` and `fill_request` of `openfga_client_write.cpp`
(`:10`, `:31`). None of them escapes a colon, and `validate_not_empty` (`func_fga.c:93`) lets it through in
every argument, in the type as well, where the OpenFGA API has none (`openfga.pb.cc:561`: a type is
`^[^:#@\s]{1,254}$`).

| here | there |
| --- | --- |
| `Call.tupleKeys` | the tuple keys of an RPC, each with the slot it is sent for |
| `Sent v key`     | `key` is in an RPC that the client issues for an accepted call on the tuple `v` |

* `sent_apart_iff` — which keys tell their tuples apart.
* `sent_shifted` — two that do not.
-/

namespace PostFga

open Delimited

def WriteRequest.tupleKeys (r : WriteRequest) : List TupleKey :=
  (r.writes.map WriteRequestWrites.tupleKeys).getD [] ++ (r.deletes.map WriteRequestDeletes.tupleKeys).getD []

def Call.tupleKeys : Call → List (Nat × TupleKey)
  | .check slot request => [(slot, request.tupleKey)]
  | .write slot request | .delete slot request => request.tupleKeys.map (slot, ·)
  | .batchCheck slots request => slots.zip (request.checks.map BatchCheckItem.tupleKey)
  | .createStore .. | .deleteStore .. => []

/-- The tuple a call is about. -/
def SqlCall.tuple : SqlCall → Option TupleArgsView
  | .check v | .writeTuple v | .deleteTuple v => some v
  | .createStore _ | .deleteStore _ => none

inductive Sent (v : TupleArgsView) (key : TupleKey) : Prop where
  | intro (args : TupleArgs) (config : FgaConfig) (requestId : UInt64) (call : SqlCall) (r : FgaRequest)
      (mem : Nat → FgaPayload) (items : List Nat) (c : Call) (slot : Nat)
      (read : readTupleArgs args = .ok v) (tuple : call.tuple = some v)
      (request : call.request config requestId = .ok r) (payload : (mem slot).request = r)
      (issued : c ∈ processBatch mem items) (carries : (slot, key) ∈ c.tupleKeys)

/-- The two parts of a tuple key that are joined. -/
inductive Party where
  | object | user
deriving DecidableEq, Repr

namespace Party

def type : Party → TupleArgsView → CStr
  | .object, v => v.objectType
  | .user, v => v.subjectType

def id : Party → TupleArgsView → CStr
  | .object, v => v.objectId
  | .user, v => v.subjectId

def string : Party → TupleKey → Bytes
  | .object, key => key.object
  | .user, key => key.user

def set : Party → TupleArgsView → CStr → CStr → TupleArgsView
  | .object, v, type, id => { v with objectType := type, objectId := id }
  | .user, v, type, id => { v with subjectType := type, subjectId := id }

/-- Type and id are not cut. -/
def Short (p : Party) (v : TupleArgsView) : Prop := (p.type v).length ≤ 63 ∧ (p.id v).length ≤ 63

instance (p : Party) (v : TupleArgsView) : Decidable (p.Short v) := inferInstanceAs (Decidable (_ ∧ _))

end Party

/-- `type' ":" id'` has one colon more in the type than `type ":" id`, of which it is a byte of the id. -/
def Shifted (type id type' id' : Bytes) : Prop := ∃ m, type' = type ++ 58 :: m ∧ id = m ++ 58 :: id'

/-- No colon of the type or the id can be taken for the one between them: a part would be empty or longer
than 63 bytes. -/
structure Unsplit (type id : Bytes) : Prop where
  left : ∀ a b, type = a ++ 58 :: b → a ≠ [] → 63 < b.length + 1 + id.length
  right : ∀ a b, id = a ++ 58 :: b → b ≠ [] → 63 < type.length + 1 + a.length

/-! ## What the client sends for a tuple -/

section
variable {mem : Nat → FgaPayload} {items : List Nat} {c : Call} {slot : Nat} {key : TupleKey}

theorem tupleKeys_handleRequest {i : Nat} (hc : c ∈ handleRequest mem i) (hk : (slot, key) ∈ c.tupleKeys) :
    key = fillTupleKey (mem slot).request.body := by
  unfold handleRequest at hc
  dsimp only at hc
  split at hc <;> simp only [List.mem_singleton, List.not_mem_nil] at hc <;> subst hc
  all_goals
    simp only [Call.tupleKeys, WriteRequest.tupleKeys, fillCheckRequest, fillWriteRequest, fillDeleteRequest,
      Option.map_some, Option.map_none, Option.getD_some, Option.getD_none, List.append_nil, List.nil_append,
      List.map_cons, List.map_nil, List.mem_singleton, Prod.mk.injEq, List.not_mem_nil] at hk
  all_goals
    obtain ⟨rfl, rfl⟩ := hk
    rfl

theorem tupleKeys_handleCheckBatch (hc : c ∈ handleCheckBatch mem items) (hk : (slot, key) ∈ c.tupleKeys) :
    key = fillTupleKey (mem slot).request.body := by
  obtain ⟨first, -, rfl⟩ := mem_handleCheckBatch hc
  simp only [Call.tupleKeys, List.map_map] at hk
  rw [List.mem_iff_getElem?] at hk
  obtain ⟨i, hi⟩ := hk
  simp only [List.getElem?_zip_eq_some, List.getElem?_map, Option.map_eq_some_iff, Function.comp_apply] at hi
  obtain ⟨hslot, item, hitem, rfl⟩ := hi
  rw [hslot] at hitem
  cases hitem
  rfl

/-- **One key for all encoders**: what is sent for a slot is the tuple in its payload. -/
theorem tupleKeys_processBatch (hc : c ∈ processBatch mem items) (hk : (slot, key) ∈ c.tupleKeys) :
    key = fillTupleKey (mem slot).request.body := by
  rcases mem_processBatch hc with ⟨i, -, hc⟩ | hc
  · exact tupleKeys_handleRequest hc hk
  · exact tupleKeys_handleCheckBatch hc hk

end

theorem fillTupleKey_request {config : FgaConfig} {n : UInt64} {call : SqlCall} {r : FgaRequest}
    {v : TupleArgsView} (h : call.request config n = .ok r) (hv : call.tuple = some v) :
    fillTupleKey r.body = v.key cut := by
  obtain ⟨ws, hws, rfl⟩ := request_ok h
  have hkey : ∀ type, tupleWrites type config v = (ws, none) →
      fillTupleKey (applyWrites (acquireWrites n ++ ws) .zero).request.body = v.key cut := by
    intro type hw
    obtain ⟨r, hr, -, -, -, -, hk, -⟩ := tupleWrites_request hw n
    rw [hr, hk]
  cases call with
  | check v' | writeTuple v' | deleteTuple v' =>
    cases hv
    exact hkey _ hws
  | createStore name | deleteStore storeId => cases hv

section
variable {v v' : TupleArgsView} {key key' : TupleKey}

theorem Sent.key_eq (h : Sent v key) : key = v.key cut := by
  obtain ⟨args, config, n, call, r, mem, items, c, slot, -, hv, hr, rfl, hc, hk⟩ := h
  rw [tupleKeys_processBatch hc hk, fillTupleKey_request hr hv]

theorem Sent.nonEmpty (h : Sent v key) : v.NonEmpty := by
  obtain ⟨args, config, n, call, r, mem, items, c, slot, hread, -⟩ := h
  exact (readTupleArgs_eq_ok.1 hread).2

/-- Every accepted call on a tuple gets its key sent. -/
theorem sent_of_request (args : TupleArgs) (config : FgaConfig) (n : UInt64) (call : SqlCall) {r : FgaRequest}
    (hread : readTupleArgs args = .ok v) (hv : call.tuple = some v) (hr : call.request config n = .ok r) :
    Sent v (v.key cut) := by
  let mem : Nat → FgaPayload := fun _ => ⟨r, FgaPayload.zero.response⟩
  have hp : processBatch mem [0] = [call.asks cut config 0] := process_asks hr rfl
  refine .intro args config n call r mem [0] (call.asks cut config 0) 0 hread hv hr rfl ?_ ?_
  · rw [hp]
    exact List.mem_singleton_self _
  · cases call with
    | check v' | writeTuple v' | deleteTuple v' =>
      cases hv
      simp [SqlCall.asks, Call.tupleKeys, WriteRequest.tupleKeys]
    | createStore name | deleteStore storeId => cases hv

/-- And validation accepts every tuple of strings that are not empty. -/
theorem sent_of_nonEmpty (h : v.NonEmpty) : Sent v (v.key cut) :=
  sent_of_request _ ⟨some (.lit "s"), none⟩ 1 (.check v) (readTupleArgs_eq_ok.2 ⟨rfl, h⟩) rfl rfl

end

namespace CStr

theorem length_ne_zero {s : CStr} : s.length ≠ 0 ↔ s.bytes ≠ [] := by
  rw [length, ne_eq, List.length_eq_zero_iff]

/-- The two parts of a string at a colon. -/
theorem split_colon {s : CStr} {a b : Bytes} (h : s.bytes = a ++ 58 :: b) :
    (0 : UInt8) ∉ a ∧ (0 : UInt8) ∉ b ∧ s.length = a.length + 1 + b.length := by
  have hnul := s.noNul
  rw [h] at hnul
  simp only [List.mem_append, List.mem_cons, not_or] at hnul
  refine ⟨hnul.1, hnul.2.2, ?_⟩
  simp only [length, h, List.length_append, List.length_cons]
  omega

end CStr

theorem noNul_typedId {a b : Bytes} (ha : (0 : UInt8) ∉ a) (hb : (0 : UInt8) ∉ b) : (0 : UInt8) ∉ a ++ 58 :: b := by
  simp [ha, hb]

/-! ## Which keys tell their tuples apart -/

section
variable {type id type' id' : Bytes}

theorem typedId_apart_iff : (typedId type id = typedId type' id' → type = type' ∧ id = id') ↔
    ¬ Shifted type id type' id' ∧ ¬ Shifted type' id' type id := by
  unfold typedId Shifted
  rw [append_cons_eq_append_cons]
  constructor
  · intro h
    constructor
    · rintro ⟨m, ht, hi⟩
      have := (h (Or.inr (Or.inl ⟨m, ht, hi⟩))).1
      rw [this] at ht
      simpa using congrArg List.length ht
    · rintro ⟨m, ht, hi⟩
      have := (h (Or.inr (Or.inr ⟨m, ht, hi⟩))).1
      rw [← this] at ht
      simpa using congrArg List.length ht
  · rintro ⟨h1, h2⟩ (h | h | h)
    · exact h
    · exact absurd h h1
    · exact absurd h h2

theorem not_shifted (h : (58 : UInt8) ∉ type') : ¬ Shifted type id type' id' := by
  rintro ⟨m, rfl, -⟩
  simp at h

/-- Another pair that is neither empty nor too long is not a shift of this one. -/
theorem Unsplit.not_shifted (h : Unsplit type id) (ht : type' ≠ []) (hi : id' ≠ [])
    (hs : type'.length ≤ 63 ∧ id'.length ≤ 63) : ¬ Shifted type id type' id' ∧ ¬ Shifted type' id' type id := by
  constructor
  · rintro ⟨m, rfl, hid⟩
    have := h.right m id' hid hi
    simp only [List.length_append, List.length_cons] at hs
    omega
  · rintro ⟨m, htype, rfl⟩
    have := h.left type' m htype ht
    simp only [List.length_append, List.length_cons] at hs
    omega

end

section
variable {p : Party} {v v' : TupleArgsView} {key key' : TupleKey}

theorem Sent.string_eq (h : Sent v key) (hs : p.Short v) :
    p.string key = typedId (p.type v).bytes (p.id v).bytes := by
  rw [h.key_eq]
  cases p with
  | object | user => exact congrArg₂ typedId (cut_of_length_le hs.1) (cut_of_length_le hs.2)

theorem Sent.parts_ne (h : Sent v key) : (p.type v).bytes ≠ [] ∧ (p.id v).bytes ≠ [] := by
  obtain ⟨hot, hoi, hst, hsi, -⟩ := v.forall_strings.1 h.nonEmpty
  cases p with
  | object => exact ⟨CStr.length_ne_zero.1 hot, CStr.length_ne_zero.1 hoi⟩
  | user => exact ⟨CStr.length_ne_zero.1 hst, CStr.length_ne_zero.1 hsi⟩

/-- The tuple with another type and id. -/
theorem Sent.sent_set (h : Sent v key) {type id : CStr} (ht : type.bytes ≠ []) (hi : id.bytes ≠ []) :
    Sent (p.set v type id) ((p.set v type id).key cut) := by
  refine sent_of_nonEmpty ((TupleArgsView.forall_strings _).2 ?_)
  obtain ⟨hot, hoi, hst, hsi, hrel⟩ := v.forall_strings.1 h.nonEmpty
  cases p with
  | object => exact ⟨CStr.length_ne_zero.2 ht, CStr.length_ne_zero.2 hi, hst, hsi, hrel⟩
  | user => exact ⟨hot, hoi, CStr.length_ne_zero.2 ht, CStr.length_ne_zero.2 hi, hrel⟩

@[simp] theorem Party.type_set (p : Party) (v : TupleArgsView) (type id : CStr) : p.type (p.set v type id) = type := by
  cases p <;> rfl

@[simp] theorem Party.id_set (p : Party) (v : TupleArgsView) (type id : CStr) : p.id (p.set v type id) = id := by
  cases p <;> rfl

theorem sent_pair_iff (h : Sent v key) (h' : Sent v' key') (hs : p.Short v) (hs' : p.Short v') :
    (p.string key = p.string key' → p.type v = p.type v' ∧ p.id v = p.id v') ↔
      ¬ Shifted (p.type v).bytes (p.id v).bytes (p.type v').bytes (p.id v').bytes ∧
      ¬ Shifted (p.type v').bytes (p.id v').bytes (p.type v).bytes (p.id v).bytes := by
  rw [← typedId_apart_iff, h.string_eq hs, h'.string_eq hs', CStr.ext_iff, CStr.ext_iff]

/-- A tuple that is told apart from every other one has no colon that could be the one in between. -/
theorem unsplit_of_apart (h : Sent v key) (hs : p.Short v)
    (hall : ∀ v' key', Sent v' key' → p.Short v' → p.string key = p.string key' →
      p.type v = p.type v' ∧ p.id v = p.id v') : Unsplit (p.type v).bytes (p.id v).bytes := by
  have other : ∀ type id : CStr, type.bytes ≠ [] → id.bytes ≠ [] → type.length ≤ 63 → id.length ≤ 63 →
      ¬ Shifted (p.type v).bytes (p.id v).bytes type.bytes id.bytes ∧
      ¬ Shifted type.bytes id.bytes (p.type v).bytes (p.id v).bytes := by
    intro type id ht hi hlt hli
    have hsent := h.sent_set (p := p) ht hi
    have hshort : p.Short (p.set v type id) := by simpa [Party.Short] using ⟨hlt, hli⟩
    simpa using (sent_pair_iff h hsent hs hshort).1 (hall _ _ hsent hshort)
  -- taking another colon for the one in between gives another tuple, unless a part of it is too long
  constructor
  · intro a b hab hne
    by_contra hle
    obtain ⟨ha, hb, hlen⟩ := CStr.split_colon hab
    have hshort := hs.1
    refine (other ⟨a, ha⟩ ⟨b ++ 58 :: (p.id v).bytes, noNul_typedId hb (p.id v).noNul⟩ hne (by simp) ?_ ?_).2
      ⟨b, hab, rfl⟩
    · show a.length ≤ 63
      omega
    · simp only [CStr.length, List.length_append, List.length_cons]
      omega
  · intro a b hab hne
    by_contra hle
    obtain ⟨ha, hb, hlen⟩ := CStr.split_colon hab
    have hshort := hs.2
    refine (other ⟨(p.type v).bytes ++ 58 :: a, noNul_typedId (p.type v).noNul ha⟩ ⟨b, hb⟩ (by simp) hne ?_ ?_).1
      ⟨a, rfl, hab⟩
    · simp only [CStr.length, List.length_append, List.length_cons]
      omega
    · show b.length ≤ 63
      omega

/-- **When distinct objects and users stay distinct on the wire.** Of two tuples with types and ids of at
most 63 bytes, whichever of the encoders has written their keys, equal objects (users) mean an equal type
and an equal id exactly when neither type is the other one followed by a colon and the bytes that stand
before a colon in the other id. A tuple's object (user) is told apart from that of every other tuple
exactly when none of its colons can be taken for the one in between. -/
theorem sent_apart_iff (p : Party) (h : Sent v key) (hs : p.Short v) :
    (∀ v' key', Sent v' key' → p.Short v' →
      ((p.string key = p.string key' → p.type v = p.type v' ∧ p.id v = p.id v') ↔
        ¬ Shifted (p.type v).bytes (p.id v).bytes (p.type v').bytes (p.id v').bytes ∧
        ¬ Shifted (p.type v').bytes (p.id v').bytes (p.type v).bytes (p.id v).bytes)) ∧
    ((∀ v' key', Sent v' key' → p.Short v' → p.string key = p.string key' →
      p.type v = p.type v' ∧ p.id v = p.id v') ↔ Unsplit (p.type v).bytes (p.id v).bytes) := by
  refine ⟨fun v' key' h' hs' => sent_pair_iff h h' hs hs', fun hall => unsplit_of_apart h hs hall,
    fun hun v' key' h' hs' => ?_⟩
  obtain ⟨ht, hi⟩ := h'.parts_ne (p := p)
  exact (sent_pair_iff h h' hs hs').2 (hun.not_shifted ht hi hs')

end

/-- Is alice a viewer of the object? -/
def viewerOf (type id : String) : TupleArgsView :=
  ⟨.lit type, .lit id, .lit "user", .lit "alice", .lit "viewer"⟩

/-- An id with a colon is told apart from another id of its type. -/
theorem sent_apart_iff_folder :
    ((viewerOf "folder" "a:b").key cut).object ≠ ((viewerOf "folder" "a:c").key cut).object := by
  have hpair := (sent_apart_iff .object (sent_of_nonEmpty (v := viewerOf "folder" "a:b") (by decide))
    (by decide)).1 _ _ (sent_of_nonEmpty (v := viewerOf "folder" "a:c") (by decide)) (by decide)
  intro he
  have hid := (hpair.2 ⟨not_shifted (by decide), not_shifted (by decide)⟩ he).2
  exact absurd hid (by decide)

/-- The arguments of `viewerOf`. -/
def viewerArgs (type id : String) : TupleArgs :=
  ⟨some (.lit type), some (.lit id), some (.lit "user"), some (.lit "alice"), some (.lit "viewer")⟩

/-- **One object on the wire for two**: `fga_write_tuple` about the id `b` of the type `folder:a`, and
`fga_check` about the id `a:b` of the type `folder`. -/
theorem sent_shifted : ¬ ∀ v v' key key', Sent v key → Sent v' key' → Party.object.Short v → Party.object.Short v' →
    key.object = key'.object → v.objectType = v'.objectType ∧ v.objectId = v'.objectId := by
  have hsent : Sent (viewerOf "folder:a" "b") ((viewerOf "folder:a" "b").key cut) :=
    sent_of_request (viewerArgs "folder:a" "b") ⟨some (.lit "s"), none⟩ 1 (.writeTuple (viewerOf "folder:a" "b"))
      rfl rfl rfl
  have hsent' : Sent (viewerOf "folder" "a:b") ((viewerOf "folder" "a:b").key cut) :=
    sent_of_request (viewerArgs "folder" "a:b") ⟨some (.lit "s"), none⟩ 2 (.check (viewerOf "folder" "a:b"))
      rfl rfl rfl
  intro h
  have := h _ _ _ _ hsent hsent' (by decide) (by decide) (by decide)
  exact absurd this.2 (by decide)

end PostFga
