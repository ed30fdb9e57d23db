import PostFga.Cache.KeyDetermined
import PostFga.Lib.Delimited
/-
# What the bytes of the cache key say about the question (`cache_key.h`)

| here | there |
| --- | --- |
| `KeyFields`          | the seven byte strings that the encoders copy: `VARSIZE_ANY_EXHDR` bytes of a `text`, `strlen` bytes of a setting, none of a NULL pointer |
| `frame`              | one field in `buf`: the length byte (`:19`, `:35`), then the bytes |
| `KeyFields.Asserted` | the two `Assert`s on the lengths (`:17`, `:33`) |

A `text` has its length in its header, so that `KeyFields` allows any byte in any field. The two streams
that are hashed are sequences of frames, and a frame whose length byte is the length says where it ends:
`KeyFields.stream_inj`, `keyBytes_injective`.
-/

namespace PostFga

open Delimited

/-- `(uint8_t)str_len`, then `str_len` bytes. -/
def frame (bytes : Bytes) : Bytes := counted UInt8.ofNat bytes

structure KeyFields where
  storeId : Bytes
  modelId : Bytes
  objectType : Bytes
  objectId : Bytes
  subjectType : Bytes
  subjectId : Bytes
  relation : Bytes
deriving DecidableEq, Repr

namespace KeyFields
variable (f : KeyFields)

def settings : List Bytes := [f.storeId, f.modelId]

def texts : List Bytes := [f.objectType, f.objectId, f.subjectType, f.subjectId, f.relation]

/-- The fields in front of the first hash call. -/
def object : List Bytes := [f.storeId, f.modelId, f.objectType, f.objectId]

/-- The fields in front of the second one. -/
def all : List Bytes := f.object ++ [f.subjectType, f.subjectId, f.relation]

def objectStream : Bytes := f.object.flatMap frame

def stream : Bytes := f.all.flatMap frame

/-- `Assert(str_len <= 128)` of the settings, `Assert(str_len <= 125)` of the texts. -/
structure Asserted : Prop where
  settings_le : ∀ s ∈ f.settings, s.length ≤ 128
  texts_le : ∀ s ∈ f.texts, s.length ≤ 125

instance : Decidable f.Asserted :=
  decidable_of_iff ((∀ s ∈ f.settings, s.length ≤ 128) ∧ ∀ s ∈ f.texts, s.length ≤ 125)
    ⟨fun h => ⟨h.1, h.2⟩, fun h => ⟨h.1, h.2⟩⟩

/-- Field by field, in the order of the calls. -/
theorem asserted_iff : f.Asserted ↔
    (f.storeId.length ≤ 128 ∧ f.modelId.length ≤ 128) ∧ f.objectType.length ≤ 125 ∧ f.objectId.length ≤ 125 ∧
      f.subjectType.length ≤ 125 ∧ f.subjectId.length ≤ 125 ∧ f.relation.length ≤ 125 := by
  have hs : (∀ s ∈ f.settings, s.length ≤ 128) ↔ f.storeId.length ≤ 128 ∧ f.modelId.length ≤ 128 := by
    simp [settings]
  have ht : (∀ s ∈ f.texts, s.length ≤ 125) ↔ f.objectType.length ≤ 125 ∧ f.objectId.length ≤ 125 ∧
      f.subjectType.length ≤ 125 ∧ f.subjectId.length ≤ 125 ∧ f.relation.length ≤ 125 := by
    simp [texts]
  rw [← hs, ← ht]
  exact ⟨fun h => ⟨h.settings_le, h.texts_le⟩, fun h => ⟨h.1, h.2⟩⟩

end KeyFields

/-- What an encoder copies. -/
def fieldBytes (str : Option CStr) : Bytes := (str.map CStr.bytes).getD []

def Question.fields (q : Question) : KeyFields where
  storeId := fieldBytes q.storeId
  modelId := fieldBytes q.modelId
  objectType := fieldBytes q.objectType
  objectId := fieldBytes q.objectId
  subjectType := fieldBytes q.subjectType
  subjectId := fieldBytes q.subjectId
  relation := fieldBytes q.relation

/-! ## The streams are sequences of frames -/

theorem appendField_eq (buffer : Bytes) (str : Option CStr) :
    appendField buffer str = buffer ++ frame (fieldBytes str) := rfl

theorem keyPrefix_eq (q : Question) : keyPrefix q = q.fields.objectStream := by
  simp [keyPrefix, appendCacheKeyField, appendCacheKeyFieldText, appendField_eq, KeyFields.objectStream,
    KeyFields.object, Question.fields]

theorem keyBytes_eq (q : Question) : keyBytes q = q.fields.stream := by
  simp [keyBytes, keyPrefix, appendCacheKeyField, appendCacheKeyFieldText, appendField_eq, KeyFields.stream,
    KeyFields.all, KeyFields.object, Question.fields]

/-- One length byte a field. -/
theorem length_flatMap_frame (fields : List Bytes) :
    (fields.flatMap frame).length = fields.length + (fields.map List.length).sum := by
  induction fields with
  | nil => rfl
  | cons s fields ih =>
    simp only [List.flatMap_cons, List.length_append, ih, frame, counted_length, List.map_cons, List.sum_cons,
      List.length_cons]
    omega

/-- `Assert`s passed, the stream is well within `buf`. -/
theorem KeyFields.Asserted.stream_length {f : KeyFields} (h : f.Asserted) : f.stream.length ≤ KEY_BUF_SIZE := by
  have hle := f.asserted_iff.1 h
  rw [stream, length_flatMap_frame, KEY_BUF_SIZE]
  simp only [all, object, List.cons_append, List.nil_append, List.map_cons, List.map_nil, List.sum_cons,
    List.sum_nil, List.length_cons, List.length_nil]
  omega

theorem Question.fits_of_asserted {q : Question} (h : q.fields.Asserted) : q.Fits := by
  rw [Question.Fits, keyBytes_eq]
  exact h.stream_length

/-! ## The frames determine the fields -/

theorem ofNat_injOn : Set.InjOn UInt8.ofNat {m | m ≤ 255} := by
  intro a ha b hb h
  have hm := congrArg UInt8.toNat h
  rwa [UInt8.toNat_ofNat_of_lt' (by simpa using Nat.lt_succ_of_le ha),
    UInt8.toNat_ofNat_of_lt' (by simpa using Nat.lt_succ_of_le hb)] at hm

/-- A frame says where it ends, up to the longest length that one byte can hold. -/
theorem selfDelimiting_frame : SelfDelimiting frame {s | s.length ≤ 255} := selfDelimiting_counted ofNat_injOn

namespace KeyFields
variable {f f' : KeyFields}

theorem Asserted.short (h : f.Asserted) : ∀ s ∈ f.all, s.length ≤ 255 := by
  have hle := f.asserted_iff.1 h
  simp only [all, object, List.cons_append, List.nil_append, List.forall_mem_cons, List.not_mem_nil,
    false_imp_iff, implies_true, and_true]
  omega

theorem all_inj : f.all = f'.all ↔ f = f' := by
  cases f; cases f'
  simp [all, object]

/-- **The whole stream** determines the seven fields. -/
theorem stream_inj (h : f.Asserted) (h' : f'.Asserted) : f.stream = f'.stream ↔ f = f' := by
  rw [stream, stream, selfDelimiting_frame.flatMap_inj h.short h'.short rfl, all_inj]

/-- **The stream of the first hash call** determines store, model and object. -/
theorem objectStream_inj (h : f.Asserted) (h' : f'.Asserted) :
    f.objectStream = f'.objectStream ↔ f.object = f'.object := by
  have sub : ∀ {g : KeyFields}, g.Asserted → ∀ s ∈ g.object, s.length ≤ 255 := fun hg s hs =>
    hg.short s (List.mem_append_left _ hs)
  rw [objectStream, objectStream, selfDelimiting_frame.flatMap_inj (sub h) (sub h') rfl]

end KeyFields

/-! ## The keys determine the questions -/

/-- The hash functions tell the streams of the questions in `asked` apart. -/
structure XXH3.InjectiveOn (X : XXH3) (asked : Set Question) : Prop where
  hash128 : Set.InjOn X.hash128 (keyBytes '' asked)
  hash64 : Set.InjOn X.hash64 (keyPrefix '' asked)

/-- The words of the key that `fga_cache_key` writes say which question it was. -/
theorem key_words_iff {X : XXH3} {asked : Set Question} (hX : X.InjectiveOn asked)
    (hall : ∀ q ∈ asked, q.fields.Asserted) {q q' : Question} (hq : q ∈ asked) (hq' : q' ∈ asked) :
    (X.hash128 (keyBytes q) = X.hash128 (keyBytes q') ↔ q.fields = q'.fields) ∧
    (X.hash64 (keyPrefix q) = X.hash64 (keyPrefix q') ↔ q.fields.object = q'.fields.object) := by
  constructor
  · rw [hX.hash128.eq_iff (Set.mem_image_of_mem _ hq) (Set.mem_image_of_mem _ hq'), keyBytes_eq, keyBytes_eq,
      KeyFields.stream_inj (hall q hq) (hall q' hq')]
  · rw [hX.hash64.eq_iff (Set.mem_image_of_mem _ hq) (Set.mem_image_of_mem _ hq'), keyPrefix_eq, keyPrefix_eq,
      KeyFields.objectStream_inj (hall q hq) (hall q' hq')]

/-- **The encoding is injective.** For any bytes in the fields, within the lengths the encoders assert, the
two streams determine the seven fields and the first four. For questions that the hash functions tell
apart, `fga_cache_key` builds keys that either level of the cache takes for one exactly when the questions
are the same: L1, which compares the words of the 128-bit hash, and L2, which compares the whole struct
and so also the two fields that the builder has left alone. -/
theorem keyBytes_injective :
    (∀ f f' : KeyFields, f.Asserted → f'.Asserted →
      (f.stream = f'.stream ↔ f = f') ∧ (f.objectStream = f'.objectStream ↔ f.object = f'.object)) ∧
    (∀ q : Question, keyBytes q = q.fields.stream ∧ keyPrefix q = q.fields.objectStream) ∧
    (∀ q q' : Question, q.fields.Asserted → q'.fields.Asserted →
      (keyBytes q = keyBytes q' ↔ q.fields = q'.fields) ∧
      (keyPrefix q = keyPrefix q' ↔ q.fields.object = q'.fields.object)) ∧
    ∀ (X : XXH3) (asked : Set Question), X.InjectiveOn asked → (∀ q ∈ asked, q.fields.Asserted) →
      ∀ q ∈ asked, ∀ q' ∈ asked, ∀ k₀ k₀', ∃ k k',
        fgaCacheKey X k₀ q = some k ∧ fgaCacheKey X k₀' q' = some k' ∧
        (l1KeyEquals k k' = true ↔ q.fields = q'.fields) ∧
        (k.objectKey = k'.objectKey ↔ q.fields.object = q'.fields.object) ∧
        (k = k' ↔ q.fields = q'.fields ∧ k₀.relationId = k₀'.relationId ∧ k₀.pad = k₀'.pad) := by
  refine ⟨fun f f' h h' => ⟨KeyFields.stream_inj h h', KeyFields.objectStream_inj h h'⟩,
    fun q => ⟨keyBytes_eq q, keyPrefix_eq q⟩, fun q q' h h' => ?_,
    fun X asked hX hall q hq q' hq' k₀ k₀' => ?_⟩
  · rw [keyBytes_eq, keyBytes_eq, keyPrefix_eq, keyPrefix_eq]
    exact ⟨KeyFields.stream_inj h h', KeyFields.objectStream_inj h h'⟩
  obtain ⟨h128, h64⟩ := key_words_iff hX hall hq hq'
  refine ⟨_, _, fgaCacheKey_eq_some.2 ⟨Question.fits_of_asserted (hall q hq), rfl⟩,
    fgaCacheKey_eq_some.2 ⟨Question.fits_of_asserted (hall q' hq'), rfl⟩, ?_, h64, ?_⟩
  · rw [l1KeyEquals_iff, ← h128, Prod.ext_iff]
  · rw [FgaAclCacheKey.mk.injEq, ← and_assoc, ← Prod.ext_iff, h128]
    constructor
    · rintro ⟨hf, -, hrel, hpad⟩
      exact ⟨hf, hrel, hpad⟩
    · rintro ⟨hf, hrel, hpad⟩
      exact ⟨hf, h64.2 (by rw [hf]), hrel, hpad⟩

/-- A question whose stream is that of `aliceQuestion` with the frames cut elsewhere: the object's id has the
bytes of a frame in it. -/
def shiftedQuestion : Question where
  storeId := some (CStr.lit "s")
  modelId := some (CStr.lit "m")
  objectType := some (CStr.lit "document")
  objectId := some (CStr.lit "readme\x04user")
  subjectType := some (CStr.lit "alice")
  subjectId := some (CStr.lit "viewer")
  relation := some (CStr.lit "x")

/-- The values of XXH3 on the streams of `aliceQuestion` and `shiftedQuestion`. -/
def shiftedXXH3 : XXH3 where
  hash64 b := if b = keyPrefix aliceQuestion then 0x1a0de8cb8182dbeb else 0x489eb4baa00ca5bb
  hash128 b := if b = keyBytes aliceQuestion then (0xeeb852d7accdfb27, 0x6d7a1d547a2a5554)
    else (0xcb981976251cd95f, 0x55b5707ac909c360)

theorem shiftedXXH3_injectiveOn : shiftedXXH3.InjectiveOn {aliceQuestion, shiftedQuestion} := by
  constructor
  · simp only [Set.image_pair, Set.injOn_pair]
    decide
  · simp only [Set.image_pair, Set.injOn_pair]
    decide

theorem keyBytes_injective_shifted : ∃ k k',
    fgaCacheKey shiftedXXH3 ⟨0, 0, 0, 0, 0⟩ aliceQuestion = some k ∧
    fgaCacheKey shiftedXXH3 ⟨0, 0, 0, 0, 0⟩ shiftedQuestion = some k' ∧ k ≠ k' := by
  have hall : ∀ q ∈ ({aliceQuestion, shiftedQuestion} : Set Question), q.fields.Asserted := by
    rintro q (rfl | rfl)
    · decide
    · decide
  obtain ⟨k, k', hk, hk', -, -, hiff⟩ := keyBytes_injective.2.2.2 shiftedXXH3 _ shiftedXXH3_injectiveOn hall
    aliceQuestion (by simp) shiftedQuestion (by simp) ⟨0, 0, 0, 0, 0⟩ ⟨0, 0, 0, 0, 0⟩
  refine ⟨k, k', hk, hk', fun he => ?_⟩
  exact absurd (hiff.1 he).1 (by decide)

end PostFga
