import PostFga.Cache.KeyEncoding
import PostFga.Sql.Check
import PostFga.Sql.Wire
/-
# How long the strings of a cache key may be (`cache_key.h`, `func_fga.c:129`)

The encoders assert what they are given to be short, and `buf` is as long as seven such strings need;
`read_tuple_args` asks of an argument that it is not empty. Of the two settings (`guc.c:108`, `:120`) the one
has a check hook that asks no more, and the other has none. A release build has no assertions.

| here | there |
| --- | --- |
| `assertedField`    | the two encoders in a build with assertions (`cache_key.h:14`, `:30`); `none` is a failed `Assert` |
| `keyBytesAsserted` | the seven calls (`:59`–`:69`) in such a build |
| `fieldStart`       | where a field's length byte stands in `buf` |
| `KeyInLimits`      | what the builder and `buf` rely on |

* `keyInLimits_iff` — when they may.
* `fgaCheck_long_object` — a call where they may not.
-/

namespace PostFga

def assertedField (maxLen : Nat) (buffer : Bytes) (str : Option CStr) : Option Bytes :=
  let strLen := (fieldBytes str).length
  if strLen ≤ maxLen then some (appendField buffer str) else none

def appendCacheKeyFieldTextAsserted : Bytes → Option CStr → Option Bytes := assertedField 125

def appendCacheKeyFieldAsserted : Bytes → Option CStr → Option Bytes := assertedField 128

/-- `buf` at the second hash call. -/
def keyBytesAsserted (q : Question) : Option Bytes := do
  let p ← appendCacheKeyFieldAsserted [] q.storeId
  let p ← appendCacheKeyFieldAsserted p q.modelId
  let p ← appendCacheKeyFieldTextAsserted p q.objectType
  let p ← appendCacheKeyFieldTextAsserted p q.objectId
  let p ← appendCacheKeyFieldTextAsserted p q.subjectType
  let p ← appendCacheKeyFieldTextAsserted p q.subjectId
  appendCacheKeyFieldTextAsserted p q.relation

def fieldStart (fields : List Bytes) (i : Nat) : Nat := ((fields.take i).flatMap frame).length

/-- Every length byte in `buf` is the length of its field. -/
def Question.PrefixesRight (q : Question) : Prop :=
  ∀ i s, q.fields.all[i]? = some s →
    ((keyBytes q)[fieldStart q.fields.all i]?).map UInt8.toNat = some s.length

structure Question.KeyInLimits (q : Question) : Prop where
  /-- No assertion fails. -/
  asserts : keyBytesAsserted q = some (keyBytes q)
  prefixes : q.PrefixesRight
  /-- What is written ends in `buf`. -/
  total : (keyBytes q).length ≤ KEY_BUF_SIZE

/-- The text arguments have at most 125 bytes, the settings at most 128. -/
structure ShortStrings (config : FgaConfig) (v : TupleArgsView) : Prop where
  args : ∀ s ∈ v.strings, s.length ≤ 125
  storeId : ∀ s ∈ config.storeId, s.length ≤ 128
  modelId : ∀ s ∈ config.modelId, s.length ≤ 128

/-! ## What the encoders write -/

theorem assertedField_eq_some {maxLen : Nat} {buffer p : Bytes} {str : Option CStr} :
    assertedField maxLen buffer str = some p ↔ (fieldBytes str).length ≤ maxLen ∧ appendField buffer str = p := by
  unfold assertedField
  dsimp only
  split
  · rename_i h
    simp [h]
  · rename_i h
    simp [h]

theorem keyBytesAsserted_eq_some (q : Question) : keyBytesAsserted q = some (keyBytes q) ↔ q.fields.Asserted := by
  simp only [keyBytesAsserted, appendCacheKeyFieldAsserted, appendCacheKeyFieldTextAsserted,
    Option.bind_eq_bind, Option.bind_eq_some_iff, assertedField_eq_some]
  rw [KeyFields.asserted_iff]
  constructor
  · rintro ⟨_, ⟨h1, -⟩, _, ⟨h2, -⟩, _, ⟨h3, -⟩, _, ⟨h4, -⟩, _, ⟨h5, -⟩, _, ⟨h6, -⟩, h7, -⟩
    exact ⟨⟨h1, h2⟩, h3, h4, h5, h6, h7⟩
  · rintro ⟨⟨h1, h2⟩, h3, h4, h5, h6, h7⟩
    exact ⟨_, ⟨h1, rfl⟩, _, ⟨h2, rfl⟩, _, ⟨h3, rfl⟩, _, ⟨h4, rfl⟩, _, ⟨h5, rfl⟩, _, ⟨h6, rfl⟩, h7, rfl⟩

/-- Where a field starts there is the low byte of its length. -/
theorem getElem?_fieldStart {fields : List Bytes} {i : Nat} {s : Bytes} (h : fields[i]? = some s) :
    (fields.flatMap frame)[fieldStart fields i]? = some (UInt8.ofNat s.length) := by
  obtain ⟨hlt, rfl⟩ := List.getElem?_eq_some_iff.1 h
  have hsplit : fields.flatMap frame =
      (fields.take i).flatMap frame ++ (frame fields[i] ++ (fields.drop (i + 1)).flatMap frame) := by
    rw [← List.flatMap_cons, ← List.flatMap_append, ← List.drop_eq_getElem_cons hlt, List.take_append_drop]
  rw [hsplit, fieldStart, List.getElem?_append_right (Nat.le_refl _), Nat.sub_self]
  rfl

theorem prefixesRight_iff (q : Question) : q.PrefixesRight ↔ ∀ s ∈ q.fields.all, s.length < 256 := by
  have hbyte : ∀ i s, q.fields.all[i]? = some s →
      ((keyBytes q)[fieldStart q.fields.all i]?).map UInt8.toNat = some (s.length % 256) := by
    intro i s hi
    rw [keyBytes_eq, KeyFields.stream, getElem?_fieldStart hi, Option.map_some, UInt8.toNat_ofNat']
  constructor
  · intro h s hs
    obtain ⟨i, hi⟩ := List.getElem?_of_mem hs
    have := (hbyte i s hi).symm.trans (h i s hi)
    simp only [Option.some.injEq] at this
    omega
  · intro h i s hi
    rw [hbyte i s hi, Nat.mod_eq_of_lt (h s (List.mem_of_getElem? hi))]

theorem keyInLimits_iff_asserted (q : Question) : q.KeyInLimits ↔ q.fields.Asserted := by
  constructor
  · intro h
    exact (keyBytesAsserted_eq_some q).1 h.asserts
  · intro h
    refine ⟨(keyBytesAsserted_eq_some q).2 h, (prefixesRight_iff q).2 fun s hs => ?_, Question.fits_of_asserted h⟩
    exact Nat.lt_succ_of_le (h.short s hs)

/-! ## What the callers pass -/

theorem fieldBytes_length_le {str : Option CStr} {n : Nat} :
    (fieldBytes str).length ≤ n ↔ ∀ s ∈ str, s.length ≤ n := by
  cases str with
  | none => simp [fieldBytes]
  | some s => simp [fieldBytes, CStr.length]

theorem asserted_questionOf (config : FgaConfig) (v : TupleArgsView) :
    (questionOf config v).fields.Asserted ↔ ShortStrings config v := by
  have hsome : ∀ s : CStr, (∀ t ∈ some s, t.length ≤ 125) ↔ s.length ≤ 125 := fun s => by
    simp only [Option.mem_some_iff, forall_eq']
  rw [KeyFields.asserted_iff]
  simp only [Question.fields, questionOf, fieldBytes_length_le, hsome]
  constructor
  · rintro ⟨⟨hstore, hmodel⟩, hargs⟩
    exact ⟨v.forall_strings.2 hargs, hstore, hmodel⟩
  · intro h
    exact ⟨⟨h.storeId, h.modelId⟩, v.forall_strings.1 h.args⟩

section
variable {T : Type} (H : HashOps T FgaAclCacheKey Nat) (X : XXH3)

theorem fgaCheckAsk_ne_undefined (c : CheckCall T) (args : TupleArgsView) (allowed₀ : Bool) :
    fgaCheckAsk c args allowed₀ ≠ .undefined := by
  unfold fgaCheckAsk
  dsimp only
  repeat' split
  all_goals simp

/-- After `read_tuple_args` the one thing that C does not define is a write past the end of `buf`. -/
theorem fgaCheck_undefined {c : CheckCall T} {v : TupleArgsView} (h : readTupleArgs c.args = .ok v)
    (key₀ : FgaAclCacheKey) (allowed₀ : Bool) :
    fgaCheck H X c key₀ allowed₀ = .undefined ↔ ¬ (questionOf c.config v).Fits := by
  unfold fgaCheck
  rw [h]
  dsimp only
  unfold fgaCacheKey
  by_cases hfit : (questionOf c.config v).Fits
  · rw [if_pos hfit]
    dsimp only
    split
    · simp [hfit]
    · simp [hfit, fgaCheckAsk_ne_undefined]
  · simp [hfit]

/-- **The key is built within the limits exactly when the strings are short**: the text arguments of the
call at most 125 bytes, the settings at most 128. Up to 255 bytes only the assertions are violated; from
256 on a length byte is wrong as well; and with more than 1017 bytes in all seven, the call writes past
the end of the buffer. -/
theorem keyInLimits_iff (c : CheckCall T) (v : TupleArgsView) (h : readTupleArgs c.args = .ok v) :
    ((questionOf c.config v).KeyInLimits ↔ ShortStrings c.config v) ∧
    ((questionOf c.config v).PrefixesRight ↔ ∀ s ∈ (questionOf c.config v).fields.all, s.length < 256) ∧
    ∀ key₀ allowed₀, fgaCheck H X c key₀ allowed₀ = .undefined ↔
      1017 < ((questionOf c.config v).fields.all.map List.length).sum := by
  refine ⟨(keyInLimits_iff_asserted _).trans (asserted_questionOf _ _), prefixesRight_iff _,
    fun key₀ allowed₀ => ?_⟩
  have hlen := length_flatMap_frame (questionOf c.config v).fields.all
  have hseven : (questionOf c.config v).fields.all.length = 7 := rfl
  rw [fgaCheck_undefined H X h, Question.Fits, keyBytes_eq, KeyFields.stream, hlen, hseven, KEY_BUF_SIZE]
  omega

end

theorem keyInLimits_iff_unreachable : (questionOf unreachable.config ⟨.lit "document", .lit "readme",
    .lit "user", .lit "alice", .lit "viewer"⟩).KeyInLimits :=
  (keyInLimits_iff refIndex aliceXXH3 unreachable _ rfl).1.2 ⟨by decide, by decide, by decide⟩

/-- `fga_check('document', repeat('a', n), 'user', 'alice', 'viewer')`. -/
def longObject (n : Nat) : CheckCall (HashTable.Ref FgaAclCacheKey Nat) :=
  { unreachable with args := { unreachable.args with objectId := some (.fill n 97 (by decide)) } }

/-- The view of its arguments. -/
def longArgs (n : Nat) : TupleArgsView :=
  ⟨.lit "document", .fill n 97 (by decide), .lit "user", .lit "alice", .lit "viewer"⟩

theorem readTupleArgs_longObject {n : Nat} (hn : 0 < n) : readTupleArgs (longObject n).args = .ok (longArgs n) := by
  refine readTupleArgs_eq_ok.2 ⟨rfl, (longArgs n).forall_strings.2 ?_⟩
  simp only [longArgs]
  refine ⟨by decide, ?_, by decide, by decide, by decide⟩
  simp only [CStr.length, CStr.fill, List.length_replicate]
  omega

theorem mem_longObject (n : Nat) :
    List.replicate n 97 ∈ (questionOf (longObject n).config (longArgs n)).fields.all := by
  simp [longArgs, KeyFields.all, KeyFields.object, Question.fields, questionOf, fieldBytes, CStr.fill]

/-- **A long object**: 2000 letters pass `read_tuple_args`, their length byte is 208, and the call writes
past the end of the buffer. -/
theorem fgaCheck_long_object :
    (∃ v, readTupleArgs (longObject 2000).args = .ok v ∧ ¬ (questionOf (longObject 2000).config v).PrefixesRight) ∧
    fgaCheck refIndex aliceXXH3 (longObject 2000) ⟨0, 0, 0, 0, 0⟩ false = .undefined ∧
    ¬ ∀ (c : CheckCall (HashTable.Ref FgaAclCacheKey Nat)) v, readTupleArgs c.args = .ok v →
      (questionOf c.config v).KeyInLimits := by
  have hread := readTupleArgs_longObject (n := 2000) (by omega)
  have hmem := mem_longObject 2000
  have hwrong : ¬ (questionOf (longObject 2000).config (longArgs 2000)).PrefixesRight := by
    intro h
    have hlt := (prefixesRight_iff _).1 h _ hmem
    rw [List.length_replicate] at hlt
    omega
  have hlong : ¬ (questionOf (longObject 2000).config (longArgs 2000)).Fits := by
    intro h
    have hle := List.single_le_sum (fun x _ => Nat.zero_le x) _ (List.mem_map_of_mem (f := List.length) hmem)
    rw [Question.Fits, keyBytes_eq, KeyFields.stream, length_flatMap_frame, KEY_BUF_SIZE] at h
    rw [List.length_replicate] at hle
    omega
  refine ⟨⟨_, hread, hwrong⟩, (fgaCheck_undefined _ _ hread _ _).2 hlong, fun h => hwrong ?_⟩
  exact (h _ _ hread).prefixes

end PostFga
