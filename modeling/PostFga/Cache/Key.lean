import PostFga.Lib.CString
/-
# The cache key: `FgaAclCacheKey` (`cache.h:23`) and `fga_cache_key` (`cache_key.h:46`)

| here | there |
| --- | --- |
| `FgaAclCacheKey`          | the 32-byte struct: every byte belongs to one of the five fields, so equality of the record is equality of the blob that `HASH_BLOBS` hashes and compares (`cache_l2.h:149`) |
| `XXH3`                    | `XXH3_64bits` / `XXH3_128bits`; the library is not part of the repository, so both are parameters |
| `Question`                | the seven strings the builder is given; a NULL pointer is `none` |
| `appendCacheKeyField`     | `append_cache_key_field` (`cache_key.h:30`), a `const char*` |
| `appendCacheKeyFieldText` | `append_cache_key_field_text` (`cache_key.h:14`), a `const text*` |
| `keyPrefix`, `keyBytes`   | the contents of `buf` at the two hash calls (`:65`, `:71`) |
| `fgaCacheKey`             | `fga_cache_key`: `key` is the caller's variable, whose other bytes stay; `none` is a write past the end of `buf`, whose effect C does not define |

The builder's `Assert`s on the lengths (125 and 128 bytes, which together fit in `buf`) are
compiled out of a release build and are not part of these definitions.
-/

namespace PostFga

/-- `FgaAclCacheKey` (`cache.h:23`). -/
structure FgaAclCacheKey where
  low : UInt64
  high : UInt64
  objectKey : UInt64
  relationId : UInt32
  pad : UInt32
deriving DecidableEq, Repr, Inhabited

/-- The hash library: `hash128` returns `(low64, high64)`. -/
structure XXH3 where
  hash64 : Bytes → UInt64
  hash128 : Bytes → UInt64 × UInt64

/-- What a key is built from. -/
structure Question where
  storeId : Option CStr
  modelId : Option CStr
  objectType : Option CStr
  objectId : Option CStr
  subjectType : Option CStr
  subjectId : Option CStr
  relation : Option CStr
deriving DecidableEq, Repr

/-- A length byte, then the bytes; a NULL string counts as empty. -/
def appendField (buffer : Bytes) (str : Option CStr) : Bytes :=
  let bytes := (str.map CStr.bytes).getD []
  buffer ++ UInt8.ofNat bytes.length :: bytes

/-- `append_cache_key_field_text` (`cache_key.h:14`). -/
def appendCacheKeyFieldText (buffer : Bytes) (str : Option CStr) : Bytes := appendField buffer str

/-- `append_cache_key_field` (`cache_key.h:30`). -/
def appendCacheKeyField (buffer : Bytes) (str : Option CStr) : Bytes := appendField buffer str

/-- `buf` when `object_key` is hashed: store, model and object. -/
def keyPrefix (q : Question) : Bytes :=
  let p := appendCacheKeyField [] q.storeId
  let p := appendCacheKeyField p q.modelId
  let p := appendCacheKeyFieldText p q.objectType
  appendCacheKeyFieldText p q.objectId

/-- `buf` when the 128-bit hash is taken: the prefix, then subject and relation. -/
def keyBytes (q : Question) : Bytes :=
  let p := appendCacheKeyFieldText (keyPrefix q) q.subjectType
  let p := appendCacheKeyFieldText p q.subjectId
  appendCacheKeyFieldText p q.relation

/-- `char buf[1024]`. -/
def KEY_BUF_SIZE : Nat := 1024

/-- The fields of a question fit in `buf`. -/
def Question.Fits (q : Question) : Prop := (keyBytes q).length ≤ KEY_BUF_SIZE

instance (q : Question) : Decidable q.Fits := inferInstanceAs (Decidable (_ ≤ _))

/-- `fga_cache_key` (`cache_key.h:46`) writes three of the five fields of `*key`. -/
def fgaCacheKey (X : XXH3) (key : FgaAclCacheKey) (q : Question) : Option FgaAclCacheKey :=
  if q.Fits then
    let h := X.hash128 (keyBytes q)
    some { key with objectKey := X.hash64 (keyPrefix q), low := h.1, high := h.2 }
  else none

theorem fgaCacheKey_eq_some {X : XXH3} {key k : FgaAclCacheKey} {q : Question} :
    fgaCacheKey X key q = some k ↔ q.Fits ∧
      k = ⟨(X.hash128 (keyBytes q)).1, (X.hash128 (keyBytes q)).2, X.hash64 (keyPrefix q),
        key.relationId, key.pad⟩ := by
  unfold fgaCacheKey
  split
  · rename_i h; simp only [h, true_and, Option.some.injEq]; exact eq_comm
  · rename_i h; simp [h]

end PostFga
