import PostFga.Cache.L1
import PostFga.Cache.L2Inv
/-
# When the cache key is a function of the question

`fga_check` builds its key in an uninitialised local (`func_fga.c:134`), `fga_cache_key` leaves
`relation_id` and `_pad` alone, and the L2 index hashes and compares the whole struct
(`HASH_BLOBS`, `cache_l2.h:149`) where L1 compares two words (`cache_l1.h:70`).

* `SameKey` — what two calls with one question should have in common.
* `sameKey_iff` — they have it exactly when the bytes the builder leaves alone were equal.
* `fgaCacheKey_leftover` — two calls where they were not.
-/

namespace PostFga

variable {T : Type} {H : HashOps T FgaAclCacheKey Nat}

/-- The only key a fresh cache answers after one store is the one stored. -/
theorem l2Startup_store_miss (S : HashSpec H) {capacity : UInt32} {mem : Nat → FgaL2AclEntry}
    (h2 : 2 ≤ capacity.toNat) {key key' : FgaAclCacheKey} (hne : key' ≠ key) {now e now' : TimestampTz}
    {v : Bool} {s' : L2 T} {r : L2StoreEnd}
    (hst : l2Store H (l2Startup H (fgaCacheShmemInit capacity mem)) key now e v = some (s', r)) :
    (l2Lookup H s' key' now').1 = none := by
  obtain ⟨s1, r1, hst1, -, hinv, -, -, -, hother⟩ :=
    l2Store_spec S (l2Inv_startup S capacity mem h2) key now e v
  rw [hst] at hst1; cases hst1
  have hnone : l2Content H s' key' = none := by
    rcases hother key' hne with h | h
    · rw [h]; simp [l2Content, l2Startup, S.find_create]
    · exact h
  obtain ⟨-, -, -, -, hhit⟩ := l2Lookup_spec hinv key' now'
  refine Option.eq_none_iff_forall_ne_some.2 fun ve hve => ?_
  have := ((hhit ve.1 ve.2).1 hve).1
  rw [hnone] at this; cases this

/-- The 128-bit hash does not confuse two questions that the 64-bit hash of the prefix tells
apart. -/
def XXH3.Apart (X : XXH3) (q q' : Question) : Prop :=
  X.hash128 (keyBytes q) = X.hash128 (keyBytes q') → X.hash64 (keyPrefix q) = X.hash64 (keyPrefix q')

/-- What two calls of the builder for the question `q`, into variables `k₀` and `k₀'`, should
have in common. -/
structure SameKey (H : HashOps T FgaAclCacheKey Nat) (X : XXH3) (k₀ k₀' : FgaAclCacheKey)
    (q : Question) : Prop where
  /-- They build one key, byte for byte. -/
  blob : ∃ k, fgaCacheKey X k₀ q = some k ∧ fgaCacheKey X k₀' q = some k
  /-- The two levels tell the same keys apart. -/
  levels : ∀ q' k k', X.Apart q q' → fgaCacheKey X k₀ q = some k → fgaCacheKey X k₀' q' = some k' →
    (l1KeyEquals k k' = true ↔ k = k')
  /-- What one stores in any cache reached by calls, the other finds. -/
  found : ∀ k k', fgaCacheKey X k₀ q = some k → fgaCacheKey X k₀' q = some k' →
    ∀ (capacity : UInt32) mem ops s rs, 2 ≤ capacity.toNat →
      l2Run H (l2Startup H (fgaCacheShmemInit capacity mem)) ops = some (s, rs) →
      ∀ now e v now', now' < e → ∃ s' r, l2Store H s k now e v = some (s', r) ∧
        (l2Lookup H s' k' now').1 = some (v, e)

/-- A store by one of two different keys is not found by the other: in the empty cache. -/
theorem eq_of_found (S : HashSpec H) {k k' : FgaAclCacheKey}
    (h : ∀ (capacity : UInt32) mem ops s rs, 2 ≤ capacity.toNat →
      l2Run H (l2Startup H (fgaCacheShmemInit capacity mem)) ops = some (s, rs) →
      ∀ now e v now', now' < e → ∃ s' r, l2Store H s k now e v = some (s', r) ∧
        (l2Lookup H s' k' now').1 = some (v, e)) : k' = k := by
  by_contra hne
  obtain ⟨s', r, hst, hl⟩ := h 2 zeroedMem [] _ [] (by decide) rfl 0 10 true 5 (by decide)
  rw [l2Startup_store_miss S (by decide) hne hst] at hl
  cases hl

/-- **The key is a function of the question exactly when** the question fits in `buf` and the
callers' variables agreed on the two fields the builder does not write. Both the agreement of
the levels and the lookup fail whenever they did not. -/
theorem sameKey_iff (S : HashSpec H) (X : XXH3) (k₀ k₀' : FgaAclCacheKey) (q : Question) :
    (SameKey H X k₀ k₀' q ↔ q.Fits ∧ k₀.relationId = k₀'.relationId ∧ k₀.pad = k₀'.pad) ∧
    ∀ k k', fgaCacheKey X k₀ q = some k → fgaCacheKey X k₀' q = some k' →
      ((l1KeyEquals k k' = true ↔ k = k') ↔ k₀.relationId = k₀'.relationId ∧ k₀.pad = k₀'.pad) ∧
      ((∀ (capacity : UInt32) mem ops s rs, 2 ≤ capacity.toNat →
        l2Run H (l2Startup H (fgaCacheShmemInit capacity mem)) ops = some (s, rs) →
        ∀ now e v now', now' < e → ∃ s' r, l2Store H s k now e v = some (s', r) ∧
          (l2Lookup H s' k' now').1 = some (v, e)) ↔
        k₀.relationId = k₀'.relationId ∧ k₀.pad = k₀'.pad) := by
  have found : ∀ k (capacity : UInt32) mem ops s rs, 2 ≤ capacity.toNat →
      l2Run H (l2Startup H (fgaCacheShmemInit capacity mem)) ops = some (s, rs) →
      ∀ now e v now', now' < e → ∃ s' r, l2Store H s k now e v = some (s', r) ∧
        (l2Lookup H s' k now').1 = some (v, e) := by
    intro k capacity mem ops s rs h2 hrun now e v now' hlt
    obtain ⟨s1, rs1, hrun1, hinv, -, -⟩ := l2Run_spec S ops _ (l2Inv_startup S capacity mem h2)
    rw [hrun] at hrun1; cases hrun1
    obtain ⟨s', r, hst, hl⟩ := l2Store_lookup S hinv k now e v
    exact ⟨s', r, hst, hl now' hlt⟩
  refine ⟨⟨fun h => ?_, fun ⟨hfit, hrel, hpad⟩ => ⟨?_, ?_, ?_⟩⟩, fun k k' hk hk' => ⟨?_, ?_⟩⟩
  · obtain ⟨k, hk, hk'⟩ := h.blob
    obtain ⟨hfit, rfl⟩ := fgaCacheKey_eq_some.1 hk
    obtain ⟨-, he⟩ := fgaCacheKey_eq_some.1 hk'
    simp only [FgaAclCacheKey.mk.injEq, true_and] at he
    exact ⟨hfit, he⟩
  · exact ⟨_, fgaCacheKey_eq_some.2 ⟨hfit, rfl⟩, fgaCacheKey_eq_some.2 ⟨hfit, by rw [hrel, hpad]⟩⟩
  · intro q' k k' hap hk hk'
    obtain ⟨-, rfl⟩ := fgaCacheKey_eq_some.1 hk
    obtain ⟨-, rfl⟩ := fgaCacheKey_eq_some.1 hk'
    simp only [l1KeyEquals_iff, FgaAclCacheKey.mk.injEq, hrel, hpad, and_true]
    exact ⟨fun h => ⟨h.1, h.2, hap (Prod.ext h.1 h.2)⟩, fun h => ⟨h.1, h.2.1⟩⟩
  · intro k k' hk hk'
    obtain ⟨-, rfl⟩ := fgaCacheKey_eq_some.1 hk
    obtain ⟨-, rfl⟩ := fgaCacheKey_eq_some.1 hk'
    rw [hrel, hpad]
    exact found _
  · obtain ⟨-, rfl⟩ := fgaCacheKey_eq_some.1 hk
    obtain ⟨-, rfl⟩ := fgaCacheKey_eq_some.1 hk'
    simp [l1KeyEquals_iff]
  · obtain ⟨-, rfl⟩ := fgaCacheKey_eq_some.1 hk
    obtain ⟨-, rfl⟩ := fgaCacheKey_eq_some.1 hk'
    refine ⟨fun h => ?_, fun ⟨hrel, hpad⟩ => ?_⟩
    · have he := eq_of_found S h
      simp only [FgaAclCacheKey.mk.injEq, true_and] at he
      exact ⟨he.1.symm, he.2.symm⟩
    · rw [hrel, hpad]; exact found _

/-- `fga_check('document', 'readme', 'user', 'alice', 'viewer')` under store `s` and model `m`. -/
def aliceQuestion : Question where
  storeId := some (CStr.lit "s")
  modelId := some (CStr.lit "m")
  objectType := some (CStr.lit "document")
  objectId := some (CStr.lit "readme")
  subjectType := some (CStr.lit "user")
  subjectId := some (CStr.lit "alice")
  relation := some (CStr.lit "viewer")

/-- The values of XXH3 on the two streams of `aliceQuestion`. -/
def aliceXXH3 : XXH3 :=
  ⟨fun _ => 0x1a0de8cb8182dbeb, fun _ => (0xeeb852d7accdfb27, 0x6d7a1d547a2a5554)⟩

/-- The same stack content on both sides. -/
theorem sameKey_iff_zeroed :
    SameKey refIndex aliceXXH3 ⟨0, 0, 0, 0, 0⟩ ⟨0, 0, 0, 0, 0⟩ aliceQuestion :=
  (sameKey_iff refIndex_spec aliceXXH3 _ _ _).1.2 ⟨by decide, rfl, rfl⟩

/-- **The stack content decides.** Whatever the hash functions: two calls for one question, the
second with a 1 left over where `relation_id` is, build different keys, and in a fresh cache the
second does not find what the first has just stored. -/
theorem fgaCacheKey_leftover : ¬ ∃ X : XXH3,
    fgaCacheKey X ⟨0, 0, 0, 0, 0⟩ aliceQuestion = fgaCacheKey X ⟨0, 0, 0, 1, 0⟩ aliceQuestion ∨
    ∃ k k' s r, fgaCacheKey X ⟨0, 0, 0, 0, 0⟩ aliceQuestion = some k ∧
      fgaCacheKey X ⟨0, 0, 0, 1, 0⟩ aliceQuestion = some k' ∧
      l2Store refIndex (l2Startup refIndex (fgaCacheShmemInit 2 zeroedMem)) k 0 10 true = some (s, r) ∧
      (l2Lookup refIndex s k' 5).1 = some (true, 10) := by
  have hfit : aliceQuestion.Fits := by decide
  rintro ⟨X, h | ⟨k, k', s, r, hk, hk', hst, hl⟩⟩
  · simp [fgaCacheKey, hfit] at h
  · have hne : k' ≠ k := by
      obtain ⟨-, rfl⟩ := fgaCacheKey_eq_some.1 hk
      obtain ⟨-, rfl⟩ := fgaCacheKey_eq_some.1 hk'
      simp
    rw [l2Startup_store_miss refIndex_spec (by decide) hne hst] at hl
    cases hl

end PostFga
