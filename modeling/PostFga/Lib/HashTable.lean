import Mathlib.Data.List.Dedup
import Mathlib.Data.List.Perm.Subperm
/-
# Fixed-size hash tables

`HashOps T K V` is the interface of a table `T` from keys `K` to values `V` that is created with
a declared maximum number of elements: find, remove, and enter, which stores a value under a
key, reports whether the key was there before, and fails (`none`) when there is no room.
`HashSpec` says that such a table is a finite map which can hold at least its declared maximum.
`Ref` is an association list that meets it.
-/

namespace PostFga

structure HashOps (T K V : Type) where
  create : Nat → T
  maxSize : T → Nat
  numEntries : T → Nat
  find : T → K → Option V
  remove : T → K → T
  enter : T → K → V → Option (T × Bool)

structure HashSpec {T K V : Type} (H : HashOps T K V) : Prop where
  find_create : ∀ n k, H.find (H.create n) k = none
  maxSize_create : ∀ n, H.maxSize (H.create n) = n
  find_remove_self : ∀ t k, H.find (H.remove t k) k = none
  find_remove_ne : ∀ t k k', k' ≠ k → H.find (H.remove t k) k' = H.find t k'
  maxSize_remove : ∀ t k, H.maxSize (H.remove t k) = H.maxSize t
  find_enter_self : ∀ t k v t' b, H.enter t k v = some (t', b) → H.find t' k = some v
  find_enter_ne : ∀ t k v t' b k', H.enter t k v = some (t', b) → k' ≠ k → H.find t' k' = H.find t k'
  enter_found : ∀ t k v t' b, H.enter t k v = some (t', b) → b = (H.find t k).isSome
  maxSize_enter : ∀ t k v t' b, H.enter t k v = some (t', b) → H.maxSize t' = H.maxSize t
  enter_room : ∀ t k v, H.numEntries t < H.maxSize t → (H.enter t k v).isSome
  /-- `numEntries` counts the keys. -/
  keys : ∀ t, ∃ ks : List K, ks.Nodup ∧ (∀ k, k ∈ ks ↔ (H.find t k).isSome) ∧ ks.length = H.numEntries t

namespace HashSpec
variable {T K V : Type} {H : HashOps T K V}

/-- A table whose keys can be told apart by a number below `n` has at most `n` elements. -/
theorem numEntries_le (S : HashSpec H) (t : T) (n : Nat) (f : V → Nat)
    (hlt : ∀ k v, H.find t k = some v → f v < n)
    (hinj : ∀ k k' v v', H.find t k = some v → H.find t k' = some v' → f v = f v' → k = k') :
    H.numEntries t ≤ n := by
  obtain ⟨ks, hnd, hmem, hlen⟩ := S.keys t
  let g : K → Nat := fun k => ((H.find t k).map f).getD 0
  have hg : ∀ k ∈ ks, ∃ v, H.find t k = some v ∧ g k = f v := by
    intro k hk
    obtain ⟨v, hv⟩ := Option.isSome_iff_exists.1 ((hmem k).1 hk)
    exact ⟨v, hv, by simp [g, hv]⟩
  have hnd' : (ks.map g).Nodup := by
    refine List.Nodup.map_on ?_ hnd
    intro k hk k' hk' e
    obtain ⟨v, hv, ev⟩ := hg k hk
    obtain ⟨v', hv', ev'⟩ := hg k' hk'
    exact hinj k k' v v' hv hv' (by rw [← ev, ← ev', e])
  have hsub : ks.map g ⊆ List.range n := by
    intro x hx
    obtain ⟨k, hk, rfl⟩ := List.mem_map.1 hx
    obtain ⟨v, hv, ev⟩ := hg k hk
    exact List.mem_range.2 (ev ▸ hlt k v hv)
  have := (hnd'.subperm hsub).length_le
  simpa [hlen] using this

end HashSpec

/-! ## A reference table -/

namespace HashTable
variable {K V : Type} [DecidableEq K]

structure Ref (K V : Type) where
  entries : List (K × V)
  maxSize : Nat

def Ref.find (t : Ref K V) (k : K) : Option V := t.entries.lookup k

def Ref.numEntries (t : Ref K V) : Nat := (t.entries.map Prod.fst).dedup.length

def Ref.remove (t : Ref K V) (k : K) : Ref K V :=
  { t with entries := t.entries.filter (fun e => e.1 != k) }

def Ref.enter (t : Ref K V) (k : K) (v : V) : Option (Ref K V × Bool) :=
  if (t.find k).isSome || t.numEntries < t.maxSize then
    some ({ t.remove k with entries := (k, v) :: (t.remove k).entries }, (t.find k).isSome)
  else none

/-- The operations of `Ref`. -/
def ref (K V : Type) [DecidableEq K] : HashOps (Ref K V) K V where
  create n := ⟨[], n⟩
  maxSize t := t.maxSize
  numEntries := Ref.numEntries
  find := Ref.find
  remove := Ref.remove
  enter := Ref.enter

theorem lookup_filter_self (l : List (K × V)) (k : K) :
    (l.filter (fun e => e.1 != k)).lookup k = none := by
  rw [List.lookup_eq_none_iff]
  intro e he
  have hne : e.1 ≠ k := bne_iff_ne.1 (List.mem_filter.1 he).2
  exact bne_iff_ne.2 (Ne.symm hne)

theorem lookup_filter_ne (l : List (K × V)) (k k' : K) (h : k' ≠ k) :
    (l.filter (fun e => e.1 != k)).lookup k' = l.lookup k' := by
  induction l with
  | nil => rfl
  | cons e l ih =>
    obtain ⟨a, v⟩ := e
    by_cases ha : a = k
    · subst ha
      have hk : (k' == a) = false := beq_eq_false_iff_ne.2 h
      simp [List.lookup_cons, hk, ih]
    · simp only [List.filter_cons, bne_iff_ne, ne_eq, ha, not_false_eq_true, if_true,
        List.lookup_cons, ih]

theorem Ref.mem_keys (t : Ref K V) (k : K) : k ∈ t.entries.map Prod.fst ↔ (t.find k).isSome := by
  unfold Ref.find
  rw [← not_iff_not, Option.not_isSome_iff_eq_none, List.lookup_eq_none_iff]
  simp only [List.mem_map, not_exists, not_and, bne_iff_ne, ne_eq]
  exact ⟨fun h e he hk => h e he hk.symm, fun h e he hk => h e he hk.symm⟩

theorem ref_spec : HashSpec (ref K V) where
  find_create _ _ := rfl
  maxSize_create _ := rfl
  find_remove_self t k := lookup_filter_self t.entries k
  find_remove_ne t k k' h := lookup_filter_ne t.entries k k' h
  maxSize_remove _ _ := rfl
  find_enter_self t k v t' b h := by
    simp only [ref, Ref.enter] at h
    split at h
    · cases h; simp [ref, Ref.find]
    · cases h
  find_enter_ne t k v t' b k' h hne := by
    simp only [ref, Ref.enter] at h
    split at h
    · cases h
      simp only [ref, Ref.find, Ref.remove, List.lookup_cons, beq_eq_false_iff_ne.2 hne]
      exact lookup_filter_ne t.entries k k' hne
    · cases h
  enter_found t k v t' b h := by
    simp only [ref, Ref.enter] at h
    split at h
    · cases h; rfl
    · cases h
  maxSize_enter t k v t' b h := by
    simp only [ref, Ref.enter] at h
    split at h
    · cases h; rfl
    · cases h
  enter_room t k v h := by
    have h' : t.numEntries < t.maxSize := h
    simp [ref, Ref.enter, h']
  keys t := ⟨(t.entries.map Prod.fst).dedup, List.nodup_dedup _,
    fun k => List.mem_dedup.trans (t.mem_keys k), rfl⟩

end HashTable

end PostFga
