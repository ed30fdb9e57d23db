import Mathlib.Data.Fin.Basic
import PostFga.Cache.L2
/-
# The per-backend L1 cache (`cache_l1.h`)

A 2-way set-associative array; `victim` is the way to evict next.

| here | there |
| --- | --- |
| `FgaL1Entry`, `FgaL1Set`, `FgaL1Cache` | `:33`–`:52`. Only `l1_plru_access` (`:82`) and the zeroing of `l1_startup` write `victim`, so it is a way number |
| `l1HashToSet`, `l1KeyEquals`   | `:60`, `:70` |
| `l1PlruAccess`, `l1PlruVictim` | `:82`, `:88` |
| `l1LookupLoop`, `l1Lookup`     | the `for` over the ways of `l1_lookup` (`:126`) |
| `l1StoreLoop`, `l1Store`       | the `for` over the ways of `l1_store` (`:174`) and the code after it; `empty_slot = -1` is `none` |
| `l1Startup`                    | `l1_startup` (`:96`) |
| `l1InvalidateAll`, `l1InvalidateByGeneration` | `:227`, `:251` |

`expires_at_ms` is a `uint64_t`, the caller's clock a signed `TimestampTz`: the store and the
expiry test convert (`:203`, `:146`). The cache exists in every backend (`l1_startup` runs before
the fork), so the NULL guards are not modelled.
-/

namespace PostFga

structure FgaL1Entry where
  valid : Bool
  allowed : Bool
  globalGen : UInt16
  expiresAtMs : UInt64
  key : FgaAclCacheKey
deriving DecidableEq, Repr

structure FgaL1Set where
  ways : Fin 2 → FgaL1Entry
  victim : Fin 2

structure FgaL1Cache where
  sets : Nat → FgaL1Set

def FGA_L1_NUM_SETS : UInt64 := (1 : UInt64) <<< 14

def l1HashToSet (key : FgaAclCacheKey) : Nat := (key.low &&& (FGA_L1_NUM_SETS - 1)).toNat

def l1KeyEquals (a b : FgaAclCacheKey) : Bool := a.low == b.low && a.high == b.high

def FgaL1Set.setWay (s : FgaL1Set) (i : Fin 2) (e : FgaL1Entry) : FgaL1Set :=
  { s with ways := Function.update s.ways i e }

def FgaL1Cache.setSet (c : FgaL1Cache) (i : Nat) (s : FgaL1Set) : FgaL1Cache :=
  ⟨Function.update c.sets i s⟩

/-- The way accessed is hot, the other one is the next victim (`way ^ 1`). -/
def l1PlruAccess (s : FgaL1Set) (way : Fin 2) : FgaL1Set := { s with victim := 1 - way }

def l1PlruVictim (s : FgaL1Set) : Fin 2 := s.victim

/-- The ways in the order the loops visit them. -/
def l1Ways : List (Fin 2) := [0, 1]

def l1LookupLoop (key : FgaAclCacheKey) (curGeneration : UInt16) (nowMs : TimestampTz) :
    List (Fin 2) → FgaL1Set → Option Bool × FgaL1Set
  | [], s => (none, s)
  | i :: is, s =>
    let e := s.ways i
    if !e.valid then l1LookupLoop key curGeneration nowMs is s
    else if !l1KeyEquals e.key key then l1LookupLoop key curGeneration nowMs is s
    else if e.expiresAtMs ≤ nowMs.toUInt64 then (none, s.setWay i { e with valid := false })
    else if e.globalGen ≠ curGeneration then (none, s.setWay i { e with valid := false })
    else (some e.allowed, l1PlruAccess s i)

def l1Lookup (c : FgaL1Cache) (key : FgaAclCacheKey) (curGeneration : UInt16) (nowMs : TimestampTz) :
    Option Bool × FgaL1Cache :=
  let r := l1LookupLoop key curGeneration nowMs l1Ways (c.sets (l1HashToSet key))
  (r.1, c.setSet (l1HashToSet key) r.2)

def l1StoreLoop (key : FgaAclCacheKey) (generation : UInt16) (expiresAtMs : TimestampTz)
    (allowed : Bool) : List (Fin 2) → Option (Fin 2) → FgaL1Set → FgaL1Set
  | [], emptySlot, s =>
    let target := emptySlot.getD (l1PlruVictim s)
    let e : FgaL1Entry := { valid := true, key := key, allowed := allowed,
                            expiresAtMs := expiresAtMs.toUInt64, globalGen := generation }
    l1PlruAccess (s.setWay target e) target
  | i :: is, emptySlot, s =>
    let e := s.ways i
    if !e.valid then
      l1StoreLoop key generation expiresAtMs allowed is (emptySlot.or (some i)) s
    else if l1KeyEquals e.key key then
      let e := { e with allowed := allowed, expiresAtMs := expiresAtMs.toUInt64, globalGen := generation }
      l1PlruAccess (s.setWay i e) i
    else l1StoreLoop key generation expiresAtMs allowed is emptySlot s

def l1Store (c : FgaL1Cache) (key : FgaAclCacheKey) (generation : UInt16) (expiresAtMs : TimestampTz)
    (allowed : Bool) : FgaL1Cache :=
  c.setSet (l1HashToSet key)
    (l1StoreLoop key generation expiresAtMs allowed l1Ways none (c.sets (l1HashToSet key)))

/-- `palloc0`: every way invalid, every victim way 0. -/
def l1Startup : FgaL1Cache := ⟨fun _ => ⟨fun _ => ⟨false, false, 0, 0, ⟨0, 0, 0, 0, 0⟩⟩, 0⟩⟩

/-- The loop over the sets covers those that a key can select. -/
def l1InvalidateAll (c : FgaL1Cache) : FgaL1Cache :=
  ⟨fun n =>
    if n < FGA_L1_NUM_SETS.toNat then
      { ways := fun w => { (c.sets n).ways w with valid := false }, victim := 0 }
    else c.sets n⟩

def l1InvalidateByGeneration (c : FgaL1Cache) (oldGeneration : UInt16) : FgaL1Cache :=
  ⟨fun n =>
    if n < FGA_L1_NUM_SETS.toNat then
      { c.sets n with ways := fun w =>
          let e := (c.sets n).ways w
          if e.valid && e.globalGen == oldGeneration then { e with valid := false } else e }
    else c.sets n⟩

theorem l1HashToSet_lt (key : FgaAclCacheKey) : l1HashToSet key < FGA_L1_NUM_SETS.toNat := by
  have h : (key.low &&& (FGA_L1_NUM_SETS - 1)).toNat ≤ (FGA_L1_NUM_SETS - 1).toNat := by
    rw [UInt64.toNat_and]
    exact Nat.and_le_right
  exact Nat.lt_of_le_of_lt h (by decide)

/-! ## What a set, and the cache, hold -/

/-- Some valid way of the set answers for `key`. -/
def L1SetHolds (s : FgaL1Set) (key : FgaAclCacheKey) (v : Bool) (e : UInt64) (g : UInt16) : Prop :=
  ∃ i, (s.ways i).valid = true ∧ l1KeyEquals (s.ways i).key key = true ∧
    (s.ways i).allowed = v ∧ (s.ways i).expiresAtMs = e ∧ (s.ways i).globalGen = g

/-- No two valid ways of a set hold one key. -/
def L1SetInv (s : FgaL1Set) : Prop :=
  ∀ i j, i ≠ j → (s.ways i).valid = true → (s.ways j).valid = true →
    l1KeyEquals (s.ways i).key (s.ways j).key = false

def L1Holds (c : FgaL1Cache) (key : FgaAclCacheKey) : Bool → UInt64 → UInt16 → Prop :=
  L1SetHolds (c.sets (l1HashToSet key)) key

def L1Inv (c : FgaL1Cache) : Prop := ∀ n, L1SetInv (c.sets n)

/-- Non-negative times compare the same signed and unsigned. -/
theorem toUInt64_le_iff {a b : TimestampTz} (ha : 0 ≤ a) (hb : 0 ≤ b) :
    a.toUInt64 ≤ b.toUInt64 ↔ a ≤ b := by
  have key : ∀ x : Int64, 0 ≤ x.toInt → (x.toUInt64.toNat : Int) = x.toInt := by
    intro x hx
    change 0 ≤ x.toBitVec.toInt at hx
    change (x.toBitVec.toNat : Int) = x.toBitVec.toInt
    rw [BitVec.toInt_eq_toNat_cond] at hx ⊢
    split at hx <;> split <;> omega
  rw [Int64.le_iff_toInt_le] at *
  rw [UInt64.le_iff_toNat_le]
  have h1 := key a (by simpa using ha)
  have h2 := key b (by simpa using hb)
  omega

theorem l1KeyEquals_iff {a b : FgaAclCacheKey} :
    l1KeyEquals a b = true ↔ a.low = b.low ∧ a.high = b.high := by simp [l1KeyEquals]

theorem l1KeyEquals_refl (a : FgaAclCacheKey) : l1KeyEquals a a = true := by simp [l1KeyEquals]

theorem l1KeyEquals_comm (a b : FgaAclCacheKey) : l1KeyEquals a b = l1KeyEquals b a := by
  rw [Bool.eq_iff_iff, l1KeyEquals_iff, l1KeyEquals_iff]
  exact ⟨fun h => ⟨h.1.symm, h.2.symm⟩, fun h => ⟨h.1.symm, h.2.symm⟩⟩

theorem l1KeyEquals_trans {a b c : FgaAclCacheKey} (h : l1KeyEquals a b = true)
    (h' : l1KeyEquals b c = true) : l1KeyEquals a c = true := by
  rw [l1KeyEquals_iff] at *
  exact ⟨h.1.trans h'.1, h.2.trans h'.2⟩

theorem l1HashToSet_congr {a b : FgaAclCacheKey} (h : l1KeyEquals a b = true) :
    l1HashToSet a = l1HashToSet b := by
  rw [l1HashToSet, l1HashToSet, (l1KeyEquals_iff.1 h).1]

/-! ### Lookup -/

/-- Dropping a way takes nothing in. -/
theorem invalidate_holds {s : FgaL1Set} (i : Fin 2) {key : FgaAclCacheKey} {v : Bool} {e : UInt64}
    {g : UInt16} (h : L1SetHolds (s.setWay i { s.ways i with valid := false }) key v e g) :
    L1SetHolds s key v e g := by
  obtain ⟨j, hv, hrest⟩ := h
  by_cases hj : j = i
  · subst hj; simp [FgaL1Set.setWay] at hv
  · simp only [FgaL1Set.setWay, Function.update_of_ne hj] at hv hrest
    exact ⟨j, hv, hrest⟩

theorem invalidate_inv {s : FgaL1Set} (i : Fin 2) (h : L1SetInv s) :
    L1SetInv (s.setWay i { s.ways i with valid := false }) := by
  intro a b hab ha hb
  have hne : ∀ j, ((s.setWay i { s.ways i with valid := false }).ways j).valid = true → j ≠ i := by
    rintro j hv rfl
    simp [FgaL1Set.setWay] at hv
  simp only [FgaL1Set.setWay, Function.update_of_ne (hne a ha), Function.update_of_ne (hne b hb)]
    at ha hb ⊢
  exact h a b hab ha hb

theorem l1LookupLoop_spec (key : FgaAclCacheKey) (g : UInt16) (now : TimestampTz) (is : List (Fin 2))
    {s : FgaL1Set} (h : L1SetInv s) :
    L1SetInv (l1LookupLoop key g now is s).2 ∧
      (∀ k v e g', L1SetHolds (l1LookupLoop key g now is s).2 k v e g' → L1SetHolds s k v e g') ∧
      ∀ v, (l1LookupLoop key g now is s).1 = some v →
        ∃ e, L1SetHolds s key v e g ∧ ¬ e ≤ now.toUInt64 := by
  induction is with
  | nil => exact ⟨h, fun _ _ _ _ => id, fun v hv => by simp [l1LookupLoop] at hv⟩
  | cons i is ih =>
    simp only [l1LookupLoop]
    split
    · exact ih
    split
    · exact ih
    split
    · exact ⟨invalidate_inv i h, fun _ _ _ _ => invalidate_holds i, fun v hv => by cases hv⟩
    split
    · exact ⟨invalidate_inv i h, fun _ _ _ _ => invalidate_holds i, fun v hv => by cases hv⟩
    · rename_i hval hkey hexp hgen
      simp only [Bool.not_eq_eq_eq_not, Bool.not_true, Bool.not_eq_false, ne_eq, Decidable.not_not]
        at hval hkey hgen
      refine ⟨h, fun _ _ _ _ => id, fun v hv => ⟨_, ⟨i, hval, hkey, ?_, rfl, hgen⟩, hexp⟩⟩
      exact Option.some.inj hv

/-! ### Store -/

/-- Putting an entry for `key` into a set keeps the keys apart when no other way answers for it. -/
theorem setWay_spec {s : FgaL1Set} (h : L1SetInv s) (i : Fin 2) (key : FgaAclCacheKey) (ent : FgaL1Entry)
    (hval : ent.valid = true) (hkey : l1KeyEquals ent.key key = true)
    (hother : ∀ j, j ≠ i → (s.ways j).valid = true → l1KeyEquals (s.ways j).key key = false) :
    L1SetInv (s.setWay i ent) ∧ L1SetHolds (s.setWay i ent) key ent.allowed ent.expiresAtMs ent.globalGen ∧
    ∀ k v e g, L1SetHolds (s.setWay i ent) k v e g →
      (l1KeyEquals key k = true ∧ v = ent.allowed ∧ e = ent.expiresAtMs ∧ g = ent.globalGen) ∨
      (l1KeyEquals key k = false ∧ L1SetHolds s k v e g) := by
  have hne : ∀ j, j ≠ i → (s.setWay i ent).ways j = s.ways j := fun j hj => by
    simp [FgaL1Set.setWay, hj]
  have hself : (s.setWay i ent).ways i = ent := by simp [FgaL1Set.setWay]
  refine ⟨?_, ⟨i, by rw [hself]; exact ⟨hval, hkey, rfl, rfl, rfl⟩⟩, ?_⟩
  · have key0 : ∀ j, j ≠ i → (s.ways j).valid = true → l1KeyEquals ent.key (s.ways j).key = false := by
      intro j hj hv
      refine Bool.eq_false_iff.2 fun he => ?_
      have hjk := l1KeyEquals_trans ((l1KeyEquals_comm _ _).trans he) hkey
      rw [hother j hj hv] at hjk; cases hjk
    intro a b hab ha hb
    by_cases hai : a = i
    · subst hai
      rw [hne b (Ne.symm hab)] at hb ⊢
      rw [hself]; exact key0 b (Ne.symm hab) hb
    · rw [hne a hai] at ha ⊢
      by_cases hbi : b = i
      · subst hbi
        rw [hself, l1KeyEquals_comm]; exact key0 a hai ha
      · rw [hne b hbi] at hb ⊢
        exact h a b hab ha hb
  · rintro k v e g ⟨j, hv, hk, ha, he, hg⟩
    by_cases hj : j = i
    · subst hj
      rw [hself] at hk ha he hg
      left
      exact ⟨l1KeyEquals_trans ((l1KeyEquals_comm _ _).trans hkey) hk, ha.symm, he.symm, hg.symm⟩
    · rw [hne j hj] at hv hk ha he hg
      right
      refine ⟨Bool.eq_false_iff.2 fun hkk => ?_, j, hv, hk, ha, he, hg⟩
      have := l1KeyEquals_trans hk ((l1KeyEquals_comm _ _).trans hkk)
      rw [hother j hj hv] at this; cases this

/-- The loop over ways `is` when every way already passed is not one of `key`'s: `empty` is one of
the passed ways if it is set. -/
theorem l1StoreLoop_spec (key : FgaAclCacheKey) (g : UInt16) (exp : TimestampTz) (allowed : Bool)
    (is : List (Fin 2)) (empty : Option (Fin 2)) {s : FgaL1Set} (h : L1SetInv s)
    (hpassed : ∀ j, j ∉ is → (s.ways j).valid = true → l1KeyEquals (s.ways j).key key = false) :
    L1SetInv (l1StoreLoop key g exp allowed is empty s) ∧
      L1SetHolds (l1StoreLoop key g exp allowed is empty s) key allowed exp.toUInt64 g ∧
      ∀ k v e g', L1SetHolds (l1StoreLoop key g exp allowed is empty s) k v e g' →
        (l1KeyEquals key k = true ∧ v = allowed ∧ e = exp.toUInt64 ∧ g' = g) ∨
        (l1KeyEquals key k = false ∧ L1SetHolds s k v e g') := by
  induction is generalizing empty with
  | nil =>
    exact setWay_spec h (empty.getD (l1PlruVictim s)) key _ rfl (l1KeyEquals_refl key)
      fun j _ hv => hpassed j (by simp) hv
  | cons i is ih =>
    simp only [l1StoreLoop]
    split
    · rename_i hval
      refine ih _ fun j hj hv => ?_
      by_cases hji : j = i
      · subst hji; simp [hv] at hval
      · exact hpassed j (by simp [hji, hj]) hv
    split
    · rename_i hval hkey
      refine setWay_spec h i key _ (by simpa using hval) hkey fun j hj hv => ?_
      -- the set's invariant: the other way cannot hold the key as well
      have hij := h i j (Ne.symm hj) (by simpa using hval) hv
      refine Bool.eq_false_iff.2 fun hjk => ?_
      have := l1KeyEquals_trans hkey ((l1KeyEquals_comm _ _).trans hjk)
      rw [hij] at this; cases this
    · rename_i hval hkey
      refine ih _ fun j hj hv => ?_
      by_cases hji : j = i
      · subst hji; simpa using hkey
      · exact hpassed j (by simp [hji, hj]) hv

/-! ### The cache -/

theorem mem_l1Ways : ∀ j : Fin 2, j ∈ l1Ways := by decide

theorem l1Inv_startup : L1Inv l1Startup := fun _ _ _ _ h => by simp [l1Startup] at h

theorem l1Startup_holds (k : FgaAclCacheKey) (v : Bool) (e : UInt64) (g : UInt16) :
    ¬ L1Holds l1Startup k v e g := by
  rintro ⟨i, hv, -⟩; simp [l1Startup] at hv

theorem L1Inv.setSet {c : FgaL1Cache} (h : L1Inv c) {n : Nat} {s : FgaL1Set} (hs : L1SetInv s) :
    L1Inv (c.setSet n s) := by
  intro m
  by_cases hm : m = n
  · subst hm
    simpa only [FgaL1Cache.setSet, Function.update_self] using hs
  · simpa only [FgaL1Cache.setSet, Function.update_of_ne hm] using h m

theorem l1Holds_setSet {c : FgaL1Cache} {n : Nat} {s : FgaL1Set} {k : FgaAclCacheKey} (hk : l1HashToSet k = n) :
    L1Holds (c.setSet n s) k = L1SetHolds s k := by
  simp only [L1Holds, FgaL1Cache.setSet, hk, Function.update_self]

theorem l1Holds_setSet_of_ne {c : FgaL1Cache} {n : Nat} {s : FgaL1Set} {k : FgaAclCacheKey}
    (hk : l1HashToSet k ≠ n) : L1Holds (c.setSet n s) k = L1Holds c k := by
  simp only [L1Holds, FgaL1Cache.setSet, Function.update_of_ne hk]

/-- **`l1_lookup`** takes nothing in, and a hit is an unexpired value of the current generation. -/
theorem l1Lookup_spec {c : FgaL1Cache} (h : L1Inv c) (key : FgaAclCacheKey) (g : UInt16)
    (now : TimestampTz) :
    L1Inv (l1Lookup c key g now).2 ∧
    (∀ k v e g', L1Holds (l1Lookup c key g now).2 k v e g' → L1Holds c k v e g') ∧
    ∀ v, (l1Lookup c key g now).1 = some v → ∃ e, L1Holds c key v e g ∧ ¬ e ≤ now.toUInt64 := by
  obtain ⟨hinv, hsub, hhit⟩ := l1LookupLoop_spec key g now l1Ways (h (l1HashToSet key))
  refine ⟨h.setSet hinv, fun k v e g' hk => ?_, hhit⟩
  unfold l1Lookup at hk
  by_cases hn : l1HashToSet k = l1HashToSet key
  · rw [l1Holds_setSet hn] at hk
    rw [L1Holds, hn]
    exact hsub k v e g' hk
  · rwa [l1Holds_setSet_of_ne hn] at hk

/-- **`l1_store`** makes the cache hold the value for the key, in one way only; for every other
key it takes nothing in. -/
theorem l1Store_spec {c : FgaL1Cache} (h : L1Inv c) (key : FgaAclCacheKey) (g : UInt16)
    (exp : TimestampTz) (allowed : Bool) :
    L1Inv (l1Store c key g exp allowed) ∧
    L1Holds (l1Store c key g exp allowed) key allowed exp.toUInt64 g ∧
    ∀ k v e g', L1Holds (l1Store c key g exp allowed) k v e g' →
      (l1KeyEquals key k = true ∧ v = allowed ∧ e = exp.toUInt64 ∧ g' = g) ∨
      (l1KeyEquals key k = false ∧ L1Holds c k v e g') := by
  obtain ⟨hinv, hself, hsub⟩ := l1StoreLoop_spec key g exp allowed l1Ways none
    (h (l1HashToSet key)) (fun j hj => absurd (mem_l1Ways j) hj)
  unfold l1Store
  refine ⟨h.setSet hinv, ?_, fun k v e g' hk => ?_⟩
  · rw [l1Holds_setSet rfl]
    exact hself
  · by_cases hn : l1HashToSet k = l1HashToSet key
    · rw [l1Holds_setSet hn] at hk
      rw [L1Holds, hn]
      exact hsub k v e g' hk
    · rw [l1Holds_setSet_of_ne hn] at hk
      refine Or.inr ⟨Bool.eq_false_iff.2 fun he => hn ?_, hk⟩
      exact (l1HashToSet_congr he).symm

end PostFga
