import PostFga.Cache.L1
import PostFga.Lib.Lru
import PostFga.Lib.Simulation
/-
# A set of the L1 cache is a list in the order of use

`LruSets` is what the cache is for: for each set the keys it holds, at most two, the one stored or
found last first. `l1Recency` reads that list off a set of `cache_l1.h`: the way that is not the
victim was used last. A lookup drops ways and leaves the victim bit alone, a store fills an empty
way before it evicts; the list is the same all along, for times and expiries that are not negative
(the field is unsigned, the clock signed).
-/

namespace PostFga

open Refinement

/-- What `l1_key_equals` compares. -/
abbrev L1Name := UInt64 × UInt64

def l1Name (key : FgaAclCacheKey) : L1Name := (key.low, key.high)

structure L1Record where
  allowed : Bool
  expiresAtMs : TimestampTz
  globalGen : UInt16
deriving DecidableEq, Repr

inductive L1Op where
  | store (key : FgaAclCacheKey) (generation : UInt16) (expiresAtMs : TimestampTz) (allowed : Bool)
  | lookup (key : FgaAclCacheKey) (curGeneration : UInt16) (nowMs : TimestampTz)
  | invalidateAll
  | invalidateByGeneration (oldGeneration : UInt16)
  deriving DecidableEq, Repr

/-- The set a call is about, if it is about one. -/
def L1Op.set? : L1Op → Option Nat
  | .store key .. | .lookup key .. => some (l1HashToSet key)
  | .invalidateAll | .invalidateByGeneration _ => none

def L1Op.Nonneg : L1Op → Prop
  | .store _ _ expiresAtMs _ => 0 ≤ expiresAtMs
  | .lookup _ _ nowMs => 0 ≤ nowMs
  | .invalidateAll | .invalidateByGeneration _ => True

instance : DecidablePred L1Op.Nonneg
  | .store _ _ expiresAtMs _ => inferInstanceAs (Decidable (0 ≤ expiresAtMs))
  | .lookup _ _ nowMs => inferInstanceAs (Decidable (0 ≤ nowMs))
  | .invalidateAll | .invalidateByGeneration _ => inferInstanceAs (Decidable True)

/-- Only a lookup returns a value. -/
def l1Call (c : FgaL1Cache) : L1Op → Option Bool × FgaL1Cache
  | .store key generation expiresAtMs allowed => (none, l1Store c key generation expiresAtMs allowed)
  | .lookup key curGeneration nowMs => l1Lookup c key curGeneration nowMs
  | .invalidateAll => (none, l1InvalidateAll c)
  | .invalidateByGeneration oldGeneration => (none, l1InvalidateByGeneration c oldGeneration)

/-! ## The map with an order of use -/

abbrev LruSets := Nat → List (L1Name × L1Record)

/-- A key that is held but expired, or of another generation, is dropped. -/
def LruSets.find (name : L1Name) (generation : UInt16) (now : TimestampTz) (l : List (L1Name × L1Record)) :
    Option Bool × List (L1Name × L1Record) :=
  match l.lookup name with
  | none => (none, l)
  | some r =>
    if now < r.expiresAtMs ∧ r.globalGen = generation then (some r.allowed, Lru.touch name r l)
    else (none, Lru.drop name l)

def LruSets.call (m : LruSets) : L1Op → Option Bool × LruSets
  | .store key generation expiresAtMs allowed =>
    let n := l1HashToSet key
    (none, Function.update m n (Lru.put 2 (l1Name key) ⟨allowed, expiresAtMs, generation⟩ (m n)))
  | .lookup key curGeneration nowMs =>
    let n := l1HashToSet key
    let r := LruSets.find (l1Name key) curGeneration nowMs (m n)
    (r.1, Function.update m n r.2)
  | .invalidateAll => (none, fun _ => [])
  | .invalidateByGeneration oldGeneration =>
    (none, fun n => (m n).filter fun p => p.2.globalGen ≠ oldGeneration)

theorem mem_of_lookup {l : List (L1Name × L1Record)} {name : L1Name} {r : L1Record}
    (h : l.lookup name = some r) : (name, r) ∈ l := by
  obtain ⟨l₁, l₂, rfl, -⟩ := List.lookup_eq_some_iff.1 h
  simp

/-- The map never holds more than two keys, nor one key twice. -/
theorem LruSets.bounded_call {m : LruSets} (h : ∀ n, Lru.Bounded 2 (m n)) (op : L1Op) (n : Nat) :
    Lru.Bounded 2 ((LruSets.call m op).2 n) := by
  have hupd : ∀ n₀ l, Lru.Bounded 2 l → Lru.Bounded 2 (Function.update m n₀ l n) := by
    intro n₀ l hl
    by_cases hn : n = n₀
    · subst hn
      rwa [Function.update_self]
    · rw [Function.update_of_ne hn]
      exact h n
  cases op with
  | store key generation expiresAtMs allowed => exact hupd _ _ (Lru.bounded_put (h _) _ _)
  | lookup key curGeneration nowMs =>
    refine hupd _ _ ?_
    simp only [LruSets.find]
    split
    · exact h _
    · rename_i r hr
      split
      · exact Lru.bounded_touch (h _) (mem_of_lookup hr)
      · exact Lru.bounded_filter (h _) _
  | invalidateAll => exact ⟨Nat.zero_le 2, List.nodup_nil⟩
  | invalidateByGeneration oldGeneration => exact Lru.bounded_filter (h n) _

/-! ## The list a set stands for -/

def l1Record (e : FgaL1Entry) : L1Name × L1Record :=
  (l1Name e.key, ⟨e.allowed, e.expiresAtMs.toInt64, e.globalGen⟩)

/-- What a way holds. -/
def l1Way (s : FgaL1Set) (i : Fin 2) : List (L1Name × L1Record) :=
  if (s.ways i).valid then [l1Record (s.ways i)] else []

/-- The victim comes last, after the way that is the next victim once it has been accessed. -/
def l1Recency (s : FgaL1Set) : List (L1Name × L1Record) :=
  l1Way s (l1PlruAccess s s.victim).victim ++ l1Way s s.victim

structure L1Rel (s : FgaL1Set) (l : List (L1Name × L1Record)) : Prop where
  recency : l1Recency s = l
  keys : L1SetInv s
  nonneg : ∀ p ∈ l, 0 ≤ p.2.expiresAtMs

/-- Way `i` is the one a loop for `key` stops at. -/
def L1Answers (s : FgaL1Set) (key : FgaAclCacheKey) (i : Fin 2) : Prop :=
  (s.ways i).valid = true ∧ l1KeyEquals (s.ways i).key key = true

theorem l1KeyEquals_iff_name {a b : FgaAclCacheKey} : l1KeyEquals a b = true ↔ l1Name a = l1Name b := by
  rw [l1KeyEquals_iff, l1Name, l1Name, Prod.mk.injEq]

theorem other_other (i : Fin 2) : 1 - (1 - i) = i := by omega

theorem other_ne (i : Fin 2) : 1 - i ≠ i := by omega

theorem eq_other {i j : Fin 2} (h : j ≠ i) : j = 1 - i := by omega

section
variable {s : FgaL1Set} {key : FgaAclCacheKey} {i : Fin 2}

theorem recency_eq : l1Recency s = l1Way s (1 - s.victim) ++ l1Way s s.victim := rfl

theorem recency_access : l1Recency (l1PlruAccess s i) = l1Way s i ++ l1Way s (1 - i) := by
  have h : l1Recency (l1PlruAccess s i) = l1Way s (1 - (1 - i)) ++ l1Way s (1 - i) := rfl
  rw [h, other_other]

theorem recency_split (i : Fin 2) :
    l1Recency s = l1Way s i ++ l1Way s (1 - i) ∨ l1Recency s = l1Way s (1 - i) ++ l1Way s i := by
  by_cases hi : s.victim = i
  · right
    rw [recency_eq, hi]
  · left
    rw [recency_eq, eq_other hi, other_other]

theorem way_of_valid (h : (s.ways i).valid = true) : l1Way s i = [l1Record (s.ways i)] := if_pos h

theorem way_of_invalid (h : (s.ways i).valid = false) : l1Way s i = [] := if_neg (by simp [h])

theorem way_setWay (e : FgaL1Entry) : l1Way (s.setWay i e) i = if e.valid then [l1Record e] else [] := by
  simp [l1Way, FgaL1Set.setWay]

theorem way_setWay_other (e : FgaL1Entry) : l1Way (s.setWay i e) (1 - i) = l1Way s (1 - i) := by
  simp [l1Way, FgaL1Set.setWay, other_ne]

/-- Nothing of `key` is in a way that does not answer for it. -/
theorem way_ne_of_not_answers (h : ¬ L1Answers s key i) : ∀ p ∈ l1Way s i, p.1 ≠ l1Name key := by
  intro p hp he
  by_cases hv : (s.ways i).valid = true
  · rw [way_of_valid hv, List.mem_singleton] at hp
    subst hp
    exact h ⟨hv, l1KeyEquals_iff_name.2 he⟩
  · rw [way_of_invalid (Bool.eq_false_iff.2 hv)] at hp
    exact absurd hp (List.not_mem_nil)

theorem L1Answers.other (h : L1SetInv s) (hi : L1Answers s key i) : ¬ L1Answers s key (1 - i) := by
  rintro ⟨hv, hk⟩
  have hij := h (1 - i) i (other_ne i) hv hi.1
  rw [l1KeyEquals_trans hk ((l1KeyEquals_comm _ _).trans hi.2)] at hij
  cases hij

theorem lookup_eq_none {l : List (L1Name × L1Record)} {name : L1Name} (h : ∀ p ∈ l, p.1 ≠ name) :
    l.lookup name = none :=
  List.lookup_eq_none_iff.2 fun p hp => by simpa using Ne.symm (h p hp)

theorem L1Answers.lookup (h : L1SetInv s) (hi : L1Answers s key i) :
    (l1Recency s).lookup (l1Name key) = some (l1Record (s.ways i)).2 := by
  have hself : (l1Way s i).lookup (l1Name key) = some (l1Record (s.ways i)).2 := by
    rw [way_of_valid hi.1, ← l1KeyEquals_iff_name.1 hi.2]
    exact List.lookup_cons_self
  have hother := lookup_eq_none (way_ne_of_not_answers (hi.other h))
  rcases recency_split (s := s) i with hr | hr <;> rw [hr, List.lookup_append, hself, hother] <;> rfl

theorem L1Answers.drop (h : L1SetInv s) (hi : L1Answers s key i) :
    Lru.drop (l1Name key) (l1Recency s) = l1Way s (1 - i) := by
  have hself : Lru.drop (l1Name key) (l1Way s i) = [] := by
    rw [way_of_valid hi.1, ← l1KeyEquals_iff_name.1 hi.2]
    exact List.filter_cons_of_neg (by simp [l1Record])
  have hother := Lru.drop_eq_self (way_ne_of_not_answers (hi.other h))
  rcases recency_split (s := s) i with hr | hr
  · rw [hr, Lru.drop_append, hself, hother, List.nil_append]
  · rw [hr, Lru.drop_append, hself, hother, List.append_nil]

theorem recency_invalidate :
    l1Recency (s.setWay i { s.ways i with valid := false }) = l1Way s (1 - i) := by
  have hself := way_setWay (s := s) (i := i) { s.ways i with valid := false }
  have hother := way_setWay_other (s := s) (i := i) { s.ways i with valid := false }
  rcases recency_split (s := s.setWay i { s.ways i with valid := false }) i with hr | hr
  · rw [hr, hself, hother]
    rfl
  · rw [hr, hself, hother]
    exact List.append_nil _

/-! ## The loops over the ways -/

theorem l1LookupLoop_answers (h : L1SetInv s) (hi : L1Answers s key i) (g : UInt16) (now : TimestampTz) :
    l1LookupLoop key g now l1Ways s =
      if (s.ways i).expiresAtMs ≤ now.toUInt64 then (none, s.setWay i { s.ways i with valid := false })
      else if (s.ways i).globalGen ≠ g then (none, s.setWay i { s.ways i with valid := false })
      else (some (s.ways i).allowed, l1PlruAccess s i) := by
  obtain rfl | rfl : i = 0 ∨ i = 1 := by omega
  · simp [l1LookupLoop, l1Ways, hi.1, hi.2]
  · have h0 := hi.other h
    by_cases hv : (s.ways 0).valid = true
    · have hk : l1KeyEquals (s.ways 0).key key = false := Bool.eq_false_iff.2 fun hk => h0 ⟨hv, hk⟩
      simp [l1LookupLoop, l1Ways, hi.1, hi.2, hv, hk]
    · simp [l1LookupLoop, l1Ways, hi.1, hi.2, hv]

theorem l1LookupLoop_none (h : ∀ i, ¬ L1Answers s key i) (g : UInt16) (now : TimestampTz) (is : List (Fin 2)) :
    l1LookupLoop key g now is s = (none, s) := by
  induction is with
  | nil => rfl
  | cons i is ih =>
    rw [l1LookupLoop]
    split
    · exact ih
    split
    · exact ih
    · rename_i hv hk
      exact absurd ⟨by simpa using hv, by simpa using hk⟩ (h i)

theorem l1StoreLoop_answers (h : L1SetInv s) (hi : L1Answers s key i) (g : UInt16) (exp : TimestampTz)
    (allowed : Bool) :
    l1StoreLoop key g exp allowed l1Ways none s =
      l1PlruAccess (s.setWay i { s.ways i with
        allowed := allowed, expiresAtMs := exp.toUInt64, globalGen := g }) i := by
  obtain rfl | rfl : i = 0 ∨ i = 1 := by omega
  · simp [l1StoreLoop, l1Ways, hi.1, hi.2]
  · have h0 := hi.other h
    by_cases hv : (s.ways 0).valid = true
    · have hk : l1KeyEquals (s.ways 0).key key = false := Bool.eq_false_iff.2 fun hk => h0 ⟨hv, hk⟩
      simp [l1StoreLoop, l1Ways, hi.1, hi.2, hv, hk]
    · simp [l1StoreLoop, l1Ways, hi.1, hi.2, hv]

/-- A key that no way holds goes to an empty way, and to the victim when there is none. -/
theorem l1StoreLoop_none (h : ∀ i, ¬ L1Answers s key i) (g : UInt16) (exp : TimestampTz) (allowed : Bool) :
    ∃ t, ((s.ways t).valid = false ∨ (t = s.victim ∧ ∀ i, (s.ways i).valid = true)) ∧
      l1StoreLoop key g exp allowed l1Ways none s =
        l1PlruAccess (s.setWay t ⟨true, allowed, g, exp.toUInt64, key⟩) t := by
  have hk : ∀ i, (s.ways i).valid = true → l1KeyEquals (s.ways i).key key = false := fun i hv =>
    Bool.eq_false_iff.2 fun hk => h i ⟨hv, hk⟩
  cases h0 : (s.ways 0).valid with
  | false =>
    refine ⟨0, Or.inl h0, ?_⟩
    cases h1 : (s.ways 1).valid with
    | false => simp [l1StoreLoop, l1Ways, h0, h1]
    | true => simp [l1StoreLoop, l1Ways, h0, h1, hk 1 h1]
  | true =>
    cases h1 : (s.ways 1).valid with
    | false => exact ⟨1, Or.inl h1, by simp [l1StoreLoop, l1Ways, h0, h1, hk 0 h0]⟩
    | true =>
      have hv : ∀ i, (s.ways i).valid = true := by
        intro i
        obtain rfl | rfl : i = 0 ∨ i = 1 := by omega
        · exact h0
        · exact h1
      exact ⟨s.victim, Or.inr ⟨rfl, hv⟩,
        by simp [l1StoreLoop, l1Ways, h0, h1, hk 0 h0, hk 1 h1, l1PlruVictim]⟩

end

/-! ## One call on one set -/

section
variable {s : FgaL1Set} {l : List (L1Name × L1Record)}

/-- **Lookup**: the answer and the order of use. -/
theorem L1Rel.find (h : L1Rel s l) (key : FgaAclCacheKey) (g : UInt16) {now : TimestampTz} (hnow : 0 ≤ now) :
    (l1LookupLoop key g now l1Ways s).1 = (LruSets.find (l1Name key) g now l).1 ∧
      L1Rel (l1LookupLoop key g now l1Ways s).2 (LruSets.find (l1Name key) g now l).2 := by
  have hkeys := (l1LookupLoop_spec key g now l1Ways h.keys).1
  obtain ⟨rfl, hinv, hnn⟩ := h
  by_cases hans : ∃ i, L1Answers s key i
  · obtain ⟨i, hi⟩ := hans
    have hlookup := hi.lookup hinv
    have hdrop := hi.drop hinv
    have hsub : ∀ p ∈ l1Way s (1 - i), 0 ≤ p.2.expiresAtMs := fun p hp =>
      hnn p (List.mem_filter.1 (hdrop ▸ hp)).1
    have hexp : 0 ≤ (s.ways i).expiresAtMs.toInt64 := hnn _ (mem_of_lookup hlookup)
    have hle : (s.ways i).expiresAtMs ≤ now.toUInt64 ↔ ¬ now < (s.ways i).expiresAtMs.toInt64 := by
      rw [Int64.not_lt, ← toUInt64_le_iff hexp hnow, UInt64.toUInt64_toInt64]
    rw [l1LookupLoop_answers hinv hi] at hkeys ⊢
    simp only [LruSets.find, hlookup, hdrop, Lru.touch]
    by_cases hdead : (s.ways i).expiresAtMs ≤ now.toUInt64
    · rw [if_pos hdead] at hkeys ⊢
      rw [if_neg fun hc => hle.1 hdead hc.1]
      exact ⟨rfl, recency_invalidate, hkeys, hsub⟩
    by_cases hgen : (s.ways i).globalGen ≠ g
    · rw [if_neg hdead, if_pos hgen] at hkeys ⊢
      rw [if_neg fun hc => hgen hc.2]
      exact ⟨rfl, recency_invalidate, hkeys, hsub⟩
    · rw [if_neg hdead, if_neg hgen] at hkeys ⊢
      have hlive : now < (s.ways i).expiresAtMs.toInt64 := Decidable.not_not.1 (mt hle.2 hdead)
      rw [if_pos ⟨hlive, Decidable.not_not.1 hgen⟩]
      refine ⟨rfl, ?_, hkeys, ?_⟩
      · rw [recency_access, way_of_valid hi.1, ← l1KeyEquals_iff_name.1 hi.2]
        rfl
      · intro p hp
        rcases List.mem_cons.1 hp with rfl | hp
        · exact hexp
        · exact hsub p hp
  · have hans : ∀ i, ¬ L1Answers s key i := fun i hi => hans ⟨i, hi⟩
    have hnone : (l1Recency s).lookup (l1Name key) = none := by
      rw [recency_eq, List.lookup_append, lookup_eq_none (way_ne_of_not_answers (hans _)),
        lookup_eq_none (way_ne_of_not_answers (hans _))]
      rfl
    rw [l1LookupLoop_none hans, LruSets.find, hnone]
    exact ⟨rfl, rfl, hinv, hnn⟩

theorem length_way_lt (s : FgaL1Set) (i : Fin 2) : (l1Way s i).length < 2 := by
  rw [l1Way]
  split <;> simp

/-- A store of a key that a way holds. -/
theorem L1Answers.put {key : FgaAclCacheKey} {i : Fin 2} (hi : L1Answers s key i) (hinv : L1SetInv s) (g : UInt16)
    (exp : TimestampTz) (allowed : Bool) : l1Recency (l1StoreLoop key g exp allowed l1Ways none s) =
      Lru.put 2 (l1Name key) ⟨allowed, exp, g⟩ (l1Recency s) := by
  have hdrop := hi.drop hinv
  rw [l1StoreLoop_answers hinv hi, recency_access, way_setWay, way_setWay_other,
    Lru.put_eq_touch (by rw [hdrop]; exact length_way_lt s _), Lru.touch, hdrop, ← l1KeyEquals_iff_name.1 hi.2]
  simp [hi.1, l1Record]

/-- A store of a key that no way holds. -/
theorem recency_put {key : FgaAclCacheKey} (hans : ∀ i, ¬ L1Answers s key i) (g : UInt16) (exp : TimestampTz)
    (allowed : Bool) : l1Recency (l1StoreLoop key g exp allowed l1Ways none s) =
      Lru.put 2 (l1Name key) ⟨allowed, exp, g⟩ (l1Recency s) := by
  obtain ⟨t, ht, hloop⟩ := l1StoreLoop_none hans g exp allowed
  have hnew : l1Way (s.setWay t ⟨true, allowed, g, exp.toUInt64, key⟩) t = [(l1Name key, ⟨allowed, exp, g⟩)] := by
    rw [way_setWay]
    simp [l1Record]
  rw [hloop, recency_access, hnew, way_setWay_other]
  have hne : ∀ p ∈ l1Recency s, p.1 ≠ l1Name key := by
    intro p hp
    rcases List.mem_append.1 hp with hp | hp <;> exact way_ne_of_not_answers (hans _) p hp
  rcases ht with ht | ⟨rfl, hv⟩
  · -- an empty way: what the other one holds stays
    have hrec : l1Recency s = l1Way s (1 - t) := by
      rcases recency_split (s := s) t with hr | hr <;> simp [hr, way_of_invalid ht]
    rw [hrec] at hne ⊢
    rw [Lru.put_eq_touch (by rw [Lru.drop_eq_self hne]; exact length_way_lt s _), Lru.touch, Lru.drop_eq_self hne]
    rfl
  · -- both ways are taken: the victim is last
    have hlen : (l1Way s (1 - s.victim)).length + 1 = 2 := by
      rw [way_of_valid (hv _)]
      rfl
    rw [recency_eq, way_of_valid (hv s.victim)] at hne ⊢
    rw [Lru.put_full hlen hne]
    rfl

/-- **Store**: the key comes first, and of two others the one used longest ago goes. -/
theorem L1Rel.put (h : L1Rel s l) (key : FgaAclCacheKey) (g : UInt16) {exp : TimestampTz} (hexp : 0 ≤ exp)
    (allowed : Bool) :
    L1Rel (l1StoreLoop key g exp allowed l1Ways none s) (Lru.put 2 (l1Name key) ⟨allowed, exp, g⟩ l) := by
  have hkeys := (l1StoreLoop_spec key g exp allowed l1Ways none h.keys fun j hj => absurd (mem_l1Ways j) hj).1
  obtain ⟨rfl, hinv, hnn⟩ := h
  refine ⟨?_, hkeys, fun p hp => ?_⟩
  · by_cases hans : ∃ i, L1Answers s key i
    · obtain ⟨i, hi⟩ := hans
      exact hi.put hinv g exp allowed
    · exact recency_put (fun i hi => hans ⟨i, hi⟩) g exp allowed
  · rcases List.mem_cons.1 ((List.take_sublist _ _).subset hp) with rfl | hp
    · exact hexp
    · exact hnn p (List.mem_filter.1 hp).1

end

/-! ## Every sequence of calls -/

def L1Refines (c : FgaL1Cache) (m : LruSets) : Prop := ∀ n, n < FGA_L1_NUM_SETS.toNat → L1Rel (c.sets n) (m n)

theorem l1Refines_startup : L1Refines l1Startup fun _ => [] := fun _ _ =>
  ⟨rfl, fun _ _ _ h => by simp [l1Startup] at h, fun _ hp => absurd hp (List.not_mem_nil)⟩

/-- One set changes on both sides. -/
theorem L1Refines.update {c : FgaL1Cache} {m : LruSets} (h : L1Refines c m) {n : Nat} {s : FgaL1Set}
    {l : List (L1Name × L1Record)} (hs : L1Rel s l) : L1Refines (c.setSet n s) (Function.update m n l) := by
  intro i hi
  by_cases hin : i = n
  · subst hin
    simpa only [FgaL1Cache.setSet, Function.update_self] using hs
  · simpa only [FgaL1Cache.setSet, Function.update_of_ne hin] using h i hi

/-- Dropping the ways that `P` does not keep. -/
theorem L1Rel.filter {s s' : FgaL1Set} {l : List (L1Name × L1Record)} (h : L1Rel s l) (P : L1Name × L1Record → Bool)
    (hvictim : s'.victim = s.victim)
    (hways : ∀ i, s'.ways i = { s.ways i with valid := (s.ways i).valid && P (l1Record (s.ways i)) }) :
    L1Rel s' (l.filter P) := by
  obtain ⟨rfl, hinv, hnn⟩ := h
  have hway : ∀ i, l1Way s' i = (l1Way s i).filter P := by
    intro i
    have hrec : l1Record (s'.ways i) = l1Record (s.ways i) := by rw [hways]; rfl
    have hval : (s'.ways i).valid = ((s.ways i).valid && P (l1Record (s.ways i))) := by rw [hways]
    rw [l1Way, l1Way, hrec, hval]
    cases (s.ways i).valid <;> cases hP : P (l1Record (s.ways i)) <;> simp [hP]
  refine ⟨?_, ?_, fun p hp => hnn p (List.mem_filter.1 hp).1⟩
  · rw [recency_eq, recency_eq, hway, hway, hvictim, List.filter_append]
  · intro i j hij hi hj
    rw [hways] at hi hj
    rw [hways i, hways j]
    exact hinv i j hij (Bool.and_eq_true_iff.1 hi).1 (Bool.and_eq_true_iff.1 hj).1

theorem l1Call_refines : Refines L1Refines L1Op.Nonneg l1Call LruSets.call := by
  intro c m op hop h
  cases op with
  | store key generation expiresAtMs allowed =>
    exact ⟨rfl, h.update ((h _ (l1HashToSet_lt key)).put key generation hop allowed)⟩
  | lookup key curGeneration nowMs =>
    obtain ⟨h1, h2⟩ := (h _ (l1HashToSet_lt key)).find key curGeneration hop
    exact ⟨h1, h.update h2⟩
  | invalidateAll =>
    refine ⟨rfl, fun n hn => ?_⟩
    have hset : (l1InvalidateAll c).sets n =
        { ways := fun w => { (c.sets n).ways w with valid := false }, victim := 0 } := if_pos hn
    show L1Rel ((l1InvalidateAll c).sets n) []
    rw [hset]
    exact ⟨rfl, fun _ _ _ hi => by simp at hi, fun _ hp => absurd hp (List.not_mem_nil)⟩
  | invalidateByGeneration oldGeneration =>
    refine ⟨rfl, fun n hn => (h n hn).filter _ ?_ fun i => ?_⟩
    · show ((l1InvalidateByGeneration c oldGeneration).sets n).victim = _
      rw [l1InvalidateByGeneration]
      simp only [hn, if_true]
    · show ((l1InvalidateByGeneration c oldGeneration).sets n).ways i = _
      rw [l1InvalidateByGeneration]
      simp only [hn, if_true, l1Record]
      generalize (c.sets n).ways i = e
      obtain ⟨valid, allowed, globalGen, expiresAtMs, key⟩ := e
      by_cases hg : globalGen = oldGeneration <;> cases valid <;> simp [hg]

/-- A call on one set leaves the others alone. -/
theorem l1Call_sets_ne {c : FgaL1Cache} {op : L1Op} {n n' : Nat} (hop : op.set? = some n) (hn : n' ≠ n) :
    (l1Call c op).2.sets n' = c.sets n' := by
  cases op with
  | store key generation expiresAtMs allowed =>
    cases hop
    exact Function.update_of_ne hn _ _
  | lookup key curGeneration nowMs =>
    cases hop
    exact Function.update_of_ne hn _ _
  | invalidateAll | invalidateByGeneration => cases hop

/-- **L1 is a two-entry LRU cache per set**: from `l1_startup` on, for every sequence of calls at
times and with expiries that are not negative, the answers and the contents of each set, in the
order of use, are those of the map; no set holds a key twice, and a call leaves other sets alone. -/
theorem l1_is_lru (ops : List L1Op) (hops : ∀ op ∈ ops, op.Nonneg) :
    let c := after l1Call l1Startup ops
    let m := after LruSets.call (fun _ => []) ops
    (calls l1Call l1Startup ops).1 = (calls LruSets.call (fun _ => []) ops).1 ∧
      (∀ n, n < FGA_L1_NUM_SETS.toNat → l1Recency (c.sets n) = m n ∧ L1SetInv (c.sets n)) ∧
      (∀ n, Lru.Bounded 2 (m n)) ∧
      ∀ op n n', op.set? = some n → n' ≠ n → (l1Call c op).2.sets n' = c.sets n' := by
  intro c m
  obtain ⟨h1, h2⟩ := l1Call_refines.calls l1Refines_startup ops hops
  have h0 : ∀ n, Lru.Bounded 2 ((fun _ => [] : LruSets) n) := fun _ => ⟨Nat.zero_le 2, List.nodup_nil⟩
  have hb : ∀ n, Lru.Bounded 2 (m n) :=
    calls_inv (fun m : LruSets => ∀ n, Lru.Bounded 2 (m n)) (fun m op h n => LruSets.bounded_call h op n) h0 ops
  exact ⟨h1, fun n hn => ⟨(h2 n hn).recency, (h2 n hn).keys⟩, hb, fun op n n' => l1Call_sets_ne⟩

/-- Three keys of set 0: the third costs the one not found since. -/
theorem l1_is_lru_three_keys :
    let key : UInt64 → FgaAclCacheKey := fun low => ⟨low, 0, 0, 0, 0⟩
    let ops : List L1Op := [.store (key 0) 1 100 true, .store (key 16384) 1 100 false, .lookup (key 0) 1 50,
      .store (key 32768) 1 100 true, .lookup (key 16384) 1 50, .lookup (key 0) 1 50, .lookup (key 0) 1 100]
    (calls l1Call l1Startup ops).1 = [none, none, some true, none, none, some true, none] ∧
      (calls l1Call l1Startup ops).1 = (calls LruSets.call (fun _ => []) ops).1 ∧
      L1SetInv ((after l1Call l1Startup ops).sets 0) := by
  intro key ops
  obtain ⟨h1, h2, -⟩ := l1_is_lru ops (by decide)
  exact ⟨by decide +kernel, h1, (h2 0 (by decide)).2⟩

end PostFga
