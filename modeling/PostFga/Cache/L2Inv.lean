import PostFga.Cache.L2
/-
# The L2 index and the entry array stay in bijection

* `l2FindVictimSlot_spec` — with two entries or more the victim search returns a slot of the
  array, and all it does to the entries is take usage counts down (`Charged`).
* `L2Inv` — every index element names a valid entry with its key, and every valid entry is
  named by the element of its key.
* `l2Content` — what the cache holds for a key, usage counts and slots forgotten. A lookup
  reads it (`l2Lookup_spec`), a store writes one key and may drop others (`l2Store_spec`).
-/

namespace PostFga

variable {T : Type} {H : HashOps T FgaAclCacheKey Nat}

@[simp] theorem withUsage_key (e : FgaL2AclEntry) (n : Nat) : (e.withUsage n).key = e.key := rfl
@[simp] theorem withUsage_valid (e : FgaL2AclEntry) (n : Nat) : (e.withUsage n).valid = e.valid := rfl
@[simp] theorem withUsage_allowed (e : FgaL2AclEntry) (n : Nat) :
    (e.withUsage n).value.allowed = e.value.allowed := rfl
@[simp] theorem withUsage_expiresAtMs (e : FgaL2AclEntry) (n : Nat) :
    (e.withUsage n).value.expiresAtMs = e.value.expiresAtMs := rfl
@[simp] theorem withUsage_globalGen (e : FgaL2AclEntry) (n : Nat) :
    (e.withUsage n).value.globalGen = e.value.globalGen := rfl
@[simp] theorem withUsage_usageCount (e : FgaL2AclEntry) (n : Nat) :
    (e.withUsage n).value.usageCount = n := rfl
@[simp] theorem withUsage_withUsage (e : FgaL2AclEntry) (m n : Nat) :
    (e.withUsage m).withUsage n = e.withUsage n := rfl
@[simp] theorem withUsage_self (e : FgaL2AclEntry) : e.withUsage e.value.usageCount = e := rfl

@[simp] theorem setEntry_capacity (c : FgaL2AclCache) (i : Nat) (e : FgaL2AclEntry) :
    (c.setEntry i e).capacity = c.capacity := rfl
@[simp] theorem setEntry_generation (c : FgaL2AclCache) (i : Nat) (e : FgaL2AclEntry) :
    (c.setEntry i e).generation = c.generation := rfl
@[simp] theorem setEntry_self (c : FgaL2AclCache) (i : Nat) (e : FgaL2AclEntry) :
    (c.setEntry i e).entries i = e := by simp [FgaL2AclCache.setEntry]
theorem setEntry_ne (c : FgaL2AclCache) {i j : Nat} (e : FgaL2AclEntry) (h : j ≠ i) :
    (c.setEntry i e).entries j = c.entries j := by simp [FgaL2AclCache.setEntry, h]

@[simp] theorem l2ClockSweep_snd_entries (c : FgaL2AclCache) : (l2ClockSweep c).2.entries = c.entries := rfl

theorem l2ClockSweep_lt {c : FgaL2AclCache} (h : 0 < c.capacity) : (l2ClockSweep c).1 < c.capacity :=
  Nat.mod_lt _ h

/-- An entry serves a lookup when it is valid, unexpired and of the current generation. -/
theorem l2EntryExpired_eq_false {c : FgaL2AclCache} {e : FgaL2AclEntry} {now : TimestampTz} :
    l2EntryExpired c e now = false ↔
      e.valid = true ∧ now < e.value.expiresAtMs ∧ e.value.globalGen = c.generation := by
  unfold l2EntryExpired
  split
  · simp_all
  · split
    · rename_i h; simp [← Int64.not_le, h]
    · rename_i h1 h; simp_all [← Int64.not_le]

/-! ## The victim search -/

/-- `c'` is `c` with usage counts taken down and the hand moved. -/
structure Charged (c c' : FgaL2AclCache) : Prop where
  capacity : c'.capacity = c.capacity
  generation : c'.generation = c.generation
  entries : ∀ i, ∃ u ≤ (c.entries i).value.usageCount, c'.entries i = (c.entries i).withUsage u

theorem Charged.sweep (c : FgaL2AclCache) : Charged c (l2ClockSweep c).2 :=
  ⟨rfl, rfl, fun i => ⟨(c.entries i).value.usageCount, Nat.le_refl _, by simp⟩⟩

theorem Charged.trans {a b c : FgaL2AclCache} (h : Charged a b) (h' : Charged b c) : Charged a c where
  capacity := h'.capacity.trans h.capacity
  generation := h'.generation.trans h.generation
  entries i := by
    obtain ⟨u, hu, hb⟩ := h.entries i
    obtain ⟨v, hv, hc⟩ := h'.entries i
    rw [hb, withUsage_usageCount] at hv
    exact ⟨v, Nat.le_trans hv hu, by rw [hc, hb, withUsage_withUsage]⟩

theorem Charged.setEntry (c : FgaL2AclCache) (i u : Nat) (hu : u ≤ (c.entries i).value.usageCount) :
    Charged c (c.setEntry i ((c.entries i).withUsage u)) where
  capacity := rfl
  generation := rfl
  entries j := by
    by_cases h : j = i
    · subst h; exact ⟨u, hu, by simp⟩
    · exact ⟨_, Nat.le_refl _, by rw [setEntry_ne c _ h, withUsage_self]⟩

theorem Charged.usageTotal_le {c c' : FgaL2AclCache} (h : Charged c c') : usageTotal c' ≤ usageTotal c := by
  unfold usageTotal
  rw [h.capacity]
  refine List.sum_le_sum fun i _ => ?_
  obtain ⟨u, hle, he⟩ := h.entries i
  rw [he, withUsage_usageCount]; exact hle

theorem sum_range_update (f : Nat → Nat) (i x n : Nat) (h : i < n) :
    ((List.range n).map (Function.update f i x)).sum + f i = ((List.range n).map f).sum + x := by
  induction n with
  | zero => omega
  | succ n ih =>
    simp only [List.range_succ, List.map_append, List.sum_append, List.map_cons, List.map_nil,
      List.sum_cons, List.sum_nil]
    by_cases hi : i = n
    · subst hi
      have hm : (List.range i).map (Function.update f i x) = (List.range i).map f := by
        refine List.map_congr_left fun j hj => ?_
        exact Function.update_of_ne (Nat.ne_of_lt (List.mem_range.1 hj)) _ _
      rw [hm, Function.update_self]; omega
    · have hsum := ih (by omega)
      rw [Function.update_of_ne (Ne.symm hi)]; omega

/-- Charging the entry under the hand takes one off the total. -/
theorem usageTotal_charge (c : FgaL2AclCache) (i : Nat) (hi : i < c.capacity)
    (hu : 0 < (c.entries i).value.usageCount) :
    usageTotal (c.setEntry i ((c.entries i).withUsage ((c.entries i).value.usageCount - 1))) <
      usageTotal c := by
  have hf : (fun j => ((c.setEntry i ((c.entries i).withUsage
      ((c.entries i).value.usageCount - 1))).entries j).value.usageCount) =
      Function.update (fun j => (c.entries j).value.usageCount) i ((c.entries i).value.usageCount - 1) := by
    funext j
    by_cases h : j = i
    · subst h; simp
    · rw [setEntry_ne c _ h, Function.update_of_ne h]
  have hs := sum_range_update (fun j => (c.entries j).value.usageCount) i
    ((c.entries i).value.usageCount - 1) c.capacity hi
  simp only [usageTotal, setEntry_capacity, hf]
  omega

/-- The loop returns within any fuel above the total of the usage counts. -/
theorem l2FindVictimLoop_spec (now : TimestampTz) (fuel : Nat) (c : FgaL2AclCache) (h2 : 2 ≤ c.capacity)
    (h : usageTotal c < fuel) :
    ∃ idx c', l2FindVictimLoop now fuel c = some (idx, c') ∧ idx < c.capacity ∧ Charged c c' ∧
      (l2EntryExpired c' (c'.entries idx) now = true ∨ (c'.entries idx).value.usageCount = 0) := by
  induction fuel generalizing c with
  | zero => omega
  | succ fuel ih =>
    have hidx := l2ClockSweep_lt (c := c) (by omega)
    have hsw := Charged.sweep c
    simp only [l2FindVictimLoop]
    generalize l2ClockSweep c = sw at hidx hsw
    obtain ⟨idx, c1⟩ := sw
    simp only at hidx hsw ⊢
    have hcap : c1.capacity = c.capacity := hsw.capacity
    split
    · rename_i hexp
      exact ⟨idx, c1, rfl, hidx, hsw, Or.inl hexp⟩
    · split
      · rename_i hu
        have hch := Charged.setEntry c1 idx ((c1.entries idx).value.usageCount - 1) (Nat.sub_le _ _)
        have htot := usageTotal_charge c1 idx (by omega) hu
        have hle := hsw.usageTotal_le
        generalize c1.setEntry idx ((c1.entries idx).withUsage
          ((c1.entries idx).value.usageCount - 1)) = c2 at hch htot ⊢
        have hcap2 : c2.capacity = c.capacity := hch.capacity.trans hcap
        rw [if_neg (by omega)]
        obtain ⟨j, c', hres, hj, hc', hend⟩ := ih c2 (by omega) (by omega)
        exact ⟨j, c', hres, by omega, (hsw.trans hch).trans hc', hend⟩
      · rename_i hu
        exact ⟨idx, c1, rfl, hidx, hsw, Or.inr (by omega)⟩

/-- **`l2_find_victim_slot`** (`cache_l2.h:105`) returns a slot of the array, never
`UINT32_MAX`, and only takes usage counts down. -/
theorem l2FindVictimSlot_spec (c : FgaL2AclCache) (now : TimestampTz) (h2 : 2 ≤ c.capacity) :
    ∃ idx c', l2FindVictimSlot c now = some (idx, c') ∧ idx < c.capacity ∧ idx ≠ UINT32_MAX ∧
      Charged c c' ∧
      (l2EntryExpired c' (c'.entries idx) now = true ∨ (c'.entries idx).value.usageCount = 0) := by
  obtain ⟨idx, c', hres, hidx, hch, hend⟩ :=
    l2FindVictimLoop_spec now (usageTotal c + 1) c h2 (Nat.lt_succ_self _)
  have hlt := c.capacity_lt
  exact ⟨idx, c', hres, hidx, by unfold UINT32_MAX; omega, hch, hend⟩

/-! ## The bijection -/

/-- The index and the array agree, and the index has room for twice the array. -/
structure L2Inv (H : HashOps T FgaAclCacheKey Nat) (s : L2 T) : Prop where
  two_le : 2 ≤ s.cache.capacity
  room : H.maxSize s.table = l2HashSize s.cache.capacity
  index : ∀ k i, H.find s.table k = some i →
    i < s.cache.capacity ∧ (s.cache.entries i).valid = true ∧ (s.cache.entries i).key = k
  entry : ∀ i, i < s.cache.capacity → (s.cache.entries i).valid = true →
    H.find s.table (s.cache.entries i).key = some i

/-- The invariant reads keys and valid flags only. -/
theorem L2Inv.congr {s s' : L2 T} (h : L2Inv H s) (ht : s'.table = s.table)
    (hc : s'.cache.capacity = s.cache.capacity)
    (hk : ∀ i, (s'.cache.entries i).key = (s.cache.entries i).key)
    (hv : ∀ i, (s'.cache.entries i).valid = (s.cache.entries i).valid) : L2Inv H s' where
  two_le := by rw [hc]; exact h.two_le
  room := by rw [ht, hc]; exact h.room
  index k i hf := by rw [ht] at hf; rw [hc, hk, hv]; exact h.index k i hf
  entry i hi hval := by rw [hc] at hi; rw [hv] at hval; rw [ht, hk]; exact h.entry i hi hval

/-- No more elements than entries: two elements never name one slot. -/
theorem L2Inv.numEntries_le (S : HashSpec H) {s : L2 T} (h : L2Inv H s) :
    H.numEntries s.table ≤ s.cache.capacity :=
  S.numEntries_le s.table _ id (fun k i hf => (h.index k i hf).1) (fun k k' i i' hf hf' e => by
    have e' : i = i' := e
    rw [← (h.index k i hf).2.2, ← (h.index k' i' hf').2.2, e'])

theorem l2Inv_startup (S : HashSpec H) (capacity : UInt32) (mem : Nat → FgaL2AclEntry)
    (h2 : 2 ≤ capacity.toNat) : L2Inv H (l2Startup H (fgaCacheShmemInit capacity mem)) where
  two_le := h2
  room := S.maxSize_create _
  index k i hf := by
    have := S.find_create (l2HashSize capacity.toNat) k
    simp only [l2Startup, fgaCacheShmemInit, this] at hf
    cases hf
  entry i _ hv := by simp [l2Startup, fgaCacheShmemInit] at hv

/-- What the cache holds for a key: value, expiry and generation. -/
def l2Content (H : HashOps T FgaAclCacheKey Nat) (s : L2 T) (k : FgaAclCacheKey) :
    Option (Bool × TimestampTz × UInt16) :=
  (H.find s.table k).map fun i =>
    ((s.cache.entries i).value.allowed, (s.cache.entries i).value.expiresAtMs,
      (s.cache.entries i).value.globalGen)

/-! ### Lookup -/

/-- An entry put back with another usage count. -/
theorem L2Inv.setUsage {s : L2 T} (h : L2Inv H s) (i u : Nat) :
    L2Inv H { s with cache := s.cache.setEntry i ((s.cache.entries i).withUsage u) } ∧
      ∀ k, l2Content H { s with cache := s.cache.setEntry i ((s.cache.entries i).withUsage u) } k =
        l2Content H s k := by
  have hsame : ∀ j, ∃ w, (s.cache.setEntry i ((s.cache.entries i).withUsage u)).entries j =
      (s.cache.entries j).withUsage w := by
    intro j
    by_cases hj : j = i
    · subst hj; exact ⟨u, by simp⟩
    · exact ⟨_, by rw [setEntry_ne _ _ hj, withUsage_self]⟩
  refine ⟨h.congr rfl rfl (fun j => ?_) (fun j => ?_), fun k => ?_⟩
  · obtain ⟨w, hw⟩ := hsame j; simp [hw]
  · obtain ⟨w, hw⟩ := hsame j; simp [hw]
  · simp only [l2Content]
    cases H.find s.table k with
    | none => rfl
    | some j => obtain ⟨w, hw⟩ := hsame j; simp [hw]

/-- **`l2_lookup`** hits exactly on an unexpired value of the current generation, answers it,
and leaves what the cache holds alone. -/
theorem l2Lookup_spec {s : L2 T} (h : L2Inv H s) (key : FgaAclCacheKey) (now : TimestampTz) :
    L2Inv H (l2Lookup H s key now).2 ∧
    (l2Lookup H s key now).2.cache.generation = s.cache.generation ∧
    (l2Lookup H s key now).2.cache.capacity = s.cache.capacity ∧
    (∀ k, l2Content H (l2Lookup H s key now).2 k = l2Content H s k) ∧
    (∀ v e, (l2Lookup H s key now).1 = some (v, e) ↔
      l2Content H s key = some (v, e, s.cache.generation) ∧ now < e) := by
  unfold l2Lookup
  cases hf : H.find s.table key with
  | none => exact ⟨h, rfl, rfl, fun _ => rfl, fun v e => by simp [l2Content, hf]⟩
  | some i =>
    have hc : l2Content H s key = some ((s.cache.entries i).value.allowed,
        (s.cache.entries i).value.expiresAtMs, (s.cache.entries i).value.globalGen) := by
      simp [l2Content, hf]
    by_cases hexp : l2EntryExpired s.cache (s.cache.entries i) now = true
    · simp only [hexp, if_true]
      refine ⟨(h.setUsage i 0).1, rfl, rfl, (h.setUsage i 0).2, fun v e => ?_⟩
      rw [hc]
      constructor
      · intro he; cases he
      · rintro ⟨he, hlt⟩
        simp only [Option.some.injEq, Prod.mk.injEq] at he
        obtain ⟨-, he, hg⟩ := he
        have hv := (h.index key i hf).2.1
        rw [l2EntryExpired_eq_false.2 ⟨hv, he ▸ hlt, hg⟩] at hexp
        cases hexp
    · obtain ⟨-, hlt, hg⟩ := l2EntryExpired_eq_false.1 (Bool.not_eq_true _ ▸ hexp)
      have hres : ∀ u v e, (some (((s.cache.entries i).withUsage u).value.allowed,
          ((s.cache.entries i).withUsage u).value.expiresAtMs) = some (v, e) ↔
            l2Content H s key = some (v, e, s.cache.generation) ∧ now < e) := by
        intro u v e
        rw [hc, hg]
        simp only [withUsage_allowed, withUsage_expiresAtMs, Option.some.injEq, Prod.mk.injEq, and_true]
        exact ⟨fun hve => ⟨hve, hve.2 ▸ hlt⟩, And.left⟩
      simp only [hexp, Bool.false_eq_true, if_false]
      split
      · exact ⟨(h.setUsage i _).1, rfl, rfl, (h.setUsage i _).2, hres _⟩
      · have hb := h.setUsage i (s.cache.entries i).value.usageCount
        rw [withUsage_self] at hb
        exact ⟨hb.1, rfl, rfl, hb.2, hres (s.cache.entries i).value.usageCount⟩

/-! ### Store -/

/-- The index and the array after the eviction of slot `idx`: the index names the others as before, and
the array is as it was but for usage counts. -/
structure Vacated (H : HashOps T FgaAclCacheKey Nat) (s : L2 T) (idx : Nat) (c : FgaL2AclCache) (t : T) : Prop where
  lt : idx < s.cache.capacity
  charged : Charged s.cache c
  maxSize : H.maxSize t = l2HashSize s.cache.capacity
  find : ∀ k, H.find t k = if H.find s.table k = some idx then none else H.find s.table k

/-- Evicting slot `idx` unmaps the key that named it, and only that key. -/
theorem L2Inv.evict (S : HashSpec H) {s : L2 T} (h : L2Inv H s) {idx : Nat} {c : FgaL2AclCache}
    (hidx : idx < s.cache.capacity) (hc : Charged s.cache c) :
    Vacated H s idx c
      (if (s.cache.entries idx).valid then H.remove s.table (s.cache.entries idx).key else s.table) where
  lt := hidx
  charged := hc
  maxSize := by
    rw [← h.room]
    split
    · exact S.maxSize_remove _ _
    · rfl
  find k := by
    by_cases hv : (s.cache.entries idx).valid = true
    · rw [if_pos hv]
      by_cases hk : k = (s.cache.entries idx).key
      · subst hk
        rw [S.find_remove_self, if_pos (h.entry idx hidx hv)]
      · rw [S.find_remove_ne _ _ _ hk, if_neg]
        intro hf; exact hk (h.index k idx hf).2.2.symm
    · rw [if_neg hv, if_neg]
      intro hf; exact hv (h.index k idx hf).2.1

namespace Vacated

variable {s : L2 T} {idx : Nat} {c : FgaL2AclCache} {t t' : T} {key : FgaAclCacheKey} {found : Bool}

theorem sub (h : Vacated H s idx c t) {k : FgaAclCacheKey} {i : Nat} (hf : H.find t k = some i) :
    H.find s.table k = some i ∧ i ≠ idx := by
  rw [h.find] at hf
  split at hf
  · cases hf
  · rename_i hn
    exact ⟨hf, fun e => hn (e ▸ hf)⟩

/-- At most `capacity` elements are left in an index made for twice as many. -/
theorem room (S : HashSpec H) (hinv : L2Inv H s) (h : Vacated H s idx c t) : H.numEntries t < H.maxSize t := by
  have hle : H.numEntries t ≤ s.cache.capacity := by
    refine S.numEntries_le t _ id (fun k i hf => (hinv.index k i (h.sub hf).1).1) fun k k' i i' hf hf' e => ?_
    have e' : i = i' := e
    rw [← (hinv.index k i (h.sub hf).1).2.2, ← (hinv.index k' i' (h.sub hf').1).2.2, e']
  have := hinv.two_le
  rw [h.maxSize, l2HashSize]
  omega

/-- The other slots. -/
theorem entries_ne (h : Vacated H s idx c t) (e : FgaL2AclEntry) {j : Nat} (hj : j ≠ idx) :
    ∃ w, (c.setEntry idx e).entries j = (s.cache.entries j).withUsage w := by
  obtain ⟨w, -, hw⟩ := h.charged.entries j
  exact ⟨w, by rw [setEntry_ne _ _ hj, hw]⟩

/-- A valid entry under a key that was not in the index keeps the bijection. -/
theorem insert_inv (S : HashSpec H) (hinv : L2Inv H s) (h : Vacated H s idx c t) (hnone : H.find s.table key = none)
    (hent : H.enter t key idx = some (t', found)) {e : FgaL2AclEntry} (hkey : e.key = key) (hvalid : e.valid = true) :
    L2Inv H ⟨c.setEntry idx e, t'⟩ where
  two_le := by
    rw [setEntry_capacity, h.charged.capacity]
    exact hinv.two_le
  room := by
    rw [S.maxSize_enter _ _ _ _ _ hent, h.maxSize, setEntry_capacity, h.charged.capacity]
  index k i hki := by
    simp only [setEntry_capacity, h.charged.capacity]
    by_cases hk : k = key
    · subst hk
      rw [S.find_enter_self _ _ _ _ _ hent] at hki
      cases hki
      rw [setEntry_self]
      exact ⟨h.lt, hvalid, hkey⟩
    · rw [S.find_enter_ne _ _ _ _ _ k hent hk] at hki
      obtain ⟨hki', hi⟩ := h.sub hki
      obtain ⟨w, hw⟩ := h.entries_ne e hi
      rw [hw]
      exact hinv.index k i hki'
  entry i hi hval := by
    simp only [setEntry_capacity, h.charged.capacity] at hi
    by_cases hii : i = idx
    · subst hii
      rw [setEntry_self, hkey]
      exact S.find_enter_self _ _ _ _ _ hent
    · obtain ⟨w, hw⟩ := h.entries_ne e hii
      simp only [hw, withUsage_valid, withUsage_key] at hval ⊢
      have hfi := hinv.entry i hi hval
      have hk : (s.cache.entries i).key ≠ key := by
        intro e; rw [e, hnone] at hfi; cases hfi
      rw [S.find_enter_ne _ _ _ _ _ _ hent hk, h.find, hfi, if_neg]
      simpa using hii

/-- Any other key holds what it held or nothing. -/
theorem insert_content (S : HashSpec H) (h : Vacated H s idx c t) (hent : H.enter t key idx = some (t', found))
    (e : FgaL2AclEntry) {k : FgaAclCacheKey} (hk : k ≠ key) :
    l2Content H ⟨c.setEntry idx e, t'⟩ k = l2Content H s k ∨ l2Content H ⟨c.setEntry idx e, t'⟩ k = none := by
  simp only [l2Content, S.find_enter_ne _ _ _ _ _ k hent hk]
  cases hki : H.find t k with
  | none => right; rfl
  | some i =>
    left
    obtain ⟨hki', hi⟩ := h.sub hki
    obtain ⟨w, hw⟩ := h.entries_ne e hi
    rw [hki']
    simp [hw]

end Vacated

/-- **`l2_store`** always ends by refreshing the key's entry or by inserting one under a key
that was not in the index; it keeps the bijection, the cache then holds the value under the
key, and any other key holds what it held or nothing. -/
theorem l2Store_spec (S : HashSpec H) {s : L2 T} (h : L2Inv H s) (key : FgaAclCacheKey)
    (now e : TimestampTz) (v : Bool) :
    ∃ s' r, l2Store H s key now e v = some (s', r) ∧ (r = .updated ∨ r = .inserted false) ∧
      L2Inv H s' ∧ s'.cache.generation = s.cache.generation ∧ s'.cache.capacity = s.cache.capacity ∧
      l2Content H s' key = some (v, e, s.cache.generation) ∧
      ∀ k, k ≠ key → l2Content H s' k = l2Content H s k ∨ l2Content H s' k = none := by
  unfold l2Store
  cases hf : H.find s.table key with
  | some i =>
    obtain ⟨hi, hv, hk⟩ := h.index key i hf
    refine ⟨_, _, rfl, Or.inl rfl, h.congr rfl rfl (fun j => ?_) (fun j => ?_), rfl, rfl, ?_,
      fun k hne => ?_⟩
    · by_cases hj : j = i
      · subst hj; simp [l2UpdateEntry, hk]
      · simp [setEntry_ne _ _ hj]
    · by_cases hj : j = i
      · subst hj; simp [l2UpdateEntry, hv]
      · simp [setEntry_ne _ _ hj]
    · simp [l2Content, hf, l2UpdateEntry]
    · left
      simp only [l2Content]
      cases hk' : H.find s.table k with
      | none => rfl
      | some j =>
        have hj : j ≠ i := by
          rintro rfl
          exact hne ((h.index k j hk').2.2.symm.trans hk)
        simp [setEntry_ne _ _ hj]
  | none =>
    obtain ⟨idx, c', hvs, hidx, hmax, hch, -⟩ := l2FindVictimSlot_spec s.cache now h.two_le
    simp only [hvs, if_neg hmax]
    obtain ⟨u, -, hent⟩ := hch.entries idx
    simp only [hent, withUsage_valid, withUsage_key]
    have hvac := h.evict S hidx hch
    generalize (if (s.cache.entries idx).valid = true then
      H.remove s.table (s.cache.entries idx).key else s.table) = t1 at hvac ⊢
    obtain ⟨⟨t2, found⟩, henter⟩ := Option.isSome_iff_exists.1 (S.enter_room t1 key idx (hvac.room S h))
    have hfound : found = false := by
      rw [S.enter_found _ _ _ _ _ henter, hvac.find, hf]; simp
    have hself := S.find_enter_self _ _ _ _ _ henter
    simp only [henter, hfound]
    refine ⟨_, _, rfl, Or.inr rfl, hvac.insert_inv S h hf henter rfl rfl, hch.generation, hch.capacity, ?_,
      fun k hk => hvac.insert_content S henter _ hk⟩
    simp [l2Content, hself, l2UpdateEntry, hch.generation]

/-- What a store put in, a lookup by the same key finds until it expires. -/
theorem l2Store_lookup (S : HashSpec H) {s : L2 T} (h : L2Inv H s) (key : FgaAclCacheKey)
    (now e : TimestampTz) (v : Bool) :
    ∃ s' r, l2Store H s key now e v = some (s', r) ∧
      ∀ now', now' < e → (l2Lookup H s' key now').1 = some (v, e) := by
  obtain ⟨s', r, hst, -, hinv, hg, -, hc, -⟩ := l2Store_spec S h key now e v
  refine ⟨s', r, hst, fun now' hlt => ?_⟩
  obtain ⟨-, -, -, -, hhit⟩ := l2Lookup_spec hinv key now'
  exact (hhit v e).2 ⟨hg ▸ hc, hlt⟩

/-! ### Runs -/

inductive L2Op where
  | store (key : FgaAclCacheKey) (now expires : TimestampTz) (allowed : Bool)
  | lookup (key : FgaAclCacheKey) (now : TimestampTz)

/-- A sequence of calls, with the way each store ended. -/
def l2Run (H : HashOps T FgaAclCacheKey Nat) : L2 T → List L2Op → Option (L2 T × List L2StoreEnd)
  | s, [] => some (s, [])
  | s, .store key now e v :: ops =>
    match l2Store H s key now e v with
    | none => none
    | some (s, r) => (l2Run H s ops).map fun (s, rs) => (s, r :: rs)
  | s, .lookup key now :: ops => l2Run H (l2Lookup H s key now).2 ops

theorem l2Run_spec (S : HashSpec H) (ops : List L2Op) (s : L2 T) (h : L2Inv H s) :
    ∃ s' rs, l2Run H s ops = some (s', rs) ∧ L2Inv H s' ∧ s'.cache.capacity = s.cache.capacity ∧
      ∀ r ∈ rs, r = .updated ∨ r = .inserted false := by
  induction ops generalizing s with
  | nil => exact ⟨s, [], rfl, h, rfl, by simp⟩
  | cons op ops ih =>
    cases op with
    | store key now e v =>
      obtain ⟨s1, r, hst, hr, h1, -, hc1, -⟩ := l2Store_spec S h key now e v
      obtain ⟨s', rs, hrun, h', hc, hrs⟩ := ih s1 h1
      refine ⟨s', r :: rs, by simp [l2Run, hst, hrun], h', hc.trans hc1, fun x hx => ?_⟩
      rcases List.mem_cons.1 hx with rfl | hx
      · exact hr
      · exact hrs x hx
    | lookup key now =>
      obtain ⟨h1, -, hc1, -⟩ := l2Lookup_spec h key now
      obtain ⟨s', rs, hrun, h', hc, hrs⟩ := ih _ h1
      exact ⟨s', rs, hrun, h', hc.trans hc1, hrs⟩

/-- **Index and array stay in bijection.** From the initial cache with room for two entries or
more, every sequence of stores and lookups returns; after it the index elements and the valid
entries name each other, no key has two entries and no two keys share one, the index holds at
most `capacity` of the `2 * capacity` elements it was made for, and no store ran out of memory,
gave up, or found its key when it entered it. -/
theorem l2Run_bijection (S : HashSpec H) (capacity : UInt32) (mem : Nat → FgaL2AclEntry)
    (h2 : 2 ≤ capacity.toNat) (ops : List L2Op) :
    ∃ s rs, l2Run H (l2Startup H (fgaCacheShmemInit capacity mem)) ops = some (s, rs) ∧
      (∀ k i, H.find s.table k = some i →
        i < s.cache.capacity ∧ (s.cache.entries i).valid = true ∧ (s.cache.entries i).key = k) ∧
      (∀ i, i < s.cache.capacity → (s.cache.entries i).valid = true →
        H.find s.table (s.cache.entries i).key = some i) ∧
      (∀ i j, i < s.cache.capacity → j < s.cache.capacity → (s.cache.entries i).valid = true →
        (s.cache.entries j).valid = true → (s.cache.entries i).key = (s.cache.entries j).key → i = j) ∧
      (∀ k k' i, H.find s.table k = some i → H.find s.table k' = some i → k = k') ∧
      s.cache.capacity = capacity.toNat ∧ H.numEntries s.table ≤ s.cache.capacity ∧
      H.maxSize s.table = 2 * s.cache.capacity ∧
      ∀ r ∈ rs, r ≠ .outOfMemory ∧ r ≠ .noVictim ∧ r ≠ .inserted true := by
  obtain ⟨s, rs, hrun, h, hc, hrs⟩ := l2Run_spec S ops _ (l2Inv_startup S capacity mem h2)
  refine ⟨s, rs, hrun, h.index, h.entry, fun i j hi hj hvi hvj hk => ?_, fun k k' i hk hk' => ?_, hc,
    h.numEntries_le S, ?_, fun r hr => ?_⟩
  · have hi' := h.entry i hi hvi
    rw [hk, h.entry j hj hvj] at hi'
    exact (Option.some.inj hi').symm
  · exact (h.index k i hk).2.2.symm.trans (h.index k' i hk').2.2
  · rw [h.room, l2HashSize, Nat.mul_comm]
  · rcases hrs r hr with rfl | rfl <;> simp

/-- The reference index. -/
abbrev refIndex : HashOps (HashTable.Ref FgaAclCacheKey Nat) FgaAclCacheKey Nat :=
  HashTable.ref FgaAclCacheKey Nat

theorem refIndex_spec : HashSpec refIndex := HashTable.ref_spec

/-- A segment of zeroes. -/
def zeroedMem : Nat → FgaL2AclEntry := fun _ => ⟨⟨0, 0, 0, 0, 0⟩, ⟨false, 0, 0, 0⟩, false⟩

/-- A two-entry cache over the reference index, filled past its capacity. -/
theorem l2Run_bijection_full :
    ∃ s rs, l2Run refIndex (l2Startup refIndex (fgaCacheShmemInit 2 zeroedMem))
        [.store ⟨1, 1, 1, 0, 0⟩ 0 9 true, .store ⟨2, 2, 2, 0, 0⟩ 0 9 false,
          .store ⟨3, 3, 3, 0, 0⟩ 0 9 true, .lookup ⟨3, 3, 3, 0, 0⟩ 4] = some (s, rs) ∧
      refIndex.numEntries s.table ≤ 2 := by
  obtain ⟨s, rs, hrun, -, -, -, -, hc, hn, -⟩ :=
    l2Run_bijection refIndex_spec 2 zeroedMem (by decide)
      [.store ⟨1, 1, 1, 0, 0⟩ 0 9 true, .store ⟨2, 2, 2, 0, 0⟩ 0 9 false,
        .store ⟨3, 3, 3, 0, 0⟩ 0 9 true, .lookup ⟨3, 3, 3, 0, 0⟩ 4]
  exact ⟨s, rs, hrun, Nat.le_trans hn (Nat.le_of_eq hc)⟩

end PostFga
