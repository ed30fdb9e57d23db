import PostFga.Cache.TwoLevel
import PostFga.Lib.Transition
/-
# Every hit is a store: soundness and monotonic reads of the two levels

The invariant ties every L1 way of every backend and every L2 entry to a place in the list of
stores, in the order of their L2 critical sections:

* an L2 value for `k` is the newest store of `k` (`l2Last`): a store replaces it in place, the
  clock hand only ever drops it;
* an L1 value for `k` is a store at least as new as the backend's own stores of `k` and as
  every store its hits on `k` have referred to (`l1Fresh`), or the one the backend is just
  taking to L2.

`ref i` is the store the `i`-th hit refers to.
-/

namespace PostFga

open Transition

variable {T : Type} {H : HashOps T FgaAclCacheKey Nat}

theorem getElem?_snoc {α : Type} {l : List α} {x y : α} {i : Nat} :
    (l ++ [x])[i]? = some y ↔ l[i]? = some y ∨ i = l.length ∧ x = y := by
  rcases Nat.lt_trichotomy i l.length with h | h | h
  · rw [List.getElem?_append_left h]
    exact ⟨Or.inl, fun h' => h'.elim id fun h'' => by omega⟩
  · subst h; simp
  · rw [List.getElem?_eq_none (by simp; omega), List.getElem?_eq_none (by omega)]
    simp; omega

/-- What a way holds for a key is unique. -/
theorem l1Holds_unique {c : FgaL1Cache} (h : L1Inv c) {k : FgaAclCacheKey} {v v' : Bool}
    {e e' : UInt64} {g g' : UInt16} (h1 : L1Holds c k v e g) (h2 : L1Holds c k v' e' g') :
    v = v' ∧ e = e' := by
  obtain ⟨i, hv, hk, rfl, rfl, -⟩ := h1
  obtain ⟨j, hv', hk', rfl, rfl, -⟩ := h2
  by_cases hij : i = j
  · subst hij; exact ⟨rfl, rfl⟩
  · have := h _ i j hij hv hv'
    rw [l1KeyEquals_trans hk ((l1KeyEquals_comm _ _).trans hk')] at this
    cases this

/-! ## The invariant -/

/-- Store number `n` put `v` with expiry `e` under `k`. -/
def Tells (stores : List Stored) (n : Nat) (k : FgaAclCacheKey) (v : Bool) (e : TimestampTz) : Prop :=
  ∃ st, stores[n]? = some st ∧ st.key = k ∧ st.allowed = v ∧ st.expires = e

/-- `n` is no older than what `b` has stored under `k` or been told about it. -/
def Fresh (stores : List Stored) (hits : List Hit) (ref : Nat → Nat) (b : Nat) (k : FgaAclCacheKey)
    (n : Nat) : Prop :=
  (∀ (i : Nat) h, hits[i]? = some h → h.backend = b → h.key = k → ref i ≤ n) ∧
  (∀ (m : Nat) st, stores[m]? = some st → st.backend = b → st.key = k → m ≤ n)

/-- What the hits so far satisfy. -/
structure HitsOk (stores : List Stored) (hits : List Hit) (ref : Nat → Nat) : Prop where
  told : ∀ (i : Nat) h, hits[i]? = some h → ref i < h.before ∧
    ∃ e, Tells stores (ref i) h.key h.allowed e ∧ h.now < e
  mono : ∀ (i j : Nat) h h', i ≤ j → hits[i]? = some h → hits[j]? = some h' →
    h.backend = h'.backend → h.key = h'.key → ref i ≤ ref j
  own : ∀ (i : Nat) h (m : Nat) st, hits[i]? = some h → stores[m]? = some st → m < h.before →
    st.backend = h.backend → st.key = h.key → m ≤ ref i
  before : ∀ (i : Nat) h, hits[i]? = some h → h.before ≤ stores.length

/-- Keys of the run, and times that are not negative. -/
def PcOk (K : FgaAclCacheKey → Prop) : CachePc → Prop
  | .idle => True
  | .storing k now ttl _ => K k ∧ 0 ≤ expiresAt now ttl
  | .looking k now => K k ∧ 0 ≤ now
  | .copying k _ e _ => K k ∧ 0 ≤ e

structure CacheInv (H : HashOps T FgaAclCacheKey Nat) (K : FgaAclCacheKey → Prop) (s : CacheSys T)
    (ref : Nat → Nat) : Prop where
  l2 : L2Inv H s.l2
  l1 : ∀ b, L1Inv (s.l1 b)
  pcOk : ∀ b, PcOk K (s.pc b)
  nonneg : ∀ (n : Nat) st, s.stores[n]? = some st → 0 ≤ st.expires
  l2Last : ∀ k v e g, K k → l2Content H s.l2 k = some (v, e, g) → ∃ n, Tells s.stores n k v e ∧
    ∀ (m : Nat) st, s.stores[m]? = some st → st.key = k → m ≤ n
  l1Fresh : ∀ b k v e g, K k → L1Holds (s.l1 b) k v e g →
    (∃ n exp, Tells s.stores n k v exp ∧ e = exp.toUInt64 ∧ Fresh s.stores s.hits ref b k n) ∨
    ∃ now ttl, s.pc b = .storing k now ttl v ∧ e = (expiresAt now ttl).toUInt64
  storing : ∀ b k now ttl v v' e g, s.pc b = .storing k now ttl v → L1Holds (s.l1 b) k v' e g →
    v' = v ∧ e = (expiresAt now ttl).toUInt64
  copying : ∀ b k now e v, s.pc b = .copying k now e v → now < e ∧
    ∃ n, Tells s.stores n k v e ∧ Fresh s.stores s.hits ref b k n
  hits : HitsOk s.stores s.hits ref

theorem Tells.lt {stores : List Stored} {n : Nat} {k : FgaAclCacheKey} {v : Bool} {e : TimestampTz}
    (h : Tells stores n k v e) : n < stores.length := by
  obtain ⟨st, hst, -⟩ := h
  exact (List.getElem?_eq_some_iff.1 hst).1

theorem Tells.snoc {stores : List Stored} {n : Nat} {k : FgaAclCacheKey} {v : Bool} {e : TimestampTz}
    (h : Tells stores n k v e) (st : Stored) : Tells (stores ++ [st]) n k v e := by
  obtain ⟨st', hst, hrest⟩ := h
  exact ⟨st', getElem?_snoc.2 (Or.inl hst), hrest⟩

/-- A new store by another backend, or of another key, leaves a place fresh. -/
theorem Fresh.snoc_store {stores : List Stored} {hits : List Hit} {ref : Nat → Nat} {b : Nat}
    {k : FgaAclCacheKey} {n : Nat} (h : Fresh stores hits ref b k n) (st : Stored)
    (hne : st.backend = b → st.key ≠ k) : Fresh (stores ++ [st]) hits ref b k n := by
  refine ⟨h.1, fun m st' hm hb hk => ?_⟩
  rcases getElem?_snoc.1 hm with hm | ⟨rfl, rfl⟩
  · exact h.2 m st' hm hb hk
  · exact absurd hk (hne hb)

/-- A new hit asks for freshness of its own backend's places for its key only. -/
theorem Fresh.snoc_hit {stores : List Stored} {hits : List Hit} {ref : Nat → Nat} {b : Nat}
    {k : FgaAclCacheKey} {n : Nat} (h : Fresh stores hits ref b k n) (hit : Hit) (r : Nat)
    (hle : hit.backend = b → hit.key = k → r ≤ n) :
    Fresh stores (hits ++ [hit]) (Function.update ref hits.length r) b k n := by
  refine ⟨fun i h' hi hb hk => ?_, h.2⟩
  rcases getElem?_snoc.1 hi with hi | ⟨rfl, rfl⟩
  · have hlt := (List.getElem?_eq_some_iff.1 hi).1
    rw [Function.update_of_ne (by omega)]
    exact h.1 i h' hi hb hk
  · simpa using hle hb hk

/-- A new hit that refers to a fresh place. -/
theorem HitsOk.snoc_hit {stores : List Stored} {hits : List Hit} {ref : Nat → Nat}
    (h : HitsOk stores hits ref) {b : Nat} {k : FgaAclCacheKey} {v : Bool} {now e : TimestampTz} {r : Nat}
    (htell : Tells stores r k v e) (hlt : now < e) (hfr : Fresh stores hits ref b k r) :
    HitsOk stores (hits ++ [⟨b, k, v, now, stores.length⟩]) (Function.update ref hits.length r) := by
  have old : ∀ {i : Nat} {h' : Hit}, hits[i]? = some h' → Function.update ref hits.length r i = ref i := by
    intro i h' hi
    have hlt := (List.getElem?_eq_some_iff.1 hi).1
    exact Function.update_of_ne (by omega) _ _
  refine ⟨fun i h' hi => ?_, fun i j h1 h2 hij hi hj hb hk => ?_, fun i h' m st hi hm hlt' hb hk => ?_,
    fun i h' hi => ?_⟩
  · rcases getElem?_snoc.1 hi with hi | ⟨rfl, rfl⟩
    · rw [old hi]; exact h.told i h' hi
    · rw [Function.update_self]; exact ⟨htell.lt, e, htell, hlt⟩
  · rcases getElem?_snoc.1 hi with hi | ⟨rfl, rfl⟩
    · rcases getElem?_snoc.1 hj with hj | ⟨rfl, rfl⟩
      · rw [old hi, old hj]; exact h.mono i j h1 h2 hij hi hj hb hk
      · rw [old hi, Function.update_self]; exact hfr.1 i h1 hi hb hk
    · rcases getElem?_snoc.1 hj with hj | ⟨rfl, rfl⟩
      · have := (List.getElem?_eq_some_iff.1 hj).1; omega
      · exact Nat.le_refl _
  · rcases getElem?_snoc.1 hi with hi | ⟨rfl, rfl⟩
    · rw [old hi]; exact h.own i h' m st hi hm hlt' hb hk
    · rw [Function.update_self]; exact hfr.2 m st hm hb hk
  · rcases getElem?_snoc.1 hi with hi | ⟨rfl, rfl⟩
    · exact h.before i h' hi
    · exact Nat.le_refl _

/-- A new store is newer than everything a past hit counted. -/
theorem HitsOk.snoc_store {stores : List Stored} {hits : List Hit} {ref : Nat → Nat}
    (h : HitsOk stores hits ref) (st : Stored) : HitsOk (stores ++ [st]) hits ref where
  told i h' hi := by
    obtain ⟨hlt, e, htell, hnow⟩ := h.told i h' hi
    exact ⟨hlt, e, htell.snoc st, hnow⟩
  mono := h.mono
  own i h' m st' hi hm hlt hb hk := by
    rcases getElem?_snoc.1 hm with hm | ⟨rfl, rfl⟩
    · exact h.own i h' m st' hi hm hlt hb hk
    · have := h.before i h' hi; omega
  before i h' hi := by have := h.before i h' hi; simp; omega

/-! ## One step -/

section
variable {K : FgaAclCacheKey → Prop}

/-- What a call of the run is promised: its key is one of the run's, its clock reading and the
expiry it computes are not negative. -/
def Admissible (K : FgaAclCacheKey → Prop) : CacheAct → Prop
  | .storeL1 _ key _ now ttl => K key ∧ 0 ≤ now ∧ 0 ≤ expiresAt now ttl
  | .lookupL1 _ key now => K key ∧ 0 ≤ now
  | _ => True

variable {s : CacheSys T} {ref : Nat → Nat}

/-- Of two keys of the run the first-level comparison tells whether they are one. -/
theorem eq_of_l1KeyEquals (hK : ∀ k k', K k → K k' → k.low = k'.low → k.high = k'.high → k = k')
    {k k' : FgaAclCacheKey} (hk : K k) (hk' : K k') (h : l1KeyEquals k k' = true) : k = k' :=
  hK k k' hk hk' (l1KeyEquals_iff.1 h).1 (l1KeyEquals_iff.1 h).2

/-- What the invariant says of one backend: its first level, and where it is. -/
structure BackendOk (K : FgaAclCacheKey → Prop) (stores : List Stored) (hits : List Hit) (ref : Nat → Nat)
    (b : Nat) (c : FgaL1Cache) (pc : CachePc) : Prop where
  l1 : L1Inv c
  pcOk : PcOk K pc
  fresh : ∀ k v e g, K k → L1Holds c k v e g →
    (∃ n exp, Tells stores n k v exp ∧ e = exp.toUInt64 ∧ Fresh stores hits ref b k n) ∨
    ∃ now ttl, pc = .storing k now ttl v ∧ e = (expiresAt now ttl).toUInt64
  storing : ∀ k now ttl v v' e g, pc = .storing k now ttl v → L1Holds c k v' e g →
    v' = v ∧ e = (expiresAt now ttl).toUInt64
  copying : ∀ k now e v, pc = .copying k now e v → now < e ∧
    ∃ n, Tells stores n k v e ∧ Fresh stores hits ref b k n

theorem CacheInv.backend (h : CacheInv H K s ref) (b : Nat) :
    BackendOk K s.stores s.hits ref b (s.l1 b) (s.pc b) :=
  ⟨h.l1 b, h.pcOk b, h.l1Fresh b, h.storing b, h.copying b⟩

theorem CacheInv.of_backends (hl2 : L2Inv H s.l2) (hnonneg : ∀ (n : Nat) st, s.stores[n]? = some st → 0 ≤ st.expires)
    (hlast : ∀ k v e g, K k → l2Content H s.l2 k = some (v, e, g) → ∃ n, Tells s.stores n k v e ∧
      ∀ (m : Nat) st, s.stores[m]? = some st → st.key = k → m ≤ n) (hhits : HitsOk s.stores s.hits ref) (b : Nat)
    (hself : BackendOk K s.stores s.hits ref b (s.l1 b) (s.pc b))
    (hother : ∀ b', b' ≠ b → BackendOk K s.stores s.hits ref b' (s.l1 b') (s.pc b')) : CacheInv H K s ref := by
  have hall : ∀ b', BackendOk K s.stores s.hits ref b' (s.l1 b') (s.pc b') := by
    intro b'
    by_cases hb : b' = b
    · subst hb; exact hself
    · exact hother b' hb
  exact ⟨hl2, fun b => (hall b).l1, fun b => (hall b).pcOk, hnonneg, hlast, fun b => (hall b).fresh,
    fun b => (hall b).storing, fun b => (hall b).copying, hhits⟩

section
variable {stores : List Stored} {hits : List Hit} {b : Nat} {c : FgaL1Cache} {pc : CachePc}

/-- A backend that is not on its way to L2 has in its first level what it was told or has stored. -/
theorem BackendOk.settled (h : BackendOk K stores hits ref b c pc) (hpc : ∀ k now ttl v, pc ≠ .storing k now ttl v)
    {k : FgaAclCacheKey} {v : Bool} {e : UInt64} {g : UInt16} (hk : K k) (hh : L1Holds c k v e g) :
    ∃ n exp, Tells stores n k v exp ∧ e = exp.toUInt64 ∧ Fresh stores hits ref b k n := by
  refine (h.fresh k v e g hk hh).resolve_right ?_
  rintro ⟨now, ttl, hp, -⟩
  exact hpc _ _ _ _ hp

/-- A backend that is not on its way from one level to the other. -/
theorem BackendOk.of_settled (hl1 : L1Inv c) (hpc : PcOk K pc) (hstoring : ∀ k now ttl v, pc ≠ .storing k now ttl v)
    (hcopying : ∀ k now e v, pc ≠ .copying k now e v)
    (hfresh : ∀ k v e g, K k → L1Holds c k v e g →
      ∃ n exp, Tells stores n k v exp ∧ e = exp.toUInt64 ∧ Fresh stores hits ref b k n) :
    BackendOk K stores hits ref b c pc where
  l1 := hl1
  pcOk := hpc
  fresh k v e g hk hh := Or.inl (hfresh k v e g hk hh)
  storing k now ttl v _ _ _ hp := absurd hp (hstoring k now ttl v)
  copying k now e v hp := absurd hp (hcopying k now e v)

/-- A longer history that keeps what the backend was told, and how fresh it is. -/
theorem BackendOk.mono (h : BackendOk K stores hits ref b c pc) {stores' : List Stored} {hits' : List Hit}
    {ref' : Nat → Nat} (htells : ∀ n k v e, Tells stores n k v e → Tells stores' n k v e)
    (hfresh : ∀ k n, Fresh stores hits ref b k n → Fresh stores' hits' ref' b k n) :
    BackendOk K stores' hits' ref' b c pc where
  l1 := h.l1
  pcOk := h.pcOk
  fresh k v e g hk hh := by
    refine (h.fresh k v e g hk hh).imp_left ?_
    rintro ⟨n, exp, htell, he, hfr⟩
    exact ⟨n, exp, htells _ _ _ _ htell, he, hfresh _ _ hfr⟩
  storing := h.storing
  copying k now e v hp := by
    obtain ⟨hlt, n, htell, hfr⟩ := h.copying k now e v hp
    exact ⟨hlt, n, htells _ _ _ _ htell, hfresh _ _ hfr⟩

/-- Another backend's store. -/
theorem BackendOk.snoc_store (h : BackendOk K stores hits ref b c pc) (st : Stored) (hne : st.backend ≠ b) :
    BackendOk K (stores ++ [st]) hits ref b c pc :=
  h.mono (fun _ _ _ _ htell => htell.snoc st) fun _ _ hfr => hfr.snoc_store st fun hb => absurd hb hne

/-- Another backend's hit. -/
theorem BackendOk.snoc_hit (h : BackendOk K stores hits ref b c pc) (hit : Hit) (r : Nat) (hne : hit.backend ≠ b) :
    BackendOk K stores (hits ++ [hit]) (Function.update ref hits.length r) b c pc :=
  h.mono (fun _ _ _ _ htell => htell) fun _ _ hfr => hfr.snoc_hit hit r fun hb => absurd hb hne

end

theorem CacheInv.storeL1 (hK : ∀ k k', K k → K k' → k.low = k'.low → k.high = k'.high → k = k')
    (h : CacheInv H K s ref) {b : Nat} {key : FgaAclCacheKey} {now : TimestampTz} {ttl : Int32}
    (g : UInt16) (v : Bool) (hpc : s.pc b = .idle) (hkey : K key) (hexp : 0 ≤ expiresAt now ttl) :
    CacheInv H K ((s.setL1 b (l1Store (s.l1 b) key g (expiresAt now ttl) v)).setPc b
      (.storing key now ttl v)) ref := by
  obtain ⟨hinv, -, hsub⟩ := l1Store_spec (h.l1 b) key g (expiresAt now ttl) v
  refine .of_backends h.l2 h.nonneg h.l2Last h.hits b ?_ fun b' hb => ?_
  · rw [setPc_self, setPc_l1, setL1_self]
    refine ⟨hinv, ⟨hkey, hexp⟩, fun k v' e g' hk hh => ?_, fun k now' ttl' v' v'' e g' hp hh => ?_,
      fun k now' e v' hp => (by cases hp)⟩
    · rcases hsub k v' e g' hh with ⟨hkk, rfl, rfl, -⟩ | ⟨-, hh⟩
      · obtain rfl := eq_of_l1KeyEquals hK hkey hk hkk
        exact Or.inr ⟨now, ttl, rfl, rfl⟩
      · exact Or.inl ((h.backend b).settled (by simp [hpc]) hk hh)
    · cases hp
      rcases hsub key v'' e g' hh with ⟨-, rfl, rfl, -⟩ | ⟨hne, -⟩
      · exact ⟨rfl, rfl⟩
      · rw [l1KeyEquals_refl] at hne; cases hne
  · rw [setPc_ne _ _ hb, setPc_l1, setL1_ne _ _ hb]
    exact h.backend b'

/-- The value a backend takes to L2 becomes the newest store of its key: the other side of the
backend's own first-level value. -/
theorem CacheInv.storeL2 (S : HashSpec H) (h : CacheInv H K s ref) {b : Nat} {key : FgaAclCacheKey}
    {now : TimestampTz} {ttl : Int32} {v : Bool} (hpc : s.pc b = .storing key now ttl v) {l2 : L2 T}
    {r : L2StoreEnd} (hst : l2Store H s.l2 key now (expiresAt now ttl) v = some (l2, r)) :
    CacheInv H K { s.setPc b .idle with l2 := l2, stores := s.stores ++ [⟨b, key, v, now, ttl⟩] } ref := by
  obtain ⟨l2', r', hst', -, hinv, -, -, hself, hother⟩ :=
    l2Store_spec S h.l2 key now (expiresAt now ttl) v
  rw [hst] at hst'; cases hst'
  have hpok := h.pcOk b
  rw [hpc] at hpok
  have hnew : Tells (s.stores ++ [⟨b, key, v, now, ttl⟩]) s.stores.length key v (expiresAt now ttl) :=
    ⟨⟨b, key, v, now, ttl⟩, getElem?_snoc.2 (Or.inr ⟨rfl, rfl⟩), rfl, rfl, rfl⟩
  have hlast : ∀ (m : Nat) st, (s.stores ++ [(⟨b, key, v, now, ttl⟩ : Stored)])[m]? = some st →
      m ≤ s.stores.length := by
    intro m st hm
    have := (List.getElem?_eq_some_iff.1 hm).1
    simp at this; omega
  refine .of_backends hinv (fun n st hn => ?_) (fun k v' e g hk hc => ?_) (h.hits.snoc_store _) b ?_ fun b' hb => ?_
  · rcases getElem?_snoc.1 hn with hn | ⟨-, rfl⟩
    · exact h.nonneg n st hn
    · exact hpok.2
  · by_cases hkk : k = key
    · subst hkk
      rw [hself] at hc; cases hc
      exact ⟨_, hnew, fun m st hm _ => hlast m st hm⟩
    · rcases hother k hkk with hc' | hc' <;> rw [hc'] at hc
      · obtain ⟨n, htell, hmax⟩ := h.l2Last k v' e g hk hc
        refine ⟨n, htell.snoc _, fun m st hm hst => ?_⟩
        rcases getElem?_snoc.1 hm with hm | ⟨-, rfl⟩
        · exact hmax m st hm hst
        · exact absurd hst (Ne.symm hkk)
      · cases hc
  · show BackendOk K _ s.hits ref b (s.l1 b) ((s.setPc b .idle).pc b)
    rw [setPc_self]
    refine .of_settled (h.l1 b) trivial (by simp) (by simp) fun k v' e g hk hh => ?_
    by_cases hkk : k = key
    · subst hkk
      obtain ⟨rfl, rfl⟩ := h.storing b k now ttl v v' e g hpc hh
      refine ⟨_, _, hnew, rfl, fun i hit hi _ _ => ?_, fun m st hm _ _ => hlast m st hm⟩
      have := (h.hits.told i hit hi).1
      have := h.hits.before i hit hi
      omega
    · rcases h.l1Fresh b k v' e g hk hh with ⟨n, exp, htell, he, hfr⟩ | ⟨now', ttl', hp, he⟩
      · exact ⟨n, exp, htell.snoc _, he, hfr.snoc_store _ fun _ => Ne.symm hkk⟩
      · rw [hpc] at hp
        cases hp
        exact absurd rfl hkk
  · show BackendOk K _ s.hits ref b' (s.l1 b') ((s.setPc b .idle).pc b')
    rw [setPc_ne _ _ hb]
    exact (h.backend b').snoc_store _ (Ne.symm hb)

/-- A first-level hit refers to the place the value is tied to. -/
theorem CacheInv.hitL1 (h : CacheInv H K s ref) {b : Nat} {key : FgaAclCacheKey} {now : TimestampTz}
    {g : UInt16} {v : Bool} {c : FgaL1Cache} (hpc : s.pc b = .idle) (hkey : K key) (hnow : 0 ≤ now)
    (hl : l1Lookup (s.l1 b) key g now = (some v, c)) :
    ∃ ref, CacheInv H K
      { s.setL1 b c with hits := s.hits ++ [⟨b, key, v, now, s.stores.length⟩] } ref := by
  obtain ⟨hinv, hsub, hhit⟩ := l1Lookup_spec (h.l1 b) key g now
  rw [hl] at hinv hsub hhit
  obtain ⟨e, hholds, hlt⟩ := hhit v rfl
  have hsettled : ∀ {k v e g}, K k → L1Holds (s.l1 b) k v e g →
      ∃ n exp, Tells s.stores n k v exp ∧ e = exp.toUInt64 ∧ Fresh s.stores s.hits ref b k n :=
    fun hk hh => (h.backend b).settled (by simp [hpc]) hk hh
  obtain ⟨n, exp, htell, rfl, hfr⟩ := hsettled hkey hholds
  obtain ⟨st, hst, -, -, hste⟩ := id htell
  have hexp : 0 ≤ exp := hste ▸ h.nonneg n st hst
  have hlt' : now < exp := by
    rw [toUInt64_le_iff hexp hnow, Int64.not_le] at hlt; exact hlt
  refine ⟨Function.update ref s.hits.length n,
    .of_backends h.l2 h.nonneg h.l2Last (h.hits.snoc_hit htell hlt' hfr) b ?_ fun b' hb => ?_⟩
  · show BackendOk K s.stores _ _ b ((s.setL1 b c).l1 b) (s.pc b)
    rw [setL1_self, hpc]
    refine .of_settled hinv trivial (by simp) (by simp) fun k v' e' g' hk hh => ?_
    have hh' := hsub k v' e' g' hh
    by_cases hkk : k = key
    · subst hkk
      obtain ⟨rfl, rfl⟩ := l1Holds_unique (h.l1 b) hh' hholds
      exact ⟨n, exp, htell, rfl, hfr.snoc_hit _ _ fun _ _ => Nat.le_refl n⟩
    · obtain ⟨m, exp', ht, he, hf⟩ := hsettled hk hh'
      exact ⟨m, exp', ht, he, hf.snoc_hit _ _ fun _ hkk' => absurd hkk' (Ne.symm hkk)⟩
  · show BackendOk K s.stores _ _ b' ((s.setL1 b c).l1 b') (s.pc b')
    rw [setL1_ne _ _ hb]
    exact (h.backend b').snoc_hit _ _ (Ne.symm hb)

theorem CacheInv.missL1 (h : CacheInv H K s ref) {b : Nat} {key : FgaAclCacheKey} {now : TimestampTz}
    {g : UInt16} {c : FgaL1Cache} (hpc : s.pc b = .idle) (hkey : K key) (hnow : 0 ≤ now)
    (hl : l1Lookup (s.l1 b) key g now = (none, c)) :
    CacheInv H K ((s.setL1 b c).setPc b (.looking key now)) ref := by
  obtain ⟨hinv, hsub, -⟩ := l1Lookup_spec (h.l1 b) key g now
  rw [hl] at hinv hsub
  refine .of_backends h.l2 h.nonneg h.l2Last h.hits b ?_ fun b' hb => ?_
  · rw [setPc_self, setPc_l1, setL1_self]
    refine .of_settled hinv ⟨hkey, hnow⟩ (by simp) (by simp) fun k v' e g' hk hh => ?_
    exact (h.backend b).settled (by simp [hpc]) hk (hsub k v' e g' hh)
  · rw [setPc_ne _ _ hb, setPc_l1, setL1_ne _ _ hb]
    exact h.backend b'

theorem CacheInv.lookupL2 (h : CacheInv H K s ref) {b : Nat} {key : FgaAclCacheKey} {now : TimestampTz}
    (hpc : s.pc b = .looking key now) (pc : CachePc)
    (hnew : pc = .idle ∧ (l2Lookup H s.l2 key now).1 = none ∨
      ∃ v e, pc = .copying key now e v ∧ (l2Lookup H s.l2 key now).1 = some (v, e)) :
    CacheInv H K { s.setPc b pc with l2 := (l2Lookup H s.l2 key now).2 } ref := by
  obtain ⟨hinv, -, -, hcont, hhit⟩ := l2Lookup_spec h.l2 key now
  have hpok := h.pcOk b
  rw [hpc] at hpok
  -- the newest store of the key is at least as new as anything the backend knows of
  have hcopy : ∀ v e, (l2Lookup H s.l2 key now).1 = some (v, e) → now < e ∧
      ∃ n, Tells s.stores n key v e ∧ Fresh s.stores s.hits ref b key n := by
    intro v e hl
    obtain ⟨hc, hlt⟩ := (hhit v e).1 hl
    obtain ⟨n, htell, hmax⟩ := h.l2Last key v e _ hpok.1 hc
    refine ⟨hlt, n, htell, fun i hit hi _ hk => ?_, fun m st hm _ hk => hmax m st hm hk⟩
    obtain ⟨-, _, ⟨st, hst, hsk, -⟩, -⟩ := h.hits.told i hit hi
    exact hmax _ st hst (hsk.trans hk)
  refine .of_backends hinv h.nonneg (fun k v e g hk hc => ?_) h.hits b ?_ fun b' hb => ?_
  · rw [hcont] at hc
    exact h.l2Last k v e g hk hc
  · show BackendOk K s.stores s.hits ref b (s.l1 b) ((s.setPc b pc).pc b)
    rw [setPc_self]
    have hfresh : ∀ k v e g, K k → L1Holds (s.l1 b) k v e g →
        ∃ n exp, Tells s.stores n k v exp ∧ e = exp.toUInt64 ∧ Fresh s.stores s.hits ref b k n :=
      fun k v e g hk hh => (h.backend b).settled (by simp [hpc]) hk hh
    rcases hnew with ⟨rfl, -⟩ | ⟨v, e, rfl, hl⟩
    · exact .of_settled (h.l1 b) trivial (by simp) (by simp) hfresh
    · obtain ⟨-, n, ⟨st, hst, -, -, hste⟩, -⟩ := hcopy v e hl
      refine ⟨h.l1 b, ⟨hpok.1, hste ▸ h.nonneg n st hst⟩, fun k v e g hk hh => Or.inl (hfresh k v e g hk hh),
        fun k now' ttl' v' v'' e g hp => (by cases hp), fun k now' e' v' hp => ?_⟩
      cases hp
      exact hcopy v e hl
  · show BackendOk K s.stores s.hits ref b' (s.l1 b') ((s.setPc b pc).pc b')
    rw [setPc_ne _ _ hb]
    exact h.backend b'

/-- The hit that copies an L2 value into L1 refers to the store the value was. -/
theorem CacheInv.copyL1 (hK : ∀ k k', K k → K k' → k.low = k'.low → k.high = k'.high → k = k')
    (h : CacheInv H K s ref) {b : Nat} {key : FgaAclCacheKey} {now e : TimestampTz} {v : Bool}
    (g : UInt16) (hpc : s.pc b = .copying key now e v) :
    ∃ ref, CacheInv H K { (s.setL1 b (l1Store (s.l1 b) key g e v)).setPc b .idle with
      hits := s.hits ++ [⟨b, key, v, now, s.stores.length⟩] } ref := by
  obtain ⟨hinv, -, hsub⟩ := l1Store_spec (h.l1 b) key g e v
  obtain ⟨hlt, n, htell, hfr⟩ := h.copying b key now e v hpc
  have hpok := h.pcOk b
  rw [hpc] at hpok
  refine ⟨Function.update ref s.hits.length n,
    .of_backends h.l2 h.nonneg h.l2Last (h.hits.snoc_hit htell hlt hfr) b ?_ fun b' hb => ?_⟩
  · show BackendOk K s.stores _ _ b ((s.setL1 b (l1Store (s.l1 b) key g e v)).l1 b)
      (((s.setL1 b (l1Store (s.l1 b) key g e v)).setPc b .idle).pc b)
    rw [setL1_self, setPc_self]
    refine .of_settled hinv trivial (by simp) (by simp) fun k v' e' g' hk hh => ?_
    rcases hsub k v' e' g' hh with ⟨hkk, rfl, rfl, -⟩ | ⟨hne, hh⟩
    · obtain rfl := eq_of_l1KeyEquals hK hpok.1 hk hkk
      exact ⟨n, e, htell, rfl, hfr.snoc_hit _ _ fun _ _ => Nat.le_refl n⟩
    · have hne' : key ≠ k := by
        rintro rfl
        rw [l1KeyEquals_refl] at hne; cases hne
      obtain ⟨m, exp', ht, he, hf⟩ := (h.backend b).settled (by simp [hpc]) hk hh
      exact ⟨m, exp', ht, he, hf.snoc_hit _ _ fun _ hkk => absurd hkk hne'⟩
  · show BackendOk K s.stores _ _ b' ((s.setL1 b (l1Store (s.l1 b) key g e v)).l1 b')
      (((s.setL1 b (l1Store (s.l1 b) key g e v)).setPc b .idle).pc b')
    rw [setPc_ne _ _ hb, setL1_pc, setL1_ne _ _ hb]
    exact (h.backend b').snoc_hit _ _ (Ne.symm hb)

/-- **One step.** -/
theorem CacheInv.step (S : HashSpec H)
    (hK : ∀ k k', K k → K k' → k.low = k'.low → k.high = k'.high → k = k') {s' : CacheSys T}
    {act : CacheAct} (h : ∃ ref, CacheInv H K s ref) (ha : Admissible K act)
    (hs : cacheStep H s act = some s') : ∃ ref, CacheInv H K s' ref := by
  obtain ⟨ref, h⟩ := h
  cases act with
  | storeL1 b key v now ttl =>
    simp only [cacheStep] at hs
    split at hs
    · rename_i hpc
      cases hs
      exact ⟨ref, h.storeL1 hK _ v hpc ha.1 ha.2.2⟩
    · cases hs
  | storeL2 b =>
    simp only [cacheStep] at hs
    split at hs
    · rename_i key now ttl v hpc
      obtain ⟨⟨l2, r⟩, hst, rfl⟩ := Option.map_eq_some_iff.1 hs
      exact ⟨ref, h.storeL2 S hpc hst⟩
    · cases hs
  | lookupL1 b key now =>
    simp only [cacheStep] at hs
    split at hs
    · rename_i hpc
      split at hs
      · rename_i hl
        cases hs
        exact h.hitL1 hpc ha.1 ha.2 hl
      · rename_i hl
        cases hs
        exact ⟨ref, h.missL1 hpc ha.1 ha.2 hl⟩
    · cases hs
  | lookupL2 b =>
    simp only [cacheStep] at hs
    split at hs
    · rename_i key now hpc
      split at hs
      · rename_i v e l2 hl
        cases hs
        have h' := h.lookupL2 hpc (.copying key now e v) (Or.inr ⟨v, e, rfl, by rw [hl]⟩)
        rw [hl] at h'
        exact ⟨ref, h'⟩
      · rename_i l2 hl
        cases hs
        have h' := h.lookupL2 hpc .idle (Or.inl ⟨rfl, by rw [hl]⟩)
        rw [hl] at h'
        exact ⟨ref, h'⟩
    · cases hs
  | copyL1 b =>
    simp only [cacheStep] at hs
    split at hs
    · rename_i key now e v hpc
      cases hs
      exact h.copyL1 hK _ hpc
    · cases hs

/-! ## Runs -/

theorem cacheInv_init (S : HashSpec H) (capacity : UInt32) (mem : Nat → FgaL2AclEntry)
    (h2 : 2 ≤ capacity.toNat) :
    CacheInv H K (cacheInit (l2Startup H (fgaCacheShmemInit capacity mem))) fun _ => 0 where
  l2 := l2Inv_startup S capacity mem h2
  l1 _ := l1Inv_startup
  pcOk _ := trivial
  nonneg n st h := by simp [cacheInit] at h
  l2Last k v e g _ hc := by
    simp [cacheInit, l2Content, l2Startup, S.find_create] at hc
  l1Fresh b k v e g _ hh := absurd hh (l1Startup_holds k v e g)
  storing b k now ttl v v' e g _ hh := absurd hh (l1Startup_holds k v' e g)
  copying b k now e v hp := by cases hp
  hits := by constructor <;> simp [cacheInit]

/-- **Soundness and monotonic reads of the two-level cache.** Backends over one L2 of capacity two
or more, keys told apart by their two hash words, times that are not negative; the L1 part and the
L2 critical section of every call are separate steps. After every run the hits refer to stores
(`ref`, places in the order of the L2 critical sections) such that a hit comes after the store,
answers its value for its key and before its expiry; the hits of one backend for one key refer to
stores in non-decreasing order, and to none older than a store the backend itself had made. -/
theorem cacheRun_sound (S : HashSpec H)
    (hK : ∀ k k', K k → K k' → k.low = k'.low → k.high = k'.high → k = k') (capacity : UInt32)
    (mem : Nat → FgaL2AclEntry) (h2 : 2 ≤ capacity.toNat) (acts : List CacheAct)
    (hacts : ∀ a ∈ acts, Admissible K a) {s : CacheSys T}
    (hrun : run (cacheStep H) (cacheInit (l2Startup H (fgaCacheShmemInit capacity mem))) acts = some s) :
    ∃ ref : Nat → Nat,
      (∀ (i : Nat) h, s.hits[i]? = some h → ref i < h.before ∧ ∃ st, s.stores[ref i]? = some st ∧
        st.key = h.key ∧ st.allowed = h.allowed ∧ h.now < st.expires) ∧
      (∀ (i j : Nat) h h', i ≤ j → s.hits[i]? = some h → s.hits[j]? = some h' →
        h.backend = h'.backend → h.key = h'.key → ref i ≤ ref j) ∧
      ∀ (i : Nat) h (m : Nat) st, s.hits[i]? = some h → s.stores[m]? = some st → m < h.before →
        st.backend = h.backend → st.key = h.key → m ≤ ref i := by
  obtain ⟨ref, h⟩ := run_inv_of_meets (fun s => ∃ ref, CacheInv H K s ref) (fun _ => Admissible K)
    (fun _ _ _ hs ha hst => CacheInv.step S hK hs ha hst) acts
    ⟨_, cacheInv_init S capacity mem h2⟩ (meets_of_forall acts _ hacts) hrun
  refine ⟨ref, fun i hit hi => ?_, h.hits.mono, h.hits.own⟩
  obtain ⟨hlt, e, ⟨st, hst, hk, hv, rfl⟩, hnow⟩ := h.hits.told i hit hi
  exact ⟨hlt, st, hst, hk, hv, hnow⟩

/-- One backend stores, another is told. -/
theorem cacheRun_sound_told : ∃ s : CacheSys (HashTable.Ref FgaAclCacheKey Nat), ∃ ref : Nat → Nat,
    run (cacheStep refIndex) (cacheInit (l2Startup refIndex (fgaCacheShmemInit 2 zeroedMem)))
      [.storeL1 0 ⟨7, 7, 7, 0, 0⟩ true 3 1000, .storeL2 0, .lookupL1 1 ⟨7, 7, 7, 0, 0⟩ 5, .lookupL2 1,
        .copyL1 1] = some s ∧
    ∀ (i : Nat) h, s.hits[i]? = some h → ref i < h.before ∧ ∃ st, s.stores[ref i]? = some st ∧
      st.key = h.key ∧ st.allowed = h.allowed ∧ h.now < st.expires := by
  obtain ⟨s, hs⟩ := Option.isSome_iff_exists.1 (show (run (cacheStep refIndex)
    (cacheInit (l2Startup refIndex (fgaCacheShmemInit 2 zeroedMem)))
    [.storeL1 0 ⟨7, 7, 7, 0, 0⟩ true 3 1000, .storeL2 0, .lookupL1 1 ⟨7, 7, 7, 0, 0⟩ 5, .lookupL2 1,
      .copyL1 1]).isSome = true by decide +kernel)
  obtain ⟨ref, htold, -⟩ := cacheRun_sound (K := (· = ⟨7, 7, 7, 0, 0⟩)) refIndex_spec
    (fun k k' hk hk' _ _ => hk.trans hk'.symm) 2 zeroedMem (by decide) _
    (by simp [Admissible]; decide) hs
  exact ⟨s, ref, hs, htold⟩

end

end PostFga
