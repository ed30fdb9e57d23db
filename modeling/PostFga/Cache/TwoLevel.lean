import PostFga.Cache.L1
import PostFga.Cache.L2Inv
import PostFga.Lib.Transition
/-
# `fga_cache_lookup` and `fga_cache_store` (`cache.c:71`, `:103`)

| here | there |
| --- | --- |
| `CacheConfig`      | the settings the two functions read (`config.h`) |
| `fgaCacheLookup`   | `fga_cache_lookup`; the reading of the clock (`get_now_ms`, `:18`) is an argument, the hit and miss counters are left out |
| `fgaCacheStore`    | `fga_cache_store`; `now_ms + config->cache_ttl_ms` wraps as PostgreSQL compiles it (`-fwrapv`) |
| `CacheSys`, `step` | any number of backends, each in one call at a time, whose L1 parts and L2 critical sections interleave |

The generation is read outside the lock (`:85`, `:95`, `:117`); nothing ever changes it.
-/

namespace PostFga

open Transition

structure CacheConfig where
  cacheEnabled : Bool
  cacheTtlMs : Int32
deriving DecidableEq, Repr

def expiresAt (nowMs : TimestampTz) (ttlMs : Int32) : TimestampTz := nowMs + ttlMs.toInt64

section
variable {T : Type} (H : HashOps T FgaAclCacheKey Nat)

def fgaCacheLookup (cfg : CacheConfig) (nowMs : TimestampTz) (key : FgaAclCacheKey) (l1 : FgaL1Cache)
    (l2 : L2 T) : Option Bool × FgaL1Cache × L2 T :=
  if !cfg.cacheEnabled then (none, l1, l2)
  else
    match l1Lookup l1 key l2.cache.generation nowMs with
    | (some allowed, l1) => (some allowed, l1, l2)
    | (none, l1) =>
      match l2Lookup H l2 key nowMs with
      | (some (allowed, expires), l2) =>
        (some allowed, l1Store l1 key l2.cache.generation expires allowed, l2)
      | (none, l2) => (none, l1, l2)

def fgaCacheStore (cfg : CacheConfig) (nowMs : TimestampTz) (key : FgaAclCacheKey) (allowed : Bool)
    (l1 : FgaL1Cache) (l2 : L2 T) : Option (FgaL1Cache × L2 T × Option L2StoreEnd) :=
  if !cfg.cacheEnabled then some (l1, l2, none)
  else
    let expires := expiresAt nowMs cfg.cacheTtlMs
    let l1 := l1Store l1 key l2.cache.generation expires allowed
    (l2Store H l2 key nowMs expires allowed).map fun (l2, r) => (l1, l2, some r)

/-! ## Interleaved calls -/

/-- Where a backend is in its call. -/
inductive CachePc where
  | idle
  /-- In `fga_cache_store`, between `l1_store` and `l2_store`. -/
  | storing (key : FgaAclCacheKey) (now : TimestampTz) (ttl : Int32) (allowed : Bool)
  /-- In `fga_cache_lookup`, after an L1 miss. -/
  | looking (key : FgaAclCacheKey) (now : TimestampTz)
  /-- In `fga_cache_lookup`, after an L2 hit, before the copy into L1. -/
  | copying (key : FgaAclCacheKey) (now expires : TimestampTz) (allowed : Bool)
deriving DecidableEq, Repr

/-- A call of `fga_cache_store` that has been through its L2 critical section. -/
structure Stored where
  backend : Nat
  key : FgaAclCacheKey
  allowed : Bool
  now : TimestampTz
  ttl : Int32
deriving DecidableEq, Repr

def Stored.expires (st : Stored) : TimestampTz := expiresAt st.now st.ttl

/-- A call of `fga_cache_lookup` that hit, and how many stores had been through by then. -/
structure Hit where
  backend : Nat
  key : FgaAclCacheKey
  allowed : Bool
  now : TimestampTz
  before : Nat
deriving DecidableEq, Repr

structure CacheSys (T : Type) where
  l1 : Nat → FgaL1Cache
  l2 : L2 T
  pc : Nat → CachePc
  /-- In the order of the L2 critical sections. -/
  stores : List Stored
  hits : List Hit

inductive CacheAct where
  | storeL1 (b : Nat) (key : FgaAclCacheKey) (allowed : Bool) (now : TimestampTz) (ttl : Int32)
  | storeL2 (b : Nat)
  | lookupL1 (b : Nat) (key : FgaAclCacheKey) (now : TimestampTz)
  | lookupL2 (b : Nat)
  | copyL1 (b : Nat)
deriving DecidableEq, Repr

def cacheInit (l2 : L2 T) : CacheSys T := ⟨fun _ => l1Startup, l2, fun _ => .idle, [], []⟩

namespace CacheSys

def setPc (s : CacheSys T) (b : Nat) (pc : CachePc) : CacheSys T :=
  { s with pc := Function.update s.pc b pc }

def setL1 (s : CacheSys T) (b : Nat) (c : FgaL1Cache) : CacheSys T :=
  { s with l1 := Function.update s.l1 b c }

end CacheSys

def cacheStep (s : CacheSys T) : CacheAct → Option (CacheSys T)
  | .storeL1 b key allowed now ttl =>
    match s.pc b with
    | .idle =>
      let c := l1Store (s.l1 b) key s.l2.cache.generation (expiresAt now ttl) allowed
      some ((s.setL1 b c).setPc b (.storing key now ttl allowed))
    | _ => none
  | .storeL2 b =>
    match s.pc b with
    | .storing key now ttl allowed =>
      (l2Store H s.l2 key now (expiresAt now ttl) allowed).map fun (l2, _) =>
        { s.setPc b .idle with l2 := l2, stores := s.stores ++ [⟨b, key, allowed, now, ttl⟩] }
    | _ => none
  | .lookupL1 b key now =>
    match s.pc b with
    | .idle =>
      match l1Lookup (s.l1 b) key s.l2.cache.generation now with
      | (some allowed, c) =>
        some { s.setL1 b c with hits := s.hits ++ [⟨b, key, allowed, now, s.stores.length⟩] }
      | (none, c) => some ((s.setL1 b c).setPc b (.looking key now))
    | _ => none
  | .lookupL2 b =>
    match s.pc b with
    | .looking key now =>
      match l2Lookup H s.l2 key now with
      | (some (allowed, expires), l2) =>
        some { s.setPc b (.copying key now expires allowed) with l2 := l2 }
      | (none, l2) => some { s.setPc b .idle with l2 := l2 }
    | _ => none
  | .copyL1 b =>
    match s.pc b with
    | .copying key now expires allowed =>
      let c := l1Store (s.l1 b) key s.l2.cache.generation expires allowed
      some { (s.setL1 b c).setPc b .idle with
             hits := s.hits ++ [⟨b, key, allowed, now, s.stores.length⟩] }
    | _ => none

@[simp] theorem setPc_self (s : CacheSys T) (b : Nat) (pc : CachePc) : (s.setPc b pc).pc b = pc := by
  simp [CacheSys.setPc]
theorem setPc_ne (s : CacheSys T) {b b' : Nat} (pc : CachePc) (h : b' ≠ b) :
    (s.setPc b pc).pc b' = s.pc b' := by simp [CacheSys.setPc, h]
@[simp] theorem setPc_l1 (s : CacheSys T) (b : Nat) (pc : CachePc) : (s.setPc b pc).l1 = s.l1 := rfl
@[simp] theorem setPc_l2 (s : CacheSys T) (b : Nat) (pc : CachePc) : (s.setPc b pc).l2 = s.l2 := rfl
@[simp] theorem setPc_stores (s : CacheSys T) (b : Nat) (pc : CachePc) :
    (s.setPc b pc).stores = s.stores := rfl
@[simp] theorem setPc_hits (s : CacheSys T) (b : Nat) (pc : CachePc) : (s.setPc b pc).hits = s.hits := rfl
@[simp] theorem setL1_self (s : CacheSys T) (b : Nat) (c : FgaL1Cache) : (s.setL1 b c).l1 b = c := by
  simp [CacheSys.setL1]
theorem setL1_ne (s : CacheSys T) {b b' : Nat} (c : FgaL1Cache) (h : b' ≠ b) :
    (s.setL1 b c).l1 b' = s.l1 b' := by simp [CacheSys.setL1, h]
@[simp] theorem setL1_pc (s : CacheSys T) (b : Nat) (c : FgaL1Cache) : (s.setL1 b c).pc = s.pc := rfl
@[simp] theorem setL1_l2 (s : CacheSys T) (b : Nat) (c : FgaL1Cache) : (s.setL1 b c).l2 = s.l2 := rfl
@[simp] theorem setL1_stores (s : CacheSys T) (b : Nat) (c : FgaL1Cache) :
    (s.setL1 b c).stores = s.stores := rfl
@[simp] theorem setL1_hits (s : CacheSys T) (b : Nat) (c : FgaL1Cache) : (s.setL1 b c).hits = s.hits := rfl

/-! ## The steps of one call, uninterrupted, are the call -/

section
variable {H : HashOps T FgaAclCacheKey Nat} {s : CacheSys T} {b : Nat} {cfg : CacheConfig}
  {now : TimestampTz} {key : FgaAclCacheKey}

theorem fgaCacheStore_run (hen : cfg.cacheEnabled = true) (hpc : s.pc b = .idle) (allowed : Bool)
    {l1 : FgaL1Cache} {l2 : L2 T} {r : Option L2StoreEnd}
    (h : fgaCacheStore H cfg now key allowed (s.l1 b) s.l2 = some (l1, l2, r)) :
    ∃ s', run (cacheStep H) s [.storeL1 b key allowed now cfg.cacheTtlMs, .storeL2 b] = some s' ∧
      s'.l1 b = l1 ∧ s'.l2 = l2 ∧ s'.pc b = .idle ∧
      s'.stores = s.stores ++ [⟨b, key, allowed, now, cfg.cacheTtlMs⟩] := by
  simp only [fgaCacheStore, hen, Bool.not_true, Bool.false_eq_true, if_false, Option.map_eq_some_iff] at h
  obtain ⟨⟨l2', r'⟩, hst, he⟩ := h
  cases he
  have h1 : cacheStep H s (.storeL1 b key allowed now cfg.cacheTtlMs) = some ((s.setL1 b
      (l1Store (s.l1 b) key s.l2.cache.generation (expiresAt now cfg.cacheTtlMs) allowed)).setPc b
      (.storing key now cfg.cacheTtlMs allowed)) := by simp only [cacheStep, hpc]
  obtain ⟨s2, h2, he⟩ : ∃ s2, cacheStep H ((s.setL1 b (l1Store (s.l1 b) key s.l2.cache.generation
      (expiresAt now cfg.cacheTtlMs) allowed)).setPc b (.storing key now cfg.cacheTtlMs allowed))
      (.storeL2 b) = some s2 ∧ s2.l1 b = l1Store (s.l1 b) key s.l2.cache.generation
        (expiresAt now cfg.cacheTtlMs) allowed ∧ s2.l2 = l2' ∧ s2.pc b = .idle ∧
      s2.stores = s.stores ++ [⟨b, key, allowed, now, cfg.cacheTtlMs⟩] := by
    simp only [cacheStep, setPc_self, setPc_l2, setL1_l2, hst, Option.map_some]
    exact ⟨_, rfl, by simp⟩
  exact ⟨s2, run_cons.2 ⟨_, h1, run_cons.2 ⟨_, h2, rfl⟩⟩, he⟩

theorem copyStep {e : TimestampTz} {v : Bool} (hpc : s.pc b = .copying key now e v) :
    cacheStep H s (.copyL1 b) = some
      { (s.setL1 b (l1Store (s.l1 b) key s.l2.cache.generation e v)).setPc b .idle with
        hits := s.hits ++ [⟨b, key, v, now, s.stores.length⟩] } := by
  simp only [cacheStep, hpc]

theorem fgaCacheLookup_run (hen : cfg.cacheEnabled = true) (hpc : s.pc b = .idle) :
    ∃ acts s', run (cacheStep H) s (.lookupL1 b key now :: acts) = some s' ∧
      (s'.l1 b, s'.l2) = (fgaCacheLookup H cfg now key (s.l1 b) s.l2).2 ∧ s'.pc b = .idle ∧
      s'.hits = s.hits ++ ((fgaCacheLookup H cfg now key (s.l1 b) s.l2).1.map
        fun v => (⟨b, key, v, now, s.stores.length⟩ : Hit)).toList := by
  simp only [fgaCacheLookup, hen, Bool.not_true, Bool.false_eq_true, if_false]
  rcases hl1 : l1Lookup (s.l1 b) key s.l2.cache.generation now with ⟨_ | v, c⟩
  · have h1 : cacheStep H s (.lookupL1 b key now) = some ((s.setL1 b c).setPc b (.looking key now)) := by
      simp only [cacheStep, hpc, hl1]
    rcases hl2 : l2Lookup H s.l2 key now with ⟨_ | ⟨v, e⟩, l2⟩
    · have h2 : cacheStep H ((s.setL1 b c).setPc b (.looking key now)) (.lookupL2 b) =
          some { ((s.setL1 b c).setPc b (.looking key now)).setPc b .idle with l2 := l2 } := by
        simp only [cacheStep, setPc_self, setPc_l2, setL1_l2, hl2]
      exact ⟨[.lookupL2 b], _, run_cons.2 ⟨_, h1, run_cons.2 ⟨_, h2, rfl⟩⟩, by simp⟩
    · have h2 : cacheStep H ((s.setL1 b c).setPc b (.looking key now)) (.lookupL2 b) =
          some { ((s.setL1 b c).setPc b (.looking key now)).setPc b (.copying key now e v) with
            l2 := l2 } := by
        simp only [cacheStep, setPc_self, setPc_l2, setL1_l2, hl2]
      have h3 := copyStep (H := H) (s := { ((s.setL1 b c).setPc b (.looking key now)).setPc b
        (.copying key now e v) with l2 := l2 }) (setPc_self _ b _)
      exact ⟨[.lookupL2 b, .copyL1 b], _,
        run_cons.2 ⟨_, h1, run_cons.2 ⟨_, h2, run_cons.2 ⟨_, h3, rfl⟩⟩⟩, by simp⟩
  · have h1 : cacheStep H s (.lookupL1 b key now) = some
        { s.setL1 b c with hits := s.hits ++ [⟨b, key, v, now, s.stores.length⟩] } := by
      simp only [cacheStep, hpc, hl1]
    exact ⟨[], _, run_cons.2 ⟨_, h1, rfl⟩, by simp, by simpa using hpc, by simp⟩

end

end

end PostFga
