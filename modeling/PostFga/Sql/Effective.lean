import PostFga.Sql.Check
/-
# Runs of `fga_check` and the cache (`func_fga.c:129`)

After a miss `fga_check` asks OpenFGA and returns the answer. Nothing calls `fga_cache_store`
(`cache.c:103`), so that the two caches stay as they were started.

| here | there |
| --- | --- |
| `CheckEvent` | one call: who makes it and with what, and what the channel makes of it |
| `Caches`     | the L1 cache of every backend, and the L2 cache |
| `checkStep`  | what `fga_check` does to the caches; `none` is a write past the end of the key buffer |
| `Effective`  | what the cache should do for a run |
| `effective_iff` | when it does |

A call reads and writes the shared cache in the one critical section of `l2_lookup`; the calls of a run
stand in the order of these sections, which for one backend is the order of the calls.
-/

namespace PostFga

open Transition

structure CheckEvent where
  backend : Nat
  args : TupleArgs
  config : FgaConfig
  cacheConfig : CacheConfig
  /-- The time of the lookup. -/
  nowMs : TimestampTz
  slotFree : Bool
  requestId : UInt64
  exec : ExecEnd
  /-- The time at which the response has been read. -/
  answeredMs : TimestampTz
  /-- What the locals `key` and `allowed` hold before. -/
  key₀ : FgaAclCacheKey
  allowed₀ : Bool

structure Caches (T : Type) where
  l1 : Nat → FgaL1Cache
  l2 : L2 T

def CheckEvent.call {T : Type} (x : CheckEvent) (s : Caches T) : CheckCall T where
  args := x.args
  config := x.config
  cacheConfig := x.cacheConfig
  nowMs := x.nowMs
  l1 := s.l1 x.backend
  l2 := s.l2
  slotFree := x.slotFree
  requestId := x.requestId
  exec := x.exec

section
variable {T : Type} (H : HashOps T FgaAclCacheKey Nat) (X : XXH3)

def cachesInit (capacity : UInt32) (mem : Nat → FgaL2AclEntry) : Caches T :=
  ⟨fun _ => l1Startup, l2Startup H (fgaCacheShmemInit capacity mem)⟩

def checkStep (s : Caches T) (x : CheckEvent) : Option (Caches T) :=
  match readTupleArgs x.args with
  | .error _ => some s
  | .ok args =>
    (fgaCacheKey X x.key₀ (questionOf x.config args)).map fun key =>
      let r := fgaCacheLookup H x.cacheConfig x.nowMs key (s.l1 x.backend) s.l2
      ⟨Function.update s.l1 x.backend r.2.1, r.2.2⟩

/-! ## What the cache should do -/

/-- The call gets an OK response that says `v`. -/
def OkResponse (s : Caches T) (x : CheckEvent) (v : Bool) : Prop :=
  ∃ res, Responds H X (x.call s) x.key₀ res ∧ res.status = .ok ∧ res.allow = v

/-- The same backend asks the same, of the same store and model. -/
def SameCall (x y : CheckEvent) : Prop :=
  y.backend = x.backend ∧ y.args = x.args ∧ y.config = x.config

instance (x y : CheckEvent) : Decidable (SameCall x y) := inferInstanceAs (Decidable (_ ∧ _))

/-- With the cache on, `y` asks the same less than `cache_ttl_ms` after `x` was answered. -/
def Repeats (x y : CheckEvent) : Prop :=
  SameCall x y ∧ x.cacheConfig.cacheEnabled = true ∧ y.cacheConfig.cacheEnabled = true ∧
    x.answeredMs ≤ y.nowMs ∧ y.nowMs.toInt < x.answeredMs.toInt + x.cacheConfig.cacheTtlMs.toInt

instance (x y : CheckEvent) : Decidable (Repeats x y) := inferInstanceAs (Decidable (_ ∧ _))

/-- The backend's L1 cache, or the L2 cache, holds something for the key. -/
def Caches.L1Has (s : Caches T) (b : Nat) (key : FgaAclCacheKey) : Prop := ∃ v e g, L1Holds (s.l1 b) key v e g

def Caches.L2Has (s : Caches T) (key : FgaAclCacheKey) : Prop := (l2Content H s.l2 key).isSome = true

/-- Over the calls `mid`, the first of them in `s`, one of the two levels loses the key. -/
def Evicted (s : Caches T) (mid : List CheckEvent) (b : Nat) (key : FgaAclCacheKey) : Prop :=
  ∃ before z after u u', mid = before ++ z :: after ∧ run (checkStep H X) s before = some u ∧
    checkStep H X u z = some u' ∧
    (u.L1Has b key ∧ ¬ u'.L1Has b key ∨ u.L2Has H key ∧ ¬ u'.L2Has H key)

/-- Of the calls `xs`, the first of them in `s`, the last one to ask what `y` asks and to get an OK
response got `v`. -/
def LatestResponse (s : Caches T) (xs : List CheckEvent) (y : CheckEvent) (v : Bool) : Prop :=
  ∃ before z after u, xs = before ++ z :: after ∧ run (checkStep H X) s before = some u ∧
    SameCall z y ∧ OkResponse H X u z v ∧
    ∀ before' z' after' u', after = before' ++ z' :: after' → run (checkStep H X) u (z :: before') = some u' →
      SameCall z' y → ∀ w, ¬ OkResponse H X u' z' w

/-- The call takes a slot of the channel. -/
def Asks (c : CheckCall T) (key₀ : FgaAclCacheKey) : Prop :=
  ∃ args, readTupleArgs c.args = .ok args ∧ (questionOf c.config args).Fits ∧ hitOver H X c args key₀ = none

/-- A call that repeats one with an OK response is answered from the cache, if no level has lost the key
in between. -/
def Effective (s₀ : Caches T) (xs : List CheckEvent) : Prop :=
  ∀ pre x mid y post s s₁ s₂ v, xs = pre ++ x :: (mid ++ y :: post) →
    run (checkStep H X) s₀ pre = some s → checkStep H X s x = some s₁ →
    run (checkStep H X) s₁ mid = some s₂ → OkResponse H X s x v → Repeats x y →
    (∀ args key, readTupleArgs x.args = .ok args → fgaCacheKey X x.key₀ (questionOf x.config args) = some key →
      ¬ Evicted H X s₁ mid x.backend key) →
    ∃ w, LatestResponse H X s (x :: mid) y w ∧ CacheHit H X (y.call s₂) y.key₀ w ∧ ¬ Asks H X (y.call s₂) y.key₀

/-! ## The condition -/

/-- The key buffer is large enough for the question, if there is one. -/
def CheckEvent.Fits (x : CheckEvent) : Prop :=
  ∀ args, readTupleArgs x.args = .ok args → (questionOf x.config args).Fits

/-- There is a free slot, and the outcome of the RPC is OK. -/
def CheckEvent.Answered (x : CheckEvent) : Prop :=
  ∃ args request path o v, readTupleArgs x.args = .ok args ∧ x.slotFree = true ∧
    (SqlCall.check args).request x.config x.requestId = .ok request ∧ x.exec = .returned path o ∧
    o.answer path request = some v

/-- Some call asks again, in time, what OpenFGA has answered. -/
def AsksAgain (xs : List CheckEvent) : Prop :=
  ∃ pre x mid y post, xs = pre ++ x :: (mid ++ y :: post) ∧ (∀ z ∈ pre ++ x :: mid, z.Fits) ∧
    x.Answered ∧ Repeats x y

/-! ## The caches stay empty -/

structure Cold (s : Caches T) : Prop where
  inv : ∀ b, L1Inv (s.l1 b)
  l1 : ∀ b k v e g, ¬ L1Holds (s.l1 b) k v e g
  l2 : ∀ k, H.find s.l2.table k = none

variable {H X} {s s' : Caches T} {x : CheckEvent}

theorem cold_init (S : HashSpec H) (capacity : UInt32) (mem : Nat → FgaL2AclEntry) :
    Cold H (cachesInit H capacity mem) where
  inv _ := l1Inv_startup
  l1 _ := l1Startup_holds
  l2 := S.find_create _

theorem Cold.setL1 (h : Cold H s) (b : Nat) {c : FgaL1Cache} (hinv : L1Inv c)
    (hempty : ∀ k v e g, ¬ L1Holds c k v e g) : Cold H ⟨Function.update s.l1 b c, s.l2⟩ where
  inv := (Function.forall_update_iff s.l1 fun _ c => L1Inv c).2 ⟨hinv, fun b' _ => h.inv b'⟩
  l1 := (Function.forall_update_iff s.l1 fun _ c => ∀ k v e g, ¬ L1Holds c k v e g).2
    ⟨hempty, fun b' _ => h.l1 b'⟩
  l2 := h.l2

/-- **A lookup in empty caches** misses and leaves them empty. -/
theorem Cold.lookup (h : Cold H s) (cfg : CacheConfig) (now : TimestampTz) (key : FgaAclCacheKey) (b : Nat) :
    (fgaCacheLookup H cfg now key (s.l1 b) s.l2).1 = none ∧
      Cold H ⟨Function.update s.l1 b (fgaCacheLookup H cfg now key (s.l1 b) s.l2).2.1,
        (fgaCacheLookup H cfg now key (s.l1 b) s.l2).2.2⟩ := by
  obtain ⟨hinv, hsub, hhit⟩ := l1Lookup_spec (h.inv b) key s.l2.cache.generation now
  unfold fgaCacheLookup
  split
  · refine ⟨rfl, ?_⟩
    simp only [Function.update_eq_self]
    exact h
  · rcases hl1 : l1Lookup (s.l1 b) key s.l2.cache.generation now with ⟨_ | v, c⟩
    · have hl2 : l2Lookup H s.l2 key now = (none, s.l2) := by simp only [l2Lookup, h.l2 key]
      rw [hl1] at hinv hsub
      simp only [hl2, true_and]
      exact h.setL1 b hinv fun k v e g hk => h.l1 b k v e g (hsub k v e g hk)
    · obtain ⟨e, he, -⟩ := hhit v (by rw [hl1])
      exact absurd he (h.l1 b key v e _)

theorem Cold.hitOver (h : Cold H s) (x : CheckEvent) (args : TupleArgsView) (key₀ : FgaAclCacheKey) :
    hitOver H X (x.call s) args key₀ = none := by
  unfold PostFga.hitOver
  cases fgaCacheKey X key₀ (questionOf (x.call s).config args) with
  | none => rfl
  | some key => exact (h.lookup x.cacheConfig x.nowMs key x.backend).1

theorem Cold.not_hit (h : Cold H s) (x : CheckEvent) (key₀ : FgaAclCacheKey) (v : Bool) :
    ¬ CacheHit H X (x.call s) key₀ v := by
  rintro ⟨args, -, hhit⟩
  rw [h.hitOver] at hhit
  cases hhit

theorem Cold.step (h : Cold H s) (hs : checkStep H X s x = some s') : Cold H s' := by
  unfold checkStep at hs
  split at hs
  · obtain rfl := Option.some.inj hs
    exact h
  · obtain ⟨key, -, rfl⟩ := Option.map_eq_some_iff.1 hs
    exact (h.lookup x.cacheConfig x.nowMs key x.backend).2

theorem Cold.run {xs : List CheckEvent} (h : Cold H s) (hrun : run (checkStep H X) s xs = some s') : Cold H s' :=
  run_inv (Cold H) (fun _ _ _ => Cold.step) xs h hrun

theorem Cold.not_evicted (h : Cold H s) (mid : List CheckEvent) (b : Nat) (key : FgaAclCacheKey) :
    ¬ Evicted H X s mid b key := by
  rintro ⟨before, z, after, u, u', -, hrun, -, ⟨⟨v, e, g, hhas⟩, -⟩ | ⟨hhas, -⟩⟩
  · exact (h.run hrun).l1 b key v e g hhas
  · rw [Caches.L2Has, l2Content, (h.run hrun).l2] at hhas
    cases hhas

/-! ## The runs that are defined, and the responses -/

theorem checkStep_isSome : (checkStep H X s x).isSome = true ↔ x.Fits := by
  unfold checkStep CheckEvent.Fits
  cases readTupleArgs x.args with
  | error e => simp
  | ok args =>
    simp only [Option.isSome_map, Except.ok.injEq, forall_eq']
    constructor
    · intro h
      obtain ⟨key, hkey⟩ := Option.isSome_iff_exists.1 h
      exact (fgaCacheKey_eq_some.1 hkey).1
    · intro h
      exact Option.isSome_iff_exists.2 ⟨_, fgaCacheKey_eq_some.2 ⟨h, rfl⟩⟩

theorem run_isSome (xs : List CheckEvent) : (run (checkStep H X) s xs).isSome = true ↔ ∀ z ∈ xs, z.Fits := by
  induction xs generalizing s with
  | nil => simp [run]
  | cons x xs ih =>
    rw [List.forall_mem_cons, ← checkStep_isSome (H := H) (X := X) (s := s), run]
    cases checkStep H X s x with
    | none => simp
    | some s1 => simpa using ih

/-- With empty caches a call gets an OK response if and only if the outcome of its RPC is OK. -/
theorem Cold.okResponse (h : Cold H s) (hfit : x.Fits) : (∃ v, OkResponse H X s x v) ↔ x.Answered := by
  constructor
  · rintro ⟨v, res, ⟨args, request, path, o, hargs, -, -, hfree, hreq, hexec, rfl⟩, hstatus, -⟩
    rcases checkResponse_verdict path o (checkPayload request) with ⟨-, hans⟩ | ⟨hne, -⟩
    · exact ⟨args, request, path, o, _, hargs, hfree, hreq, hexec, hans⟩
    · exact absurd hstatus hne
  · rintro ⟨args, request, path, o, v, hargs, hfree, hreq, hexec, hans⟩
    refine ⟨_, _, ⟨args, request, path, o, hargs, hfit args hargs, h.hitOver x args x.key₀, hfree, hreq, hexec, rfl⟩,
      ?_, rfl⟩
    rcases checkResponse_verdict path o (checkPayload request) with ⟨hstatus, -⟩ | ⟨-, hno⟩
    · exact hstatus
    · simp only [checkPayload] at hno
      rw [hans] at hno
      cases hno

/-! ## Every run -/

theorem Cold.not_effective {xs : List CheckEvent} (hcold : Cold H s') (hagain : AsksAgain xs) :
    ¬ Effective H X s' xs := by
  intro heff
  obtain ⟨pre, x, mid, y, post, hxs, hfits, hans, hrep⟩ := hagain
  obtain ⟨s, hs⟩ := Option.isSome_iff_exists.1
    ((run_isSome (H := H) (X := X) (s := s') pre).2 fun z hz => hfits z (by simp [hz]))
  have hfit : x.Fits := hfits x (by simp)
  obtain ⟨s₁, hs₁⟩ := Option.isSome_iff_exists.1 (checkStep_isSome (H := H) (X := X) (s := s).2 hfit)
  obtain ⟨s₂, hs₂⟩ := Option.isSome_iff_exists.1
    ((run_isSome (H := H) (X := X) (s := s₁) mid).2 fun z hz => hfits z (by simp [hz]))
  have hcold₁ : Cold H s₁ := (hcold.run hs).step hs₁
  obtain ⟨v, hok⟩ := ((hcold.run hs).okResponse hfit).2 hans
  obtain ⟨w, -, hhit, -⟩ := heff pre x mid y post s s₁ s₂ v hxs hs hs₁ hs₂ hok hrep
    fun _ key _ _ => hcold₁.not_evicted mid x.backend key
  exact (hcold₁.run hs₂).not_hit y y.key₀ w hhit

/-- **The cache is effective exactly when** no call repeats, with the cache on and in time, one that
OpenFGA has answered: it never answers anything. -/
theorem effective_iff (S : HashSpec H) (X : XXH3) (capacity : UInt32) (mem : Nat → FgaL2AclEntry)
    (xs : List CheckEvent) : Effective H X (cachesInit H capacity mem) xs ↔ ¬ AsksAgain xs := by
  have hcold := cold_init S capacity mem
  constructor
  · exact fun heff hagain => hcold.not_effective hagain heff
  · intro hno pre x mid y post s s₁ s₂ v hxs hs hs₁ hs₂ hok hrep _
    refine absurd ⟨pre, x, mid, y, post, hxs, fun z hz => ?_, ?_, hrep⟩ hno
    · refine (run_isSome (H := H) (X := X) (s := cachesInit H capacity mem) (pre ++ x :: mid)).1 ?_ z hz
      exact Option.isSome_iff_exists.2 ⟨s₂, run_append.2 ⟨s, hs, run_cons.2 ⟨s₁, hs₁, hs₂⟩⟩⟩
    · exact ((hcold.run hs).okResponse (checkStep_isSome.1 (Option.isSome_iff_exists.2 ⟨s₁, hs₁⟩))).1 ⟨v, hok⟩

/-- `fga_check('document', 'readme', 'user', 'alice', 'viewer')` at `nowMs`, allowed at `answeredMs`. -/
def aliceAsks (nowMs answeredMs : TimestampTz) : CheckEvent where
  backend := 0
  args := unreachable.args
  config := unreachable.config
  cacheConfig := ⟨true, 60000⟩
  nowMs := nowMs
  slotFree := true
  requestId := 1
  exec := .returned .single ⟨.ok, true, fun _ => none, .empty, .empty⟩
  answeredMs := answeredMs
  key₀ := ⟨0, 0, 0, 0, 0⟩
  allowed₀ := false

/-- The second time is too late. -/
theorem effective_iff_late : Effective refIndex aliceXXH3 (cachesInit refIndex 2 zeroedMem)
    [aliceAsks 0 5, aliceAsks 60005 60010] := by
  refine (effective_iff refIndex_spec aliceXXH3 2 zeroedMem _).2 ?_
  rintro ⟨pre, x, mid, y, post, hxs, -, -, hrep⟩
  rcases pre with _ | ⟨a, pre⟩
  · rcases mid with _ | ⟨b, mid⟩
    · simp only [List.nil_append, List.cons.injEq] at hxs
      obtain ⟨rfl, rfl, -⟩ := hxs
      exact absurd hrep (by decide)
    · simp at hxs
  · have hlen := congrArg List.length hxs
    simp only [List.length_cons, List.length_append, List.length_nil] at hlen
    omega

/-- **Asked again after a second** OpenFGA is asked again. -/
theorem asks_again : ¬ Effective refIndex aliceXXH3 (cachesInit refIndex 2 zeroedMem)
    [aliceAsks 0 5, aliceAsks 1000 1005] := by
  refine (cold_init refIndex_spec 2 zeroedMem).not_effective
    ⟨[], aliceAsks 0 5, [], aliceAsks 1000 1005, [], rfl, ?_, ?_, ?_⟩
  · intro z hz
    obtain rfl := List.mem_singleton.1 hz
    exact (checkStep_isSome (H := refIndex) (X := aliceXXH3) (s := cachesInit refIndex 2 zeroedMem)).1
      (by decide +kernel)
  · exact ⟨_, _, _, _, true, rfl, rfl, rfl, rfl, rfl⟩
  · decide

end

end PostFga
