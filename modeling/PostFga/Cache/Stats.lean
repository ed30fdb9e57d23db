import PostFga.Cache.TwoLevel
import PostFga.Lib.Simulation
import PostFga.Lib.Totals
/-
# The counters of the cache (`stats.c`, `func_stats.c`)

| here | there |
| --- | --- |
| `StatsField`, `FgaBackendStats` | `FgaBackendStats` (`stats.h:19`), by the names of its fields |
| `CacheSys.outcome` | which `fga_stats_*` a step of `fga_cache_lookup` comes to (`cache.c:87`, `:90`, `:96`, `:99`) |
| `backendStats`     | `backend_stats` (`stats.c:49`) and `++`; `proc` is `MyProcNumber`, which processes may take over from others |
| `reported`         | what `fga_stats` adds up, in this order, with the names of its rows (`func_stats.c:28`–`:69`) |
| `Reading`          | a call of `fga_stats` that has not yet read the fields in `left` |
| `statsStep`        | processes that look up, store and count, while others add up |

A lookup with the cache switched off is not counted and has no step here. The counters of `FgaStats` itself
are set to 0, and that is all.

* `stats_projects` — the counting does not touch the cache.
* `stats_at_rest` — what the counters of a row say when no process with its number is in a lookup.
* `fgaStats_between` — what `fga_stats` says while they go on.
-/

namespace PostFga

open Transition Totals

inductive StatsField where
  | checkCalls | checkAllowed | checkDenied | checkError
  | cacheL1Hits | cacheL1Misses | cacheL1Evictions
  | cacheL2Hits | cacheL2Misses | cacheL2Evictions
  | rpcCheckCalls | rpcCheckError | rpcCheckLatencySumUs
deriving DecidableEq, Repr

abbrev FgaBackendStats := StatsField → UInt64

def reported : List (StatsField × String × String) :=
  [(.cacheL1Hits, "cache.l1", "hits"), (.cacheL1Misses, "cache.l1", "misses"),
    (.cacheL1Evictions, "cache.l1", "evictions"), (.cacheL2Hits, "cache.l2", "hits"),
    (.cacheL2Misses, "cache.l2", "misses"), (.cacheL2Evictions, "cache.l2", "evictions"),
    (.checkCalls, "check", "calls"), (.checkAllowed, "check", "allowed"), (.checkDenied, "check", "denied"),
    (.rpcCheckCalls, "rpc", "calls"), (.rpcCheckError, "rpc", "errors"),
    (.rpcCheckLatencySumUs, "rpc", "latency_sum_us")]

/-- No two rows have one name, and none has the sum of another. -/
theorem reported_nodup : (reported.map Prod.snd).Nodup ∧ (reported.map Prod.fst).Nodup := by decide

/-- The fields in the order of the loop over the backends. -/
def cells (n : Nat) : List (Fin n × StatsField) :=
  (List.finRange n).flatMap fun i => reported.map fun r => (i, r.1)

structure Reading (n : Nat) where
  left : List (Fin n × StatsField)
  totals : FgaBackendStats

def CacheAct.backend : CacheAct → Nat
  | .storeL1 b .. | .storeL2 b | .lookupL1 b .. | .lookupL2 b | .copyL1 b => b

/-- The calls of `fga_cache_lookup` that begin with the step. -/
def CacheAct.looks : CacheAct → List Nat
  | .lookupL1 b .. => [b]
  | .storeL1 .. | .storeL2 _ | .lookupL2 _ | .copyL1 _ => []

structure StatsSys (T : Type) (n : Nat) where
  cache : CacheSys T
  backends : Fin n → FgaBackendStats
  /-- The counter that a process comes to next. -/
  pending : Nat → Option StatsField
  reading : Nat → Option (Reading n)
  /-- Who has called `fga_cache_lookup`. -/
  lookups : List Nat
  /-- Who has counted what. -/
  log : List (Nat × StatsField)

inductive StatsAct where
  | cache (a : CacheAct)
  | count (b : Nat)
  /-- `fga_stats` begins. -/
  | report (b : Nat)
  | read (b : Nat)
  | rows (b : Nat)
deriving DecidableEq, Repr

def statsInit {T : Type} (n : Nat) (l2 : L2 T) : StatsSys T n where
  cache := cacheInit l2
  backends _ _ := 0
  pending _ := none
  reading _ := none
  lookups := []
  log := []

section
variable {T : Type} (H : HashOps T FgaAclCacheKey Nat) {n : Nat} (proc : Nat → Option (Fin n))

def CacheSys.outcome (s : CacheSys T) : CacheAct → Option StatsField
  | .lookupL1 b key now =>
    if (l1Lookup (s.l1 b) key s.l2.cache.generation now).1.isSome then some .cacheL1Hits else some .cacheL1Misses
  | .lookupL2 b =>
    match s.pc b with
    | .looking key now => if (l2Lookup H s.l2 key now).1.isSome then none else some .cacheL2Misses
    | _ => none
  | .copyL1 _ => some .cacheL2Hits
  | .storeL1 .. | .storeL2 _ => none

/-- One more of `f` in the row of the process. -/
def backendStats (backends : Fin n → FgaBackendStats) (b : Nat) (f : StatsField) : Fin n → FgaBackendStats :=
  match proc b with
  | none => backends
  | some i => Function.update backends i (Function.update (backends i) f (backends i f + 1))

def statsStep (s : StatsSys T n) : StatsAct → Option (StatsSys T n)
  | .cache a =>
    match s.pending a.backend, s.reading a.backend with
    | none, none => (cacheStep H s.cache a).map fun c =>
      { s with
        cache := c
        pending := Function.update s.pending a.backend (s.cache.outcome H a)
        lookups := s.lookups ++ a.looks }
    | _, _ => none
  | .count b =>
    match s.pending b with
    | some f => some
      { s with
        backends := backendStats proc s.backends b f
        pending := Function.update s.pending b none
        log := s.log ++ [(b, f)] }
    | none => none
  | .report b =>
    match s.cache.pc b, s.pending b, s.reading b with
    | .idle, none, none => some { s with reading := Function.update s.reading b (some ⟨cells n, fun _ => 0⟩) }
    | _, _, _ => none
  | .read b =>
    match s.reading b with
    | some ⟨(i, f) :: left, totals⟩ =>
      let totals := Function.update totals f (totals f + s.backends i f)
      some { s with reading := Function.update s.reading b (some ⟨left, totals⟩) }
    | _ => none
  | .rows b =>
    match s.reading b with
    | some ⟨[], _⟩ => some { s with reading := Function.update s.reading b none }
    | _ => none

/-! ## What one step counts -/

/-- In the part of a lookup after an L1 miss. -/
def CachePc.inL2 : CachePc → Nat
  | .idle | .storing .. => 0
  | .looking .. | .copying .. => 1

namespace StatsSys

/-- How often `f` has come to be counted by `b`. -/
def made (s : StatsSys T n) (b : Nat) (f : StatsField) : Nat :=
  s.log.count (b, f) + if s.pending b = some f then 1 else 0

end StatsSys

variable {H} {proc}

/-- A step of `b`, as the counters see it: the part of the call before and after it, the counter it comes to,
the lookups that begin and the hits. -/
inductive Counts (b : Nat) : Nat → Nat → Option StatsField → List Nat → List Nat → Prop where
  | silent (k : Nat) : Counts b k k none [] []
  | l1Hit (k : Nat) : Counts b k k (some .cacheL1Hits) [b] [b]
  | l1Miss : Counts b 0 1 (some .cacheL1Misses) [b] []
  | l2Miss : Counts b 1 0 (some .cacheL2Misses) [] []
  | l2Hit : Counts b 1 0 (some .cacheL2Hits) [] [b]

section
variable {b before after : Nat} {o : Option StatsField} {looks found : List Nat}

theorem Counts.l1 (h : Counts b before after o looks found) :
    (if o = some .cacheL1Hits then 1 else 0) + (if o = some .cacheL1Misses then 1 else 0) = looks.count b := by
  cases h <;> simp

theorem Counts.l2 (h : Counts b before after o looks found) :
    (if o = some .cacheL2Hits then 1 else 0) + (if o = some .cacheL2Misses then 1 else 0) + after =
      before + if o = some .cacheL1Misses then 1 else 0 := by
  cases h <;> simp

theorem Counts.hits (h : Counts b before after o looks found) :
    (if o = some .cacheL1Hits then 1 else 0) + (if o = some .cacheL2Hits then 1 else 0) = found.count b := by
  cases h <;> simp

theorem Counts.others (h : Counts b before after o looks found) {f : StatsField} (h1 : f ≠ .cacheL1Hits)
    (h2 : f ≠ .cacheL1Misses) (h3 : f ≠ .cacheL2Hits) (h4 : f ≠ .cacheL2Misses) : o ≠ some f := by
  cases h <;> simp [Ne.symm, *]

theorem Counts.elsewhere (h : Counts b before after o looks found) {b' : Nat} (hb : b' ≠ b) :
    looks.count b' = 0 ∧ found.count b' = 0 := by
  cases h <;> simp [Ne.symm hb]

end

theorem cacheStep_counts {c c' : CacheSys T} {a : CacheAct} (h : cacheStep H c a = some c') :
    (∀ b, b ≠ a.backend → c'.pc b = c.pc b) ∧ ∃ hits, c'.hits = c.hits ++ hits ∧
      Counts a.backend (c.pc a.backend).inL2 (c'.pc a.backend).inL2 (c.outcome H a) a.looks
        (hits.map Hit.backend) := by
  cases a with
  | storeL1 b key allowed now ttl =>
    rw [cacheStep] at h
    split at h
    · rename_i hpc
      cases h
      refine ⟨fun c hc => setPc_ne _ _ hc, [], (List.append_nil _).symm, ?_⟩
      simp only [CacheAct.backend, hpc, setPc_self, CachePc.inL2]
      exact .silent 0
    · cases h
  | storeL2 b =>
    rw [cacheStep] at h
    split at h
    · rename_i hpc
      obtain ⟨⟨l2, r⟩, -, rfl⟩ := Option.map_eq_some_iff.1 h
      refine ⟨fun c hc => setPc_ne _ _ hc, [], (List.append_nil _).symm, ?_⟩
      simp only [CacheAct.backend, hpc, CacheSys.setPc, Function.update_self, CachePc.inL2]
      exact .silent 0
    · cases h
  | lookupL1 b key now =>
    rw [cacheStep] at h
    split at h
    · rename_i hpc
      split at h
      · rename_i allowed l1 hl1
        cases h
        have ho : c.outcome H (.lookupL1 b key now) = some .cacheL1Hits := by simp [CacheSys.outcome, hl1]
        refine ⟨fun c hc => rfl, [_], rfl, ?_⟩
        rw [ho]
        exact .l1Hit _
      · rename_i l1 hl1
        cases h
        have ho : c.outcome H (.lookupL1 b key now) = some .cacheL1Misses := by simp [CacheSys.outcome, hl1]
        refine ⟨fun c hc => setPc_ne _ _ hc, [], (List.append_nil _).symm, ?_⟩
        simp only [ho, CacheAct.backend, hpc, setPc_self, CachePc.inL2]
        exact .l1Miss
    · cases h
  | lookupL2 b =>
    rw [cacheStep] at h
    split at h
    · rename_i key now hpc
      split at h
      · rename_i allowed expires l2 hl2
        cases h
        have ho : c.outcome H (.lookupL2 b) = none := by simp [CacheSys.outcome, hpc, hl2]
        refine ⟨fun c hc => setPc_ne _ _ hc, [], (List.append_nil _).symm, ?_⟩
        simp only [ho, CacheAct.backend, hpc, CacheSys.setPc, Function.update_self, CachePc.inL2]
        exact .silent 1
      · rename_i l2 hl2
        cases h
        have ho : c.outcome H (.lookupL2 b) = some .cacheL2Misses := by simp [CacheSys.outcome, hpc, hl2]
        refine ⟨fun c hc => setPc_ne _ _ hc, [], (List.append_nil _).symm, ?_⟩
        simp only [ho, CacheAct.backend, hpc, CacheSys.setPc, Function.update_self, CachePc.inL2]
        exact .l2Miss
    · cases h
  | copyL1 b =>
    rw [cacheStep] at h
    split at h
    · rename_i hpc
      cases h
      refine ⟨fun c hc => setPc_ne _ _ hc, [_], rfl, ?_⟩
      simp only [CacheAct.backend, hpc, CacheSys.setPc, Function.update_self, CachePc.inL2]
      exact .l2Hit
    · cases h

variable {s s' : StatsSys T n}

theorem statsStep_cache {a : CacheAct} (h : statsStep H proc s (.cache a) = some s') :
    s.pending a.backend = none ∧ ∃ c, cacheStep H s.cache a = some c ∧ s' =
      { s with
        cache := c
        pending := Function.update s.pending a.backend (s.cache.outcome H a)
        lookups := s.lookups ++ a.looks } := by
  rw [statsStep] at h
  split at h
  · rename_i hpending _
    obtain ⟨c, hc, rfl⟩ := Option.map_eq_some_iff.1 h
    exact ⟨hpending, c, hc, rfl⟩
  · cases h

theorem statsStep_count {b : Nat} (h : statsStep H proc s (.count b) = some s') :
    ∃ f, s.pending b = some f ∧ s' =
      { s with
        backends := backendStats proc s.backends b f
        pending := Function.update s.pending b none
        log := s.log ++ [(b, f)] } := by
  rw [statsStep] at h
  split at h
  · rename_i f hf
    cases h
    exact ⟨f, hf, rfl⟩
  · cases h

/-- A reader writes nothing but its own sums. -/
theorem statsStep_reader {a : StatsAct} (hcache : ∀ c, a ≠ .cache c) (hcount : ∀ b, a ≠ .count b)
    (h : statsStep H proc s a = some s') : ∃ reading, s' = { s with reading := reading } := by
  cases a with
  | cache a => exact absurd rfl (hcache a)
  | count b => exact absurd rfl (hcount b)
  | report b | read b | rows b =>
    rw [statsStep] at h
    split at h
    · cases h
      exact ⟨_, rfl⟩
    · cases h

/-- **The counting does not touch the cache.** -/
theorem stats_projects : Projects (statsStep H proc) (cacheStep H) StatsSys.cache
    fun a => match a with | .cache c => some c | _ => none where
  seen s a s' c hc h := by
    cases a with
    | cache a =>
      obtain rfl := Option.some.inj hc
      obtain ⟨-, c, hstep, rfl⟩ := statsStep_cache h
      exact hstep
    | count | report | read | rows => cases hc
  unseen s a s' hc h := by
    cases a with
    | cache a => cases hc
    | count b =>
      obtain ⟨f, -, rfl⟩ := statsStep_count h
      rfl
    | report | read | rows =>
      obtain ⟨_, rfl⟩ := statsStep_reader (by simp) (by simp) h
      rfl

/-! ## Every call is in the books once -/

theorem made_cache {a : CacheAct} (hpending : s.pending a.backend = none) (f : StatsField) (b : Nat) (c : CacheSys T)
    (lookups : List Nat) :
    StatsSys.made { s with
      cache := c
      pending := Function.update s.pending a.backend (s.cache.outcome H a)
      lookups := lookups } b f =
      s.made b f + if b = a.backend ∧ s.cache.outcome H a = some f then 1 else 0 := by
  unfold StatsSys.made
  by_cases hb : b = a.backend
  · subst hb
    simp only [Function.update_self, hpending, true_and, reduceCtorEq, if_false, Nat.add_zero]
  · simp only [Function.update_of_ne hb, hb, false_and, if_false, Nat.add_zero]

theorem made_count {b : Nat} {f : StatsField} (hf : s.pending b = some f) (b' : Nat) (f' : StatsField)
    (backends : Fin n → FgaBackendStats) :
    StatsSys.made { s with
      backends := backends
      pending := Function.update s.pending b none
      log := s.log ++ [(b, f)] } b' f' = s.made b' f' := by
  unfold StatsSys.made
  simp only [List.count_append]
  by_cases hb : b' = b
  · subst hb
    by_cases hf' : f = f'
    · subst hf'
      simp [hf]
    · have hne : (b', f) ≠ (b', f') := by simp [hf']
      simp [hf, hf', List.count_cons_of_ne hne]
  · have hne : (b, f) ≠ (b', f') := by simp [Ne.symm hb]
    simp [Function.update_of_ne hb, List.count_cons_of_ne hne]

/-- The books of a process. -/
structure Books (s : StatsSys T n) (b : Nat) : Prop where
  l1 : s.made b .cacheL1Hits + s.made b .cacheL1Misses = s.lookups.count b
  l2 : s.made b .cacheL2Hits + s.made b .cacheL2Misses + (s.cache.pc b).inL2 = s.made b .cacheL1Misses
  hits : s.made b .cacheL1Hits + s.made b .cacheL2Hits = (s.cache.hits.map Hit.backend).count b
  others : ∀ f, f ≠ .cacheL1Hits → f ≠ .cacheL1Misses → f ≠ .cacheL2Hits → f ≠ .cacheL2Misses → s.made b f = 0

theorem Books.congr {b : Nat} (h : Books s b) (hmade : ∀ f, s'.made b f = s.made b f)
    (hlookups : s'.lookups.count b = s.lookups.count b) (hpc : (s'.cache.pc b).inL2 = (s.cache.pc b).inL2)
    (hhits : (s'.cache.hits.map Hit.backend).count b = (s.cache.hits.map Hit.backend).count b) : Books s' b := by
  constructor
  · rw [hmade, hmade, hlookups, h.l1]
  · rw [hmade, hmade, hmade, hpc, h.l2]
  · rw [hmade, hmade, hhits, h.hits]
  · intro f h1 h2 h3 h4
    rw [hmade, h.others f h1 h2 h3 h4]

theorem books_step (h : ∀ b, Books s b) {a : StatsAct} (hs : statsStep H proc s a = some s') : ∀ b, Books s' b := by
  intro b
  cases a with
  | cache a =>
    obtain ⟨hpending, c, hc, rfl⟩ := statsStep_cache hs
    obtain ⟨hpc, hits, hhits, hcounts⟩ := cacheStep_counts hc
    by_cases hb : b = a.backend
    · subst hb
      have hbooks := h a.backend
      constructor
      · have hold := hbooks.l1
        have hnew := hcounts.l1
        simp only [made_cache hpending, List.count_append, true_and]
        omega
      · have hold := hbooks.l2
        have hnew := hcounts.l2
        simp only [made_cache hpending, true_and]
        omega
      · have hold := hbooks.hits
        have hnew := hcounts.hits
        simp only [made_cache hpending, hhits, List.map_append, List.count_append, true_and]
        omega
      · intro f h1 h2 h3 h4
        simp only [made_cache hpending, hbooks.others f h1 h2 h3 h4, hcounts.others h1 h2 h3 h4, and_false, if_false]
    · obtain ⟨hlooks, hmore⟩ := hcounts.elsewhere hb
      refine (h b).congr (fun f => ?_) ?_ ?_ ?_
      · rw [made_cache hpending, if_neg (fun hand => hb hand.1), Nat.add_zero]
      · rw [List.count_append, hlooks, Nat.add_zero]
      · rw [hpc b hb]
      · rw [hhits, List.map_append, List.count_append, hmore, Nat.add_zero]
  | count b' =>
    obtain ⟨f, hf, rfl⟩ := statsStep_count hs
    exact (h b).congr (fun f' => made_count hf b f' _) rfl rfl rfl
  | report | read | rows =>
    obtain ⟨_, rfl⟩ := statsStep_reader (by simp) (by simp) hs
    exact (h b).congr (fun _ => rfl) rfl rfl rfl

theorem books_init (l2 : L2 T) (b : Nat) : Books (statsInit n l2) b := by
  constructor <;> simp [StatsSys.made, statsInit, cacheInit, CachePc.inL2]

/-! ## The rows -/

/-- How often `f` has been counted by the processes of row `i`. -/
def StatsSys.counted (proc : Nat → Option (Fin n)) (s : StatsSys T n) (i : Fin n) (f : StatsField) : Nat :=
  s.log.countP fun e => decide (proc e.1 = some i) && decide (e.2 = f)

/-- The counters count, modulo 2^64. -/
def Rows (proc : Nat → Option (Fin n)) (s : StatsSys T n) : Prop :=
  ∀ i f, s.backends i f = UInt64.ofNat (s.counted proc i f)

theorem counted_count {b : Nat} {f : StatsField} (backends : Fin n → FgaBackendStats)
    (pending : Nat → Option StatsField) (i : Fin n) (f' : StatsField) :
    StatsSys.counted proc { s with backends := backends, pending := pending, log := s.log ++ [(b, f)] } i f' =
      s.counted proc i f' + if proc b = some i ∧ f = f' then 1 else 0 := by
  unfold StatsSys.counted
  simp only [List.countP_append, List.countP_singleton, Bool.and_eq_true, decide_eq_true_eq]

theorem rows_step (h : Rows proc s) {a : StatsAct} (hs : statsStep H proc s a = some s') : Rows proc s' := by
  cases a with
  | cache a =>
    obtain ⟨-, c, -, rfl⟩ := statsStep_cache hs
    exact h
  | count b =>
    obtain ⟨f, -, rfl⟩ := statsStep_count hs
    intro i f'
    rw [counted_count]
    simp only [backendStats]
    cases hp : proc b with
    | none => simpa using h i f'
    | some j =>
      by_cases hj : j = i
      · subst hj
        by_cases hf : f = f'
        · subst hf
          simp [h j f]
        · simp [hf, Ne.symm hf, h j f']
      · simp [Function.update_of_ne (Ne.symm hj), hj, h i f']
  | report | read | rows =>
    obtain ⟨_, rfl⟩ := statsStep_reader (by simp) (by simp) hs
    exact h

theorem rows_init (l2 : L2 T) : Rows proc (statsInit n l2) := fun _ _ => rfl

/-! ## At rest -/

/-- Who has counted `f`. -/
def StatsSys.who (s : StatsSys T n) (f : StatsField) : List Nat :=
  (s.log.filter fun e => decide (e.2 = f)).map Prod.fst

theorem count_who (s : StatsSys T n) (f : StatsField) (b : Nat) : (s.who f).count b = s.log.count (b, f) := by
  unfold StatsSys.who
  rw [List.count_eq_countP, List.countP_map, List.countP_filter, List.count_eq_countP]
  refine List.countP_congr fun e _ => ?_
  obtain ⟨b', f'⟩ := e
  simp

theorem counted_eq (s : StatsSys T n) (i : Fin n) (f : StatsField) :
    s.counted proc i f = (s.who f).countP fun b => decide (proc b = some i) := by
  unfold StatsSys.counted StatsSys.who
  rw [List.countP_map, List.countP_filter]
  exact List.countP_congr fun e _ => Iff.rfl

/-- **Each lookup of a row is a hit or a miss, each miss a hit or a miss below**, and nothing else is counted. -/
theorem stats_at_rest (l2 : L2 T) (acts : List StatsAct)
    (hr : run (statsStep H proc) (statsInit n l2) acts = some s) (i : Fin n)
    (hrest : ∀ b, proc b = some i → s.pending b = none ∧ (s.cache.pc b).inL2 = 0) :
    s.backends i .cacheL1Hits + s.backends i .cacheL1Misses =
      UInt64.ofNat (s.lookups.countP fun b => decide (proc b = some i)) ∧
    s.backends i .cacheL2Hits + s.backends i .cacheL2Misses = s.backends i .cacheL1Misses ∧
    s.backends i .cacheL1Hits + s.backends i .cacheL2Hits =
      UInt64.ofNat (s.cache.hits.countP fun h => decide (proc h.backend = some i)) ∧
    ∀ f, f ≠ .cacheL1Hits → f ≠ .cacheL1Misses → f ≠ .cacheL2Hits → f ≠ .cacheL2Misses → s.backends i f = 0 := by
  obtain ⟨hbooks, hrows⟩ := run_inv (fun s => (∀ b, Books s b) ∧ Rows proc s)
    (fun _ _ _ ⟨h, h'⟩ hs => ⟨books_step h hs, rows_step h' hs⟩) acts ⟨books_init l2, rows_init l2⟩ hr
  -- what has come to be counted has been counted
  have hmade : ∀ b, proc b = some i → ∀ f, s.made b f = (s.who f).count b := by
    intro b hb f
    simp [StatsSys.made, (hrest b hb).1, count_who]
  simp only [hrows i, ← UInt64.ofNat_add, counted_eq, ← List.countP_append]
  refine ⟨congrArg UInt64.ofNat ?_, congrArg UInt64.ofNat ?_, congrArg UInt64.ofNat ?_, ?_⟩
  · refine countP_of_count fun b hb => ?_
    have hb := of_decide_eq_true hb
    rw [List.count_append, ← hmade b hb, ← hmade b hb, (hbooks b).l1]
  · refine countP_of_count fun b hb => ?_
    have hb := of_decide_eq_true hb
    rw [List.count_append, ← hmade b hb, ← hmade b hb, ← hmade b hb, ← (hbooks b).l2, (hrest b hb).2, Nat.add_zero]
  · have hhits : (s.cache.hits.countP fun h => decide (proc h.backend = some i)) =
        (s.cache.hits.map Hit.backend).countP fun b => decide (proc b = some i) := by
      rw [List.countP_map]
      rfl
    rw [hhits]
    refine countP_of_count fun b hb => ?_
    have hb := of_decide_eq_true hb
    rw [List.count_append, ← hmade b hb, ← hmade b hb, (hbooks b).hits]
  · intro f h1 h2 h3 h4
    have hnone : (s.who f).countP (fun b => decide (proc b = some i)) =
        ([] : List Nat).countP fun b => decide (proc b = some i) := by
      refine countP_of_count fun b hb => ?_
      rw [← hmade b (of_decide_eq_true hb), (hbooks b).others f h1 h2 h3 h4, List.count_nil]
    rw [hnone]
    rfl

/-- One number for two processes. -/
def takenOver (b : Nat) : Option (Fin 1) := if b < 2 then some 0 else none

def statsStart : StatsSys (HashTable.Ref FgaAclCacheKey Nat) 1 :=
  statsInit 1 (l2Startup refIndex (fgaCacheShmemInit 2 zeroedMem))

/-- A lookup that misses twice; another process stores, and hits. -/
def missAndHit : List StatsAct :=
  [.cache (.lookupL1 0 ⟨7, 7, 7, 0, 0⟩ 5), .count 0, .cache (.lookupL2 0), .count 0,
    .cache (.storeL1 1 ⟨7, 7, 7, 0, 0⟩ true 5 1000), .cache (.storeL2 1),
    .cache (.lookupL1 1 ⟨7, 7, 7, 0, 0⟩ 6), .count 1]

theorem stats_at_rest_taken_over : ∃ s, run (statsStep refIndex takenOver) statsStart missAndHit = some s ∧
    s.lookups = [0, 1] ∧ s.backends 0 .cacheL1Hits + s.backends 0 .cacheL1Misses =
      UInt64.ofNat (s.lookups.countP fun b => decide (takenOver b = some 0)) := by
  have hall : (run (statsStep refIndex takenOver) statsStart missAndHit).any (fun s =>
      decide (s.pending 0 = none) && decide (s.pending 1 = none) && decide ((s.cache.pc 0).inL2 = 0) &&
        decide ((s.cache.pc 1).inL2 = 0) && decide (s.lookups = [0, 1])) = true := by decide +kernel
  obtain ⟨s, hs, hand⟩ := (Option.any_eq_true _ _).1 hall
  simp only [Bool.and_eq_true, decide_eq_true_eq] at hand
  obtain ⟨⟨⟨⟨h0, h1⟩, h0'⟩, h1'⟩, hlookups⟩ := hand
  refine ⟨s, hs, hlookups, (stats_at_rest _ missAndHit hs 0 fun b hb => ?_).1⟩
  have hlt : b < 2 := by
    unfold takenOver at hb
    split at hb
    · assumption
    · cases hb
  obtain rfl | rfl : b = 0 ∨ b = 1 := by omega
  · exact ⟨h0, h0'⟩
  · exact ⟨h1, h1'⟩

/-! ## A report while they count -/

/-- What a cell adds to the sum of `f`. -/
def weigh (c : Fin n → StatsField → Nat) (f : StatsField) (p : Fin n × StatsField) : Nat :=
  if p.2 = f then c p.1 f else 0

theorem sum_reported (f : StatsField) (k : Nat) :
    (reported.map fun r => if r.1 = f then k else 0).sum = if f = .checkError then 0 else k := by
  cases f <;> simp [reported]

theorem sum_cells (c : Fin n → StatsField → Nat) {f : StatsField} (hf : f ≠ .checkError) :
    ((cells n).map (weigh c f)).sum = ∑ i, c i f := by
  have hrow : ∀ i : Fin n, ((reported.map fun r => (i, r.1)).map (weigh c f)).sum = c i f := by
    intro i
    rw [List.map_map]
    exact (sum_reported f (c i f)).trans (if_neg hf)
  rw [Fin.sum_univ_def, cells, List.map_flatMap, List.flatMap_def, List.sum_flatten, List.map_map]
  exact congrArg List.sum (List.map_congr_left fun i _ => hrow i)

/-- How often `f` has been counted. -/
def StatsSys.countedAll (proc : Nat → Option (Fin n)) (s : StatsSys T n) (f : StatsField) : Nat :=
  s.log.countP fun e => (proc e.1).isSome && decide (e.2 = f)

theorem sum_counted (s : StatsSys T n) (f : StatsField) : ∑ i, s.counted proc i f = s.countedAll proc f :=
  sum_countP (fun e : Nat × StatsField => proc e.1) (fun e => decide (e.2 = f)) s.log

/-- A report of `b` that is under way has read what there was at some time since `c₀`. -/
structure ReportsOk (proc : Nat → Option (Fin n)) (c₀ : Fin n → StatsField → Nat) (b : Nat) (s : StatsSys T n) :
    Prop where
  since : ∀ i f, c₀ i f ≤ s.counted proc i f
  rows : Rows proc s
  reports : ∀ r, s.reading b = some r → ∃ done, cells n = done ++ r.left ∧
    ∀ f, Between (weigh c₀ f) (weigh (s.counted proc) f) done (r.totals f).toNat

theorem weigh_mono {c c' : Fin n → StatsField → Nat} (h : ∀ i f, c i f ≤ c' i f) (f : StatsField)
    (p : Fin n × StatsField) : weigh c f p ≤ weigh c' f p := by
  unfold weigh
  split
  · exact h p.1 f
  · exact Nat.le_refl 0

theorem counted_le_length (s : StatsSys T n) (f : StatsField) : s.countedAll proc f ≤ s.log.length :=
  List.countP_le_length

/-- Reading a cell. -/
theorem toNat_read {c₀ : Fin n → StatsField → Nat} {b : Nat} (h : ReportsOk proc c₀ b s)
    (hlog : s.log.length < 2 ^ 64) {i : Fin n} {f : StatsField} {left done : List (Fin n × StatsField)}
    {totals : FgaBackendStats} (hcells : cells n = done ++ (i, f) :: left)
    (hdone : ∀ f, Between (weigh c₀ f) (weigh (s.counted proc) f) done (totals f).toNat) (f' : StatsField) :
    Between (weigh c₀ f') (weigh (s.counted proc) f') (done ++ [(i, f)])
      (Function.update totals f (totals f + s.backends i f) f').toNat := by
  have hsnoc := (hdone f').snoc (weigh_mono h.since f' (i, f))
  by_cases hf : f' = f
  · subst hf
    have hne : f' ≠ .checkError := by
      rintro rfl
      have hmem : (i, StatsField.checkError) ∈ cells n := by
        rw [hcells]
        simp
      simp [cells, reported] at hmem
    have hweigh : weigh (s.counted proc) f' (i, f') = s.counted proc i f' := if_pos rfl
    -- the sum that is being made is part of all that has been counted
    have hall : (totals f').toNat + s.counted proc i f' ≤ s.log.length := by
      have htotal : ((cells n).map (weigh (s.counted proc) f')).sum = s.countedAll proc f' :=
        (sum_cells _ hne).trans (sum_counted s f')
      rw [hcells, List.map_append, List.sum_append, List.map_cons, List.sum_cons, hweigh] at htotal
      have hupper := (hdone f').upper
      have hle : s.countedAll proc f' ≤ s.log.length := counted_le_length s f'
      omega
    have hto : (totals f' + s.backends i f').toNat = (totals f').toNat + s.counted proc i f' := by
      rw [UInt64.toNat_add, h.rows i f', UInt64.toNat_ofNat', Nat.mod_eq_of_lt (a := s.counted proc i f') (by omega),
        Nat.mod_eq_of_lt (by omega)]
    rw [Function.update_self, hto]
    rw [hweigh] at hsnoc
    exact hsnoc
  · have hweigh : weigh (s.counted proc) f' (i, f) = 0 := if_neg (Ne.symm hf)
    rw [hweigh, Nat.add_zero] at hsnoc
    rw [Function.update_of_ne hf]
    exact hsnoc

theorem reports_step {c₀ : Fin n → StatsField → Nat} {b : Nat} (h : ReportsOk proc c₀ b s)
    (hlog : s.log.length < 2 ^ 64) {a : StatsAct} (hs : statsStep H proc s a = some s') : ReportsOk proc c₀ b s' := by
  have hrows := rows_step h.rows hs
  cases a with
  | cache a =>
    obtain ⟨-, c, -, rfl⟩ := statsStep_cache hs
    exact ⟨h.since, hrows, h.reports⟩
  | count b' =>
    obtain ⟨f, -, rfl⟩ := statsStep_count hs
    have hmore : ∀ i f', s.counted proc i f' ≤ StatsSys.counted proc
        { s with
          backends := backendStats proc s.backends b' f
          pending := Function.update s.pending b' none
          log := s.log ++ [(b', f)] } i f' := by
      intro i f'
      rw [counted_count]
      exact Nat.le_add_right ..
    refine ⟨fun i f' => (h.since i f').trans (hmore i f'), hrows, fun r hr => ?_⟩
    obtain ⟨done, hcells, hdone⟩ := h.reports r hr
    exact ⟨done, hcells, fun f' => (hdone f').mono (weigh_mono hmore f')⟩
  | report b' =>
    rw [statsStep] at hs
    split at hs
    · cases hs
      refine ⟨h.since, hrows, fun r hr => ?_⟩
      by_cases hb : b = b'
      · subst hb
        simp only [Function.update_self, Option.some.injEq] at hr
        subst hr
        exact ⟨[], rfl, fun f => Between.nil _ _⟩
      · simp only [Function.update_of_ne hb] at hr
        exact h.reports r hr
    · cases hs
  | read b' =>
    rw [statsStep] at hs
    split at hs
    · rename_i i f left totals hreading
      cases hs
      refine ⟨h.since, hrows, fun r hr => ?_⟩
      by_cases hb : b = b'
      · subst hb
        simp only [Function.update_self, Option.some.injEq] at hr
        subst hr
        obtain ⟨done, hcells, hdone⟩ := h.reports _ hreading
        exact ⟨done ++ [(i, f)], by rw [hcells, List.append_assoc]; rfl, toNat_read h hlog hcells hdone⟩
      · simp only [Function.update_of_ne hb] at hr
        exact h.reports r hr
    · cases hs
  | rows b' =>
    rw [statsStep] at hs
    split at hs
    · cases hs
      refine ⟨h.since, hrows, fun r hr => ?_⟩
      by_cases hb : b = b'
      · subst hb
        simp only [Function.update_self] at hr
        cases hr
      · simp only [Function.update_of_ne hb] at hr
        exact h.reports r hr
    · cases hs

theorem log_length {a : StatsAct} (hs : statsStep H proc s a = some s') : s'.log.length ≤ s.log.length + 1 := by
  cases a with
  | cache a =>
    obtain ⟨-, c, -, rfl⟩ := statsStep_cache hs
    exact Nat.le_succ _
  | count b =>
    obtain ⟨f, -, rfl⟩ := statsStep_count hs
    rw [List.length_append, List.length_singleton]
  | report | read | rows =>
    obtain ⟨_, rfl⟩ := statsStep_reader (by simp) (by simp) hs
    exact Nat.le_succ _

theorem run_log_length (acts : List StatsAct) {s : StatsSys T n} (hr : run (statsStep H proc) s acts = some s') :
    s'.log.length ≤ s.log.length + acts.length := by
  induction acts generalizing s with
  | nil =>
    cases hr
    exact Nat.le_refl _
  | cons a acts ih =>
    obtain ⟨u, h1, h2⟩ := run_cons.1 hr
    have hu := log_length h1
    have hs' := ih h2
    rw [List.length_cons]
    omega

theorem meets_log (acts : List StatsAct) {s : StatsSys T n} (h : s.log.length + acts.length < 2 ^ 64) :
    Meets (statsStep H proc) (fun s _ => s.log.length < 2 ^ 64) s acts := by
  induction acts generalizing s with
  | nil => trivial
  | cons a acts ih =>
    rw [List.length_cons] at h
    refine ⟨by omega, fun u hu => ih ?_⟩
    have hlen := log_length hu
    omega

/-- **What a report says** has been counted when it returns, and is no less than what had been counted when it
began, for each row it makes. -/
theorem fgaStats_between (l2 : L2 T) (pre post : List StatsAct) (hlen : pre.length + post.length < 2 ^ 64)
    (hpre : run (statsStep H proc) (statsInit n l2) pre = some s) {b : Nat} (hidle : s.reading b = none)
    (hpost : run (statsStep H proc) s post = some s') {totals : FgaBackendStats}
    (hdone : s'.reading b = some ⟨[], totals⟩) : ∀ r ∈ reported,
      s.countedAll proc r.1 ≤ (totals r.1).toNat ∧ (totals r.1).toNat ≤ s'.countedAll proc r.1 := by
  intro r hr
  have hrows : Rows proc s := run_inv (Rows proc) (fun _ _ _ h hs => rows_step h hs) pre (rows_init l2) hpre
  have hlog : s.log.length ≤ 0 + pre.length := run_log_length pre hpre
  have hok : ReportsOk proc (s.counted proc) b s' := by
    refine run_inv_of_meets (ReportsOk proc (s.counted proc) b) (fun s _ => s.log.length < 2 ^ 64)
      (fun _ _ _ h hg hs => reports_step h hg hs) post ⟨fun _ _ => Nat.le_refl _, hrows, ?_⟩
      (meets_log post (by omega)) hpost
    intro r hr
    rw [hidle] at hr
    cases hr
  obtain ⟨done, hcells, hbetween⟩ := hok.reports _ hdone
  rw [List.append_nil] at hcells
  have hne : r.1 ≠ .checkError := by
    intro he
    have hmem := List.mem_map_of_mem (f := Prod.fst) hr
    rw [he] at hmem
    revert hmem
    decide
  have hb := hbetween r.1
  rw [← hcells] at hb
  have hlower := hb.lower
  have hupper := hb.upper
  rw [sum_cells _ hne, sum_counted] at hlower hupper
  exact ⟨hlower, hupper⟩

/-- A miss that is counted while a report is under way. -/
def countedMeanwhile : List StatsAct := [.report 1, .read 1, .count 0] ++ List.replicate 11 (.read 1)

theorem fgaStats_between_meanwhile : ∃ s s' totals,
    run (statsStep refIndex takenOver) statsStart [.cache (.lookupL1 0 ⟨7, 7, 7, 0, 0⟩ 5)] = some s ∧
    run (statsStep refIndex takenOver) s countedMeanwhile = some s' ∧ s'.reading 1 = some ⟨[], totals⟩ ∧
    s.countedAll takenOver .cacheL1Misses ≤ (totals .cacheL1Misses).toNat ∧
    (totals .cacheL1Misses).toNat ≤ s'.countedAll takenOver .cacheL1Misses ∧
    s.countedAll takenOver .cacheL1Misses = 0 ∧ s'.countedAll takenOver .cacheL1Misses = 1 := by
  have hall : (run (statsStep refIndex takenOver) statsStart [.cache (.lookupL1 0 ⟨7, 7, 7, 0, 0⟩ 5)]).any (fun s =>
      (s.reading 1).isNone && decide (s.countedAll takenOver .cacheL1Misses = 0) &&
        (run (statsStep refIndex takenOver) s countedMeanwhile).any fun s' =>
          (s'.reading 1).any (fun r => r.left.isEmpty) &&
            decide (s'.countedAll takenOver .cacheL1Misses = 1)) = true := by decide +kernel
  obtain ⟨s, hs, hand⟩ := (Option.any_eq_true _ _).1 hall
  simp only [Bool.and_eq_true, decide_eq_true_eq, Option.isNone_iff_eq_none] at hand
  obtain ⟨⟨hidle, hbefore⟩, hrest⟩ := hand
  obtain ⟨s', hs', hand⟩ := (Option.any_eq_true _ _).1 hrest
  simp only [Bool.and_eq_true, decide_eq_true_eq] at hand
  obtain ⟨hreport, hafter⟩ := hand
  obtain ⟨⟨left, totals⟩, hreading, hleft⟩ := (Option.any_eq_true _ _).1 hreport
  obtain rfl : left = [] := List.isEmpty_iff.1 hleft
  have hbetween := fgaStats_between _ _ countedMeanwhile (by decide) hs hidle hs' hreading
    (.cacheL1Misses, "cache.l1", "misses") (by decide)
  exact ⟨s, s', totals, hs, hs', hreading, hbetween.1, hbetween.2, hbefore, hafter⟩

end

end PostFga
