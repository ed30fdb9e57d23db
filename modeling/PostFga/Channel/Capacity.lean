import Mathlib.Data.List.Perm.Subperm
import PostFga.Channel.Effects
import PostFga.Lib.Smear
/-
# The pool and its ring (`channel_shmem.c`)

A ring of capacity `2^k` holds `2^k - 1` indices, so that a pool of `2^k` slots has one too many.

| here | there |
| --- | --- |
| `pow2Ceil`        | `pow2_ceil` (`:11`) |
| `computeSlotSize` | `compute_slot_size` (`:40`); `maxConnections` is what `atoi` makes of the setting, `none` is NULL. PostgreSQL admits 1 to 262143, so that `* 2` does not overflow |
| `fgaChannelShmemInit` | `fga_channel_shmem_init` (`:77`) with what `compute_slot_size` has returned |

`FgaConfig.max_slots` is 0: no setting writes to it.
-/

namespace PostFga

open Transition

def pow2Ceil (x : UInt32) : UInt32 :=
  if x = 0 then 1
  else
    let x := x - 1
    let x := x ||| x >>> 1
    let x := x ||| x >>> 2
    let x := x ||| x >>> 4
    let x := x ||| x >>> 8
    let x := x ||| x >>> 16
    x + 1

def computeSlotSize (maxSlots : Int) (maxConnections : Option Int) : Int :=
  if maxSlots > 0 then maxSlots
  else
    let maxConn := maxConnections.getD 100
    let slots := maxConn * 2
    let slots := if slots < 1024 then 1024 else slots
    if slots > 16384 then 16384 else slots

/-- `uint32 slot_count`. -/
def slotCount (maxConnections : Int) : UInt32 := .ofInt (computeSlotSize 0 (some maxConnections))

/-- `mem` and `values` are what the segment held. -/
def fgaChannelShmemInit (slotCount : UInt32) (mem : Nat → FgaChannelSlot) (values : Nat → UInt16) : St :=
  let queueCapacity := pow2Ceil slotCount
  { St.init slotCount.toNat 0 mem values with queue := queueInit queueCapacity.toUInt16 values }

/-- A slot of the pool that is not on the free list. -/
def St.Acquired (s : St) (n i : Nat) : Prop := i < n ∧ ¬ s.pool.free.Visits i

def St.queued (s : St) : List Nat := (queueContents s.queue).map UInt16.toNat

/-- While the queue holds acquired slots, each at most once, `fga_channel_execute_slot` gets another
one into it. -/
def St.Enqueues (s : St) (n : Nat) : Prop :=
  (∀ i ∈ s.queued, s.Acquired n i) → s.queued.Nodup →
    ∀ b job, s.backends b = .running job (.fill [] none) → s.Acquired n job.slot → job.slot ∉ s.queued →
      (queueEnqueue s.queue (.ofNat job.slot)).isSome = true

/-! ## The sizes -/

theorem pow2Ceil_toNat {x : UInt32} (hx : 0 < x.toNat) (hle : x.toNat ≤ 2 ^ 31) :
    (pow2Ceil x).toNat = 2 ^ Nat.clog 2 x.toNat := by
  have hne : x ≠ 0 := by
    rintro rfl
    exact absurd hx (by decide)
  have hsub : (x - 1).toNat = x.toNat - 1 := UInt32.toNat_sub_of_le x 1 (UInt32.le_iff_toNat_le.2 hx)
  have hround := Smear.smears_round (t := 5) hx (hle.trans (by decide))
  have hpow : 2 ^ Nat.clog 2 x.toNat ≤ 2 ^ 31 := Nat.pow_le_pow_right (by decide) (Nat.clog_le_of_le_pow hle)
  unfold pow2Ceil
  rw [if_neg hne]
  simp only [UInt32.toNat_add, UInt32.toNat_or, UInt32.toNat_shiftRight, hsub]
  change (Smear.smears 5 (x.toNat - 1) + 1) % 2 ^ 32 = _
  rw [hround]
  omega

theorem computeSlotSize_bounds (maxConnections : Int) :
    1024 ≤ computeSlotSize 0 (some maxConnections) ∧ computeSlotSize 0 (some maxConnections) ≤ 16384 := by
  simp only [computeSlotSize, Option.getD_some]
  repeat' split
  all_goals omega

theorem slotCount_toNat (maxConnections : Int) :
    ((slotCount maxConnections).toNat : Int) = computeSlotSize 0 (some maxConnections) := by
  obtain ⟨hlo, hhi⟩ := computeSlotSize_bounds maxConnections
  rw [slotCount, UInt32.ofInt, UInt32.toNat_ofNat']
  omega

/-- The pool's size is no power of two if and only if `max_connections` is none, between the bounds. -/
theorem slotCount_eq_pow (maxConnections : Int) : (∃ k, (slotCount maxConnections).toNat = 2 ^ k) ↔
    ¬ (512 < maxConnections ∧ maxConnections < 8192 ∧ ∀ j : Nat, maxConnections ≠ 2 ^ j) := by
  have hn := slotCount_toNat maxConnections
  have hpow : ∀ k : Nat, ((2 ^ (k + 1) : Nat) : Int) = (2 : Int) ^ k * 2 := by
    intro k
    rw [Nat.pow_succ]
    push_cast
    rfl
  simp only [computeSlotSize, Option.getD_some] at hn
  rcases Int.lt_or_le 512 maxConnections with hlo | hlo
  · rcases Int.lt_or_le maxConnections 8192 with hhi | hhi
    · have hn : ((slotCount maxConnections).toNat : Int) = maxConnections * 2 := by
        repeat' split at hn
        all_goals omega
      constructor
      · rintro ⟨k, hk⟩ ⟨_, _, hj⟩
        cases k with
        | zero => omega
        | succ k =>
          rw [hk, hpow] at hn
          exact hj k (by omega)
      · intro h
        by_contra hno
        refine h ⟨hlo, hhi, fun j hj => hno ⟨j + 1, Int.natCast_inj.1 ?_⟩⟩
        rw [hn, hj, hpow]
    · refine ⟨fun _ h => by omega, fun _ => ⟨14, ?_⟩⟩
      repeat' split at hn
      all_goals omega
  · refine ⟨fun _ h => by omega, fun _ => ⟨10, ?_⟩⟩
    repeat' split at hn
    all_goals omega

theorem slotCount_bounds (maxConnections : Int) :
    1024 ≤ (slotCount maxConnections).toNat ∧ (slotCount maxConnections).toNat ≤ 2 ^ 14 := by
  have hn := slotCount_toNat maxConnections
  have := computeSlotSize_bounds maxConnections
  omega

/-- The channel as it is initialized, with a ring of the least capacity that is a power of two and not
less than the number of slots. -/
theorem fgaChannelShmemInit_eq {x : UInt32} (hx : 0 < x.toNat) (hle : x.toNat ≤ 2 ^ 14)
    (mem : Nat → FgaChannelSlot) (values : Nat → UInt16) :
    fgaChannelShmemInit x mem values = St.init x.toNat (Nat.clog 2 x.toNat) mem values := by
  have hcap : (pow2Ceil x).toUInt16 = .ofNat (2 ^ Nat.clog 2 x.toNat) := by
    rw [← UInt16.toNat_inj, UInt32.toNat_toUInt16, pow2Ceil_toNat hx (hle.trans (by decide)), UInt16.toNat_ofNat']
  simp only [fgaChannelShmemInit, hcap]
  rfl

/-! ## A ring with room for the pool -/

section
variable {n k : Nat} {s s' : St} {l : List UInt16}

theorem Ring.queued (h : Ring s.queue k l) : s.queued = l.map UInt16.toNat := by
  rw [St.queued, h.contents]

theorem step_ring (h : Ring s.queue k l) {a : Act} (hs : s.step a = some s') : ∃ l, Ring s'.queue k l := by
  have hkeep : s'.queue = s.queue → ∃ l, Ring s'.queue k l := fun he => ⟨l, by rwa [he]⟩
  cases a with
  | acquire b config call =>
    obtain ⟨-, rfl⟩ := step_acquire hs
    refine hkeep ?_
    unfold St.acquire
    split <;> rfl
  | backend b fails =>
    obtain ⟨job, stage, -, rfl⟩ := step_backend hs
    by_cases hstage : stage = .fill [] none
    · subst hstage
      simp only [St.advance]
      rcases h.enqueue (.ofNat job.slot) with ⟨_, he⟩ | ⟨q', _, he, h'⟩
      · rw [he]
        exact ⟨l, h⟩
      · rw [he]
        exact ⟨_, h'⟩
    · exact hkeep ((advance_lists s b job fails stage).2.2.2.2 hstage)
  | exit b =>
    obtain ⟨-, rfl⟩ := step_exit hs
    exact ⟨l, h⟩
  | worker =>
    simp only [St.step, St.stepWorker] at hs
    by_cases hw : s.worker = .drain
    · rw [hw] at hs
      cases hs
      exact ⟨_, (h.drain 50).2⟩
    · refine hkeep ?_
      repeat' split at hs
      all_goals cases hs
      all_goals first
        | rfl
        | exact absurd ‹s.worker = .drain› hw
  | complete m o =>
    obtain ⟨r, -, -, rfl⟩ := step_complete hs
    exact ⟨l, h⟩
  | handler m =>
    obtain ⟨r, -, hs⟩ := step_handler hs
    obtain ⟨o, i, todo, -, -, rfl⟩ | ⟨o, i, todo, -, -, rfl⟩ | ⟨o, -, rfl⟩ := stepHandler_cases hs
    all_goals exact ⟨l, h⟩

/-- An index below `n` that is not among the ones in the ring finds room, if the capacity is more than `n`. -/
theorem Ring.enqueues (h : Ring s.queue k l) (hn : n < 2 ^ k) : s.Enqueues n := by
  intro hall hnodup b job _ hjob hnot
  rw [h.queued] at hall hnodup hnot
  have hsub : job.slot :: l.map UInt16.toNat ⊆ List.range n := by
    intro i hi
    rcases List.mem_cons.1 hi with rfl | hi
    · exact List.mem_range.2 hjob.1
    · exact List.mem_range.2 (hall i hi).1
  have hlen := ((List.nodup_cons.2 ⟨hnot, hnodup⟩).subperm hsub).length_le
  simp only [List.length_cons, List.length_map, List.length_range] at hlen
  rcases h.enqueue (.ofNat job.slot) with ⟨hfull, _⟩ | ⟨q', _, he, _⟩
  · omega
  · rw [he]
    rfl

/-! ## A queue full of cancelled checks -/

def checkConfig : FgaConfig := ⟨some (.lit "s"), none⟩

/-- A check by backend 0 up to its `queue_enqueue`. -/
def untilEnqueue : List Act := .acquire 0 checkConfig checkViewer :: goOn 0 11

/-- The check goes on, and is interrupted while it waits. -/
def interruptedWait : List Act := goOn 0 3 ++ .backend 0 true :: goOn 0 3

/-- Backend 0 is idle, `free` is the free list and `l` what the ring holds. -/
structure Between (k : Nat) (s : St) (free : List Nat) (l : List UInt16) : Prop where
  idle : s.backends 0 = .idle
  spells : s.pool.free.Spells free
  ring : Ring s.queue k l

/-- Backend 0 is in a check on slot `i`, PENDING. -/
structure Checking (k : Nat) (s : St) (free : List Nat) (l : List UInt16) (i : Nat) (stage : Stage) : Prop where
  running : ∃ job, s.backends 0 = .running job stage ∧ job.slot = i ∧ job.config = checkConfig ∧
    job.call = checkViewer
  spells : s.pool.free.Spells free
  ring : Ring s.queue k l
  pending : (s.pool.slots i).state = .pending

variable {free : List Nat} {i : Nat}

theorem Between.acquire (h : Between k s (i :: free) l) :
    ∃ s', s.step (.acquire 0 checkConfig checkViewer) = some s' ∧ Checking k s' free l i .setPid := by
  obtain ⟨t, hpop, ht⟩ := h.spells.popHead_cons
  have hacq : acquireSlot s.pool = some (i, { s.pool with free := t }.setState i .pending) := by
    rw [acquireSlot, hpop]
    rfl
  refine ⟨s.acquire 0 checkConfig checkViewer, ?_, ?_⟩
  · simp only [St.step, h.idle]
  · unfold St.acquire
    rw [hacq]
    refine ⟨⟨_, goto_self .., rfl, rfl, rfl⟩, ht, h.ring, ?_⟩
    exact setState_self ..

/-- One step of the check that leaves its slot PENDING, and the free list and the queue as they are. -/
theorem Checking.goto (h : Checking k s free l i stage) (fails : Bool) (stage' : Stage) {u : St}
    (hstep : ∀ job, job.config = checkConfig → job.call = checkViewer → job.slot = i →
      ∃ id, s.advance 0 job fails stage = u.goto 0 { job with requestId := id } stage')
    (hfree : u.pool.free = s.pool.free) (hqueue : u.queue = s.queue)
    (hstate : (u.pool.slots i).state = (s.pool.slots i).state) :
    ∃ s', s.step (.backend 0 fails) = some s' ∧ Checking k s' free l i stage' := by
  obtain ⟨job, hb, hi, hc, hcall⟩ := h.running
  obtain ⟨id, hadv⟩ := hstep job hc hcall hi
  refine ⟨u.goto 0 { job with requestId := id } stage', ?_, ⟨_, goto_self .., hi, hc, hcall⟩, ?_, ?_, ?_⟩
  · simp only [St.step, hb, hadv]
  · show u.pool.free.Spells free
    rw [hfree]
    exact h.spells
  · show Ring u.queue k l
    rw [hqueue]
    exact h.ring
  · exact hstate.trans h.pending

theorem Checking.keep (h : Checking k s free l i stage) (fails : Bool) (stage' : Stage)
    (hstep : ∀ job, job.slot = i → s.advance 0 job fails stage = s.goto 0 job stage') :
    ∃ s', s.step (.backend 0 fails) = some s' ∧ Checking k s' free l i stage' :=
  h.goto fails stage' (fun job _ _ hi => ⟨job.requestId, hstep job hi⟩) rfl rfl rfl

/-- The three steps before the request is written. -/
theorem Checking.prepare (h : Checking k s free l i .setPid) : ∃ s' ws, ws.length = 8 ∧
    run St.step s (goOn 0 3) = some s' ∧ Checking k s' free l i (.fill ws none) := by
  obtain ⟨s1, h1, hs1⟩ := h.goto false .resetPayload
    (u := { s with pool := s.pool.setPid i (some 0) })
    (by rintro job - - rfl; exact ⟨job.requestId, rfl⟩) rfl rfl (setPid_state ..)
  obtain ⟨s2, h2, hs2⟩ := hs1.goto false .nextRequestId (u := s1.write i .reset)
    (by rintro job - - rfl; exact ⟨job.requestId, rfl⟩) rfl rfl (setPayload_state ..)
  obtain ⟨ws, hlen, hws⟩ : ∃ ws, ws.length = 7 ∧ checkViewer.writes checkConfig = (ws, none) := ⟨_, rfl, rfl⟩
  obtain ⟨s3, h3, hs3⟩ := hs2.goto false (.fill (.requestId (s2.requestId + 1) :: ws) none)
    (u := { s2 with requestId := s2.requestId + 1 })
    (fun job hc hcall _ => ⟨s2.requestId + 1, by simp only [St.advance, hc, hcall, hws]⟩) rfl rfl rfl
  refine ⟨s3, _, ?_, run_cons.2 ⟨s1, h1, run_cons.2 ⟨s2, h2, run_cons.2 ⟨s3, h3, rfl⟩⟩⟩, hs3⟩
  rw [List.length_cons, hlen]

theorem Checking.fill {ws : List FieldWrite} (h : Checking k s free l i (.fill ws none)) :
    ∃ s', run St.step s (goOn 0 ws.length) = some s' ∧ Checking k s' free l i (.fill [] none) := by
  induction ws generalizing s with
  | nil => exact ⟨s, rfl, h⟩
  | cons w ws ih =>
    obtain ⟨s1, h1, hs1⟩ := h.goto false (.fill ws none) (u := s.write i w)
      (by rintro job - - rfl; exact ⟨job.requestId, rfl⟩) rfl rfl (setPayload_state ..)
    obtain ⟨s', hrun, hs'⟩ := ih hs1
    exact ⟨s', run_cons.2 ⟨s1, h1, hrun⟩, hs'⟩

theorem Between.untilEnqueue (h : Between k s (i :: free) l) :
    ∃ s', run St.step s untilEnqueue = some s' ∧ Checking k s' free l i (.fill [] none) := by
  obtain ⟨s1, h1, hs1⟩ := h.acquire
  obtain ⟨s2, ws, hlen, h2, hs2⟩ := hs1.prepare
  obtain ⟨s3, h3, hs3⟩ := hs2.fill
  rw [hlen] at h3
  have hgo : run St.step s1 (goOn 0 3 ++ goOn 0 8) = some s3 := run_append.2 ⟨s2, h2, h3⟩
  exact ⟨s3, run_cons.2 ⟨s1, h1, hgo⟩, hs3⟩

theorem Checking.enqueue (h : Checking k s free l i (.fill [] none)) (hl : l.length < 2 ^ k - 1) :
    ∃ s', s.step (.backend 0 false) = some s' ∧ Checking k s' free (l ++ [.ofNat i]) i .wakeBgw := by
  obtain ⟨job, hb, hi, hc, hcall⟩ := h.running
  rcases h.ring.enqueue (.ofNat i) with ⟨hfull, _⟩ | ⟨queue, _, he, hring⟩
  · omega
  · refine ⟨{ s with queue := queue }.goto 0 job .wakeBgw, ?_, ⟨job, goto_self .., hi, hc, hcall⟩,
      h.spells, hring, h.pending⟩
    simp only [St.step, hb, St.advance, hi, he]

/-- The wait up to the interrupt, and the `PG_CATCH` that has read PENDING. -/
theorem Checking.wait (h : Checking k s free l i .wakeBgw) :
    ∃ s', run St.step s (goOn 0 2 ++ .backend 0 true :: goOn 0 1) = some s' ∧
      Checking k s' free l i (.wait .catchCancel) := by
  obtain ⟨s1, h1, hs1⟩ := h.goto false (.wait .readState) (u := { s with latch := true })
    (fun job _ _ _ => ⟨job.requestId, rfl⟩) rfl rfl rfl
  obtain ⟨s2, h2, hs2⟩ := hs1.keep false (.wait .waitLatch) (by
    rintro job rfl
    simp only [St.advance, hs1.pending]
    rfl)
  obtain ⟨s3, h3, hs3⟩ := hs2.keep true (.wait .catchReadState) fun _ _ => rfl
  obtain ⟨s4, h4, hs4⟩ := hs3.keep false (.wait .catchCancel) (by
    rintro job rfl
    simp only [St.advance, hs3.pending]
    rfl)
  exact ⟨s4, run_cons.2 ⟨s1, h1, run_cons.2 ⟨s2, h2, run_cons.2 ⟨s3, h3, run_cons.2 ⟨s4, h4, rfl⟩⟩⟩⟩, hs4⟩

theorem Checking.cancel (h : Checking k s free l i (.wait .catchCancel)) :
    ∃ s', run St.step s (goOn 0 2) = some s' ∧ Between k s' free l := by
  obtain ⟨job, hb, -, -, hcall⟩ := h.running
  have h1 : s.step (.backend 0 false) =
      some ((s.apply (.writeState .canceled) job.slot).goto 0 job (.wait .catchWritePid)) := by
    simp only [St.step, hb]
    rfl
  have hcheck : job.call.isCheck = true := by rw [hcall]; rfl
  let s1 := (s.apply (.writeState .canceled) job.slot).goto 0 job (.wait .catchWritePid)
  have h2 : s1.step (.backend 0 false) = some ((s1.apply (.writePid none) job.slot).finish 0) := by
    simp only [s1, St.step, goto_self, St.advance, waitStep, St.afterWait, St.raise, hcheck, if_true]
  refine ⟨_, run_cons.2 ⟨s1, h1, run_cons.2 ⟨_, h2, rfl⟩⟩, ?_, h.spells, h.ring⟩
  exact setBackend_self _ 0 .idle

/-- **A check that is interrupted while it waits** leaves its slot in the queue. -/
theorem Between.interruptedCheck (h : Between k s (i :: free) l) (hl : l.length < 2 ^ k - 1) :
    ∃ s', run St.step s (PostFga.untilEnqueue ++ interruptedWait) = some s' ∧
      Between k s' free (l ++ [.ofNat i]) := by
  obtain ⟨s1, h1, hs1⟩ := h.untilEnqueue
  obtain ⟨s2, h2, hs2⟩ := hs1.enqueue hl
  obtain ⟨s3, h3, hs3⟩ := hs2.wait
  obtain ⟨s4, h4, hs4⟩ := hs3.cancel
  have hwait : run St.step s2 ((goOn 0 2 ++ .backend 0 true :: goOn 0 1) ++ goOn 0 2) = some s4 :=
    run_append.2 ⟨s3, h3, h4⟩
  exact ⟨s4, run_append.2 ⟨s1, h1, run_cons.2 ⟨s2, h2, hwait⟩⟩, hs4⟩

/-- After `m` interrupted checks. -/
theorem Between.interruptedChecks (h : Between k s free []) (m : Nat) (hm : m < 2 ^ k) (hfree : m ≤ free.length) :
    ∃ s', run St.step s (List.replicate m (PostFga.untilEnqueue ++ interruptedWait)).flatten = some s' ∧
      Between k s' (free.drop m) ((free.take m).map UInt16.ofNat) := by
  induction m with
  | zero => exact ⟨s, rfl, h⟩
  | succ m ih =>
    obtain ⟨s1, h1, hs1⟩ := ih (by omega) (by omega)
    rw [List.drop_eq_getElem_cons (by omega)] at hs1
    obtain ⟨s2, h2, hs2⟩ := hs1.interruptedCheck (by simp; omega)
    refine ⟨s2, ?_, ?_⟩
    · rw [List.replicate_succ', List.flatten_concat]
      exact run_append.2 ⟨s1, h1, h2⟩
    · rw [← List.take_append_getElem (by omega), List.map_append]
      exact hs2

/-- A check for each slot of the pool, all but the last one interrupted. -/
def checkEverySlot (n : Nat) : List Act :=
  (List.replicate (n - 1) (untilEnqueue ++ interruptedWait)).flatten ++ untilEnqueue

theorem length_initFree (n : Nat) : (initFree n).length = n := by
  induction n with
  | zero => rfl
  | succ n ih => rw [initFree, List.length_cons, ih]

/-- **A pool as large as the ring's capacity**: the last slot finds the queue full of the others. -/
theorem refused_run (hk : k ≤ 15) (mem : Nat → FgaChannelSlot) (values : Nat → UInt16) :
    ∃ s, run St.step (St.init (2 ^ k) k mem values) (checkEverySlot (2 ^ k)) = some s ∧ ¬ s.Enqueues (2 ^ k) := by
  have hpos := Nat.two_pow_pos k
  have hfit := two_pow_le hk
  have hlen := length_initFree (2 ^ k)
  have hstart : Between k (St.init (2 ^ k) k mem values) (initFree (2 ^ k)) [] :=
    ⟨rfl, (poolInit_spec mem (2 ^ k)).1, ring_init hk values⟩
  obtain ⟨s1, h1, hs1⟩ := hstart.interruptedChecks (2 ^ k - 1) (by omega) (by omega)
  obtain ⟨i, hi⟩ : ∃ i, (initFree (2 ^ k)).drop (2 ^ k - 1) = [i] := by
    rw [List.drop_eq_getElem_cons (by omega), List.drop_eq_nil_of_le (by omega)]
    exact ⟨_, rfl⟩
  rw [hi] at hs1
  obtain ⟨s2, h2, hs2⟩ := hs1.untilEnqueue
  have hsplit : (initFree (2 ^ k)).take (2 ^ k - 1) ++ [i] = initFree (2 ^ k) := by
    rw [← hi, List.take_append_drop]
  have hmem : ∀ j, j ∈ (initFree (2 ^ k)).take (2 ^ k - 1) ∨ j = i → j < 2 ^ k := by
    intro j hj
    rw [← mem_initFree, ← hsplit, List.mem_append, List.mem_singleton]
    exact hj
  have hacquired : ∀ j, j ∈ (initFree (2 ^ k)).take (2 ^ k - 1) ∨ j = i → s2.Acquired (2 ^ k) j := fun j hj =>
    ⟨hmem j hj, by rw [hs2.spells.visits]; exact List.not_mem_nil⟩
  have hqueued : s2.queued = (initFree (2 ^ k)).take (2 ^ k - 1) := by
    rw [hs2.ring.queued, List.map_map]
    refine (List.map_congr_left fun j hj => ?_).trans (List.map_id _)
    have := hmem j (Or.inl hj)
    exact UInt16.toNat_ofNat_of_lt' (by show j < 65536; omega)
  have hnodup := nodup_initFree (2 ^ k)
  rw [← hsplit] at hnodup
  obtain ⟨hnodup, -, hdisj⟩ := List.nodup_append.1 hnodup
  refine ⟨s2, run_append.2 ⟨s1, h1, h2⟩, fun henq => ?_⟩
  obtain ⟨job, hb, hslot, -⟩ := hs2.running
  have hsome := henq (fun j hj => hacquired j (Or.inl (hqueued ▸ hj))) (hqueued ▸ hnodup) 0 job hb
    (hacquired _ (Or.inr hslot)) (fun hj => hdisj _ (hqueued ▸ hj) i List.mem_cons_self hslot)
  rcases hs2.ring.enqueue (.ofNat job.slot) with ⟨_, he⟩ | ⟨_, hlt, _⟩
  · rw [he] at hsome
    cases hsome
  · simp only [List.length_map, List.length_take] at hlt
    omega

end

/-! ## Every setting of `max_connections` -/

/-- **No acquired slot is refused exactly when** the size of the pool is not a power of two. -/
theorem enqueues_iff (maxConnections : Int) :
    (∀ mem values acts s, run St.step (fgaChannelShmemInit (slotCount maxConnections) mem values) acts = some s →
      s.Enqueues (slotCount maxConnections).toNat) ↔
      512 < maxConnections ∧ maxConnections < 8192 ∧ ∀ j : Nat, maxConnections ≠ 2 ^ j := by
  obtain ⟨hlo, hhi⟩ := slotCount_bounds maxConnections
  have hinit := fun mem values => fgaChannelShmemInit_eq (x := slotCount maxConnections) (by omega) hhi mem values
  rw [← not_iff_not, ← slotCount_eq_pow]
  have hk : Nat.clog 2 (slotCount maxConnections).toNat ≤ 14 := Nat.clog_le_of_le_pow hhi
  constructor
  · intro h
    by_contra hno
    refine h fun mem values acts s hrun => ?_
    rw [hinit] at hrun
    obtain ⟨l, hring⟩ := run_inv (fun s => ∃ l, Ring s.queue _ l) (fun _ _ _ ⟨_, h⟩ hs => step_ring h hs) acts
      ⟨[], ring_init (by omega) values⟩ hrun
    have hle := Nat.le_pow_clog (b := 2) (by decide) (slotCount maxConnections).toNat
    exact hring.enqueues (Nat.lt_of_le_of_ne hle fun he => hno ⟨_, he⟩)
  · rintro ⟨k, hn⟩ h
    have hclog : Nat.clog 2 (slotCount maxConnections).toNat = k := by rw [hn, Nat.clog_pow 2 k (by decide)]
    rw [hclog] at hk
    obtain ⟨s, hrun, hs⟩ := refused_run (k := k) (by omega) freshSlot (fun _ => 0)
    refine hs ?_
    rw [← hn]
    refine h freshSlot (fun _ => 0) (checkEverySlot (2 ^ k)) s ?_
    rw [hinit, hclog, hn]
    exact hrun

/-- With PostgreSQL's default of 100 connections the pool has 1024 slots and the queue room for 1023. -/
theorem refused_default : slotCount 100 = 1024 ∧ pow2Ceil 1024 = 1024 ∧
    ∃ s, run St.step (fgaChannelShmemInit (slotCount 100) freshSlot fun _ => 0) (checkEverySlot 1024) = some s ∧
      ¬ s.Enqueues 1024 := by
  obtain ⟨s, hrun, hs⟩ := refused_run (k := 10) (by decide) freshSlot fun _ => 0
  exact ⟨by decide, by decide, s, hrun, hs⟩

end PostFga
