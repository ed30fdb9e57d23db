import Mathlib.NumberTheory.Divisors
import PostFga.Cache.Victim
import PostFga.Lib.WrappedCounter
/-
# The hand of the clock (`cache_l2.h`)

`nextVictim` is commented "clock hand index 0..capacity-1" (`:41`) and `l2_clock_sweep` to "move hand ahead one
slot" (`:98`). The field is a counter modulo 2^32 that is reduced by `capacity` when it is read, and after
2^32 - 1 the hand moves ahead to slot 0 from wherever it is.

| here | there |
| --- | --- |
| `SIZEOF_FGA_L2_ACL_ENTRY` | the key (32 bytes), the value (24, its `int64` at offset 8), `valid` at offset 56, aligned to 8 |
| `l2ClockSweeps`        | calls of `l2_clock_sweep`, one after the other |
| `FairTurn`             | what a turn of the clock should be |
-/

namespace PostFga

open WrappedCounter

def SIZEOF_FGA_L2_ACL_ENTRY : Nat := 64

/-- The slots that `n` calls return, and the cache after them. -/
def l2ClockSweeps : Nat → FgaL2AclCache → List Nat × FgaL2AclCache
  | 0, cache => ([], cache)
  | n + 1, cache =>
    let (victim, cache) := l2ClockSweep cache
    let (victims, cache) := l2ClockSweeps n cache
    (victim :: victims, cache)

/-- The next `capacity` calls return every slot index once. -/
def FairTurn (c : FgaL2AclCache) : Prop :=
  List.Perm (l2ClockSweeps c.capacity c).1 (List.range c.capacity)

/-- Only the hand moves. -/
theorem l2ClockSweeps_snd (n : Nat) (c : FgaL2AclCache) :
    (l2ClockSweeps n c).2 = { c with nextVictim := c.nextVictim + UInt32.ofNat n } := by
  induction n generalizing c with
  | zero => simp [l2ClockSweeps]
  | succ n ih =>
    simp only [l2ClockSweeps, l2ClockSweep, ih]
    rw [UInt32.add_assoc, Nat.add_comm n 1, UInt32.ofNat_add]
    rfl

theorem l2ClockSweeps_fst (n : Nat) (c : FgaL2AclCache) : (l2ClockSweeps n c).1 =
    (List.range n).map fun i => (c.nextVictim.toNat + i) % 2 ^ 32 % c.capacity := by
  induction n generalizing c with
  | zero => rfl
  | succ n ih =>
    have hfirst : (c.nextVictim.toNat + 0) % 2 ^ 32 = c.nextVictim.toNat :=
      Nat.mod_eq_of_lt (UInt32.toNat_lt c.nextVictim)
    have hnext : (c.nextVictim + 1).toNat = (c.nextVictim.toNat + 1) % 2 ^ 32 := UInt32.toNat_add _ _
    simp only [l2ClockSweeps, l2ClockSweep, ih, hnext, List.range_succ_eq_map, List.map_cons, List.map_map]
    rw [hfirst]
    refine congrArg _ (List.map_congr_left fun i _ => ?_)
    rw [Nat.mod_add_mod, Nat.add_assoc, Nat.add_comm 1 i]
    rfl

/-- A turn is a turn of a counter modulo 2^32. -/
theorem fairTurn_iff_turn (c : FgaL2AclCache) (hc : 0 < c.capacity) :
    FairTurn c ↔ c.capacity ∣ 2 ^ 32 ∨ c.nextVictim.toNat + c.capacity ≤ 2 ^ 32 := by
  have hlt := UInt32.toNat_lt c.nextVictim
  rw [FairTurn, l2ClockSweeps_fst]
  exact turn_perm_iff hc hlt (Nat.le_of_lt c.capacity_lt)

/-! ## The capacities of the setting -/

theorem l2CapacityFromConfig_entry (cacheSize : Nat) :
    l2CapacityFromConfig SIZEOF_FGA_L2_ACL_ENTRY cacheSize = cacheSize * 2 ^ 14 := by
  simp only [l2CapacityFromConfig, SIZEOF_FGA_L2_ACL_ENTRY]
  omega

/-- The capacity divides 2^32 if the setting is a power of two. -/
theorem l2CapacityFromConfig_dvd {cacheSize : Nat} (h : cacheSize ≤ 1024) :
    l2CapacityFromConfig SIZEOF_FGA_L2_ACL_ENTRY cacheSize ∣ 2 ^ 32 ↔ ∃ k, cacheSize = 2 ^ k := by
  have hsplit : 2 ^ 32 = 2 ^ 18 * 2 ^ 14 := rfl
  rw [l2CapacityFromConfig_entry, hsplit, Nat.mul_dvd_mul_iff_right (by decide)]
  constructor
  · intro hd
    obtain ⟨k, -, hk⟩ := (Nat.dvd_prime_pow Nat.prime_two).1 hd
    exact ⟨k, hk⟩
  · rintro ⟨k, rfl⟩
    have hk : k ≤ 10 := (Nat.pow_le_pow_iff_right (by decide)).1 h
    exact Nat.pow_dvd_pow 2 (by omega)

/-- **The clock is fair exactly when** `fga.cache_size` is a power of two, or the turn ends before the
counter wraps. -/
theorem fairTurn_iff (cacheSize : Nat) (hlo : 1 ≤ cacheSize) (hhi : cacheSize ≤ 1024) (c : FgaL2AclCache)
    (hc : c.capacity = l2CapacityFromConfig SIZEOF_FGA_L2_ACL_ENTRY cacheSize) :
    FairTurn c ↔ (∃ k, cacheSize = 2 ^ k) ∨ c.nextVictim.toNat + cacheSize * 2 ^ 14 ≤ 2 ^ 32 := by
  have hpos : 0 < c.capacity := by
    rw [hc, l2CapacityFromConfig_entry]
    omega
  rw [fairTurn_iff_turn c hpos, hc, l2CapacityFromConfig_dvd hhi, l2CapacityFromConfig_entry]

/-- The cache of a setting as it is initialized. -/
def clockOf (cacheSize : Nat) : FgaL2AclCache :=
  fgaCacheShmemInit (.ofNat (l2CapacityFromConfig SIZEOF_FGA_L2_ACL_ENTRY cacheSize)) zeroedMem

/-- 32 MB is the default; the counter is about to wrap. -/
theorem fairTurn_iff_default : FairTurn (l2ClockSweeps (2 ^ 32 - 1) (clockOf 32)).2 := by
  refine (fairTurn_iff 32 (by decide) (by decide) _ ?_).2 (Or.inl ⟨5, rfl⟩)
  rw [l2ClockSweeps_snd]
  rfl

/-- **An unfair turn**: with 3 MB, the turn that begins at the last value of the counter returns slot 16383
twice. -/
theorem unfairTurn : ¬ ∀ cacheSize n, 1 ≤ cacheSize → cacheSize ≤ 1024 →
    FairTurn (l2ClockSweeps n (clockOf cacheSize)).2 := by
  intro h
  have hfair := h 3 (2 ^ 32 - 1) (by decide) (by decide)
  rw [l2ClockSweeps_snd] at hfair
  rcases (fairTurn_iff 3 (by decide) (by decide) _ rfl).1 hfair with ⟨k, hk⟩ | hle
  · rcases k with _ | k
    · cases hk
    · rw [Nat.pow_succ] at hk
      omega
  · exact absurd hle (by decide)

end PostFga
