import Mathlib.Algebra.Order.BigOperators.Group.List
import Mathlib.Algebra.Order.Ring.Nat
import PostFga.Cache.Key
import PostFga.Lib.HashTable
/-
# The shared L2 cache (`cache_l2.h`)

An array of entries with a clock hand, and a hash index from keys to array slots. Both are
touched only under `cache->lock`, so each function here is one critical section.

| here | there |
| --- | --- |
| `FgaL2AclEntry`, `FgaL2AclCache` | `:13`–`:46`. `object_gen` is read and written nowhere and left out |
| `HashOps T FgaAclCacheKey Nat`   | `hash_search` on `l2_slot_table`; an element is a key with its `slot_no` |
| `l2UpdateEntry`      | `l2_update_entry` (`:71`) |
| `l2EntryExpired`     | `l2_entry_expired` (`:82`) |
| `l2ClockSweep`       | `l2_clock_sweep` (`:96`); `nextVictim` wraps at 2^32 |
| `l2FindVictimLoop`   | the `for (;;)` of `l2_find_victim_slot` (`:105`), one fuel unit a turn; `none` is fuel exhausted |
| `l2FindVictimSlot`   | `l2_find_victim_slot`, given one turn more than there are usage counts to take down |
| `l2Lookup`           | `l2_lookup` (`:152`) |
| `l2Store`            | `l2_store` (`:190`) with the way it ends |
| `fgaCacheShmemInit`  | `fga_cache_shmem_init` (`cache.c:50`); `l2Startup` creates the index (`:132`) |

`cache` is never NULL once the shared state exists, so the NULL guards are not modelled.
-/

namespace PostFga

abbrev TimestampTz := Int64

def FGA_L2_USAGE_MAX : Nat := 5

def UINT32_MAX : Nat := 2 ^ 32 - 1

structure FgaL2AclValue where
  allowed : Bool
  globalGen : UInt16
  expiresAtMs : TimestampTz
  usageCount : Nat
deriving DecidableEq, Repr

structure FgaL2AclEntry where
  key : FgaAclCacheKey
  value : FgaL2AclValue
  valid : Bool
deriving DecidableEq, Repr

structure FgaL2AclCache where
  nextVictim : UInt32
  capacity : Nat
  capacity_lt : capacity < 2 ^ 32
  generation : UInt16
  entries : Nat → FgaL2AclEntry

/-- The shared array and its index `l2_slot_table`. -/
structure L2 (T : Type) where
  cache : FgaL2AclCache
  table : T

def FgaL2AclEntry.withUsage (e : FgaL2AclEntry) (n : Nat) : FgaL2AclEntry :=
  { e with value := { e.value with usageCount := n } }

def FgaL2AclCache.setEntry (c : FgaL2AclCache) (i : Nat) (e : FgaL2AclEntry) : FgaL2AclCache :=
  { c with entries := Function.update c.entries i e }

/-- A new or refreshed entry starts at the highest usage count. -/
def l2UpdateEntry (entry : FgaL2AclEntry) (key : FgaAclCacheKey) (expiresAt : TimestampTz)
    (allowed : Bool) (generation : UInt16) : FgaL2AclEntry :=
  { entry with
    key := key
    value := { allowed := allowed, expiresAtMs := expiresAt, globalGen := generation,
               usageCount := FGA_L2_USAGE_MAX }
    valid := true }

def l2EntryExpired (cache : FgaL2AclCache) (entry : FgaL2AclEntry) (nowMs : TimestampTz) : Bool :=
  if !entry.valid then true
  else if entry.value.expiresAtMs ≤ nowMs then true
  else if entry.value.globalGen ≠ cache.generation then true
  else false

/-- The slot under the hand, and the cache with the hand moved on. -/
def l2ClockSweep (cache : FgaL2AclCache) : Nat × FgaL2AclCache :=
  (cache.nextVictim.toNat % cache.capacity, { cache with nextVictim := cache.nextVictim + 1 })

def l2FindVictimLoop (nowMs : TimestampTz) : Nat → FgaL2AclCache → Option (Nat × FgaL2AclCache)
  | 0, _ => none
  | fuel + 1, cache =>
    let (idx, cache) := l2ClockSweep cache
    let entry := cache.entries idx
    if l2EntryExpired cache entry nowMs then some (idx, cache)
    else if entry.value.usageCount > 0 then
      let cache := cache.setEntry idx (entry.withUsage (entry.value.usageCount - 1))
      -- the only branch that reaches `--trycounter == 0` has just reset the counter, so the
      -- value a turn starts with is never read
      let trycounter := cache.capacity
      if trycounter - 1 = 0 then some (UINT32_MAX, cache)
      else l2FindVictimLoop nowMs fuel cache
    else some (idx, cache)

/-- The sum of all usage counts. -/
def usageTotal (cache : FgaL2AclCache) : Nat :=
  ((List.range cache.capacity).map fun i => (cache.entries i).value.usageCount).sum

def l2FindVictimSlot (cache : FgaL2AclCache) (nowMs : TimestampTz) : Option (Nat × FgaL2AclCache) :=
  l2FindVictimLoop nowMs (usageTotal cache + 1) cache

/-- How a store ends. -/
inductive L2StoreEnd where
  | updated
  /-- The victim search gave up. -/
  | noVictim
  /-- A new index element; `found` is what `Assert(!found)` tests. -/
  | inserted (found : Bool)
  /-- `ereport(ERROR, .. ERRCODE_OUT_OF_MEMORY ..)`. -/
  | outOfMemory
deriving DecidableEq, Repr

section
variable {T : Type} (H : HashOps T FgaAclCacheKey Nat)

/-- `(allowed, expires_at)` on a hit. -/
def l2Lookup (s : L2 T) (key : FgaAclCacheKey) (nowMs : TimestampTz) :
    Option (Bool × TimestampTz) × L2 T :=
  match H.find s.table key with
  | none => (none, s)
  | some slotNo =>
    let entry := s.cache.entries slotNo
    if l2EntryExpired s.cache entry nowMs then
      (none, { s with cache := s.cache.setEntry slotNo (entry.withUsage 0) })
    else
      let usage := entry.value.usageCount
      let entry := if usage < FGA_L2_USAGE_MAX then entry.withUsage (usage + 1) else entry
      (some (entry.value.allowed, entry.value.expiresAtMs),
        { s with cache := s.cache.setEntry slotNo entry })

/-- `none`: the victim search does not return. -/
def l2Store (s : L2 T) (key : FgaAclCacheKey) (nowMs expiresAt : TimestampTz) (allowed : Bool) :
    Option (L2 T × L2StoreEnd) :=
  match H.find s.table key with
  | some slotNo =>
    let entry := l2UpdateEntry (s.cache.entries slotNo) key expiresAt allowed s.cache.generation
    some ({ s with cache := s.cache.setEntry slotNo entry }, .updated)
  | none =>
    match l2FindVictimSlot s.cache nowMs with
    | none => none
    | some (victimSlot, cache) =>
      if victimSlot = UINT32_MAX then some ({ s with cache := cache }, .noVictim)
      else
        let entry := cache.entries victimSlot
        let table := if entry.valid then H.remove s.table entry.key else s.table
        match H.enter table key victimSlot with
        | none => some ({ cache := cache, table := table }, .outOfMemory)
        | some (table, found) =>
          let entry := l2UpdateEntry entry key expiresAt allowed cache.generation
          some ({ cache := cache.setEntry victimSlot entry, table := table }, .inserted found)

/-- `fga_cache_shmem_init`: header cleared, every entry invalid; the rest of an entry is
whatever `mem` the segment holds. -/
def fgaCacheShmemInit (capacity : UInt32) (mem : Nat → FgaL2AclEntry) : FgaL2AclCache where
  nextVictim := 0
  capacity := capacity.toNat
  capacity_lt := capacity.toNat_lt
  generation := 0
  entries i := { mem i with valid := false }

/-- `l2_capacity_from_config` (`:55`): `cacheSize` is in MB, `per` is `sizeof(FgaL2AclEntry)`. -/
def l2CapacityFromConfig (per cacheSize : Nat) : Nat :=
  let bytes := cacheSize * 1024 * 1024
  bytes / per

/-- `l2_hash_size` (`:66`). -/
def l2HashSize (capacity : Nat) : Nat := capacity * 2

/-- `l2_startup`: the index over an initialised array. -/
def l2Startup (cache : FgaL2AclCache) : L2 T := ⟨cache, H.create (l2HashSize cache.capacity)⟩

end

end PostFga
