import PostFga.Cache.L2Inv
/-
# The victim search returns

The `for (;;)` of `l2_find_victim_slot` has no counter that goes down: the try counter is set back
on every decrement, the hand wraps at 2^32 and need not come round to a slot. What goes down is
the total of the usage counts, by one a turn, whichever slot the hand is at.

* `l2FindVictimLoop_turns` — the number of turns, which is also how far the hand moves.
* `VictimSearch` — all that is known of a search that returned.
* `l2FindVictimSlot_returns` — every search returns so; hence a stored value is found.
-/

namespace PostFga

/-- The loop makes exactly `n` turns: with less fuel it does not return, with more it returns the
same. -/
structure Turns (c : FgaL2AclCache) (now : TimestampTz) (n idx : Nat) (c' : FgaL2AclCache) : Prop where
  loop : ∀ fuel, l2FindVictimLoop now fuel c = if n ≤ fuel then some (idx, c') else none
  hand : c'.nextVictim = c.nextVictim + UInt32.ofNat n

section
variable {c : FgaL2AclCache} {now : TimestampTz} {idx : Nat} {c' : FgaL2AclCache}

theorem Turns.one (h : ∀ fuel, l2FindVictimLoop now (fuel + 1) c = some (idx, c'))
    (hhand : c'.nextVictim = c.nextVictim + 1) : Turns c now 1 idx c' := by
  constructor
  · intro fuel
    cases fuel with
    | zero => rfl
    | succ fuel => rw [h, if_pos (Nat.le_add_left 1 fuel)]
  · exact hhand

theorem Turns.succ {c₁ : FgaL2AclCache} {n : Nat} (h₁ : Turns c₁ now n idx c')
    (h : ∀ fuel, l2FindVictimLoop now (fuel + 1) c = l2FindVictimLoop now fuel c₁)
    (hhand : c₁.nextVictim = c.nextVictim + 1) : Turns c now (n + 1) idx c' := by
  constructor
  · intro fuel
    cases fuel with
    | zero => rfl
    | succ fuel =>
      rw [h, h₁.loop]
      by_cases hn : n ≤ fuel
      · rw [if_pos hn, if_pos (Nat.succ_le_succ hn)]
      · rw [if_neg hn, if_neg (mt Nat.le_of_succ_le_succ hn)]
  · rw [h₁.hand, hhand, UInt32.add_assoc, Nat.add_comm, UInt32.ofNat_add]
    rfl

end

theorem l2FindVictimLoop_turns (now : TimestampTz) (total : Nat) (c : FgaL2AclCache) (h2 : 2 ≤ c.capacity)
    (htotal : usageTotal c = total) : ∃ n idx c', n ≤ total + 1 ∧ Turns c now n idx c' := by
  induction total using Nat.strong_induction_on generalizing c with
  | _ total ih =>
    have hidx := l2ClockSweep_lt (c := c) (by omega)
    have hhand : (l2ClockSweep c).2.nextVictim = c.nextVictim + 1 := rfl
    have hsw := Charged.sweep c
    have hloop : ∀ fuel, l2FindVictimLoop now (fuel + 1) c =
        if l2EntryExpired (l2ClockSweep c).2 ((l2ClockSweep c).2.entries (l2ClockSweep c).1) now then
          some (l2ClockSweep c)
        else if ((l2ClockSweep c).2.entries (l2ClockSweep c).1).value.usageCount > 0 then
          let c₂ := (l2ClockSweep c).2.setEntry (l2ClockSweep c).1
            (((l2ClockSweep c).2.entries (l2ClockSweep c).1).withUsage
              (((l2ClockSweep c).2.entries (l2ClockSweep c).1).value.usageCount - 1))
          if (l2ClockSweep c).2.capacity - 1 = 0 then some (UINT32_MAX, c₂) else l2FindVictimLoop now fuel c₂
        else some (l2ClockSweep c) := fun _ => rfl
    generalize l2ClockSweep c = sw at hidx hhand hsw hloop
    obtain ⟨idx, c₁⟩ := sw
    simp only at hidx hhand hsw hloop
    have hcap : c₁.capacity = c.capacity := hsw.capacity
    by_cases hexp : l2EntryExpired c₁ (c₁.entries idx) now = true
    · refine ⟨1, idx, c₁, by omega, Turns.one (fun fuel => ?_) hhand⟩
      rw [hloop, if_pos hexp]
    by_cases hu : (c₁.entries idx).value.usageCount > 0
    · have hch := Charged.setEntry c₁ idx ((c₁.entries idx).value.usageCount - 1) (Nat.sub_le _ _)
      have htot := usageTotal_charge c₁ idx (by omega) hu
      have hle := hsw.usageTotal_le
      have hhand₂ : (c₁.setEntry idx ((c₁.entries idx).withUsage
          ((c₁.entries idx).value.usageCount - 1))).nextVictim = c₁.nextVictim := rfl
      generalize c₁.setEntry idx ((c₁.entries idx).withUsage
        ((c₁.entries idx).value.usageCount - 1)) = c₂ at hch htot hhand₂ hloop
      have hcap₂ : c₂.capacity = c.capacity := hch.capacity.trans hcap
      obtain ⟨n, j, c', hn, hturns⟩ := ih (usageTotal c₂) (by omega) c₂ (by omega) rfl
      refine ⟨n + 1, j, c', by omega, hturns.succ (fun fuel => ?_) (hhand₂.trans hhand)⟩
      -- the give-up branch is dead: the counter has just been set to the capacity
      rw [hloop, if_neg hexp, if_pos hu, if_neg (by omega)]
    · refine ⟨1, idx, c₁, by omega, Turns.one (fun fuel => ?_) hhand⟩
      rw [hloop, if_neg hexp, if_neg hu]

/-- A search from `c` at `now` that returned `idx` and left `c'`. -/
structure VictimSearch (c : FgaL2AclCache) (now : TimestampTz) (n idx : Nat) (c' : FgaL2AclCache) : Prop where
  returns : l2FindVictimSlot c now = some (idx, c')
  turns : Turns c now n idx c'
  turns_le : n ≤ usageTotal c + 1
  idx_lt : idx < c.capacity
  idx_ne : idx ≠ UINT32_MAX
  free : l2EntryExpired c' (c'.entries idx) now = true ∨ (c'.entries idx).value.usageCount = 0
  charged : Charged c c'

theorem l2FindVictimSlot_search (c : FgaL2AclCache) (now : TimestampTz) (h2 : 2 ≤ c.capacity) :
    ∃ n idx c', VictimSearch c now n idx c' := by
  obtain ⟨n, idx, c', hn, hturns⟩ := l2FindVictimLoop_turns now _ c h2 rfl
  obtain ⟨idx₀, c₀, hres, hlt, hne, hch, hfree⟩ := l2FindVictimSlot_spec c now h2
  have hsame : l2FindVictimSlot c now = some (idx, c') := by rw [l2FindVictimSlot, hturns.loop, if_pos hn]
  obtain ⟨rfl, rfl⟩ : idx₀ = idx ∧ c₀ = c' := by simpa [hres] using hsame
  exact ⟨n, _, _, hsame, hturns, hn, hlt, hne, hfree, hch⟩

/-- **The victim search returns**, after at most one turn more than there are usage counts, with a
slot of the array; so a store finds a place and its value is found until it expires. -/
theorem l2FindVictimSlot_returns {T : Type} (H : HashOps T FgaAclCacheKey Nat) (S : HashSpec H) :
    (∀ c now, 2 ≤ c.capacity → ∃ n idx c', VictimSearch c now n idx c') ∧
    ∀ s key now e v, L2Inv H s → ∃ s' r, l2Store H s key now e v = some (s', r) ∧
      ∀ now', now' < e → (l2Lookup H s' key now').1 = some (v, e) :=
  ⟨l2FindVictimSlot_search, fun _ key now e v h => l2Store_lookup S h key now e v⟩

/-- Two entries in use, both charged before the hand comes to rest; and a store in a fresh cache. -/
theorem l2FindVictimSlot_returns_two :
    let entry : Nat → FgaL2AclEntry := fun _ => ⟨⟨0, 0, 0, 0, 0⟩, ⟨true, 0, 10, 1⟩, true⟩
    (∃ n idx c', VictimSearch ⟨UInt32.ofNat UINT32_MAX, 2, by decide, 0, entry⟩ 5 n idx c' ∧ n ≤ 3) ∧
    ∃ s' r, l2Store refIndex (l2Startup refIndex (fgaCacheShmemInit 2 zeroedMem)) ⟨1, 1, 1, 0, 0⟩ 0 10 true =
        some (s', r) ∧
      (l2Lookup refIndex s' ⟨1, 1, 1, 0, 0⟩ 9).1 = some (true, 10) := by
  intro entry
  obtain ⟨hsearch, hstore⟩ := l2FindVictimSlot_returns refIndex refIndex_spec
  constructor
  · obtain ⟨n, idx, c', h⟩ := hsearch ⟨UInt32.ofNat UINT32_MAX, 2, by decide, 0, entry⟩ 5 (by decide)
    exact ⟨n, idx, c', h, h.turns_le⟩
  · obtain ⟨s', r, hst, hl⟩ := hstore _ ⟨1, 1, 1, 0, 0⟩ 0 10 true
      (l2Inv_startup refIndex_spec 2 zeroedMem (by decide))
    exact ⟨s', r, hst, hl 9 (by decide)⟩

end PostFga
