import Mathlib.Data.List.Nodup
/-
# Least recently used, as a list

A map that keeps its keys in the order of their last use, the most recent first. `put n` keeps at
most `n` of them: it forgets the key used longest ago.

* `touch` — a use: the key comes first.
* `drop` — the key is forgotten.
* `put` — the key comes first with a new value; past `n` keys, the last one goes.
-/

namespace PostFga.Lru

variable {κ ν : Type} [DecidableEq κ]

def drop (k : κ) (l : List (κ × ν)) : List (κ × ν) := l.filter fun p => p.1 ≠ k

def touch (k : κ) (v : ν) (l : List (κ × ν)) : List (κ × ν) := (k, v) :: drop k l

def put (n : Nat) (k : κ) (v : ν) (l : List (κ × ν)) : List (κ × ν) := (touch k v l).take n

/-- At most `n` keys, all different. -/
def Bounded (n : Nat) (l : List (κ × ν)) : Prop := l.length ≤ n ∧ (l.map Prod.fst).Nodup

theorem drop_append (k : κ) (l l' : List (κ × ν)) : drop k (l ++ l') = drop k l ++ drop k l' :=
  List.filter_append ..

theorem drop_eq_self {k : κ} {l : List (κ × ν)} (h : ∀ p ∈ l, p.1 ≠ k) : drop k l = l :=
  List.filter_eq_self.2 fun p hp => decide_eq_true (h p hp)

/-- With room, or with the key already held, nothing else goes. -/
theorem put_eq_touch {n : Nat} {k : κ} {v : ν} {l : List (κ × ν)} (h : (drop k l).length < n) :
    put n k v l = touch k v l :=
  List.take_of_length_le h

/-- A new key in a full map costs the key used longest ago, and no other. -/
theorem put_full {n : Nat} {k : κ} {v : ν} {l : List (κ × ν)} {p : κ × ν} (hn : l.length + 1 = n)
    (hk : ∀ q ∈ l ++ [p], q.1 ≠ k) : put n k v (l ++ [p]) = (k, v) :: l := by
  rw [← hn, put, touch, drop_eq_self hk, List.take_succ_cons, List.take_left]

/-! ## The keys -/

section
variable {n : Nat} {l : List (κ × ν)}

omit [DecidableEq κ] in
theorem bounded_filter (h : Bounded n l) (P : κ × ν → Bool) : Bounded n (l.filter P) :=
  ⟨Nat.le_trans (List.length_filter_le P l) h.1, h.2.sublist (List.filter_sublist.map _)⟩

theorem nodup_touch (h : Bounded n l) (k : κ) (v : ν) : ((touch k v l).map Prod.fst).Nodup := by
  simp only [touch, List.map_cons, List.nodup_cons, List.mem_map]
  refine ⟨?_, (bounded_filter h _).2⟩
  rintro ⟨p, hp, he⟩
  have hne := (List.mem_filter.1 hp).2
  simp only [ne_eq, decide_not, Bool.not_eq_eq_eq_not, Bool.not_true, decide_eq_false_iff_not] at hne
  exact hne he

theorem bounded_put (h : Bounded n l) (k : κ) (v : ν) : Bounded n (put n k v l) :=
  ⟨List.length_take_le n _, (nodup_touch h k v).sublist ((List.take_sublist n _).map _)⟩

/-- Dropping a key that is held makes the room in front. -/
theorem bounded_touch {k : κ} {v w : ν} (h : Bounded n l) (hk : (k, w) ∈ l) : Bounded n (touch k v l) := by
  obtain ⟨l₁, l₂, rfl⟩ := List.append_of_mem hk
  refine ⟨?_, nodup_touch h k v⟩
  have hself : drop k ((k, w) :: l₂) = drop k l₂ := List.filter_cons_of_neg (by simp)
  have hlen : (drop k (l₁ ++ (k, w) :: l₂)).length ≤ (l₁ ++ l₂).length := by
    rw [drop_append, hself, ← drop_append]
    exact List.length_filter_le _ _
  have hn := h.1
  simp only [touch, List.length_cons, List.length_append] at hn hlen ⊢
  omega

end

end PostFga.Lru
