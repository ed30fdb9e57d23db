import Mathlib.Data.List.Nodup
import Mathlib.Logic.Function.Basic
import Mathlib.Logic.Function.Iterate
/-
# Intrusive singly linked lists

A list head, and in each node the pointer to the next one. Nodes are numbers; a pointer that is
`none` is NULL. Pushing a node that is already on the list is not refused: it closes a cycle.

`Spells s l` says that following the pointers from the head visits exactly the nodes of `l` and
then ends.
-/

namespace PostFga

structure SList where
  head : Option Nat
  next : Nat → Option Nat

namespace SList

def empty : SList := ⟨none, fun _ => none⟩

def pushHead (s : SList) (i : Nat) : SList := ⟨some i, Function.update s.next i s.head⟩

/-- The first node, and the list behind it. -/
def popHead (s : SList) : Option (Nat × SList) :=
  s.head.map fun i => (i, { s with head := s.next i })

def SpellsFrom (next : Nat → Option Nat) : Option Nat → List Nat → Prop
  | none, [] => True
  | some i, j :: l => i = j ∧ SpellsFrom next (next i) l
  | _, _ => False

def Spells (s : SList) (l : List Nat) : Prop := SpellsFrom s.next s.head l

/-- Following the pointers from the head comes to node `i`. -/
def Visits (s : SList) (i : Nat) : Prop := ∃ m : Nat, (fun p => p.bind s.next)^[m] s.head = some i

theorem spells_empty : empty.Spells [] := trivial

/-- Nodes off the list do not matter. -/
theorem SpellsFrom.update {next : Nat → Option Nat} {i : Nat} {p : Option Nat} {l : List Nat}
    {h : Option Nat} (hi : i ∉ l) (hl : SpellsFrom next h l) : SpellsFrom (Function.update next i p) h l := by
  induction l generalizing h with
  | nil =>
    cases h with
    | none => trivial
    | some k => exact hl.elim
  | cons j l ih =>
    cases h with
    | none => exact hl.elim
    | some k =>
      obtain ⟨rfl, hrest⟩ := hl
      simp only [List.mem_cons, not_or] at hi
      refine ⟨rfl, ?_⟩
      rw [Function.update_of_ne (Ne.symm hi.1)]
      exact ih hi.2 hrest

/-- **Push**: a node that is not on the list comes first. -/
theorem Spells.pushHead {s : SList} {l : List Nat} (h : s.Spells l) {i : Nat} (hi : i ∉ l) :
    (s.pushHead i).Spells (i :: l) := by
  refine ⟨rfl, ?_⟩
  show SpellsFrom (Function.update s.next i s.head) (Function.update s.next i s.head i) l
  rw [Function.update_self]
  exact SpellsFrom.update hi h

/-- **Pop**: the first node of the list, and the rest of it. -/
theorem Spells.popHead {s t : SList} {l : List Nat} (h : s.Spells l) {i : Nat}
    (hp : s.popHead = some (i, t)) : ∃ l', l = i :: l' ∧ t.Spells l' := by
  obtain ⟨j, hj, he⟩ := Option.map_eq_some_iff.1 hp
  cases he
  unfold Spells at h
  rw [hj] at h
  match l, h with
  | j' :: l', h =>
    obtain ⟨rfl, hrest⟩ := h
    exact ⟨l', rfl, hrest⟩

theorem Spells.popHead_cons {s : SList} {i : Nat} {l : List Nat} (h : s.Spells (i :: l)) :
    ∃ t, s.popHead = some (i, t) ∧ t.Spells l := by
  unfold Spells at h
  match hhead : s.head, h with
  | some j, h =>
    obtain ⟨rfl, hrest⟩ := h
    refine ⟨{ s with head := s.next j }, ?_, hrest⟩
    rw [SList.popHead, hhead]
    rfl

theorem SpellsFrom.visits {next : Nat → Option Nat} {l : List Nat} {h : Option Nat}
    (hl : SpellsFrom next h l) (i : Nat) : (∃ m : Nat, (fun p => p.bind next)^[m] h = some i) ↔ i ∈ l := by
  induction l generalizing h with
  | nil =>
    have hnone : ∀ m : Nat, (fun p : Option Nat => p.bind next)^[m] none = none := by
      intro m
      induction m with
      | zero => rfl
      | succ m ih => rw [Function.iterate_succ_apply]; exact ih
    cases h with
    | none => simp [hnone]
    | some k => exact hl.elim
  | cons j l ih =>
    cases h with
    | none => exact hl.elim
    | some k =>
      obtain ⟨rfl, hrest⟩ := hl
      rw [List.mem_cons, ← ih hrest]
      constructor
      · rintro ⟨m, hm⟩
        cases m with
        | zero => exact Or.inl (Option.some.inj hm).symm
        | succ m => exact Or.inr ⟨m, by rwa [Function.iterate_succ_apply] at hm⟩
      · rintro (rfl | ⟨m, hm⟩)
        · exact ⟨0, rfl⟩
        · exact ⟨m + 1, by rwa [Function.iterate_succ_apply]⟩

theorem Spells.visits {s : SList} {l : List Nat} (h : s.Spells l) (i : Nat) : s.Visits i ↔ i ∈ l :=
  SpellsFrom.visits h i

end SList

end PostFga
