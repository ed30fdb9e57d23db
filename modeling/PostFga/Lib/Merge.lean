import Mathlib.Data.List.Basic
/-
# Sequences that run side by side

`Merge ls es`: several threads each do the events of one of the lists `ls`, in its order; `es` is
what happens.

* `Merge.perm` — nothing is lost and nothing done twice.
* `Merge.flatten` — one after the other is one way.
* `Merge.guarded` — what each thread does only after certain events of its own, all of them together
  do only after them.
-/

namespace PostFga

variable {α : Type}

inductive Merge : List (List α) → List α → Prop where
  | done {ls : List (List α)} (h : ∀ l ∈ ls, l = []) : Merge ls []
  | next {ls ls' : List (List α)} {x : α} {l es : List α} (h : Merge (ls ++ l :: ls') es) :
    Merge (ls ++ (x :: l) :: ls') (x :: es)

theorem Merge.perm {ls : List (List α)} {es : List α} (h : Merge ls es) : es.Perm ls.flatten := by
  induction h with
  | done h => rw [List.flatten_eq_nil_iff.2 h]
  | @next ls ls' x l es h ih =>
    simp only [List.flatten_append, List.flatten_cons, List.cons_append] at ih ⊢
    exact (ih.cons x).trans List.perm_middle.symm

theorem Merge.nil_cons {ls : List (List α)} {es : List α} (h : Merge ls es) : Merge ([] :: ls) es := by
  induction h with
  | done h => exact .done fun l hl => (List.mem_cons.1 hl).elim id (h l)
  | @next ls ls' x l es h ih => exact @Merge.next _ ([] :: ls) ls' x l es ih

theorem Merge.flatten (ls : List (List α)) : Merge ls ls.flatten := by
  induction ls with
  | nil => exact .done fun l hl => absurd hl List.not_mem_nil
  | cons l ls ih =>
    rw [List.flatten_cons]
    induction l with
    | nil => exact ih.nil_cons
    | cons x l ih' => exact @Merge.next _ [] ls x l _ ih'

/-- Every event of the list is `ok` after the events `seen` and those of the list before it. -/
def Guarded (ok : List α → α → Prop) : List α → List α → Prop
  | _, [] => True
  | seen, y :: l => ok seen y ∧ Guarded ok (seen ++ [y]) l

section
variable {ok : List α → α → Prop} (hmono : ∀ seen seen' y, seen ⊆ seen' → ok seen y → ok seen' y)
include hmono

theorem Guarded.mono {seen seen' l : List α} (hs : seen ⊆ seen') (h : Guarded ok seen l) : Guarded ok seen' l := by
  induction l generalizing seen seen' with
  | nil => trivial
  | cons y l ih =>
    have hnext : seen ++ [y] ⊆ seen' ++ [y] :=
      List.append_subset.2 ⟨fun x hx => List.mem_append_left _ (hs hx), List.subset_append_right ..⟩
    exact ⟨hmono _ _ y hs h.1, ih hnext h.2⟩

theorem Merge.guarded {ls : List (List α)} {es : List α} (h : Merge ls es) {seen : List α}
    (hls : ∀ l ∈ ls, Guarded ok seen l) : Guarded ok seen es := by
  induction h generalizing seen with
  | done h => trivial
  | @next ls ls' x l es h ih =>
    have hx : Guarded ok seen (x :: l) := hls _ (by simp)
    refine ⟨hx.1, ih fun l' hl' => ?_⟩
    rcases List.mem_append.1 hl' with hl' | hl'
    · exact (hls l' (by simp [hl'])).mono hmono (List.subset_append_left ..)
    rcases List.mem_cons.1 hl' with rfl | hl'
    · exact hx.2
    · exact (hls l' (by simp [hl'])).mono hmono (List.subset_append_left ..)

end

theorem Guarded.split {ok : List α → α → Prop} {seen before after : List α} {y : α}
    (h : Guarded ok seen (before ++ y :: after)) : ok (seen ++ before) y := by
  induction before generalizing seen with
  | nil => simpa using h.1
  | cons x before ih => simpa using ih h.2

end PostFga
