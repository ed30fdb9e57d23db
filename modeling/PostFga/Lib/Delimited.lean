import Mathlib.Data.Set.Function
/-
# Encodings that say where they end

* `SelfDelimiting` — what is written for a value determines the value and what follows it.
* `SelfDelimiting.flatMap_append` — the encodings of several values, one after the other, determine
  the values and what follows them all.
* `selfDelimiting_counted` — a list preceded by its length.
* `append_cons_eq_append_cons` — two lists with a separator between them determine the pair up to a
  shift of the separator.
-/

namespace PostFga.Delimited

variable {α β : Type*}

/-- Reading `enc a` from a stream gives `a` and the rest of the stream, for the values in `s`. -/
def SelfDelimiting (enc : α → List β) (s : Set α) : Prop :=
  ∀ a ∈ s, ∀ b ∈ s, ∀ xs ys, enc a ++ xs = enc b ++ ys → a = b ∧ xs = ys

/-! ## One after the other -/

section
variable {enc : α → List β} {s : Set α}

theorem SelfDelimiting.flatMap_append (h : SelfDelimiting enc s) {as bs : List α} (ha : ∀ a ∈ as, a ∈ s)
    (hb : ∀ b ∈ bs, b ∈ s) (hlen : as.length = bs.length) {xs ys : List β}
    (heq : as.flatMap enc ++ xs = bs.flatMap enc ++ ys) : as = bs ∧ xs = ys := by
  induction as generalizing bs with
  | nil =>
    obtain rfl : bs = [] := List.length_eq_zero_iff.1 hlen.symm
    exact ⟨rfl, by simpa using heq⟩
  | cons a as ih =>
    cases bs with
    | nil => simp at hlen
    | cons b bs =>
      simp only [List.mem_cons, forall_eq_or_imp] at ha hb
      simp only [List.flatMap_cons, List.append_assoc] at heq
      obtain ⟨rfl, hrest⟩ := h a ha.1 b hb.1 _ _ heq
      obtain ⟨rfl, hxs⟩ := ih ha.2 hb.2 (by simpa using hlen) hrest
      exact ⟨rfl, hxs⟩

theorem SelfDelimiting.flatMap_inj (h : SelfDelimiting enc s) {as bs : List α} (ha : ∀ a ∈ as, a ∈ s)
    (hb : ∀ b ∈ bs, b ∈ s) (hlen : as.length = bs.length) : as.flatMap enc = bs.flatMap enc ↔ as = bs := by
  constructor
  · intro heq
    have happ : as.flatMap enc ++ [] = bs.flatMap enc ++ [] := by rw [heq]
    exact (h.flatMap_append ha hb hlen happ).1
  · rintro rfl
    rfl

end

/-! ## A length in front -/

/-- The length as one symbol, then the list. -/
def counted (count : Nat → β) (xs : List β) : List β := count xs.length :: xs

@[simp] theorem counted_length (count : Nat → β) (xs : List β) : (counted count xs).length = xs.length + 1 := rfl

/-- Lists whose lengths have different symbols. -/
theorem selfDelimiting_counted {count : Nat → β} {n : Nat} (hc : Set.InjOn count {m | m ≤ n}) :
    SelfDelimiting (counted count) {xs | xs.length ≤ n} := by
  intro a ha b hb xs ys h
  simp only [counted, List.cons_append, List.cons.injEq] at h
  obtain ⟨hcount, happ⟩ := h
  have hlen : a.length = b.length := hc ha hb hcount
  exact List.append_inj happ hlen

/-! ## A separator in between -/

/-- The two ways to put a separator into one list differ by a shift from one separator to another. -/
theorem append_cons_eq_append_cons {sep : β} {a b a' b' : List β} :
    a ++ sep :: b = a' ++ sep :: b' ↔ (a = a' ∧ b = b') ∨
      (∃ m, a' = a ++ sep :: m ∧ b = m ++ sep :: b') ∨ ∃ m, a = a' ++ sep :: m ∧ b' = m ++ sep :: b := by
  constructor
  · intro h
    rcases List.append_eq_append_iff.1 h with ⟨m, hm, hb⟩ | ⟨m, hm, hb⟩
    · cases m with
      | nil => exact Or.inl ⟨by simpa using hm.symm, by simpa using hb⟩
      | cons x m =>
        simp only [List.cons_append, List.cons.injEq] at hb
        obtain ⟨rfl, hb⟩ := hb
        exact Or.inr (Or.inl ⟨m, hm, hb⟩)
    · cases m with
      | nil => exact Or.inl ⟨by simpa using hm, by simpa using hb.symm⟩
      | cons x m =>
        simp only [List.cons_append, List.cons.injEq] at hb
        obtain ⟨rfl, hb⟩ := hb
        exact Or.inr (Or.inr ⟨m, hm, hb⟩)
  · rintro (⟨rfl, rfl⟩ | ⟨m, rfl, rfl⟩ | ⟨m, rfl, rfl⟩)
    · rfl
    · simp
    · simp

end PostFga.Delimited
