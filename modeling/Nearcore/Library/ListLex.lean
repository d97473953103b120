import Mathlib

/-! Lexicographic order on lists where a tail is appended: one starting with a small
separator, or any tail to a list that is not a prefix of the one it is compared with.
Only the `LT` of the elements is used, so the facts hold for bytes, nibbles or any other
alphabet. -/
namespace List

variable {α : Type} [LT α]

/-- Appending a tail that starts below every element of `b` does not move `a`
across `b`: the separator loses against any letter `b` could continue with. -/
theorem append_cons_lt_iff {a b t : List α} {s : α} (below : ∀ x ∈ b, s < x) :
    a ++ s :: t < b ↔ a < b := by
  induction a generalizing b with
  | nil =>
    cases b with
    | nil => simp
    | cons x b => simpa using Lex.rel (below x mem_cons_self)
  | cons y a ih =>
    cases b with
    | nil => simp
    | cons x b =>
      have tail : a ++ s :: t < b ↔ a < b := ih (fun z member => below z (mem_cons_of_mem x member))
      simp only [cons_append, cons_lt_cons_iff, tail]

/-- The non-strict form used for lower interval bounds. -/
theorem le_append_cons_iff {a b t : List α} {s : α} (below : ∀ x ∈ b, s < x) :
    b ≤ a ++ s :: t ↔ b ≤ a := by
  simp only [← List.not_lt, append_cons_lt_iff below]

/-- A list starting with `c` is below the one-letter list `[d]` once `c < d`. -/
theorem cons_lt_singleton {c d : α} (rest : List α) (lt : c < d) : c :: rest < [d] :=
  cons_lt_cons_iff.mpr (Or.inl lt)

/-- A one-letter list is below each of its extensions or equal to it. -/
theorem singleton_le_cons [Std.Irrefl (· < · : α → α → Prop)] (c : α) (rest : List α) :
    [c] ≤ c :: rest := by
  simp [← List.not_lt]

/-- A list above another stays above it when extended: `b ≤ a` is `¬ a < b`. -/
theorem le_append_of_le {a b : List α} (x : List α) (le : b ≤ a) : b ≤ a ++ x := by
  induction a generalizing b with
  | nil =>
    cases b with
    | nil => exact List.not_lt_nil _
    | cons z b => exact absurd (List.nil_lt_cons z b) le
  | cons y a ih =>
    cases b with
    | nil => exact List.not_lt_nil _
    | cons z b =>
      intro below
      rcases cons_lt_cons_iff.mp below with first | ⟨same, rest⟩
      · exact le (cons_lt_cons_iff.mpr (Or.inl first))
      · exact ih (fun tail => le (cons_lt_cons_iff.mpr (Or.inr ⟨same, tail⟩))) rest

/-- A list below another that it is not a prefix of stays below it when extended: the two
differ at a position inside both. -/
theorem append_lt_of_lt {a b : List α} (x : List α) (lt : a < b) (notPrefix : ¬ a <+: b) : a ++ x < b := by
  induction a generalizing b with
  | nil => exact absurd (List.nil_prefix) notPrefix
  | cons y a ih =>
    cases b with
    | nil => exact absurd lt (List.not_lt_nil _)
    | cons z b =>
      rcases cons_lt_cons_iff.mp lt with first | ⟨same, rest⟩
      · exact cons_lt_cons_iff.mpr (Or.inl first)
      · subst same
        exact cons_lt_cons_iff.mpr (Or.inr ⟨rfl, ih rest fun front => notPrefix (List.prefix_cons_inj y |>.mpr front)⟩)

end List
