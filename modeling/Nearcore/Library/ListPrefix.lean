import Mathlib

/-! Length of the longest common prefix of two lists, with the facts a prefix tree
needs: both lists agree up to it, differ right after it, and it is additive over a
shared front. -/
namespace List

variable {α : Type} [DecidableEq α]

def commonPrefixLength : List α → List α → Nat
  | a :: as, b :: bs => if a = b then commonPrefixLength as bs + 1 else 0
  | _, _ => 0

section
attribute [local simp] commonPrefixLength
end

@[simp] theorem commonPrefixLength_nil_left (bs : List α) : commonPrefixLength [] bs = 0 := by
  cases bs <;> rfl

@[simp] theorem commonPrefixLength_nil_right (as : List α) : commonPrefixLength as [] = 0 := by
  cases as <;> rfl

theorem commonPrefixLength_cons (a b : α) (as bs : List α) :
    commonPrefixLength (a :: as) (b :: bs) = if a = b then commonPrefixLength as bs + 1 else 0 := rfl

@[simp] theorem commonPrefixLength_cons_self (a : α) (as bs : List α) :
    commonPrefixLength (a :: as) (a :: bs) = commonPrefixLength as bs + 1 := by
  simp [commonPrefixLength_cons]

theorem commonPrefixLength_le_left (as bs : List α) : commonPrefixLength as bs ≤ as.length := by
  induction as generalizing bs with
  | nil => simp
  | cons a as ih =>
    cases bs with
    | nil => simp
    | cons b bs =>
      rw [commonPrefixLength_cons]
      split
      · simpa using ih bs
      · exact Nat.zero_le _

theorem commonPrefixLength_comm (as bs : List α) : commonPrefixLength as bs = commonPrefixLength bs as := by
  induction as generalizing bs with
  | nil => simp
  | cons a as ih =>
    cases bs with
    | nil => simp
    | cons b bs =>
      by_cases same : a = b
      · subst same
        simp [ih bs]
      · simp [commonPrefixLength_cons, same, Ne.symm same]

theorem commonPrefixLength_le_right (as bs : List α) : commonPrefixLength as bs ≤ bs.length := by
  rw [commonPrefixLength_comm]
  exact commonPrefixLength_le_left bs as

/-- Both lists start with the same `commonPrefixLength` elements. -/
theorem take_commonPrefixLength (as bs : List α) :
    as.take (commonPrefixLength as bs) = bs.take (commonPrefixLength as bs) := by
  induction as generalizing bs with
  | nil => simp
  | cons a as ih =>
    cases bs with
    | nil => simp
    | cons b bs =>
      by_cases same : a = b
      · subst same
        simp [ih bs]
      · simp [commonPrefixLength_cons, same]

/-- Right after the common prefix, the lists differ (or one has ended). -/
theorem commonPrefixLength_maximal (as bs : List α) (a b : α) (rest rest' : List α)
    (left : as.drop (commonPrefixLength as bs) = a :: rest)
    (right : bs.drop (commonPrefixLength as bs) = b :: rest') : a ≠ b := by
  induction as generalizing bs with
  | nil => simp at left
  | cons x as ih =>
    cases bs with
    | nil => simp at right
    | cons y bs =>
      by_cases same : x = y
      · subst same
        simp only [commonPrefixLength_cons_self, drop_succ_cons] at left right
        exact ih bs left right
      · simp only [commonPrefixLength_cons, same, if_false, drop_zero, cons.injEq] at left right
        rw [← left.1, ← right.1]
        exact same

@[simp] theorem commonPrefixLength_self (as : List α) : commonPrefixLength as as = as.length := by
  induction as with
  | nil => simp
  | cons a as ih => simp [ih]

theorem commonPrefixLength_append (front as bs : List α) :
    commonPrefixLength (front ++ as) (front ++ bs) = front.length + commonPrefixLength as bs := by
  induction front with
  | nil => simp
  | cons a front ih => simp [ih]; omega

/-- `bs` is a prefix of `as` exactly when the common prefix is all of `bs`. -/
theorem commonPrefixLength_eq_length_iff (as bs : List α) :
    commonPrefixLength as bs = bs.length ↔ bs <+: as := by
  induction as generalizing bs with
  | nil => cases bs <;> simp
  | cons a as ih =>
    cases bs with
    | nil => simp
    | cons b bs =>
      by_cases same : a = b
      · subst same
        simp [ih bs]
      · simp [commonPrefixLength_cons, same, Ne.symm same]

/-- The common prefix length is what a loop finds that scans both lists up to the
shorter length and stops at the first position where they differ. -/
theorem commonPrefixLength_eq_find (as bs : List α) :
    commonPrefixLength as bs =
      ((range (min as.length bs.length)).find? fun i => as[i]? != bs[i]?).getD
        (min as.length bs.length) := by
  induction as generalizing bs with
  | nil => simp
  | cons a as ih =>
    cases bs with
    | nil => simp
    | cons b bs =>
      rw [length_cons, length_cons, Nat.add_min_add_right, range_succ_eq_map, find?_cons,
        find?_map, commonPrefixLength_cons]
      by_cases same : a = b
      · subst same
        have shifted : ((fun i => (a :: as)[i]? != (a :: bs)[i]?) ∘ Nat.succ) =
            fun i => as[i]? != bs[i]? := by
          funext i
          simp
        simp only [getElem?_cons_zero, bne_self_eq_false, if_true, shifted, ih bs]
        cases (range (min as.length bs.length)).find? (fun i => as[i]? != bs[i]?) <;> simp
      · have differ : (some a != some b) = true := by simp [same]
        simp only [getElem?_cons_zero, differ, same, if_false]
        rfl

end List
