import Mathlib

/-! Lists whose elements each pass a test against the fold of the elements before them, as a
greedy loop that keeps a running total accepts them; and the longest such initial run. -/
namespace List

variable {α β : Type} (f : β → α → β) (test : β → α → Prop)

/-- Every element passes `test` against the fold, from `acc`, of the elements before it. -/
def PassesFrom : β → List α → Prop
  | _, [] => True
  | acc, a :: l => test acc a ∧ PassesFrom (f acc a) l

section
attribute [local simp] PassesFrom
end

@[simp] theorem passesFrom_nil (acc : β) : PassesFrom f test acc [] := trivial

@[simp] theorem passesFrom_cons (acc : β) (a : α) (l : List α) :
    PassesFrom f test acc (a :: l) ↔ test acc a ∧ PassesFrom f test (f acc a) l := Iff.rfl

theorem passesFrom_append (l₁ l₂ : List α) (acc : β) :
    PassesFrom f test acc (l₁ ++ l₂) ↔
      PassesFrom f test acc l₁ ∧ PassesFrom f test (l₁.foldl f acc) l₂ := by
  induction l₁ generalizing acc with
  | nil => simp
  | cons a l₁ ih => simp [ih, and_assoc]

variable {f test}

theorem PassesFrom.take {acc : β} {l : List α} (passes : PassesFrom f test acc l) (j : Nat) :
    PassesFrom f test acc (l.take j) := by
  rw [← List.take_append_drop j l, passesFrom_append] at passes
  exact passes.1

/-- Element by element: each passes against the fold of those before it. -/
theorem passesFrom_iff_getElem {acc : β} {l : List α} :
    PassesFrom f test acc l ↔ ∀ i (h : i < l.length), test ((l.take i).foldl f acc) l[i] := by
  induction l generalizing acc with
  | nil => simp
  | cons a l ih =>
    rw [passesFrom_cons, ih]
    constructor
    · rintro ⟨first, rest⟩ i bound
      cases i with
      | zero => simpa using first
      | succ i => simpa using rest i (by simpa using bound)
    · intro all
      refine ⟨?_, fun i bound => ?_⟩
      · have first := all 0 (by simp)
        simpa using first
      · have later := all (i + 1) (by simpa using bound)
        simpa using later

/-- A run that stops where its next element fails is the longest run that passes. -/
theorem PassesFrom.le_of_fails {acc : β} {l : List α} {j k : Nat} {a : α}
    (longer : PassesFrom f test acc (l.take j)) (next : (l.drop k).head? = some a)
    (fails : ¬ test ((l.take k).foldl f acc) a) : j ≤ k := by
  by_contra more
  have bound : k < l.length := by
    by_contra outside
    simp [List.drop_eq_nil_of_le (Nat.le_of_not_lt outside)] at next
  have atK : l[k] = a := by simpa [List.head?_drop, bound] using next
  have passes := (passesFrom_iff_getElem.mp longer) k (by simp; omega)
  simp only [List.getElem_take, List.take_take, Nat.min_eq_left (Nat.le_of_not_le more), atK] at passes
  exact fails passes

end List
