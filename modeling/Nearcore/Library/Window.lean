import Mathlib

/-! A list kept in a map over a window of consecutive indices, as a queue keeps its items
under the indices from its first one to its next free one: the map holds the list's `j`-th
element at `first + j` and nothing anywhere else. Pushing at the back, taking from either
end and overwriting the front each move the window one step. -/
namespace List

variable {α : Type}

/-- `m` holds `xs` from index `first` on, one element per index, and nothing else. -/
def Window (m : Nat → Option α) (first : Nat) (xs : List α) : Prop :=
  ∀ i, m i = if first ≤ i then xs[i - first]? else none

section
attribute [local simp] Window
end

namespace Window

variable {m : Nat → Option α} {first : Nat} {xs : List α}

theorem apply_add (window : Window m first xs) (j : Nat) : m (first + j) = xs[j]? := by
  simp [window (first + j)]

theorem apply_of_lt {i : Nat} (window : Window m first xs) (below : i < first) : m i = none := by
  simp [window i, Nat.not_le_of_lt below]

theorem apply_of_le {i : Nat} (window : Window m first xs) (beyond : first + xs.length ≤ i) :
    m i = none := by
  rw [window i, if_pos (by omega), List.getElem?_eq_none (by omega)]

/-- The empty list is held by the map with nothing in it, from any index. -/
theorem nil_iff {first : Nat} : Window m first [] ↔ ∀ i, m i = none := by
  simp [Window]

theorem push (window : Window m first xs) (a : α) :
    Window (Function.update m (first + xs.length) (some a)) first (xs ++ [a]) := by
  intro i
  by_cases at_end : i = first + xs.length
  · subst at_end
    simp
  · rw [Function.update_of_ne at_end, window i]
    split_ifs with inside
    · by_cases before : i - first < xs.length
      · rw [List.getElem?_append_left before]
      · rw [List.getElem?_eq_none (by omega), List.getElem?_eq_none (by simp; omega)]
    · rfl

theorem popFront {a : α} (window : Window m first (a :: xs)) :
    Window (Function.update m first none) (first + 1) xs := by
  intro i
  by_cases at_front : i = first
  · subst at_front
    simp
  · rw [Function.update_of_ne at_front, window i]
    by_cases inside : first + 1 ≤ i
    · rw [if_pos (by omega), if_pos inside]
      obtain ⟨j, rfl⟩ : ∃ j, i = first + 1 + j := ⟨i - (first + 1), by omega⟩
      simp [show first + 1 + j - first = j + 1 by omega]
    · rw [if_neg (by omega), if_neg inside]

theorem popBack {a : α} (window : Window m first (xs ++ [a])) :
    Window (Function.update m (first + xs.length) none) first xs := by
  intro i
  by_cases at_end : i = first + xs.length
  · subst at_end
    simp
  · rw [Function.update_of_ne at_end, window i]
    split_ifs with inside
    · by_cases before : i - first < xs.length
      · rw [List.getElem?_append_left before]
      · rw [List.getElem?_eq_none (by simp; omega), List.getElem?_eq_none (by omega)]
    · rfl

theorem setFront {a : α} (window : Window m first (a :: xs)) (b : α) :
    Window (Function.update m first (some b)) first (b :: xs) := by
  intro i
  by_cases at_front : i = first
  · subst at_front
    simp
  · rw [Function.update_of_ne at_front, window i]
    split_ifs with inside
    · obtain ⟨j, rfl⟩ : ∃ j, i = first + (j + 1) := ⟨i - first - 1, by omega⟩
      simp [show first + (j + 1) - first = j + 1 by omega]
    · rfl

/-- Clearing the first `k` indices of the window drops the list's first `k` elements. -/
theorem drop (window : Window m first xs) (k : Nat) :
    Window (fun i => if first ≤ i ∧ i < first + k then none else m i) (first + k) (xs.drop k) := by
  intro i
  beta_reduce
  by_cases cleared : first ≤ i ∧ i < first + k
  · rw [if_pos cleared, if_neg (by omega)]
  · rw [if_neg cleared, window i]
    by_cases kept : first + k ≤ i
    · rw [if_pos (by omega), if_pos kept, List.getElem?_drop]
      congr 1
      omega
    · rw [if_neg (by omega), if_neg kept]

end Window

end List
