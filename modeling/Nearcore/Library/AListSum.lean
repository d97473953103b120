import Mathlib

/-! Sums of a function over the keys of an association list, and how inserting or erasing a
key changes them: the bookkeeping of a running total kept beside a finite map. -/
namespace AList

variable {α : Type} {β : α → Type} [DecidableEq α] (f : α → Nat) {s : AList β} {a : α}

theorem sum_keys_insert_of_notMem (b : β a) (absent : a ∉ s) :
    ((s.insert a b).keys.map f).sum = f a + (s.keys.map f).sum := by
  rw [keys_insert, List.erase_of_not_mem (mt mem_keys.mpr absent), List.map_cons, List.sum_cons]

theorem sum_keys_erase_add (present : a ∈ s) :
    ((s.erase a).keys.map f).sum + f a = (s.keys.map f).sum := by
  have perm := List.perm_cons_erase (mem_keys.mp present)
  rw [keys_erase, (perm.map f).sum_eq, List.map_cons, List.sum_cons, Nat.add_comm]

theorem le_sum_keys (present : a ∈ s) : f a ≤ (s.keys.map f).sum := by
  rw [← sum_keys_erase_add f present]
  exact Nat.le_add_left _ _

theorem sum_keys_erase_of_notMem (absent : a ∉ s) : ((s.erase a).keys.map f).sum = (s.keys.map f).sum := by
  rw [keys_erase, List.erase_of_not_mem (mt mem_keys.mpr absent)]

/-- Inserting at a key, with a summand that changes at that key only: the new sum gains the new
summand there and loses the old one, which is zero when the key was absent. -/
theorem sum_keys_insert_add {g : α → Nat} (b : β a) (agree : ∀ x, x ≠ a → f x = g x)
    (absentZero : a ∉ s → g a = 0) :
    ((s.insert a b).keys.map f).sum + g a = f a + (s.keys.map g).sum := by
  have others : ((s.keys.erase a).map f).sum = ((s.keys.erase a).map g).sum := by
    congr 1
    refine List.map_congr_left fun x member => agree x ?_
    exact ((s.keys_nodup.mem_erase_iff).mp member).1
  rw [keys_insert, List.map_cons, List.sum_cons, others, Nat.add_assoc]
  by_cases present : a ∈ s
  · rw [← keys_erase, sum_keys_erase_add g present]
  · rw [absentZero present, List.erase_of_not_mem (mt mem_keys.mpr present), Nat.add_zero]

/-- A sum over the entries of a map is the sum over its keys of what each key looks up. -/
theorem sum_entries_eq_sum_keys {γ : Type} (s : AList fun _ : α => γ) (g : γ → Nat) (d : γ) :
    (s.entries.map fun entry => g entry.2).sum = (s.keys.map fun a => g ((s.lookup a).getD d)).sum := by
  rw [AList.keys, List.keys, List.map_map]
  congr 1
  apply List.map_congr_left
  intro entry member
  have found : s.lookup entry.1 = some entry.2 := AList.mem_lookup_iff.mpr member
  simp [found]

end AList
