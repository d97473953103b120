import Mathlib

/-! Quorums by weight: two sets of voters whose weights together exceed the total weight meet
in a voter of positive weight, and two sets past two thirds of the total always do. Beside
them, the order facts of a list whose pairs are related in order, as a log of votes is. -/

namespace Finset

variable {α : Type} [DecidableEq α] {f : α → Nat} {s t u : Finset α}

/-- The weight of a union is at most the total, when only the voters of `u` weigh. -/
theorem sum_union_le_of_support (support : ∀ a, f a ≠ 0 → a ∈ u) : ∑ a ∈ s ∪ t, f a ≤ ∑ a ∈ u, f a := by
  rw [← Finset.sum_filter_of_ne (p := fun a => a ∈ u) fun a _ weighs => support a weighs]
  exact Finset.sum_le_sum_of_subset fun a member => (Finset.mem_filter.mp member).2

/-- Two sets whose weights add up past the total share a voter of positive weight. -/
theorem exists_mem_inter_of_total_lt (support : ∀ a, f a ≠ 0 → a ∈ u)
    (exceeds : ∑ a ∈ u, f a < ∑ a ∈ s, f a + ∑ a ∈ t, f a) : ∃ a ∈ s, a ∈ t ∧ 0 < f a := by
  have split : ∑ a ∈ s ∪ t, f a + ∑ a ∈ s ∩ t, f a = ∑ a ∈ s, f a + ∑ a ∈ t, f a :=
    Finset.sum_union_inter
  have union := sum_union_le_of_support (s := s) (t := t) support
  have shared : ∑ a ∈ s ∩ t, f a ≠ 0 := by omega
  obtain ⟨a, member, weighs⟩ := Finset.exists_ne_zero_of_sum_ne_zero shared
  exact ⟨a, (Finset.mem_inter.mp member).1, (Finset.mem_inter.mp member).2, Nat.pos_of_ne_zero weighs⟩

end Finset

namespace List

variable {α : Type}

/-- Two lists of distinct voters, each weighing more than two thirds of the total, share a
voter of positive weight. -/
theorem exists_mem_of_two_thirds [DecidableEq α] {f : α → Nat} {voters voters' all : List α} (distinct : voters.Nodup) (distinct' : voters'.Nodup)
    (distinctAll : all.Nodup) (support : ∀ a, f a ≠ 0 → a ∈ all)
    (quorum : (all.map f).sum * 2 / 3 < (voters.map f).sum) (quorum' : (all.map f).sum * 2 / 3 < (voters'.map f).sum) :
    ∃ a ∈ voters, a ∈ voters' ∧ 0 < f a := by
  have exceeds : ∑ a ∈ all.toFinset, f a < ∑ a ∈ voters.toFinset, f a + ∑ a ∈ voters'.toFinset, f a := by
    rw [List.sum_toFinset f distinctAll, List.sum_toFinset f distinct, List.sum_toFinset f distinct']
    omega
  obtain ⟨a, member, member', weighs⟩ :=
    Finset.exists_mem_inter_of_total_lt (fun a weighs => List.mem_toFinset.mpr (support a weighs)) exceeds
  exact ⟨a, List.mem_toFinset.mp member, List.mem_toFinset.mp member', weighs⟩

variable {R : α → α → Prop}

/-- Two members of a list whose pairs are related in order are equal or related one way. -/
theorem Pairwise.eq_or_rel_of_mem {l : List α} (pairwise : l.Pairwise R) {a b : α} (member : a ∈ l) (member' : b ∈ l) :
    a = b ∨ R a b ∨ R b a := by
  induction l with
  | nil => cases member
  | cons c rest ih =>
    rw [List.pairwise_cons] at pairwise
    rcases List.mem_cons.mp member with rfl | later <;> rcases List.mem_cons.mp member' with rfl | later'
    · exact .inl rfl
    · exact .inr (.inl (pairwise.1 b later'))
    · exact .inr (.inr (pairwise.1 a later))
    · exact ih pairwise.2 later later'

end List
