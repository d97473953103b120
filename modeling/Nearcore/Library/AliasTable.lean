import Nearcore.Library.ListSearch

/-! Alias tables (Walker's method). A table has `n` columns of height `height`: column `u` is
kept up to its odds and handed to its alias above them, so that a uniform pair of a column and
a level picks a column. The pairs that pick column `i` are its own odds and, over every column
aliased to it, the part of that column above its odds: the mass the table gives `i`. -/
namespace AliasTable

variable (odds aliases : Nat → Nat)

/-- The column the pair of column `u` and level `v` picks. -/
def pick (u v : Nat) : Nat := if v < odds u then u else aliases u

section
attribute [local simp] pick
end

/-- The mass the table gives column `i`: its own odds, and the part above the odds of each
column aliased to it. -/
def mass (n height i : Nat) : Nat :=
  odds i + ((List.range n).map fun j => if aliases j = i ∧ odds j < height then height - odds j else 0).sum

section
attribute [local simp] mass
end

/-- The number of pairs below `n` columns and `height` levels that pick column `i`. -/
def pairsPicking (n height i : Nat) : Nat :=
  ((List.range n).map fun u => (List.range height).countP fun v => pick odds aliases u v = i).sum

section
attribute [local simp] pairsPicking
end

variable {odds aliases}

/-- In one column the levels below its odds pick it, and those above pick its alias. -/
theorem countP_pick {height u : Nat} (within : odds u ≤ height) (i : Nat) :
    ((List.range height).countP fun v => pick odds aliases u v = i) =
      (if u = i then odds u else 0) + if aliases u = i then height - odds u else 0 := by
  have split : height = odds u + (height - odds u) := by omega
  rw [split, List.range_add, List.countP_append, Nat.add_sub_cancel_left]
  congr 1
  · by_cases own : u = i
    · rw [if_pos own, List.countP_eq_length.mpr, List.length_range]
      intro v member
      subst own
      simp [pick, List.mem_range.mp member]
    · rw [if_neg own, List.countP_eq_zero.mpr]
      intro v member
      simp [pick, List.mem_range.mp member, own]
  · by_cases aliased : aliases u = i
    · rw [if_pos aliased, List.countP_eq_length.mpr, List.length_map, List.length_range]
      intro v member
      obtain ⟨level, -, rfl⟩ := List.mem_map.mp member
      simp [pick, aliased]
    · rw [if_neg aliased, List.countP_eq_zero.mpr]
      intro v member
      obtain ⟨level, -, rfl⟩ := List.mem_map.mp member
      simp [pick, aliased]

/-- The pairs that pick a column are the mass the table gives it, when no column's odds exceed
the height. -/
theorem pairsPicking_eq_mass {n height i : Nat} (within : ∀ u < n, odds u ≤ height) (valid : i < n) :
    pairsPicking odds aliases n height i = mass odds aliases n height i := by
  have perColumn : ∀ u ∈ List.range n, ((List.range height).countP fun v => pick odds aliases u v = i) =
      (if u = i then odds i else 0) + if aliases u = i ∧ odds u < height then height - odds u else 0 := by
    intro u member
    have below := within u (List.mem_range.mp member)
    rw [countP_pick below]
    congr 1
    · by_cases own : u = i
      · rw [if_pos own, if_pos own, own]
      · rw [if_neg own, if_neg own]
    · -- a column filled to the top hands nothing to its alias
      by_cases full : odds u < height
      · simp [full]
      · have top : height - odds u = 0 := by omega
        simp [full, top]
  rw [pairsPicking, List.map_congr_left perColumn, List.sum_map_add, List.sum_range_ite_eq valid, mass]

/-- A pair within the table picks a column of positive mass. -/
theorem mass_pick_pos {n height u v : Nat} (column : u < n) (level : v < height) :
    0 < mass odds aliases n height (pick odds aliases u v) := by
  unfold pick
  split
  · unfold mass
    omega
  · -- above its odds, column `u` hands a nonempty part to its alias
    have term := List.le_sum_of_mem (List.mem_map_of_mem (f := fun j =>
      if aliases j = aliases u ∧ odds j < height then height - odds j else 0) (List.mem_range.mpr column))
    rw [if_pos ⟨rfl, by omega⟩] at term
    unfold mass
    omega

end AliasTable
