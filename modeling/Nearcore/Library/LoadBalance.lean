import Nearcore.Library.ListSearch

/-! Balancing loads over `n` bins. For a total `T`, the surplus of the loads above the ceiling of
the average and their deficit below its floor measure how far they are from balance: the larger
of the two is zero exactly when no two loads differ by more than one. Moving one unit from a
largest bin to a smallest one, while two loads differ by two or more, lowers that measure by
one; adding one unit to a smallest bin while the total is below `T` leaves the surplus and lowers
the deficit. -/
namespace LoadBalance

variable (n : Nat)

/-- The sum of the loads. -/
def total (load : Nat → Nat) : Nat := ((List.range n).map load).sum

section
attribute [local simp] total
end

/-- What the loads hold above `c`. -/
def surplus (load : Nat → Nat) (c : Nat) : Nat := ((List.range n).map fun s => load s - c).sum

section
attribute [local simp] surplus
end

/-- What the loads lack below `f`. -/
def deficit (load : Nat → Nat) (f : Nat) : Nat := ((List.range n).map fun s => f - load s).sum

section
attribute [local simp] deficit
end

/-- The ceiling of the average of `T` over the bins. -/
def ceil (T : Nat) : Nat := (T + n - 1) / n

section
attribute [local simp] ceil
end

/-- The floor of the average of `T` over the bins. -/
def floor (T : Nat) : Nat := T / n

section
attribute [local simp] floor
end

/-- How far the loads are from balance, for the total `T`. -/
def potential (load : Nat → Nat) (T : Nat) : Nat := max (surplus n load (ceil n T)) (deficit n load (floor n T))

section
attribute [local simp] potential
end

variable {n} {load : Nat → Nat}

theorem ceil_le_floor_succ (positive : 0 < n) (T : Nat) : ceil n T ≤ floor n T + 1 := by
  unfold ceil floor
  rw [← Nat.add_div_right T positive]
  exact Nat.div_le_div_right (by omega)

theorem surplus_le_total (c : Nat) : surplus n load c ≤ total n load :=
  List.sum_le_sum fun _ _ => Nat.sub_le _ _

theorem deficit_le_mul (f : Nat) : deficit n load f ≤ n * f := by
  have bound := List.sum_le_sum (l := List.range n) (f := fun s => f - load s) (g := fun _ => f)
    fun s _ => Nat.sub_le _ _
  rw [List.map_const', List.sum_replicate, List.length_range, smul_eq_mul] at bound
  exact bound

/-- A load below every other, with one bin above it by `d`, makes a total of at least `n` times
it plus `d`. -/
theorem mul_add_le_total {m hi : Nat} (least : ∀ s < n, m ≤ load s) (valid : hi < n) :
    n * m + (load hi - m) ≤ total n load := by
  have raised := List.sum_range_update (F := load) (G := fun s => if s = hi then m else load s) valid
    fun s different => if_neg different
  have atLeast := List.sum_le_sum (l := List.range n) (f := fun _ => m)
    (g := fun s => if s = hi then m else load s) fun s member => by
      split
      · exact Nat.le_refl m
      · exact least s (List.mem_range.mp member)
  rw [List.map_const', List.sum_replicate, List.length_range, smul_eq_mul] at atLeast
  rw [if_pos rfl] at raised
  unfold total
  have := least hi valid
  omega

/-- A load above every other, with one bin below it by `d`, makes a total of at most `n` times
it less `d`. -/
theorem total_add_le_mul {m lo : Nat} (most : ∀ s < n, load s ≤ m) (valid : lo < n) :
    total n load + (m - load lo) ≤ n * m := by
  have raised := List.sum_range_update (F := load) (G := fun s => if s = lo then m else load s) valid
    fun s different => if_neg different
  have atMost := List.sum_le_sum (l := List.range n) (f := fun s => if s = lo then m else load s)
    (g := fun _ => m) fun s member => by
      split
      · exact Nat.le_refl m
      · exact most s (List.mem_range.mp member)
  rw [List.map_const', List.sum_replicate, List.length_range, smul_eq_mul] at atMost
  rw [if_pos rfl] at raised
  unfold total
  have := most lo valid
  omega

/-- Loads all at most `c` have no surplus above it. -/
theorem surplus_eq_zero {c : Nat} (most : ∀ s < n, load s ≤ c) : surplus n load c = 0 :=
  List.sum_eq_zero fun x member => by
    obtain ⟨s, inRange, rfl⟩ := List.mem_map.mp member
    exact Nat.sub_eq_zero_of_le (most s (List.mem_range.mp inRange))

/-- Loads all at least `f` lack nothing below it. -/
theorem deficit_eq_zero {f : Nat} (least : ∀ s < n, f ≤ load s) : deficit n load f = 0 :=
  List.sum_eq_zero fun x member => by
    obtain ⟨s, inRange, rfl⟩ := List.mem_map.mp member
    exact Nat.sub_eq_zero_of_le (least s (List.mem_range.mp inRange))

/-- The ceiling of the average times the bins covers the total. -/
theorem le_mul_ceil (positive : 0 < n) (T : Nat) : T ≤ n * ceil n T := by
  have split := Nat.div_add_mod (T + n - 1) n
  have below := Nat.mod_lt (T + n - 1) positive
  unfold ceil
  omega

section Moves

variable {T lo hi : Nat}

/-- Loads two or more apart are not at balance: the measure is positive. -/
theorem potential_pos (positive : 0 < n) (validLo : lo < n) (validHi : hi < n)
    (apart : load lo + 2 ≤ load hi) : 0 < potential n load T := by
  by_contra balanced
  have noSurplus : surplus n load (ceil n T) = 0 := by unfold potential at balanced; omega
  have noDeficit : deficit n load (floor n T) = 0 := by unfold potential at balanced; omega
  -- each summand of a zero sum is zero
  have hiBelow : load hi ≤ ceil n T := by
    have term := List.sum_eq_zero_iff.mp noSurplus (load hi - ceil n T)
      (List.mem_map_of_mem (f := fun s => load s - ceil n T) (List.mem_range.mpr validHi))
    omega
  have loAbove : floor n T ≤ load lo := by
    have term := List.sum_eq_zero_iff.mp noDeficit (floor n T - load lo)
      (List.mem_map_of_mem (f := fun s => floor n T - load s) (List.mem_range.mpr validLo))
    omega
  have := ceil_le_floor_succ positive T
  omega

/-- Moving one unit from a largest bin to a smallest one, two or more apart, lowers the measure
by one. -/
theorem potential_move {moved : Nat → Nat} (positive : 0 < n) (summed : total n load = T)
    (validLo : lo < n) (validHi : hi < n) (least : ∀ s < n, load lo ≤ load s)
    (most : ∀ s < n, load s ≤ load hi) (apart : load lo + 2 ≤ load hi)
    (atLo : moved lo = load lo + 1) (atHi : moved hi = load hi - 1)
    (others : ∀ s, s ≠ lo → s ≠ hi → moved s = load s) :
    potential n moved T + 1 = potential n load T := by
  have distinct : lo ≠ hi := fun same => by subst same; omega
  have ceilBound := ceil_le_floor_succ positive T
  have covered := le_mul_ceil positive T
  have floored : n * floor n T ≤ T := Nat.mul_div_le T n
  -- a smallest bin is below the ceiling, a largest one above the floor
  have loBelow : load lo < ceil n T := by
    have total := mul_add_le_total least validHi
    by_contra above
    have := Nat.mul_le_mul_left n (Nat.le_of_not_lt above)
    omega
  have hiAbove : floor n T < load hi := by
    have total := total_add_le_mul most validLo
    by_contra below
    have := Nat.mul_le_mul_left n (Nat.le_of_not_lt below)
    omega
  have surplusMoved := List.sum_range_update_two (F := fun s => load s - ceil n T)
    (G := fun s => moved s - ceil n T) validLo validHi distinct fun s notLo notHi => by
      rw [others s notLo notHi]
  have deficitMoved := List.sum_range_update_two (F := fun s => floor n T - load s)
    (G := fun s => floor n T - moved s) validLo validHi distinct fun s notLo notHi => by
      rw [others s notLo notHi]
  simp only [atLo, atHi] at surplusMoved deficitMoved
  -- without a bin above the ceiling there is no surplus, without one below the floor no deficit
  have noSurplus : load hi ≤ ceil n T → surplus n load (ceil n T) = 0 := fun below =>
    surplus_eq_zero fun s valid => Nat.le_trans (most s valid) below
  have noDeficit : floor n T ≤ load lo → deficit n load (floor n T) = 0 := fun above =>
    deficit_eq_zero fun s valid => Nat.le_trans above (least s valid)
  unfold potential surplus deficit at *
  omega

/-- Adding one unit to a smallest bin, while the total stays at most `T`, adds nothing above
the ceiling and takes one from the deficit below the floor. -/
theorem place_measures {placed : Nat → Nat} (positive : 0 < n) (within : total n load + 1 ≤ T)
    (validLo : lo < n) (least : ∀ s < n, load lo ≤ load s) (atLo : placed lo = load lo + 1)
    (others : ∀ s, s ≠ lo → placed s = load s) :
    surplus n placed (ceil n T) = surplus n load (ceil n T) ∧
      deficit n placed (floor n T) = deficit n load (floor n T) - 1 := by
  -- the smallest load is at most the average of what is there, below the ceiling for `T`
  have loBelow : load lo + 1 ≤ ceil n T := by
    have total := mul_add_le_total least validLo
    unfold ceil
    rw [Nat.le_div_iff_mul_le positive, Nat.add_mul, Nat.one_mul, Nat.mul_comm]
    omega
  have surplusPlaced := List.sum_range_update (F := fun s => load s - ceil n T)
    (G := fun s => placed s - ceil n T) validLo fun s different => by rw [others s different]
  have deficitPlaced := List.sum_range_update (F := fun s => floor n T - load s)
    (G := fun s => floor n T - placed s) validLo fun s different => by rw [others s different]
  simp only [atLo] at surplusPlaced deficitPlaced
  have noDeficit : floor n T ≤ load lo → deficit n load (floor n T) = 0 := fun above =>
    deficit_eq_zero fun s valid => Nat.le_trans above (least s valid)
  unfold surplus deficit at *
  omega

end Moves

end LoadBalance
