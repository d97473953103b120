import Mathlib

/-! Dealing indices round-robin: for each residue `r` below `n`, the indices `r, r + n, r + 2n, …`
below a length, as `(r..len).step_by(n)` visits them. The decks of the residues split the
indices: together they are a permutation of all of them, and their sizes differ by at most one. -/
namespace RoundRobin

/-- The indices `start, start + step, …` below `stop`, as `(start..stop).step_by(step)` visits
them for a positive step. -/
def stepBy (start stop step : Nat) : List Nat :=
  List.range' start ((stop - start + step - 1) / step) step

section
attribute [local simp] stepBy
end

/-- The number of steps from `start` that stay below `stop`. -/
theorem lt_count_iff {start stop step k : Nat} (positive : 0 < step) :
    k < (stop - start + step - 1) / step ↔ start + step * k < stop := by
  rw [← Nat.add_one_le_iff, Nat.le_div_iff_mul_le positive, Nat.add_mul, Nat.one_mul, Nat.mul_comm k step]
  generalize step * k = m
  omega

theorem length_stepBy (start stop step : Nat) :
    (stepBy start stop step).length = (stop - start + step - 1) / step :=
  List.length_range' ..

section Residues

variable {n len : Nat}

/-- The deck of a residue holds the indices below the length with that residue. -/
theorem mem_stepBy {r i : Nat} (residue : r < n) : i ∈ stepBy r len n ↔ i < len ∧ i % n = r := by
  have positive : 0 < n := by omega
  rw [stepBy, List.mem_range']
  constructor
  · rintro ⟨k, below, rfl⟩
    rw [lt_count_iff positive] at below
    refine ⟨below, ?_⟩
    rw [Nat.add_mul_mod_self_left, Nat.mod_eq_of_lt residue]
  · rintro ⟨below, rfl⟩
    refine ⟨i / n, ?_, (Nat.mod_add_div i n).symm⟩
    rw [lt_count_iff positive, Nat.mod_add_div]
    exact below

theorem nodup_stepBy (r : Nat) (positive : 0 < n) : (stepBy r len n).Nodup :=
  List.nodup_range' n positive

/-- The decks of all residues are a permutation of the indices below the length. -/
theorem flatMap_stepBy_perm (positive : 0 < n) :
    ((List.range n).flatMap fun r => stepBy r len n).Perm (List.range len) := by
  have nodup : ((List.range n).flatMap fun r => stepBy r len n).Nodup := by
    rw [List.nodup_flatMap]
    refine ⟨fun r _ => nodup_stepBy r positive, ?_⟩
    -- the decks of two residues share no index
    refine List.Pairwise.imp_of_mem ?_ (List.nodup_range)
    intro r r' memberR memberR' different i inDeck inDeck'
    rw [List.mem_range] at memberR memberR'
    exact different (((mem_stepBy memberR).mp inDeck).2.symm.trans ((mem_stepBy memberR').mp inDeck').2)
  refine (List.perm_ext_iff_of_nodup nodup List.nodup_range).mpr fun i => ?_
  rw [List.mem_flatMap, List.mem_range]
  constructor
  · rintro ⟨r, memberR, inDeck⟩
    exact ((mem_stepBy (List.mem_range.mp memberR)).mp inDeck).1
  · intro below
    exact ⟨i % n, List.mem_range.mpr (Nat.mod_lt i positive),
      (mem_stepBy (Nat.mod_lt i positive)).mpr ⟨below, rfl⟩⟩

/-- A sum over the decks of all residues is the sum over all indices. -/
theorem sum_flatMap_stepBy {M : Type} [AddCommMonoid M] (positive : 0 < n) (g : Nat → M) :
    (((List.range n).flatMap fun r => stepBy r len n).map g).sum = ((List.range len).map g).sum :=
  ((flatMap_stepBy_perm positive).map g).sum_eq

/-- The decks of two residues differ in size by at most one. -/
theorem length_stepBy_le_succ {r r' : Nat} (residue : r < n) (residue' : r' < n) :
    (stepBy r len n).length ≤ (stepBy r' len n).length + 1 := by
  have positive : 0 < n := by omega
  rw [length_stepBy, length_stepBy, ← Nat.add_div_right _ positive]
  exact Nat.div_le_div_right (by omega)

end Residues

end RoundRobin
