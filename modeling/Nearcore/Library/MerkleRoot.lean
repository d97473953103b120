import Mathlib

/-! The root of a binary merkle tree over a list of leaves, split at the largest power of two
strictly below its length, and the frontier an incremental tree keeps of it: the roots of the
perfect subtrees that the set bits of the number of leaves give, the highest first. The hash of
two nodes is any function. -/
namespace MerkleRoot

/-- `usize::next_power_of_two`: the least power of two at least `n` (`1` for `0`). -/
def nextPowerOfTwo (n : Nat) : Nat := 2 ^ Nat.clog 2 n

section
attribute [local simp] nextPowerOfTwo
end

/-- The least power of two at least `n`, for `n` above `2 ^ k` and at most `2 ^ (k + 1)`. -/
theorem nextPowerOfTwo_eq {n k : Nat} (above : 2 ^ k < n) (below : n ≤ 2 ^ (k + 1)) :
    nextPowerOfTwo n = 2 ^ (k + 1) := by
  have atMost : Nat.clog 2 n ≤ k + 1 := (Nat.clog_le_iff_le_pow (by decide)).mpr below
  have atLeast : k < Nat.clog 2 n := (Nat.lt_clog_iff_pow_lt (by decide)).mpr above
  rw [nextPowerOfTwo, Nat.le_antisymm atMost atLeast]

/-- Where the root splits `n ≥ 2` leaves: half the least power of two at least `n`. -/
def splitPoint (n : Nat) : Nat := nextPowerOfTwo n / 2

section
attribute [local simp] splitPoint
end

theorem splitPoint_eq {n k : Nat} (above : 2 ^ k < n) (below : n ≤ 2 ^ (k + 1)) :
    splitPoint n = 2 ^ k := by
  rw [splitPoint, nextPowerOfTwo_eq above below, Nat.pow_succ, Nat.mul_div_cancel _ (by decide)]

/-- Two or more leaves are split into two non-empty parts. -/
theorem splitPoint_pos_lt {n : Nat} (two : 2 ≤ n) : 0 < splitPoint n ∧ splitPoint n < n := by
  have nonzero : n - 1 ≠ 0 := by omega
  have low := Nat.log2_self_le nonzero
  have high := Nat.lt_log2_self (n := n - 1)
  rw [splitPoint_eq (k := (n - 1).log2) (by omega) (by omega)]
  exact ⟨Nat.pow_pos (by decide), by omega⟩

section Root

variable {H : Type} (combine : H → H → H) (empty : H)

/-- The root of the leaves: `empty` for none, the leaf for one, and otherwise the combination of
the roots of the first `splitPoint` leaves and of the others. -/
def root : List H → H
  | [] => empty
  | [leaf] => leaf
  | first :: second :: rest =>
    combine (root ((first :: second :: rest).take (splitPoint (rest.length + 2))))
      (root ((first :: second :: rest).drop (splitPoint (rest.length + 2))))
termination_by leaves => leaves.length
decreasing_by
  all_goals
    have split := splitPoint_pos_lt (n := rest.length + 2) (by omega)
    simp only [List.length_take, List.length_drop, List.length_cons]
    omega

section
attribute [local simp] root
end

@[simp] theorem root_singleton (leaf : H) : root combine empty [leaf] = leaf := by
  rw [root]

theorem root_of_two_le {leaves : List H} (two : 2 ≤ leaves.length) :
    root combine empty leaves = combine (root combine empty (leaves.take (splitPoint leaves.length)))
      (root combine empty (leaves.drop (splitPoint leaves.length))) := by
  match leaves, two with
  | first :: second :: rest, _ => rw [root]; rfl

/-- A perfect subtree of `2 ^ k` leaves followed by at most as many more leaves is split between
the two. -/
theorem root_append {left right : List H} {k : Nat} (perfect : left.length = 2 ^ k)
    (nonempty : 0 < right.length) (fits : right.length ≤ 2 ^ k) :
    root combine empty (left ++ right) = combine (root combine empty left) (root combine empty right) := by
  have two : 2 ≤ (left ++ right).length := by
    have := Nat.one_le_two_pow (n := k)
    simp only [List.length_append]
    omega
  have split : splitPoint (left ++ right).length = left.length := by
    rw [perfect]
    apply splitPoint_eq <;> simp only [List.length_append, Nat.pow_succ] <;> omega
  rw [root_of_two_le combine empty two, split, List.take_left, List.drop_left]

/-- The leaves at `index` among the blocks of `2 ^ level` leaves; the last block may be short. -/
def block (leaves : List H) (level index : Nat) : List H :=
  (leaves.drop (index * 2 ^ level)).take (2 ^ level)

section
attribute [local simp] block
end

theorem block_zero_of_length_le {leaves : List H} {level : Nat} (within : leaves.length ≤ 2 ^ level) :
    block leaves level 0 = leaves := by
  simp [block, List.take_of_length_le within]

theorem length_block (leaves : List H) (level index : Nat) :
    (block leaves level index).length = min (2 ^ level) (leaves.length - index * 2 ^ level) := by
  simp [block]

/-- At level zero a block is one leaf. -/
theorem block_zero {leaves : List H} {index : Nat} (inside : index < leaves.length) :
    block leaves 0 index = [leaves[index]] := by
  rw [block, Nat.pow_zero, Nat.mul_one, List.drop_eq_getElem_cons inside, List.take_succ_cons, List.take_zero]

/-- A block holds a leaf exactly when it starts before the last leaf. -/
theorem block_ne_nil_iff {leaves : List H} {level index : Nat} :
    block leaves level index ≠ [] ↔ index * 2 ^ level < leaves.length := by
  rw [← List.length_pos_iff, length_block]
  have := Nat.two_pow_pos level
  omega

/-- A block of `2 ^ (level + 1)` leaves is the two blocks of `2 ^ level` leaves it is made of. -/
theorem block_succ (leaves : List H) (level index : Nat) :
    block leaves (level + 1) index = block leaves level (2 * index) ++ block leaves level (2 * index + 1) := by
  have start : index * 2 ^ (level + 1) = 2 * index * 2 ^ level := by
    rw [Nat.pow_succ]
    ring
  rw [block, block, block, start, Nat.pow_succ, Nat.mul_two, List.take_add, List.drop_drop]
  congr 3
  ring

/-- The root one level up combines the roots of the two halves, or keeps the first when the
second holds no leaf. -/
theorem root_block_succ (leaves : List H) (level index : Nat) :
    root combine empty (block leaves (level + 1) index) =
      if block leaves level (2 * index + 1) = [] then root combine empty (block leaves level (2 * index))
      else combine (root combine empty (block leaves level (2 * index)))
        (root combine empty (block leaves level (2 * index + 1))) := by
  rw [block_succ]
  split
  · rename_i absent
    rw [absent, List.append_nil]
  · rename_i present
    have nonempty : 0 < (block leaves level (2 * index + 1)).length := List.length_pos_iff.mpr present
    have full : (block leaves level (2 * index)).length = 2 ^ level := by
      rw [length_block] at nonempty ⊢
      rw [Nat.add_mul, Nat.one_mul] at nonempty
      omega
    apply root_append combine empty full nonempty
    rw [length_block]
    exact Nat.min_le_left _ _

/-! The frontier: for each set bit `i` of the number of leaves, the block of `2 ^ i` leaves that
ends where the leaves above that bit end. -/

/-- The roots of the perfect subtrees of the leaves, the highest first. -/
def frontier (leaves : List H) : List H :=
  leaves.length.bitIndices.reverse.map fun i =>
    root combine empty (block leaves i (leaves.length / 2 ^ i - 1))

section
attribute [local simp] frontier
end

/-- The block of each set bit is a perfect subtree. -/
theorem length_block_of_mem_bitIndices {leaves : List H} {i : Nat} (member : i ∈ leaves.length.bitIndices) :
    (block leaves i (leaves.length / 2 ^ i - 1)).length = 2 ^ i := by
  have some : 1 ≤ leaves.length / 2 ^ i :=
    (Nat.le_div_iff_mul_le (Nat.two_pow_pos i)).mpr
      (by simpa using Nat.two_pow_le_of_mem_bitIndices member)
  have within := Nat.div_mul_le_self leaves.length (2 ^ i)
  have start : (leaves.length / 2 ^ i - 1) * 2 ^ i + 2 ^ i = leaves.length / 2 ^ i * 2 ^ i := by
    rw [Nat.sub_mul, Nat.one_mul, Nat.sub_add_cancel (Nat.le_mul_of_pos_left _ some)]
  rw [length_block]
  omega

/-- The set bits of `2 ^ k + n` for `n < 2 ^ k` are those of `n` and `k`. -/
theorem bitIndices_two_pow_add {n k : Nat} (below : n < 2 ^ k) :
    (2 ^ k + n).bitIndices = n.bitIndices ++ [k] := by
  have lower : ∀ i ∈ n.bitIndices, i < k := fun i member =>
    (Nat.pow_lt_pow_iff_right (by decide)).mp
      (lt_of_le_of_lt (Nat.two_pow_le_of_mem_bitIndices member) below)
  have sorted : (n.bitIndices ++ [k]).SortedLT := by
    rw [List.sortedLT_iff_pairwise, List.pairwise_append]
    refine ⟨List.sortedLT_iff_pairwise.mp Nat.bitIndices_sorted, by simp, ?_⟩
    simpa using lower
  have total : ((n.bitIndices ++ [k]).map fun i => 2 ^ i).sum = 2 ^ k + n := by
    simp [Nat.add_comm]
  rw [← total, Nat.bitIndices_sum_map_two_pow sorted]

/-- A block of a set bit below `k` lies wholly after the first `2 ^ k` leaves. -/
theorem block_append_of_mem_bitIndices {left right : List H} {k i : Nat} (perfect : left.length = 2 ^ k)
    (member : i ∈ right.length.bitIndices) (lower : i < k) :
    block (left ++ right) i ((2 ^ k + right.length) / 2 ^ i - 1) =
      block right i (right.length / 2 ^ i - 1) := by
  have pow : 2 ^ k = 2 ^ (k - i) * 2 ^ i := by rw [← Nat.pow_add, Nat.sub_add_cancel lower.le]
  have some : 1 ≤ right.length / 2 ^ i :=
    (Nat.le_div_iff_mul_le (Nat.two_pow_pos i)).mpr
      (by simpa using Nat.two_pow_le_of_mem_bitIndices member)
  have quotient : (2 ^ k + right.length) / 2 ^ i = 2 ^ (k - i) + right.length / 2 ^ i := by
    rw [pow, Nat.add_comm, Nat.add_mul_div_right _ _ (Nat.two_pow_pos i), Nat.add_comm]
  have start : ((2 ^ k + right.length) / 2 ^ i - 1) * 2 ^ i =
      left.length + (right.length / 2 ^ i - 1) * 2 ^ i := by
    rw [quotient, perfect, Nat.add_sub_assoc some, Nat.add_mul, pow]
  rw [block, start, ← List.drop_drop, List.drop_left, block]

/-- The first perfect subtree of `2 ^ k` leaves heads the frontier, followed by the frontier of
the fewer leaves after it. -/
theorem frontier_append {left right : List H} {k : Nat} (perfect : left.length = 2 ^ k)
    (below : right.length < 2 ^ k) :
    frontier combine empty (left ++ right) =
      root combine empty left :: frontier combine empty right := by
  have length : (left ++ right).length = 2 ^ k + right.length := by simp [perfect]
  have head : block (left ++ right) k ((2 ^ k + right.length) / 2 ^ k - 1) = left := by
    have one : (2 ^ k + right.length) / 2 ^ k = 1 := Nat.div_eq_of_lt_le (by omega) (by omega)
    rw [one, Nat.sub_self, block, Nat.zero_mul, List.drop_zero, ← perfect, List.take_left]
  rw [frontier, length, bitIndices_two_pow_add below, List.reverse_append, List.reverse_singleton,
    List.singleton_append, List.map_cons, head, frontier]
  congr 1
  apply List.map_congr_left
  intro i member
  have member' := List.mem_reverse.mp member
  have lower : i < k := (Nat.pow_lt_pow_iff_right (by decide)).mp
    (lt_of_le_of_lt (Nat.two_pow_le_of_mem_bitIndices member') below)
  rw [block_append_of_mem_bitIndices perfect member' lower]

theorem frontier_nil : frontier combine empty ([] : List H) = [] := by
  simp [frontier]

/-- The frontier of a perfect tree is its root. -/
theorem frontier_of_perfect {leaves : List H} {k : Nat} (perfect : leaves.length = 2 ^ k) :
    frontier combine empty leaves = [root combine empty leaves] := by
  have split := @frontier_append H combine empty leaves [] k perfect (Nat.two_pow_pos k)
  rwa [List.append_nil, frontier_nil] at split

/-- Non-empty leaves split at the highest set bit of their number. -/
theorem exists_top_split {leaves : List H} (nonempty : leaves ≠ []) :
    ∃ k, (leaves.take (2 ^ k)).length = 2 ^ k ∧ (leaves.drop (2 ^ k)).length < 2 ^ k := by
  have nonzero : leaves.length ≠ 0 := by simpa using nonempty
  have low := Nat.log2_self_le nonzero
  have high := Nat.lt_log2_self (n := leaves.length)
  refine ⟨leaves.length.log2, ?_, ?_⟩
  · simp only [List.length_take]
    omega
  · rw [List.length_drop, Nat.pow_succ] at *
    omega

/-- A block boundary below a larger one: two multiples of `d` differ by at least `d`. -/
theorem add_le_of_dvd_of_lt {d a b : Nat} (left : d ∣ a) (right : d ∣ b) (lt : a < b) : a + d ≤ b := by
  obtain ⟨x, rfl⟩ := left
  obtain ⟨y, rfl⟩ := right
  have : x < y := Nat.lt_of_mul_lt_mul_left lt
  calc d * x + d = d * (x + 1) := by ring
    _ ≤ d * y := Nat.mul_le_mul_left d this

/-- A perfect subtree of `2 ^ level` leaves added after whole blocks of twice as many leaves ends
the frontier: the roots above it are unchanged. By strong induction on the number of leaves, at
the highest set bit of their number. -/
theorem frontier_append_of_dvd {more : List H} {level : Nat} (perfect : more.length = 2 ^ level) :
    ∀ (n : Nat) (leaves : List H), leaves.length = n → 2 ^ (level + 1) ∣ n →
      frontier combine empty (leaves ++ more) =
        frontier combine empty leaves ++ [root combine empty more] := by
  intro n
  induction n using Nat.strong_induction_on with
  | _ n ih =>
    intro leaves count whole
    by_cases nonempty : leaves = []
    · subst nonempty
      rw [List.nil_append, frontier_nil, List.nil_append, frontier_of_perfect combine empty perfect]
    · obtain ⟨k, top, below⟩ := exists_top_split nonempty
      have split := List.take_append_drop (2 ^ k) leaves
      have total : n = 2 ^ k + (leaves.drop (2 ^ k)).length := by
        have lengths := congrArg List.length split
        rw [List.length_append, top] at lengths
        omega
      have atLeast : 2 ^ (level + 1) ≤ n := Nat.le_of_dvd (by omega) whole
      have higher : level + 1 ≤ k := by
        have : 2 ^ (level + 1) < 2 ^ (k + 1) := by rw [Nat.pow_succ 2 k]; omega
        have := (Nat.pow_lt_pow_iff_right (by decide)).mp this
        omega
      have topWhole : 2 ^ (level + 1) ∣ 2 ^ k := Nat.pow_dvd_pow 2 higher
      have restWhole : 2 ^ (level + 1) ∣ (leaves.drop (2 ^ k)).length := by
        have := Nat.dvd_sub whole topWhole
        rwa [total, Nat.add_sub_cancel_left] at this
      have room := add_le_of_dvd_of_lt restWhole topWhole below
      have fits : (leaves.drop (2 ^ k) ++ more).length < 2 ^ k := by
        rw [List.length_append, perfect]
        rw [Nat.pow_succ] at room
        omega
      rw [← split, List.append_assoc, frontier_append combine empty top fits,
        frontier_append combine empty top below,
        ih _ (by omega) _ rfl restWhole, List.cons_append]

/-- The root an incremental tree computes from its frontier: each root combined with what the
roots below it give, the last one alone. -/
def foldRoot : List H → H
  | [] => empty
  | [last] => last
  | node :: next :: nodes => combine node (foldRoot (next :: nodes))

section
attribute [local simp] foldRoot
end

/-- The fold of the roots is the right fold onto the last of them. -/
theorem foldRoot_append_singleton (last : H) :
    ∀ nodes : List H, foldRoot combine empty (nodes ++ [last]) = nodes.foldr combine last
  | [] => rfl
  | node :: nodes => by
    obtain ⟨next, rest, shape⟩ := List.exists_cons_of_ne_nil (List.append_ne_nil_of_right_ne_nil nodes
      (List.cons_ne_nil last []))
    rw [List.cons_append, shape, foldRoot, ← shape, foldRoot_append_singleton last nodes, List.foldr_cons]

theorem length_frontier (leaves : List H) :
    (frontier combine empty leaves).length = leaves.length.bitIndices.length := by
  simp [frontier]

theorem frontier_ne_nil {leaves : List H} (nonempty : leaves ≠ []) : frontier combine empty leaves ≠ [] := by
  intro none
  have count := length_frontier combine empty leaves
  rw [none, List.length_nil] at count
  have sum := Nat.sum_map_two_pow_bitIndices leaves.length
  rw [List.eq_nil_of_length_eq_zero count.symm] at sum
  exact nonempty (List.eq_nil_of_length_eq_zero (by simpa using sum.symm))

/-- Folding the frontier gives the root of the leaves, by strong induction on their number. -/
theorem foldRoot_frontier : ∀ (n : Nat) (leaves : List H), leaves.length = n →
    foldRoot combine empty (frontier combine empty leaves) = root combine empty leaves := by
  intro n
  induction n using Nat.strong_induction_on with
  | _ n ih =>
    intro leaves count
    by_cases nonempty : leaves = []
    · subst nonempty
      rw [frontier_nil, foldRoot, root]
    · obtain ⟨k, top, below⟩ := exists_top_split nonempty
      have split := List.take_append_drop (2 ^ k) leaves
      rw [← split, frontier_append combine empty top below]
      by_cases rest : leaves.drop (2 ^ k) = []
      · rw [rest, frontier_nil, List.append_nil, foldRoot]
      · have shorter : (leaves.drop (2 ^ k)).length < n := by
          have := List.length_pos_iff.mpr nonempty
          simp only [List.length_drop]
          have := Nat.one_le_two_pow (n := k)
          omega
        obtain ⟨next, nodes, shape⟩ := List.exists_cons_of_ne_nil (frontier_ne_nil combine empty rest)
        rw [shape, foldRoot, ← shape, ih _ shorter _ rfl,
          root_append combine empty top (List.length_pos_iff.mpr rest) below.le]

end Root

end MerkleRoot
