import Nearcore.Primitives.Merkle

/-! `merklize` of `core/primitives/src/merkle.rs`: the root of a list of items and the path of each
to it, computed level by level in one array of hashes, overwritten in place from the front. The
array reads are in range, which the proofs show, so the model reads them with a default. -/
namespace Nearcore

section Hashing

variable (hashBytes : List UInt8 → CryptoHash)

/-- The first paths: each leaf's sibling at the lowest level, on its right for an even index and on
its left for an odd one; the last of an odd number of leaves has none. -/
def initialPaths (hashes : List MerkleHash) : List MerklePath :=
  (List.range hashes.length).map fun i =>
    if i % 2 = 0 then
      if i + 1 < hashes.length then [⟨hashes.getD (i + 1) CryptoHash.default, .right⟩] else []
    else [⟨hashes.getD (i - 1) CryptoHash.default, .left⟩]

section
attribute [local simp] initialPaths
end

/-- The innermost loop: the item is pushed on the paths of those of the `counter` leaves from
`base` on that exist. -/
def pushToLeaves (item : MerklePathItem) (base counter arrLength : Nat) (paths : List MerklePath) :
    List MerklePath :=
  (List.range counter).foldl (fun paths j =>
    if base + j < arrLength then paths.modify (base + j) (· ++ [item]) else paths) paths

section
attribute [local simp] pushToLeaves
end

/-- One index of the loop over a level: the node above two nodes, or above the one at the end of
the level, is stored in place and pushed on the paths of the leaves of its sibling. -/
def levelStep (arrLength len counter arrLen : Nat) (state : List MerkleHash × List MerklePath)
    (i : Nat) : List MerkleHash × List MerklePath :=
  if arrLen ≤ 2 * i then state
  else
    let hash := if arrLen ≤ 2 * i + 1 then state.1.getD (2 * i) CryptoHash.default
      else combineHash hashBytes (state.1.getD (2 * i) CryptoHash.default)
        (state.1.getD (2 * i + 1) CryptoHash.default)
    (state.1.set i hash,
      if 1 < len then
        if i % 2 = 0 then pushToLeaves ⟨hash, .left⟩ ((i + 1) * counter) counter arrLength state.2
        else pushToLeaves ⟨hash, .right⟩ ((i - 1) * counter) counter arrLength state.2
      else state.2)

section
attribute [local simp] levelStep
end

/-- The loop over the levels, from the leaves up: `len` halves and `counter` doubles each time. -/
def merklizeLoop (arrLength len counter arrLen : Nat) (hashes : List MerkleHash)
    (paths : List MerklePath) : List MerkleHash × List MerklePath :=
  if 1 < len then
    let state := (List.range (len / 2)).foldl
      (levelStep hashBytes arrLength (len / 2) (counter * 2) arrLen) (hashes, paths)
    merklizeLoop arrLength (len / 2) (counter * 2) ((arrLen + 1) / 2) state.1 state.2
  else (hashes, paths)
termination_by len
decreasing_by omega

section
attribute [local simp] merklizeLoop
end

/-- `merklize`, with `hashBorsh` for `CryptoHash::hash_borsh` of an item. -/
def merklize {α : Type} (hashBorsh : α → MerkleHash) (arr : List α) : MerkleHash × List MerklePath :=
  if arr = [] then (CryptoHash.default, [])
  else
    let len := MerkleRoot.nextPowerOfTwo arr.length
    let hashes := arr.map hashBorsh
    if len = 1 then (hashes.getD 0 CryptoHash.default, [[]])
    else
      let result := merklizeLoop hashBytes arr.length len 1 arr.length hashes (initialPaths hashes)
      (result.1.getD 0 CryptoHash.default, result.2)

section
attribute [local simp] merklize
end

theorem pushToLeaves_getElem? (item : MerklePathItem) (base arrLength : Nat) (paths : List MerklePath)
    (k : Nat) : ∀ counter, (pushToLeaves item base counter arrLength paths)[k]? =
      if base ≤ k ∧ k < base + counter ∧ k < arrLength then paths[k]?.map (· ++ [item]) else paths[k]?
  | 0 => by
    rw [pushToLeaves, List.range_zero, List.foldl_nil, if_neg (by omega)]
  | counter + 1 => by
    have previous := pushToLeaves_getElem? item base arrLength paths k counter
    rw [pushToLeaves, List.range_succ, List.foldl_append, ← pushToLeaves, List.foldl_cons, List.foldl_nil]
    by_cases present : base + counter < arrLength
    · rw [if_pos present]
      by_cases last : base + counter = k
      · rw [← last, List.getElem?_modify_eq, if_pos (by omega)]
        rw [← last] at previous
        rw [previous, if_neg (by omega)]
        rfl
      · rw [List.getElem?_modify_ne _ _ last, previous]
        by_cases inside : base ≤ k ∧ k < base + counter ∧ k < arrLength
        · rw [if_pos inside, if_pos (by omega)]
        · rw [if_neg inside, if_neg (by omega)]
    · rw [if_neg present, previous]
      by_cases inside : base ≤ k ∧ k < base + counter ∧ k < arrLength
      · rw [if_pos inside, if_pos (by omega)]
      · rw [if_neg inside, if_neg (by omega)]

/-! The levels of the tree over the leaves. At level `level` the blocks of `2 ^ level` leaves are
the nodes; `arrLen` counts those that hold a leaf. -/

/-- The block that a block is paired with one level up. -/
def siblingIndex (b : Nat) : Nat := if b % 2 = 1 then b - 1 else b + 1

section
attribute [local simp] siblingIndex
end

/-- What the leaves of block `b` push on their paths to go one level up: the root of the sibling
block, on the side where it stands. -/
def siblingItem (leaves : List MerkleHash) (level b : Nat) : MerklePathItem :=
  if b % 2 = 1 then
    ⟨MerkleRoot.root (combineHash hashBytes) CryptoHash.default (MerkleRoot.block leaves level (b - 1)), .left⟩
  else ⟨MerkleRoot.root (combineHash hashBytes) CryptoHash.default (MerkleRoot.block leaves level (b + 1)), .right⟩

section
attribute [local simp] siblingItem
end

/-- The leaves an even index pushes on are those of the block after it. -/
theorem pushRange_even_iff {m c k : Nat} (positive : 0 < c) (even : m % 2 = 0) :
    ((m + 1) * c ≤ k ∧ k < (m + 1) * c + c) ↔ siblingIndex (k / c) = m := by
  have low := Nat.le_div_iff_mul_le (x := m + 1) (y := k) positive
  have high := Nat.div_lt_iff_lt_mul (x := k) (y := m + 2) positive
  rw [show (m + 1) * c + c = (m + 2) * c by ring, ← low, ← high, siblingIndex]
  clear low high
  generalize k / c = q
  split <;> omega

/-- The leaves an odd index pushes on are those of the block before it. -/
theorem pushRange_odd_iff {m c k : Nat} (positive : 0 < c) (odd : m % 2 = 1) :
    ((m - 1) * c ≤ k ∧ k < (m - 1) * c + c) ↔ siblingIndex (k / c) = m := by
  have low := Nat.le_div_iff_mul_le (x := m - 1) (y := k) positive
  have high := Nat.div_lt_iff_lt_mul (x := k) (y := m) positive
  rw [show (m - 1) * c + c = m * c by rw [← Nat.succ_mul]; congr 1; omega, ← low, ← high, siblingIndex]
  clear low high
  generalize k / c = q
  split <;> omega

/-- One step up: the root of a node is stored from those of its one or two children, still at
their places in the array. -/
theorem levelHash_eq {hashes old : List MerkleHash} {leaves : List MerkleHash} {level arrLen m : Nat}
    (counted : ∀ i, i < arrLen ↔ i * 2 ^ level < leaves.length)
    (below : ∀ i < arrLen, old[i]? = some
      (MerkleRoot.root (combineHash hashBytes) CryptoHash.default (MerkleRoot.block leaves level i)))
    (pending : ∀ p, m ≤ p → hashes[p]? = old[p]?) (inside : 2 * m < arrLen) :
    (if arrLen ≤ 2 * m + 1 then hashes.getD (2 * m) CryptoHash.default
      else combineHash hashBytes (hashes.getD (2 * m) CryptoHash.default)
        (hashes.getD (2 * m + 1) CryptoHash.default)) =
      MerkleRoot.root (combineHash hashBytes) CryptoHash.default (MerkleRoot.block leaves (level + 1) m) := by
  have first : hashes.getD (2 * m) CryptoHash.default =
      MerkleRoot.root (combineHash hashBytes) CryptoHash.default (MerkleRoot.block leaves level (2 * m)) := by
    rw [List.getD_eq_getElem?_getD, pending _ (by omega), below _ inside, Option.getD_some]
  rw [MerkleRoot.root_block_succ]
  by_cases last : arrLen ≤ 2 * m + 1
  · have empty : MerkleRoot.block leaves level (2 * m + 1) = [] := by
      by_contra present
      have := (counted _).mpr (MerkleRoot.block_ne_nil_iff.mp present)
      omega
    rw [if_pos last, if_pos empty, first]
  · have second : hashes.getD (2 * m + 1) CryptoHash.default =
        MerkleRoot.root (combineHash hashBytes) CryptoHash.default
          (MerkleRoot.block leaves level (2 * m + 1)) := by
      rw [List.getD_eq_getElem?_getD, pending _ (by omega), below _ (by omega), Option.getD_some]
    have present : MerkleRoot.block leaves level (2 * m + 1) ≠ [] :=
      MerkleRoot.block_ne_nil_iff.mpr ((counted _).mp (by omega))
    rw [if_neg last, if_neg present, first, second]

/-- What the loop over a level has pushed on the path of leaf `k` before index `m`: the root of
the sibling of its block, once that sibling is visited and holds a leaf. -/
def pushedItems (leaves : List MerkleHash) (level len arrLen m k : Nat) : List MerklePathItem :=
  if 1 < len ∧ siblingIndex (k / 2 ^ (level + 1)) < m ∧ 2 * siblingIndex (k / 2 ^ (level + 1)) < arrLen
  then [siblingItem hashBytes leaves (level + 1) (k / 2 ^ (level + 1))] else []

section
attribute [local simp] pushedItems
end

theorem pushedItems_succ_of_ne {leaves : List MerkleHash} {level len arrLen m k : Nat}
    (other : ¬(1 < len ∧ siblingIndex (k / 2 ^ (level + 1)) = m ∧ 2 * m < arrLen)) :
    pushedItems hashBytes leaves level len arrLen (m + 1) k = pushedItems hashBytes leaves level len arrLen m k := by
  unfold pushedItems
  generalize siblingIndex (k / 2 ^ (level + 1)) = sibling at other ⊢
  by_cases before : 1 < len ∧ sibling < m ∧ 2 * sibling < arrLen
  · rw [if_pos before, if_pos (by omega)]
  · rw [if_neg before, if_neg (by omega)]

theorem pushedItems_of_eq {leaves : List MerkleHash} {level len arrLen m k : Nat}
    (visit : 1 < len ∧ siblingIndex (k / 2 ^ (level + 1)) = m ∧ 2 * m < arrLen) :
    pushedItems hashBytes leaves level len arrLen m k = [] ∧
      pushedItems hashBytes leaves level len arrLen (m + 1) k =
        [siblingItem hashBytes leaves (level + 1) (k / 2 ^ (level + 1))] := by
  unfold pushedItems
  constructor
  · rw [if_neg (by omega)]
  · rw [if_pos (by omega)]

/-- The loop over one level, before index `m`: the nodes before `m` hold the roots of the level
above, those from `m` on are still those of the level below, and each leaf has on its path the
roots pushed so far. -/
structure StepInv (leaves : List MerkleHash) (level len arrLen : Nat) (old : List MerkleHash)
    (oldPaths : List MerklePath) (m : Nat) (state : List MerkleHash × List MerklePath) : Prop where
  length : state.1.length = leaves.length
  done : ∀ p < m, 2 * p < arrLen → state.1[p]? =
    some (MerkleRoot.root (combineHash hashBytes) CryptoHash.default (MerkleRoot.block leaves (level + 1) p))
  pending : ∀ p, m ≤ p → state.1[p]? = old[p]?
  paths : ∀ k, state.2[k]? = oldPaths[k]?.map (· ++ pushedItems hashBytes leaves level len arrLen m k)

/-- The root a leaf gets from the sibling of its block, seen from the sibling's index. -/
theorem siblingItem_of_siblingIndex {leaves : List MerkleHash} {level b m : Nat} (sibling : siblingIndex b = m) :
    siblingItem hashBytes leaves level b =
      ⟨MerkleRoot.root (combineHash hashBytes) CryptoHash.default (MerkleRoot.block leaves level m),
        if m % 2 = 0 then .left else .right⟩ := by
  unfold siblingIndex at sibling
  unfold siblingItem
  split at sibling
  · rw [if_pos (by assumption), if_pos (by omega), sibling]
  · rw [if_neg (by assumption), if_neg (by omega), sibling]

/-- The paths after one index of the loop over a level: the leaves of its sibling get its root. -/
theorem StepInv.paths_step {leaves old : List MerkleHash} {oldPaths : List MerklePath}
    {level len arrLen m : Nat} {state : List MerkleHash × List MerklePath}
    (inv : StepInv hashBytes leaves level len arrLen old oldPaths m state)
    (pathsLength : oldPaths.length = leaves.length) (inside : 2 * m < arrLen) (k : Nat) :
    (if 1 < len then
        if m % 2 = 0 then
          pushToLeaves ⟨MerkleRoot.root (combineHash hashBytes) CryptoHash.default
            (MerkleRoot.block leaves (level + 1) m), .left⟩ ((m + 1) * 2 ^ (level + 1)) (2 ^ (level + 1))
            leaves.length state.2
        else pushToLeaves ⟨MerkleRoot.root (combineHash hashBytes) CryptoHash.default
            (MerkleRoot.block leaves (level + 1) m), .right⟩ ((m - 1) * 2 ^ (level + 1)) (2 ^ (level + 1))
            leaves.length state.2
      else state.2)[k]? =
      oldPaths[k]?.map (· ++ pushedItems hashBytes leaves level len arrLen (m + 1) k) := by
  have positive := Nat.two_pow_pos (level + 1)
  by_cases grow : 1 < len
  · rw [if_pos grow]
    by_cases sibling : siblingIndex (k / 2 ^ (level + 1)) = m
    · -- the leaf is in the block the push is for
      obtain ⟨before, after⟩ := @pushedItems_of_eq hashBytes leaves level len arrLen m k ⟨grow, sibling, inside⟩
      rw [after, siblingItem_of_siblingIndex hashBytes sibling]
      by_cases present : k < leaves.length
      · by_cases even : m % 2 = 0
        · have range := (pushRange_even_iff positive even).mpr sibling
          rw [if_pos even, pushToLeaves_getElem?, if_pos ⟨range.1, range.2, present⟩, inv.paths k,
            Option.map_map, before, if_pos even]
          simp [Function.comp_def]
        · have range := (pushRange_odd_iff positive (by omega)).mpr sibling
          rw [if_neg even, pushToLeaves_getElem?, if_pos ⟨range.1, range.2, present⟩, inv.paths k,
            Option.map_map, before, if_neg even]
          simp [Function.comp_def]
      · have none : oldPaths[k]? = none := List.getElem?_eq_none (by omega)
        split <;> rw [pushToLeaves_getElem?, if_neg (fun range => present range.2.2), inv.paths k, none] <;>
          rfl
    · -- the leaf is elsewhere, and its path is as it was
      rw [pushedItems_succ_of_ne hashBytes (fun visit => sibling visit.2.1)]
      by_cases even : m % 2 = 0
      · rw [if_pos even, pushToLeaves_getElem?, if_neg (fun range => sibling
          ((pushRange_even_iff positive even).mp ⟨range.1, range.2.1⟩)), inv.paths k]
      · rw [if_neg even, pushToLeaves_getElem?, if_neg (fun range => sibling
          ((pushRange_odd_iff positive (by omega)).mp ⟨range.1, range.2.1⟩)), inv.paths k]
  · rw [if_neg grow, inv.paths k, pushedItems_succ_of_ne hashBytes (fun visit => grow visit.1)]

/-- One index of the loop over a level keeps `StepInv`: a node that holds a leaf gets its root
from its children, still in place, and the leaves of its sibling get that root on their paths. -/
theorem StepInv.step {leaves old : List MerkleHash} {oldPaths : List MerklePath}
    {level len arrLen m : Nat} {state : List MerkleHash × List MerklePath}
    (inv : StepInv hashBytes leaves level len arrLen old oldPaths m state)
    (counted : ∀ i, i < arrLen ↔ i * 2 ^ level < leaves.length)
    (below : ∀ i < arrLen, old[i]? = some
      (MerkleRoot.root (combineHash hashBytes) CryptoHash.default (MerkleRoot.block leaves level i)))
    (pathsLength : oldPaths.length = leaves.length) :
    StepInv hashBytes leaves level len arrLen old oldPaths (m + 1)
      (levelStep hashBytes leaves.length len (2 ^ (level + 1)) arrLen state m) := by
  unfold levelStep
  by_cases skip : arrLen ≤ 2 * m
  · -- a node past the last leaf is skipped, and nothing changes
    rw [if_pos skip]
    exact ⟨inv.length, fun p before inside => inv.done p (by omega) inside,
      fun p after => inv.pending p (by omega),
      fun k => by rw [inv.paths k, pushedItems_succ_of_ne hashBytes (fun visit => by omega)]⟩
  · rw [if_neg skip]
    have inside : 2 * m < arrLen := by omega
    have small : m < state.1.length := by
      have := (counted _).mp inside
      have := Nat.le_mul_of_pos_right (2 * m) (Nat.two_pow_pos level)
      rw [inv.length]
      omega
    dsimp only
    rw [levelHash_eq hashBytes counted below inv.pending inside]
    refine ⟨?_, ?_, ?_, inv.paths_step hashBytes pathsLength inside⟩
    · rw [List.length_set, inv.length]
    · intro p before insideP
      by_cases same : p = m
      · rw [same, List.getElem?_set_self small]
      · rw [List.getElem?_set_ne (Ne.symm same)]
        exact inv.done p (by omega) insideP
    · intro p after
      rw [List.getElem?_set_ne (by omega), inv.pending p (by omega)]

/-- The loop over a level, by induction on the indices it has visited. -/
theorem StepInv.run {leaves old : List MerkleHash} {oldPaths : List MerklePath} {level len arrLen : Nat}
    (oldLength : old.length = leaves.length) (pathsLength : oldPaths.length = leaves.length)
    (counted : ∀ i, i < arrLen ↔ i * 2 ^ level < leaves.length)
    (below : ∀ i < arrLen, old[i]? = some
      (MerkleRoot.root (combineHash hashBytes) CryptoHash.default (MerkleRoot.block leaves level i))) :
    ∀ m, StepInv hashBytes leaves level len arrLen old oldPaths m
      ((List.range m).foldl (levelStep hashBytes leaves.length len (2 ^ (level + 1)) arrLen) (old, oldPaths))
  | 0 => by
    refine ⟨oldLength, fun p before => absurd before (Nat.not_lt_zero p), fun _ _ => rfl, fun k => ?_⟩
    have nothing : ∀ k, pushedItems hashBytes leaves level len arrLen 0 k = [] := fun k => by
      rw [pushedItems, if_neg (by omega)]
    simp [nothing]
  | m + 1 => by
    rw [List.range_succ, List.foldl_append, List.foldl_cons, List.foldl_nil]
    exact (StepInv.run oldLength pathsLength counted below m).step hashBytes counted below pathsLength

/-- What a level of `len` nodes pushes on the path of a leaf takes it from the root of its block
to the root of the block one level up: the sibling's root when the sibling holds a leaf, nothing
otherwise. -/
theorem pathRoot_next {leaves : List MerkleHash} {level len arrLen k : Nat} {oldPath : MerklePath}
    {leaf : MerkleHash} (present : k < leaves.length)
    (counted : ∀ i, i < arrLen ↔ i * 2 ^ level < leaves.length)
    (within : leaves.length ≤ len * 2 ^ level) (evenLen : len % 2 = 0)
    (old : computeRootFromPath hashBytes oldPath leaf =
      MerkleRoot.root (combineHash hashBytes) CryptoHash.default
        (MerkleRoot.block leaves (level + 1) (k / 2 ^ (level + 1)))) :
    computeRootFromPath hashBytes (oldPath ++ pushedItems hashBytes leaves level (len / 2) arrLen (len / 2) k) leaf =
      MerkleRoot.root (combineHash hashBytes) CryptoHash.default
        (MerkleRoot.block leaves (level + 2) (k / 2 ^ (level + 2))) := by
  have quotient : k / 2 ^ (level + 2) = k / 2 ^ (level + 1) / 2 := by
    rw [Nat.div_div_eq_div_mul, ← Nat.pow_succ]
  have scale : len / 2 * 2 ^ (level + 1) = len * 2 ^ level := by
    have two : len / 2 * 2 = len := Nat.div_mul_cancel (Nat.dvd_of_mod_eq_zero evenLen)
    calc len / 2 * 2 ^ (level + 1) = len / 2 * 2 * 2 ^ level := by rw [Nat.pow_succ]; ring
      _ = len * 2 ^ level := by rw [two]
  have start := Nat.div_mul_le_self k (2 ^ (level + 1))
  have bound : k / 2 ^ (level + 1) < len / 2 :=
    (Nat.div_lt_iff_lt_mul (Nat.two_pow_pos _)).mpr (by omega)
  have fewer : arrLen ≤ len := by
    by_contra more
    have := (counted len).mp (by omega)
    omega
  -- a block one level down holds a leaf exactly when its node is counted
  have holds : ∀ j, MerkleRoot.block leaves (level + 1) j ≠ [] ↔ 2 * j < arrLen := by
    intro j
    rw [MerkleRoot.block_ne_nil_iff, counted, show j * 2 ^ (level + 1) = 2 * j * 2 ^ level by ring]
  rw [computeRootFromPath_append, old, quotient, show level + 2 = level + 1 + 1 from rfl, pushedItems]
  generalize k / 2 ^ (level + 1) = b at start bound ⊢
  rw [MerkleRoot.root_block_succ (combineHash hashBytes) CryptoHash.default leaves (level + 1) (b / 2)]
  by_cases odd : b % 2 = 1
  · -- the block is the right one, and its left sibling holds leaves before it
    have own : MerkleRoot.block leaves (level + 1) b ≠ [] := by
      rw [MerkleRoot.block_ne_nil_iff]
      omega
    have sibling : 2 * (b - 1) < arrLen := by
      rw [← holds, MerkleRoot.block_ne_nil_iff]
      have := Nat.sub_one_mul b (2 ^ (level + 1))
      have := Nat.two_pow_pos (level + 1)
      have : 2 ^ (level + 1) ≤ b * 2 ^ (level + 1) := Nat.le_mul_of_pos_left _ (by omega)
      omega
    rw [show 2 * (b / 2) + 1 = b by omega, show 2 * (b / 2) = b - 1 by omega, if_neg own,
      siblingIndex, if_pos odd, if_pos ⟨by omega, by omega, sibling⟩, siblingItem, if_pos odd,
      computeRootFromPath_left]
  · rw [show 2 * (b / 2) + 1 = b + 1 by omega, show 2 * (b / 2) = b by omega, siblingIndex,
      if_neg odd]
    by_cases later : 2 * (b + 1) < arrLen
    · -- the right sibling holds leaves
      rw [if_pos ⟨by omega, by omega, later⟩, if_neg ((holds _).mpr later), siblingItem, if_neg odd,
        computeRootFromPath_right]
    · -- the block is the last of the level, alone under its node
      rw [if_neg (fun visit => later visit.2.2), if_pos (by simpa using mt (holds (b + 1)).mp later),
        computeRootFromPath_nil]

/-- Two lists whose entries correspond one to one have the same length. -/
theorem length_eq_of_getElem?_eq_map {α β : Type} {first : List α} {second : List β} {f : Nat → β → α}
    (same : ∀ k, first[k]? = second[k]?.map (f k)) : first.length = second.length := by
  have iff : ∀ k, first.length ≤ k ↔ second.length ≤ k := by
    intro k
    rw [← List.getElem?_eq_none_iff, ← List.getElem?_eq_none_iff, same k, Option.map_eq_none_iff]
  have := (iff first.length).mp (Nat.le_refl _)
  have := (iff second.length).mpr (Nat.le_refl _)
  omega

/-- The state of `merklize` once the nodes of level `level` are computed: `len` nodes, a power of
two, of which `arrLen` hold a leaf; the first `arrLen` hashes are their roots, and the path of each
leaf leads to the root of its block one level up. -/
structure LevelInv (leaves : List MerkleHash) (level len arrLen : Nat)
    (state : List MerkleHash × List MerklePath) : Prop where
  hashesLength : state.1.length = leaves.length
  pathsLength : state.2.length = leaves.length
  height : level ≤ Nat.clog 2 leaves.length
  width : len = 2 ^ (Nat.clog 2 leaves.length - level)
  counted : ∀ i, i < arrLen ↔ i * 2 ^ level < leaves.length
  hashes : ∀ i < arrLen, state.1[i]? =
    some (MerkleRoot.root (combineHash hashBytes) CryptoHash.default (MerkleRoot.block leaves level i))
  paths : ∀ (k : Nat) (path : MerklePath) leaf, state.2[k]? = some path → leaves[k]? = some leaf →
    computeRootFromPath hashBytes path leaf =
      MerkleRoot.root (combineHash hashBytes) CryptoHash.default
        (MerkleRoot.block leaves (level + 1) (k / 2 ^ (level + 1)))
  pathLength : ∀ (k : Nat) (path : MerklePath), state.2[k]? = some path →
    path.length ≤ level + if 1 < len then 1 else 0

theorem LevelInv.within {leaves : List MerkleHash} {level len arrLen : Nat}
    {state : List MerkleHash × List MerklePath} (inv : LevelInv hashBytes leaves level len arrLen state) :
    leaves.length ≤ len * 2 ^ level := by
  rw [inv.width, ← Nat.pow_add, Nat.sub_add_cancel inv.height]
  exact Nat.le_pow_clog (by decide) _

/-- One pass of the loop over the levels, from `LevelInv` at one level to the next. -/
theorem LevelInv.next {leaves : List MerkleHash} {level len arrLen : Nat} {hashes : List MerkleHash}
    {paths : List MerklePath} (inv : LevelInv hashBytes leaves level len arrLen (hashes, paths))
    (grow : 1 < len) :
    LevelInv hashBytes leaves (level + 1) (len / 2) ((arrLen + 1) / 2)
      ((List.range (len / 2)).foldl (levelStep hashBytes leaves.length (len / 2) (2 ^ (level + 1)) arrLen)
        (hashes, paths)) := by
  have run : StepInv hashBytes leaves level (len / 2) arrLen hashes paths (len / 2)
      ((List.range (len / 2)).foldl (levelStep hashBytes leaves.length (len / 2) (2 ^ (level + 1)) arrLen)
        (hashes, paths)) :=
    StepInv.run hashBytes inv.hashesLength inv.pathsLength inv.counted inv.hashes (len / 2)
  have higher : level < Nat.clog 2 leaves.length := by
    by_contra top
    have := inv.width
    rw [show Nat.clog 2 leaves.length - level = 0 by omega] at this
    omega
  have halfWidth : len / 2 = 2 ^ (Nat.clog 2 leaves.length - (level + 1)) := by
    rw [inv.width, show Nat.clog 2 leaves.length - level = Nat.clog 2 leaves.length - (level + 1) + 1 by omega,
      Nat.pow_succ, Nat.mul_div_cancel _ (by decide)]
  have evenLen : len % 2 = 0 := by
    rw [inv.width, show Nat.clog 2 leaves.length - level = Nat.clog 2 leaves.length - (level + 1) + 1 by omega,
      Nat.pow_succ, Nat.mul_mod_left]
  have fewer : arrLen ≤ len := by
    by_contra more
    have := (inv.counted len).mp (by omega)
    have := inv.within hashBytes
    omega
  refine ⟨run.length, ?_, by omega, halfWidth, ?_, ?_, ?_, ?_⟩
  · rw [length_eq_of_getElem?_eq_map run.paths, inv.pathsLength]
  · intro i
    rw [show i * 2 ^ (level + 1) = 2 * i * 2 ^ level by rw [Nat.pow_succ]; ring, ← inv.counted]
    omega
  · intro i inside
    exact run.done i (by omega) (by omega)
  · intro k path leaf stored present
    rw [run.paths k, Option.map_eq_some_iff] at stored
    obtain ⟨oldPath, oldStored, rfl⟩ := stored
    have inside : k < leaves.length := (List.getElem?_eq_some_iff.mp present).1
    exact pathRoot_next hashBytes inside inv.counted (inv.within hashBytes) evenLen
      (inv.paths k oldPath leaf oldStored present)
  · intro k path stored
    rw [run.paths k, Option.map_eq_some_iff] at stored
    obtain ⟨oldPath, oldStored, rfl⟩ := stored
    have old := inv.pathLength k oldPath oldStored
    rw [if_pos grow] at old
    have pushed : (pushedItems hashBytes leaves level (len / 2) arrLen (len / 2) k).length ≤
        if 1 < len / 2 then 1 else 0 := by
      unfold pushedItems
      split
      · rw [if_pos (by omega)]
        rfl
      · exact Nat.zero_le _
    rw [List.length_append]
    omega

/-- The loop over the levels, by strong induction on the number of nodes: it ends at the level of
one node, with `LevelInv` there. -/
theorem merklizeLoop_spec {leaves : List MerkleHash} : ∀ (len level arrLen : Nat) (hashes : List MerkleHash)
    (paths : List MerklePath), LevelInv hashBytes leaves level len arrLen (hashes, paths) →
    ∃ top arrLen', LevelInv hashBytes leaves top 1 arrLen'
      (merklizeLoop hashBytes leaves.length len (2 ^ level) arrLen hashes paths) := by
  intro len
  induction len using Nat.strong_induction_on with
  | _ len ih =>
    intro level arrLen hashes paths inv
    rw [merklizeLoop]
    by_cases grow : 1 < len
    · rw [if_pos grow]
      dsimp only
      rw [← Nat.pow_succ]
      exact ih (len / 2) (by omega) (level + 1) _ _ _ (inv.next hashBytes grow)
    · rw [if_neg grow]
      have one : len = 1 := by
        have := inv.width
        have := Nat.one_le_two_pow (n := Nat.clog 2 leaves.length - level)
        omega
      exact ⟨level, arrLen, one ▸ inv⟩

/-- The first paths lead each leaf to the root of its pair. -/
theorem initialPaths_getElem? (leaves : List MerkleHash) {k : Nat} (inside : k < leaves.length) :
    (initialPaths leaves)[k]? = some (if k % 2 = 0 then
      if k + 1 < leaves.length then [⟨leaves.getD (k + 1) CryptoHash.default, .right⟩] else []
    else [⟨leaves.getD (k - 1) CryptoHash.default, .left⟩]) := by
  simp [initialPaths, inside]

theorem LevelInv.initial {leaves : List MerkleHash} (two : 2 ≤ leaves.length) :
    LevelInv hashBytes leaves 0 (MerkleRoot.nextPowerOfTwo leaves.length) leaves.length
      (leaves, initialPaths leaves) := by
  have leaf : ∀ i (inside : i < leaves.length), MerkleRoot.root (combineHash hashBytes) CryptoHash.default
      (MerkleRoot.block leaves 0 i) = leaves[i] := fun i inside => by
    rw [MerkleRoot.block_zero inside, MerkleRoot.root_singleton]
  have wide : 1 < MerkleRoot.nextPowerOfTwo leaves.length := by
    have := Nat.le_pow_clog (b := 2) (by decide) leaves.length
    rw [MerkleRoot.nextPowerOfTwo]
    omega
  refine ⟨rfl, by simp [initialPaths], Nat.zero_le _, rfl, fun i => by simp, ?_, ?_, ?_⟩
  · intro i inside
    rw [leaf i inside, List.getElem?_eq_getElem inside]
  · intro k path leafHash stored present
    have inside : k < leaves.length := (List.getElem?_eq_some_iff.mp present).1
    rw [List.getElem?_eq_getElem inside, Option.some_inj] at present
    rw [initialPaths_getElem? leaves inside, Option.some_inj] at stored
    subst stored present
    rw [MerkleRoot.root_block_succ, Nat.zero_add, Nat.pow_one]
    by_cases even : k % 2 = 0
    · rw [if_pos even, show 2 * (k / 2) + 1 = k + 1 by omega, show 2 * (k / 2) = k by omega, leaf k inside]
      by_cases pair : k + 1 < leaves.length
      · rw [if_pos pair, if_neg (MerkleRoot.block_ne_nil_iff.mpr (by simpa using pair)), leaf (k + 1) pair,
          computeRootFromPath_right, List.getD_eq_getElem?_getD, List.getElem?_eq_getElem pair, Option.getD_some]
      · have last : MerkleRoot.block leaves 0 (k + 1) = [] := by
          by_contra present
          exact pair (by simpa using MerkleRoot.block_ne_nil_iff.mp present)
        rw [if_neg pair, if_pos last, computeRootFromPath_nil]
    · have before : k - 1 < leaves.length := by omega
      rw [if_neg even, show 2 * (k / 2) + 1 = k by omega, show 2 * (k / 2) = k - 1 by omega,
        if_neg (MerkleRoot.block_ne_nil_iff.mpr (by simpa using inside)), leaf k inside, leaf (k - 1) before,
        computeRootFromPath_left, List.getD_eq_getElem?_getD, List.getElem?_eq_getElem before, Option.getD_some]
  · intro k path stored
    have inside : k < leaves.length := by
      by_contra outside
      rw [List.getElem?_eq_none (by simp [initialPaths]; omega)] at stored
      cases stored
    rw [initialPaths_getElem? leaves inside, Option.some_inj] at stored
    subst stored
    rw [if_pos wide]
    split
    · split <;> simp
    · simp

/-- At the level of one node the root is that of all the leaves, and every path leads to it. -/
theorem LevelInv.top {leaves : List MerkleHash} {level arrLen : Nat}
    {state : List MerkleHash × List MerklePath} (inv : LevelInv hashBytes leaves level 1 arrLen state)
    (nonempty : leaves ≠ []) :
    state.1.getD 0 CryptoHash.default = MerkleRoot.root (combineHash hashBytes) CryptoHash.default leaves ∧
      ∀ k (inside : k < leaves.length), ∃ path, state.2[k]? = some path ∧
        computeRootFromPath hashBytes path leaves[k] =
          MerkleRoot.root (combineHash hashBytes) CryptoHash.default leaves ∧
        path.length ≤ Nat.clog 2 leaves.length := by
  have within := inv.within hashBytes
  have full : level = Nat.clog 2 leaves.length := by
    have := inv.height
    by_contra below
    have := Nat.one_lt_two_pow (n := Nat.clog 2 leaves.length - level) (by omega)
    have := inv.width
    omega
  have positive : 0 < leaves.length := List.length_pos_iff.mpr nonempty
  rw [Nat.one_mul] at within
  have wider : leaves.length ≤ 2 ^ (level + 1) := within.trans (Nat.pow_le_pow_right (by decide) (by omega))
  refine ⟨?_, fun k inside => ?_⟩
  · rw [List.getD_eq_getElem?_getD, inv.hashes 0 ((inv.counted 0).mpr (by simpa using positive)),
      Option.getD_some, MerkleRoot.block_zero_of_length_le within]
  · have present : state.2[k]? ≠ none := by
      rw [Ne, List.getElem?_eq_none_iff, inv.pathsLength]
      omega
    obtain ⟨path, stored⟩ := Option.ne_none_iff_exists'.mp present
    have first : k / 2 ^ (level + 1) = 0 := Nat.div_eq_of_lt (by omega)
    refine ⟨path, stored, ?_, ?_⟩
    · rw [inv.paths k path leaves[k] stored (List.getElem?_eq_getElem inside), first,
        MerkleRoot.block_zero_of_length_le wider]
    · have := inv.pathLength k path stored
      rw [if_neg (by omega)] at this
      omega

/-- `merklize` is correct: for a non-empty list of items it returns one path for each item, the
batch root of their hashes, and for each item a path of at most `⌈log₂ n⌉` steps from its hash to
that root. -/
theorem merklize_correct {α : Type} (hashBorsh : α → MerkleHash) (items : List α) (nonempty : items ≠ []) :
    (merklize hashBytes hashBorsh items).2.length = items.length ∧
      (merklize hashBytes hashBorsh items).1 =
        MerkleRoot.root (combineHash hashBytes) CryptoHash.default (items.map hashBorsh) ∧
      ∀ i (inside : i < items.length), ∃ path, (merklize hashBytes hashBorsh items).2[i]? = some path ∧
        computeRootFromPath hashBytes path (hashBorsh items[i]) = (merklize hashBytes hashBorsh items).1 ∧
        path.length ≤ Nat.clog 2 items.length := by
  have positive : 0 < items.length := List.length_pos_iff.mpr nonempty
  unfold merklize
  rw [if_neg nonempty]
  dsimp only
  by_cases one : MerkleRoot.nextPowerOfTwo items.length = 1
  · -- a single item is its own root, with an empty path
    rw [if_pos one]
    have single : items.length = 1 := by
      have := Nat.le_pow_clog (b := 2) (by decide) items.length
      rw [MerkleRoot.nextPowerOfTwo] at one
      omega
    obtain ⟨item, rfl⟩ := List.length_eq_one_iff.mp single
    refine ⟨rfl, by simp, fun i inside => ?_⟩
    obtain rfl : i = 0 := by simpa using inside
    exact ⟨[], rfl, by simp, by simp⟩
  · rw [if_neg one]
    dsimp only
    have two : 2 ≤ (items.map hashBorsh).length := by
      have : items.length ≠ 1 := fun single => one (by rw [single]; rfl)
      rw [List.length_map]
      omega
    have start := LevelInv.initial hashBytes two
    rw [List.length_map] at start
    obtain ⟨top, arrLen, final⟩ := merklizeLoop_spec hashBytes _ 0 _ _ _ start
    rw [Nat.pow_zero, List.length_map] at final
    have mapped : items.map hashBorsh ≠ [] := by simpa using nonempty
    obtain ⟨root, paths⟩ := final.top hashBytes mapped
    refine ⟨by rw [final.pathsLength, List.length_map], root, fun i inside => ?_⟩
    obtain ⟨path, stored, reaches, short⟩ := paths i (by simpa using inside)
    rw [List.getElem_map] at reaches
    rw [List.length_map] at short
    exact ⟨path, stored, reaches.trans root.symm, short⟩

/-- Three items, hashed by any functions. -/
theorem merklize_correct_threeItems :
    ([1, 2, 3] : List Nat) ≠ [] ∧
      (merklize (fun _ => CryptoHash.default) (fun _ => CryptoHash.default) [1, 2, 3]).2.length = 3 ∧
      (merklize (fun _ => CryptoHash.default) (fun _ => CryptoHash.default) [1, 2, 3]).1 =
        MerkleRoot.root (combineHash fun _ => CryptoHash.default) CryptoHash.default
          (([1, 2, 3] : List Nat).map fun _ => CryptoHash.default) ∧
      ∀ i (inside : i < ([1, 2, 3] : List Nat).length), ∃ path,
        (merklize (fun _ => CryptoHash.default) (fun _ => CryptoHash.default) [1, 2, 3]).2[i]? = some path ∧
        computeRootFromPath (fun _ => CryptoHash.default) path
            ((fun (_ : Nat) => CryptoHash.default) ([1, 2, 3] : List Nat)[i]) =
          (merklize (fun _ => CryptoHash.default) (fun _ => CryptoHash.default) [1, 2, 3]).1 ∧
        path.length ≤ Nat.clog 2 3 :=
  ⟨by decide, merklize_correct (fun _ => CryptoHash.default) (fun _ => CryptoHash.default) [1, 2, 3] (by decide)⟩

end Hashing

end Nearcore
