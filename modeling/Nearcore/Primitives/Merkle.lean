import Nearcore.Library.MerkleRoot
import Nearcore.Primitives.TrieKey

/-! Merkle trees of `core/primitives/src/merkle.rs`. The hash is a parameter: `hashBytes` stands
for sha256 of a byte string, and `combine_hash` hashes the borsh bytes of the pair, the bytes of the
two hashes one after the other. The size of a `PartialMerkleTree` counts its insertions in a `u64`;
here it is a natural number, as no run reaches `2 ^ 64` insertions. -/
namespace Nearcore

abbrev MerkleHash := CryptoHash

inductive Direction
  | left
  | right
  deriving DecidableEq, Repr

structure MerklePathItem where
  hash : MerkleHash
  direction : Direction
  deriving DecidableEq, Repr

abbrev MerklePath := List MerklePathItem

/-- `CryptoHash::default()`. -/
def CryptoHash.default : CryptoHash := Vector.replicate 32 0

section
attribute [local simp] CryptoHash.default
end

section Hashing

variable (hashBytes : List UInt8 → CryptoHash)

/-- `combine_hash`. -/
def combineHash (hash1 hash2 : MerkleHash) : MerkleHash := hashBytes (hash1.toList ++ hash2.toList)

section
attribute [local simp] combineHash
end

/-- `compute_root_from_path`. -/
def computeRootFromPath (path : MerklePath) (itemHash : MerkleHash) : MerkleHash :=
  path.foldl (fun res item =>
    match item.direction with
    | .left => combineHash hashBytes item.hash res
    | .right => combineHash hashBytes res item.hash) itemHash

@[simp] theorem computeRootFromPath_nil (itemHash : MerkleHash) :
    computeRootFromPath hashBytes [] itemHash = itemHash := rfl

@[simp] theorem computeRootFromPath_append (path more : MerklePath) (itemHash : MerkleHash) :
    computeRootFromPath hashBytes (path ++ more) itemHash =
      computeRootFromPath hashBytes more (computeRootFromPath hashBytes path itemHash) :=
  List.foldl_append

@[simp] theorem computeRootFromPath_left (hash itemHash : MerkleHash) :
    computeRootFromPath hashBytes [⟨hash, .left⟩] itemHash = combineHash hashBytes hash itemHash := rfl

@[simp] theorem computeRootFromPath_right (hash itemHash : MerkleHash) :
    computeRootFromPath hashBytes [⟨hash, .right⟩] itemHash = combineHash hashBytes itemHash hash := rfl

/-- `verify_hash`. -/
def verifyHash (root : MerkleHash) (path : MerklePath) (itemHash : MerkleHash) : Bool :=
  computeRootFromPath hashBytes path itemHash == root

/-- The merkle tree that keeps only the path of the next leaf. -/
structure PartialMerkleTree where
  path : List MerkleHash
  size : Nat
  deriving DecidableEq, Repr

namespace PartialMerkleTree

/-- `PartialMerkleTree::default()`. -/
protected def default : PartialMerkleTree := ⟨[], 0⟩

section
attribute [local simp] default
end

/-- `u64::count_ones`. -/
def countOnes (n : Nat) : Nat := n.bitIndices.length

section
attribute [local simp] countOnes
end

def isWellFormed (tree : PartialMerkleTree) : Bool := tree.path.length == countOnes tree.size

section
attribute [local simp] isWellFormed
end

def root (tree : PartialMerkleTree) : MerkleHash :=
  match tree.path.getLast? with
  | none => CryptoHash.default
  | some last => tree.path.dropLast.foldr (combineHash hashBytes) last

section
attribute [local simp] root
end

/-- The loop of `insert`: while the count is odd, the last hash of the path is popped and combined
with the node carried up; `none` is the panic of `pop().unwrap()` on an empty path. -/
def insertLoop (s : Nat) (path : List MerkleHash) (node : MerkleHash) : Option (List MerkleHash) :=
  if s % 2 = 1 then
    match path.getLast? with
    | none => none
    | some lastPathElem => insertLoop (s / 2) path.dropLast (combineHash hashBytes lastPathElem node)
  else some (path ++ [node])
termination_by s
decreasing_by omega

section
attribute [local simp] insertLoop
end

def insert (tree : PartialMerkleTree) (elem : MerkleHash) : Option PartialMerkleTree :=
  (insertLoop hashBytes tree.size tree.path elem).map fun path => ⟨path, tree.size + 1⟩

section
attribute [local simp] insert
end

/-- `u64::trailing_zeros` of a non-zero index: the exponent of two in it. -/
def trailingZeros (index : Nat) : Nat := padicValNat 2 index

section
attribute [local simp] trailingZeros
end

/-- The loop of `iter_path_from_bottom` over the path from its end, with the calls it makes. -/
def iterPathFromBottomLoop : List MerkleHash → Nat → Nat → List (MerkleHash × Nat)
  | [], _, _ => []
  | node :: nodes, level, index =>
    if index = 0 then []
    else
      (node, level + trailingZeros index) ::
        iterPathFromBottomLoop nodes (level + trailingZeros index) (index >>> trailingZeros index - 1)

section
attribute [local simp] iterPathFromBottomLoop
end

/-- `iter_path_from_bottom`: the hashes and levels that `f` is called with, in order. -/
def iterPathFromBottom (tree : PartialMerkleTree) : List (MerkleHash × Nat) :=
  iterPathFromBottomLoop tree.path.reverse 0 tree.size

section
attribute [local simp] iterPathFromBottom
end

/-- The tree of the leaves as a frontier: what inserting them one by one should give. -/
def ofLeaves (leaves : List MerkleHash) : PartialMerkleTree :=
  ⟨MerkleRoot.frontier (combineHash hashBytes) CryptoHash.default leaves, leaves.length⟩

section
attribute [local simp] ofLeaves
end

/-- The carry loop of `insert`, at the level of the perfect subtree it carries: by strong induction
on the count, every pop takes the root of the block of equal size just before the carried one. -/
theorem insertLoop_frontier : ∀ (s level : Nat) (leaves carried : List MerkleHash),
    leaves.length = s * 2 ^ level → carried.length = 2 ^ level →
    insertLoop hashBytes s (MerkleRoot.frontier (combineHash hashBytes) CryptoHash.default leaves)
        (MerkleRoot.root (combineHash hashBytes) CryptoHash.default carried) =
      some (MerkleRoot.frontier (combineHash hashBytes) CryptoHash.default (leaves ++ carried)) := by
  intro s
  induction s using Nat.strong_induction_on with
  | _ s ih =>
    intro level leaves carried count perfect
    rw [insertLoop]
    by_cases odd : s % 2 = 1
    · -- the last root of the path is that of the `2 ^ level` leaves before the carried ones
      rw [if_pos odd]
      obtain ⟨t, rfl⟩ : ∃ t, s = 2 * t + 1 := ⟨s / 2, by omega⟩
      have half : (2 * t + 1) / 2 = t := by omega
      have whole : t * 2 ^ (level + 1) + 2 ^ level = leaves.length := by
        rw [count, Nat.pow_succ]
        ring
      have frontLength : (leaves.take (t * 2 ^ (level + 1))).length = t * 2 ^ (level + 1) :=
        List.length_take_of_le (by omega)
      have backLength : (leaves.drop (t * 2 ^ (level + 1))).length = 2 ^ level := by
        rw [List.length_drop]
        omega
      have path := MerkleRoot.frontier_append_of_dvd (combineHash hashBytes) CryptoHash.default
        backLength _ _ rfl (frontLength ▸ Nat.dvd_mul_left _ t)
      rw [List.take_append_drop] at path
      have merged := MerkleRoot.root_append (combineHash hashBytes) CryptoHash.default backLength
        (by rw [perfect]; exact Nat.two_pow_pos level) (by rw [perfect])
      rw [path, List.getLast?_concat, List.dropLast_concat, half]
      dsimp only
      rw [← merged, ih t (by omega) (level + 1) _ _ frontLength
          (by rw [List.length_append, backLength, perfect, Nat.pow_succ, Nat.mul_two]),
        ← List.append_assoc, List.take_append_drop]
    · -- the carried subtree starts a new entry of the path
      rw [if_neg odd]
      obtain ⟨t, rfl⟩ : ∃ t, s = 2 * t := ⟨s / 2, by omega⟩
      have whole : 2 ^ (level + 1) ∣ leaves.length := ⟨t, by rw [count, Nat.pow_succ]; ring⟩
      rw [MerkleRoot.frontier_append_of_dvd (combineHash hashBytes) CryptoHash.default perfect _ _ rfl
        whole]

theorem insert_ofLeaves (leaves : List MerkleHash) (elem : MerkleHash) :
    (ofLeaves hashBytes leaves).insert hashBytes elem = some (ofLeaves hashBytes (leaves ++ [elem])) := by
  have carried := insertLoop_frontier hashBytes leaves.length 0 leaves [elem] (by simp) (by simp)
  rw [MerkleRoot.root_singleton] at carried
  simp [insert, ofLeaves, carried]

/-- Inserting more hashes one by one extends the leaves of the frontier. -/
theorem foldlM_insert (more : List MerkleHash) : ∀ leaves : List MerkleHash,
    more.foldlM (insert hashBytes) (ofLeaves hashBytes leaves) = some (ofLeaves hashBytes (leaves ++ more)) := by
  induction more with
  | nil => intro leaves; simp
  | cons elem more ih =>
    intro leaves
    rw [List.foldlM_cons, insert_ofLeaves, Option.bind_eq_bind, Option.bind_some, ih,
      List.append_assoc, List.singleton_append]

theorem isWellFormed_ofLeaves (leaves : List MerkleHash) : (ofLeaves hashBytes leaves).isWellFormed = true := by
  simp [isWellFormed, ofLeaves, countOnes, MerkleRoot.length_frontier]

/-- The root of the tree is the batch root of its leaves. -/
theorem root_ofLeaves (leaves : List MerkleHash) :
    (ofLeaves hashBytes leaves).root hashBytes = MerkleRoot.root (combineHash hashBytes) CryptoHash.default leaves := by
  rw [← MerkleRoot.foldRoot_frontier _ _ _ leaves rfl, root, ofLeaves]
  dsimp only
  rcases List.eq_nil_or_concat (MerkleRoot.frontier (combineHash hashBytes) CryptoHash.default leaves) with
    empty | ⟨nodes, last, path⟩
  · rw [empty]
    rfl
  · rw [path, List.concat_eq_append, List.getLast?_concat, List.dropLast_concat,
      MerkleRoot.foldRoot_append_singleton]

/-- An index is its trailing zeros above an odd number. -/
theorem exists_odd_shiftRight_trailingZeros {index : Nat} (nonzero : index ≠ 0) :
    ∃ m, index >>> trailingZeros index = 2 * m + 1 ∧ index = 2 ^ trailingZeros index * (2 * m + 1) := by
  have factor := Nat.pow_padicValNat_mul_divMaxPow 2 index
  have odd := Nat.not_dvd_divMaxPow (p := 2) (by decide) nonzero
  unfold trailingZeros
  generalize padicValNat 2 index = zeros at factor ⊢
  generalize index.divMaxPow 2 = rest at factor odd
  subst factor
  refine ⟨rest / 2, ?_, ?_⟩
  · rw [Nat.shiftRight_eq_div_pow, Nat.mul_div_cancel_left _ (Nat.two_pow_pos _)]
    omega
  · congr 1
    omega

/-- The loop of `iter_path_from_bottom`: each node of the reversed path is called with the next
set bit of the size, by induction on the nodes, each step clearing the lowest bit. -/
theorem iterPathFromBottomLoop_eq : ∀ (nodes : List MerkleHash) (level index : Nat),
    nodes.length = index.bitIndices.length →
    iterPathFromBottomLoop nodes level index = nodes.zip (index.bitIndices.map (· + level))
  | [], _, _, _ => by simp [iterPathFromBottomLoop]
  | node :: nodes, level, index, count => by
    have nonzero : index ≠ 0 := by
      rintro rfl
      simp at count
    obtain ⟨m, shifted, factor⟩ := exists_odd_shiftRight_trailingZeros nonzero
    rw [iterPathFromBottomLoop, if_neg nonzero, shifted, Nat.add_sub_cancel]
    generalize trailingZeros index = zeros at shifted factor ⊢
    subst factor
    -- the bits above the lowest one, shifted down to it
    have bits : (2 ^ zeros * (2 * m + 1)).bitIndices = zeros :: m.bitIndices.map (· + 1 + zeros) := by
      rw [Nat.bitIndices_two_pow_mul, Nat.bitIndices_two_mul_add_one]
      simp [List.map_map, Function.comp_def]
    have rest : nodes.length = (2 * m).bitIndices.length := by
      rw [bits] at count
      simpa using count
    rw [iterPathFromBottomLoop_eq nodes _ _ rest, bits, Nat.bitIndices_two_mul]
    simp only [List.map_cons, List.zip_cons_cons, List.map_map, Function.comp_def]
    congr 2
    · omega
    · apply List.map_congr_left
      intro i _
      omega

theorem iterPathFromBottom_ofLeaves (leaves : List MerkleHash) :
    (ofLeaves hashBytes leaves).iterPathFromBottom = leaves.length.bitIndices.map fun level =>
      (MerkleRoot.root (combineHash hashBytes) CryptoHash.default
        (MerkleRoot.block leaves level (leaves.length / 2 ^ level - 1)), level) := by
  rw [iterPathFromBottom, iterPathFromBottomLoop_eq _ _ _
    (by simp [ofLeaves, MerkleRoot.length_frontier]), ofLeaves]
  dsimp only
  rw [MerkleRoot.frontier, List.map_reverse, List.reverse_reverse, List.zip_map']
  simp

end PartialMerkleTree

/-- The incremental tree matches the batch tree: inserting the hashes one by one into the default
tree never panics and gives a well-formed tree whose root is the batch root, and whose path from
the bottom visits the perfect subtree of each set bit of the number of hashes, the lowest first,
at that bit's level. -/
theorem partialMerkleTree_matches_batch (hashes : List MerkleHash) :
    ∃ tree, hashes.foldlM (PartialMerkleTree.insert hashBytes) PartialMerkleTree.default = some tree ∧
      tree.isWellFormed = true ∧
      tree.root hashBytes = MerkleRoot.root (combineHash hashBytes) CryptoHash.default hashes ∧
      tree.iterPathFromBottom = hashes.length.bitIndices.map (fun level =>
        (MerkleRoot.root (combineHash hashBytes) CryptoHash.default
          (MerkleRoot.block hashes level (hashes.length / 2 ^ level - 1)), level)) ∧
      ∀ level ∈ hashes.length.bitIndices,
        (MerkleRoot.block hashes level (hashes.length / 2 ^ level - 1)).length = 2 ^ level := by
  have run := PartialMerkleTree.foldlM_insert hashBytes hashes []
  rw [List.nil_append] at run
  exact ⟨_, run, PartialMerkleTree.isWellFormed_ofLeaves hashBytes hashes,
    PartialMerkleTree.root_ofLeaves hashBytes hashes, PartialMerkleTree.iterPathFromBottom_ofLeaves hashBytes hashes,
    fun _ member => MerkleRoot.length_block_of_mem_bitIndices member⟩

end Hashing

end Nearcore
