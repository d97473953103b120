import Nearcore.Trie.Update

/-! `generic_insert` (`core/store/src/trie/ops/insert_delete.rs`): the descent loop that
splits, converts and descends nodes, then the fix-up that adds each child's memory usage to
its parent along the path. `NodeTree.insert` says what one run of the loop does to the tree
the current node stands for, case by case as the loop. -/
namespace Nearcore

variable {σ N V : Type} [HasValueLength V] (backend : Backend σ N V)

/-- The loop of `generic_insert`. `path` holds the nodes above `nodeId`; the loop returns
the path down to the node where the value went. -/
def insertLoop (value : GenericTrieValue) :
    Nat → Nat → NibbleSlice → List Nat → UpdateM σ N V (List Nat)
  | 0, _, _, _ => throw .fuelExhausted
  | fuel + 1, nodeId, partialKey, path => do
    let path := path ++ [nodeId]
    let ⟨node, memoryUsage⟩ ← takeNode nodeId
    let childrenMemoryUsage := memoryUsage - node.memoryUsageDirect
    match node with
    | .empty =>
      let valueHandle ← storeValue backend value
      let node : GenericUpdatedTrieNode N V := .leaf (partialKey.encoded true) valueHandle
      placeNodeAt nodeId ⟨node, node.memoryUsageDirect⟩
      pure path
    | .branch children oldValue =>
      if partialKey.isEmpty then
        if let some oldValue := oldValue then
          deleteValue backend oldValue
        let valueHandle ← storeValue backend value
        let node : GenericUpdatedTrieNode N V := .branch children (some valueHandle)
        placeNodeAt nodeId ⟨node, childrenMemoryUsage + node.memoryUsageDirect⟩
        pure path
      else
        let idx := partialKey.atIndex 0
        let newNodeId ← match children.get idx with
          | some child => ensureUpdated backend child
          | none => placeNode .empty
        calcMemoryUsageAndStore nodeId childrenMemoryUsage
          (.branch (children.set idx (some (.updated newNodeId)) (NibbleSlice.index_lt idx)) oldValue)
          (some newNodeId)
        insertLoop value fuel newNodeId (partialKey.mid 1) path
    | .leaf ext oldValue =>
      let existingKey := (NibbleSlice.fromEncoded ext).1
      let commonPrefix := partialKey.commonPrefix existingKey
      if commonPrefix = existingKey.len ∧ commonPrefix = partialKey.len then
        deleteValue backend oldValue
        let valueHandle ← storeValue backend value
        let node : GenericUpdatedTrieNode N V := .leaf ext valueHandle
        placeNodeAt nodeId ⟨node, node.memoryUsageDirect⟩
        pure path
      else if commonPrefix = 0 then
        -- Convert the leaf to an equivalent branch; the next iteration adds the value.
        let (branchNode, childrenMemoryUsage) ←
          if existingKey.isEmpty then
            pure ((.branch noChildren (some oldValue) : GenericUpdatedTrieNode N V), 0)
          else do
            let branchIdx := existingKey.atIndex 0
            let newNode : GenericUpdatedTrieNode N V :=
              .leaf ((existingKey.mid 1).encoded true) oldValue
            let memoryUsage := newNode.memoryUsageDirect
            let newNodeId ← placeNode ⟨newNode, memoryUsage⟩
            pure (.branch (noChildren.set branchIdx (some (.updated newNodeId))) none, memoryUsage)
        placeNodeAt nodeId ⟨branchNode, branchNode.memoryUsageDirect + childrenMemoryUsage⟩
        insertLoop value fuel nodeId partialKey path.dropLast
      else
        -- Split the leaf into an extension and a leaf, and descend into the leaf.
        let leafNode : GenericUpdatedTrieNode N V :=
          .leaf ((existingKey.mid commonPrefix).encoded true) oldValue
        let leafMemoryUsage := leafNode.memoryUsageDirect
        let leafNodeId ← placeNode ⟨leafNode, leafMemoryUsage⟩
        let extensionNode : GenericUpdatedTrieNode N V :=
          .extension (partialKey.encodedLeftmost commonPrefix false) (.updated leafNodeId)
        placeNodeAt nodeId ⟨extensionNode, extensionNode.memoryUsageDirect⟩
        insertLoop value fuel leafNodeId (partialKey.mid commonPrefix) path
    | .extension ext oldChild =>
      let existingKey := (NibbleSlice.fromEncoded ext).1
      let commonPrefix := partialKey.commonPrefix existingKey
      if commonPrefix = 0 then
        -- Split the extension into a branch and start over from the same node.
        let idx := existingKey.atIndex 0
        let (child, childMemoryUsage) ←
          if existingKey.len = 1 then pure (oldChild, childrenMemoryUsage)
          else do
            let innerChildNode : GenericUpdatedTrieNode N V :=
              .extension ((existingKey.mid 1).encoded false) oldChild
            let childMemoryUsage := childrenMemoryUsage + innerChildNode.memoryUsageDirect
            let innerChild ← placeNode ⟨innerChildNode, childMemoryUsage⟩
            pure (.updated innerChild, childMemoryUsage)
        let branchNode : GenericUpdatedTrieNode N V := .branch (noChildren.set idx (some child)) none
        placeNodeAt nodeId ⟨branchNode, branchNode.memoryUsageDirect + childMemoryUsage⟩
        insertLoop value fuel nodeId partialKey path.dropLast
      else if commonPrefix = existingKey.len then
        let childId ← ensureUpdated backend oldChild
        let node : GenericUpdatedTrieNode N V := .extension ext (.updated childId)
        placeNodeAt nodeId ⟨node, node.memoryUsageDirect⟩
        insertLoop value fuel childId (partialKey.mid commonPrefix) path
      else
        -- Shorten the extension and descend; the next iteration creates the branch.
        let innerChildNode : GenericUpdatedTrieNode N V :=
          .extension ((existingKey.mid commonPrefix).encoded false) oldChild
        let innerChildMemoryUsage := childrenMemoryUsage + innerChildNode.memoryUsageDirect
        let innerChildNodeId ← placeNode ⟨innerChildNode, innerChildMemoryUsage⟩
        let childNode : GenericUpdatedTrieNode N V :=
          .extension (existingKey.encodedLeftmost commonPrefix false) (.updated innerChildNodeId)
        placeNodeAt nodeId ⟨childNode, childNode.memoryUsageDirect⟩
        insertLoop value fuel innerChildNodeId (partialKey.mid commonPrefix) path

section
attribute [local simp] insertLoop
end

/-- The fix-up after the loop, over the path read bottom-up: each node gets the memory
usage of the child below it added. -/
def fixMemoryUsages : List Nat → UpdateM σ N V Unit
  | childId :: nodeId :: rest => do
    let childMemoryUsage := (← getNodeRef childId).memoryUsage
    let node ← takeNode nodeId
    placeNodeAt nodeId { node with memoryUsage := node.memoryUsage + childMemoryUsage }
    fixMemoryUsages (nodeId :: rest)
  | _ => pure ()

section
attribute [local simp] fixMemoryUsages
end

/-- `generic_insert`. The loop is bounded by twice the key's nibble count plus two
iterations: each iteration consumes a nibble or turns a leaf or extension into a branch. -/
def genericInsert (nodeId : Nat) (key : List UInt8) (value : GenericTrieValue) :
    UpdateM σ N V Unit := do
  let partialKey := NibbleSlice.new key
  let path ← insertLoop backend value (2 * partialKey.len + 2) nodeId partialKey []
  fixMemoryUsages path.reverse

section
attribute [local simp] genericInsert
end

/-! What the loop does to trees. -/

namespace NodeTree

/-- Leaves and extensions are converted before the loop passes them. -/
def rank : NodeTree V → Nat
  | leaf .. => 1
  | extension .. => 1
  | _ => 0

section
attribute [local simp] rank
end

/-- The branch a leaf becomes when the inserted key shares no nibble with it. -/
def leafToBranch (ext : List UInt8) (oldValue : V) : NodeTree V :=
  let existingKey := (NibbleSlice.fromEncoded ext).1
  if existingKey.isEmpty then branch (fun _ => none) (some oldValue) (branchCost (some oldValue) + 0)
  else
    let newExt := (existingKey.mid 1).encoded true
    branch (Function.update (fun _ => none) (existingKey.atIndex 0)
        (leaf newExt oldValue (leafCost newExt oldValue)))
      Option.none (branchCost (Option.none : Option V) + leafCost newExt oldValue)

section
attribute [local simp] leafToBranch
end

/-- The branch an extension becomes when the inserted key shares no nibble with it. -/
def extensionToBranch (ext : List UInt8) (child : NodeTree V) (memoryUsage : Nat) : NodeTree V :=
  let existingKey := (NibbleSlice.fromEncoded ext).1
  let childrenMemoryUsage := memoryUsage - extensionCost ext
  let innerExt := (existingKey.mid 1).encoded false
  let (newChild, childMemoryUsage) :=
    if existingKey.len = 1 then (child, childrenMemoryUsage)
    else (extension innerExt child (childrenMemoryUsage + extensionCost innerExt),
      childrenMemoryUsage + extensionCost innerExt)
  branch (Function.update (fun _ => none) (existingKey.atIndex 0) newChild) Option.none
    (branchCost (Option.none : Option V) + childMemoryUsage)

section
attribute [local simp] extensionToBranch
end

theorem rank_leafToBranch (ext : List UInt8) (oldValue : V) : (leafToBranch ext oldValue).rank = 0 := by
  unfold leafToBranch
  dsimp only
  split <;> rfl

theorem rank_extensionToBranch (ext : List UInt8) (child : NodeTree V) (memoryUsage : Nat) :
    (extensionToBranch ext child memoryUsage).rank = 0 := rfl

omit [HasValueLength V] in
theorem rank_le_one (t : NodeTree V) : t.rank ≤ 1 := by
  cases t <;> simp [rank]

omit [HasValueLength V] in
theorem rank_orEmpty (t : NodeTree V) : t.orEmpty.rank = t.rank := by
  cases t <;> rfl

/-- Consuming at least one nibble outweighs descending into a leaf or an extension. -/
theorem descend_lt (partialKey : NibbleSlice) (k rank rank' : Nat) (consumed : k ≠ 0)
    (within : k ≤ partialKey.len) (small : rank ≤ 1) :
    2 * (partialKey.mid k).len + rank < 2 * partialKey.len + rank' := by
  simp only [NibbleSlice.len_eq, NibbleSlice.nibbles_mid, List.length_drop] at within ⊢
  omega

omit [HasValueLength V] in
theorem commonPrefix_le_len (partialKey existingKey : NibbleSlice) :
    partialKey.commonPrefix existingKey ≤ partialKey.len := by
  rw [NibbleSlice.commonPrefix_eq, NibbleSlice.len_eq]
  exact List.commonPrefixLength_le_left _ _

/-- What one run of the insertion loop makes of the tree `t` the current node stands for,
with the value stored under `handle`; the memory usages are those the code computes. -/
def insert (handle : V) (t : NodeTree V) (partialKey : NibbleSlice) : NodeTree V :=
  match t with
  | none | empty _ => leaf (partialKey.encoded true) handle (leafCost (partialKey.encoded true) handle)
  | branch ts oldValue memoryUsage =>
    let childrenMemoryUsage := memoryUsage - branchCost oldValue
    if partialKey.isEmpty then
      branch ts (some handle) (childrenMemoryUsage + branchCost (some handle))
    else
      let idx := partialKey.atIndex 0
      let child := (ts idx).orEmpty
      let newChild := insert handle child (partialKey.mid 1)
      branch (Function.update ts idx newChild) oldValue
        (saturatingAdd childrenMemoryUsage (branchCost oldValue) - child.memoryUsage +
          newChild.memoryUsage)
  | leaf ext oldValue _ =>
    let existingKey := (NibbleSlice.fromEncoded ext).1
    let commonPrefix := partialKey.commonPrefix existingKey
    if commonPrefix = existingKey.len ∧ commonPrefix = partialKey.len then
      leaf ext handle (leafCost ext handle)
    else if commonPrefix = 0 then
      insert handle (leafToBranch ext oldValue) partialKey
    else
      let leafExt := (existingKey.mid commonPrefix).encoded true
      let newChild := insert handle (leaf leafExt oldValue (leafCost leafExt oldValue))
        (partialKey.mid commonPrefix)
      let outerExt := partialKey.encodedLeftmost commonPrefix false
      extension outerExt newChild (extensionCost outerExt + newChild.memoryUsage)
  | extension ext child memoryUsage =>
    let existingKey := (NibbleSlice.fromEncoded ext).1
    let commonPrefix := partialKey.commonPrefix existingKey
    if commonPrefix = 0 then
      insert handle (extensionToBranch ext child memoryUsage) partialKey
    else if commonPrefix = existingKey.len then
      let newChild := insert handle child (partialKey.mid commonPrefix)
      extension ext newChild (extensionCost ext + newChild.memoryUsage)
    else
      let innerExt := (existingKey.mid commonPrefix).encoded false
      let newChild := insert handle
        (extension innerExt child (memoryUsage - extensionCost ext + extensionCost innerExt))
        (partialKey.mid commonPrefix)
      let outerExt := existingKey.encodedLeftmost commonPrefix false
      extension outerExt newChild (extensionCost outerExt + newChild.memoryUsage)
termination_by 2 * partialKey.len + t.rank
decreasing_by
  · apply descend_lt _ 1 _ _ Nat.one_ne_zero _ (rank_le_one _)
    simp only [NibbleSlice.isEmpty, beq_iff_eq] at *
    omega
  · rw [rank_leafToBranch]; simp [rank]
  · exact descend_lt _ _ _ _ ‹_› (commonPrefix_le_len _ _) (rank_le_one _)
  · rw [rank_extensionToBranch]; simp [rank]
  · exact descend_lt _ _ _ _ ‹_› (commonPrefix_le_len _ _) (rank_le_one _)
  · exact descend_lt _ _ _ _ ‹_› (commonPrefix_le_len _ _) (rank_le_one _)

section
attribute [local simp] insert
end

end NodeTree

end Nearcore
