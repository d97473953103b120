import Nearcore.Mem.Update

/-! From updated nodes to arena nodes (`core/store/src/trie/mem/memtrie_update.rs`). A post-order
traversal from node 0 lists the updated nodes children first; each is hashed in that order,
an updated child by the hash computed before it, an old child by its view; and
`construct_root_from_changes` allocates one arena node per listed id, in the same order, its
children mapped to the arena ids allocated before it. -/
namespace Nearcore

/-- `MemTrieChanges`. -/
structure MemTrieChanges where
  nodeIdsWithHashes : List (Nat × CryptoHash)
  updatedNodes : UpdatedNodes Nat FlatStateValue

section Traverse

variable (nodes : UpdatedNodes Nat FlatStateValue)

/-- `updated_nodes[node_id].as_ref().unwrap()`. -/
def readUpdated (nodeId : Nat) : Except UpdateError (GenericUpdatedTrieNodeWithSize Nat FlatStateValue) :=
  match nodes[nodeId]? with
  | some (some node) => .ok node
  | _ => .error .panic

section
attribute [local simp] readUpdated
end

/-- The loop of `post_order_traverse_updated_nodes` over a branch's children: the subtree of
each updated child, in order. -/
def postOrderChildren (visit : Nat → Except UpdateError (List Nat)) :
    List (Option (GenericNodeOrIndex Nat)) → Except UpdateError (List Nat)
  | [] => .ok []
  | some (.updated child) :: rest => do
    let below ← visit child
    let others ← postOrderChildren visit rest
    pure (below ++ others)
  | _ :: rest => postOrderChildren visit rest

section
attribute [local simp] postOrderChildren
end

/-- `post_order_traverse_updated_nodes`, returning the ids it pushes. The recursion goes at
most `fuel` levels deep, where the source's has no bound. -/
def postOrderTraverse : Nat → Nat → Except UpdateError (List Nat)
  | 0, _ => .error .fuelExhausted
  | fuel + 1, nodeId => do
    let node ← readUpdated nodes nodeId
    match node.node with
    | .empty => if nodeId = 0 then .ok [] else .error .panic
    | .branch children _ => do
      let below ← postOrderChildren (postOrderTraverse fuel) children.toList
      pure (below ++ [nodeId])
    | .extension _ (.updated child) => do
      let below ← postOrderTraverse fuel child
      pure (below ++ [nodeId])
    | _ => .ok [nodeId]

section
attribute [local simp] postOrderTraverse
end

end Traverse

section Hashes

variable (hashing : Hashing) (arena : Arena)

/-- `get_hash`: an updated child's hash as computed so far, an old child's from its view. -/
def getHash (hashes : List CryptoHash) : GenericNodeOrIndex Nat → Except UpdateError CryptoHash
  | .updated nodeId =>
    match hashes[nodeId]? with
    | some hash => .ok hash
    | none => .error .panic
  | .old nodeId =>
    match arena.view nodeId with
    | some view => .ok (view.nodeHash hashing)
    | none => .error .panic

section
attribute [local simp] getHash
end

/-- The `RawTrieNodeWithSize` that `compute_hashes_and_serialized_nodes` hashes for an updated
node, with its stored memory usage. -/
def rawUpdatedNode (hashes : List CryptoHash) (node : GenericUpdatedTrieNodeWithSize Nat FlatStateValue) :
    Except UpdateError RawTrieNodeWithSize := do
  let raw ← match node.node with
    | .empty => .error .panic
    | .branch children value => do
      let childHashes ← children.mapM (Option.mapM (getHash hashing arena hashes))
      pure (RawTrieNode.branch childHashes (value.map (FlatStateValue.toValueRef hashing)))
    | .extension ext child => do
      let childHash ← getHash hashing arena hashes child
      pure (RawTrieNode.extension ext childHash)
    | .leaf ext value => pure (RawTrieNode.leaf ext (value.toValueRef hashing))
  pure ⟨raw, node.memoryUsage⟩

section
attribute [local simp] rawUpdatedNode
end

/-- One iteration of `compute_hashes_and_serialized_nodes`: the node's hash goes into the
hashes at its id, and the node with its hash into the output. -/
def hashStep (nodes : UpdatedNodes Nat FlatStateValue)
    (acc : List CryptoHash × List (Nat × CryptoHash × RawTrieNodeWithSize)) (nodeId : Nat) :
    Except UpdateError (List CryptoHash × List (Nat × CryptoHash × RawTrieNodeWithSize)) := do
  let node ← readUpdated nodes nodeId
  let raw ← rawUpdatedNode hashing arena acc.1 node
  let nodeHash := hashing.node raw
  pure (acc.1.set nodeId nodeHash, acc.2 ++ [(nodeId, nodeHash, raw)])

section
attribute [local simp] hashStep
end

/-- `compute_hashes_and_serialized_nodes`. The source writes each serialization into its
`result` vector and moves it out after the loop, in the order of `ordered_nodes`; the ids of
a post-order are distinct, so that is the list of what the iterations computed. -/
def computeHashesAndSerializedNodes (ordered : List Nat) (nodes : UpdatedNodes Nat FlatStateValue) :
    Except UpdateError (List (Nat × CryptoHash × RawTrieNodeWithSize)) := do
  let (_, computed) ← ordered.foldlM (hashStep hashing arena nodes) (List.replicate nodes.length default, [])
  pure computed

section
attribute [local simp] computeHashesAndSerializedNodes
end

/-- `to_memtrie_changes_internal`: the memtrie changes, and the new nodes with their hashes.
The traversal is given one level more than there are updated nodes. -/
def toMemtrieChangesInternal (nodes : UpdatedNodes Nat FlatStateValue) :
    Except UpdateError (MemTrieChanges × List (CryptoHash × RawTrieNodeWithSize)) := do
  let ordered ← postOrderTraverse nodes (nodes.length + 1) 0
  let computed ← computeHashesAndSerializedNodes hashing arena ordered nodes
  pure (⟨computed.map fun entry => (entry.1, entry.2.1), nodes⟩, computed.map fun entry => entry.2)

section
attribute [local simp] toMemtrieChangesInternal
end

/-- `to_memtrie_changes_only`. -/
def toMemtrieChangesOnly (nodes : UpdatedNodes Nat FlatStateValue) : Except UpdateError MemTrieChanges := do
  let (memtrieChanges, _) ← toMemtrieChangesInternal hashing arena nodes
  pure memtrieChanges

section
attribute [local simp] toMemtrieChangesOnly
end

end Hashes

section Construct

variable (hashing : Hashing)

/-- `map_to_new_node_id`. -/
def mapToNewNodeId (updatedToNew : Nat → Option Nat) : GenericNodeOrIndex Nat → Except UpdateError Nat
  | .updated nodeId =>
    match updatedToNew nodeId with
    | some memNodeId => .ok memNodeId
    | none => .error .panic
  | .old nodeId => .ok nodeId

section
attribute [local simp] mapToNewNodeId
end

/-- The `InputMemTrieNode` `construct_root_from_changes` builds for an updated node. -/
def toInputNode (updatedToNew : Nat → Option Nat) :
    GenericUpdatedTrieNode Nat FlatStateValue → Except UpdateError InputMemTrieNode
  | .empty => .error .panic
  | .branch children value => do
    let newChildren ← children.mapM (Option.mapM (mapToNewNodeId updatedToNew))
    pure (match value with
      | some value => .branchWithValue newChildren value
      | none => .branch newChildren)
  | .extension ext child => do
    let newChild ← mapToNewNodeId updatedToNew child
    pure (.extension ext newChild)
  | .leaf ext value => pure (.leaf value ext)

section
attribute [local simp] toInputNode
end

/-- The locals of `construct_root_from_changes`. -/
structure ConstructState where
  arena : Arena
  updatedToNew : Nat → Option Nat
  lastNodeId : Option Nat

/-- One iteration of `construct_root_from_changes`: `MemTrieNodeId::new_with_hash`. -/
def constructStep (nodes : UpdatedNodes Nat FlatStateValue) (state : ConstructState)
    (entry : Nat × CryptoHash) : Except UpdateError ConstructState := do
  let node ← readUpdated nodes entry.1
  let input ← toInputNode state.updatedToNew node.node
  let (memNodeId, arena) := state.arena.newImpl hashing input (some entry.2)
  pure ⟨arena, Function.update state.updatedToNew entry.1 (some memNodeId), some memNodeId⟩

section
attribute [local simp] constructStep
end

/-- `construct_root_from_changes`: the last node constructed is the root, none for an empty
trie. -/
def constructRootFromChanges (arena : Arena) (changes : MemTrieChanges) :
    Except UpdateError (Option Nat × Arena) := do
  let state ← changes.nodeIdsWithHashes.foldlM (constructStep hashing changes.updatedNodes)
    ⟨arena, fun _ => none, none⟩
  pure (state.lastNodeId, state.arena)

section
attribute [local simp] constructRootFromChanges
end

end Construct

end Nearcore
