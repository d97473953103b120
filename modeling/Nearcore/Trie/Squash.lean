import Nearcore.Trie.Update

/-! `squash_node` and `extend_child` (`core/store/src/trie/ops/squash.rs`). After a deletion
each node on the path, bottom-up, is given the shape a trie built from scratch would have:
children that became empty are dropped, a branch left with one child and no value becomes
an extension, and an extension merges with a leaf or extension below it. -/
namespace Nearcore

/-- The child `squash_node` keeps when a branch is left with one: the first slot in use,
as `find_map` over `enumerate` finds it. -/
def firstChild {P : Type} (children : Vector (Option P) 16) : Option (Fin 16 × P) :=
  (List.finRange 16).findSome? fun idx => (children.get idx).map fun child => (idx, child)

section
attribute [local simp] firstChild
end

/-- `filter(|node| node.is_some()).count()`. -/
def numChildren {P : Type} (children : Vector (Option P) 16) : Nat :=
  children.toList.countP Option.isSome

section
attribute [local simp] numChildren
end

variable {σ N V : Type} [HasValueLength V] (backend : Backend σ N V)

/-- `extend_child`: an extension with key `extension` over `childId` put at `nodeId`, merged
with the child when the child is a leaf or an extension. The child's own slot is left
empty unless the child is a branch, which stays where it is. -/
def extendChild (nodeId : Nat) (extension : List UInt8) (childId : GenericNodeOrIndex N) :
    UpdateM σ N V Unit := do
  let childId ← ensureUpdated backend childId
  let ⟨node, memoryUsage⟩ ← takeNode childId
  let childChildMemoryUsage := memoryUsage - node.memoryUsageDirect
  match node with
  | .empty => placeNodeAt nodeId .empty
  | .leaf childExtension value =>
    let childExtension := (NibbleSlice.fromEncoded childExtension).1
    let extension := (NibbleSlice.fromEncoded extension).1.mergeEncoded childExtension true
    let node : GenericUpdatedTrieNode N V := .leaf extension value
    placeNodeAt nodeId ⟨node, node.memoryUsageDirect⟩
  | .branch children value =>
    placeNodeAt childId ⟨.branch children value, memoryUsage⟩
    let node : GenericUpdatedTrieNode N V := .extension extension (.updated childId)
    placeNodeAt nodeId ⟨node, memoryUsage + node.memoryUsageDirect⟩
  | .extension childExtension innerChild =>
    let childExtension := (NibbleSlice.fromEncoded childExtension).1
    let mergedExtension :=
      (NibbleSlice.fromEncoded extension).1.mergeEncoded childExtension false
    let node : GenericUpdatedTrieNode N V := .extension mergedExtension innerChild
    placeNodeAt nodeId ⟨node, node.memoryUsageDirect + childChildMemoryUsage⟩

section
attribute [local simp] extendChild
end

/-- The loop of `squash_node` over `children.iter_mut()` that drops updated children which
became empty, run over the first `count` slots. -/
def dropEmptyChildren : Nat → Vector (Option (GenericNodeOrIndex N)) 16 →
    UpdateM σ N V (Vector (Option (GenericNodeOrIndex N)) 16)
  | 0, children => pure children
  | count + 1, children => do
    let children ← dropEmptyChildren count children
    if inside : count < 16 then
      match children[count] with
      | some (.updated childNodeId) =>
        match (← getNodeRef childNodeId).node with
        | .empty => pure (children.set count none)
        | _ => pure children
      | _ => pure children
    else pure children

section
attribute [local simp] dropEmptyChildren
end

/-- `squash_node`. -/
def squashNode (nodeId : Nat) : UpdateM σ N V Unit := do
  let ⟨node, memoryUsage⟩ ← takeNode nodeId
  match node with
  | .empty => placeNodeAt nodeId .empty
  -- `unreachable!`: a deleted leaf has become empty before it is squashed
  | .leaf .. => throw .panic
  | .branch children value =>
    let children ← dropEmptyChildren 16 children
    if numChildren children = 0 then
      match value with
      | none => placeNodeAt nodeId .empty
      | some value =>
        let leafNode : GenericUpdatedTrieNode N V := .leaf ((NibbleSlice.new []).encoded true) value
        placeNodeAt nodeId ⟨leafNode, leafNode.memoryUsageDirect⟩
    else if numChildren children = 1 ∧ value.isNone then
      match firstChild children with
      | some (idx, child) =>
        let extension := (NibbleSlice.new [UInt8.ofNat (idx.val <<< 4)]).encodedLeftmost 1 false
        extendChild backend nodeId extension child
      -- the `unwrap` of `find_map`
      | none => throw .panic
    else placeNodeAt nodeId ⟨.branch children value, memoryUsage⟩
  | .extension extension child => extendChild backend nodeId extension child

section
attribute [local simp] squashNode
end

end Nearcore
