import Nearcore.Trie.Squash

/-! `generic_delete` (`core/store/src/trie/ops/insert_delete.rs`): the descent to the key,
then the pass back up the path that adds each child's memory usage to its parent and, when
the key was found, squashes every node on the way. `NodeTree.delete` says what this does to
the tree the current node stands for. -/
namespace Nearcore

variable {σ N V : Type} [HasValueLength V] (backend : Backend σ N V)

/-- The loop of `generic_delete`. It returns the path from the starting node down to the
node where the key was looked up, and `key_deleted`. -/
def deleteLoop : Nat → Nat → NibbleSlice → List Nat → UpdateM σ N V (List Nat × Bool)
  | 0, _, _, _ => throw .fuelExhausted
  | fuel + 1, nodeId, partialKey, path => do
    let path := path ++ [nodeId]
    let ⟨node, memoryUsage⟩ ← takeNode nodeId
    let childrenMemoryUsage := memoryUsage - node.memoryUsageDirect
    match node with
    | .empty =>
      placeNodeAt nodeId .empty
      pure (path, false)
    | .leaf extension value =>
      if (NibbleSlice.fromEncoded extension).1 == partialKey then
        deleteValue backend value
        placeNodeAt nodeId .empty
        pure (path, true)
      else
        placeNodeAt nodeId ⟨.leaf extension value, memoryUsage⟩
        pure (path, false)
    | .branch children value =>
      if partialKey.isEmpty then
        match value with
        | none =>
          placeNodeAt nodeId ⟨.branch children value, memoryUsage⟩
          pure (path, false)
        | some value =>
          deleteValue backend value
          calcMemoryUsageAndStore nodeId childrenMemoryUsage (.branch children none) none
          pure (path, true)
      else
        let idx := partialKey.atIndex 0
        match children.get idx with
        | none =>
          placeNodeAt nodeId ⟨.branch children value, memoryUsage⟩
          pure (path, false)
        | some oldChildId =>
          let newChildId ← ensureUpdated backend oldChildId
          calcMemoryUsageAndStore nodeId childrenMemoryUsage
            (.branch (children.set idx (some (.updated newChildId)) (NibbleSlice.index_lt idx)) value)
            (some newChildId)
          deleteLoop fuel newChildId (partialKey.mid 1) path
    | .extension extension child =>
      let extensionNibbles := (NibbleSlice.fromEncoded extension).1
      let commonPrefix := extensionNibbles.commonPrefix partialKey
      let existingLen := extensionNibbles.len
      if commonPrefix = existingLen then
        let newChildId ← ensureUpdated backend child
        calcMemoryUsageAndStore nodeId childrenMemoryUsage
          (.extension extension (.updated newChildId)) (some newChildId)
        deleteLoop fuel newChildId (partialKey.mid existingLen) path
      else
        placeNodeAt nodeId ⟨.extension extension child, memoryUsage⟩
        pure (path, false)

section
attribute [local simp] deleteLoop
end

/-- The pass after the loop, over the path read bottom-up: the node gets the memory usage
of the node below it added (`memory_usage += child_memory_usage`, a plain addition), and is
squashed if the key was deleted. -/
def squashPath (keyDeleted : Bool) : List Nat → Nat → UpdateM σ N V Unit
  | [], _ => pure ()
  | nodeId :: rest, childMemoryUsage => do
    let ⟨node, memoryUsage⟩ ← takeNode nodeId
    placeNodeAt nodeId ⟨node, memoryUsage + childMemoryUsage⟩
    if keyDeleted then squashNode backend nodeId
    let childMemoryUsage := (← getNodeRef nodeId).memoryUsage
    squashPath keyDeleted rest childMemoryUsage

section
attribute [local simp] squashPath
end

/-- `generic_delete`. Each iteration of the loop consumes a nibble or stops, as long as no
extension has an empty key, so the loop is bounded by the key's nibble count plus one. -/
def genericDelete (nodeId : Nat) (key : List UInt8) : UpdateM σ N V Unit := do
  let partialKey := NibbleSlice.new key
  let (path, keyDeleted) ← deleteLoop backend (partialKey.len + 1) nodeId partialKey []
  squashPath backend keyDeleted path.reverse 0

section
attribute [local simp] genericDelete
end

/-! What the deletion does to trees. -/

namespace NodeTree

def isNone : NodeTree V → Bool
  | none => true
  | _ => false

section
attribute [local simp] isNone
end

/-- A child that became empty is dropped from its branch. -/
def dropEmpty : NodeTree V → NodeTree V
  | empty _ => none
  | t => t

section
attribute [local simp] dropEmpty
end

/-- A branch's slot as the code holds it: missing, or a child. -/
def toOption : NodeTree V → Option (NodeTree V)
  | none => Option.none
  | t => some t

section
attribute [local simp] toOption
end

/-- `numChildren` on trees. -/
def countChildren (ts : Fin 16 → NodeTree V) : Nat :=
  (List.finRange 16).countP fun j => (ts j).toOption.isSome

section
attribute [local simp] countChildren
end

/-- `firstChild` on trees. -/
def firstChild (ts : Fin 16 → NodeTree V) : Option (Fin 16 × NodeTree V) :=
  (List.finRange 16).findSome? fun idx => (ts idx).toOption.map fun child => (idx, child)

section
attribute [local simp] firstChild
end

/-- `extend_child` on trees. -/
def extendChild (ext : List UInt8) : NodeTree V → NodeTree V
  | none => none
  | empty _ => empty 0
  | leaf childExt value _ =>
    let merged := (NibbleSlice.fromEncoded ext).1.mergeEncoded (NibbleSlice.fromEncoded childExt).1 true
    leaf merged value (leafCost merged value)
  | branch ts value memoryUsage =>
    extension ext (branch ts value memoryUsage) (memoryUsage + extensionCost ext)
  | extension childExt innerChild memoryUsage =>
    let merged :=
      (NibbleSlice.fromEncoded ext).1.mergeEncoded (NibbleSlice.fromEncoded childExt).1 false
    extension merged innerChild (extensionCost merged + (memoryUsage - extensionCost childExt))

section
attribute [local simp] extendChild
end

/-- `squash_node` on a branch. -/
def squashBranch (ts : Fin 16 → NodeTree V) (value : Option V) (memoryUsage : Nat) : NodeTree V :=
  let ts := fun j => (ts j).dropEmpty
  if countChildren ts = 0 then
    match value with
    | Option.none => empty 0
    | some value =>
      leaf ((NibbleSlice.new []).encoded true) value (leafCost ((NibbleSlice.new []).encoded true) value)
  else if countChildren ts = 1 ∧ value.isNone then
    match firstChild ts with
    | some (idx, child) =>
      extendChild ((NibbleSlice.new [UInt8.ofNat (idx.val <<< 4)]).encodedLeftmost 1 false) child
    | Option.none => none
  else branch ts value memoryUsage

section
attribute [local simp] squashBranch
end

/-- `squash_node` on trees. A leaf is never squashed, and `none` is not a node. -/
def squash : NodeTree V → NodeTree V
  | empty _ => empty 0
  | branch ts value memoryUsage => squashBranch ts value memoryUsage
  | extension ext child _ => extendChild ext child
  | t => t

section
attribute [local simp] squash
end

/-- What `generic_delete` makes of the tree the current node stands for, and whether the
key was there; the memory usages are those the code computes. -/
def delete : NodeTree V → NibbleSlice → NodeTree V × Bool
  | none, _ => (none, false)
  | empty _, _ => (empty 0, false)
  | leaf ext value memoryUsage, partialKey =>
    if (NibbleSlice.fromEncoded ext).1 == partialKey then (empty 0, true)
    else (leaf ext value memoryUsage, false)
  | branch ts value memoryUsage, partialKey =>
    let childrenMemoryUsage := memoryUsage - branchCost value
    if partialKey.isEmpty then
      match value with
      | Option.none => (branch ts value memoryUsage, false)
      | some _ =>
        (squashBranch ts Option.none
          (saturatingAdd childrenMemoryUsage (branchCost (Option.none : Option V))), true)
    else
      let idx := partialKey.atIndex 0
      if (ts idx).isNone then (branch ts value memoryUsage, false)
      else
        let (newChild, deleted) := delete (ts idx) (partialKey.mid 1)
        let memoryUsage := saturatingAdd childrenMemoryUsage (branchCost value) -
          (ts idx).memoryUsage + newChild.memoryUsage
        if deleted then (squashBranch (Function.update ts idx newChild) value memoryUsage, true)
        else (branch (Function.update ts idx newChild) value memoryUsage, false)
  | extension ext child memoryUsage, partialKey =>
    let extensionNibbles := (NibbleSlice.fromEncoded ext).1
    if extensionNibbles.commonPrefix partialKey = extensionNibbles.len then
      let (newChild, deleted) := delete child (partialKey.mid extensionNibbles.len)
      if deleted then (extendChild ext newChild, true)
      else
        (extension ext newChild (saturatingAdd (memoryUsage - extensionCost ext) (extensionCost ext) -
          child.memoryUsage + newChild.memoryUsage), false)
    else (extension ext child memoryUsage, false)

section
attribute [local simp] delete
end

end NodeTree

end Nearcore
