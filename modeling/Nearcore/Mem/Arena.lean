import Nearcore.Trie.Node

/-! The in-memory trie's arena (`core/store/src/trie/mem/node`, `mem/arena`). A node is read
through `MemTrieNodeView`: the non-leaf kinds carry the memory usage and hash of their subtree
in a header, a leaf computes both from its contents. Nodes are reference counted: a new node
takes a reference to each of its children, and a node whose count drops to zero is freed and
drops its own references. Node ids are arena positions. The allocator's size classes are
merged into one free list, so a freed position is reused by the next allocation whatever its
size; the bytes of the encoding are not modelled. -/
namespace Nearcore

/-- `RawTrieNode`: a node as it is hashed and stored on disk, with children by hash. -/
inductive RawTrieNode where
  | leaf (extension : List UInt8) (value : ValueRef)
  | branchNoValue (children : Vector (Option CryptoHash) 16)
  | branchWithValue (value : ValueRef) (children : Vector (Option CryptoHash) 16)
  | extension (extension : List UInt8) (child : CryptoHash)
  deriving DecidableEq, Repr

/-- `RawTrieNode::branch`: the branch kind follows the value. -/
def RawTrieNode.branch (children : Vector (Option CryptoHash) 16) : Option ValueRef → RawTrieNode
  | none => .branchNoValue children
  | some value => .branchWithValue value children

structure RawTrieNodeWithSize where
  node : RawTrieNode
  memoryUsage : Nat
  deriving DecidableEq, Repr

/-- The two hashes the trie takes: `hash` of a value's bytes, and `RawTrieNodeWithSize::hash`,
the hash of a node's borsh serialization. SHA-256 and borsh are parameters. -/
structure Hashing where
  bytes : List UInt8 → CryptoHash
  node : RawTrieNodeWithSize → CryptoHash

/-- `ValueRef::new`: the length is cast to `u32`, keeping its low 32 bits. -/
def ValueRef.new (hashing : Hashing) (value : List UInt8) : ValueRef :=
  ⟨value.length.toUInt32, hashing.bytes value⟩

section
attribute [local simp] ValueRef.new
end

/-- `FlatStateValue::to_value_ref`. -/
def FlatStateValue.toValueRef (hashing : Hashing) : FlatStateValue → ValueRef
  | .ref value => value
  | .inlined value => ValueRef.new hashing value

/-- `INLINE_DISK_VALUE_THRESHOLD`. -/
def inlineDiskValueThreshold : Nat := 4000

/-- `FlatStateValue::on_disk`. -/
def FlatStateValue.onDisk (hashing : Hashing) (value : List UInt8) : FlatStateValue :=
  if value.length ≤ inlineDiskValueThreshold then .inlined value else .ref (ValueRef.new hashing value)

/-- `MemTrieNodeView`. Children are the arena ids of the child nodes. -/
inductive MemTrieNodeView where
  | leaf (extension : List UInt8) (value : FlatStateValue)
  | extension (hash : CryptoHash) (memoryUsage : Nat) (extension : List UInt8) (child : Nat)
  | branch (hash : CryptoHash) (memoryUsage : Nat) (children : Vector (Option Nat) 16)
  | branchWithValue (hash : CryptoHash) (memoryUsage : Nat) (children : Vector (Option Nat) 16)
      (value : FlatStateValue)
  deriving DecidableEq, Repr

namespace MemTrieNodeView

/-- `memory_usage`: a leaf's is computed, the others' is read from the header. -/
def memoryUsage : MemTrieNodeView → Nat
  | leaf ext value => leafCost ext value
  | extension _ memoryUsage _ _ => memoryUsage
  | branch _ memoryUsage _ => memoryUsage
  | branchWithValue _ memoryUsage _ _ => memoryUsage

section
attribute [local simp] memoryUsage
end

/-- `node_hash`: a leaf's is computed, the others' is read from the header. -/
def nodeHash (hashing : Hashing) : MemTrieNodeView → CryptoHash
  | leaf ext value => hashing.node ⟨.leaf ext (value.toValueRef hashing), leafCost ext value⟩
  | extension hash .. => hash
  | branch hash .. => hash
  | branchWithValue hash .. => hash

section
attribute [local simp] nodeHash
end

/-- `iter_children`. -/
def children : MemTrieNodeView → List Nat
  | leaf .. => []
  | extension _ _ _ child => [child]
  | branch _ _ children => children.toList.filterMap id
  | branchWithValue _ _ children _ => children.toList.filterMap id

section
attribute [local simp] children
end

/-- `MemTrieNode::from_existing_node_view` with the view's memory usage: the node the update
code works on. -/
def toNodeWithSize (view : MemTrieNodeView) : GenericTrieNodeWithSize Nat FlatStateValue :=
  match view with
  | leaf ext value => ⟨.leaf ext value, view.memoryUsage⟩
  | extension _ memoryUsage ext child => ⟨.extension ext child, memoryUsage⟩
  | branch _ memoryUsage children => ⟨.branch children none, memoryUsage⟩
  | branchWithValue _ memoryUsage children value => ⟨.branch children (some value), memoryUsage⟩

section
attribute [local simp] toNodeWithSize
end

end MemTrieNodeView

/-- An allocated arena node: its reference count and contents. -/
structure ArenaNode where
  refcount : Nat
  view : MemTrieNodeView
  deriving DecidableEq, Repr

/-- The arena: each position holds a node or is free; `freelist` lists the freed positions,
most recent first. -/
structure Arena where
  nodes : List (Option ArenaNode)
  freelist : List Nat
  activeAllocs : Nat
  deriving DecidableEq, Repr

namespace Arena

/-- `as_ptr(..).view()`. -/
def view (arena : Arena) (id : Nat) : Option MemTrieNodeView :=
  match arena.nodes[id]? with
  | some (some node) => some node.view
  | _ => none

section
attribute [local simp] view
end

/-- The existing trie as the update code reads it (`from_existing_node_view`). -/
def old (arena : Arena) (id : Nat) : Option (GenericTrieNodeWithSize Nat FlatStateValue) :=
  (arena.view id).map MemTrieNodeView.toNodeWithSize

section
attribute [local simp] old
end

/-- The memory usage of the node at `id`; ids handed to the arena are allocated. -/
def memoryUsageAt (arena : Arena) (id : Nat) : Nat :=
  (arena.view id).elim 0 MemTrieNodeView.memoryUsage

def hashAt (hashing : Hashing) (arena : Arena) (id : Nat) : CryptoHash :=
  (arena.view id).elim default (MemTrieNodeView.nodeHash hashing)

/-- `allocate`: the most recently freed position, or a new one. The count starts at zero. -/
def allocate (arena : Arena) (view : MemTrieNodeView) : Nat × Arena :=
  match arena.freelist with
  | pos :: rest =>
    (pos, ⟨arena.nodes.set pos (some ⟨0, view⟩), rest, arena.activeAllocs + 1⟩)
  | [] =>
    (arena.nodes.length, ⟨arena.nodes ++ [some ⟨0, view⟩], [], arena.activeAllocs + 1⟩)

section
attribute [local simp] allocate
end

/-- `deallocate`. -/
def deallocate (arena : Arena) (pos : Nat) : Arena :=
  ⟨arena.nodes.set pos none, pos :: arena.freelist, arena.activeAllocs - 1⟩

/-- `add_ref`. -/
def addRef (arena : Arena) (id : Nat) : Arena :=
  match arena.nodes[id]? with
  | some (some node) => { arena with nodes := arena.nodes.set id (some { node with refcount := node.refcount + 1 }) }
  | _ => arena

section
attribute [local simp] addRef
end

end Arena

/-- `InputMemTrieNode`. -/
inductive InputMemTrieNode where
  | leaf (value : FlatStateValue) (extension : List UInt8)
  | extension (extension : List UInt8) (child : Nat)
  | branch (children : Vector (Option Nat) 16)
  | branchWithValue (children : Vector (Option Nat) 16) (value : FlatStateValue)
  deriving DecidableEq, Repr

/-- The node an input stands for, as the update code reads it back. -/
def InputMemTrieNode.toNode : InputMemTrieNode → GenericTrieNode Nat FlatStateValue
  | .leaf value ext => .leaf ext value
  | .extension ext child => .extension ext child
  | .branch children => .branch children none
  | .branchWithValue children value => .branch children (some value)

namespace Arena

variable (hashing : Hashing)

/-- The memory usage of the present children, each read from its view. -/
def childrenMemoryUsage (arena : Arena) (children : Vector (Option Nat) 16) : Nat :=
  (children.toList.map fun child => child.elim 0 arena.memoryUsageAt).sum

def childrenHashes (arena : Arena) (children : Vector (Option Nat) 16) :
    Vector (Option CryptoHash) 16 :=
  children.map (Option.map (arena.hashAt hashing))

/-- `MemTrieNodeView::to_raw_trie_node_with_size`: the children by their views' hashes. -/
def rawNode (arena : Arena) : MemTrieNodeView → RawTrieNodeWithSize
  | .leaf ext value => ⟨.leaf ext (value.toValueRef hashing), leafCost ext value⟩
  | .extension _ memoryUsage ext child => ⟨.extension ext (arena.hashAt hashing child), memoryUsage⟩
  | .branch _ memoryUsage children => ⟨.branchNoValue (arena.childrenHashes hashing children), memoryUsage⟩
  | .branchWithValue _ memoryUsage children value =>
    ⟨.branchWithValue (value.toValueRef hashing) (arena.childrenHashes hashing children), memoryUsage⟩

/-! The arms of `to_raw_trie_node_with_size_non_leaf`; leaves need no header. -/

def rawExtension (arena : Arena) (extension : List UInt8) (child : Nat) : RawTrieNodeWithSize :=
  ⟨.extension extension (arena.hashAt hashing child),
    trieCosts.nodeCost + extension.length * trieCosts.byteOfKey + arena.memoryUsageAt child⟩

def rawBranch (arena : Arena) (children : Vector (Option Nat) 16) : RawTrieNodeWithSize :=
  ⟨.branchNoValue (arena.childrenHashes hashing children),
    trieCosts.nodeCost + arena.childrenMemoryUsage children⟩

def rawBranchWithValue (arena : Arena) (children : Vector (Option Nat) 16)
    (value : FlatStateValue) : RawTrieNodeWithSize :=
  ⟨.branchWithValue (value.toValueRef hashing) (arena.childrenHashes hashing children),
    trieCosts.nodeCost + HasValueLength.len value * trieCosts.byteOfValue + trieCosts.nodeCost +
      arena.childrenMemoryUsage children⟩

/-- The references a new node takes: one on each child. -/
def addChildRefs (arena : Arena) : InputMemTrieNode → Arena
  | .leaf .. => arena
  | .extension _ child => arena.addRef child
  | .branch children | .branchWithValue children _ =>
    children.toList.foldl (fun arena child => child.elim arena arena.addRef) arena

section
attribute [local simp] addChildRefs
end

/-- The view `new_impl` encodes: for a non-leaf, the header computed from the children's
views, with the given hash if there is one. -/
def encode (arena : Arena) (input : InputMemTrieNode) (nodeHash : Option CryptoHash) :
    MemTrieNodeView :=
  match input with
  | .leaf value extension => .leaf extension value
  | .extension extension child =>
    let raw := arena.rawExtension hashing extension child
    .extension (nodeHash.getD (hashing.node raw)) raw.memoryUsage extension child
  | .branch children =>
    let raw := arena.rawBranch hashing children
    .branch (nodeHash.getD (hashing.node raw)) raw.memoryUsage children
  | .branchWithValue children value =>
    let raw := arena.rawBranchWithValue hashing children value
    .branchWithValue (nodeHash.getD (hashing.node raw)) raw.memoryUsage children value

section
attribute [local simp] encode
end

/-- `MemTrieNodeId::new_impl`: take the children's references, encode, allocate. -/
def newImpl (arena : Arena) (input : InputMemTrieNode) (nodeHash : Option CryptoHash) :
    Nat × Arena :=
  let arena := arena.addChildRefs input
  arena.allocate (arena.encode hashing input nodeHash)

section
attribute [local simp] newImpl
end

/-- The encoded node reads back as the input, whatever its header. -/
@[simp] theorem encode_node (arena : Arena) (input : InputMemTrieNode) (nodeHash : Option CryptoHash) :
    (arena.encode hashing input nodeHash).toNodeWithSize.node = input.toNode := by
  cases input <;> rfl

end Arena

/-! The arena keeps the nodes it holds: taking references changes no view, and an allocation
writes only a free position. -/

namespace Arena

/-- The free list holds free positions, each once. -/
structure Valid (arena : Arena) : Prop where
  free : ∀ pos ∈ arena.freelist, arena.nodes[pos]? = some none
  nodup : arena.freelist.Nodup

/-- Every node `arena` holds, `arena'` holds with the same view. -/
def Extends (arena arena' : Arena) : Prop :=
  ∀ id view, arena.view id = some view → arena'.view id = some view

theorem Extends.refl (arena : Arena) : arena.Extends arena := fun _ _ => id

theorem Extends.trans {a b c : Arena} (first : a.Extends b) (second : b.Extends c) : a.Extends c :=
  fun id view held => second id view (first id view held)

/-- What the update code reads at an id is the node's view. -/
theorem view_of_old {arena : Arena} {id : Nat} {node : GenericTrieNodeWithSize Nat FlatStateValue}
    (read : arena.old id = some node) :
    ∃ view, arena.view id = some view ∧ view.toNodeWithSize = node := by
  simpa [old] using read

/-- What the update code reads of an arena, a larger arena reads the same. -/
theorem Extends.old {a b : Arena} (larger : a.Extends b) {id : Nat}
    {node : GenericTrieNodeWithSize Nat FlatStateValue} (read : a.old id = some node) :
    b.old id = some node := by
  obtain ⟨view, viewed, converted⟩ := view_of_old read
  simp [Arena.old, larger id view viewed, converted]

theorem view_eq_none_of_free {arena : Arena} {pos : Nat} (free : arena.nodes[pos]? = some none) :
    arena.view pos = none := by
  simp [view, free]

@[simp] theorem view_addRef (arena : Arena) (id target : Nat) :
    (arena.addRef id).view target = arena.view target := by
  unfold addRef
  split
  · next node held =>
    by_cases same : target = id
    · subst same
      have inside := (List.getElem?_eq_some_iff.mp held).1
      simp only [view, List.getElem?_set_self inside, held]
    · simp [view, List.getElem?_set_ne (Ne.symm same)]
  · rfl

theorem Valid.addRef {arena : Arena} (valid : arena.Valid) (id : Nat) : (arena.addRef id).Valid := by
  unfold Arena.addRef
  split
  · next node held =>
    refine ⟨fun pos member => ?_, valid.nodup⟩
    have free := valid.free pos member
    have other : id ≠ pos := by
      rintro rfl
      rw [held] at free
      cases free
    simpa [List.getElem?_set_ne other] using free
  · exact valid

@[simp] theorem view_addChildRefs (arena : Arena) (input : InputMemTrieNode) (target : Nat) :
    (arena.addChildRefs input).view target = arena.view target := by
  cases input with
  | leaf => rfl
  | extension => simp [addChildRefs]
  | branch children | branchWithValue children =>
    simp only [addChildRefs]
    induction children.toList generalizing arena with
    | nil => rfl
    | cons child rest ih => cases child <;> simp [ih]

theorem Valid.addChildRefs {arena : Arena} (valid : arena.Valid) (input : InputMemTrieNode) :
    (arena.addChildRefs input).Valid := by
  cases input with
  | leaf => exact valid
  | extension => exact valid.addRef _
  | branch children | branchWithValue children =>
    simp only [Arena.addChildRefs]
    induction children.toList generalizing arena with
    | nil => exact valid
    | cons child rest ih => cases child <;> simp only [List.foldl_cons, Option.elim] <;> exact ih (by first | exact valid | exact valid.addRef _)

variable {arena : Arena} (valid : arena.Valid) (view : MemTrieNodeView)
include valid

/-- The allocated position holds the new node. -/
theorem view_allocate : (arena.allocate view).2.view (arena.allocate view).1 = some view := by
  unfold allocate
  split
  · next pos rest listed =>
    have free := valid.free pos (by simp [listed])
    have inside : pos < arena.nodes.length := (List.getElem?_eq_some_iff.mp free).1
    simp [Arena.view, inside]
  · simp [Arena.view]

theorem extends_allocate : arena.Extends (arena.allocate view).2 := by
  intro id held viewed
  unfold allocate
  split
  · next pos rest listed =>
    have free := valid.free pos (by simp [listed])
    have other : pos ≠ id := by
      rintro rfl
      rw [view_eq_none_of_free free] at viewed
      cases viewed
    simpa [Arena.view, List.getElem?_set_ne other] using viewed
  · have inside : id < arena.nodes.length := by
      by_contra outside
      simp [Arena.view, List.getElem?_eq_none (Nat.le_of_not_lt outside)] at viewed
    simpa [Arena.view, List.getElem?_append_left inside] using viewed

theorem valid_allocate : (arena.allocate view).2.Valid := by
  unfold allocate
  split
  · next pos rest listed =>
    have distinct := valid.nodup
    rw [listed, List.nodup_cons] at distinct
    refine ⟨fun other member => ?_, distinct.2⟩
    have free := valid.free other (by simp [listed, member])
    have differ : pos ≠ other := fun same => distinct.1 (same ▸ member)
    simpa [List.getElem?_set_ne differ] using free
  · exact ⟨by simp, List.nodup_nil⟩

/-- `new_impl` into a valid arena: the arena stays valid and keeps every node, and the new id
holds the input. -/
theorem newImpl_spec (hashing : Hashing) (input : InputMemTrieNode) (nodeHash : Option CryptoHash) :
    (arena.newImpl hashing input nodeHash).2.Valid ∧ arena.Extends (arena.newImpl hashing input nodeHash).2 ∧
      ∃ memoryUsage, (arena.newImpl hashing input nodeHash).2.old (arena.newImpl hashing input nodeHash).1 =
        some ⟨input.toNode, memoryUsage⟩ := by
  have referenced := valid.addChildRefs input
  have kept : arena.Extends (arena.addChildRefs input) := fun id view held => by
    rwa [view_addChildRefs]
  refine ⟨valid_allocate referenced _, kept.trans (extends_allocate referenced _), ?_⟩
  refine ⟨((arena.addChildRefs input).encode hashing input nodeHash).toNodeWithSize.memoryUsage, ?_⟩
  simp only [newImpl, Arena.old, view_allocate referenced, Option.map_some]
  rw [← encode_node hashing (arena.addChildRefs input) input nodeHash]

end Arena

end Nearcore
