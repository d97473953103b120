import Nearcore.Primitives.TrieKey

/-! Trie nodes as the generic update code sees them (`core/store/src/trie/ops/interface.rs`):
a node's children are either old nodes of the existing trie or indices into the vector of
updated nodes, and every node carries the memory usage of its subtree. -/
namespace Nearcore

/-- `ValueRef`: the length and hash of a value stored by reference. -/
structure ValueRef where
  length : UInt32
  hash : CryptoHash
  deriving DecidableEq, Repr

/-- `FlatStateValue`: a value held by reference or inlined. -/
inductive FlatStateValue where
  | ref (value : ValueRef)
  | inlined (value : List UInt8)
  deriving DecidableEq, Repr

/-- `GenericTrieValue`: the value an insertion writes. -/
inductive GenericTrieValue where
  | memtrieAndDisk (value : List UInt8)
  | memtrieOnly (value : FlatStateValue)
  deriving DecidableEq, Repr

/-- `HasValueLength`. -/
class HasValueLength (V : Type) where
  len : V → Nat

instance : HasValueLength FlatStateValue where
  len
    | .ref value => value.length.toNat
    | .inlined value => value.length

/-- `GenericNodeOrIndex`. -/
inductive GenericNodeOrIndex (N : Type) where
  | old (ptr : N)
  | updated (id : Nat)
  deriving DecidableEq, Repr

/-- `GenericTrieNode`; `Branch` stands for both branch kinds of the storage format. -/
inductive GenericTrieNode (P V : Type) where
  | empty
  | leaf (extension : List UInt8) (value : V)
  | extension (extension : List UInt8) (child : P)
  | branch (children : Vector (Option P) 16) (value : Option V)
  deriving DecidableEq, Repr

structure GenericTrieNodeWithSize (P V : Type) where
  node : GenericTrieNode P V
  memoryUsage : Nat
  deriving DecidableEq, Repr

abbrev GenericUpdatedTrieNode (N V : Type) := GenericTrieNode (GenericNodeOrIndex N) V

abbrev GenericUpdatedTrieNodeWithSize (N V : Type) :=
  GenericTrieNodeWithSize (GenericNodeOrIndex N) V

/-- `GenericUpdatedTrieNodeWithSize::empty`. -/
def GenericTrieNodeWithSize.empty {P V : Type} : GenericTrieNodeWithSize P V := ⟨.empty, 0⟩

section
attribute [local simp] GenericTrieNodeWithSize.empty
end

@[simp] theorem GenericTrieNodeWithSize.empty_eq {P V : Type} :
    (GenericTrieNodeWithSize.empty : GenericTrieNodeWithSize P V) = ⟨.empty, 0⟩ := rfl

/-- `Box::<[_; 16]>::default()`. -/
def noChildren {P : Type} : Vector (Option P) 16 := Vector.replicate 16 none

section
attribute [local simp] noChildren
end

@[simp] theorem getElem_noChildren {P : Type} (j : Nat) (inside : j < 16) :
    (noChildren : Vector (Option P) 16)[j] = none := by
  simp [noChildren]

structure TrieCosts where
  byteOfKey : Nat
  byteOfValue : Nat
  nodeCost : Nat

def trieCosts : TrieCosts := ⟨2, 1, 50⟩

/-- `memory_usage_value`. -/
def memoryUsageValue (valueLength : Nat) : Nat :=
  valueLength * trieCosts.byteOfValue + trieCosts.nodeCost

section Costs

variable {V : Type} [HasValueLength V]

/-- The arms of `memory_usage_direct`, one per node kind. -/
def leafCost (ext : List UInt8) (value : V) : Nat :=
  trieCosts.nodeCost + ext.length * trieCosts.byteOfKey + memoryUsageValue (HasValueLength.len value)

def extensionCost (ext : List UInt8) : Nat := trieCosts.nodeCost + ext.length * trieCosts.byteOfKey

def branchCost (value : Option V) : Nat :=
  trieCosts.nodeCost + value.elim 0 fun value => memoryUsageValue (HasValueLength.len value)

end Costs

namespace GenericTrieNode

variable {P V : Type}

/-- `From<GenericTrieNode>`: every child becomes an old node. -/
def toUpdated {N : Type} : GenericTrieNode N V → GenericUpdatedTrieNode N V
  | empty => empty
  | leaf ext value => leaf ext value
  | extension ext child => extension ext (.old child)
  | branch children value => branch (children.map (Option.map .old)) value

variable [HasValueLength V]

/-- `memory_usage_direct`: the cost of one node, its children excluded. -/
def memoryUsageDirect : GenericTrieNode P V → Nat
  | empty => 0
  | leaf ext value => leafCost ext value
  | branch _ value => branchCost value
  | extension ext _ => extensionCost ext

section
attribute [local simp] memoryUsageDirect
end

@[simp] theorem memoryUsageDirect_empty : (empty : GenericTrieNode P V).memoryUsageDirect = 0 := rfl

@[simp] theorem memoryUsageDirect_leaf (ext : List UInt8) (value : V) :
    (leaf ext value : GenericTrieNode P V).memoryUsageDirect = leafCost ext value := rfl

@[simp] theorem memoryUsageDirect_extension (ext : List UInt8) (child : P) :
    (extension ext child : GenericTrieNode P V).memoryUsageDirect = extensionCost ext := rfl

@[simp] theorem memoryUsageDirect_branch (children : Vector (Option P) 16) (value : Option V) :
    (branch children value).memoryUsageDirect = branchCost value := rfl

@[simp] theorem memoryUsageDirect_toUpdated {N : Type} (node : GenericTrieNode N V) :
    node.toUpdated.memoryUsageDirect = node.memoryUsageDirect := by
  cases node <;> rfl

end GenericTrieNode

def GenericTrieNodeWithSize.toUpdated {N V : Type} (node : GenericTrieNodeWithSize N V) :
    GenericUpdatedTrieNodeWithSize N V :=
  ⟨node.node.toUpdated, node.memoryUsage⟩

end Nearcore
