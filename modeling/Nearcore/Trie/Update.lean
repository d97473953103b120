import Nearcore.Trie.NodeTree
import Nearcore.Trie.NibbleSlice
import Nearcore.Library.Except

/-! The `GenericTrieUpdate` interface (`core/store/src/trie/ops/interface.rs`): a vector of
updated-node slots shared by both backends, and the three operations in which the memtrie
and the disk trie differ, taken as a `Backend` record. Each operation has one lemma that
says what it does to the state. -/
namespace Nearcore

/-- `StorageError`; the context of `MissingTrieValue` is left out. -/
inductive StorageError where
  | storageInternalError
  | missingTrieValue (hash : CryptoHash)
  | unexpectedTrieValue
  | storageInconsistentState (message : String)
  | flatStorageBlockNotSupported (message : String)
  | memTrieLoadingError (message : String)
  | flatStorageReshardingAlreadyInProgress
  deriving DecidableEq, Repr

/-- How the update code fails: with a storage error, or with a panic (an `unwrap`, an
`expect` or an index out of range). `fuelExhausted` is the model's bound on a loop the
source leaves unbounded; the theorems show that the modelled runs stay below it. -/
inductive UpdateError where
  | storage (error : StorageError)
  | panic
  | fuelExhausted
  deriving DecidableEq, Repr

structure UpdateState (σ N V : Type) where
  nodes : UpdatedNodes N V
  backend : σ

/-- The part of `GenericTrieUpdate` each backend implements its own way. -/
structure Backend (σ N V : Type) where
  /-- The old-node half of `ensure_updated`: read the node behind an old pointer. The disk
  trie fails with a storage error, the memtrie panics on an id outside its arena. -/
  readOld : N → σ → Except UpdateError (GenericTrieNodeWithSize N V × σ)
  storeValue : GenericTrieValue → σ → Except UpdateError (V × σ)
  deleteValue : V → σ → Except StorageError σ

abbrev UpdateM (σ N V : Type) := StateT (UpdateState σ N V) (Except UpdateError)

def u64Max : Nat := 2 ^ 64 - 1

/-- `u64::saturating_add`; `saturating_sub` is truncated subtraction on `Nat`. -/
def saturatingAdd (a b : Nat) : Nat := min (a + b) u64Max

section Operations

variable {σ N V : Type}

def takeNode (nodeId : Nat) : UpdateM σ N V (GenericUpdatedTrieNodeWithSize N V) := fun st =>
  match st.nodes[nodeId]? with
  | some (some node) => .ok (node, { st with nodes := st.nodes.set nodeId none })
  | _ => .error .panic

section
attribute [local simp] takeNode
end

def placeNodeAt (nodeId : Nat) (node : GenericUpdatedTrieNodeWithSize N V) :
    UpdateM σ N V Unit := fun st =>
  if nodeId < st.nodes.length then .ok ((), { st with nodes := st.nodes.set nodeId (some node) })
  else .error .panic

section
attribute [local simp] placeNodeAt
end

def placeNode (node : GenericUpdatedTrieNodeWithSize N V) : UpdateM σ N V Nat := fun st =>
  .ok (st.nodes.length, { st with nodes := st.nodes ++ [some node] })

def getNodeRef (nodeId : Nat) : UpdateM σ N V (GenericUpdatedTrieNodeWithSize N V) := fun st =>
  match st.nodes[nodeId]? with
  | some (some node) => .ok (node, st)
  | _ => .error .panic

section
attribute [local simp] getNodeRef
end

variable (backend : Backend σ N V)

def ensureUpdated : GenericNodeOrIndex N → UpdateM σ N V Nat
  | .old ptr => fun st =>
    match backend.readOld ptr st.backend with
    | .ok (node, inner) => placeNode node.toUpdated { st with backend := inner }
    | .error error => .error error
  | .updated nodeId => pure nodeId

section
attribute [local simp] ensureUpdated
end

def storeValue (value : GenericTrieValue) : UpdateM σ N V V := fun st =>
  match backend.storeValue value st.backend with
  | .ok (handle, inner) => .ok (handle, { st with backend := inner })
  | .error error => .error error

section
attribute [local simp] storeValue
end

def deleteValue (value : V) : UpdateM σ N V Unit := fun st =>
  match backend.deleteValue value st.backend with
  | .ok inner => .ok ((), { st with backend := inner })
  | .error error => .error (.storage error)

section
attribute [local simp] deleteValue
end

variable [HasValueLength V]

def calcMemoryUsageAndStore (nodeId childrenMemoryUsage : Nat)
    (newNode : GenericUpdatedTrieNode N V) (oldChild : Option Nat) : UpdateM σ N V Unit := do
  let oldChildMemoryUsage ← match oldChild with
    | some child => do pure (← getNodeRef child).memoryUsage
    | none => pure 0
  let newMemoryUsage :=
    saturatingAdd childrenMemoryUsage newNode.memoryUsageDirect - oldChildMemoryUsage
  placeNodeAt nodeId ⟨newNode, newMemoryUsage⟩

section
attribute [local simp] calcMemoryUsageAndStore
end

end Operations

/-! What each operation does. -/

section Arena

variable {α : Type} {l more : List α} {i : Nat}

/-- The arena after a slot is written and nodes are appended, read at the slot. -/
@[simp] theorem getElem?_set_append_self (x : α) (inside : i < l.length) :
    (l.set i x ++ more)[i]? = some x := by
  rw [List.getElem?_append_left (by simpa using inside)]
  simp [inside]

theorem set_none_append_set (l more : List (Option α)) (inside : i < l.length) (x : α) :
    (l.set i none ++ more).set i (some x) = l.set i (some x) ++ more := by
  rw [List.set_append_left _ _ (by simpa using inside), List.set_set]

end Arena

section Specs

variable {σ N V : Type} (nodes : UpdatedNodes N V) (inner : σ)

theorem takeNode_of_read {nodeId : Nat} {node : GenericUpdatedTrieNodeWithSize N V}
    (read : nodes[nodeId]? = some (some node)) :
    takeNode nodeId ⟨nodes, inner⟩ = .ok (node, ⟨nodes.set nodeId none, inner⟩) := by
  simp [takeNode, read]

theorem placeNodeAt_of_lt {nodeId : Nat} (node : GenericUpdatedTrieNodeWithSize N V)
    (inside : nodeId < nodes.length) :
    placeNodeAt nodeId node ⟨nodes, inner⟩ = .ok ((), ⟨nodes.set nodeId (some node), inner⟩) := by
  simp [placeNodeAt, inside]

theorem placeNode_apply (node : GenericUpdatedTrieNodeWithSize N V) :
    placeNode node ⟨nodes, inner⟩ = .ok (nodes.length, ⟨nodes ++ [some node], inner⟩) := rfl

theorem getNodeRef_of_read {nodeId : Nat} {node : GenericUpdatedTrieNodeWithSize N V}
    (read : nodes[nodeId]? = some (some node)) :
    getNodeRef nodeId ⟨nodes, inner⟩ = .ok (node, ⟨nodes, inner⟩) := by
  simp [getNodeRef, read]

variable {backend : Backend σ N V}

theorem ensureUpdated_updated (nodeId : Nat) :
    ensureUpdated backend (.updated nodeId) ⟨nodes, inner⟩ = .ok (nodeId, ⟨nodes, inner⟩) := rfl

theorem ensureUpdated_old {ptr : N} {node : GenericTrieNodeWithSize N V} {inner' : σ}
    (read : backend.readOld ptr inner = .ok (node, inner')) :
    ensureUpdated backend (.old ptr) ⟨nodes, inner⟩ =
      .ok (nodes.length, ⟨nodes ++ [some node.toUpdated], inner'⟩) := by
  simp [ensureUpdated, read, placeNode_apply]

theorem storeValue_of_ok {value : GenericTrieValue} {handle : V} {inner' : σ}
    (stored : backend.storeValue value inner = .ok (handle, inner')) :
    storeValue backend value ⟨nodes, inner⟩ = .ok (handle, ⟨nodes, inner'⟩) := by
  simp [storeValue, stored]

theorem deleteValue_of_ok {value : V} {inner' : σ}
    (deleted : backend.deleteValue value inner = .ok inner') :
    deleteValue backend value ⟨nodes, inner⟩ = .ok ((), ⟨nodes, inner'⟩) := by
  simp [deleteValue, deleted]

variable [HasValueLength V]

theorem calcMemoryUsageAndStore_none {nodeId childrenMemoryUsage : Nat}
    {newNode : GenericUpdatedTrieNode N V} (inside : nodeId < nodes.length) :
    calcMemoryUsageAndStore nodeId childrenMemoryUsage newNode none ⟨nodes, inner⟩ =
      .ok ((), ⟨nodes.set nodeId
        (some ⟨newNode, saturatingAdd childrenMemoryUsage newNode.memoryUsageDirect - 0⟩), inner⟩) := by
  simp only [calcMemoryUsageAndStore, StateT.bind_apply_of_ok (StateT.pure_apply _ _)]
  exact placeNodeAt_of_lt _ _ _ inside

theorem calcMemoryUsageAndStore_some {nodeId childrenMemoryUsage child : Nat}
    {newNode : GenericUpdatedTrieNode N V} {childNode : GenericUpdatedTrieNodeWithSize N V}
    (childRead : nodes[child]? = some (some childNode)) (inside : nodeId < nodes.length) :
    calcMemoryUsageAndStore nodeId childrenMemoryUsage newNode (some child) ⟨nodes, inner⟩ =
      .ok ((), ⟨nodes.set nodeId (some ⟨newNode,
        saturatingAdd childrenMemoryUsage newNode.memoryUsageDirect - childNode.memoryUsage⟩),
        inner⟩) := by
  simp only [calcMemoryUsageAndStore]
  rw [StateT.bind_apply_of_ok (getNodeRef_of_read _ _ childRead), pure_bind]
  exact placeNodeAt_of_lt _ _ _ inside

end Specs

/-! What a backend must do for the generic code to be correct. -/

/-- The backend reads the existing trie `old`, never failing on a node it holds. -/
structure Backend.Reads {σ N V : Type} (backend : Backend σ N V)
    (old : N → Option (GenericTrieNodeWithSize N V)) : Prop where
  sound : ∀ ptr inner node inner', backend.readOld ptr inner = .ok (node, inner') →
    old ptr = some node
  complete : ∀ ptr inner node, old ptr = some node → ∃ inner', backend.readOld ptr inner = .ok (node, inner')

/-- Storing `value` succeeds, always with the handle `handle`. -/
def Backend.Stores {σ N V : Type} (backend : Backend σ N V) (value : GenericTrieValue)
    (handle : V) : Prop :=
  ∀ inner, ∃ inner', backend.storeValue value inner = .ok (handle, inner')

/-- Deleting a value never fails. -/
def Backend.Deletes {σ N V : Type} (backend : Backend σ N V) : Prop :=
  ∀ value inner, ∃ inner', backend.deleteValue value inner = .ok inner'

/-- `ensure_updated` of a pointer that stands for `t` gives an id that stands for `t` too:
through the same ids, or, for an existing node, through one new copy of it. -/
theorem ensureUpdated_rep {σ N V : Type} {backend : Backend σ N V}
    {old : N → Option (GenericTrieNodeWithSize N V)} (reads : backend.Reads old)
    {nodes : UpdatedNodes N V} {ptr : GenericNodeOrIndex N} {t : NodeTree V} {ids : List Nat}
    (rep : Rep nodes old (some ptr) t ids) (inner : σ) :
    ∃ c' more inner' ids', ensureUpdated backend ptr ⟨nodes, inner⟩ =
        .ok (c', ⟨nodes ++ more, inner'⟩) ∧
      Rep (nodes ++ more) old (some (.updated c')) t ids' ∧
      (ids' = ids ∨ ids = [] ∧ ids' = [nodes.length]) := by
  cases ptr with
  | updated c' => exact ⟨c', [], inner, ids, by simp [ensureUpdated_updated], by simpa using rep, .inl rfl⟩
  | old p =>
    cases rep with
    | old existing =>
      obtain ⟨node, stored⟩ := existing.isSome
      obtain ⟨inner', fetched⟩ := reads.complete p inner node stored
      exact ⟨nodes.length, [some node.toUpdated], inner', [nodes.length],
        ensureUpdated_old _ _ fetched, Rep.ofOld existing stored (by simp), .inr ⟨rfl, rfl⟩⟩

end Nearcore
