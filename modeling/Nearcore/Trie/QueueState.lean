import Nearcore.Primitives.TrieKey
import Nearcore.Trie.Update

/-! The state the trie queues live in (`core/primitives/src/receipt.rs`,
`core/store/src/trie/outgoing_metadata.rs`, `core/store/src/utils/mod.rs`): their indices and
metadata, and a `TrieUpdate` as a map from trie keys to what was written there. Borsh bytes are
abstracted to the value they encode: `get` at the type a key was written with reads the value
back, at another type it fails to deserialize. -/
namespace Nearcore

/-- `TrieQueueIndices`, and `DelayedReceiptIndices`, which has the same fields and encoding. -/
structure TrieQueueIndices where
  firstIndex : UInt64
  nextAvailableIndex : UInt64
  deriving DecidableEq, Repr

instance : Inhabited TrieQueueIndices := ⟨⟨0, 0⟩⟩

/-- `TrieQueueIndices::len`. The `u64` subtraction would panic below zero; the queues keep
`first_index ≤ next_available_index`, so it never does. -/
def TrieQueueIndices.len (indices : TrieQueueIndices) : Nat :=
  indices.nextAvailableIndex.toNat - indices.firstIndex.toNat

section
attribute [local simp] TrieQueueIndices.len
end

/-- `BufferedReceiptIndices`: the indices of the buffer to each shard that has one. -/
structure BufferedReceiptIndices where
  shardBuffers : ShardId → Option TrieQueueIndices

instance : Inhabited BufferedReceiptIndices := ⟨⟨fun _ => none⟩⟩

/-- `ReceiptGroup`, whose one version is `ReceiptGroupV0`: the total size (`u64`) and gas
(`u128`) of a run of consecutive receipts in an outgoing buffer. -/
structure ReceiptGroup where
  size : Nat
  gas : Nat
  deriving DecidableEq, Repr

/-- `ReceiptGroupsQueueDataV0`, the one version of `ReceiptGroupsQueueData`. -/
structure ReceiptGroupsQueueDataV0 where
  indices : TrieQueueIndices
  totalSize : Nat
  totalGas : Nat
  totalReceiptsNum : Nat
  deriving DecidableEq, Repr

instance : Inhabited ReceiptGroupsQueueDataV0 := ⟨⟨default, 0, 0, 0⟩⟩

/-- The values the queues store, as borsh decodes them; receipts are of a type `R` the queues
never look into. -/
inductive StateValue (R : Type) where
  | trieQueueIndices (indices : TrieQueueIndices)
  | bufferedReceiptIndices (indices : BufferedReceiptIndices)
  | receiptGroupsQueueData (data : ReceiptGroupsQueueDataV0)
  | receipt (receipt : R)
  | receiptGroup (group : ReceiptGroup)

/-- `TrieUpdate`: the value each key holds, if any. -/
abbrev TrieUpdate (R : Type) := TrieKey → Option (StateValue R)

/-- A type borsh writes and reads: `set` stores its encoding, `get` decodes what it finds. -/
structure Borsh (R α : Type) where
  encode : α → StateValue R
  decode : StateValue R → Option α
  decode_encode : ∀ a, decode (encode a) = some a

namespace Borsh

variable {R : Type}

def trieQueueIndices : Borsh R TrieQueueIndices where
  encode := .trieQueueIndices
  decode | .trieQueueIndices indices => some indices | _ => none
  decode_encode _ := rfl

def bufferedReceiptIndices : Borsh R BufferedReceiptIndices where
  encode := .bufferedReceiptIndices
  decode | .bufferedReceiptIndices indices => some indices | _ => none
  decode_encode _ := rfl

def receiptGroupsQueueData : Borsh R ReceiptGroupsQueueDataV0 where
  encode := .receiptGroupsQueueData
  decode | .receiptGroupsQueueData data => some data | _ => none
  decode_encode _ := rfl

def receipt : Borsh R R where
  encode := .receipt
  decode | .receipt receipt => some receipt | _ => none
  decode_encode _ := rfl

section
attribute [local simp] receipt
end

def receiptGroup : Borsh R ReceiptGroup where
  encode := .receiptGroup
  decode | .receiptGroup group => some group | _ => none
  decode_encode _ := rfl

end Borsh

section Access

variable {R α : Type} (borsh : Borsh R α)

/-- `get` (and `get_pure`, which differs only in side effects the model does not keep). -/
def get (trie : TrieUpdate R) (key : TrieKey) : Except StorageError (Option α) :=
  match trie key with
  | none => .ok none
  | some data =>
    match borsh.decode data with
    | some value => .ok (some value)
    | none => .error (.storageInconsistentState "Failed to deserialize")

section
attribute [local simp] get
end

/-- `set`. -/
def set (trie : TrieUpdate R) (key : TrieKey) (value : α) : TrieUpdate R :=
  Function.update trie key (some (borsh.encode value))

section
attribute [local simp] set
end

/-- `TrieUpdate::remove`. -/
def remove (trie : TrieUpdate R) (key : TrieKey) : TrieUpdate R :=
  Function.update trie key none

section
attribute [local simp] remove
end

@[simp] theorem get_of_eq {trie : TrieUpdate R} {key : TrieKey} {value : α}
    (stored : trie key = some (borsh.encode value)) : get borsh trie key = .ok (some value) := by
  simp [get, stored, borsh.decode_encode]

@[simp] theorem get_of_eq_none {trie : TrieUpdate R} {key : TrieKey} (absent : trie key = none) :
    get borsh trie key = .ok none := by
  simp [get, absent]

@[simp] theorem set_apply_self (trie : TrieUpdate R) (key : TrieKey) (value : α) :
    set borsh trie key value key = some (borsh.encode value) := by
  simp [set]

@[simp] theorem set_apply_ne {trie : TrieUpdate R} {key other : TrieKey} (value : α) (apart : other ≠ key) :
    set borsh trie key value other = trie other := by
  simp [set, apart]

@[simp] theorem remove_apply_self (trie : TrieUpdate R) (key : TrieKey) : remove trie key key = none := by
  simp [remove]

@[simp] theorem remove_apply_ne {trie : TrieUpdate R} {key other : TrieKey} (apart : other ≠ key) :
    remove trie key other = trie other := by
  simp [remove, apart]

@[simp] theorem get_set_self (trie : TrieUpdate R) (key : TrieKey) (value : α) :
    get borsh (set borsh trie key value) key = .ok (some value) :=
  get_of_eq borsh (set_apply_self borsh trie key value)

@[simp] theorem get_update_ne {trie : TrieUpdate R} {key other : TrieKey} (value : Option (StateValue R))
    (apart : key ≠ other) : get borsh (Function.update trie other value) key = get borsh trie key := by
  simp [get, Function.update_of_ne apart]

end Access

/-- How a queue operation fails: the `Err` of its `Result`, or a panic with its message. -/
inductive QueueError where
  | integerOverflow
  | storage (error : StorageError)
  | panic (message : String)
  deriving DecidableEq, Repr

end Nearcore
