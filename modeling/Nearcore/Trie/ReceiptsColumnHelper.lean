import Nearcore.Trie.QueueState

/-! `TrieQueue` (`core/store/src/trie/receipts_column_helper.rs`): a queue stored in the trie,
its items under consecutive indices from `first_index` to `next_available_index`, the indices
cached in the queue object and written back after every change. Each implementation says
where its indices and items live; the operations are the trait's default methods, over the
queue object and the `TrieUpdate` they mutate. The debug-build check that the cache matches the
trie is not run in release builds and is left out. -/
namespace Nearcore

/-- An implementation of `TrieQueue` by queue objects of type `Q` with items of type `α`.
`indicesMut` applies a change to the indices behind `indices_mut`. -/
structure TrieQueue (R Q α : Type) where
  item : Borsh R α
  loadIndices : Q → TrieUpdate R → Except StorageError TrieQueueIndices
  indices : Q → TrieQueueIndices
  indicesMut : Q → (TrieQueueIndices → TrieQueueIndices) → Q
  writeIndices : Q → TrieUpdate R → TrieUpdate R
  trieKey : Q → UInt64 → TrieKey

/-- A queue operation runs on the queue object and the `TrieUpdate`. -/
abbrev QueueM (R Q : Type) := StateT (Q × TrieUpdate R) (Except QueueError)

namespace TrieQueue

variable {R Q α : Type} (queue : TrieQueue R Q α)

/-- The typed read of an item, absent items being an inconsistent state. -/
def getItem (trie : TrieUpdate R) (key : TrieKey) (message : String) : Except QueueError α :=
  match get queue.item trie key with
  | .error error => .error (.storage error)
  | .ok none => .error (.storage (.storageInconsistentState message))
  | .ok (some item) => .ok item

section
attribute [local simp] getItem
end

/-- `push_back`: the item is set at `next_available_index` before the index is checked for
overflow. -/
def pushBack (item : α) : QueueM R Q Unit := fun (q, trie) =>
  let index := (queue.indices q).nextAvailableIndex
  let trie := set queue.item trie (queue.trieKey q index) item
  if index.toNat + 1 < UInt64.size then
    let q := queue.indicesMut q fun indices => { indices with nextAvailableIndex := index + 1 }
    .ok ((), q, queue.writeIndices q trie)
  else .error .integerOverflow

section
attribute [local simp] pushBack
end

/-- `pop_front`. -/
def popFront : QueueM R Q (Option α) := fun (q, trie) =>
  let indices := queue.indices q
  if indices.firstIndex ≥ indices.nextAvailableIndex then .ok (none, q, trie)
  else
    let first := indices.firstIndex
    let key := queue.trieKey q first
    match queue.getItem trie key s!"TrieQueue::Item #{first} should be in the state" with
    | .error error => .error error
    | .ok item =>
      let trie := remove trie key
      let q := queue.indicesMut q fun indices => { indices with firstIndex := indices.firstIndex + 1 }
      .ok (some item, q, queue.writeIndices q trie)

section
attribute [local simp] popFront
end

/-- `pop_back`. -/
def popBack : QueueM R Q (Option α) := fun (q, trie) =>
  let indices := queue.indices q
  if indices.firstIndex ≥ indices.nextAvailableIndex then .ok (none, q, trie)
  else
    let lastItemIndex := indices.nextAvailableIndex - 1
    let key := queue.trieKey q lastItemIndex
    match queue.getItem trie key s!"TrieQueue::Item #{lastItemIndex} should be in the state" with
    | .error error => .error error
    | .ok item =>
      let trie := remove trie key
      let q := queue.indicesMut q fun indices => { indices with nextAvailableIndex := lastItemIndex }
      .ok (some item, q, queue.writeIndices q trie)

section
attribute [local simp] popBack
end

/-- `modify_first`: the indices are written back even when the item is only rewritten. A panic
inside `modify_fn` is the error of its result. -/
def modifyFirst (modifyFn : α → Except QueueError (Option α)) : QueueM R Q Unit := fun (q, trie) =>
  let indices := queue.indices q
  if indices.firstIndex ≥ indices.nextAvailableIndex then
    .error (.panic "TrieQueue::modify_first called on an empty queue!")
  else
    let first := indices.firstIndex
    let key := queue.trieKey q first
    match queue.getItem trie key s!"TrieQueue::Item #{first} should be in the state" with
    | .error error => .error error
    | .ok firstItem =>
      match modifyFn firstItem with
      | .error error => .error error
      | .ok (some item) => .ok ((), q, queue.writeIndices q (set queue.item trie key item))
      | .ok none =>
        match queue.popFront (q, trie) with
        | .error error => .error error
        | .ok (_, state) => .ok ((), state)

section
attribute [local simp] modifyFirst
end

/-- The loop of `pop_n`: the keys of `count` indices from `index` on are removed. -/
def removeFrom (q : Q) : UInt64 → Nat → TrieUpdate R → TrieUpdate R
  | _, 0, trie => trie
  | index, count + 1, trie => removeFrom q (index + 1) count (remove trie (queue.trieKey q index))

section
attribute [local simp] removeFrom
end

/-- `pop_n`: the items are removed without being read, and the indices written back only when
something was removed. -/
def popN (n : UInt64) : QueueM R Q UInt64 := fun (q, trie) =>
  let indices := queue.indices q
  let toRemove := min n
    (if indices.firstIndex ≤ indices.nextAvailableIndex then indices.nextAvailableIndex - indices.firstIndex
    else 0)
  if indices.firstIndex.toNat + toRemove.toNat < UInt64.size then
    let trie := queue.removeFrom q indices.firstIndex toRemove.toNat trie
    if toRemove > 0 then
      let q := queue.indicesMut q fun current => { current with firstIndex := indices.firstIndex + toRemove }
      .ok (toRemove, q, queue.writeIndices q trie)
    else .ok (toRemove, q, trie)
  else .error (.panic "first_index + to_remove should be < next_available_index")

section
attribute [local simp] popN
end

/-- `len`. -/
def len (q : Q) : Nat := (queue.indices q).len

section
attribute [local simp] len
end

/-- What `iter` yields, front to back: the item at each index of the range. -/
def iter (q : Q) (trie : TrieUpdate R) : List (Except QueueError α) :=
  (List.range (queue.indices q).len).map fun j =>
    queue.getItem trie (queue.trieKey q ((queue.indices q).firstIndex + UInt64.ofNat j))
      "TrieQueue::Item referenced by index should be in the state"

section
attribute [local simp] iter
end

end TrieQueue

section Delayed

variable {R : Type}

/-- `get_delayed_receipt_indices`: the default before anything was stored. -/
def getDelayedReceiptIndices (trie : TrieUpdate R) : Except StorageError TrieQueueIndices := do
  let indices ← get Borsh.trieQueueIndices trie .delayedReceiptIndices
  pure (indices.getD default)

section
attribute [local simp] getDelayedReceiptIndices
end

/-- `DelayedReceiptQueue`. -/
structure DelayedReceiptQueue where
  indices : TrieQueueIndices

/-- `DelayedReceiptQueue::load`. -/
def DelayedReceiptQueue.load (trie : TrieUpdate R) : Except StorageError DelayedReceiptQueue := do
  let indices ← getDelayedReceiptIndices trie
  pure ⟨indices⟩

section
attribute [local simp] DelayedReceiptQueue.load
end

/-- The `TrieQueue` implementation of `DelayedReceiptQueue`. -/
def DelayedReceiptQueue.trieQueue : TrieQueue R DelayedReceiptQueue R where
  item := Borsh.receipt
  loadIndices _ trie := getDelayedReceiptIndices trie
  indices queue := queue.indices
  indicesMut queue change := ⟨change queue.indices⟩
  writeIndices queue trie := set Borsh.trieQueueIndices trie .delayedReceiptIndices queue.indices
  trieKey _ index := .delayedReceipt index

section
attribute [local simp] DelayedReceiptQueue.trieQueue
end

end Delayed

section Outgoing

variable {R : Type}

/-- `get_buffered_receipt_indices`. -/
def getBufferedReceiptIndices (trie : TrieUpdate R) : Except StorageError BufferedReceiptIndices := do
  let indices ← get Borsh.bufferedReceiptIndices trie .bufferedReceiptIndices
  pure (indices.getD default)

section
attribute [local simp] getBufferedReceiptIndices
end

/-- `ShardsOutgoingReceiptBuffer`: the indices of the buffers to all shards, shared by them. -/
structure ShardsOutgoingReceiptBuffer where
  shardsIndices : BufferedReceiptIndices

/-- `ShardsOutgoingReceiptBuffer::load`. -/
def ShardsOutgoingReceiptBuffer.load (trie : TrieUpdate R) : Except StorageError ShardsOutgoingReceiptBuffer := do
  let shardsIndices ← getBufferedReceiptIndices trie
  pure ⟨shardsIndices⟩

section
attribute [local simp] ShardsOutgoingReceiptBuffer.load
end

/-- `OutgoingReceiptBuffer`: the buffer to one shard, holding its parent by mutable borrow, here
by value, to be handed back after the operations. -/
structure OutgoingReceiptBuffer where
  shardId : ShardId
  parent : ShardsOutgoingReceiptBuffer

/-- `ShardsOutgoingReceiptBuffer::to_shard`. -/
def ShardsOutgoingReceiptBuffer.toShard (buffers : ShardsOutgoingReceiptBuffer) (shardId : ShardId) :
    OutgoingReceiptBuffer :=
  ⟨shardId, buffers⟩

/-- The `TrieQueue` implementation of `OutgoingReceiptBuffer`: `indices_mut` inserts the default
indices for a shard without a buffer, and `write_indices` writes the indices of all shards. -/
def OutgoingReceiptBuffer.trieQueue : TrieQueue R OutgoingReceiptBuffer R where
  item := Borsh.receipt
  loadIndices buffer trie := do
    let allIndices ← get Borsh.bufferedReceiptIndices trie .bufferedReceiptIndices
    pure (((allIndices.getD default).shardBuffers buffer.shardId).getD default)
  indices buffer := (buffer.parent.shardsIndices.shardBuffers buffer.shardId).getD default
  indicesMut buffer change :=
    { buffer with
      parent := ⟨⟨Function.update buffer.parent.shardsIndices.shardBuffers buffer.shardId
        (some (change ((buffer.parent.shardsIndices.shardBuffers buffer.shardId).getD default)))⟩⟩ }
  writeIndices buffer trie :=
    set Borsh.bufferedReceiptIndices trie .bufferedReceiptIndices buffer.parent.shardsIndices
  trieKey buffer index := .bufferedReceipt buffer.shardId index

section
attribute [local simp] OutgoingReceiptBuffer.trieQueue
end

end Outgoing

end Nearcore
