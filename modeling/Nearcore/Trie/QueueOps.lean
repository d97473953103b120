import Nearcore.Library.RunningTest
import Nearcore.Trie.OutgoingMetadata

/-! The operations of the trie queues as a client runs them (`receipts_column_helper.rs`,
`test_random_trie_queue_operations`): one after another on one queue object and
`TrieUpdate`, the object reloaded from the trie between any two; and the same operations on a
`VecDeque`, the queue the trie queues stand for. The deque is kept with the position its
front has among all items ever pushed, which is the index the trie queues store it under. -/
namespace Nearcore

/-- An operation on a queue. `modify_first` is given an infallible function, as the queues'
clients other than the receipt groups pass. -/
inductive QueueOp (α : Type) where
  | pushBack (item : α)
  | popFront
  | popBack
  | modifyFirst (modifyFn : α → Option α)
  | popN (n : UInt64)
  | reload

/-- What an operation returns: nothing, a popped item, or a count of removed items. -/
inductive QueueResult (α : Type) where
  | done
  | item (item : Option α)
  | removed (count : UInt64)
  deriving DecidableEq, Repr

/-- A `VecDeque` of `items` whose front is the `front`-th item ever pushed. -/
structure Deque (α : Type) where
  front : Nat
  items : List α
  deriving DecidableEq, Repr

namespace QueueOp

variable {α : Type}

/-- The operation on a `VecDeque`, as the test's in-memory queue runs it: `pop_n` pops up to
`n` items one at a time and counts them, `modify_first` pops the front and pushes back what
the function makes of it. -/
def vecDeque : QueueOp α → List α → QueueResult α × List α
  | pushBack item, xs => (.done, xs ++ [item])
  | popFront, xs => (.item xs.head?, xs.tail)
  | popBack, xs => (.item xs.getLast?, xs.dropLast)
  | modifyFirst _, [] => (.done, [])
  | modifyFirst modifyFn, a :: rest => (.done, (modifyFn a).toList ++ rest)
  | popN n, xs => (.removed (UInt64.ofNat (min n.toNat xs.length)), xs.drop n.toNat)
  | reload, xs => (.done, xs)

section
attribute [local simp] vecDeque
end

/-- How many items the operation takes off the front. -/
def frontShift : QueueOp α → List α → Nat
  | popFront, xs => min 1 xs.length
  | modifyFirst modifyFn, a :: _ => if (modifyFn a).isSome then 0 else 1
  | popN n, xs => min n.toNat xs.length
  | _, _ => 0

section
attribute [local simp] frontShift
end

/-- The operation on a deque: its result and the deque after it. -/
def step (op : QueueOp α) (deque : Deque α) : QueueResult α × Deque α :=
  ((op.vecDeque deque.items).1, ⟨deque.front + op.frontShift deque.items, (op.vecDeque deque.items).2⟩)

section
attribute [local simp] step
end

/-- When the refinement covers the operation: `modify_first` on a non-empty queue only, and
`push_back` only while the index after the new item's is below `2^64`. -/
def Allowed : QueueOp α → Deque α → Prop
  | pushBack _, deque => deque.front + deque.items.length + 1 < UInt64.size
  | modifyFirst _, deque => deque.items ≠ []
  | _, _ => True

section Trie

variable {R Q : Type} (queue : TrieQueue R Q α) (load : Q → TrieUpdate R → Except StorageError Q)

/-- The operation on a trie queue whose objects `load` reloads from the trie. -/
def apply : QueueOp α → QueueM R Q (QueueResult α)
  | pushBack item => do
    queue.pushBack item
    pure .done
  | popFront => .item <$> queue.popFront
  | popBack => .item <$> queue.popBack
  | modifyFirst modifyFn => do
    queue.modifyFirst fun a => pure (modifyFn a)
    pure .done
  | popN n => .removed <$> queue.popN n
  | .reload => fun (q, trie) =>
    match load q trie with
    | .ok q => .ok (.done, q, trie)
    | .error error => .error (.storage error)

section
attribute [local simp] apply
end

end Trie

end QueueOp

namespace Deque

variable {α : Type}

/-- A run of operations on a deque: the results in order, and the deque at the end. -/
def run : Deque α → List (QueueOp α) → List (QueueResult α) × Deque α
  | deque, [] => ([], deque)
  | deque, op :: ops =>
    let (results, final) := run (op.step deque).2 ops
    ((op.step deque).1 :: results, final)

section
attribute [local simp] run
end

/-- The deque at the end of a run is the fold of the steps. -/
theorem run_snd (deque : Deque α) (ops : List (QueueOp α)) :
    (deque.run ops).2 = ops.foldl (fun deque op => (op.step deque).2) deque := by
  induction ops generalizing deque with
  | nil => rfl
  | cons op ops ih => exact ih _

/-- Every operation of the run is allowed where it is made. -/
def Admits (deque : Deque α) (ops : List (QueueOp α)) : Prop :=
  List.PassesFrom (fun deque op => (op.step deque).2) (fun deque op => op.Allowed deque) deque ops

section
attribute [local simp] Admits
end

end Deque

section Reload

variable {R : Type}

/-- Reloading the delayed receipt queue: `DelayedReceiptQueue::load`. -/
def DelayedReceiptQueue.reload (_ : DelayedReceiptQueue) (trie : TrieUpdate R) :
    Except StorageError DelayedReceiptQueue :=
  DelayedReceiptQueue.load trie

section
attribute [local simp] DelayedReceiptQueue.reload
end

/-- Reloading an outgoing buffer: the buffers to all shards are loaded and the same shard's
is taken. -/
def OutgoingReceiptBuffer.reload (buffer : OutgoingReceiptBuffer) (trie : TrieUpdate R) :
    Except StorageError OutgoingReceiptBuffer := do
  let buffers ← ShardsOutgoingReceiptBuffer.load trie
  pure (buffers.toShard buffer.shardId)

section
attribute [local simp] OutgoingReceiptBuffer.reload
end

/-- Reloading a queue of receipt groups, as `OutgoingMetadatas` does: the saved queue, or a
new one for a shard whose queue was never saved. -/
def ReceiptGroupsQueue.reload (queue : ReceiptGroupsQueue) (trie : TrieUpdate R) :
    Except StorageError ReceiptGroupsQueue := do
  let loaded ← ReceiptGroupsQueue.load trie queue.receiverShard
  pure (loaded.getD (ReceiptGroupsQueue.new queue.receiverShard))

section
attribute [local simp] ReceiptGroupsQueue.reload
end

end Reload

end Nearcore
