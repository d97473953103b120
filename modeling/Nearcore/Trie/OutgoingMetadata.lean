import Nearcore.Trie.ReceiptsColumnHelper

/-! Receipt groups (`core/store/src/trie/outgoing_metadata.rs`): a `TrieQueue` of groups kept
beside an outgoing buffer, each group the total size and gas of a run of consecutive buffered
receipts. A pushed receipt joins the last group unless that would take the group over a bound;
a popped receipt leaves the first group, which goes when its size reaches zero. The checked
additions and subtractions panic past `u64` (sizes) and `u128` (gas). -/
namespace Nearcore

/-- A checked addition of the source, of values below `bound`, with the message its `expect`
panics with. -/
def checkedAdd (bound : Nat) (message : String) (total delta : Nat) : Except QueueError Nat :=
  if total + delta < bound then .ok (total + delta) else .error (.panic message)

section
attribute [local simp] checkedAdd
end

/-- A checked subtraction of the source, with the message its `expect` panics with. -/
def checkedSub (message : String) (total delta : Nat) : Except QueueError Nat :=
  if delta ≤ total then .ok (total - delta) else .error (.panic message)

theorem checkedAdd_of_lt {bound total delta : Nat} {message : String} (fits : total + delta < bound) :
    checkedAdd bound message total delta = .ok (total + delta) :=
  if_pos fits

theorem checkedAdd_of_not_lt {bound total delta : Nat} {message : String} (exceeds : ¬ total + delta < bound) :
    checkedAdd bound message total delta = .error (.panic message) :=
  if_neg exceeds

theorem checkedSub_of_le {total delta : Nat} {message : String} (covered : delta ≤ total) :
    checkedSub message total delta = .ok (total - delta) :=
  if_pos covered

/-- `add_size_checked`. -/
def addSizeChecked (total delta : Nat) : Except QueueError Nat :=
  checkedAdd (2 ^ 64) "add_size_checked - Overflow! Reached exabytes of size!" total delta

section
attribute [local simp] addSizeChecked
end

/-- `subtract_size_checked`. -/
def subtractSizeChecked (total delta : Nat) : Except QueueError Nat :=
  checkedSub "subtract_size_checked - Underflow! Negative size!" total delta

section
attribute [local simp] subtractSizeChecked
end

/-- `add_gas_checked`. -/
def addGasChecked (total delta : Nat) : Except QueueError Nat :=
  checkedAdd (2 ^ 128) "add_gas_checked - Overflow! Total gas doesn't fit into u128!" total delta

section
attribute [local simp] addGasChecked
end

/-- `subtract_gas_checked`. -/
def subtractGasChecked (total delta : Nat) : Except QueueError Nat :=
  checkedSub "subtract_gas_checked - Underflow! Negative gas!" total delta

section
attribute [local simp] subtractGasChecked
end

namespace ReceiptGroup

/-- `ReceiptGroup::new`: a group of one receipt. -/
def new (receiptSize receiptGas : Nat) : ReceiptGroup := ⟨receiptSize, receiptGas⟩

section
attribute [local simp] new
end

/-- `ReceiptGroup::is_empty`: a group is empty when its size is zero, and then its gas must be
zero too. -/
def isEmpty (group : ReceiptGroup) : Except QueueError Bool :=
  if group.size = 0 then
    if group.gas = 0 then .ok true else .error (.panic "Gas should be zero for an empty group.")
  else .ok false

section
attribute [local simp] isEmpty
end

end ReceiptGroup

/-- `ReceiptGroupsConfig`: `size_upper_bound` (`ByteSize`) and `gas_upper_bound` (`Gas`). -/
structure ReceiptGroupsConfig where
  sizeUpperBound : Nat
  gasUpperBound : Nat

/-- `ReceiptGroupsConfig::should_start_new_group`. -/
def ReceiptGroupsConfig.shouldStartNewGroup (config : ReceiptGroupsConfig) (lastGroup : ReceiptGroup)
    (newReceiptSize newReceiptGas : Nat) : Except QueueError Bool := do
  let groupSize ← addSizeChecked lastGroup.size newReceiptSize
  if groupSize > config.sizeUpperBound then return true
  let groupGas ← addGasChecked lastGroup.gas newReceiptGas
  if groupGas > config.gasUpperBound then return true
  return false

section
attribute [local simp] ReceiptGroupsConfig.shouldStartNewGroup
end

/-- `ReceiptGroupsQueue`: the groups of the buffer to one shard, and its data as stored. -/
structure ReceiptGroupsQueue where
  receiverShard : ShardId
  data : ReceiptGroupsQueueDataV0

namespace ReceiptGroupsQueue

variable {R : Type}

/-- `ReceiptGroupsQueue::new`. -/
def new (receiverShard : ShardId) : ReceiptGroupsQueue := ⟨receiverShard, default⟩

section
attribute [local simp] new
end

/-- `ReceiptGroupsQueue::load_data`. -/
def loadData (trie : TrieUpdate R) (receiverShard : ShardId) :
    Except StorageError (Option ReceiptGroupsQueueDataV0) :=
  get Borsh.receiptGroupsQueueData trie (.bufferedReceiptGroupsQueueData receiverShard)

section
attribute [local simp] loadData
end

/-- `ReceiptGroupsQueue::load`: none for a shard whose data was never saved. -/
def load (trie : TrieUpdate R) (receiverShard : ShardId) : Except StorageError (Option ReceiptGroupsQueue) := do
  let dataOpt ← loadData trie receiverShard
  pure (dataOpt.map fun data => ⟨receiverShard, data⟩)

section
attribute [local simp] load
end

/-- `ReceiptGroupsQueue::save_data`. -/
def saveData (queue : ReceiptGroupsQueue) (trie : TrieUpdate R) : TrieUpdate R :=
  set Borsh.receiptGroupsQueueData trie (.bufferedReceiptGroupsQueueData queue.receiverShard) queue.data

section
attribute [local simp] saveData
end

/-- The `TrieQueue` implementation of `ReceiptGroupsQueue`: the indices are saved with the rest
of the data. -/
def trieQueue : TrieQueue R ReceiptGroupsQueue ReceiptGroup where
  item := Borsh.receiptGroup
  loadIndices queue trie := do
    let data ← loadData trie queue.receiverShard
    pure (data.getD default).indices
  indices queue := queue.data.indices
  indicesMut queue change := { queue with data := { queue.data with indices := change queue.data.indices } }
  writeIndices queue trie := queue.saveData trie
  trieKey queue index := .bufferedReceiptGroupsQueueItem queue.receiverShard index

section
attribute [local simp] trieQueue
end

/-- `push_back(..).expect("Integer overflow on push")`. -/
def pushBackExpect (group : ReceiptGroup) : QueueM R ReceiptGroupsQueue Unit := fun state =>
  match trieQueue.pushBack group state with
  | .error .integerOverflow => .error (.panic "Integer overflow on push")
  | result => result

section
attribute [local simp] pushBackExpect
end

/-- `ReceiptGroupsQueue::update_on_receipt_pushed`. -/
def updateOnReceiptPushed (receiptSize receiptGas : Nat) (groupsConfig : ReceiptGroupsConfig) :
    QueueM R ReceiptGroupsQueue Unit := fun (queue, trie) => do
  let totalSize ← addSizeChecked queue.data.totalSize receiptSize
  let totalGas ← addGasChecked queue.data.totalGas receiptGas
  let totalReceiptsNum ← checkedAdd (2 ^ 64) "Overflow! - Number of receipts doesn't fit into u64!"
    queue.data.totalReceiptsNum 1
  let queue := { queue with data := { queue.data with totalSize, totalGas, totalReceiptsNum } }
  -- the last group is taken out and inspected
  let (lastGroup, state) ← trieQueue.popBack (queue, trie)
  match lastGroup with
  | some lastGroup =>
    if ← groupsConfig.shouldStartNewGroup lastGroup receiptSize receiptGas then
      let ((), state) ← pushBackExpect lastGroup state
      pushBackExpect (ReceiptGroup.new receiptSize receiptGas) state
    else
      let size ← addSizeChecked lastGroup.size receiptSize
      let gas ← addGasChecked lastGroup.gas receiptGas
      pushBackExpect ⟨size, gas⟩ state
  | none => pushBackExpect (ReceiptGroup.new receiptSize receiptGas) state

section
attribute [local simp] updateOnReceiptPushed
end

/-- The closure `update_on_receipt_popped` hands to `modify_first`. -/
def shrinkFirstGroup (receiptSize receiptGas : Nat) (firstGroup : ReceiptGroup) :
    Except QueueError (Option ReceiptGroup) := do
  let size ← subtractSizeChecked firstGroup.size receiptSize
  let gas ← subtractGasChecked firstGroup.gas receiptGas
  let firstGroup : ReceiptGroup := ⟨size, gas⟩
  if ← firstGroup.isEmpty then pure none else pure (some firstGroup)

section
attribute [local simp] shrinkFirstGroup
end

/-- `ReceiptGroupsQueue::update_on_receipt_popped`. -/
def updateOnReceiptPopped (receiptSize receiptGas : Nat) : QueueM R ReceiptGroupsQueue Unit :=
  fun (queue, trie) => do
    let totalSize ← subtractSizeChecked queue.data.totalSize receiptSize
    let totalGas ← subtractGasChecked queue.data.totalGas receiptGas
    let totalReceiptsNum ← checkedSub "Underflow! - More receipts were popped than pushed!"
      queue.data.totalReceiptsNum 1
    let queue := { queue with data := { queue.data with totalSize, totalGas, totalReceiptsNum } }
    if queue.data.indices.len > 0 then
      trieQueue.modifyFirst (shrinkFirstGroup receiptSize receiptGas) (queue, trie)
    else .error (.panic "No receipt groups to pop from!")

section
attribute [local simp] updateOnReceiptPopped
end

end ReceiptGroupsQueue

end Nearcore
