import Nearcore.Trie.TrieQueueRefine

/-! The three implementations of `TrieQueue` (`DelayedReceiptQueue`, `OutgoingReceiptBuffer`,
`ReceiptGroupsQueue`) keep what the default methods rely on, and reloading them from the trie
gives back their indices; so each refines a `VecDeque`, from the empty trie on. What the
refinement leaves out is the last index: a `push_back` at `next_available_index = u64::MAX`
fails with `IntegerOverflowError`, where a `VecDeque` push succeeds. -/
namespace Nearcore

variable {R : Type}

section Delayed

theorem DelayedReceiptQueue.lawful : (DelayedReceiptQueue.trieQueue (R := R)).Lawful where
  indices_indicesMut _ _ := rfl
  trieKey_indicesMut _ _ := rfl
  trieKey_injective _ _ _ same := TrieKey.delayedReceipt.inj same
  writeIndices_trieKey _ _ _ := by simp [trieQueue]
  loadIndices_writeIndices _ _ := by simp [trieQueue, getDelayedReceiptIndices]
  loadIndices_update _ _ _ _ := by simp [trieQueue, getDelayedReceiptIndices]

theorem DelayedReceiptQueue.reloads :
    (DelayedReceiptQueue.trieQueue (R := R)).Reloads DelayedReceiptQueue.reload := by
  intro queue trie loaded
  change getDelayedReceiptIndices trie = .ok queue.indices at loaded
  exact ⟨queue, by simp [reload, load, loaded], rfl, rfl, rfl⟩

/-- The delayed receipt queue loaded from a trie without it stands for the empty deque. -/
theorem DelayedReceiptQueue.simulates_empty :
    (DelayedReceiptQueue.trieQueue (R := R)).Simulates ⟨default⟩ (fun _ => none) ⟨0, []⟩ :=
  TrieQueue.simulates_empty trieQueue (by simp [trieQueue, getDelayedReceiptIndices]) rfl fun _ => rfl

end Delayed

section Outgoing

theorem OutgoingReceiptBuffer.lawful : (OutgoingReceiptBuffer.trieQueue (R := R)).Lawful where
  indices_indicesMut _ _ := by simp [trieQueue]
  trieKey_indicesMut _ _ := rfl
  trieKey_injective _ _ _ same := (TrieKey.bufferedReceipt.inj same).2
  writeIndices_trieKey _ _ _ := by simp [trieQueue]
  loadIndices_writeIndices _ _ := by simp [trieQueue]
  loadIndices_update _ _ _ _ := by simp [trieQueue]

theorem OutgoingReceiptBuffer.reloads :
    (OutgoingReceiptBuffer.trieQueue (R := R)).Reloads OutgoingReceiptBuffer.reload := by
  intro buffer trie loaded
  -- the reload takes this shard's indices out of the stored map of all shards
  cases stored : get Borsh.bufferedReceiptIndices trie .bufferedReceiptIndices with
  | error error => simp [trieQueue, stored] at loaded
  | ok allIndices =>
    refine ⟨⟨buffer.shardId, ⟨allIndices.getD default⟩⟩, ?_, ?_, rfl, rfl⟩
    · simp [reload, ShardsOutgoingReceiptBuffer.load, getBufferedReceiptIndices, stored,
        ShardsOutgoingReceiptBuffer.toShard]
    · simpa [trieQueue, stored] using loaded

/-- The buffer to a shard, from the buffers loaded from a trie without them, stands for the
empty deque. -/
theorem OutgoingReceiptBuffer.simulates_empty (shardId : ShardId) :
    (OutgoingReceiptBuffer.trieQueue (R := R)).Simulates ⟨shardId, ⟨default⟩⟩ (fun _ => none) ⟨0, []⟩ :=
  TrieQueue.simulates_empty trieQueue (by simp [trieQueue]) rfl fun _ => rfl

end Outgoing

section Groups

theorem ReceiptGroupsQueue.lawful : (ReceiptGroupsQueue.trieQueue (R := R)).Lawful where
  indices_indicesMut _ _ := rfl
  trieKey_indicesMut _ _ := rfl
  trieKey_injective _ _ _ same := (TrieKey.bufferedReceiptGroupsQueueItem.inj same).2
  writeIndices_trieKey _ _ _ := by simp [trieQueue, saveData]
  loadIndices_writeIndices _ _ := by simp [trieQueue, saveData, loadData]
  loadIndices_update _ _ _ _ := by simp [trieQueue, loadData]

theorem ReceiptGroupsQueue.reloads :
    (ReceiptGroupsQueue.trieQueue (R := R)).Reloads ReceiptGroupsQueue.reload := by
  intro queue trie loaded
  -- a queue never saved reloads as a new one, whose indices are the default ones too
  cases stored : loadData trie queue.receiverShard with
  | error error => simp [trieQueue, stored] at loaded
  | ok data =>
    refine ⟨⟨queue.receiverShard, data.getD default⟩, ?_, ?_, rfl, rfl⟩
    · cases data <;> simp [reload, load, stored, new]
    · simpa [trieQueue, stored] using loaded

/-- A new queue of receipt groups stands for the empty deque in a trie without it. -/
theorem ReceiptGroupsQueue.simulates_empty (receiverShard : ShardId) :
    (ReceiptGroupsQueue.trieQueue (R := R)).Simulates (new receiverShard) (fun _ => none) ⟨0, []⟩ :=
  TrieQueue.simulates_empty trieQueue (by simp [trieQueue, loadData]; rfl) rfl fun _ => rfl

end Groups

/-- Each trie queue stands for the empty deque when first made or loaded from a trie without
it, and refines a `VecDeque` from there on. -/
theorem trieQueues_refine_vecDeque :
    ((DelayedReceiptQueue.trieQueue (R := R)).Simulates ⟨default⟩ (fun _ => none) ⟨0, []⟩ ∧
      (DelayedReceiptQueue.trieQueue (R := R)).RefinesVecDeque DelayedReceiptQueue.reload) ∧
    ((∀ shardId, (OutgoingReceiptBuffer.trieQueue (R := R)).Simulates ⟨shardId, ⟨default⟩⟩ (fun _ => none) ⟨0, []⟩) ∧
      (OutgoingReceiptBuffer.trieQueue (R := R)).RefinesVecDeque OutgoingReceiptBuffer.reload) ∧
    ((∀ receiverShard, (ReceiptGroupsQueue.trieQueue (R := R)).Simulates (ReceiptGroupsQueue.new receiverShard)
        (fun _ => none) ⟨0, []⟩) ∧
      (ReceiptGroupsQueue.trieQueue (R := R)).RefinesVecDeque ReceiptGroupsQueue.reload) :=
  ⟨⟨DelayedReceiptQueue.simulates_empty,
      TrieQueue.refinesVecDeque_of_lawful DelayedReceiptQueue.lawful DelayedReceiptQueue.reloads⟩,
    ⟨OutgoingReceiptBuffer.simulates_empty,
      TrieQueue.refinesVecDeque_of_lawful OutgoingReceiptBuffer.lawful OutgoingReceiptBuffer.reloads⟩,
    ⟨ReceiptGroupsQueue.simulates_empty,
      TrieQueue.refinesVecDeque_of_lawful ReceiptGroupsQueue.lawful ReceiptGroupsQueue.reloads⟩⟩

section Overflow

variable {α : Type}

/-- A `push_back` and a `pop_front` on the empty deque move its front by one. -/
theorem Deque.run_pushPop (a : α) (front : Nat) :
    (Deque.run ⟨front, []⟩ [QueueOp.pushBack a, .popFront]).2 = ⟨front + 1, []⟩ :=
  rfl

theorem Deque.run_pushPopRounds (a : α) (k front : Nat) :
    (Deque.run ⟨front, []⟩ (List.replicate k [QueueOp.pushBack a, .popFront]).flatten).2 = ⟨front + k, []⟩ := by
  induction k generalizing front with
  | zero => rfl
  | succ k ih =>
    rw [Deque.run_snd, List.replicate_succ, List.flatten_cons, List.foldl_append, ← Deque.run_snd,
      ← Deque.run_snd, Deque.run_pushPop, ih, Nat.add_right_comm, Nat.add_assoc]

/-- The rounds are allowed while the front stays below `2^64`. -/
theorem Deque.admits_pushPopRounds (a : α) (k front : Nat) (fits : front + k < UInt64.size) :
    Deque.Admits ⟨front, []⟩ (List.replicate k [QueueOp.pushBack a, .popFront]).flatten := by
  induction k generalizing front with
  | zero => trivial
  | succ k ih =>
    rw [Deque.Admits, List.replicate_succ, List.flatten_cons, List.passesFrom_append, ← Deque.run_snd,
      Deque.run_pushPop]
    refine ⟨⟨?_, trivial, trivial⟩, ih (front + 1) (by omega)⟩
    change front + 0 + 1 < UInt64.size
    omega

end Overflow

/-- After `2^64 - 1` rounds of `push_back` and `pop_front` from the empty delayed receipt
queue, `next_available_index` is `u64::MAX` and the next `push_back` fails. -/
theorem delayedReceiptQueue_pushBack_overflows :
    ((List.replicate (2 ^ 64 - 1) [QueueOp.pushBack (0 : Nat), .popFront]).flatten ++ [QueueOp.pushBack 0]).mapM
      (QueueOp.apply DelayedReceiptQueue.trieQueue DelayedReceiptQueue.reload) (⟨default⟩, fun _ => none) =
      .error .integerOverflow := by
  have admits := Deque.admits_pushPopRounds (0 : Nat) (2 ^ 64 - 1) 0 (by decide)
  obtain ⟨q, trie, ran, sim⟩ :=
    DelayedReceiptQueue.simulates_empty.run DelayedReceiptQueue.lawful DelayedReceiptQueue.reloads _ admits
  rw [Deque.run_pushPopRounds] at sim
  have last : (DelayedReceiptQueue.trieQueue.indices q).firstIndex.toNat = 2 ^ 64 - 1 := sim.front
  have full := sim.represents.pushBack_full 0 (by
    rw [last, List.length_nil]
    decide)
  have failed : QueueOp.apply DelayedReceiptQueue.trieQueue DelayedReceiptQueue.reload (QueueOp.pushBack 0) (q, trie) =
      .error .integerOverflow :=
    StateT.bind_apply_of_error full
  rw [StateT.mapM_append_apply_of_ok _ ran, StateT.mapM_cons_apply_of_error failed]
  rfl

end Nearcore
