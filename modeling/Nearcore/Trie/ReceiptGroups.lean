import Nearcore.Trie.QueueImpls

/-! The receipt groups mirror the outgoing buffer they are kept for (`outgoing_metadata.rs`,
`receipt_groups_queue_random_test`). While receipts of positive size are pushed and the oldest
one is popped with its own size and gas, the groups split the buffered receipts into
consecutive runs, each group the total of its run and, when the run has more than one
receipt, within the bounds; the queue's totals are those of the buffer; and a pop never
panics, so the only panics are the checked additions of a push and its index overflow. -/
namespace Nearcore

namespace ReceiptGroupsQueue

variable {R : Type}

/-- What the queue operations keep of a queue of groups: its shard and totals. -/
def totals (queue : ReceiptGroupsQueue) : ShardId × Nat × Nat × Nat :=
  (queue.receiverShard, queue.data.totalSize, queue.data.totalGas, queue.data.totalReceiptsNum)

section
attribute [local simp] totals
end

theorem totals_indicesMut (queue : ReceiptGroupsQueue) (change : TrieQueueIndices → TrieQueueIndices) :
    ((trieQueue (R := R)).indicesMut queue change).totals = queue.totals :=
  rfl

/-- Once its data is written, the queue reloads as itself. -/
theorem reload_writeIndices (queue : ReceiptGroupsQueue) (trie : TrieUpdate R) :
    reload queue ((trieQueue (R := R)).writeIndices queue trie) = .ok queue := by
  simp [reload, load, trieQueue, saveData, loadData]

/-- A group stands for a non-empty run of receipts (size, gas): it holds the run's total size and
gas, and a run of more than one receipt is within the bounds. -/
structure GroupOf (config : ReceiptGroupsConfig) (group : ReceiptGroup) (run : List (Nat × Nat)) : Prop where
  nonempty : run ≠ []
  size : group.size = (run.map Prod.fst).sum
  gas : group.gas = (run.map Prod.snd).sum
  bounded : 1 < run.length → group.size ≤ config.sizeUpperBound ∧ group.gas ≤ config.gasUpperBound

/-- The queue and trie keep the groups of a buffer of `live` receipts, oldest first, laid out as
`layout`: each group with the run it stands for. The queue's data is the one saved. -/
structure Layout (config : ReceiptGroupsConfig) (queue : ReceiptGroupsQueue) (trie : TrieUpdate R)
    (live : List (Nat × Nat)) (layout : List (ReceiptGroup × List (Nat × Nat))) : Prop where
  represents : (trieQueue (R := R)).Represents queue trie (layout.map Prod.fst)
  saved : reload queue trie = .ok queue
  partition : (layout.map Prod.snd).flatten = live
  groups : ∀ entry ∈ layout, GroupOf config entry.1 entry.2
  totalSize : queue.data.totalSize = (live.map Prod.fst).sum
  totalGas : queue.data.totalGas = (live.map Prod.snd).sum
  totalReceiptsNum : queue.data.totalReceiptsNum = live.length
  positive : ∀ receipt ∈ live, 0 < receipt.1

/-- The queue mirrors the buffer when its groups are laid out over it. -/
def Mirrors (config : ReceiptGroupsConfig) (queue : ReceiptGroupsQueue) (trie : TrieUpdate R)
    (live : List (Nat × Nat)) : Prop :=
  ∃ layout, Layout config queue trie live layout

/-- A new queue mirrors the empty buffer in a trie without it. -/
theorem mirrors_new (config : ReceiptGroupsConfig) (receiverShard : ShardId) :
    Mirrors config (new receiverShard) (fun _ => none : TrieUpdate R) [] := by
  refine ⟨[], ⟨(simulates_empty receiverShard).represents, ?_, rfl, by simp, rfl, rfl, rfl, by simp⟩⟩
  simp [reload, load, loadData, new]

/-- The queue's groups are as many as its indices span. -/
theorem Layout.len {config : ReceiptGroupsConfig} {queue : ReceiptGroupsQueue} {trie : TrieUpdate R}
    {live : List (Nat × Nat)} {layout : List (ReceiptGroup × List (Nat × Nat))}
    (laid : Layout config queue trie live layout) : queue.data.indices.len = layout.length := by
  have next := laid.represents.next
  simp only [List.length_map] at next
  change queue.data.indices.firstIndex.toNat + layout.length = queue.data.indices.nextAvailableIndex.toNat at next
  simp only [TrieQueueIndices.len]
  omega

/-- A group's run is a part of the buffer: the group's size and gas are at most the totals. -/
theorem Layout.group_le {config : ReceiptGroupsConfig} {queue : ReceiptGroupsQueue} {trie : TrieUpdate R}
    {live : List (Nat × Nat)} {layout : List (ReceiptGroup × List (Nat × Nat))}
    (laid : Layout config queue trie live layout) {entry : ReceiptGroup × List (Nat × Nat)} (member : entry ∈ layout) :
    entry.1.size ≤ queue.data.totalSize ∧ entry.1.gas ≤ queue.data.totalGas := by
  have sublist : entry.2.Sublist live := by
    rw [← laid.partition]
    exact List.sublist_flatten_of_mem (List.mem_map_of_mem member)
  have group := laid.groups entry member
  rw [group.size, group.gas, laid.totalSize, laid.totalGas]
  exact ⟨(sublist.map Prod.fst).sum_le_sum (fun _ _ => Nat.zero_le _),
    (sublist.map Prod.snd).sum_le_sum (fun _ _ => Nat.zero_le _)⟩

section Pop

variable {config : ReceiptGroupsConfig} {queue : ReceiptGroupsQueue} {trie : TrieUpdate R}
  {size gas : Nat} {rest : List (Nat × Nat)} {layout : List (ReceiptGroup × List (Nat × Nat))}

/-- The oldest receipt opens the first group's run. -/
theorem Layout.cons_front (laid : Layout config queue trie ((size, gas) :: rest) layout) :
    ∃ group run others, layout = (group, (size, gas) :: run) :: others ∧
      run ++ (others.map Prod.snd).flatten = rest := by
  cases layout with
  | nil =>
    have partition := laid.partition
    simp at partition
  | cons entry others =>
    obtain ⟨group, runs⟩ := entry
    obtain ⟨receipt, run, rfl⟩ := List.exists_cons_of_ne_nil (laid.groups _ List.mem_cons_self).nonempty
    have partition := laid.partition
    simp only [List.map_cons, List.flatten_cons, List.cons_append, List.cons.injEq] at partition
    obtain ⟨rfl, restEq⟩ := partition
    exact ⟨group, run, others, rfl, restEq⟩

/-- A run of receipts of positive size has a positive total size exactly when it is not empty. -/
theorem sum_fst_pos {run : List (Nat × Nat)} (positive : ∀ receipt ∈ run, 0 < receipt.1) (nonempty : run ≠ []) :
    0 < (run.map Prod.fst).sum := by
  obtain ⟨receipt, others, rfl⟩ := List.exists_cons_of_ne_nil nonempty
  have first := positive receipt List.mem_cons_self
  simp only [List.map_cons, List.sum_cons]
  omega

/-- The closure of `update_on_receipt_popped` takes the oldest receipt out of the first group,
and removes the group when that was its last receipt. -/
theorem shrinkFirstGroup_eq {group : ReceiptGroup} {run : List (Nat × Nat)}
    (groupOf : GroupOf config group ((size, gas) :: run)) (positive : ∀ receipt ∈ run, 0 < receipt.1) :
    shrinkFirstGroup size gas group =
      .ok (if run = [] then none else some ⟨group.size - size, group.gas - gas⟩) := by
  have sizeSum := groupOf.size
  have gasSum := groupOf.gas
  simp only [List.map_cons, List.sum_cons] at sizeSum gasSum
  simp only [shrinkFirstGroup, subtractSizeChecked, subtractGasChecked,
    checkedSub_of_le (show size ≤ group.size by omega), checkedSub_of_le (show gas ≤ group.gas by omega),
    Except.ok_bind]
  by_cases empty : run = []
  · -- the group's size and gas were the receipt's
    subst empty
    simp [ReceiptGroup.isEmpty, sizeSum, gasSum]
  · have left := sum_fst_pos positive empty
    simp [ReceiptGroup.isEmpty, empty, show group.size - size ≠ 0 by omega]

/-- The groups after a pop: what is left of the first group, and the others. -/
theorem Layout.popped {group : ReceiptGroup} {run : List (Nat × Nat)}
    {front others : List (ReceiptGroup × List (Nat × Nat))} {queue' : ReceiptGroupsQueue} {trie' : TrieUpdate R}
    (laid : Layout config queue trie ((size, gas) :: rest) ((group, (size, gas) :: run) :: others))
    (restEq : run ++ (others.map Prod.snd).flatten = rest)
    (represents : (trieQueue (R := R)).Represents queue' trie' ((front ++ others).map Prod.fst))
    (saved : reload queue' trie' = .ok queue')
    (totalSize : queue'.data.totalSize = queue.data.totalSize - size)
    (totalGas : queue'.data.totalGas = queue.data.totalGas - gas)
    (totalReceiptsNum : queue'.data.totalReceiptsNum = queue.data.totalReceiptsNum - 1)
    (frontRuns : (front.map Prod.snd).flatten = run) (frontGroups : ∀ entry ∈ front, GroupOf config entry.1 entry.2) :
    Layout config queue' trie' rest (front ++ others) := by
  have sizes := laid.totalSize
  have gases := laid.totalGas
  have count := laid.totalReceiptsNum
  simp only [List.map_cons, List.sum_cons, List.length_cons] at sizes gases count
  refine ⟨represents, saved, ?_, ?_, by omega, by omega, by omega, ?_⟩
  · rw [List.map_append, List.flatten_append, frontRuns, restEq]
  · intro entry member
    rcases List.mem_append.mp member with inFront | inOthers
    · exact frontGroups entry inFront
    · exact laid.groups entry (List.mem_cons_of_mem _ inOthers)
  · exact fun receipt member => laid.positive receipt (List.mem_cons_of_mem _ member)

/-- `update_on_receipt_popped` of the oldest receipt succeeds, and the queue then mirrors the
rest of the buffer: the checked subtractions stay above zero, there is a group to pop from,
and the first group empties exactly when its run does. -/
theorem Mirrors.popped (mirror : Mirrors config queue trie ((size, gas) :: rest)) :
    ∃ queue' trie', updateOnReceiptPopped size gas (queue, trie) = .ok ((), queue', trie') ∧
      Mirrors config queue' trie' rest := by
  obtain ⟨layout, laid⟩ := mirror
  obtain ⟨group, run, others, rfl, restEq⟩ := laid.cons_front
  have groupOf := laid.groups _ List.mem_cons_self
  have positive : ∀ receipt ∈ run, 0 < receipt.1 := fun receipt member =>
    laid.positive receipt (List.mem_cons_of_mem _ (restEq ▸ List.mem_append_left _ member))
  have sizes := laid.totalSize
  have gases := laid.totalGas
  have count := laid.totalReceiptsNum
  simp only [List.map_cons, List.sum_cons, List.length_cons] at sizes gases count
  let queue₁ : ReceiptGroupsQueue := { queue with data := { queue.data with
    totalSize := queue.data.totalSize - size, totalGas := queue.data.totalGas - gas,
    totalReceiptsNum := queue.data.totalReceiptsNum - 1 } }
  have represents₁ : (trieQueue (R := R)).Represents queue₁ trie (((group, (size, gas) :: run) :: others).map Prod.fst) :=
    laid.represents.congr rfl rfl rfl
  obtain ⟨queue', trie', modified, represents', _⟩ :=
    represents₁.modifyFirst ReceiptGroupsQueue.lawful (shrinkFirstGroup size gas) (shrinkFirstGroup_eq groupOf positive)
  have groupsLeft : queue₁.data.indices.len > 0 := by
    rw [show queue₁.data.indices = queue.data.indices from rfl, laid.len]
    simp
  have popped : updateOnReceiptPopped size gas (queue, trie) = .ok ((), queue', trie') := by
    simp only [updateOnReceiptPopped, subtractSizeChecked, subtractGasChecked,
      checkedSub_of_le (show size ≤ queue.data.totalSize by omega),
      checkedSub_of_le (show gas ≤ queue.data.totalGas by omega),
      checkedSub_of_le (show 1 ≤ queue.data.totalReceiptsNum by omega), Except.ok_bind]
    rw [if_pos groupsLeft]
    exact modified
  have saved : reload queue' trie' = .ok queue' := by
    obtain ⟨t, rfl⟩ := TrieQueue.modifyFirst_written _ modified
    exact reload_writeIndices queue' t
  have kept := TrieQueue.modifyFirst_keeps _ totals (totals_indicesMut (R := R)) modified
  simp only [totals, Prod.mk.injEq] at kept
  obtain ⟨-, totalSize, totalGas, totalReceiptsNum⟩ := kept
  refine ⟨queue', trie', popped, ?_⟩
  by_cases empty : run = []
  · -- the group goes with its last receipt
    rw [if_pos empty] at represents'
    exact ⟨[] ++ others, laid.popped restEq represents' saved totalSize totalGas totalReceiptsNum
      (by simp [empty]) (by simp)⟩
  · rw [if_neg empty] at represents'
    have shrunk : GroupOf config ⟨group.size - size, group.gas - gas⟩ run := by
      have sizeSum := groupOf.size
      have gasSum := groupOf.gas
      simp only [List.map_cons, List.sum_cons] at sizeSum gasSum
      refine ⟨empty, by simp; omega, by simp; omega, fun longer => ?_⟩
      have bounds := groupOf.bounded (by simp; omega)
      exact ⟨Nat.le_trans (Nat.sub_le _ _) bounds.1, Nat.le_trans (Nat.sub_le _ _) bounds.2⟩
    exact ⟨[(⟨group.size - size, group.gas - gas⟩, run)] ++ others,
      laid.popped restEq (by simpa using represents') saved totalSize totalGas totalReceiptsNum (by simp)
        (by simpa using shrunk)⟩

end Pop

section Push

variable {config : ReceiptGroupsConfig} {queue : ReceiptGroupsQueue} {trie : TrieUpdate R}
  {size gas : Nat} {live : List (Nat × Nat)} {layout : List (ReceiptGroup × List (Nat × Nat))}

/-- The panics a push may end in: a checked addition past its bound, or a push at the last
index. -/
def pushPanics : List String :=
  ["add_size_checked - Overflow! Reached exabytes of size!",
    "add_gas_checked - Overflow! Total gas doesn't fit into u128!",
    "Overflow! - Number of receipts doesn't fit into u64!", "Integer overflow on push"]

section
attribute [local simp] pushPanics
end

/-- Where a run of updates may end: in a queue that mirrors the buffer `live`, or in one of the
panics of a push. -/
def Ends {β : Type} (config : ReceiptGroupsConfig) (live : List (Nat × Nat)) :
    Except QueueError (β × ReceiptGroupsQueue × TrieUpdate R) → Prop
  | .ok (_, queue, trie) => Mirrors config queue trie live
  | .error error => ∃ message ∈ pushPanics, error = .panic message

theorem ends_panic {β : Type} {message : String} (member : message ∈ pushPanics) :
    Ends (β := β) (R := R) config live (.error (.panic message)) :=
  ⟨message, member, rfl⟩

/-- A push of a group to a represented queue either succeeds, writing the data back and
keeping the totals, or fails at the last index. -/
theorem pushBackExpect_cases {groups : List ReceiptGroup}
    (represents : (trieQueue (R := R)).Represents queue trie groups) (group : ReceiptGroup) :
    (∃ queue' trie', pushBackExpect group (queue, trie) = .ok ((), queue', trie') ∧
      (trieQueue (R := R)).Represents queue' trie' (groups ++ [group]) ∧ queue'.totals = queue.totals ∧
      reload queue' trie' = .ok queue') ∨
    pushBackExpect group (queue, trie) = .error (.panic "Integer overflow on push") := by
  by_cases room : ((trieQueue (R := R)).indices queue).firstIndex.toNat + groups.length + 1 < UInt64.size
  · obtain ⟨queue', trie', pushed, represents', -⟩ := represents.pushBack ReceiptGroupsQueue.lawful group room
    obtain ⟨t, rfl⟩ := TrieQueue.pushBack_written _ pushed
    exact .inl ⟨queue', _, by simp [pushBackExpect, pushed], represents',
      TrieQueue.pushBack_keeps _ totals (totals_indicesMut (R := R)) pushed, reload_writeIndices queue' t⟩
  · exact .inr (by simp [pushBackExpect, represents.pushBack_full group room])

/-- `should_start_new_group` when the sums fit: a new group exactly when joining the last one
would take it over a bound. -/
theorem shouldStartNewGroup_eq {last : ReceiptGroup} (sizeFits : last.size + size < 2 ^ 64)
    (gasFits : last.gas + gas < 2 ^ 128) :
    config.shouldStartNewGroup last size gas =
      .ok (decide (config.sizeUpperBound < last.size + size ∨ config.gasUpperBound < last.gas + gas)) := by
  simp only [ReceiptGroupsConfig.shouldStartNewGroup, addSizeChecked, addGasChecked, checkedAdd,
    if_pos sizeFits, if_pos gasFits, Except.ok_bind]
  by_cases tooLarge : config.sizeUpperBound < last.size + size
  · simp [tooLarge]
  · by_cases tooMuchGas : config.gasUpperBound < last.gas + gas
    · simp [tooLarge, tooMuchGas]
    · simp [tooLarge, tooMuchGas]

/-- The groups after a push, over the buffer with the new receipt at its end. -/
theorem Layout.pushed {layout' : List (ReceiptGroup × List (Nat × Nat))} {queue' : ReceiptGroupsQueue}
    {trie' : TrieUpdate R} (laid : Layout config queue trie live layout) (positive : 0 < size)
    (represents : (trieQueue (R := R)).Represents queue' trie' (layout'.map Prod.fst))
    (saved : reload queue' trie' = .ok queue')
    (totalSize : queue'.data.totalSize = queue.data.totalSize + size)
    (totalGas : queue'.data.totalGas = queue.data.totalGas + gas)
    (totalReceiptsNum : queue'.data.totalReceiptsNum = queue.data.totalReceiptsNum + 1)
    (partition : (layout'.map Prod.snd).flatten = live ++ [(size, gas)])
    (groups : ∀ entry ∈ layout', GroupOf config entry.1 entry.2) :
    Layout config queue' trie' (live ++ [(size, gas)]) layout' := by
  refine ⟨represents, saved, partition, groups, ?_, ?_, ?_, ?_⟩
  · simp [totalSize, laid.totalSize]
  · simp [totalGas, laid.totalGas]
  · simp [totalReceiptsNum, laid.totalReceiptsNum]
  · intro receipt member
    rcases List.mem_append.mp member with old | new
    · exact laid.positive receipt old
    · rw [List.mem_singleton.mp new]
      exact positive

theorem ends_of_error {β : Type} {result : Except QueueError (β × ReceiptGroupsQueue × TrieUpdate R)}
    (message : String) (member : message ∈ pushPanics) (failed : result = .error (.panic message)) :
    Ends config live result := by
  rw [failed]
  exact ⟨message, member, rfl⟩

/-- A new group holds its one receipt. -/
theorem groupOf_new : GroupOf config (ReceiptGroup.new size gas) [(size, gas)] :=
  ⟨by simp, by simp [ReceiptGroup.new], by simp [ReceiptGroup.new], by simp⟩

/-- `update_on_receipt_pushed` of a receipt of positive size panics in a checked addition or
at the last index, or leaves a queue that mirrors the buffer with the receipt at its end: the
receipt joins the last group unless that takes the group over a bound. -/
theorem Mirrors.pushed (mirror : Mirrors config queue trie live) (positive : 0 < size) :
    Ends config (live ++ [(size, gas)]) (updateOnReceiptPushed size gas config (queue, trie)) := by
  obtain ⟨layout, laid⟩ := mirror
  -- the checked additions to the totals
  by_cases sizeFits : queue.data.totalSize + size < 2 ^ 64
  swap
  · exact ends_of_error "add_size_checked - Overflow! Reached exabytes of size!" (by simp [pushPanics])
      (by simp only [updateOnReceiptPushed, addSizeChecked, checkedAdd_of_not_lt sizeFits, Except.error_bind])
  by_cases gasFits : queue.data.totalGas + gas < 2 ^ 128
  swap
  · exact ends_of_error "add_gas_checked - Overflow! Total gas doesn't fit into u128!" (by simp [pushPanics])
      (by simp only [updateOnReceiptPushed, addSizeChecked, addGasChecked, checkedAdd_of_lt sizeFits,
        checkedAdd_of_not_lt gasFits, Except.ok_bind, Except.error_bind])
  by_cases countFits : queue.data.totalReceiptsNum + 1 < 2 ^ 64
  swap
  · exact ends_of_error "Overflow! - Number of receipts doesn't fit into u64!" (by simp [pushPanics])
      (by simp only [updateOnReceiptPushed, addSizeChecked, addGasChecked, checkedAdd_of_lt sizeFits,
        checkedAdd_of_lt gasFits, checkedAdd_of_not_lt countFits, Except.ok_bind, Except.error_bind])
  -- the last group is taken out of the queue with the new totals
  have represents₁ : (trieQueue (R := R)).Represents { queue with data := { queue.data with
      totalSize := queue.data.totalSize + size, totalGas := queue.data.totalGas + gas,
      totalReceiptsNum := queue.data.totalReceiptsNum + 1 } } trie (layout.map Prod.fst) :=
    laid.represents.congr rfl rfl rfl
  obtain ⟨queue₂, trie₂, popped, represents₂, -⟩ := represents₁.popBack ReceiptGroupsQueue.lawful
  have kept₂ := TrieQueue.popBack_keeps _ totals (totals_indicesMut (R := R)) popped
  rcases layout.eq_nil_or_concat with rfl | ⟨init, ⟨last, lastRun⟩, rfl⟩
  · -- no group yet: the receipt starts the first one
    have empty : live = [] := by simpa using laid.partition.symm
    subst empty
    rcases pushBackExpect_cases represents₂ (ReceiptGroup.new size gas) with
      ⟨queue₃, trie₃, pushed, represents₃, kept₃, saved₃⟩ | overflow
    · have updated : updateOnReceiptPushed size gas config (queue, trie) = .ok ((), queue₃, trie₃) := by
        simp only [updateOnReceiptPushed, addSizeChecked, addGasChecked, checkedAdd_of_lt sizeFits,
          checkedAdd_of_lt gasFits, checkedAdd_of_lt countFits, Except.ok_bind, popped]
        simpa using pushed
      have kept := kept₃.trans kept₂
      simp only [totals, Prod.mk.injEq] at kept
      obtain ⟨-, totalSize, totalGas, totalReceiptsNum⟩ := kept
      rw [updated]
      exact ⟨[(ReceiptGroup.new size gas, [(size, gas)])], laid.pushed positive (by simpa using represents₃) saved₃ totalSize totalGas totalReceiptsNum
        (by simp) (by simpa using groupOf_new)⟩
    · exact ends_of_error "Integer overflow on push" (by simp [pushPanics])
        (by simp only [updateOnReceiptPushed, addSizeChecked, addGasChecked, checkedAdd_of_lt sizeFits,
          checkedAdd_of_lt gasFits, checkedAdd_of_lt countFits, Except.ok_bind, popped]
            simpa using overflow)
  · -- the last group is inspected; the sums fit, as the group is part of the totals
    simp only [List.concat_eq_append] at laid popped represents₂
    have lastIn : (last, lastRun) ∈ init ++ [(last, lastRun)] := by simp
    have lastGroup : GroupOf config last lastRun := laid.groups _ lastIn
    have bounds : last.size ≤ queue.data.totalSize ∧ last.gas ≤ queue.data.totalGas := laid.group_le lastIn
    have should : config.shouldStartNewGroup last size gas =
        .ok (decide (config.sizeUpperBound < last.size + size ∨ config.gasUpperBound < last.gas + gas)) :=
      shouldStartNewGroup_eq (by omega) (by omega)
    have popped' : (trieQueue (R := R)).popBack ({ queue with data := { queue.data with
        totalSize := queue.data.totalSize + size, totalGas := queue.data.totalGas + gas,
        totalReceiptsNum := queue.data.totalReceiptsNum + 1 } }, trie) = .ok (some last, queue₂, trie₂) := by
      simpa using popped
    have represents₂' : (trieQueue (R := R)).Represents queue₂ trie₂ (init.map Prod.fst) := by
      simpa using represents₂
    -- the run up to the inspection of the last group
    have unfolded : updateOnReceiptPushed size gas config (queue, trie) =
        (config.shouldStartNewGroup last size gas >>= fun start =>
          if start = true then pushBackExpect last (queue₂, trie₂) >>= fun state =>
            pushBackExpect (ReceiptGroup.new size gas) state.2
          else addSizeChecked last.size size >>= fun size' => addGasChecked last.gas gas >>= fun gas' =>
            pushBackExpect ⟨size', gas'⟩ (queue₂, trie₂)) := by
      simp only [updateOnReceiptPushed, addSizeChecked, addGasChecked, checkedAdd_of_lt sizeFits,
        checkedAdd_of_lt gasFits, checkedAdd_of_lt countFits, Except.ok_bind, popped']
    rw [unfolded, should, Except.ok_bind]
    by_cases start : config.sizeUpperBound < last.size + size ∨ config.gasUpperBound < last.gas + gas
    · -- the last group goes back as it was, and the receipt starts a new one
      rw [if_pos (decide_eq_true start)]
      rcases pushBackExpect_cases represents₂' last with
        ⟨queue₃, trie₃, pushed₃, represents₃, kept₃, -⟩ | overflow
      · rw [pushed₃, Except.ok_bind]
        rcases pushBackExpect_cases represents₃ (ReceiptGroup.new size gas) with
          ⟨queue₄, trie₄, pushed₄, represents₄, kept₄, saved₄⟩ | overflow
        · have kept := (kept₄.trans kept₃).trans kept₂
          simp only [totals, Prod.mk.injEq] at kept
          obtain ⟨-, totalSize, totalGas, totalReceiptsNum⟩ := kept
          rw [pushed₄]
          refine ⟨init ++ [(last, lastRun), (ReceiptGroup.new size gas, [(size, gas)])],
            laid.pushed positive (by simpa using represents₄) saved₄ totalSize totalGas totalReceiptsNum
              (by rw [← laid.partition]; simp) ?_⟩
          intro entry member
          rcases List.mem_append.mp member with old | new
          · exact laid.groups entry (List.mem_append_left _ old)
          · rcases List.mem_cons.mp new with same | new
            · exact same ▸ lastGroup
            · rw [List.mem_singleton.mp new]
              exact groupOf_new
        · exact ends_of_error "Integer overflow on push" (by simp [pushPanics]) overflow
      · exact ends_of_error "Integer overflow on push" (by simp [pushPanics]) (by rw [overflow]; rfl)
    · -- the receipt joins the last group, which stays within the bounds
      rw [if_neg (by simpa using start), addSizeChecked, addGasChecked, checkedAdd_of_lt (by omega),
        checkedAdd_of_lt (by omega), Except.ok_bind, Except.ok_bind]
      rcases pushBackExpect_cases represents₂' ⟨last.size + size, last.gas + gas⟩ with
        ⟨queue₃, trie₃, pushed₃, represents₃, kept₃, saved₃⟩ | overflow
      · have kept := kept₃.trans kept₂
        simp only [totals, Prod.mk.injEq] at kept
        obtain ⟨-, totalSize, totalGas, totalReceiptsNum⟩ := kept
        have joined : GroupOf config ⟨last.size + size, last.gas + gas⟩ (lastRun ++ [(size, gas)]) := by
          simp only [not_or, Nat.not_lt] at start
          refine ⟨by simp, by simp [lastGroup.size], by simp [lastGroup.gas], fun _ => start⟩
        rw [pushed₃]
        refine ⟨init ++ [(⟨last.size + size, last.gas + gas⟩, lastRun ++ [(size, gas)])],
          laid.pushed positive (by simpa using represents₃) saved₃ totalSize totalGas totalReceiptsNum
            (by rw [← laid.partition]; simp) ?_⟩
        intro entry member
        rcases List.mem_append.mp member with old | new
        · exact laid.groups entry (List.mem_append_left _ old)
        · rw [List.mem_singleton.mp new]
          exact joined
      · exact ends_of_error "Integer overflow on push" (by simp [pushPanics]) overflow

end Push

theorem ends_map {β γ : Type} (g : β → γ) (result : Except QueueError (β × ReceiptGroupsQueue × TrieUpdate R)) :
    Ends config live ((fun r => (g r.1, r.2)) <$> result) ↔ Ends config live result := by
  cases result <;> rfl

end ReceiptGroupsQueue

/-- An operation on the outgoing buffer, as the groups queue sees it: a receipt pushed or popped
with its size and gas, or the queue reloaded from the trie. -/
inductive BufferOp where
  | pushed (size gas : Nat)
  | popped (size gas : Nat)
  | reload

namespace BufferOp

variable {R : Type}

/-- The operation on the groups queue and the trie. -/
def apply (config : ReceiptGroupsConfig) : BufferOp → QueueM R ReceiptGroupsQueue Unit
  | pushed size gas => ReceiptGroupsQueue.updateOnReceiptPushed size gas config
  | popped size gas => ReceiptGroupsQueue.updateOnReceiptPopped size gas
  | .reload => fun (queue, trie) =>
    match ReceiptGroupsQueue.reload queue trie with
    | .ok queue => .ok ((), queue, trie)
    | .error error => .error (.storage error)

section
attribute [local simp] apply
end

/-- The buffer's receipts after the operation, oldest first. -/
def buffer : BufferOp → List (Nat × Nat) → List (Nat × Nat)
  | pushed size gas, live => live ++ [(size, gas)]
  | popped _ _, live => live.tail
  | .reload, live => live

section
attribute [local simp] buffer
end

/-- The buffer's own discipline: a receipt pushed has a positive size, and the receipt popped is
the oldest one, with its size and gas. -/
def Fifo : BufferOp → List (Nat × Nat) → Prop
  | pushed size _, _ => 0 < size
  | popped size gas, live => live.head? = some (size, gas)
  | .reload, _ => True

section
attribute [local simp] Fifo
end

end BufferOp

namespace ReceiptGroupsQueue

section Run

variable {R : Type} {config : ReceiptGroupsConfig}

theorem Mirrors.step {queue : ReceiptGroupsQueue} {trie : TrieUpdate R} {live : List (Nat × Nat)}
    (mirror : Mirrors config queue trie live) (op : BufferOp) (fifo : op.Fifo live) :
    Ends config (op.buffer live) (op.apply config (queue, trie)) := by
  cases op with
  | pushed size gas => exact mirror.pushed fifo
  | popped size gas =>
    -- the popped receipt is the oldest one
    obtain ⟨rest, rfl⟩ : ∃ rest, live = (size, gas) :: rest := by
      cases live with
      | nil => simp [BufferOp.Fifo] at fifo
      | cons receipt rest =>
        simp only [BufferOp.Fifo, List.head?_cons, Option.some.injEq] at fifo
        exact ⟨rest, by rw [fifo]⟩
    obtain ⟨queue', trie', popped, mirror'⟩ := mirror.popped
    rw [BufferOp.apply, popped]
    exact mirror'
  | reload =>
    obtain ⟨layout, laid⟩ := mirror
    rw [BufferOp.apply]
    simp only [laid.saved]
    exact ⟨layout, laid⟩

/-- A run of the buffer's operations ends in a queue that mirrors the buffer, or in a panic of a
push: by induction on the run from `Mirrors.step`. -/
theorem Mirrors.run : ∀ (ops : List BufferOp) {queue : ReceiptGroupsQueue} {trie : TrieUpdate R}
    {live : List (Nat × Nat)}, Mirrors config queue trie live →
    List.PassesFrom (fun live op => op.buffer live) (fun live op => op.Fifo live) live ops →
      Ends config (ops.foldl (fun live op => op.buffer live) live) (ops.mapM (BufferOp.apply config) (queue, trie))
  | [], _, _, _, mirror, _ => mirror
  | op :: ops, queue, trie, live, mirror, ⟨fifo, rest⟩ => by
    have step := mirror.step op fifo
    cases result : op.apply config (queue, trie) with
    | error error =>
      rw [result] at step
      rw [StateT.mapM_cons_apply_of_error result]
      exact step
    | ok r =>
      obtain ⟨_, queue', trie'⟩ := r
      rw [result] at step
      rw [StateT.mapM_cons_apply_of_ok result, ends_map]
      exact Mirrors.run ops step rest

end Run

/-- A new queue of groups mirrors the empty buffer, and every run of the buffer's operations
keeps the mirror: it ends in a queue whose groups split the buffer into runs with their sums,
within the bounds, with the buffer's totals, or in a panic of a push; a pop never panics. -/
theorem receiptGroups_mirror_buffer {R : Type} (config : ReceiptGroupsConfig) :
    (∀ receiverShard, Mirrors config (new receiverShard) (fun _ => none : TrieUpdate R) []) ∧
    ∀ (queue : ReceiptGroupsQueue) (trie : TrieUpdate R) live (ops : List BufferOp), Mirrors config queue trie live →
      List.PassesFrom (fun live op => op.buffer live) (fun live op => op.Fifo live) live ops →
      Ends config (ops.foldl (fun live op => op.buffer live) live) (ops.mapM (BufferOp.apply config) (queue, trie)) :=
  ⟨mirrors_new config, fun _ _ _ ops mirror fifo => Mirrors.run ops mirror fifo⟩

/-- Two receipts pushed to a new queue and popped again. -/
theorem receiptGroups_mirror_buffer_twoReceipts :
    Ends (R := Nat) ⟨100, 100⟩ []
      ([BufferOp.pushed 1 1, .pushed 1 1, .popped 1 1, .popped 1 1].mapM (BufferOp.apply ⟨100, 100⟩)
        (new 0, fun _ => none)) :=
  (receiptGroups_mirror_buffer ⟨100, 100⟩).2 _ _ [] [BufferOp.pushed 1 1, .pushed 1 1, .popped 1 1, .popped 1 1]
    ((receiptGroups_mirror_buffer ⟨100, 100⟩).1 0)
    (by simp [BufferOp.Fifo, BufferOp.buffer])

end ReceiptGroupsQueue

end Nearcore
