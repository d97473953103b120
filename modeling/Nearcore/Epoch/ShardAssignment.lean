import Nearcore.Epoch.ValidatorSelection
import Nearcore.Library.Collections
import Nearcore.Library.Except
import Nearcore.Library.ListSearch
import Nearcore.Library.LoadBalance
import Nearcore.Library.Loop

/-! Chunk producers assigned to shards when there are enough of them to avoid repeats
(`chain/epoch-manager/src/shard_assignment.rs`, `assign_to_balance_shards`). The previous epoch's
assignment is kept for its validators that are chunk producers again, each new one goes to a
shard with the fewest, and then producers drawn at random move from a largest shard to a smallest
one, while a shard lacks its minimum, or while two differ by two or more and the changes are
within their limit. Chunk producers are their positions in the list until the end.

The `BTreeSet` of the shards is a finite set ordered as its items, the `HashSet` of the old
validators their list, the `HashMap` of positions an association list, and the generator any
`RangeSampler`. A shard of the assignment is read with `getD` and changed with `set` and
`modify`: every shard index in the set is below the number of shards, so the indexing panics of
the source cannot happen, and the same holds for the positions of the chunk producers read at
the end. -/
namespace Nearcore

namespace ShardAssignment

open Unsigned Collections

/-- `ShardSetItem`, ordered as its derived `Ord`: by the number of chunk producers of the
shard, then by its index. -/
structure ShardSetItem where
  shardChunkProducerNum : Nat
  shardIndex : Nat

/-- The key the derived order compares. -/
def ShardSetItem.key (item : ShardSetItem) : Lex (Nat × Nat) :=
  toLex (item.shardChunkProducerNum, item.shardIndex)

section
attribute [local simp] ShardSetItem.key
end

theorem ShardSetItem.key_injective : Function.Injective ShardSetItem.key := by
  rintro ⟨num, index⟩ ⟨num', index'⟩ same
  simp only [ShardSetItem.key, toLex_inj, Prod.mk.injEq] at same
  rw [same.1, same.2]

instance : LinearOrder ShardSetItem := LinearOrder.lift' ShardSetItem.key ShardSetItem.key_injective

/-- An item below another has no more chunk producers. -/
theorem ShardSetItem.num_le_of_le {a b : ShardSetItem} (le : a ≤ b) :
    a.shardChunkProducerNum ≤ b.shardChunkProducerNum := by
  have keys : a.key ≤ b.key := le
  rcases (Prod.Lex.toLex_le_toLex).mp keys with less | ⟨same, _⟩
  · exact Nat.le_of_lt less
  · exact Nat.le_of_eq same

/-- `chunk_producer_indices`: each account id with its position in the list, a later position
replacing an earlier one as `collect` into a `HashMap` does. -/
def chunkProducerIndices (chunkProducers : List ValidatorStake) : AList fun _ : AccountId => Nat :=
  chunkProducers.zipIdx.foldl (fun indices entry => indices.insert entry.1.accountId entry.2) ∅

/-- `get_initial_chunk_producer_assignment`: the previous assignment, each validator replaced
by its position among the chunk producers, or dropped if it is not one. -/
def getInitialChunkProducerAssignment (chunkProducers : List ValidatorStake) (numShards : Nat)
    (prevChunkProducersAssignment : Option (List (List ValidatorStake))) :
    Except Panic (List (List Nat)) :=
  match prevChunkProducersAssignment with
  | none => pure (List.replicate numShards [])
  | some prevAssignment =>
    if prevAssignment.length = numShards then
      let indices := chunkProducerIndices chunkProducers
      pure (prevAssignment.map fun validatorStakes =>
        validatorStakes.filterMap fun validatorStake => indices.lookup validatorStake.accountId)
    else
      let left := prevAssignment.length
      let right := numShards
      throw ⟨s!"assertion `left == right` failed\n  left: {left}\n right: {right}"⟩

/-- The number of chunk producers of a shard of an assignment. -/
def shardSizes (assignment : List (List Nat)) (s : Nat) : Nat := (assignment.getD s []).length

/-- The `BTreeSet` of the shards, each with its number of chunk producers. -/
def shardSetOf (sizes : Nat → Nat) (numShards : Nat) : Finset ShardSetItem :=
  ((List.range numShards).map fun s => ⟨sizes s, s⟩).toFinset

section
attribute [local simp] shardSetOf
end

section ShardSet

variable {sizes : Nat → Nat} {numShards : Nat}

theorem mem_shardSetOf {item : ShardSetItem} :
    item ∈ shardSetOf sizes numShards ↔
      item.shardIndex < numShards ∧ item.shardChunkProducerNum = sizes item.shardIndex := by
  obtain ⟨num, index⟩ := item
  simp only [shardSetOf, List.mem_toFinset, List.mem_map, List.mem_range, ShardSetItem.mk.injEq]
  constructor
  · rintro ⟨s, valid, rfl, rfl⟩
    exact ⟨valid, rfl⟩
  · rintro ⟨valid, rfl⟩
    exact ⟨index, valid, rfl, rfl⟩

theorem item_mem_shardSetOf {s : Nat} (valid : s < numShards) : ⟨sizes s, s⟩ ∈ shardSetOf sizes numShards :=
  mem_shardSetOf.mpr ⟨valid, rfl⟩

/-- An item of the set is its shard with its size. -/
theorem eq_of_mem_shardSetOf {item : ShardSetItem} (member : item ∈ shardSetOf sizes numShards) :
    item.shardIndex < numShards ∧ item = ⟨sizes item.shardIndex, item.shardIndex⟩ := by
  obtain ⟨valid, num⟩ := mem_shardSetOf.mp member
  refine ⟨valid, ?_⟩
  rw [← num]

/-- The first item of the set is a shard with the fewest chunk producers. -/
theorem first_shardSetOf {item : ShardSetItem} (found : first (shardSetOf sizes numShards) = some item) :
    ∃ m < numShards, item = ⟨sizes m, m⟩ ∧ ∀ t < numShards, sizes m ≤ sizes t := by
  obtain ⟨member, least⟩ := first_eq_some found
  obtain ⟨valid, shape⟩ := eq_of_mem_shardSetOf member
  refine ⟨item.shardIndex, valid, shape, fun t below => ?_⟩
  have bound := ShardSetItem.num_le_of_le (least _ (item_mem_shardSetOf below))
  rwa [shape] at bound

/-- The last item of the set is a shard with the most chunk producers. -/
theorem last_shardSetOf {item : ShardSetItem} (found : last (shardSetOf sizes numShards) = some item) :
    ∃ M < numShards, item = ⟨sizes M, M⟩ ∧ ∀ t < numShards, sizes t ≤ sizes M := by
  obtain ⟨member, most⟩ := last_eq_some found
  obtain ⟨valid, shape⟩ := eq_of_mem_shardSetOf member
  refine ⟨item.shardIndex, valid, shape, fun t below => ?_⟩
  have bound := ShardSetItem.num_le_of_le (most _ (item_mem_shardSetOf below))
  rwa [shape] at bound

/-- Without the item of shard `m`, the last item is another shard with the most chunk
producers among the others. -/
theorem last_erase_shardSetOf {m : Nat} {item : ShardSetItem}
    (found : last ((shardSetOf sizes numShards).erase ⟨sizes m, m⟩) = some item) :
    ∃ M < numShards, M ≠ m ∧ item = ⟨sizes M, M⟩ ∧ ∀ t < numShards, t ≠ m → sizes t ≤ sizes M := by
  obtain ⟨member, most⟩ := last_eq_some found
  obtain ⟨other, member⟩ := Finset.mem_erase.mp member
  obtain ⟨valid, shape⟩ := eq_of_mem_shardSetOf member
  refine ⟨item.shardIndex, valid, fun same => other (by rw [shape, same]), shape, fun t below notM => ?_⟩
  have kept : (⟨sizes t, t⟩ : ShardSetItem) ∈ (shardSetOf sizes numShards).erase ⟨sizes m, m⟩ :=
    Finset.mem_erase.mpr ⟨fun same => notM (ShardSetItem.mk.inj same).2, item_mem_shardSetOf below⟩
  have bound := ShardSetItem.num_le_of_le (most _ kept)
  rwa [shape] at bound

/-- A set of at least one shard has a first and a last item. -/
theorem first_last_shardSetOf (positive : 0 < numShards) :
    (∃ item, first (shardSetOf sizes numShards) = some item) ∧
      ∃ item, last (shardSetOf sizes numShards) = some item :=
  ⟨first_isSome (item_mem_shardSetOf positive), last_isSome (item_mem_shardSetOf positive)⟩

/-- Replacing the item of shard `i` by one with its new size gives the set of the new sizes. -/
theorem shardSetOf_update {sizes' : Nat → Nat} {i : Nat} (valid : i < numShards)
    (same : ∀ t, t ≠ i → sizes' t = sizes t) :
    insert ⟨sizes' i, i⟩ ((shardSetOf sizes numShards).erase ⟨sizes i, i⟩) = shardSetOf sizes' numShards := by
  ext ⟨num, index⟩
  simp only [Finset.mem_insert, Finset.mem_erase, mem_shardSetOf, ShardSetItem.mk.injEq]
  rcases eq_or_ne index i with rfl | other
  · simp [valid]
  · simp [other, same index other]

/-- The same for the items of two shards. -/
theorem shardSetOf_update_two {sizes' : Nat → Nat} {i j : Nat} (validI : i < numShards)
    (validJ : j < numShards) (distinct : i ≠ j) (same : ∀ t, t ≠ i → t ≠ j → sizes' t = sizes t) :
    insert ⟨sizes' j, j⟩ (insert ⟨sizes' i, i⟩
      (((shardSetOf sizes numShards).erase ⟨sizes i, i⟩).erase ⟨sizes j, j⟩)) =
      shardSetOf sizes' numShards := by
  ext ⟨num, index⟩
  simp only [Finset.mem_insert, Finset.mem_erase, mem_shardSetOf, ShardSetItem.mk.injEq]
  rcases eq_or_ne index i with rfl | notI
  · simp [validI, distinct]
  rcases eq_or_ne index j with rfl | notJ
  · simp [validJ, notI]
  · simp [notI, notJ, same index notI notJ]

end ShardSet

/-- One pass of the loop over the new validators: the first shard of the set, one with the
fewest chunk producers, takes the validator. -/
def placeNewValidator (state : List (List Nat) × Finset ShardSetItem) (validatorIndex : Nat) :
    Except Panic (List (List Nat) × Finset ShardSetItem) := do
  let (chunkProducerAssignment, shardSet) := state
  let (item, shardSet) ← unwrap (popFirst shardSet)
  let shardIndex := item.shardIndex
  let chunkProducerAssignment := chunkProducerAssignment.modify shardIndex (· ++ [validatorIndex])
  pure (chunkProducerAssignment,
    insert ⟨(chunkProducerAssignment.getD shardIndex []).length, shardIndex⟩ shardSet)

/-- The first part of `assign_to_balance_shards`, up to the loop that balances: the initial
assignment with the new validators placed, the shard set, and the number of new validators. -/
def placeNewValidators (chunkProducers : List ValidatorStake) (numShards : Nat)
    (prevChunkProducersAssignment : Option (List (List ValidatorStake))) :
    Except Panic (List (List Nat) × Finset ShardSetItem × Nat) := do
  let numChunkProducers := chunkProducers.length
  let chunkProducerAssignment ←
    getInitialChunkProducerAssignment chunkProducers numShards prevChunkProducersAssignment
  let oldValidators := chunkProducerAssignment.flatten
  let newValidators := (List.range numChunkProducers).filter fun i => i ∉ oldValidators
  let shardSet := shardSetOf (shardSizes chunkProducerAssignment) numShards
  let newAssignments := newValidators.length
  let (chunkProducerAssignment, shardSet) ←
    newValidators.foldlM placeNewValidator (chunkProducerAssignment, shardSet)
  pure (chunkProducerAssignment, shardSet, newAssignments)

/-- The state of the balancing loop. -/
structure BalanceState (σ : Type) where
  chunkProducerAssignment : List (List Nat)
  shardSet : Finset ShardSetItem
  newAssignments : Nat
  rng : σ

section Balance

variable {σ : Type} (sampler : RangeSampler σ)
  (numShards minValidatorsPerShard shardAssignmentChangesLimit numChunkProducers : Nat)

/-- One pass of the loop of `assign_to_balance_shards`: `none` breaks, `some` goes on with a
producer moved from the last shard of the set to the first. -/
def balancePass (state : BalanceState σ) : Except Panic (Option (BalanceState σ)) := do
  let newAssignmentsHardLimit := max numChunkProducers shardAssignmentChangesLimit
  let minimal ← unwrap (first state.shardSet)
  let maximal ← unwrap (last state.shardSet)
  let isMinimalNumSatisfied := minimal.shardChunkProducerNum ≥ minValidatorsPerShard
  -- the first item is below the last, so the `usize` subtraction does not underflow
  let isBalanced := maximal.shardChunkProducerNum - minimal.shardChunkProducerNum ≤ 1
  if isMinimalNumSatisfied ∧ (isBalanced ∨ state.newAssignments ≥ shardAssignmentChangesLimit) then
    return none
  if ¬ state.newAssignments ≤ newAssignmentsHardLimit then
    throw ⟨s!"Couldn\x27t balance {numShards} shards in {newAssignmentsHardLimit}iterations. It means that some chunk producer was selected for new shard twice which shouldn\x27t happen."⟩
  let minimalShard := minimal.shardIndex
  let maximalShard := maximal.shardIndex
  if minimalShard = maximalShard then
    throw ⟨s!"assertion `left != right` failed: Minimal shard and maximal shard are the same: {minimalShard}. Either {numChunkProducers} chunk producers are not enough to satisfy minimal number {minValidatorsPerShard} for {numShards} shards, or we try to balance the shard with itself.\n  left: {minimalShard}\n right: {maximalShard}"⟩
  let (minimal, shardSet) ← unwrap (popFirst state.shardSet)
  let (maximal, shardSet) ← unwrap (popLast shardSet)
  let minimalShard := minimal.shardIndex
  let maximalShard := maximal.shardIndex
  let maximalAssignment := state.chunkProducerAssignment.getD maximalShard []
  let (validatorPos, rng) ← genRange sampler state.rng maximalAssignment.length
  let (validatorIndex, rest) ← swapRemove maximalAssignment validatorPos
  let chunkProducerAssignment := state.chunkProducerAssignment.set maximalShard rest
  let chunkProducerAssignment := chunkProducerAssignment.modify minimalShard (· ++ [validatorIndex])
  let shardSet := insert ⟨(chunkProducerAssignment.getD minimalShard []).length, minimalShard⟩ shardSet
  let shardSet := insert ⟨(chunkProducerAssignment.getD maximalShard []).length, maximalShard⟩ shardSet
  pure (some ⟨chunkProducerAssignment, shardSet, state.newAssignments + 1, rng⟩)

section
attribute [local simp] balancePass
end

/-- What a pass that goes on did: it found the first and the last item, did not break, passed
both assertions, and moved a producer drawn from the last shard left after taking the first off
the set to the first shard. -/
theorem balancePass_eq_some {state next : BalanceState σ}
    (continued : balancePass sampler numShards minValidatorsPerShard shardAssignmentChangesLimit
      numChunkProducers state = .ok (some next)) :
    ∃ minimal maximal, first state.shardSet = some minimal ∧ last state.shardSet = some maximal ∧
      ¬ (minimal.shardChunkProducerNum ≥ minValidatorsPerShard ∧
        (maximal.shardChunkProducerNum - minimal.shardChunkProducerNum ≤ 1 ∨
          state.newAssignments ≥ shardAssignmentChangesLimit)) ∧
      state.newAssignments ≤ max numChunkProducers shardAssignmentChangesLimit ∧
      minimal.shardIndex ≠ maximal.shardIndex ∧
      ∃ maximal' validatorPos rng validatorIndex rest,
        last (state.shardSet.erase minimal) = some maximal' ∧
        genRange sampler state.rng (state.chunkProducerAssignment.getD maximal'.shardIndex []).length =
          .ok (validatorPos, rng) ∧
        swapRemove (state.chunkProducerAssignment.getD maximal'.shardIndex []) validatorPos =
          .ok (validatorIndex, rest) ∧
        next.chunkProducerAssignment = (state.chunkProducerAssignment.set maximal'.shardIndex rest).modify
          minimal.shardIndex (· ++ [validatorIndex]) ∧
        next.shardSet = insert ⟨(next.chunkProducerAssignment.getD maximal'.shardIndex []).length,
          maximal'.shardIndex⟩ (insert ⟨(next.chunkProducerAssignment.getD minimal.shardIndex []).length,
            minimal.shardIndex⟩ ((state.shardSet.erase minimal).erase maximal')) ∧
        next.newAssignments = state.newAssignments + 1 := by
  simp only [balancePass] at continued
  cases firstFound : first state.shardSet with
  | none => simp [firstFound, unwrap] at continued
  | some minimal =>
    cases lastFound : last state.shardSet with
    | none => simp [firstFound, lastFound, unwrap] at continued
    | some maximal =>
      simp only [firstFound, lastFound, unwrap_some, Except.ok_bind] at continued
      split at continued
      · cases continued
      rename_i exits
      -- the assertions on the hard limit and on the two shards panic when they fail
      split at continued
      · simp only [Except.throw_eq_error, Except.error_bind] at continued
        cases continued
      rename_i bounded
      split at continued
      · simp only [Except.throw_eq_error, Except.error_bind] at continued
        cases continued
      rename_i same
      obtain ⟨popped, poppedFound, continued⟩ := Except.bind_eq_ok continued
      rw [unwrap_eq_ok, popFirst_of_first firstFound] at poppedFound
      cases poppedFound
      obtain ⟨poppedLast, lastPopped, continued⟩ := Except.bind_eq_ok continued
      rw [unwrap_eq_ok, popLast] at lastPopped
      obtain ⟨maximal', lastFound', rfl⟩ := Option.map_eq_some_iff.mp lastPopped
      obtain ⟨⟨validatorPos, rng⟩, drawn, continued⟩ := Except.bind_eq_ok continued
      obtain ⟨⟨validatorIndex, rest⟩, removed, continued⟩ := Except.bind_eq_ok continued
      cases continued
      exact ⟨minimal, maximal, rfl, rfl, exits, not_not.mp bounded, same, maximal', validatorPos, rng,
        validatorIndex, rest, lastFound', drawn, removed, rfl, rfl, rfl⟩

/-- A pass that goes on passed the assertion on the hard limit, and counts one more change. -/
theorem balancePass_counts {state next : BalanceState σ}
    (continued : balancePass sampler numShards minValidatorsPerShard shardAssignmentChangesLimit
      numChunkProducers state = .ok (some next)) :
    state.newAssignments ≤ max numChunkProducers shardAssignmentChangesLimit ∧
      next.newAssignments = state.newAssignments + 1 := by
  obtain ⟨-, -, -, -, -, bounded, -, -, -, -, -, -, -, -, -, -, -, counted⟩ :=
    balancePass_eq_some sampler numShards minValidatorsPerShard shardAssignmentChangesLimit
      numChunkProducers continued
  exact ⟨bounded, counted⟩

/-- The balancing loop, which the assertion on the hard limit bounds. -/
def balanceLoop : BalanceState σ → Except Panic (BalanceState σ) :=
  Loop.run (balancePass sampler numShards minValidatorsPerShard shardAssignmentChangesLimit numChunkProducers)
    (fun state => max numChunkProducers shardAssignmentChangesLimit + 1 - state.newAssignments)
    fun _ _ continued => by
      have counted := balancePass_counts sampler numShards minValidatorsPerShard
        shardAssignmentChangesLimit numChunkProducers continued
      omega

end Balance

/-- `assign_to_balance_shards`. -/
def assignToBalanceShards {σ : Type} (sampler : RangeSampler σ) (rng : σ)
    (chunkProducers : List ValidatorStake) (numShards minValidatorsPerShard shardAssignmentChangesLimit : Nat)
    (prevChunkProducersAssignment : Option (List (List ValidatorStake))) :
    Except Panic (List (List ValidatorStake)) := do
  let (chunkProducerAssignment, shardSet, newAssignments) ←
    placeNewValidators chunkProducers numShards prevChunkProducersAssignment
  let final ← balanceLoop sampler numShards minValidatorsPerShard shardAssignmentChangesLimit
    chunkProducers.length ⟨chunkProducerAssignment, shardSet, newAssignments, rng⟩
  pure (final.chunkProducerAssignment.map fun assignment =>
    (assignment.mergeSort fun a b => decide (a ≤ b)).filterMap fun i => chunkProducers[i]?)

end ShardAssignment

end Nearcore
