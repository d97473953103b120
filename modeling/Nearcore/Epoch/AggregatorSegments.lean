import Nearcore.Epoch.InfoAggregator

/-! The aggregation of a chain of blocks of one epoch from its tip back, as
`aggregate_epoch_info_upto` walks it (`aggregateChain`), and how it splits at any block: the
aggregators of the two segments, combined by `merge` or by `merge_prefix`, hold the statistics of
the whole chain. Along a chain of increasing heights the expected blocks add up to the heights it
spans, and every aggregator the epoch manager can build has no stat with more produced than
expected. -/
namespace Nearcore.EpochManager

open EntryMap Unsigned

/-- The blocks of a chain, oldest first, each with its parent's height: the block before it, and
`parentHeight` for the first. -/
def withParentHeights (parentHeight : BlockHeight) : List BlockInfo → List (BlockInfo × BlockHeight)
  | [] => []
  | blockInfo :: rest => (blockInfo, parentHeight) :: withParentHeights blockInfo.height rest

section
attribute [local simp] withParentHeights
end

/-- The height of a chain's tip: its last block's, and its parent's when it has no block. -/
def tipHeight (parentHeight : BlockHeight) (blocks : List BlockInfo) : BlockHeight :=
  (blocks.getLast?.map BlockInfo.height).getD parentHeight

section
attribute [local simp] tipHeight
end

@[simp] theorem tipHeight_nil (parentHeight : BlockHeight) : tipHeight parentHeight [] = parentHeight := rfl

@[simp] theorem tipHeight_cons (parentHeight : BlockHeight) (blockInfo : BlockInfo) (rest : List BlockInfo) :
    tipHeight parentHeight (blockInfo :: rest) = tipHeight blockInfo.height rest := by
  cases rest <;> simp [tipHeight, List.getLast?_cons]

theorem tipHeight_append_singleton (parentHeight : BlockHeight) (blocks : List BlockInfo) (blockInfo : BlockInfo) :
    tipHeight parentHeight (blocks ++ [blockInfo]) = blockInfo.height := by
  simp [tipHeight]

theorem withParentHeights_append (earlier later : List BlockInfo) :
    ∀ parentHeight, withParentHeights parentHeight (earlier ++ later) =
      withParentHeights parentHeight earlier ++ withParentHeights (tipHeight parentHeight earlier) later := by
  induction earlier with
  | nil => intro parentHeight; rfl
  | cons blockInfo rest ih =>
    intro parentHeight
    simp only [List.cons_append, withParentHeights, ih, tipHeight_cons]

/-- In a chain of increasing heights the tip is at least as high as the parent. -/
theorem le_tipHeight :
    ∀ {parentHeight : BlockHeight} {blocks : List BlockInfo},
      (parentHeight :: blocks.map BlockInfo.height).IsChain (· < ·) → parentHeight ≤ tipHeight parentHeight blocks
  | _, [], _ => Nat.le_refl _
  | _, blockInfo :: rest, increasing => by
    rw [List.map_cons, List.isChain_cons_cons] at increasing
    rw [tipHeight_cons]
    exact Nat.le_of_lt (Nat.lt_of_lt_of_le increasing.1 (le_tipHeight increasing.2))

namespace EpochInfoAggregator

/-- `update_tail` over a chain from its tip back, onto `aggregator`, each block with its parent's
height. -/
def aggregateChain (aggregator : EpochInfoAggregator) (epochInfo : EpochInfo) (shardLayout : ShardLayout)
    (parentHeight : BlockHeight) (blocks : List BlockInfo) : Except Panic EpochInfoAggregator :=
  (withParentHeights parentHeight blocks).reverse.foldlM
    (fun aggregator (blockInfo, prevBlockHeight) => aggregator.updateTail blockInfo epochInfo shardLayout prevBlockHeight)
    aggregator

section
attribute [local simp] aggregateChain
end

variable {epochInfo : EpochInfo} {shardLayout : ShardLayout}

/-- The later segment of a chain is aggregated first, and the earlier one onto it. -/
theorem aggregateChain_append (aggregator : EpochInfoAggregator) (parentHeight : BlockHeight)
    (earlier later : List BlockInfo) :
    aggregator.aggregateChain epochInfo shardLayout parentHeight (earlier ++ later) =
      aggregator.aggregateChain epochInfo shardLayout (tipHeight parentHeight earlier) later >>= fun second =>
        second.aggregateChain epochInfo shardLayout parentHeight earlier := by
  simp only [aggregateChain, withParentHeights_append, List.reverse_append, List.foldlM_append]

@[simp] theorem aggregateChain_nil (aggregator : EpochInfoAggregator) (parentHeight : BlockHeight) :
    aggregator.aggregateChain epochInfo shardLayout parentHeight [] = .ok aggregator := rfl

theorem aggregateChain_singleton (aggregator : EpochInfoAggregator) (parentHeight : BlockHeight)
    (blockInfo : BlockInfo) :
    aggregator.aggregateChain epochInfo shardLayout parentHeight [blockInfo] =
      aggregator.updateTail blockInfo epochInfo shardLayout parentHeight := by
  simp [aggregateChain, withParentHeights]

theorem aggregateChain_cons (aggregator : EpochInfoAggregator) (parentHeight : BlockHeight)
    (blockInfo : BlockInfo) (rest : List BlockInfo) :
    aggregator.aggregateChain epochInfo shardLayout parentHeight (blockInfo :: rest) =
      aggregator.aggregateChain epochInfo shardLayout blockInfo.height rest >>= fun later =>
        later.updateTail blockInfo epochInfo shardLayout parentHeight := by
  rw [← List.singleton_append, aggregateChain_append, tipHeight_cons, tipHeight_nil]
  simp only [aggregateChain_singleton]

/-- A chain's aggregation onto any aggregator is its aggregation onto a new one, under the
statistics the aggregator held; it fails or not whatever the aggregator. -/
theorem view_aggregateChain (aggregator : EpochInfoAggregator) (parentHeight : BlockHeight)
    (blocks : List BlockInfo) (epochId : EpochId) (lastBlockHash : CryptoHash) :
    view <$> aggregator.aggregateChain epochInfo shardLayout parentHeight blocks =
      (fun r => View.union aggregator.view r.view) <$>
        (new epochId lastBlockHash).aggregateChain epochInfo shardLayout parentHeight blocks := by
  apply foldlM_translate view View.union (new epochId lastBlockHash) View.union_assoc (by simp)
  intro acc ⟨blockInfo, prevBlockHeight⟩
  exact view_updateTail acc blockInfo epochInfo shardLayout prevBlockHeight epochId lastBlockHash

/-- Aggregating a chain keeps the epoch and the last block of the aggregator. -/
theorem aggregateChain_keeps {aggregator result : EpochInfoAggregator} {parentHeight : BlockHeight}
    {blocks : List BlockInfo} (aggregated : aggregator.aggregateChain epochInfo shardLayout parentHeight blocks = .ok result) :
    result.epochId = aggregator.epochId ∧ result.lastBlockHash = aggregator.lastBlockHash :=
  List.foldlM_keeps_of_ok (fun r => r.epochId = aggregator.epochId ∧ r.lastBlockHash = aggregator.lastBlockHash)
    (fun _ _ _ updated kept => by
      obtain ⟨-, -, epoch, last⟩ := updateTail_eq_ok updated
      exact ⟨epoch.trans kept.1, last.trans kept.2⟩)
    aggregated ⟨rfl, rfl⟩

/-- Aggregating a chain of increasing heights onto an aggregator adds to its expected blocks one
for each height the chain spans. -/
theorem total_aggregateChain :
    ∀ {aggregator result : EpochInfoAggregator} {parentHeight : BlockHeight} {blocks : List BlockInfo},
      (parentHeight :: blocks.map BlockInfo.height).IsChain (· < ·) →
      aggregator.aggregateChain epochInfo shardLayout parentHeight blocks = .ok result →
      total result.blockTracker ValidatorStats.expected =
        total aggregator.blockTracker ValidatorStats.expected + (tipHeight parentHeight blocks - parentHeight)
  | _, _, _, [], _, aggregated => by
    cases aggregated
    simp
  | aggregator, result, parentHeight, blockInfo :: rest, increasing, aggregated => by
    rw [aggregateChain_cons] at aggregated
    obtain ⟨later, laterOk, updated⟩ := Except.bind_eq_ok aggregated
    rw [List.map_cons, List.isChain_cons_cons] at increasing
    have spansLater := total_aggregateChain increasing.2 laterOk
    have reachesTip := le_tipHeight increasing.2
    -- the heights the later blocks span, then the block's own, are those from the parent's
    rw [total_updateTail updated, spansLater, tipHeight_cons, Nat.add_assoc,
      Nat.sub_add_sub_cancel reachesTip (Nat.le_of_lt increasing.1)]

/-- The sample's two blocks after genesis expect a block at each of their heights. -/
theorem total_aggregateChain_sample : ∃ result : EpochInfoAggregator,
    (new sampleSecond.epochId sampleSecond.hash).aggregateChain sampleEpochInfo (.V1 [] none) 0
      [sampleFirst, sampleSecond] = .ok result ∧
    total result.blockTracker ValidatorStats.expected =
      total (new sampleSecond.epochId sampleSecond.hash).blockTracker ValidatorStats.expected +
        (tipHeight 0 [sampleFirst, sampleSecond] - 0) := by
  refine ⟨?_, ?aggregated, total_aggregateChain (by decide) ?aggregated⟩
  case aggregated => rfl

/-- Aggregating a chain of one epoch in one pass from its tip back gives the statistics that the
aggregators of any two consecutive segments of it give combined, by `merge` of the earlier with
the later or by `merge_prefix` of the later with the earlier; both segments aggregate without a
panic, and either combination has the whole chain's epoch and last block. -/
theorem aggregateChain_split (epochId : EpochId) (prefixHash tipHash : CryptoHash) (parentHeight : BlockHeight)
    (earlier later : List BlockInfo) {whole : EpochInfoAggregator}
    (aggregated : (new epochId tipHash).aggregateChain epochInfo shardLayout parentHeight (earlier ++ later) = .ok whole) :
    ∃ first second,
      (new epochId prefixHash).aggregateChain epochInfo shardLayout parentHeight earlier = .ok first ∧
      (new epochId tipHash).aggregateChain epochInfo shardLayout (tipHeight parentHeight earlier) later = .ok second ∧
      (∃ merged, first.merge second = .ok merged ∧ merged.view = whole.view ∧
        merged.epochId = whole.epochId ∧ merged.lastBlockHash = whole.lastBlockHash) ∧
      (∃ merged, second.mergePrefix first = .ok merged ∧ merged.view = whole.view ∧
        merged.epochId = whole.epochId ∧ merged.lastBlockHash = whole.lastBlockHash) := by
  rw [aggregateChain_append] at aggregated
  obtain ⟨second, secondOk, ontoSecond⟩ := Except.bind_eq_ok aggregated
  -- the earlier segment aggregated onto the later one's aggregator is the earlier segment alone,
  -- under the later one's statistics
  obtain ⟨first, firstOk, onFirst⟩ :=
    ok_of_map_eq (view_aggregateChain second parentHeight earlier epochId prefixHash).symm ontoSecond
  have related : View.union second.view first.view = whole.view := onFirst
  obtain ⟨secondEpoch, -⟩ := aggregateChain_keeps secondOk
  obtain ⟨firstEpoch, -⟩ := aggregateChain_keeps firstOk
  obtain ⟨wholeEpoch, wholeLast⟩ := aggregateChain_keeps ontoSecond
  have sameEpoch : first.epochId = second.epochId := firstEpoch.trans secondEpoch.symm
  obtain ⟨merged, mergedOk, mergedView, mergedEpoch, mergedLast⟩ := merge_of_eq sameEpoch
  obtain ⟨prefixed, prefixedOk, prefixedView, prefixedEpoch, prefixedLast⟩ := mergePrefix_of_eq sameEpoch.symm
  refine ⟨first, second, firstOk, secondOk, ⟨merged, mergedOk, mergedView.trans related, ?_, ?_⟩,
    ⟨prefixed, prefixedOk, prefixedView.trans related, ?_, ?_⟩⟩
  · rw [mergedEpoch, wholeEpoch, sameEpoch]
  · rw [mergedLast, wholeLast]
  · rw [prefixedEpoch, wholeEpoch]
  · rw [prefixedLast, wholeLast]

/-- The sample's chain split after its first block. -/
theorem aggregateChain_split_sample : ∃ whole : EpochInfoAggregator,
    (new sampleSecond.epochId sampleSecond.hash).aggregateChain sampleEpochInfo (.V1 [] none) 0
      ([sampleFirst] ++ [sampleSecond]) = .ok whole ∧
    ∃ first second,
      (new sampleSecond.epochId sampleFirst.hash).aggregateChain sampleEpochInfo (.V1 [] none) 0 [sampleFirst] =
        .ok first ∧
      (new sampleSecond.epochId sampleSecond.hash).aggregateChain sampleEpochInfo (.V1 [] none)
        (tipHeight 0 [sampleFirst]) [sampleSecond] = .ok second ∧
      (∃ merged, first.merge second = .ok merged ∧ merged.view = whole.view ∧
        merged.epochId = whole.epochId ∧ merged.lastBlockHash = whole.lastBlockHash) ∧
      (∃ merged, second.mergePrefix first = .ok merged ∧ merged.view = whole.view ∧
        merged.epochId = whole.epochId ∧ merged.lastBlockHash = whole.lastBlockHash) := by
  refine ⟨?_, ?aggregated, aggregateChain_split sampleSecond.epochId sampleFirst.hash sampleSecond.hash 0
    [sampleFirst] [sampleSecond] ?aggregated⟩
  case aggregated => rfl

/-- The aggregators of two consecutive segments of a chain, the later one's taken as the start of
the earlier one's, give the aggregation of the whole chain: the earlier segment's statistics
under the later one's. -/
theorem aggregateChain_append_of_ok (epochId : EpochId) (prefixHash tipHash : CryptoHash)
    (parentHeight : BlockHeight) (earlier later : List BlockInfo) {first second : EpochInfoAggregator}
    (firstOk : (new epochId prefixHash).aggregateChain epochInfo shardLayout parentHeight earlier = .ok first)
    (secondOk : (new epochId tipHash).aggregateChain epochInfo shardLayout (tipHeight parentHeight earlier) later =
      .ok second) :
    ∃ whole, (new epochId tipHash).aggregateChain epochInfo shardLayout parentHeight (earlier ++ later) = .ok whole ∧
      whole.view = View.union second.view first.view ∧ whole.epochId = epochId ∧ whole.lastBlockHash = tipHash := by
  rw [aggregateChain_append, secondOk, Except.ok_bind]
  obtain ⟨whole, wholeOk, related⟩ :=
    ok_of_map_eq (view_aggregateChain second parentHeight earlier epochId prefixHash) firstOk
  obtain ⟨wholeEpoch, wholeLast⟩ := aggregateChain_keeps wholeOk
  obtain ⟨secondEpoch, secondLast⟩ := aggregateChain_keeps secondOk
  exact ⟨whole, wholeOk, related, wholeEpoch.trans secondEpoch, wholeLast.trans secondLast⟩

end EpochInfoAggregator

end Nearcore.EpochManager
