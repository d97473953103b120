import Nearcore.Epoch.AggregatorStore

/-! The aggregators the epoch manager keeps and returns hold the statistics that aggregating their
epoch from scratch gives. From a block, the plain way walks back to the start of the block's epoch
(`ScratchStats`); `update_epoch_info_aggregator_upto_final` and
`get_epoch_info_aggregator_upto_last` stop the walk at the stored aggregator's last block instead,
and merge. They agree with the plain way while the stored aggregator does (`Consistent`): every
update keeps that, and so does the store's growth, as `record_block_info` writes the info of a
block only when the store lacks it. -/
namespace Nearcore.EpochManager

open EpochInfoAggregator

/-- `stats` are the statistics of epoch `epochId` up to the block `hash`: those of the chain of
the epoch's blocks from its start up to `hash`, aggregated from scratch. -/
inductive ScratchStats (manager : EpochManager) (epochId : EpochId) (hash : CryptoHash) (stats : View) : Prop
  | intro (base : CryptoHash) (baseInfo : BlockInfo) (blocks : List BlockInfo) (epochInfo : EpochInfo)
      (whole : EpochInfoAggregator) (atBase : manager.blockInfos base = some baseInfo)
      (epochStart : baseInfo.epochId ≠ epochId ∨ baseInfo.isGenesis = true)
      (chain : manager.ChainFrom epochId base hash blocks) (info : manager.epochInfos epochId = some epochInfo)
      (aggregated : (new epochId hash).aggregateChain epochInfo (manager.shardLayoutOf epochInfo.protocolVersion)
        baseInfo.height blocks = .ok whole)
      (same : stats = whole.view)

/-- The aggregator holds the statistics of epoch `epochId` up to the block `hash`. -/
def FromScratch (manager : EpochManager) (epochId : EpochId) (hash : CryptoHash)
    (aggregator : EpochInfoAggregator) : Prop :=
  ScratchStats manager epochId hash aggregator.view ∧ aggregator.epochId = epochId ∧ aggregator.lastBlockHash = hash

/-- The stored aggregator is the default one, whose last block, the zero hash, no block of the
store has; or it holds the statistics of its epoch up to its last block, a block of the store of
that epoch. -/
def Consistent (manager : EpochManager) : Prop :=
  (manager.epochInfoAggregator.lastBlockHash = CryptoHash.default ∧ manager.blockInfos CryptoHash.default = none) ∨
    ∃ lastInfo, manager.blockInfos manager.epochInfoAggregator.lastBlockHash = some lastInfo ∧
      lastInfo.epochId = manager.epochInfoAggregator.epochId ∧
      FromScratch manager manager.epochInfoAggregator.epochId manager.epochInfoAggregator.lastBlockHash
        manager.epochInfoAggregator

section
attribute [local simp] Consistent
end

section Agreement

variable {manager : EpochManager} {epochId : EpochId}

/-- The statistics up to a block, and those of a chain from it aggregated onto a new aggregator,
make the statistics up to the chain's tip. -/
theorem ScratchStats.extend {middle hash : CryptoHash} {middleInfo : BlockInfo} {blocks : List BlockInfo}
    {epochInfo : EpochInfo} {stats : View} {later : EpochInfoAggregator}
    (upToMiddle : ScratchStats manager epochId middle stats) (middleStored : manager.blockInfos middle = some middleInfo)
    (chain : manager.ChainFrom epochId middle hash blocks) (info : manager.epochInfos epochId = some epochInfo)
    (aggregated : (new epochId hash).aggregateChain epochInfo (manager.shardLayoutOf epochInfo.protocolVersion)
      middleInfo.height blocks = .ok later) :
    ScratchStats manager epochId hash (View.union later.view stats) := by
  obtain ⟨base, baseInfo, earlier, epochInfo', first, atBase, epochStart, toMiddle, info', firstOk, same⟩ :=
    upToMiddle
  rw [info, Option.some.injEq] at info'
  subst info'
  have middleHeight : tipHeight baseInfo.height earlier = middleInfo.height :=
    toMiddle.tipHeight_eq (fun _ stored => by rw [atBase, Option.some.injEq] at stored; rw [stored]) middleStored
  rw [← middleHeight] at aggregated
  obtain ⟨whole, wholeOk, wholeView, -, -⟩ :=
    aggregateChain_append_of_ok epochId middle hash baseInfo.height earlier blocks firstOk aggregated
  exact .intro base baseInfo (earlier ++ blocks) epochInfo whole atBase epochStart (toMiddle.trans chain) info
    wholeOk (by rw [wholeView, same])

/-- A walk that stopped at the stored aggregator's last block started from a block of the store,
so it read that block from the store: the walk's base is a block of the store, at its height and
epoch. -/
theorem synced_stored (consistent : Consistent manager) {base hash : CryptoHash} {baseHeight : BlockHeight}
    {first : BlockInfo} {rest : List BlockInfo} {prevEpoch : EpochId}
    (chain : manager.ChainFrom epochId base hash (first :: rest))
    (atLast : base = manager.epochInfoAggregator.lastBlockHash)
    (prev : (manager.prevHeightAndEpoch first).run.run = .ok (.ok (some (baseHeight, prevEpoch)))) :
    ∃ lastInfo, manager.blockInfos base = some lastInfo ∧ lastInfo.height = baseHeight ∧
      lastInfo.epochId = prevEpoch ∧ lastInfo.epochId = manager.epochInfoAggregator.epochId ∧
      FromScratch manager manager.epochInfoAggregator.epochId base manager.epochInfoAggregator := by
  have linked : first.prevHash = base := chain.head_prevHash
  rcases consistent with ⟨atDefault, -⟩ | ⟨lastInfo, lastStored, lastEpoch, scratch⟩
  · -- the oldest block would be genesis, which no chain holds
    have notGenesis := (chain.mem List.mem_cons_self).2
    rw [BlockInfo.isGenesis, linked, atLast, atDefault, beq_self_eq_true] at notGenesis
    cases notGenesis
  · rw [← atLast] at lastStored scratch
    rw [← linked] at lastStored
    rw [prevHeightAndEpoch_of_stored manager lastStored] at prev
    simp only [Except.ok.injEq, Option.some.injEq, Prod.mk.injEq] at prev
    rw [linked] at lastStored
    exact ⟨lastInfo, lastStored, prev.1, prev.2, lastEpoch, scratch⟩

/-- What `aggregate_epoch_info_upto` returns from a block of the store, if the stored aggregator
is consistent: an aggregator of the block's epoch ending at the block, holding the epoch's
statistics up to it if it holds the whole epoch, and otherwise those after the stored aggregator's
last block, which is of the same epoch. -/
theorem aggregateEpochInfoUpto_spec {fuel : Nat} {hash : CryptoHash} {hashInfo : BlockInfo}
    {aggregator : EpochInfoAggregator} {replace : Bool} (consistent : Consistent manager)
    (stored : manager.blockInfos hash = some hashInfo)
    (ran : (manager.aggregateEpochInfoUpto fuel hash).run.run = .ok (.ok (some (some (aggregator, replace))))) :
    aggregator.epochId = hashInfo.epochId ∧ aggregator.lastBlockHash = hash ∧
      (replace = true → ScratchStats manager hashInfo.epochId hash aggregator.view) ∧
      (replace = false → manager.epochInfoAggregator.epochId = hashInfo.epochId ∧
        ScratchStats manager hashInfo.epochId hash (View.union aggregator.view manager.epochInfoAggregator.view)) := by
  unfold aggregateEpochInfoUpto at ran
  split at ran
  · simp at ran
  obtain ⟨blockInfo, read, ran⟩ := OptionT.run_run_bind_eq_some ran
  rw [getBlockInfo_eq_some, stored, Option.some.injEq] at read
  subst read
  obtain ⟨epochInfo, info, ran⟩ := OptionT.run_run_bind_eq_some ran
  rw [getEpochInfo_eq_some] at info
  obtain ⟨shardLayout, layout, ran⟩ := OptionT.run_run_bind_eq_some ran
  obtain ⟨epochInfo', info', rfl⟩ := (getShardLayout_eq_some manager).1 layout
  rw [info, Option.some.injEq] at info'
  subst info'
  obtain ⟨⟨result, replace'⟩, walked, returned⟩ := OptionT.run_run_map_eq_some ran
  simp only [Option.some.injEq, Prod.mk.injEq] at returned
  obtain ⟨rfl, rfl⟩ := returned
  obtain ⟨base, baseHeight, blocks, chain, aggregated, walkEnd⟩ := aggregateLoop_eq_some walked
  obtain ⟨epochKept, lastKept⟩ := aggregateChain_keeps aggregated
  refine ⟨epochKept, lastKept, ?_⟩
  cases walkEnd with
  | boundary baseInfo atBase height epochStart =>
    rw [← height] at aggregated
    exact ⟨fun _ => .intro base baseInfo blocks epochInfo result atBase epochStart chain info aggregated rfl,
      fun stop => by cases stop⟩
  | synced first rest prevEpoch atLast prev =>
    obtain ⟨lastInfo, lastStored, lastHeight, lastEpoch, aggregatorEpoch, scratch⟩ :=
      synced_stored consistent chain atLast prev
    rw [← lastHeight] at aggregated
    constructor
    · -- the stored aggregator's last block is of another epoch, and starts the block's
      intro other
      rw [bne_iff_ne, ne_comm, ← lastEpoch] at other
      exact .intro base lastInfo (first :: rest) epochInfo result lastStored (.inl other) chain info
        aggregated rfl
    · intro same
      rw [bne_eq_false_iff_eq, ← lastEpoch, aggregatorEpoch] at same
      rw [← same] at scratch ⊢
      exact ⟨rfl, scratch.1.extend lastStored chain info aggregated⟩

/-- `aggregate_epoch_info_upto` returns nothing only at the stored aggregator's last block. -/
theorem aggregateEpochInfoUpto_eq_none {fuel : Nat} {hash : CryptoHash}
    (ran : (manager.aggregateEpochInfoUpto fuel hash).run.run = .ok (.ok (some none))) :
    hash = manager.epochInfoAggregator.lastBlockHash := by
  unfold aggregateEpochInfoUpto at ran
  split at ran
  · assumption
  · obtain ⟨_, -, ran⟩ := OptionT.run_run_bind_eq_some ran
    obtain ⟨_, -, ran⟩ := OptionT.run_run_bind_eq_some ran
    obtain ⟨_, -, ran⟩ := OptionT.run_run_bind_eq_some ran
    obtain ⟨_, -, returned⟩ := OptionT.run_run_map_eq_some ran
    cases returned

/-- A consistent manager's aggregator, at its own last block, holds the statistics up to it. -/
theorem Consistent.fromScratch_at_last {hash : CryptoHash} {hashInfo : BlockInfo} (consistent : Consistent manager)
    (stored : manager.blockInfos hash = some hashInfo) (atLast : hash = manager.epochInfoAggregator.lastBlockHash) :
    FromScratch manager hashInfo.epochId hash manager.epochInfoAggregator := by
  rcases consistent with ⟨atDefault, none⟩ | ⟨lastInfo, lastStored, lastEpoch, scratch⟩
  · rw [atLast, atDefault, none] at stored
    cases stored
  · rw [← atLast, stored, Option.some.injEq] at lastStored
    rw [lastStored, lastEpoch, atLast]
    exact scratch

/-- `aggregate_epoch_info_upto` returns an aggregator only from a block of the store. -/
theorem aggregateEpochInfoUpto_stored {fuel : Nat} {hash : CryptoHash} {result : EpochInfoAggregator × Bool}
    (ran : (manager.aggregateEpochInfoUpto fuel hash).run.run = .ok (.ok (some (some result)))) :
    ∃ hashInfo, manager.blockInfos hash = some hashInfo := by
  unfold aggregateEpochInfoUpto at ran
  split at ran
  · simp at ran
  · obtain ⟨hashInfo, read, -⟩ := OptionT.run_run_bind_eq_some ran
    exact ⟨hashInfo, (getBlockInfo_eq_some manager).1 read⟩

/-- How `update_epoch_info_aggregator_upto_final` sets the stored aggregator from what
`aggregate_epoch_info_upto` returned. -/
inductive Updated (manager : EpochManager) : Option (EpochInfoAggregator × Bool) → EpochInfoAggregator → Prop
  | unchanged : Updated manager none manager.epochInfoAggregator
  | replaced (aggregator : EpochInfoAggregator) : Updated manager (some (aggregator, true)) aggregator
  | merged (aggregator merged : EpochInfoAggregator)
      (ok : manager.epochInfoAggregator.merge aggregator = .ok merged) :
      Updated manager (some (aggregator, false)) merged

/-- An update changes the stored aggregator only, as `aggregate_epoch_info_upto`'s result says. -/
theorem updateEpochInfoAggregatorUptoFinal_eq_some {fuel : Nat} {hash : CryptoHash} {updated : EpochManager}
    {saved : Option EpochInfoAggregator}
    (ran : (manager.updateEpochInfoAggregatorUptoFinal fuel hash).run.run = .ok (.ok (some (updated, saved)))) :
    ∃ result, (manager.aggregateEpochInfoUpto fuel hash).run.run = .ok (.ok (some result)) ∧
      Updated manager result updated.epochInfoAggregator ∧
      updated = { manager with epochInfoAggregator := updated.epochInfoAggregator } := by
  unfold updateEpochInfoAggregatorUptoFinal at ran
  obtain ⟨result, upto, rest⟩ := OptionT.run_run_bind_eq_some ran
  refine ⟨result, upto, ?_⟩
  match result, rest with
  | none, rest =>
    simp only [OptionT.run_run_pure, Except.ok.injEq, Option.some.injEq, Prod.mk.injEq] at rest
    rw [← rest.1]
    exact ⟨.unchanged, rfl⟩
  | some (aggregator, true), rest =>
    simp only [↓reduceIte, OptionT.run_run_pure, Except.ok.injEq, Option.some.injEq, Prod.mk.injEq] at rest
    rw [← rest.1]
    exact ⟨.replaced aggregator, rfl⟩
  | some (aggregator, false), rest =>
    simp only [Bool.false_eq_true, ↓reduceIte] at rest
    obtain ⟨merged, mergedOk, rest⟩ := OptionT.run_run_bind_eq_some rest
    obtain ⟨_, -, rest⟩ := OptionT.run_run_bind_eq_some rest
    simp only [OptionT.run_run_pure, Except.ok.injEq, Option.some.injEq, Prod.mk.injEq] at rest
    rw [← rest.1]
    exact ⟨.merged aggregator merged (OptionT.run_run_liftM_eq_some.1 mergedOk), rfl⟩

/-- An update at a block of the store leaves the stored aggregator holding the statistics of the
block's epoch up to the block. -/
theorem fromScratch_update {fuel : Nat} {hash : CryptoHash} {hashInfo : BlockInfo} {updated : EpochManager}
    {saved : Option EpochInfoAggregator} (consistent : Consistent manager)
    (stored : manager.blockInfos hash = some hashInfo)
    (ran : (manager.updateEpochInfoAggregatorUptoFinal fuel hash).run.run = .ok (.ok (some (updated, saved)))) :
    FromScratch manager hashInfo.epochId hash updated.epochInfoAggregator := by
  obtain ⟨result, upto, how, -⟩ := updateEpochInfoAggregatorUptoFinal_eq_some ran
  generalize updated.epochInfoAggregator = next at how ⊢
  cases how with
  | unchanged => exact consistent.fromScratch_at_last stored (aggregateEpochInfoUpto_eq_none upto)
  | replaced aggregator =>
    obtain ⟨epoch, last, whole, -⟩ := aggregateEpochInfoUpto_spec consistent stored upto
    exact ⟨whole rfl, epoch, last⟩
  | merged aggregator merged ok =>
    obtain ⟨epoch, last, -, sinceLast⟩ := aggregateEpochInfoUpto_spec consistent stored upto
    obtain ⟨sameEpoch, stats⟩ := sinceLast rfl
    obtain ⟨merged', mergedOk, mergedView, mergedEpoch, mergedLast⟩ := merge_of_eq (sameEpoch.trans epoch.symm)
    rw [ok, Except.ok.injEq] at mergedOk
    subst mergedOk
    exact ⟨by rw [mergedView]; exact stats, mergedEpoch.trans sameEpoch, mergedLast.trans last⟩

end Agreement

/-- `grown` is the store of `manager` grown: the block infos and the epoch infos it had, with the
same config. `record_block_info` grows the store so, writing a block's info only if it has none. -/
structure Grows (manager grown : EpochManager) : Prop where
  blocks : ∀ hash blockInfo, manager.blockInfos hash = some blockInfo → grown.blockInfos hash = some blockInfo
  epochs : ∀ epochId epochInfo, manager.epochInfos epochId = some epochInfo → grown.epochInfos epochId = some epochInfo
  config : grown.shardLayoutOf = manager.shardLayoutOf

section Growth

variable {manager grown : EpochManager} {epochId : EpochId}

/-- A manager whose aggregator alone changed has the same store. -/
theorem Grows.of_frame (frame : grown = { manager with epochInfoAggregator := grown.epochInfoAggregator }) :
    Grows manager grown := by
  rw [frame]
  exact ⟨fun _ _ stored => stored, fun _ _ stored => stored, rfl⟩

theorem ChainFrom.grow (grows : Grows manager grown) {base hash : CryptoHash} {blocks : List BlockInfo}
    (chain : manager.ChainFrom epochId base hash blocks) : grown.ChainFrom epochId base hash blocks := by
  induction chain with
  | nil => exact .nil
  | snoc _ stored linked inEpoch notGenesis ih => exact .snoc ih (grows.blocks _ _ stored) linked inEpoch notGenesis

theorem ScratchStats.grow (grows : Grows manager grown) {hash : CryptoHash} {stats : View}
    (scratch : ScratchStats manager epochId hash stats) : ScratchStats grown epochId hash stats := by
  obtain ⟨base, baseInfo, blocks, epochInfo, whole, atBase, epochStart, chain, info, aggregated, same⟩ := scratch
  rw [← grows.config] at aggregated
  exact .intro base baseInfo blocks epochInfo whole (grows.blocks _ _ atBase) epochStart (chain.grow grows)
    (grows.epochs _ _ info) aggregated same

theorem FromScratch.grow (grows : Grows manager grown) {hash : CryptoHash} {aggregator : EpochInfoAggregator}
    (scratch : FromScratch manager epochId hash aggregator) : FromScratch grown epochId hash aggregator :=
  ⟨scratch.1.grow grows, scratch.2⟩

/-- A grown store keeps the stored aggregator consistent, if no block takes the zero hash. -/
theorem Consistent.grow (consistent : Consistent manager) (grows : Grows manager grown)
    (noZeroHash : grown.blockInfos CryptoHash.default = manager.blockInfos CryptoHash.default)
    (aggregator : grown.epochInfoAggregator = manager.epochInfoAggregator) : Consistent grown := by
  unfold Consistent
  rw [aggregator, noZeroHash]
  rcases consistent with atDefault | ⟨lastInfo, lastStored, lastEpoch, scratch⟩
  · exact .inl atDefault
  · exact .inr ⟨lastInfo, grows.blocks _ _ lastStored, lastEpoch, scratch.grow grows⟩

/-- An update keeps the stored aggregator consistent. -/
theorem Consistent.update {fuel : Nat} {hash : CryptoHash} {updated : EpochManager}
    {saved : Option EpochInfoAggregator} (consistent : Consistent manager)
    (ran : (manager.updateEpochInfoAggregatorUptoFinal fuel hash).run.run = .ok (.ok (some (updated, saved)))) :
    Consistent updated := by
  obtain ⟨result, upto, how, frame⟩ := updateEpochInfoAggregatorUptoFinal_eq_some ran
  cases result with
  | none =>
    rw [frame]
    generalize updated.epochInfoAggregator = next at how
    cases how
    exact consistent
  | some result =>
    -- the walk read the block, which the aggregator now ends at
    obtain ⟨hashInfo, stored⟩ := aggregateEpochInfoUpto_stored upto
    have scratch := fromScratch_update consistent stored ran
    have grows : Grows manager updated := .of_frame frame
    unfold Consistent
    rw [scratch.2.1, scratch.2.2]
    exact .inr ⟨hashInfo, grows.blocks _ _ stored, rfl, scratch.grow grows⟩

end Growth

/-- A step of the epoch manager, as far as its aggregator goes: the store grows, or an update of
the aggregator up to a final block returns. -/
inductive Step : EpochManager → EpochManager → Prop
  | grow {manager grown : EpochManager} (grows : Grows manager grown)
      (noZeroHash : grown.blockInfos CryptoHash.default = manager.blockInfos CryptoHash.default)
      (aggregator : grown.epochInfoAggregator = manager.epochInfoAggregator) : Step manager grown
  | update {manager updated : EpochManager} {saved : Option EpochInfoAggregator} (fuel : Nat) (hash : CryptoHash)
      (ran : (manager.updateEpochInfoAggregatorUptoFinal fuel hash).run.run = .ok (.ok (some (updated, saved)))) :
      Step manager updated

section Runs

variable {start manager : EpochManager}

theorem Consistent.step {next : EpochManager} (consistent : Consistent manager) (step : Step manager next) :
    Consistent next := by
  cases step with
  | grow grows noZeroHash aggregator => exact consistent.grow grows noZeroHash aggregator
  | update fuel hash ran => exact consistent.update ran

/-- Every step keeps the stored aggregator consistent, so every run does. -/
theorem Consistent.steps (initial : Consistent start) (steps : Relation.ReflTransGen Step start manager) :
    Consistent manager := by
  induction steps with
  | refl => exact initial
  | tail _ step consistent => exact consistent.step step

/-- `aggregate_epoch_info_upto` returns from a block of the store whose epoch's chain back to its
start aggregates without a panic, given a pass more than the chain has blocks. -/
theorem aggregateEpochInfoUpto_returns {fuel : Nat} {hash base : CryptoHash} {hashInfo baseInfo : BlockInfo}
    {blocks : List BlockInfo} {epochInfo : EpochInfo} {whole : EpochInfoAggregator}
    (stored : manager.blockInfos hash = some hashInfo) (atBase : manager.blockInfos base = some baseInfo)
    (epochStart : baseInfo.epochId ≠ hashInfo.epochId ∨ baseInfo.isGenesis = true)
    (chain : manager.ChainFrom hashInfo.epochId base hash blocks)
    (info : manager.epochInfos hashInfo.epochId = some epochInfo)
    (aggregated : (new hashInfo.epochId hash).aggregateChain epochInfo
      (manager.shardLayoutOf epochInfo.protocolVersion) baseInfo.height blocks = .ok whole)
    (enough : blocks.length < fuel) :
    ∃ result, (manager.aggregateEpochInfoUpto fuel hash).run.run = .ok (.ok (some result)) := by
  unfold aggregateEpochInfoUpto
  split
  · exact ⟨none, rfl⟩
  · rw [OptionT.run_run_bind_of_some ((getBlockInfo_eq_some manager).2 stored),
      OptionT.run_run_bind_of_some ((getEpochInfo_eq_some manager).2 info),
      OptionT.run_run_bind_of_some ((getShardLayout_eq_some manager).2 ⟨epochInfo, info, rfl⟩)]
    obtain ⟨result, walked⟩ := aggregateLoop_returns atBase epochStart chain aggregated enough
    exact ⟨some result, OptionT.run_run_map_of_some walked⟩

end Runs

section Drivers

/-- The sample chain in the store, with one shard, and the default aggregator. -/
def sampleManager : EpochManager where
  blockInfos hash := [sampleGenesis, sampleFirst, sampleSecond].find? (·.hash == hash)
  epochInfos epochId := if epochId = ⟨CryptoHash.default⟩ then some sampleEpochInfo else none
  shardLayoutOf _ := .V1 [] none
  headerHeadPrevBlockHash := none
  blockHeaderPrevHashes _ := none
  epochInfoAggregator := new ⟨CryptoHash.default⟩ CryptoHash.default

theorem sampleManager_consistent : Consistent sampleManager := .inl ⟨rfl, rfl⟩

variable {start manager : EpochManager} {fuel : Nat} {hash : CryptoHash} {hashInfo : BlockInfo}

/-- Along any run from a consistent manager, where blocks are recorded and the aggregator updated,
an update up to a final block of the store leaves the stored aggregator holding the statistics of
the block's epoch up to it, as aggregating the epoch from scratch gives them, and changes nothing
else. -/
theorem updateEpochInfoAggregatorUptoFinal_fromScratch {updated : EpochManager} {saved : Option EpochInfoAggregator}
    (initial : Consistent start) (steps : Relation.ReflTransGen Step start manager)
    (stored : manager.blockInfos hash = some hashInfo)
    (ran : (manager.updateEpochInfoAggregatorUptoFinal fuel hash).run.run = .ok (.ok (some (updated, saved)))) :
    FromScratch manager hashInfo.epochId hash updated.epochInfoAggregator ∧
      updated = { manager with epochInfoAggregator := updated.epochInfoAggregator } := by
  obtain ⟨-, -, -, frame⟩ := updateEpochInfoAggregatorUptoFinal_eq_some ran
  exact ⟨fromScratch_update (initial.steps steps) stored ran, frame⟩

/-- The update up to the sample's first block, then the one up to its second, which merges. -/
theorem updateEpochInfoAggregatorUptoFinal_fromScratch_sample : ∃ first second saved saved',
    (sampleManager.updateEpochInfoAggregatorUptoFinal 2 sampleFirst.hash).run.run = .ok (.ok (some (first, saved))) ∧
    (first.updateEpochInfoAggregatorUptoFinal 2 sampleSecond.hash).run.run = .ok (.ok (some (second, saved'))) ∧
    FromScratch first sampleSecond.epochId sampleSecond.hash second.epochInfoAggregator ∧
    second = { first with epochInfoAggregator := second.epochInfoAggregator } := by
  refine ⟨_, ?second, _, ?saved, rfl, ?ran, updateEpochInfoAggregatorUptoFinal_fromScratch sampleManager_consistent
    (.single (.update 2 sampleFirst.hash rfl)) rfl ?ran⟩
  case ran => rfl

/-- Along any run from a consistent manager, `get_epoch_info_aggregator_upto_last` at a block of
the store returns the statistics of the block's epoch up to it, as aggregating the epoch from
scratch gives them. -/
theorem getEpochInfoAggregatorUptoLast_fromScratch {aggregator : EpochInfoAggregator}
    (initial : Consistent start) (steps : Relation.ReflTransGen Step start manager)
    (stored : manager.blockInfos hash = some hashInfo)
    (ran : (manager.getEpochInfoAggregatorUptoLast fuel hash).run.run = .ok (.ok (some aggregator))) :
    FromScratch manager hashInfo.epochId hash aggregator := by
  have consistent := initial.steps steps
  unfold getEpochInfoAggregatorUptoLast at ran
  obtain ⟨result, upto, rest⟩ := OptionT.run_run_bind_eq_some ran
  match result, rest with
  | none, rest =>
    simp only [OptionT.run_run_pure, Except.ok.injEq, Option.some.injEq] at rest
    rw [← rest]
    exact consistent.fromScratch_at_last stored (aggregateEpochInfoUpto_eq_none upto)
  | some (walked, true), rest =>
    simp only [↓reduceIte, OptionT.run_run_pure, Except.ok.injEq, Option.some.injEq] at rest
    subst rest
    obtain ⟨epoch, last, whole, -⟩ := aggregateEpochInfoUpto_spec consistent stored upto
    exact ⟨whole rfl, epoch, last⟩
  | some (walked, false), rest =>
    -- the walk stopped at the stored aggregator's last block, whose statistics go under its own
    simp only [Bool.false_eq_true, ↓reduceIte, OptionT.run_run_liftM_eq_some] at rest
    obtain ⟨epoch, last, -, sinceLast⟩ := aggregateEpochInfoUpto_spec consistent stored upto
    obtain ⟨sameEpoch, stats⟩ := sinceLast rfl
    obtain ⟨merged, mergedOk, mergedView, mergedEpoch, mergedLast⟩ := mergePrefix_of_eq (epoch.trans sameEpoch.symm)
    rw [rest, Except.ok.injEq] at mergedOk
    subst mergedOk
    exact ⟨by rw [mergedView]; exact stats, mergedEpoch.trans epoch, mergedLast.trans last⟩

/-- The update up to the sample's first block, then the aggregator up to its second, by
`merge_prefix`. -/
theorem getEpochInfoAggregatorUptoLast_fromScratch_sample : ∃ first saved aggregator,
    (sampleManager.updateEpochInfoAggregatorUptoFinal 2 sampleFirst.hash).run.run = .ok (.ok (some (first, saved))) ∧
    (first.getEpochInfoAggregatorUptoLast 2 sampleSecond.hash).run.run = .ok (.ok (some aggregator)) ∧
    FromScratch first sampleSecond.epochId sampleSecond.hash aggregator := by
  refine ⟨_, _, ?aggregator, rfl, ?got, getEpochInfoAggregatorUptoLast_fromScratch sampleManager_consistent
    (.single (.update 2 sampleFirst.hash rfl)) rfl ?got⟩
  case got => rfl

/-- Along any run from a consistent manager, `get_epoch_info_aggregator_upto_last` at a block of
the store returns, given a pass more than the block's epoch has blocks up to it, if aggregating
them from scratch does not panic. -/
theorem getEpochInfoAggregatorUptoLast_returns {base : CryptoHash} {baseInfo : BlockInfo} {blocks : List BlockInfo}
    {epochInfo : EpochInfo} {whole : EpochInfoAggregator}
    (initial : Consistent start) (steps : Relation.ReflTransGen Step start manager)
    (stored : manager.blockInfos hash = some hashInfo) (atBase : manager.blockInfos base = some baseInfo)
    (epochStart : baseInfo.epochId ≠ hashInfo.epochId ∨ baseInfo.isGenesis = true)
    (chain : manager.ChainFrom hashInfo.epochId base hash blocks)
    (info : manager.epochInfos hashInfo.epochId = some epochInfo)
    (aggregated : (new hashInfo.epochId hash).aggregateChain epochInfo
      (manager.shardLayoutOf epochInfo.protocolVersion) baseInfo.height blocks = .ok whole)
    (enough : blocks.length < fuel) :
    ∃ aggregator, (manager.getEpochInfoAggregatorUptoLast fuel hash).run.run = .ok (.ok (some aggregator)) := by
  obtain ⟨result, upto⟩ := aggregateEpochInfoUpto_returns stored atBase epochStart chain info aggregated enough
  unfold getEpochInfoAggregatorUptoLast
  rw [OptionT.run_run_bind_of_some upto]
  match result, upto with
  | none, _ => exact ⟨_, rfl⟩
  | some (walked, true), _ => exact ⟨_, rfl⟩
  | some (walked, false), upto =>
    -- the merge of the stored aggregator under the walk's asserts one epoch, which consistency gives
    obtain ⟨epoch, -, -, sinceLast⟩ := aggregateEpochInfoUpto_spec (initial.steps steps) stored upto
    obtain ⟨merged, mergedOk, -⟩ := mergePrefix_of_eq (epoch.trans (sinceLast rfl).1.symm)
    exact ⟨merged, OptionT.run_run_liftM_eq_some.2 mergedOk⟩

/-- From the default aggregator, the walk from the sample's second block back to genesis. -/
theorem getEpochInfoAggregatorUptoLast_returns_sample :
    ∃ aggregator, (sampleManager.getEpochInfoAggregatorUptoLast 3 sampleSecond.hash).run.run =
      .ok (.ok (some aggregator)) :=
  getEpochInfoAggregatorUptoLast_returns sampleManager_consistent .refl rfl
    (rfl : sampleManager.blockInfos sampleGenesis.hash = some sampleGenesis) (.inr rfl)
    (.snoc (.snoc .nil rfl rfl rfl rfl : sampleManager.ChainFrom _ sampleGenesis.hash sampleFirst.hash [sampleFirst])
      rfl rfl rfl rfl) rfl rfl (by decide)

end Drivers

end Nearcore.EpochManager
