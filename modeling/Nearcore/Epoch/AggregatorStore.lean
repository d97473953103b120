import Nearcore.Epoch.AggregatorSegments
import Nearcore.Primitives.Merkle

/-! The aggregation of `EpochManager` (`chain/epoch-manager/src/lib.rs`).
`aggregate_epoch_info_upto` walks the chain back from a block, through the block infos of the
store, until it reaches the last block of the stored aggregator, the start of the block's epoch,
or genesis; `update_epoch_info_aggregator_upto_final` replaces the stored aggregator with what the
walk collected, or merges that into it, and `get_epoch_info_aggregator_upto_last` merges the
stored one under it.

The store is read-only here: the block infos, the epoch infos, the prev block hash of the header
head and the prev hashes of the headers, which the epoch-sync case reads; the shard layout of an
epoch is that of its protocol version in the config. The walk runs on fuel. No `debug` cfg is set
in the builds, so the height assertion under `cfg!(debug)` is left out, and so are the caches, the
metrics and the loop counter of the tests. -/
namespace Nearcore

open EpochManager in
/-- The part of `EpochManager` the aggregation reads: the store, the config and the aggregator. -/
structure EpochManager where
  blockInfos : CryptoHash → Option BlockInfo
  epochInfos : EpochId → Option EpochInfo
  /-- The shard layout of the config of each protocol version. -/
  shardLayoutOf : ProtocolVersion → ShardLayout
  /-- `Tip::prev_block_hash` of the header head, if the store has it. -/
  headerHeadPrevBlockHash : Option CryptoHash
  /-- The prev hash of each block header in the store. -/
  blockHeaderPrevHashes : CryptoHash → Option CryptoHash
  epochInfoAggregator : EpochInfoAggregator

namespace EpochManager

open Unsigned

/-- The variants of `EpochError` the aggregation returns. -/
inductive EpochError
  | epochOutOfBounds (epochId : EpochId)
  | missingBlock (hash : CryptoHash)
  | ioErr (message : String)

/-- The epoch manager's code: it returns an `EpochError` with `?`, panics, and a walk on fuel
that does not end within it fails. -/
abbrev EpochM := OptionT (ExceptT EpochError (Except Panic))

/-- `BlockInfo::is_genesis`. -/
def BlockInfo.isGenesis (blockInfo : BlockInfo) : Bool := blockInfo.prevHash == CryptoHash.default

section
attribute [local simp] BlockInfo.isGenesis
end

/-- `AGGREGATOR_SAVE_PERIOD`. -/
def aggregatorSavePeriod : Nat := 1000

def getBlockInfo (manager : EpochManager) (hash : CryptoHash) : EpochM BlockInfo :=
  match manager.blockInfos hash with
  | some blockInfo => pure blockInfo
  | none => throwThe EpochError (.missingBlock hash)

section
attribute [local simp] getBlockInfo
end

def getEpochInfo (manager : EpochManager) (epochId : EpochId) : EpochM EpochInfo :=
  match manager.epochInfos epochId with
  | some epochInfo => pure epochInfo
  | none => throwThe EpochError (.epochOutOfBounds epochId)

section
attribute [local simp] getEpochInfo
end

def getShardLayout (manager : EpochManager) (epochId : EpochId) : EpochM ShardLayout := do
  let epochInfo ← manager.getEpochInfo epochId
  pure (manager.shardLayoutOf epochInfo.protocolVersion)

section
attribute [local simp] getShardLayout
end

/-- The height and epoch of the parent of `blockInfo` in the walk: its block info's, or, when the
store lacks it in epoch sync, one below the block and the block's own epoch, if the header head's
parent is the block's child. -/
def prevHeightAndEpoch (manager : EpochManager) (blockInfo : BlockInfo) : EpochM (BlockHeight × EpochId) :=
  match manager.blockInfos blockInfo.prevHash with
  | some info => pure (info.height, info.epochId)
  | none => do
    let some tipPrevBlockHash := manager.headerHeadPrevBlockHash
      | throwThe EpochError (.ioErr "Tip not found in store")
    let some headerPrevHash := manager.blockHeaderPrevHashes tipPrevBlockHash
      | throwThe EpochError (.ioErr "BlockHeader for prev block of tip not found in store")
    if headerPrevHash = blockInfo.hash then
      let height ← (sub blockInfo.height 1 : Except Panic Nat)
      pure (height, blockInfo.epochId)
    else throwThe EpochError (.missingBlock blockInfo.prevHash)

section
attribute [local simp] prevHeightAndEpoch
end

/-- A pass of the loop of `aggregate_epoch_info_upto` at `curHash`: `inl` is the aggregator, and
whether it holds the epoch in full, when the loop breaks; `inr` the aggregator and the block the
walk goes on from. -/
def aggregatePass (manager : EpochManager) (epochId : EpochId) (epochInfo : EpochInfo)
    (shardLayout : ShardLayout) (aggregator : EpochInfoAggregator) (curHash : CryptoHash) :
    EpochM ((EpochInfoAggregator × Bool) ⊕ (EpochInfoAggregator × CryptoHash)) := do
  let blockInfo ← manager.getBlockInfo curHash
  let differentEpoch := epochId != blockInfo.epochId
  -- the start of the epoch or genesis, without the stored aggregator's last block on the way
  if differentEpoch || blockInfo.isGenesis then return .inl (aggregator, true)
  let prevHash := blockInfo.prevHash
  let (prevHeight, prevEpoch) ← manager.prevHeightAndEpoch blockInfo
  let aggregator ← (aggregator.updateTail blockInfo epochInfo shardLayout prevHeight : Except Panic _)
  -- the stored aggregator's last block: full information only if it is of another epoch
  if prevHash = manager.epochInfoAggregator.lastBlockHash then return .inl (aggregator, epochId != prevEpoch)
  return .inr (aggregator, prevHash)

section
attribute [local simp] aggregatePass
end

/-- The loop of `aggregate_epoch_info_upto`, on `fuel` passes. -/
def aggregateLoop (manager : EpochManager) (epochId : EpochId) (epochInfo : EpochInfo) (shardLayout : ShardLayout) :
    Nat → EpochInfoAggregator → CryptoHash → EpochM (EpochInfoAggregator × Bool)
  | 0, _, _ => failure
  | fuel + 1, aggregator, curHash => do
    match ← manager.aggregatePass epochId epochInfo shardLayout aggregator curHash with
    | .inl result => pure result
    | .inr (aggregator, prevHash) => manager.aggregateLoop epochId epochInfo shardLayout fuel aggregator prevHash

section
attribute [local simp] aggregateLoop
end

/-- `aggregate_epoch_info_upto`: `none` when the block is the stored aggregator's last. -/
def aggregateEpochInfoUpto (manager : EpochManager) (fuel : Nat) (blockHash : CryptoHash) :
    EpochM (Option (EpochInfoAggregator × Bool)) := do
  if blockHash = manager.epochInfoAggregator.lastBlockHash then return none
  let epochId := (← manager.getBlockInfo blockHash).epochId
  let epochInfo ← manager.getEpochInfo epochId
  let shardLayout ← manager.getShardLayout epochId
  some <$> manager.aggregateLoop epochId epochInfo shardLayout fuel (.new epochId blockHash) blockHash

section
attribute [local simp] aggregateEpochInfoUpto
end

/-- `update_epoch_info_aggregator_upto_final`: the manager with its new aggregator, and the
aggregator written to the store update, if it is saved. The second read of the final block's info
cannot fail, the walk having read it; so the aggregator merged before it stays. -/
def updateEpochInfoAggregatorUptoFinal (manager : EpochManager) (fuel : Nat) (lastFinalBlockHash : CryptoHash) :
    EpochM (EpochManager × Option EpochInfoAggregator) := do
  match ← manager.aggregateEpochInfoUpto fuel lastFinalBlockHash with
  | none => pure (manager, none)
  | some (aggregator, replace) =>
    if replace then pure ({ manager with epochInfoAggregator := aggregator }, some aggregator)
    else
      let merged ← (manager.epochInfoAggregator.merge aggregator : Except Panic _)
      let blockInfo ← manager.getBlockInfo lastFinalBlockHash
      let save := blockInfo.height % aggregatorSavePeriod = 0
      pure ({ manager with epochInfoAggregator := merged }, if save then some merged else none)

section
attribute [local simp] updateEpochInfoAggregatorUptoFinal
end

/-- `get_epoch_info_aggregator_upto_last`. -/
def getEpochInfoAggregatorUptoLast (manager : EpochManager) (fuel : Nat) (lastBlockHash : CryptoHash) :
    EpochM EpochInfoAggregator := do
  match ← manager.aggregateEpochInfoUpto fuel lastBlockHash with
  | some (aggregator, replace) =>
    if replace then pure aggregator
    else (aggregator.mergePrefix manager.epochInfoAggregator : Except Panic _)
  | none => pure manager.epochInfoAggregator

section
attribute [local simp] getEpochInfoAggregatorUptoLast
end


section Reads

variable (manager : EpochManager)

@[simp] theorem getBlockInfo_eq_some {hash : CryptoHash} {blockInfo : BlockInfo} :
    (manager.getBlockInfo hash).run.run = .ok (.ok (some blockInfo)) ↔ manager.blockInfos hash = some blockInfo := by
  unfold getBlockInfo
  split <;> rename_i stored <;> simp [stored]

@[simp] theorem getEpochInfo_eq_some {epochId : EpochId} {epochInfo : EpochInfo} :
    (manager.getEpochInfo epochId).run.run = .ok (.ok (some epochInfo)) ↔ manager.epochInfos epochId = some epochInfo := by
  unfold getEpochInfo
  split <;> rename_i stored <;> simp [stored]

/-- The parent of a block of the store is read from the store. -/
theorem prevHeightAndEpoch_of_stored {blockInfo prevInfo : BlockInfo}
    (stored : manager.blockInfos blockInfo.prevHash = some prevInfo) :
    (manager.prevHeightAndEpoch blockInfo).run.run = .ok (.ok (some (prevInfo.height, prevInfo.epochId))) := by
  simp [prevHeightAndEpoch, stored]

/-- The parent's height and epoch are those of its block info, or, in epoch sync, one below the
block and the block's own epoch. -/
theorem prevHeightAndEpoch_eq_some {blockInfo : BlockInfo} {prevHeight : BlockHeight} {prevEpoch : EpochId}
    (ran : (manager.prevHeightAndEpoch blockInfo).run.run = .ok (.ok (some (prevHeight, prevEpoch)))) :
    (∃ prevInfo, manager.blockInfos blockInfo.prevHash = some prevInfo ∧
        prevHeight = prevInfo.height ∧ prevEpoch = prevInfo.epochId) ∨
      (manager.blockInfos blockInfo.prevHash = none ∧ prevHeight + 1 = blockInfo.height ∧
        prevEpoch = blockInfo.epochId) := by
  unfold prevHeightAndEpoch at ran
  split at ran
  · rename_i prevInfo stored
    simp at ran
    exact .inl ⟨prevInfo, stored, ran.1.symm, ran.2.symm⟩
  · rename_i missing
    -- the store lacks the parent: only epoch sync's check of the tip's header returns
    split at ran <;> try (split at ran <;> try split at ran)
    all_goals simp [Unsigned.sub] at ran
    split at ran
    · rename_i positive
      simp [Except.map] at ran
      rw [← ran.1, ← ran.2]
      exact .inr ⟨missing, Nat.sub_add_cancel positive, rfl⟩
    · simp at ran

theorem getShardLayout_eq_some {epochId : EpochId} {shardLayout : ShardLayout} :
    (manager.getShardLayout epochId).run.run = .ok (.ok (some shardLayout)) ↔
      ∃ epochInfo, manager.epochInfos epochId = some epochInfo ∧
        manager.shardLayoutOf epochInfo.protocolVersion = shardLayout := by
  unfold getShardLayout getEpochInfo
  split <;> rename_i stored <;> simp [stored, Except.map]

end Reads

/-- What a pass of the walk can do at `curHash`, the block it reads. -/
inductive Pass (manager : EpochManager) (epochId : EpochId) (epochInfo : EpochInfo) (shardLayout : ShardLayout)
    (aggregator : EpochInfoAggregator) (curHash : CryptoHash) :
    (EpochInfoAggregator × Bool) ⊕ (EpochInfoAggregator × CryptoHash) → Prop
  /-- A block of another epoch, or genesis: the walk stops, the aggregator holding the epoch. -/
  | boundary (blockInfo : BlockInfo) (stored : manager.blockInfos curHash = some blockInfo)
      (epochStart : blockInfo.epochId ≠ epochId ∨ blockInfo.isGenesis = true) :
      Pass manager epochId epochInfo shardLayout aggregator curHash (.inl (aggregator, true))
  /-- The block is aggregated and its parent is the stored aggregator's last block: the walk
  stops, the aggregator holding the epoch if that block is of another one. -/
  | synced (blockInfo : BlockInfo) (prevHeight : BlockHeight) (prevEpoch : EpochId) (next : EpochInfoAggregator)
      (stored : manager.blockInfos curHash = some blockInfo) (inEpoch : blockInfo.epochId = epochId)
      (notGenesis : blockInfo.isGenesis = false)
      (prev : (manager.prevHeightAndEpoch blockInfo).run.run = .ok (.ok (some (prevHeight, prevEpoch))))
      (updated : aggregator.updateTail blockInfo epochInfo shardLayout prevHeight = .ok next)
      (atLast : blockInfo.prevHash = manager.epochInfoAggregator.lastBlockHash) :
      Pass manager epochId epochInfo shardLayout aggregator curHash (.inl (next, epochId != prevEpoch))
  /-- The block is aggregated and the walk goes on from its parent. -/
  | walked (blockInfo : BlockInfo) (prevHeight : BlockHeight) (prevEpoch : EpochId) (next : EpochInfoAggregator)
      (stored : manager.blockInfos curHash = some blockInfo) (inEpoch : blockInfo.epochId = epochId)
      (notGenesis : blockInfo.isGenesis = false)
      (prev : (manager.prevHeightAndEpoch blockInfo).run.run = .ok (.ok (some (prevHeight, prevEpoch))))
      (updated : aggregator.updateTail blockInfo epochInfo shardLayout prevHeight = .ok next)
      (notLast : blockInfo.prevHash ≠ manager.epochInfoAggregator.lastBlockHash) :
      Pass manager epochId epochInfo shardLayout aggregator curHash (.inr (next, blockInfo.prevHash))

/-- `blocks`, oldest first, are the blocks of the store from the child of `base` up to `hash`, each
the child of the one before, all of epoch `epochId` and none genesis. -/
inductive ChainFrom (manager : EpochManager) (epochId : EpochId) (base : CryptoHash) :
    CryptoHash → List BlockInfo → Prop
  | nil : ChainFrom manager epochId base base []
  | snoc {prevHash hash : CryptoHash} {blocks : List BlockInfo} {blockInfo : BlockInfo}
      (chain : ChainFrom manager epochId base prevHash blocks)
      (stored : manager.blockInfos hash = some blockInfo) (linked : blockInfo.prevHash = prevHash)
      (inEpoch : blockInfo.epochId = epochId) (notGenesis : blockInfo.isGenesis = false) :
      ChainFrom manager epochId base hash (blocks ++ [blockInfo])

/-- Where a walk that aggregated `blocks` stopped: at `base`, the parent of the oldest of them,
whose height it took as `baseHeight`. -/
inductive WalkEnd (manager : EpochManager) (epochId : EpochId) (base : CryptoHash) (baseHeight : BlockHeight) :
    List BlockInfo → Bool → Prop
  /-- At a block of another epoch, or at genesis. -/
  | boundary {blocks : List BlockInfo} (baseInfo : BlockInfo) (stored : manager.blockInfos base = some baseInfo)
      (height : baseInfo.height = baseHeight) (epochStart : baseInfo.epochId ≠ epochId ∨ baseInfo.isGenesis = true) :
      WalkEnd manager epochId base baseHeight blocks true
  /-- At the stored aggregator's last block, read as the parent of the oldest block. -/
  | synced (first : BlockInfo) (rest : List BlockInfo) (prevEpoch : EpochId)
      (atLast : base = manager.epochInfoAggregator.lastBlockHash)
      (prev : (manager.prevHeightAndEpoch first).run.run = .ok (.ok (some (baseHeight, prevEpoch)))) :
      WalkEnd manager epochId base baseHeight (first :: rest) (epochId != prevEpoch)

section Walk

open EpochInfoAggregator

variable {manager : EpochManager} {epochId : EpochId} {epochInfo : EpochInfo} {shardLayout : ShardLayout}

theorem pass_of_aggregatePass {aggregator : EpochInfoAggregator} {curHash : CryptoHash}
    {result : (EpochInfoAggregator × Bool) ⊕ (EpochInfoAggregator × CryptoHash)}
    (ran : (manager.aggregatePass epochId epochInfo shardLayout aggregator curHash).run.run =
      .ok (.ok (some result))) :
    Pass manager epochId epochInfo shardLayout aggregator curHash result := by
  unfold aggregatePass at ran
  obtain ⟨blockInfo, read, rest⟩ := OptionT.run_run_bind_eq_some ran
  rw [getBlockInfo_eq_some] at read
  by_cases boundary : (epochId != blockInfo.epochId || blockInfo.isGenesis) = true
  · simp only [boundary, ↓reduceIte, OptionT.run_run_pure, Except.ok.injEq, Option.some.injEq] at rest
    subst rest
    rw [Bool.or_eq_true, bne_iff_ne, ne_comm] at boundary
    exact .boundary blockInfo read boundary
  · simp only [boundary, Bool.false_eq_true, ↓reduceIte] at rest
    obtain ⟨⟨prevHeight, prevEpoch⟩, prev, rest⟩ := OptionT.run_run_bind_eq_some rest
    obtain ⟨next, updated, rest⟩ := OptionT.run_run_bind_eq_some rest
    rw [OptionT.run_run_liftM_eq_some] at updated
    simp only [Bool.or_eq_true, bne_iff_ne, ne_eq, not_or, not_not, Bool.not_eq_true] at boundary
    obtain ⟨inEpoch, notGenesis⟩ := boundary
    split at rest
    · rename_i atLast
      simp at rest
      subst rest
      exact .synced blockInfo prevHeight prevEpoch next read inEpoch.symm notGenesis prev updated atLast
    · rename_i notLast
      simp at rest
      subst rest
      exact .walked blockInfo prevHeight prevEpoch next read inEpoch.symm notGenesis prev updated notLast

/-- A pass at a block of the epoch, not genesis, aggregates it onto the aggregator at its parent's
height, and stops if the parent is the stored aggregator's last block. -/
theorem aggregatePass_of_inEpoch {aggregator next : EpochInfoAggregator} {curHash : CryptoHash}
    {blockInfo : BlockInfo} {prevHeight : BlockHeight} {prevEpoch : EpochId}
    (stored : manager.blockInfos curHash = some blockInfo) (inEpoch : blockInfo.epochId = epochId)
    (notGenesis : blockInfo.isGenesis = false)
    (prev : (manager.prevHeightAndEpoch blockInfo).run.run = .ok (.ok (some (prevHeight, prevEpoch))))
    (updated : aggregator.updateTail blockInfo epochInfo shardLayout prevHeight = .ok next) :
    (manager.aggregatePass epochId epochInfo shardLayout aggregator curHash).run.run =
      .ok (.ok (some (if blockInfo.prevHash = manager.epochInfoAggregator.lastBlockHash
        then .inl (next, epochId != prevEpoch) else .inr (next, blockInfo.prevHash)))) := by
  unfold aggregatePass
  rw [OptionT.run_run_bind_of_some ((getBlockInfo_eq_some manager).2 stored)]
  simp only [inEpoch, bne_self_eq_false, notGenesis, Bool.or_false, Bool.false_eq_true, ↓reduceIte]
  rw [OptionT.run_run_bind_of_some prev, OptionT.run_run_bind_of_some (OptionT.run_run_liftM_eq_some.2 updated)]
  split <;> rfl

theorem aggregatePass_of_pass {aggregator : EpochInfoAggregator} {curHash : CryptoHash}
    {result : (EpochInfoAggregator × Bool) ⊕ (EpochInfoAggregator × CryptoHash)}
    (pass : Pass manager epochId epochInfo shardLayout aggregator curHash result) :
    (manager.aggregatePass epochId epochInfo shardLayout aggregator curHash).run.run = .ok (.ok (some result)) := by
  cases pass with
  | boundary blockInfo stored epochStart =>
    have boundary : (epochId != blockInfo.epochId || blockInfo.isGenesis) = true := by
      rw [Bool.or_eq_true, bne_iff_ne, ne_comm]
      exact epochStart
    unfold aggregatePass
    rw [OptionT.run_run_bind_of_some ((getBlockInfo_eq_some manager).2 stored)]
    simp only [boundary, ↓reduceIte, OptionT.run_run_pure]
  | synced blockInfo prevHeight prevEpoch next stored inEpoch notGenesis prev updated atLast =>
    rw [aggregatePass_of_inEpoch stored inEpoch notGenesis prev updated, if_pos atLast]
  | walked blockInfo prevHeight prevEpoch next stored inEpoch notGenesis prev updated notLast =>
    rw [aggregatePass_of_inEpoch stored inEpoch notGenesis prev updated, if_neg notLast]

namespace ChainFrom

variable {base hash : CryptoHash} {blocks : List BlockInfo}

theorem trans {middle : CryptoHash} (earlier : ChainFrom manager epochId base middle blocks) :
    ∀ {hash : CryptoHash} {later : List BlockInfo},
      ChainFrom manager epochId middle hash later → ChainFrom manager epochId base hash (blocks ++ later)
  | _, _, .nil => by rw [List.append_nil]; exact earlier
  | _, _, .snoc chain stored linked inEpoch notGenesis => by
    rw [← List.append_assoc]
    exact .snoc (trans earlier chain) stored linked inEpoch notGenesis

theorem base_eq_of_nil (chain : ChainFrom manager epochId base hash blocks) (empty : blocks = []) : hash = base := by
  cases chain with
  | nil => rfl
  | snoc => simp at empty

/-- A chain ends at a block of the store, or is empty. -/
theorem eq_nil_of_missing (chain : ChainFrom manager epochId base hash blocks)
    (missing : manager.blockInfos hash = none) : blocks = [] ∧ hash = base := by
  cases chain with
  | nil => exact ⟨rfl, rfl⟩
  | snoc _ stored => rw [stored] at missing; cases missing

/-- The oldest block of a chain is the child of its base. -/
theorem head_prevHash {first : BlockInfo} {rest : List BlockInfo}
    (chain : ChainFrom manager epochId base hash (first :: rest)) : first.prevHash = base := by
  generalize nonempty : first :: rest = blocks at chain
  induction chain generalizing rest with
  | nil => cases nonempty
  | @snoc prevHash hash blocks blockInfo chain stored linked _ _ ih =>
    cases blocks with
    | nil =>
      simp only [List.nil_append, List.cons.injEq] at nonempty
      rw [nonempty.1, linked]
      exact chain.base_eq_of_nil rfl
    | cons head tail =>
      simp only [List.cons_append, List.cons.injEq] at nonempty
      exact @ih tail (by rw [nonempty.1])

theorem mem {blockInfo : BlockInfo} (chain : ChainFrom manager epochId base hash blocks) (member : blockInfo ∈ blocks) :
    blockInfo.epochId = epochId ∧ blockInfo.isGenesis = false := by
  induction chain with
  | nil => cases member
  | snoc _ _ _ inEpoch notGenesis ih =>
    rcases List.mem_append.1 member with earlier | last
    · exact ih earlier
    · rw [List.mem_singleton.1 last]
      exact ⟨inEpoch, notGenesis⟩

/-- A chain's tip is a block of the store, at its last block's height, if its base is one. -/
theorem tip_stored {baseInfo : BlockInfo} (chain : ChainFrom manager epochId base hash blocks)
    (atBase : manager.blockInfos base = some baseInfo) :
    ∃ tipInfo, manager.blockInfos hash = some tipInfo ∧ tipHeight baseInfo.height blocks = tipInfo.height := by
  cases chain with
  | nil => exact ⟨baseInfo, atBase, rfl⟩
  | snoc _ stored => exact ⟨_, stored, tipHeight_append_singleton _ _ _⟩

/-- The height a chain's tip is read at is its block info's, whatever the base's height is taken
to be, as long as it is the base's own when the store has it. -/
theorem tipHeight_eq {baseHeight : BlockHeight} {tipInfo : BlockInfo} (chain : ChainFrom manager epochId base hash blocks)
    (atBase : ∀ baseInfo, manager.blockInfos base = some baseInfo → baseInfo.height = baseHeight)
    (stored : manager.blockInfos hash = some tipInfo) : tipHeight baseHeight blocks = tipInfo.height := by
  cases chain with
  | nil => exact (atBase tipInfo stored).symm
  | snoc _ last =>
    rw [last, Option.some.injEq] at stored
    rw [tipHeight_append_singleton, stored]

end ChainFrom

namespace WalkEnd

variable {base : CryptoHash} {baseHeight : BlockHeight} {blocks : List BlockInfo} {replace : Bool}

theorem snoc (walkEnd : WalkEnd manager epochId base baseHeight blocks replace) (blockInfo : BlockInfo) :
    WalkEnd manager epochId base baseHeight (blocks ++ [blockInfo]) replace := by
  cases walkEnd with
  | boundary baseInfo stored height epochStart => exact .boundary baseInfo stored height epochStart
  | synced first rest prevEpoch atLast prev => exact .synced first (rest ++ [blockInfo]) prevEpoch atLast prev

/-- The height a walk took for its base is the base's own, when the store has it. -/
theorem atBase {hash : CryptoHash} (walkEnd : WalkEnd manager epochId base baseHeight blocks replace)
    (chain : ChainFrom manager epochId base hash blocks) :
    ∀ baseInfo, manager.blockInfos base = some baseInfo → baseInfo.height = baseHeight := by
  intro baseInfo atBase
  cases walkEnd with
  | boundary stopInfo stored height =>
    rw [stored, Option.some.injEq] at atBase
    rw [← atBase, height]
  | synced first rest prevEpoch atLast prev =>
    rw [← chain.head_prevHash] at atBase
    rw [prevHeightAndEpoch_of_stored manager atBase] at prev
    simp only [Except.ok.injEq, Option.some.injEq, Prod.mk.injEq] at prev
    exact prev.1

/-- A walk that goes on from a block has read the block's parent where the walk from the parent
took the parent's height. -/
theorem tipHeight_eq {blockInfo : BlockInfo} {prevHeight : BlockHeight} {prevEpoch : EpochId}
    (walkEnd : WalkEnd manager epochId base baseHeight blocks replace)
    (chain : ChainFrom manager epochId base blockInfo.prevHash blocks)
    (prev : (manager.prevHeightAndEpoch blockInfo).run.run = .ok (.ok (some (prevHeight, prevEpoch)))) :
    tipHeight baseHeight blocks = prevHeight := by
  rcases prevHeightAndEpoch_eq_some manager prev with ⟨prevInfo, stored, rfl, -⟩ | ⟨missing, -, -⟩
  · exact chain.tipHeight_eq (walkEnd.atBase chain) stored
  · -- epoch sync's parent is missing from the store, where no walk from it stops
    obtain ⟨rfl, atParent⟩ := chain.eq_nil_of_missing missing
    cases walkEnd with
    | boundary baseInfo stored =>
      rw [← atParent, missing] at stored
      cases stored

end WalkEnd

/-- A walk that returns has aggregated, from its start back, a chain of blocks of the epoch, and
stopped at the chain's base, at the start of the epoch or at the stored aggregator's last block. -/
theorem aggregateLoop_eq_some :
    ∀ {fuel : Nat} {aggregator result : EpochInfoAggregator} {curHash : CryptoHash} {replace : Bool},
      (manager.aggregateLoop epochId epochInfo shardLayout fuel aggregator curHash).run.run =
        .ok (.ok (some (result, replace))) →
      ∃ base baseHeight blocks, ChainFrom manager epochId base curHash blocks ∧
        aggregator.aggregateChain epochInfo shardLayout baseHeight blocks = .ok result ∧
        WalkEnd manager epochId base baseHeight blocks replace
  | 0, _, _, _, _, ran => by simp [aggregateLoop] at ran
  | fuel + 1, aggregator, result, curHash, replace, ran => by
    rw [aggregateLoop] at ran
    obtain ⟨passed, passRan, rest⟩ := OptionT.run_run_bind_eq_some ran
    cases pass_of_aggregatePass passRan with
    | boundary blockInfo stored epochStart =>
      simp only [OptionT.run_run_pure, Except.ok.injEq, Option.some.injEq, Prod.mk.injEq] at rest
      obtain ⟨rfl, rfl⟩ := rest
      exact ⟨curHash, blockInfo.height, [], .nil, rfl, .boundary blockInfo stored rfl epochStart⟩
    | synced blockInfo prevHeight prevEpoch next stored inEpoch notGenesis prev updated atLast =>
      simp only [OptionT.run_run_pure, Except.ok.injEq, Option.some.injEq, Prod.mk.injEq] at rest
      obtain ⟨rfl, rfl⟩ := rest
      refine ⟨blockInfo.prevHash, prevHeight, [blockInfo], .snoc .nil stored rfl inEpoch notGenesis, ?_,
        .synced blockInfo [] prevEpoch atLast prev⟩
      rw [aggregateChain_singleton, updated]
    | walked blockInfo prevHeight prevEpoch next stored inEpoch notGenesis prev updated notLast =>
      obtain ⟨base, baseHeight, blocks, chain, aggregated, walkEnd⟩ := aggregateLoop_eq_some rest
      refine ⟨base, baseHeight, blocks ++ [blockInfo], .snoc chain stored rfl inEpoch notGenesis, ?_,
        walkEnd.snoc blockInfo⟩
      -- the block first, at its parent's height, then the chain the walk from its parent aggregated
      rw [aggregateChain_append, walkEnd.tipHeight_eq chain prev, aggregateChain_singleton, updated,
        Except.ok_bind, aggregated]

/-- A walk over a chain whose base starts the epoch returns within one pass more than the chain has
blocks, if the chain's aggregation does not panic. -/
theorem aggregateLoop_returns {base curHash : CryptoHash} {baseInfo : BlockInfo} {blocks : List BlockInfo}
    (atBase : manager.blockInfos base = some baseInfo)
    (epochStart : baseInfo.epochId ≠ epochId ∨ baseInfo.isGenesis = true)
    (chain : ChainFrom manager epochId base curHash blocks) :
    ∀ {fuel : Nat} {aggregator whole : EpochInfoAggregator},
      aggregator.aggregateChain epochInfo shardLayout baseInfo.height blocks = .ok whole → blocks.length < fuel →
      ∃ result, (manager.aggregateLoop epochId epochInfo shardLayout fuel aggregator curHash).run.run =
        .ok (.ok (some result)) := by
  induction chain with
  | nil =>
    intro fuel aggregator whole _ enough
    obtain ⟨fuel, rfl⟩ := Nat.exists_eq_add_one.2 (Nat.zero_lt_of_lt enough)
    rw [aggregateLoop, OptionT.run_run_bind_of_some (aggregatePass_of_pass (.boundary baseInfo atBase epochStart))]
    exact ⟨_, rfl⟩
  | @snoc prevHash hash blocks blockInfo chain stored linked inEpoch notGenesis ih =>
    intro fuel aggregator whole aggregated enough
    obtain ⟨fuel, rfl⟩ := Nat.exists_eq_add_one.2 (Nat.zero_lt_of_lt enough)
    -- the block is aggregated at its parent's height, read from the store
    rw [aggregateChain_append] at aggregated
    obtain ⟨next, updated, rest⟩ := Except.bind_eq_ok aggregated
    obtain ⟨prevInfo, prevStored, prevHeight⟩ := chain.tip_stored atBase
    rw [← linked] at prevStored
    rw [prevHeight, aggregateChain_singleton] at updated
    rw [aggregateLoop, OptionT.run_run_bind_of_some (aggregatePass_of_inEpoch stored inEpoch notGenesis
      (prevHeightAndEpoch_of_stored manager prevStored) updated)]
    by_cases atLast : blockInfo.prevHash = manager.epochInfoAggregator.lastBlockHash
    · rw [if_pos atLast]
      exact ⟨_, rfl⟩
    · rw [if_neg atLast, linked]
      exact ih rest (by simpa using enough)

end Walk

end EpochManager

end Nearcore
