import Nearcore.Epoch.ValidatorSelection
import Nearcore.Primitives.DeriveShardLayout
import Nearcore.Library.Bitmap
import Nearcore.Library.Collections
import Nearcore.Library.EntryMap

/-! `EpochInfoAggregator` (`chain/epoch-manager/src/epoch_info_aggregator.rs`): the block, chunk
and endorsement statistics of an epoch, the latest protocol version each block producer announced
and the proposals, collected from the tip back one block at a time (`update_tail`) and combined
over two consecutive segments of the epoch (`merge`, `merge_prefix`).

The maps are `EntryMap.Map`s, iterated in the order of their entries; what is proved reads them
through lookups and holds in every order. `EpochInfo` is the three samplers `update_tail` calls,
and `BlockInfo` the fields the epoch manager reads. Counters are natural numbers: they count
heights of one epoch, far from `u64::MAX`. The message of the epoch assertion of `merge_common`
goes on to print the two epoch ids in base58, which is left out. -/
namespace Nearcore.ShardLayoutError

/-- The error as its derived `Debug` prints it, in the panic of a `Result::unwrap`. -/
def debug : ShardLayoutError → String
  | .invalidShardIdError shardId =>
    let id := shardId.toNat
    s!"InvalidShardIdError \x7b shard_id: {id} \x7d"
  | .invalidShardIndexError shardIndex => s!"InvalidShardIndexError \x7b shard_index: {shardIndex} \x7d"
  | .noParentError shardId =>
    let id := shardId.toNat
    s!"NoParentError \x7b shard_id: {id} \x7d"

end Nearcore.ShardLayoutError

namespace Nearcore.EpochManager

open EntryMap Unsigned Collections

/-- `ValidatorId`, the index of a validator in its epoch. -/
abbrev ValidatorId := Nat

abbrev BlockHeight := Nat

/-- `EpochId`, the hash that names an epoch. -/
structure EpochId where
  hash : CryptoHash
  deriving DecidableEq

@[ext] structure ValidatorStats where
  produced : Nat
  expected : Nat
  deriving DecidableEq, Repr

/-- Stats add field by field, as `merge_common` adds them. -/
instance ValidatorStats.instAdd : Add ValidatorStats :=
  ⟨fun a b => ⟨a.produced + b.produced, a.expected + b.expected⟩⟩

namespace ValidatorStats

@[simp] theorem add_produced (a b : ValidatorStats) : (a + b).produced = a.produced + b.produced := rfl

@[simp] theorem add_expected (a b : ValidatorStats) : (a + b).expected = a.expected + b.expected := rfl

theorem add_assoc (a b c : ValidatorStats) : a + b + c = a + (b + c) := by
  ext <;> simp only [add_produced, add_expected, Nat.add_assoc]

theorem add_comm (a b : ValidatorStats) : a + b = b + a := by
  ext <;> simp only [add_produced, add_expected, Nat.add_comm]

instance instAssociativeAdd : Std.Associative (fun a b : ValidatorStats => a + b) := ⟨add_assoc⟩

instance instCommutativeAdd : Std.Commutative (fun a b : ValidatorStats => a + b) := ⟨add_comm⟩

/-- `produced <= expected`. -/
def Valid (stats : ValidatorStats) : Prop := stats.produced ≤ stats.expected

instance instDecidablePredValid : DecidablePred Valid := fun stats =>
  inferInstanceAs (Decidable (stats.produced ≤ stats.expected))

theorem valid_add {a b : ValidatorStats} (left : a.Valid) (right : b.Valid) : (a + b).Valid :=
  Nat.add_le_add left right

end ValidatorStats

@[ext] structure ChunkStats where
  production : ValidatorStats
  endorsement : ValidatorStats
  deriving DecidableEq, Repr

namespace ChunkStats

def newWithProduction (produced expected : Nat) : ChunkStats := ⟨⟨produced, expected⟩, ⟨0, 0⟩⟩

section
attribute [local simp] newWithProduction
end

def newWithEndorsement (produced expected : Nat) : ChunkStats := ⟨⟨0, 0⟩, ⟨produced, expected⟩⟩

section
attribute [local simp] newWithEndorsement
end

instance instAdd : Add ChunkStats := ⟨fun a b => ⟨a.production + b.production, a.endorsement + b.endorsement⟩⟩

@[simp] theorem add_production (a b : ChunkStats) : (a + b).production = a.production + b.production := rfl

@[simp] theorem add_endorsement (a b : ChunkStats) : (a + b).endorsement = a.endorsement + b.endorsement := rfl

theorem add_assoc (a b c : ChunkStats) : a + b + c = a + (b + c) := by
  ext : 1 <;> simp only [add_production, add_endorsement, ValidatorStats.add_assoc]

theorem add_comm (a b : ChunkStats) : a + b = b + a := by
  ext : 1 <;> simp only [add_production, add_endorsement, ValidatorStats.add_comm]

instance instAssociativeAdd : Std.Associative (fun a b : ChunkStats => a + b) := ⟨add_assoc⟩

instance instCommutativeAdd : Std.Commutative (fun a b : ChunkStats => a + b) := ⟨add_comm⟩

/-- The chunk and the endorsement stats both have `produced <= expected`. -/
def Valid (stats : ChunkStats) : Prop := stats.production.Valid ∧ stats.endorsement.Valid

theorem valid_add {a b : ChunkStats} (left : a.Valid) (right : b.Valid) : (a + b).Valid :=
  ⟨ValidatorStats.valid_add left.1 right.1, ValidatorStats.valid_add left.2 right.2⟩

end ChunkStats

/-- What the aggregation reads of `EpochInfo`: its protocol version, which picks the epoch's
shard layout, and the samplers `update_tail` calls: the block producer of a height, the chunk
producer of a shard at a height (`none` for a shard the layout lacks), and the chunk validators of
each shard index at a height, with their stakes. -/
structure EpochInfo where
  protocolVersion : ProtocolVersion
  sampleBlockProducer : BlockHeight → ValidatorId
  sampleChunkProducer : ShardLayout → ShardId → BlockHeight → Option ValidatorId
  sampleChunkValidators : BlockHeight → List (List (ValidatorId × Balance))

/-- The fields of `BlockInfo` the epoch manager reads here. `chunkEndorsements` is `none` before
`V3`, and otherwise the bytes of each shard's bitmap. -/
structure BlockInfo where
  hash : CryptoHash
  prevHash : CryptoHash
  height : BlockHeight
  epochId : EpochId
  chunkMask : List Bool
  latestProtocolVersion : ProtocolVersion
  proposals : List ValidatorStake
  chunkEndorsements : Option (List (List UInt8))

structure EpochInfoAggregator where
  blockTracker : Map ValidatorId ValidatorStats
  shardTracker : Map ShardId (Map ValidatorId ChunkStats)
  versionTracker : Map ValidatorId ProtocolVersion
  allProposals : Map AccountId ValidatorStake
  epochId : EpochId
  lastBlockHash : CryptoHash

/-- The statistics of an aggregator read through lookups: two aggregators with one view have
maps that Rust compares equal. -/
structure View where
  blockTracker : ValidatorId → Option ValidatorStats
  shardTracker : ShardId → Option (ValidatorId → Option ChunkStats)
  versionTracker : ValidatorId → Option ProtocolVersion
  allProposals : AccountId → Option ValidatorStake

namespace View

/-- The view of an aggregator of no block. -/
def empty : View := ⟨fun _ => none, fun _ => none, fun _ => none, fun _ => none⟩

section
attribute [local simp] empty
end

/-- The statistics of a later segment of an epoch, `late`, over those of the segment before it,
`early`: counters add, and where both hold a block producer's version or an account's proposal
the later segment's wins. -/
def union (late early : View) : View :=
  ⟨mergeWith (· + ·) late.blockTracker early.blockTracker,
    mergeWith (mergeWith (· + ·)) late.shardTracker early.shardTracker,
    prefer late.versionTracker early.versionTracker, prefer late.allProposals early.allProposals⟩

section
attribute [local simp] union
end

theorem union_assoc (x y z : View) : union (union x y) z = union x (union y z) := by
  simp only [union, mergeWith_assoc, prefer_assoc]

@[simp] theorem union_empty (x : View) : union x empty = x := by
  simp [union, empty]

@[simp] theorem empty_union (x : View) : union empty x = x := by
  simp [union, empty]

/-- Every block, chunk and endorsement stat the view holds has `produced <= expected`. -/
def Valid (view : View) : Prop :=
  Every ValidatorStats.Valid view.blockTracker ∧ Every (Every ChunkStats.Valid) view.shardTracker

theorem valid_empty : empty.Valid := ⟨every_none _, every_none _⟩

theorem valid_union {x y : View} (left : x.Valid) (right : y.Valid) : (union x y).Valid :=
  ⟨every_mergeWith (fun _ _ => ValidatorStats.valid_add) left.1 right.1,
    every_mergeWith (fun _ _ => every_mergeWith fun _ _ => ChunkStats.valid_add) left.2 right.2⟩

end View

/-- The shard tracker read through lookups, each shard's tracker too. -/
def shardView (shardTracker : Map ShardId (Map ValidatorId ChunkStats)) (shardId : ShardId) :
    Option (ValidatorId → Option ChunkStats) :=
  (shardTracker.lookup shardId).map EntryMap.view

section
attribute [local simp] shardView
end

@[simp] theorem shardView_empty : shardView ∅ = fun _ => none := by
  funext shardId
  simp [shardView, AList.lookup_empty]

/-- `ChunkEndorsementsBitmap::iter`: the bits of a shard's bitmap, the lowest of each byte first
(`Lsb0`); indexing the shards panics past their number. -/
def endorsementBits (bitmap : List (List UInt8)) (shardIndex : Nat) : Except Panic (List Bool) := do
  let bytes ← index bitmap shardIndex
  pure (bytes.flatMap fun byte => Bitmap.bitsOf 8 byte.toNat)

namespace EpochInfoAggregator

def new (epochId : EpochId) (lastBlockHash : CryptoHash) : EpochInfoAggregator :=
  ⟨∅, ∅, ∅, ∅, epochId, lastBlockHash⟩

section
attribute [local simp] new
end

def view (aggregator : EpochInfoAggregator) : View :=
  ⟨EntryMap.view aggregator.blockTracker, shardView aggregator.shardTracker,
    EntryMap.view aggregator.versionTracker, EntryMap.view aggregator.allProposals⟩

section
attribute [local simp] view
end

@[simp] theorem view_new (epochId : EpochId) (lastBlockHash : CryptoHash) :
    (new epochId lastBlockHash).view = View.empty := by
  simp [view, new, View.empty]

/-- A pass of step 1 of `update_tail`, at `height`: the block producer sampled there was expected
to produce a block, and produced one only at the block's own height. -/
def countBlock (epochInfo : EpochInfo) (blockInfoHeight : BlockHeight)
    (blockTracker : Map ValidatorId ValidatorStats) (height : BlockHeight) : Map ValidatorId ValidatorStats :=
  let blockProducerId := epochInfo.sampleBlockProducer height
  if height = blockInfoHeight then
    andModifyOrInsert blockTracker blockProducerId
      (fun validatorStats =>
        { validatorStats with produced := validatorStats.produced + 1, expected := validatorStats.expected + 1 })
      ⟨1, 1⟩
  else
    andModifyOrInsert blockTracker blockProducerId
      (fun validatorStats => { validatorStats with expected := validatorStats.expected + 1 })
      ⟨0, 1⟩

section
attribute [local simp] countBlock
end

/-- The endorsements step 2 of `update_tail` pairs with the chunk validators of a shard: the
shard's bitmap for a chunk in the block, none for a missing one, and the chunk mask for every
validator when the block has no bitmaps. -/
def chunkEndorsements (blockInfo : BlockInfo) (shardIndex : Nat) (mask : Bool) (numValidators : Nat) :
    Except Panic (List Bool) :=
  match blockInfo.chunkEndorsements with
  | some bitmap => if mask then endorsementBits bitmap shardIndex else pure (List.replicate numValidators false)
  | none => pure (List.replicate numValidators mask)

/-- The `and_modify` of the chunk producer in step 2 of `update_tail`. -/
def addProduction (mask : Bool) (stats : ChunkStats) : ChunkStats :=
  { stats with
    production :=
      { produced := if mask then stats.production.produced + 1 else stats.production.produced
        expected := stats.production.expected + 1 } }

section
attribute [local simp] addProduction
end

/-- The `and_modify` of a chunk validator in step 2 of `update_tail`. -/
def addEndorsement (endorsementProduced : Bool) (stats : ChunkStats) : ChunkStats :=
  { stats with
    endorsement :=
      { produced := if endorsementProduced then stats.endorsement.produced + 1 else stats.endorsement.produced
        expected := stats.endorsement.expected + 1 } }

section
attribute [local simp] addEndorsement
end

/-- The chunk producer's stats in a shard's tracker, and then each endorsement's. -/
def recordShard (tracker : Map ValidatorId ChunkStats) (chunkProducerId : ValidatorId) (mask : Bool)
    (endorsements : List (ValidatorId × Bool)) : Map ValidatorId ChunkStats :=
  let tracker := andModifyOrInsert tracker chunkProducerId (addProduction mask)
    (ChunkStats.newWithProduction mask.toNat 1)
  endorsements.foldl
    (fun tracker (chunkValidatorId, endorsementProduced) =>
      andModifyOrInsert tracker chunkValidatorId (addEndorsement endorsementProduced)
        (ChunkStats.newWithEndorsement endorsementProduced.toNat 1))
    tracker

section
attribute [local simp] recordShard
end

/-- A pass of step 2 of `update_tail`, over the shard at `shardIndex` whose chunk the block has
when `mask` is set: its chunk producer was expected to produce the chunk, and each of its chunk
validators to endorse it. -/
def countChunk (blockInfo : BlockInfo) (epochInfo : EpochInfo) (shardLayout : ShardLayout)
    (height : BlockHeight) (chunkValidatorAssignment : List (List (ValidatorId × Balance)))
    (shardTracker : Map ShardId (Map ValidatorId ChunkStats)) (shard : Bool × Nat) :
    Except Panic (Map ShardId (Map ValidatorId ChunkStats)) := do
  let (mask, shardIndex) := shard
  let shardId ← unwrapResult ShardLayoutError.debug (shardLayout.getShardId shardIndex)
  let chunkProducerId ← unwrap (epochInfo.sampleChunkProducer shardLayout shardId height)
  let chunkValidators := ((chunkValidatorAssignment[shardIndex]?).getD []).map Prod.fst
  let endorsements ← chunkEndorsements blockInfo shardIndex mask chunkValidators.length
  -- `entry(shard_id).or_insert_with(HashMap::new)`, written back once the shard is counted
  let tracker := (shardTracker.lookup shardId).getD ∅
  pure (shardTracker.insert shardId (recordShard tracker chunkProducerId mask (chunkValidators.zip endorsements)))

section
attribute [local simp] countChunk
end

/-- `update_tail`: adds the block `blockInfo`, whose parent is at `prevBlockHeight`, to an
aggregator of the blocks after it. -/
def updateTail (self : EpochInfoAggregator) (blockInfo : BlockInfo) (epochInfo : EpochInfo)
    (shardLayout : ShardLayout) (prevBlockHeight : BlockHeight) : Except Panic EpochInfoAggregator := do
  let firstHeight ← add 64 prevBlockHeight 1
  -- Step 1: the heights from the parent's, exclusive, to the block's, inclusive
  let blockTracker := (List.range' firstHeight (blockInfo.height + 1 - firstHeight)).foldl
    (countBlock epochInfo blockInfo.height) self.blockTracker
  -- Step 2
  let chunkValidatorAssignment := epochInfo.sampleChunkValidators firstHeight
  let shardTracker ← blockInfo.chunkMask.zipIdx.foldlM
    (countChunk blockInfo epochInfo shardLayout firstHeight chunkValidatorAssignment) self.shardTracker
  -- Step 3
  let versionTracker := orInsert self.versionTracker (epochInfo.sampleBlockProducer blockInfo.height)
    blockInfo.latestProtocolVersion
  -- Step 4
  let allProposals := blockInfo.proposals.foldl
    (fun allProposals proposal => orInsert allProposals proposal.accountId proposal) self.allProposals
  pure { self with
    blockTracker := blockTracker
    shardTracker := shardTracker
    versionTracker := versionTracker
    allProposals := allProposals }

section
attribute [local simp] updateTail
end

/-- The inner loop of the shard tracker's merge in `merge_common`. -/
def mergeShard (e stats : Map ValidatorId ChunkStats) : Map ValidatorId ChunkStats :=
  stats.foldl
    (fun e chunkProducerId stat =>
      andModifyOrInsert e chunkProducerId
        (fun entry =>
          { production :=
              { expected := entry.production.expected + stat.production.expected
                produced := entry.production.produced + stat.production.produced }
            endorsement :=
              { expected := entry.endorsement.expected + stat.endorsement.expected
                produced := entry.endorsement.produced + stat.endorsement.produced } })
        stat)
    e

section
attribute [local simp] mergeShard
end

/-- `merge_common`: adds the block and shard trackers of `other` into those of `self`. -/
def mergeCommon (self other : EpochInfoAggregator) : Except Panic EpochInfoAggregator := do
  if self.epochId ≠ other.epochId then throw ⟨"assertion `left == right` failed"⟩
  let blockTracker := other.blockTracker.foldl
    (fun blockTracker blockProducerId stats =>
      andModifyOrInsert blockTracker blockProducerId
        (fun e => { expected := e.expected + stats.expected, produced := e.produced + stats.produced })
        stats)
    self.blockTracker
  let shardTracker := other.shardTracker.foldl
    (fun shardTracker shardId stats => andModifyOrInsert shardTracker shardId (fun e => mergeShard e stats) stats)
    self.shardTracker
  pure { self with blockTracker := blockTracker, shardTracker := shardTracker }

section
attribute [local simp] mergeCommon
end

/-- `merge`: `other` holds the blocks that follow those of `self`. -/
def merge (self other : EpochInfoAggregator) : Except Panic EpochInfoAggregator := do
  let merged ← self.mergeCommon other
  pure { merged with
    versionTracker := extend merged.versionTracker other.versionTracker
    allProposals := extend merged.allProposals other.allProposals
    lastBlockHash := other.lastBlockHash }

section
attribute [local simp] merge
end

/-- `merge_prefix`: `other` holds the blocks that precede those of `self`. -/
def mergePrefix (self other : EpochInfoAggregator) : Except Panic EpochInfoAggregator := do
  let merged ← self.mergeCommon other
  pure { merged with
    versionTracker := other.versionTracker.foldl (fun versionTracker k v => orInsert versionTracker k v)
      merged.versionTracker
    allProposals := other.allProposals.foldl (fun allProposals k v => orInsert allProposals k v)
      merged.allProposals }

section
attribute [local simp] mergePrefix
end

/-! ### Each operation read through the view -/

theorem view_countBlock (epochInfo : EpochInfo) (blockInfoHeight : BlockHeight)
    (tracker : Map ValidatorId ValidatorStats) (height : BlockHeight) :
    EntryMap.view (countBlock epochInfo blockInfoHeight tracker height) =
      mergeWith (· + ·) (EntryMap.view tracker)
        (single (epochInfo.sampleBlockProducer height) (if height = blockInfoHeight then ⟨1, 1⟩ else ⟨0, 1⟩)) := by
  by_cases produced : height = blockInfoHeight
  · simp only [countBlock, if_pos produced]
    exact view_andModifyOrInsert_add tracker _ ⟨1, 1⟩
  · simp only [countBlock, if_neg produced]
    exact view_andModifyOrInsert_add tracker _ ⟨0, 1⟩

/-- Step 1 adds to a tracker what it gives from an empty one. -/
theorem view_countBlocks (epochInfo : EpochInfo) (blockInfoHeight : BlockHeight) (heights : List BlockHeight)
    (tracker : Map ValidatorId ValidatorStats) :
    EntryMap.view (heights.foldl (countBlock epochInfo blockInfoHeight) tracker) =
      mergeWith (· + ·) (EntryMap.view tracker) (EntryMap.view (heights.foldl (countBlock epochInfo blockInfoHeight) ∅)) := by
  apply foldl_translate EntryMap.view (mergeWith (· + ·)) ∅ (mergeWith_assoc fun a b : ValidatorStats => a + b) (by simp)
  intro acc height
  rw [view_countBlock, view_countBlock, view_empty, none_mergeWith]

theorem addProduction_eq (mask : Bool) (stats : ChunkStats) :
    addProduction mask stats = stats + ChunkStats.newWithProduction mask.toNat 1 := by
  cases mask <;> rfl

theorem addEndorsement_eq (endorsementProduced : Bool) (stats : ChunkStats) :
    addEndorsement endorsementProduced stats = stats + ChunkStats.newWithEndorsement endorsementProduced.toNat 1 := by
  cases endorsementProduced <;> rfl

/-- The counts of a shard's chunk add to its tracker what they give from an empty one. -/
theorem view_recordShard (tracker : Map ValidatorId ChunkStats) (chunkProducerId : ValidatorId) (mask : Bool)
    (endorsements : List (ValidatorId × Bool)) :
    EntryMap.view (recordShard tracker chunkProducerId mask endorsements) =
      mergeWith (· + ·) (EntryMap.view tracker) (EntryMap.view (recordShard ∅ chunkProducerId mask endorsements)) := by
  have produced : ∀ t : Map ValidatorId ChunkStats,
      EntryMap.view (andModifyOrInsert t chunkProducerId (addProduction mask) (ChunkStats.newWithProduction mask.toNat 1)) =
        mergeWith (· + ·) (EntryMap.view t) (single chunkProducerId (ChunkStats.newWithProduction mask.toNat 1)) := by
    intro t
    rw [show addProduction mask = (· + ChunkStats.newWithProduction mask.toNat 1) from funext (addProduction_eq mask)]
    exact view_andModifyOrInsert_add t _ _
  have endorsed : ∀ t : Map ValidatorId ChunkStats,
      EntryMap.view (endorsements.foldl (fun tracker (chunkValidatorId, endorsementProduced) =>
          andModifyOrInsert tracker chunkValidatorId (addEndorsement endorsementProduced)
            (ChunkStats.newWithEndorsement endorsementProduced.toNat 1)) t) =
        mergeWith (· + ·) (EntryMap.view t) (EntryMap.view (endorsements.foldl (fun tracker (chunkValidatorId, endorsementProduced) =>
          andModifyOrInsert tracker chunkValidatorId (addEndorsement endorsementProduced)
            (ChunkStats.newWithEndorsement endorsementProduced.toNat 1)) ∅)) := by
    apply foldl_translate EntryMap.view (mergeWith (· + ·)) ∅ (mergeWith_assoc fun a b : ChunkStats => a + b) (by simp)
    intro acc ⟨chunkValidatorId, endorsementProduced⟩
    simp only [show addEndorsement endorsementProduced = (· + ChunkStats.newWithEndorsement endorsementProduced.toNat 1)
      from funext (addEndorsement_eq endorsementProduced), view_andModifyOrInsert_add, view_empty, none_mergeWith]
  simp only [recordShard]
  rw [endorsed, endorsed (andModifyOrInsert ∅ _ _ _), produced, produced, view_empty, none_mergeWith, mergeWith_assoc]

/-- Writing back a shard's tracker after its counts merges them into the shard tracker. -/
theorem shardView_insert_recordShard (shardTracker : Map ShardId (Map ValidatorId ChunkStats)) (shardId : ShardId)
    (chunkProducerId : ValidatorId) (mask : Bool) (endorsements : List (ValidatorId × Bool)) :
    shardView (shardTracker.insert shardId
        (recordShard ((shardTracker.lookup shardId).getD ∅) chunkProducerId mask endorsements)) =
      mergeWith (mergeWith (· + ·)) (shardView shardTracker)
        (shardView ((∅ : Map ShardId (Map ValidatorId ChunkStats)).insert shardId
          (recordShard ∅ chunkProducerId mask endorsements))) := by
  funext k
  by_cases same : k = shardId
  · subst same
    cases found : shardTracker.lookup k with
    | none =>
      simp only [shardView, mergeWith, found, AList.lookup_insert, Option.map_some, Option.map_none,
        Option.getD_none, Option.merge_none_left]
    | some tracker =>
      simp only [shardView, mergeWith, found, AList.lookup_insert, Option.map_some, Option.getD_some,
        Option.merge_some_some, view_recordShard tracker]
  · simp only [shardView, mergeWith, AList.lookup_insert_ne same, AList.lookup_empty, Option.map_none,
      Option.merge_none_right]

/-- A pass of step 2 fails or not whatever the shard tracker, and adds to it what it gives from
an empty one. -/
theorem shardView_countChunk (blockInfo : BlockInfo) (epochInfo : EpochInfo) (shardLayout : ShardLayout)
    (height : BlockHeight) (assignment : List (List (ValidatorId × Balance)))
    (shardTracker : Map ShardId (Map ValidatorId ChunkStats)) (shard : Bool × Nat) :
    shardView <$> countChunk blockInfo epochInfo shardLayout height assignment shardTracker shard =
      (fun r => mergeWith (mergeWith (· + ·)) (shardView shardTracker) (shardView r)) <$>
        countChunk blockInfo epochInfo shardLayout height assignment ∅ shard := by
  obtain ⟨mask, shardIndex⟩ := shard
  simp only [countChunk]
  -- the reads are the same from both trackers: a panic of one is a panic of the other
  cases unwrapResult ShardLayoutError.debug (shardLayout.getShardId shardIndex) with
  | error e => rfl
  | ok shardId =>
    simp only [Except.ok_bind]
    cases unwrap (epochInfo.sampleChunkProducer shardLayout shardId height) with
    | error e => rfl
    | ok chunkProducerId =>
      simp only [Except.ok_bind]
      cases chunkEndorsements blockInfo shardIndex mask
          ((assignment[shardIndex]?.getD []).map Prod.fst).length with
      | error e => rfl
      | ok endorsements =>
        show Except.ok _ = Except.ok _
        rw [shardView_insert_recordShard]
        simp [AList.lookup_empty]

/-- `update_tail` fails or not whatever the aggregator, and adds to it what it gives from a new
one: the block's statistics, under those of the later blocks the aggregator already holds. -/
theorem view_updateTail (self : EpochInfoAggregator) (blockInfo : BlockInfo) (epochInfo : EpochInfo)
    (shardLayout : ShardLayout) (prevBlockHeight : BlockHeight) (epochId : EpochId) (lastBlockHash : CryptoHash) :
    view <$> self.updateTail blockInfo epochInfo shardLayout prevBlockHeight =
      (fun r => View.union self.view r.view) <$>
        (new epochId lastBlockHash).updateTail blockInfo epochInfo shardLayout prevBlockHeight := by
  simp only [updateTail]
  cases add 64 prevBlockHeight 1 with
  | error e => rfl
  | ok firstHeight =>
    simp only [Except.ok_bind]
    have shards := foldlM_translate shardView (mergeWith (mergeWith (· + ·))) ∅
      (mergeWith_assoc (mergeWith fun a b : ChunkStats => a + b)) (by simp)
      (shardView_countChunk blockInfo epochInfo shardLayout firstHeight (epochInfo.sampleChunkValidators firstHeight))
      blockInfo.chunkMask.zipIdx self.shardTracker
    cases fromEmpty : blockInfo.chunkMask.zipIdx.foldlM
        (countChunk blockInfo epochInfo shardLayout firstHeight (epochInfo.sampleChunkValidators firstHeight)) ∅ with
    | error e =>
      have fromSelf := error_of_map_eq shards fromEmpty
      show view <$> (_ >>= _) = _ <$> ((_ : Except Panic _) >>= _)
      rw [fromSelf]
      simp only [new, fromEmpty]
      rfl
    | ok emptyShards =>
      obtain ⟨selfShards, fromSelf, shardsRelated⟩ := ok_of_map_eq shards fromEmpty
      show view <$> (_ >>= _) = _ <$> ((_ : Except Panic _) >>= _)
      simp only [new, fromSelf, fromEmpty, Except.ok_bind, Except.pure_eq_ok, Except.functor_map_ok]
      congr 1
      simp only [view, View.union, View.mk.injEq]
      refine ⟨view_countBlocks epochInfo blockInfo.height _ self.blockTracker, shardsRelated, ?_, ?_⟩
      · rw [view_orInsert, view_orInsert, view_empty, none_prefer]
      · apply foldl_translate EntryMap.view prefer ∅ prefer_assoc (by simp)
        intro acc proposal
        rw [view_orInsert, view_orInsert, view_empty, none_prefer]

/-- The inner merge of `merge_common` adds the two shard trackers key by key. -/
theorem view_mergeShard (e stats : Map ValidatorId ChunkStats) :
    EntryMap.view (mergeShard e stats) = mergeWith (· + ·) (EntryMap.view e) (EntryMap.view stats) := by
  funext k
  exact lookup_foldl_andModifyOrInsert (fun a b : ChunkStats => a + b) stats e k

/-- `merge_common` of aggregators of one epoch adds `other`'s block and shard trackers into
`self`'s, and keeps everything else of `self`. -/
theorem mergeCommon_of_eq {self other : EpochInfoAggregator} (same : self.epochId = other.epochId) :
    ∃ merged, self.mergeCommon other = .ok merged ∧
      EntryMap.view merged.blockTracker =
        mergeWith (· + ·) (EntryMap.view self.blockTracker) (EntryMap.view other.blockTracker) ∧
      shardView merged.shardTracker =
        mergeWith (mergeWith (· + ·)) (shardView self.shardTracker) (shardView other.shardTracker) ∧
      merged.versionTracker = self.versionTracker ∧ merged.allProposals = self.allProposals ∧
      merged.epochId = self.epochId ∧ merged.lastBlockHash = self.lastBlockHash := by
  unfold mergeCommon
  rw [if_neg (not_not.mpr same)]
  refine ⟨_, rfl, ?_, ?_, rfl, rfl, rfl, rfl⟩
  · funext k
    exact lookup_foldl_andModifyOrInsert (fun a b : ValidatorStats => a + b) other.blockTracker self.blockTracker k
  · funext shardId
    simp only [shardView, mergeWith]
    rw [lookup_foldl_andModifyOrInsert (fun e stats => mergeShard e stats) other.shardTracker self.shardTracker shardId]
    cases self.shardTracker.lookup shardId <;> cases other.shardTracker.lookup shardId <;>
      simp [view_mergeShard]

/-- `merge_common` panics on aggregators of two epochs. -/
theorem mergeCommon_of_ne {self other : EpochInfoAggregator} (differ : self.epochId ≠ other.epochId) :
    self.mergeCommon other = .error ⟨"assertion `left == right` failed"⟩ := by
  simp [mergeCommon, differ]

/-- `merge` of an aggregator with the one of the blocks that follow: the later blocks' statistics
over the earlier ones', and the later aggregator's last block. -/
theorem merge_of_eq {self other : EpochInfoAggregator} (same : self.epochId = other.epochId) :
    ∃ merged, self.merge other = .ok merged ∧ merged.view = View.union other.view self.view ∧
      merged.epochId = self.epochId ∧ merged.lastBlockHash = other.lastBlockHash := by
  obtain ⟨common, fromCommon, blocks, shards, versions, proposals, epoch, -⟩ := mergeCommon_of_eq same
  unfold merge
  rw [fromCommon]
  refine ⟨_, rfl, ?_, epoch, rfl⟩
  simp only [view, View.union, View.mk.injEq]
  refine ⟨?_, ?_, ?_, ?_⟩
  · rw [blocks, mergeWith_comm]
  · rw [shards, mergeWith_comm]
  · rw [view_extend, versions]
  · rw [view_extend, proposals]

/-- `merge_prefix` of an aggregator with the one of the blocks before: the same statistics as
`merge` the other way round, and the later aggregator's last block. -/
theorem mergePrefix_of_eq {self other : EpochInfoAggregator} (same : self.epochId = other.epochId) :
    ∃ merged, self.mergePrefix other = .ok merged ∧ merged.view = View.union self.view other.view ∧
      merged.epochId = self.epochId ∧ merged.lastBlockHash = self.lastBlockHash := by
  obtain ⟨common, fromCommon, blocks, shards, versions, proposals, epoch, last⟩ := mergeCommon_of_eq same
  unfold mergePrefix
  rw [fromCommon]
  refine ⟨_, rfl, ?_, epoch, last⟩
  simp only [view, View.union, View.mk.injEq]
  refine ⟨blocks, shards, ?_, ?_⟩
  · rw [view_foldl_orInsert, versions]
  · rw [view_foldl_orInsert, proposals]

/-! ### What a successful `update_tail` wrote -/

/-- A pass of step 2 that succeeds writes back one shard's tracker with its chunk counted. -/
theorem countChunk_eq_ok {blockInfo : BlockInfo} {epochInfo : EpochInfo} {shardLayout : ShardLayout}
    {height : BlockHeight} {assignment : List (List (ValidatorId × Balance))}
    {shardTracker result : Map ShardId (Map ValidatorId ChunkStats)} {shard : Bool × Nat}
    (counted : countChunk blockInfo epochInfo shardLayout height assignment shardTracker shard = .ok result) :
    ∃ shardId chunkProducerId endorsements, result =
      shardTracker.insert shardId (recordShard ((shardTracker.lookup shardId).getD ∅) chunkProducerId shard.1 endorsements) := by
  obtain ⟨mask, shardIndex⟩ := shard
  simp only [countChunk] at counted
  obtain ⟨shardId, -, counted⟩ := Except.bind_eq_ok counted
  obtain ⟨chunkProducerId, -, counted⟩ := Except.bind_eq_ok counted
  obtain ⟨endorsements, -, counted⟩ := Except.bind_eq_ok counted
  exact ⟨shardId, chunkProducerId, _, (Except.ok.inj counted).symm⟩

/-- The inversion of `update_tail`: the block tracker counts the heights from the parent's,
exclusive, to the block's, the shard tracker is the loop of step 2, and the epoch and last block
stay. -/
theorem updateTail_eq_ok {self result : EpochInfoAggregator} {blockInfo : BlockInfo} {epochInfo : EpochInfo}
    {shardLayout : ShardLayout} {prevBlockHeight : BlockHeight}
    (updated : self.updateTail blockInfo epochInfo shardLayout prevBlockHeight = .ok result) :
    result.blockTracker = (List.range' (prevBlockHeight + 1) (blockInfo.height - prevBlockHeight)).foldl
        (countBlock epochInfo blockInfo.height) self.blockTracker ∧
      blockInfo.chunkMask.zipIdx.foldlM (countChunk blockInfo epochInfo shardLayout (prevBlockHeight + 1)
        (epochInfo.sampleChunkValidators (prevBlockHeight + 1))) self.shardTracker = .ok result.shardTracker ∧
      result.epochId = self.epochId ∧ result.lastBlockHash = self.lastBlockHash := by
  simp only [updateTail, add] at updated
  split at updated
  · simp only [Except.ok_bind] at updated
    obtain ⟨shardTracker, folded, updated⟩ := Except.bind_eq_ok updated
    cases updated
    refine ⟨?_, folded, rfl, rfl⟩
    show (List.range' _ (blockInfo.height + 1 - (prevBlockHeight + 1))).foldl _ _ = _
    rw [Nat.add_sub_add_right]
  · cases updated

theorem total_countBlock (epochInfo : EpochInfo) (blockInfoHeight : BlockHeight)
    (tracker : Map ValidatorId ValidatorStats) (height : BlockHeight) :
    total (countBlock epochInfo blockInfoHeight tracker height) ValidatorStats.expected =
      total tracker ValidatorStats.expected + 1 := by
  by_cases produced : height = blockInfoHeight
  · simp only [countBlock, if_pos produced]
    exact total_andModifyOrInsert tracker _ (c := ⟨1, 1⟩) (fun _ => rfl) rfl
  · simp only [countBlock, if_neg produced]
    exact total_andModifyOrInsert tracker _ (c := ⟨0, 1⟩) (fun _ => rfl) rfl

theorem total_countBlocks (epochInfo : EpochInfo) (blockInfoHeight : BlockHeight) :
    ∀ (heights : List BlockHeight) (tracker : Map ValidatorId ValidatorStats),
      total (heights.foldl (countBlock epochInfo blockInfoHeight) tracker) ValidatorStats.expected =
        total tracker ValidatorStats.expected + heights.length
  | [], _ => rfl
  | height :: rest, tracker => by
    rw [List.foldl_cons, total_countBlocks epochInfo blockInfoHeight rest, total_countBlock, List.length_cons]
    omega

/-- `update_tail` expects one block for every height from the parent's, exclusive, to the
block's. -/
theorem total_updateTail {self result : EpochInfoAggregator} {blockInfo : BlockInfo} {epochInfo : EpochInfo}
    {shardLayout : ShardLayout} {prevBlockHeight : BlockHeight}
    (updated : self.updateTail blockInfo epochInfo shardLayout prevBlockHeight = .ok result) :
    total result.blockTracker ValidatorStats.expected =
      total self.blockTracker ValidatorStats.expected + (blockInfo.height - prevBlockHeight) := by
  obtain ⟨blocks, -, -, -⟩ := updateTail_eq_ok updated
  rw [blocks, total_countBlocks, List.length_range']

theorem valid_countBlocks (epochInfo : EpochInfo) (blockInfoHeight : BlockHeight) (heights : List BlockHeight)
    {tracker : Map ValidatorId ValidatorStats} (valid : Every ValidatorStats.Valid (EntryMap.view tracker)) :
    Every ValidatorStats.Valid (EntryMap.view (heights.foldl (countBlock epochInfo blockInfoHeight) tracker)) := by
  refine List.foldlRecOn (motive := fun t => Every ValidatorStats.Valid (EntryMap.view t)) heights _ valid ?_
  intro t validT height _
  rw [view_countBlock]
  apply every_mergeWith (fun _ _ => ValidatorStats.valid_add) validT
  -- a height counts one block expected, and at most one produced
  apply every_single
  split <;> decide

theorem valid_recordShard {tracker : Map ValidatorId ChunkStats} (valid : Every ChunkStats.Valid (EntryMap.view tracker))
    (chunkProducerId : ValidatorId) (mask : Bool) (endorsements : List (ValidatorId × Bool)) :
    Every ChunkStats.Valid (EntryMap.view (recordShard tracker chunkProducerId mask endorsements)) := by
  have produced : Every ChunkStats.Valid
      (EntryMap.view (andModifyOrInsert tracker chunkProducerId (addProduction mask) (ChunkStats.newWithProduction mask.toNat 1))) := by
    rw [show addProduction mask = (· + ChunkStats.newWithProduction mask.toNat 1) from funext (addProduction_eq mask),
      view_andModifyOrInsert_add]
    exact every_mergeWith (fun _ _ => ChunkStats.valid_add) valid
      (every_single ⟨Bool.toNat_le mask, Nat.le_refl 0⟩ _)
  refine List.foldlRecOn (motive := fun t => Every ChunkStats.Valid (EntryMap.view t)) endorsements _ produced ?_
  intro t validT ⟨chunkValidatorId, endorsementProduced⟩ _
  dsimp only
  rw [show addEndorsement endorsementProduced = (· + ChunkStats.newWithEndorsement endorsementProduced.toNat 1)
    from funext (addEndorsement_eq endorsementProduced), view_andModifyOrInsert_add]
  exact every_mergeWith (fun _ _ => ChunkStats.valid_add) validT
    (every_single ⟨Nat.le_refl 0, Bool.toNat_le endorsementProduced⟩ _)

theorem valid_countChunk {blockInfo : BlockInfo} {epochInfo : EpochInfo} {shardLayout : ShardLayout}
    {height : BlockHeight} {assignment : List (List (ValidatorId × Balance))}
    {shardTracker result : Map ShardId (Map ValidatorId ChunkStats)} {shard : Bool × Nat}
    (counted : countChunk blockInfo epochInfo shardLayout height assignment shardTracker shard = .ok result)
    (valid : Every (Every ChunkStats.Valid) (shardView shardTracker)) : Every (Every ChunkStats.Valid) (shardView result) := by
  obtain ⟨shardId, chunkProducerId, endorsements, rfl⟩ := countChunk_eq_ok counted
  intro k tracker found
  by_cases same : k = shardId
  · subst same
    simp only [shardView, AList.lookup_insert, Option.map_some, Option.some.injEq] at found
    rw [← found]
    apply valid_recordShard
    -- the shard's tracker before, or a new one
    cases before : shardTracker.lookup k with
    | none => exact every_none _
    | some old => exact valid k (EntryMap.view old) (by simp [shardView, before])
  · simp only [shardView, AList.lookup_insert_ne same] at found
    exact valid k tracker found

/-- `update_tail` keeps `produced <= expected` in every stat. -/
theorem valid_updateTail {self result : EpochInfoAggregator} {blockInfo : BlockInfo} {epochInfo : EpochInfo}
    {shardLayout : ShardLayout} {prevBlockHeight : BlockHeight} (valid : self.view.Valid)
    (updated : self.updateTail blockInfo epochInfo shardLayout prevBlockHeight = .ok result) : result.view.Valid := by
  obtain ⟨blocks, shards, -, -⟩ := updateTail_eq_ok updated
  refine ⟨?_, ?_⟩
  · show Every ValidatorStats.Valid (EntryMap.view result.blockTracker)
    rw [blocks]
    exact valid_countBlocks epochInfo blockInfo.height _ valid.1
  · exact List.foldlM_keeps_of_ok (fun t => Every (Every ChunkStats.Valid) (shardView t))
      (fun _ _ _ counted validT => valid_countChunk counted validT) shards valid.2

/-- `merge` panics unless both aggregators are of one epoch. -/
theorem epochId_eq_of_merge {self other result : EpochInfoAggregator} (merged : self.merge other = .ok result) :
    self.epochId = other.epochId := by
  by_contra differ
  rw [merge, mergeCommon_of_ne differ] at merged
  cases merged

theorem epochId_eq_of_mergePrefix {self other result : EpochInfoAggregator}
    (merged : self.mergePrefix other = .ok result) : self.epochId = other.epochId := by
  by_contra differ
  rw [mergePrefix, mergeCommon_of_ne differ] at merged
  cases merged

/-- The aggregators the epoch manager builds: new ones, and what `update_tail`, `merge` and
`merge_prefix` make of them. -/
inductive Reachable : EpochInfoAggregator → Prop
  | new (epochId : EpochId) (lastBlockHash : CryptoHash) : Reachable (new epochId lastBlockHash)
  | updateTail {self result : EpochInfoAggregator} (blockInfo : BlockInfo) (epochInfo : EpochInfo)
      (shardLayout : ShardLayout) (prevBlockHeight : BlockHeight) :
      Reachable self → self.updateTail blockInfo epochInfo shardLayout prevBlockHeight = .ok result → Reachable result
  | merge {self other result : EpochInfoAggregator} :
      Reachable self → Reachable other → self.merge other = .ok result → Reachable result
  | mergePrefix {self other result : EpochInfoAggregator} :
      Reachable self → Reachable other → self.mergePrefix other = .ok result → Reachable result

/-- No aggregator the epoch manager builds, by any sequence of `update_tail`, `merge` and
`merge_prefix` from new ones, holds a block, chunk or endorsement stat with more produced than
expected. -/
theorem reachable_produced_le_expected {aggregator : EpochInfoAggregator} (reachable : Reachable aggregator) :
    aggregator.view.Valid := by
  induction reachable with
  | new epochId lastBlockHash =>
    rw [view_new]
    exact View.valid_empty
  | updateTail _ _ _ _ _ updated valid => exact valid_updateTail valid updated
  | merge _ _ merged validSelf validOther =>
    obtain ⟨result, mergedOk, mergedView, -, -⟩ := merge_of_eq (epochId_eq_of_merge merged)
    rw [merged] at mergedOk
    cases mergedOk
    rw [mergedView]
    exact View.valid_union validOther validSelf
  | mergePrefix _ _ merged validSelf validOther =>
    obtain ⟨result, mergedOk, mergedView, -, -⟩ := mergePrefix_of_eq (epochId_eq_of_mergePrefix merged)
    rw [merged] at mergedOk
    cases mergedOk
    rw [mergedView]
    exact View.valid_union validSelf validOther

end EpochInfoAggregator

/-- A chain of genesis and two blocks after it, in genesis's epoch, as `record_block_info` records
them: the first block after genesis takes the default epoch id, as genesis has. -/
def sampleGenesis : BlockInfo where
  hash := Vector.replicate 32 1
  prevHash := Vector.replicate 32 0
  height := 0
  epochId := ⟨Vector.replicate 32 0⟩
  chunkMask := []
  latestProtocolVersion := 1
  proposals := []
  chunkEndorsements := none

def sampleFirst : BlockInfo where
  hash := Vector.replicate 32 2
  prevHash := sampleGenesis.hash
  height := 1
  epochId := ⟨Vector.replicate 32 0⟩
  chunkMask := [true]
  latestProtocolVersion := 1
  proposals := []
  chunkEndorsements := none

def sampleSecond : BlockInfo where
  hash := Vector.replicate 32 3
  prevHash := sampleFirst.hash
  height := 2
  epochId := ⟨Vector.replicate 32 0⟩
  chunkMask := [true]
  latestProtocolVersion := 1
  proposals := []
  chunkEndorsements := none

/-- The sample's epoch: one block producer, who produces every chunk, and no chunk validators. -/
def sampleEpochInfo : EpochInfo where
  protocolVersion := 1
  sampleBlockProducer _ := 0
  sampleChunkProducer _ _ _ := some 0
  sampleChunkValidators _ := []

/-- The sample's two blocks aggregated apart, each onto a new aggregator, and merged. -/
theorem reachable_produced_le_expected_sample : ∃ first second merged : EpochInfoAggregator,
    (EpochInfoAggregator.new sampleFirst.epochId sampleFirst.hash).updateTail sampleFirst sampleEpochInfo
      (.V1 [] none) 0 = .ok first ∧
    (EpochInfoAggregator.new sampleSecond.epochId sampleSecond.hash).updateTail sampleSecond sampleEpochInfo
      (.V1 [] none) 1 = .ok second ∧
    first.merge second = .ok merged ∧ merged.view.Valid := by
  refine ⟨?_, ?_, ?_, ?first, ?second, ?merged, EpochInfoAggregator.reachable_produced_le_expected
    (.merge (.updateTail _ _ _ _ (.new _ _) ?first) (.updateTail _ _ _ _ (.new _ _) ?second) ?merged)⟩
  case first => rfl
  case second => rfl
  case merged => rfl

end Nearcore.EpochManager
