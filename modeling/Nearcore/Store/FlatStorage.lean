import Nearcore.Library.Except
import Nearcore.Trie.Node

/-! Flat storage of one shard (`core/store/src/flat/storage.rs`): the state at the flat head, kept
as a key-value column, and a delta of changes for each block after it. A block with no changes
records the last block before it with changes, so that reads skip it. With it come
`get_prev_block_with_changes` of the flat store adapter and `save_flat_state_changes` of the
manager, through which the chain adds a block.

The deltas on disk and in memory are one map here: `add_delta` hands back a store update that the
chain commits with the block, and the model takes it as committed. A delta's changes are the value
references the in-memory cache holds, and the flat state receives them as references. The shard,
the metrics and the lock are left out. The `while` loops run on fuel: `none` is a loop that did
not end within it. -/
namespace Nearcore

/-- `BlockInfo`. -/
structure BlockInfo where
  hash : CryptoHash
  height : Nat
  prevHash : CryptoHash
  deriving DecidableEq, Repr

/-- `BlockWithChangesInfo`. -/
structure BlockWithChangesInfo where
  hash : CryptoHash
  height : Nat
  deriving DecidableEq, Repr

/-- `FlatStateDeltaMetadata`: `prevBlockWithChanges` is `none` when the block has changes of its
own, and otherwise the last block before it that has. -/
structure FlatStateDeltaMetadata where
  block : BlockInfo
  prevBlockWithChanges : Option BlockWithChangesInfo
  deriving DecidableEq, Repr

/-- `FlatStateChanges`: the new value of each key a block changed, `none` where it removed it. -/
structure FlatStateChanges where
  get : List UInt8 → Option (Option ValueRef)

/-- `FlatStateDelta`. -/
structure FlatStateDelta where
  changes : FlatStateChanges
  metadata : FlatStateDeltaMetadata

/-- `FlatStorageError`. -/
inductive FlatStorageError where
  | blockNotSupported (flatHead block : CryptoHash)
  | storageInternalError (message : String)
  deriving DecidableEq, Repr

/-- `FlatStorageInner`: the flat head, the deltas of the blocks after it, by block hash, and the
`FlatState` column, which holds the state at the flat head. -/
structure FlatStorage where
  flatHead : BlockInfo
  deltas : CryptoHash → Option FlatStateDelta
  flatState : List UInt8 → Option FlatStateValue
  moveHeadEnabled : Bool

/-- `missing_delta_error`; the message's block hash is not modelled. -/
def missingDeltaError (_blockHash : CryptoHash) : FlatStorageError :=
  .storageInternalError "delta does not exist for block"

/-- `FlatStateChanges::from_state_changes`: each key's last change, a later entry for a key
replacing an earlier one as the map insertion does. -/
def FlatStateChanges.fromStateChanges (stateChanges : List (List UInt8 × Option ValueRef)) :
    FlatStateChanges :=
  ⟨stateChanges.foldl (fun get change key => if key = change.1 then some change.2 else get key)
    fun _ => none⟩

/-- `FlatStateChanges::apply_to_flat_state`. -/
def FlatStateChanges.applyToFlatState (changes : FlatStateChanges)
    (flatState : List UInt8 → Option FlatStateValue) : List UInt8 → Option FlatStateValue :=
  fun key =>
    match changes.get key with
    | some value => value.map .ref
    | none => flatState key

section
attribute [local simp] FlatStateChanges.applyToFlatState
end

namespace FlatStorage

/-- `create_block_not_supported_error`. -/
def createBlockNotSupportedError (storage : FlatStorage) (blockHash : CryptoHash) : FlatStorageError :=
  .blockNotSupported storage.flatHead.hash blockHash

/-- `get_block_changes`. -/
def getBlockChanges (storage : FlatStorage) (blockHash : CryptoHash) :
    Except FlatStorageError FlatStateChanges :=
  match storage.deltas blockHash with
  | none => .error (missingDeltaError blockHash)
  | some delta => .ok delta.changes

section
attribute [local simp] getBlockChanges
end

/-- The `while` loop of `get_blocks_to_head`, at `blockHash` with the blocks listed so far. -/
def getBlocksToHeadLoop (storage : FlatStorage) (target : CryptoHash) :
    Nat → CryptoHash → List CryptoHash → Option (Except FlatStorageError (List CryptoHash))
  | 0, _, _ => none
  | fuel + 1, blockHash, blocks =>
    if blockHash = storage.flatHead.hash then some (.ok blocks)
    else
      match storage.deltas blockHash with
      | none => some (.error (storage.createBlockNotSupportedError target))
      | some delta =>
        match delta.metadata.prevBlockWithChanges with
        | none => storage.getBlocksToHeadLoop target fuel delta.metadata.block.prevHash (blocks ++ [blockHash])
        | some prevBlockWithChanges =>
          -- a block without changes is listed only when it is the target, and the walk jumps
          -- to the flat head as soon as the block it skips to is not above it
          storage.getBlocksToHeadLoop target fuel
            (if prevBlockWithChanges.height > storage.flatHead.height then prevBlockWithChanges.hash
              else storage.flatHead.hash)
            (if blockHash = target then blocks ++ [blockHash] else blocks)

section
attribute [local simp] getBlocksToHeadLoop
end

/-- `get_blocks_to_head`: the blocks from the target back to the flat head, whose changes a read
at the target must look at, most recent first. -/
def getBlocksToHead (storage : FlatStorage) (fuel : Nat) (target : CryptoHash) :
    Option (Except FlatStorageError (List CryptoHash)) :=
  storage.getBlocksToHeadLoop target fuel target []

section
attribute [local simp] getBlocksToHead
end

/-- The loop of `get_value` and `contains_key` over the blocks to the head: the first change of
the key found, read by `ofChange`, and the flat state read by `ofFlatState` when there is none. -/
def readThroughBlocks {α : Type} (storage : FlatStorage) (key : List UInt8)
    (ofChange : Option ValueRef → α) (ofFlatState : Option FlatStateValue → α) :
    List CryptoHash → Except FlatStorageError α
  | [] => .ok (ofFlatState (storage.flatState key))
  | blockHash :: blocks => do
    let changes ← storage.getBlockChanges blockHash
    match changes.get key with
    | some valueRef => pure (ofChange valueRef)
    | none => storage.readThroughBlocks key ofChange ofFlatState blocks

section
attribute [local simp] readThroughBlocks
end

/-- `FlatStorage::get_value`. -/
def getValue (storage : FlatStorage) (fuel : Nat) (blockHash : CryptoHash) (key : List UInt8) :
    Option (Except FlatStorageError (Option FlatStateValue)) :=
  (storage.getBlocksToHead fuel blockHash).map
    (· >>= storage.readThroughBlocks key (Option.map .ref) id)

section
attribute [local simp] getValue
end

/-- `FlatStorage::contains_key`: the same walk, asking only whether a value is there. -/
def containsKey (storage : FlatStorage) (fuel : Nat) (blockHash : CryptoHash) (key : List UInt8) :
    Option (Except FlatStorageError Bool) :=
  (storage.getBlocksToHead fuel blockHash).map
    (· >>= storage.readThroughBlocks key Option.isSome Option.isSome)

section
attribute [local simp] containsKey
end

/-- `BLOCKS_WITH_CHANGES_FLAT_HEAD_GAP`. -/
def blocksWithChangesFlatHeadGap : Nat := 2

/-- The `while` loop of `get_new_flat_head`, at `newHead` with the blocks with changes met so far. -/
def getNewFlatHeadLoop (storage : FlatStorage) :
    Nat → CryptoHash → Nat → Option (Except FlatStorageError CryptoHash)
  | 0, _, _ => none
  | fuel + 1, newHead, blocksWithChanges =>
    if blocksWithChanges < blocksWithChangesFlatHeadGap then
      if newHead = storage.flatHead.hash then some (.ok storage.flatHead.hash)
      else
        match storage.deltas newHead with
        | none => some (.error (storage.createBlockNotSupportedError newHead))
        | some delta =>
          match delta.metadata.prevBlockWithChanges with
          | none =>
            if blocksWithChanges + 1 = blocksWithChangesFlatHeadGap then some (.ok newHead)
            else storage.getNewFlatHeadLoop fuel delta.metadata.block.prevHash (blocksWithChanges + 1)
          | some prevBlockWithChanges =>
            if prevBlockWithChanges.height ≤ storage.flatHead.height then some (.ok storage.flatHead.hash)
            else storage.getNewFlatHeadLoop fuel prevBlockWithChanges.hash blocksWithChanges
    else some (.ok newHead)

/-- `get_new_flat_head`. -/
def getNewFlatHead (storage : FlatStorage) (fuel : Nat) (blockHash : CryptoHash) (strict : Bool) :
    Option (Except FlatStorageError CryptoHash) :=
  if strict then some (.ok blockHash) else storage.getNewFlatHeadLoop fuel blockHash 0

section
attribute [local simp] getNewFlatHead
end

/-- One round of the loop of `update_flat_head_impl`: the block's changes are written to the flat
state, the block becomes the flat head, and the deltas at or below its height are removed. The
changes come from the disk and the metadata from memory, both the one map here. -/
def moveHeadTo (storage : FlatStorage) (blockHash : CryptoHash) : Except FlatStorageError FlatStorage :=
  match storage.deltas blockHash with
  | none => .error (missingDeltaError blockHash)
  | some delta =>
    let block := delta.metadata.block
    .ok { storage with
      flatHead := block
      flatState := delta.changes.applyToFlatState storage.flatState
      deltas := fun hash => (storage.deltas hash).filter fun delta => block.height < delta.metadata.block.height }

section
attribute [local simp] moveHeadTo
end

/-- `update_flat_head_impl`. -/
def updateFlatHeadImpl (storage : FlatStorage) (fuel : Nat) (blockHash : CryptoHash) (strict : Bool) :
    Option (Except FlatStorageError FlatStorage) :=
  if !storage.moveHeadEnabled then some (.ok storage)
  else
    (storage.getNewFlatHead fuel blockHash strict).bind fun
      | .error e => some (.error e)
      | .ok newHead =>
        if newHead = storage.flatHead.hash then some (.ok storage)
        else (storage.getBlocksToHead fuel newHead).map fun blocks =>
          blocks >>= fun blocks => blocks.reverse.foldlM moveHeadTo storage

section
attribute [local simp] updateFlatHeadImpl
end

/-- `update_flat_head`. -/
def updateFlatHead (storage : FlatStorage) (fuel : Nat) (blockHash : CryptoHash) :
    Option (Except FlatStorageError FlatStorage) :=
  storage.updateFlatHeadImpl fuel blockHash true

section
attribute [local simp] updateFlatHead
end

/-- `add_delta`: a block is accepted when its parent is the flat head or has a delta. -/
def addDelta (storage : FlatStorage) (delta : FlatStateDelta) : Except FlatStorageError FlatStorage :=
  let block := delta.metadata.block
  if block.prevHash ≠ storage.flatHead.hash ∧ (storage.deltas block.prevHash).isNone then
    .error (storage.createBlockNotSupportedError block.hash)
  else
    .ok { storage with deltas := fun hash => if hash = block.hash then some delta else storage.deltas hash }

section
attribute [local simp] addDelta
end

/-- `FlatStoreAdapter::get_prev_block_with_changes`, with the flat storage ready at its head: the
parent when it has changes or is the flat head, and otherwise the block its delta points to. -/
def getPrevBlockWithChanges (storage : FlatStorage) (prevHash : CryptoHash) : Option BlockWithChangesInfo :=
  match storage.deltas prevHash with
  | none => if storage.flatHead.hash = prevHash then some ⟨prevHash, storage.flatHead.height⟩ else none
  | some delta =>
    some (delta.metadata.prevBlockWithChanges.getD ⟨delta.metadata.block.hash, delta.metadata.block.height⟩)

/-- `FlatStorageManager::save_flat_state_changes` for a shard that has flat storage. -/
def saveFlatStateChanges (storage : FlatStorage) (blockHash prevHash : CryptoHash) (height : Nat)
    (stateChanges : List (List UInt8 × Option ValueRef)) : Except FlatStorageError FlatStorage :=
  let prevBlockWithChanges :=
    if stateChanges.isEmpty then storage.getPrevBlockWithChanges prevHash else none
  storage.addDelta
    { changes := .fromStateChanges stateChanges
      metadata := { block := ⟨blockHash, height, prevHash⟩, prevBlockWithChanges } }

/-! ### Reads -/

section Reads

variable (storage : FlatStorage) (key : List UInt8)

/-- Reading the result of the walk afterwards is reading it with the composed functions. -/
theorem readThroughBlocks_map {α β : Type} (h : α → β) (ofChange : Option ValueRef → α)
    (ofFlatState : Option FlatStateValue → α) :
    ∀ blocks : List CryptoHash, h <$> storage.readThroughBlocks key ofChange ofFlatState blocks =
      storage.readThroughBlocks key (h ∘ ofChange) (h ∘ ofFlatState) blocks
  | [] => rfl
  | blockHash :: blocks => by
    simp only [readThroughBlocks, getBlockChanges]
    rcases storage.deltas blockHash with _ | delta
    · rfl
    · -- the block's changes either hold the key or the walk goes on to the next block
      simp only [Except.ok_bind]
      rcases delta.changes.get key with _ | valueRef
      · exact readThroughBlocks_map h ofChange ofFlatState blocks
      · rfl

/-- `contains_key` is `get_value` asked whether a value is there. -/
theorem containsKey_eq_isSome_getValue (fuel : Nat) (blockHash : CryptoHash) :
    storage.containsKey fuel blockHash key = (storage.getValue fuel blockHash key).map (Option.isSome <$> ·) := by
  simp only [containsKey, getValue, Option.map_map]
  rcases storage.getBlocksToHead fuel blockHash with _ | blocks
  · rfl
  · rcases blocks with e | blocks
    · rfl
    · have composed : (Option.isSome ∘ Option.map FlatStateValue.ref : Option ValueRef → Bool) = Option.isSome := by
        funext value
        simp
      simp only [Option.map_some, Function.comp_apply, Except.ok_bind, readThroughBlocks_map, composed]
      rfl

/-- A walk over blocks that all have a delta does not fail. -/
theorem readThroughBlocks_isOk {α : Type} (ofChange : Option ValueRef → α)
    (ofFlatState : Option FlatStateValue → α) :
    ∀ {blocks : List CryptoHash}, (∀ b ∈ blocks, (storage.deltas b).isSome) →
      (storage.readThroughBlocks key ofChange ofFlatState blocks).isOk
  | [], _ => rfl
  | blockHash :: blocks, listed => by
    obtain ⟨delta, found⟩ := Option.isSome_iff_exists.mp (listed blockHash List.mem_cons_self)
    simp only [readThroughBlocks, getBlockChanges, found, Except.ok_bind]
    rcases delta.changes.get key with _ | valueRef
    · exact readThroughBlocks_isOk ofChange ofFlatState fun b mem => listed b (List.mem_cons_of_mem _ mem)
    · rfl

end Reads

/-! ### The walk to the head -/

section Walk

variable (storage : FlatStorage)

/-- The walk to the head only appends blocks, and only blocks that have a delta. -/
theorem getBlocksToHeadLoop_eq_append {target : CryptoHash} :
    ∀ {fuel : Nat} {blockHash : CryptoHash} {blocks result : List CryptoHash},
      storage.getBlocksToHeadLoop target fuel blockHash blocks = some (.ok result) →
      ∃ added, result = blocks ++ added ∧ ∀ b ∈ added, (storage.deltas b).isSome
  | 0, _, _, _, walked => by cases walked
  | fuel + 1, blockHash, blocks, result, walked => by
    rw [getBlocksToHeadLoop] at walked
    split at walked
    · -- the head is reached
      cases walked
      exact ⟨[], by simp, by simp⟩
    · rcases found : storage.deltas blockHash with _ | delta
      · simp only [found] at walked
        cases walked
      · have present : (storage.deltas blockHash).isSome := by simp [found]
        simp only [found] at walked
        split at walked
        · -- the block has changes: it is listed and the walk goes on to its parent
          obtain ⟨added, rfl, listed⟩ := getBlocksToHeadLoop_eq_append walked
          refine ⟨blockHash :: added, by simp, ?_⟩
          simpa [present] using listed
        · -- the block has none: it is listed only when it is the target
          obtain ⟨added, same, listed⟩ := getBlocksToHeadLoop_eq_append walked
          split at same
          · refine ⟨blockHash :: added, by simpa using same, ?_⟩
            simpa [present] using listed
          · exact ⟨added, same, listed⟩

/-- The blocks of a walk that reached the head all have a delta. -/
theorem getBlocksToHead_isSome {fuel : Nat} {target : CryptoHash} {blocks : List CryptoHash}
    (walked : storage.getBlocksToHead fuel target = some (.ok blocks)) :
    ∀ b ∈ blocks, (storage.deltas b).isSome := by
  obtain ⟨added, rfl, listed⟩ := storage.getBlocksToHeadLoop_eq_append walked
  simpa using listed

/-- A target other than the head comes first in its walk. -/
theorem getBlocksToHead_eq_cons {fuel : Nat} {target : CryptoHash} {blocks : List CryptoHash}
    (notHead : target ≠ storage.flatHead.hash)
    (walked : storage.getBlocksToHead fuel target = some (.ok blocks)) :
    ∃ rest, blocks = target :: rest := by
  cases fuel with
  | zero => cases walked
  | succ fuel =>
    simp only [getBlocksToHead, getBlocksToHeadLoop, if_neg notHead] at walked
    rcases found : storage.deltas target with _ | delta
    · simp only [found] at walked
      cases walked
    · simp only [found, if_true] at walked
      -- either way the target is the first block listed
      split at walked
      all_goals
        obtain ⟨added, rfl, -⟩ := storage.getBlocksToHeadLoop_eq_append walked
        exact ⟨added, rfl⟩

/-- `get_value` fails exactly when its walk to the head fails: the deltas of the blocks the walk
lists are there, so the missing-delta error is never met. -/
theorem getValue_isOk (fuel : Nat) (blockHash : CryptoHash) (key : List UInt8) :
    (storage.getValue fuel blockHash key).map Except.isOk =
      (storage.getBlocksToHead fuel blockHash).map Except.isOk := by
  rcases walked : storage.getBlocksToHead fuel blockHash with _ | blocks
  · simp [getValue, walked]
  · rcases blocks with e | blocks
    · simp [getValue, walked]
      rfl
    · simp only [getValue, walked, Option.map_some, Except.ok_bind]
      rw [storage.readThroughBlocks_isOk key _ _ (storage.getBlocksToHead_isSome walked)]
      rfl

end Walk

/-! ### Moving the head -/

section Head

/-- Each delta is stored under the hash of its own block, as `add_delta` stores it. -/
def Keyed (storage : FlatStorage) : Prop :=
  ∀ hash delta, storage.deltas hash = some delta → delta.metadata.block.hash = hash

section
attribute [local simp] Keyed
end

variable {storage storage' : FlatStorage}

theorem addDelta_keyed {delta : FlatStateDelta} (keyed : storage.Keyed)
    (added : storage.addDelta delta = .ok storage') : storage'.Keyed := by
  dsimp only [addDelta] at added
  split at added
  · cases added
  · cases added
    intro hash stored found
    dsimp only at found
    split at found
    · cases found
      symm
      assumption
    · exact keyed hash stored found

theorem saveFlatStateChanges_keyed {blockHash prevHash : CryptoHash} {height : Nat}
    {stateChanges : List (List UInt8 × Option ValueRef)} (keyed : storage.Keyed)
    (saved : storage.saveFlatStateChanges blockHash prevHash height stateChanges = .ok storage') :
    storage'.Keyed :=
  addDelta_keyed keyed saved

/-- A head move takes the delta's block as the head, and removes deltas only. -/
theorem moveHeadTo_eq_ok {blockHash : CryptoHash} (moved : storage.moveHeadTo blockHash = .ok storage') :
    ∃ delta, storage.deltas blockHash = some delta ∧ storage'.flatHead = delta.metadata.block ∧
      ∀ hash kept, storage'.deltas hash = some kept → storage.deltas hash = some kept := by
  unfold moveHeadTo at moved
  split at moved
  · cases moved
  · rename_i delta found
    cases moved
    exact ⟨delta, found, rfl, fun hash kept stored => Option.eq_some_of_filter_eq_some stored⟩

theorem moveHeadTo_keyed {blockHash : CryptoHash} (keyed : storage.Keyed)
    (moved : storage.moveHeadTo blockHash = .ok storage') : storage'.Keyed := by
  obtain ⟨-, -, -, kept⟩ := moveHeadTo_eq_ok moved
  exact fun hash delta stored => keyed hash delta (kept hash delta stored)

/-- `update_flat_head` of a block makes it the flat head, and keeps the deltas keyed: the walk
lists the block first, so the head moves to it last. -/
theorem updateFlatHead_moves_head {fuel : Nat} {blockHash : CryptoHash} (keyed : storage.Keyed)
    (enabled : storage.moveHeadEnabled)
    (updated : storage.updateFlatHead fuel blockHash = some (.ok storage')) :
    storage'.flatHead.hash = blockHash ∧ storage'.Keyed := by
  simp only [updateFlatHead, updateFlatHeadImpl, getNewFlatHead, enabled, Bool.not_true,
    Bool.false_eq_true, if_false, if_true, Option.bind_some] at updated
  split at updated
  · -- the block is the head already
    cases updated
    exact ⟨by symm; assumption, keyed⟩
  · rename_i notHead
    rcases walked : storage.getBlocksToHead fuel blockHash with _ | blocks
    · simp [walked] at updated
    · rcases blocks with e | blocks
      · simp [walked] at updated
      · simp only [walked, Option.map_some, Except.ok_bind, Option.some.injEq] at updated
        obtain ⟨rest, rfl⟩ := storage.getBlocksToHead_eq_cons notHead walked
        rw [List.reverse_cons, List.foldlM_append] at updated
        obtain ⟨moved, movedOk, last⟩ := Except.bind_eq_ok updated
        -- the moves before the last keep the deltas keyed
        have keyedMoved : moved.Keyed :=
          List.foldlM_keeps_of_ok Keyed (fun _ _ _ step holds => moveHeadTo_keyed holds step) movedOk keyed
        simp only [List.foldlM_cons, List.foldlM_nil, Except.pure_eq_ok, Except.bind_ok_eq] at last
        obtain ⟨delta, found, head, -⟩ := moveHeadTo_eq_ok last
        exact ⟨by rw [head]; exact keyedMoved blockHash delta found, moveHeadTo_keyed keyedMoved last⟩

end Head

/-! ### A read on the other fork -/

section Fork

/-- A flat head at height 0 with three blocks after it: `forkA1` writes `forkKey` on one fork, and
`forkB1` and its child `forkB2` change nothing on the other. -/
def forkHead : CryptoHash := Vector.replicate 32 0
def forkA1 : CryptoHash := Vector.replicate 32 1
def forkB1 : CryptoHash := Vector.replicate 32 2
def forkB2 : CryptoHash := Vector.replicate 32 3
def forkKey : List UInt8 := [7]
def forkValue : ValueRef := ⟨1, Vector.replicate 32 9⟩

def forkStart : FlatStorage :=
  ⟨⟨forkHead, 0, forkHead⟩, fun _ => none, fun _ => none, true⟩

/-- The chain saves the three blocks: `forkB1` records the head as its last block with changes,
and `forkB2` copies that record from `forkB1`. -/
def forkSaved : Except FlatStorageError FlatStorage := do
  let storage ← forkStart.saveFlatStateChanges forkA1 forkHead 1 [(forkKey, some forkValue)]
  let storage ← storage.saveFlatStateChanges forkB1 forkHead 1 []
  storage.saveFlatStateChanges forkB2 forkB1 2 []

/-- A read at `forkB2` changes when the head moves to `forkA1` on the other fork. Before, it sees
no value, as no block of its chain writes the key. After, the head is `forkA1`, whose change the
flat state now holds, and `forkB1` is gone, so `forkB2` no longer descends from the head; yet the
walk from `forkB2` skips to its recorded block with changes, which is not above the new head, and
jumps to the head, and the read returns the other fork's value instead of failing. -/
theorem getValue_reads_other_fork :
    ∃ before after : FlatStorage, forkSaved = .ok before ∧
      before.getValue 4 forkB2 forkKey = some (.ok none) ∧
      before.updateFlatHead 4 forkA1 = some (.ok after) ∧
      after.flatHead.hash = forkA1 ∧ (after.deltas forkB1).isNone ∧
      (after.deltas forkB2).map (·.metadata.block.prevHash) = some forkB1 ∧
      after.getValue 4 forkB2 forkKey = some (.ok (some (.ref forkValue))) :=
  ⟨_, _, rfl, rfl, rfl, rfl, rfl, rfl, rfl⟩

end Fork

end FlatStorage

end Nearcore
