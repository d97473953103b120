import Nearcore.Primitives.ShardLayout

/-! `ShardLayout` of `core/primitives/src/shard_layout.rs` in its two range versions, the
lookups between shard ids, shard indices and parent shards, and
`ShardLayout::derive_shard_layout`, which splits the shard holding a new boundary account in two.
A `BTreeMap` is an `AList`: the functions here look keys up, insert, and compare the sorted list
of keys, none of which depends on the order the map keeps its entries in. -/
namespace Nearcore

inductive ShardLayoutError
  | invalidShardIdError (shardId : ShardId)
  | invalidShardIndexError (shardIndex : Nat)
  | noParentError (shardId : ShardId)
  deriving DecidableEq, Repr

abbrev ShardsSplitMapV2 := AList fun _ : ShardId => List ShardId
abbrev ShardsParentMapV2 := AList fun _ : ShardId => ShardId

/-- The layouts that divide accounts into ranges. V0, which hashes accounts to shards, is left
out, and so are the fields nothing here reads: the split maps, which only the constructor checks,
V2's `index_to_id_map`, a copy of `shard_ids`, and the versions. -/
inductive ShardLayout
  | V1 (boundaryAccounts : List AccountId) (toParentShardMap : Option (List ShardId))
  | V2 (layout : ShardLayoutV2) (idToIndexMap : AList fun _ : ShardId => Nat)
      (shardsParentMap : Option ShardsParentMapV2)

namespace ShardLayout

def boundaryAccounts : ShardLayout → List AccountId
  | V1 boundaryAccounts _ => boundaryAccounts
  | V2 layout _ _ => layout.boundaryAccounts

section
attribute [local simp] boundaryAccounts
end

def numShards : ShardLayout → Nat
  | V1 boundaryAccounts _ => boundaryAccounts.length + 1
  | V2 layout _ _ => layout.shardIds.length

section
attribute [local simp] numShards
end

/-- A V1 layout numbers its shards by their indices. -/
def shardIds (layout : ShardLayout) : List ShardId :=
  match layout with
  | V1 .. => (List.range layout.numShards).map UInt64.ofNat
  | V2 v2 _ _ => v2.shardIds

section
attribute [local simp] shardIds
end

/-- `none` is the panic of indexing `shard_ids` out of range, which only V2 can reach. -/
def accountIdToShardId : ShardLayout → AccountId → Option ShardId
  | V1 boundaryAccounts _, accountId => some (UInt64.ofNat (shardIdIndex accountId boundaryAccounts))
  | V2 v2 _ _, accountId => v2.accountIdToShardId accountId

section
attribute [local simp] accountIdToShardId
end

def getShardIndex : ShardLayout → ShardId → Except ShardLayoutError Nat
  | V1 .., shardId => .ok shardId.toNat
  | V2 _ idToIndexMap _, shardId =>
    match idToIndexMap.lookup shardId with
    | some shardIndex => .ok shardIndex
    | none => .error (.invalidShardIdError shardId)

section
attribute [local simp] getShardIndex
end

def getShardId (layout : ShardLayout) (shardIndex : Nat) : Except ShardLayoutError ShardId :=
  match layout with
  | V1 .. =>
    if shardIndex ≥ layout.numShards then .error (.invalidShardIndexError shardIndex)
    else .ok (UInt64.ofNat shardIndex)
  | V2 v2 _ _ =>
    match v2.shardIds[shardIndex]? with
    | some shardId => .ok shardId
    | none => .error (.invalidShardIndexError shardIndex)

section
attribute [local simp] getShardId
end

/-- The outer `none` is the panic of an `unwrap` on a shard the parent map lacks. -/
def tryGetParentShardId (layout : ShardLayout) (shardId : ShardId) :
    Option (Except ShardLayoutError (Option ShardId)) :=
  if !layout.shardIds.contains shardId then some (.error (.invalidShardIdError shardId))
  else
    match layout with
    | V1 _ none | V2 _ _ none => some (.ok none)
    | V1 _ (some toParentShardMap) =>
      match layout.getShardIndex shardId with
      | .error _ => none
      | .ok shardIndex => toParentShardMap[shardIndex]?.map fun parentShardId => .ok (some parentShardId)
    | V2 _ _ (some toParentShardMap) =>
      (toParentShardMap.lookup shardId).map fun parentShardId => .ok (some parentShardId)

section
attribute [local simp] tryGetParentShardId
end

def getParentShardId (layout : ShardLayout) (shardId : ShardId) :
    Option (Except ShardLayoutError ShardId) :=
  (layout.tryGetParentShardId shardId).map fun parentShardId => parentShardId.bind fun
    | some parentShardId => .ok parentShardId
    | none => .error (.noParentError shardId)

section
attribute [local simp] getParentShardId
end

end ShardLayout

/-- The loop over one parent's children in `validate_and_derive_shard_parent_map_v2`; `none` is
its assert that no shard appears in the map twice. -/
def insertChildren (parentShardId : ShardId) :
    List ShardId → ShardsParentMapV2 → Option ShardsParentMapV2
  | [], shardsParentMap => some shardsParentMap
  | childShardId :: childShardIds, shardsParentMap =>
    if childShardId ∈ shardsParentMap then none
    else insertChildren parentShardId childShardIds (shardsParentMap.insert childShardId parentShardId)

section
attribute [local simp] insertChildren
end

/-- What is asserted of one entry of the split map: a parent with one child keeps its id, and a
split parent is no longer a shard of the layout. -/
def keepsOrSplits (shardIds : List ShardId) (parentShardId : ShardId) : List ShardId → Bool
  | [childShardId] => parentShardId == childShardId
  | _ => !shardIds.contains parentShardId

section
attribute [local simp] keepsOrSplits
end

def validateSplitEntry (shardIds : List ShardId) (shardsParentMap : ShardsParentMapV2)
    (entry : (_ : ShardId) × List ShardId) : Option ShardsParentMapV2 := do
  let shardsParentMap ← insertChildren entry.1 entry.2 shardsParentMap
  if keepsOrSplits shardIds entry.1 entry.2 then some shardsParentMap else none

section
attribute [local simp] validateSplitEntry
end

/-- `none` is one of its asserts. The entries are visited in the order the map keeps them in,
not by key: whether an assert fails, and the map built, do not depend on that order. -/
def validateAndDeriveShardParentMapV2 (shardIds : List ShardId) (shardsSplitMap : ShardsSplitMapV2) :
    Option ShardsParentMapV2 := do
  let shardsParentMap ← shardsSplitMap.entries.foldlM (validateSplitEntry shardIds) ∅
  if shardIds.mergeSort (fun a b => decide (a ≤ b)) =
      shardsParentMap.keys.mergeSort (fun a b => decide (a ≤ b))
  then some shardsParentMap else none

section
attribute [local simp] validateAndDeriveShardParentMapV2
end

/-- The `id_to_index_map` that `ShardLayout::v2` fills in its loop. -/
def idToIndexMapOf (shardIds : List ShardId) : AList fun _ : ShardId => Nat :=
  shardIds.zipIdx.foldl (fun idToIndexMap entry => idToIndexMap.insert entry.1 entry.2) ∅

section
attribute [local simp] idToIndexMapOf
end

namespace ShardLayout

/-- `ShardLayout::v2`; `none` is one of its asserts, or one of the parent map's. -/
def v2 (boundaryAccounts : List AccountId) (shardIds : List ShardId)
    (shardsSplitMap : Option ShardsSplitMapV2) : Option ShardLayout :=
  if boundaryAccounts.length + 1 ≠ shardIds.length then none
  else if boundaryAccounts ≠ boundaryAccounts.mergeSort (fun a b => decide (a ≤ b)) then none
  else
    match shardsSplitMap with
    | none => some (V2 ⟨boundaryAccounts, shardIds⟩ (idToIndexMapOf shardIds) none)
    | some shardsSplitMap =>
      (validateAndDeriveShardParentMapV2 shardIds shardsSplitMap).map fun shardsParentMap =>
        V2 ⟨boundaryAccounts, shardIds⟩ (idToIndexMapOf shardIds) (some shardsParentMap)

section
attribute [local simp] v2
end

/-- `none` is a panic: the duplicated boundary account, an overflow of the new shard ids, or one
of the asserts of `ShardLayout::v2`. -/
def deriveShardLayout (baseShardLayout : ShardLayout) (newBoundaryAccount : AccountId) :
    Option ShardLayout := do
  let boundaryAccounts := baseShardLayout.boundaryAccounts
  let shardIds := baseShardLayout.shardIds
  let shardsSplitMap : ShardsSplitMapV2 :=
    shardIds.foldl (fun shardsSplitMap shardId => shardsSplitMap.insert shardId [shardId]) ∅
  if newBoundaryAccount ∈ boundaryAccounts then none
  let boundaryAccounts := (boundaryAccounts ++ [newBoundaryAccount]).mergeSort (fun a b => decide (a ≤ b))
  let newBoundaryAccountIndex ← boundaryAccounts.findIdx? (· == newBoundaryAccount)
  let maxShardId ← shardIds.max?
  -- `ShardId` adds as `u64` does under the overflow checks of the release profile
  if 2 ^ 64 ≤ maxShardId.toNat + 2 then none
  let newShards := [maxShardId + 1, maxShardId + 2]
  -- `splice` panics on a range past the end; it removes the one id at the index
  let parentShardId ← shardIds[newBoundaryAccountIndex]?
  let shardIds :=
    shardIds.take newBoundaryAccountIndex ++ newShards ++ shardIds.drop (newBoundaryAccountIndex + 1)
  v2 boundaryAccounts shardIds (some (shardsSplitMap.insert parentShardId newShards))

section
attribute [local simp] deriveShardLayout
end

end ShardLayout

/-! The layouts' own lookups. -/

namespace ShardLayout

/-- Both versions read the shard of an account off `shard_ids` at the index the loop stops at. -/
theorem accountIdToShardId_eq (layout : ShardLayout) (accountId : AccountId) :
    layout.accountIdToShardId accountId =
      layout.shardIds[shardIdIndex accountId layout.boundaryAccounts]? := by
  cases layout with
  | V1 accounts toParentShardMap =>
    have inside := shardIdIndex_le_length accountId accounts
    simp [accountIdToShardId, shardIds, boundaryAccounts, numShards,
      List.getElem?_range (Nat.lt_succ_of_le inside)]
  | V2 v2 idToIndexMap shardsParentMap => rfl

theorem getShardId_V2 (v2 : ShardLayoutV2) (idToIndexMap : AList fun _ : ShardId => Nat)
    (shardsParentMap : Option ShardsParentMapV2) (shardIndex : Nat) (shardId : ShardId) :
    (V2 v2 idToIndexMap shardsParentMap).getShardId shardIndex = .ok shardId ↔
      v2.shardIds[shardIndex]? = some shardId := by
  simp only [getShardId]
  cases v2.shardIds[shardIndex]? <;> simp

theorem getShardIndex_V2 (v2 : ShardLayoutV2) (idToIndexMap : AList fun _ : ShardId => Nat)
    (shardsParentMap : Option ShardsParentMapV2) (shardId : ShardId) (shardIndex : Nat) :
    (V2 v2 idToIndexMap shardsParentMap).getShardIndex shardId = .ok shardIndex ↔
      idToIndexMap.lookup shardId = some shardIndex := by
  simp only [getShardIndex]
  cases idToIndexMap.lookup shardId <;> simp

/-- A V2 layout with a parent map gives every one of its shards the parent the map holds. -/
theorem getParentShardId_V2 (v2 : ShardLayoutV2) (idToIndexMap : AList fun _ : ShardId => Nat)
    (shardsParentMap : ShardsParentMapV2) {shardId parentShardId : ShardId}
    (listed : shardId ∈ v2.shardIds) (parented : shardsParentMap.lookup shardId = some parentShardId) :
    (V2 v2 idToIndexMap (some shardsParentMap)).getParentShardId shardId = some (.ok parentShardId) := by
  simp [getParentShardId, tryGetParentShardId, shardIds, listed, parented]
  rfl

end ShardLayout

/-- `u64` keeps the larger of two values. -/
instance maxEqOrUInt64 : Std.MaxEqOr UInt64 where
  max_eq_or a b := by
    by_cases le : a ≤ b
    · exact Or.inr (if_pos le)
    · exact Or.inl (if_neg le)

instance lawfulOrderSupUInt64 : Std.LawfulOrderSup UInt64 where
  max_le_iff a b c := by
    show (if a ≤ b then b else a) ≤ c ↔ _
    simp only [UInt64.le_iff_toNat_le]
    split <;> simp_all <;> omega

/-! Sorting in the new boundary and splicing in the new shards. -/

/-- Sorting the boundaries with a new one appended puts it where the shard loop stops. -/
theorem mergeSort_append_boundary {boundaries : List AccountId} (newBoundary : AccountId)
    (sorted : boundaries.Pairwise (· ≤ ·)) :
    (boundaries ++ [newBoundary]).mergeSort (fun a b => decide (a ≤ b)) =
      boundaries.take (shardIdIndex newBoundary boundaries) ++
        newBoundary :: boundaries.drop (shardIdIndex newBoundary boundaries) := by
  set k := shardIdIndex newBoundary boundaries with atNew
  have parts := List.pairwise_append.mp ((List.take_append_drop k boundaries).symm ▸ sorted)
  have below : ∀ x ∈ boundaries.take k, x ≤ newBoundary := fun x passed =>
    AccountId.not_lt.mp (not_lt_of_mem_take_shardIdIndex passed)
  have above : ∀ y ∈ boundaries.drop k, newBoundary ≤ y := by
    intro y later
    have restSorted := parts.2.1
    cases after : boundaries.drop k with
    | nil => simp [after] at later
    | cons next rest =>
      have first : newBoundary < next := lt_of_head?_drop_shardIdIndex (by rw [← atNew, after]; rfl)
      rw [after] at later restSorted
      rcases List.mem_cons.mp later with rfl | later
      · exact AccountId.le_of_lt first
      · exact AccountId.le_trans (AccountId.le_of_lt first) (List.rel_of_pairwise_cons restSorted later)
  have inserted : (boundaries.take k ++ newBoundary :: boundaries.drop k).Pairwise (· ≤ ·) := by
    refine List.pairwise_append.mpr ⟨parts.1, List.pairwise_cons.mpr ⟨above, parts.2.1⟩, ?_⟩
    intro x passed y later
    rcases List.mem_cons.mp later with rfl | later
    · exact below x passed
    · exact parts.2.2 x passed y later
  have perm : (boundaries.take k ++ newBoundary :: boundaries.drop k).Perm
      (boundaries ++ [newBoundary]) := by
    calc List.Perm (boundaries.take k ++ newBoundary :: boundaries.drop k)
          (newBoundary :: (boundaries.take k ++ boundaries.drop k)) := List.perm_middle
      _ = newBoundary :: boundaries := by rw [List.take_append_drop]
      List.Perm _ (boundaries ++ [newBoundary]) := (List.perm_append_singleton _ _).symm
  exact ((List.mergeSort_perm _ _).trans perm.symm).eq_of_pairwise'
    (List.pairwise_mergeSort' _ _) inserted

theorem findIdx?_insert {front back : List AccountId} {newBoundary : AccountId}
    (absent : newBoundary ∉ front) :
    (front ++ newBoundary :: back).findIdx? (· == newBoundary) = some front.length := by
  have skipped : front.findIdx? (· == newBoundary) = none :=
    List.findIdx?_eq_none_iff.mpr fun x member => by
      simpa using fun same : x = newBoundary => absent (same ▸ member)
  simp [List.findIdx?_append, skipped, List.findIdx?_cons]

section Splice

variable (shardIds : List ShardId) (index : Nat) (first second : ShardId)

/-- The shard ids once `splice` has put two ids in place of the one at `index`. -/
def spliced : List ShardId := shardIds.take index ++ [first, second] ++ shardIds.drop (index + 1)

section
attribute [local simp] spliced
end

theorem spliced_perm : (spliced shardIds index first second).Perm (first :: second :: shardIds.eraseIdx index) := by
  rw [spliced, List.eraseIdx_eq_take_drop_succ]
  exact (List.perm_append_comm.append_right _).trans (by simp)

theorem getElem?_spliced (inside : index < shardIds.length) (i : Nat) :
    (spliced shardIds index first second)[i]? =
      if i < index then shardIds[i]? else if i = index then some first
      else if i = index + 1 then some second else shardIds[i - 1]? := by
  have length : (shardIds.take index).length = index := List.length_take_of_le (Nat.le_of_lt inside)
  rw [spliced, List.append_assoc, List.getElem?_append, length]
  by_cases before : i < index
  · rw [if_pos before, if_pos before, List.getElem?_take, if_pos before]
  · obtain ⟨d, rfl⟩ := Nat.exists_eq_add_of_le (Nat.le_of_not_lt before)
    rw [if_neg before, if_neg before, Nat.add_sub_cancel_left]
    match d with
    | 0 => simp
    | 1 => simp
    | d + 2 =>
      have notFirst : index + (d + 2) ≠ index := by omega
      have notSecond : index + (d + 2) ≠ index + 1 := by omega
      simp only [List.cons_append, List.nil_append, List.getElem?_cons_succ, List.getElem?_drop, notFirst,
        notSecond, if_false]
      congr 1
      omega

variable {shardIds index first second}

theorem mem_spliced (distinct : shardIds.Nodup) (inside : index < shardIds.length) (shardId : ShardId) :
    shardId ∈ spliced shardIds index first second ↔
      shardId = first ∨ shardId = second ∨ (shardId ∈ shardIds ∧ shardId ≠ shardIds[index]) := by
  rw [(spliced_perm shardIds index first second).mem_iff, ← distinct.erase_getElem index inside,
    List.mem_cons, List.mem_cons, distinct.mem_erase_iff, and_comm]

theorem nodup_spliced (distinct : shardIds.Nodup) (differ : first ≠ second)
    (firstNew : first ∉ shardIds) (secondNew : second ∉ shardIds) :
    (spliced shardIds index first second).Nodup := by
  rw [(spliced_perm shardIds index first second).nodup_iff]
  have rest : (shardIds.eraseIdx index).Nodup := distinct.sublist (List.eraseIdx_sublist _ _)
  refine List.nodup_cons.mpr ⟨?_, List.nodup_cons.mpr ⟨?_, rest⟩⟩
  · rw [List.mem_cons, not_or]
    exact ⟨differ, fun member => firstNew (List.mem_of_mem_eraseIdx member)⟩
  · exact fun member => secondNew (List.mem_of_mem_eraseIdx member)

end Splice

/-- Two ids above the largest, when both fit in a `u64`, are new and differ. -/
theorem newShards_fresh {shardIds : List ShardId} {maxShardId : ShardId}
    (found : shardIds.max? = some maxShardId) (room : maxShardId.toNat + 2 < 2 ^ 64) :
    maxShardId + 1 ≠ maxShardId + 2 ∧ maxShardId + 1 ∉ shardIds ∧ maxShardId + 2 ∉ shardIds := by
  have bound : ∀ shardId ∈ shardIds, shardId ≤ maxShardId :=
    (List.max?_le_iff found).mp (UInt64.le_refl maxShardId)
  have one : (maxShardId + 1).toNat = maxShardId.toNat + 1 := by
    rw [UInt64.toNat_add, UInt64.toNat_one, Nat.mod_eq_of_lt (by omega)]
  have two : (maxShardId + 2).toNat = maxShardId.toNat + 2 := by
    rw [UInt64.toNat_add, Nat.mod_eq_of_lt (by simpa using room)]
    rfl
  refine ⟨fun same => ?_, fun member => ?_, fun member => ?_⟩
  · have := congrArg UInt64.toNat same
    omega
  · have := UInt64.le_iff_toNat_le.mp (bound _ member)
    omega
  · have := UInt64.le_iff_toNat_le.mp (bound _ member)
    omega

/-- Sorting forgets the order of its input. -/
theorem mergeSort_eq_of_perm {α : Type} (r : α → α → Prop) [DecidableRel r] [Std.Total r]
    [IsTrans α r] [Std.Antisymm r] {xs ys : List α} (perm : xs.Perm ys) :
    xs.mergeSort (fun a b => decide (r a b)) = ys.mergeSort (fun a b => decide (r a b)) :=
  ((List.mergeSort_perm _ _).trans (perm.trans (List.mergeSort_perm _ _).symm)).eq_of_pairwise'
    (List.pairwise_mergeSort' r _) (List.pairwise_mergeSort' r _)

/-! The split map that deriving builds, and the parent map that `ShardLayout::v2` checks and
derives from it. -/

theorem lookup_foldl_insertSingleton (shardIds : List ShardId) (shardsSplitMap : ShardsSplitMapV2)
    (shardId : ShardId) :
    (shardIds.foldl (fun shardsSplitMap shardId => shardsSplitMap.insert shardId [shardId])
        shardsSplitMap).lookup shardId =
      if shardId ∈ shardIds then some [shardId] else shardsSplitMap.lookup shardId := by
  induction shardIds generalizing shardsSplitMap with
  | nil => simp
  | cons next rest ih =>
    rw [List.foldl_cons, ih]
    by_cases same : shardId = next
    · subst same
      simp
    · simp [same, AList.lookup_insert_ne same]

theorem insertChildren_eq_some (parentShardId : ShardId) (children : List ShardId) :
    ∀ shardsParentMap : ShardsParentMapV2, children.Nodup →
      (∀ child ∈ children, child ∉ shardsParentMap) →
      ∃ inserted, insertChildren parentShardId children shardsParentMap = some inserted ∧
        ∀ shardId, inserted.lookup shardId =
          if shardId ∈ children then some parentShardId else shardsParentMap.lookup shardId := by
  induction children with
  | nil => exact fun shardsParentMap _ _ => ⟨shardsParentMap, rfl, by simp⟩
  | cons child children ih =>
    intro shardsParentMap distinct fresh
    obtain ⟨notLater, restDistinct⟩ := List.nodup_cons.mp distinct
    have restFresh : ∀ later ∈ children, later ∉ shardsParentMap.insert child parentShardId := by
      intro later member
      rw [AList.mem_insert, not_or]
      exact ⟨fun same => notLater (same ▸ member), fresh later (List.mem_cons_of_mem _ member)⟩
    obtain ⟨inserted, ran, looked⟩ := ih _ restDistinct restFresh
    refine ⟨inserted, by rw [insertChildren, if_neg (fresh child List.mem_cons_self), ran],
      fun shardId => ?_⟩
    rw [looked]
    by_cases same : shardId = child
    · subst same
      simp [notLater]
    · simp [same, AList.lookup_insert_ne same]

theorem validateSplitEntry_eq_some {shardIds : List ShardId} {shardsParentMap : ShardsParentMapV2}
    {entry : (_ : ShardId) × List ShardId} (distinct : entry.2.Nodup)
    (fresh : ∀ child ∈ entry.2, child ∉ shardsParentMap)
    (shaped : keepsOrSplits shardIds entry.1 entry.2 = true) :
    ∃ inserted, validateSplitEntry shardIds shardsParentMap entry = some inserted ∧
      ∀ shardId, inserted.lookup shardId =
        if shardId ∈ entry.2 then some entry.1 else shardsParentMap.lookup shardId := by
  obtain ⟨inserted, ran, looked⟩ := insertChildren_eq_some entry.1 entry.2 shardsParentMap distinct fresh
  exact ⟨inserted, by simp [validateSplitEntry, ran, shaped], looked⟩

/-- The loop over the split map passes its asserts when no shard is the child of two entries
and every entry has its shape; each child then has the parent of its entry. -/
theorem foldlM_validateSplitEntry (shardIds : List ShardId)
    (entries : List ((_ : ShardId) × List ShardId)) :
    ∀ shardsParentMap : ShardsParentMapV2, (entries.flatMap (·.2)).Nodup →
      (∀ entry ∈ entries, ∀ child ∈ entry.2, child ∉ shardsParentMap) →
      (∀ entry ∈ entries, keepsOrSplits shardIds entry.1 entry.2 = true) →
      ∃ derived, entries.foldlM (validateSplitEntry shardIds) shardsParentMap = some derived ∧
        ∀ child parentShardId, derived.lookup child = some parentShardId ↔
          (∃ entry ∈ entries, entry.1 = parentShardId ∧ child ∈ entry.2) ∨
            shardsParentMap.lookup child = some parentShardId := by
  induction entries with
  | nil => exact fun shardsParentMap _ _ _ => ⟨shardsParentMap, rfl, by simp⟩
  | cons entry entries ih =>
    intro shardsParentMap distinct fresh shaped
    rw [List.flatMap_cons, List.nodup_append] at distinct
    obtain ⟨entryDistinct, restDistinct, apart⟩ := distinct
    -- a child of a later entry is no child of this one
    have notHere : ∀ later ∈ entries, ∀ child ∈ later.2, child ∉ entry.2 :=
      fun later member child mine here =>
        apart child here child (List.mem_flatMap.mpr ⟨later, member, mine⟩) rfl
    obtain ⟨inserted, ran, looked⟩ := validateSplitEntry_eq_some entryDistinct
      (fresh entry List.mem_cons_self) (shaped entry List.mem_cons_self)
    have restFresh : ∀ later ∈ entries, ∀ child ∈ later.2, child ∉ inserted := by
      intro later member child mine
      rw [← AList.lookup_eq_none, looked, if_neg (notHere later member child mine),
        AList.lookup_eq_none]
      exact fresh later (List.mem_cons_of_mem _ member) child mine
    obtain ⟨derived, ranRest, lookedRest⟩ :=
      ih inserted restDistinct restFresh fun later member => shaped later (List.mem_cons_of_mem _ member)
    refine ⟨derived, by rw [List.foldlM_cons, ran]; exact ranRest, fun child parentShardId => ?_⟩
    rw [lookedRest, looked]
    by_cases here : child ∈ entry.2
    · have notBefore : shardsParentMap.lookup child = none :=
        AList.lookup_eq_none.mpr (fresh entry List.mem_cons_self child here)
      have notLater : ∀ later ∈ entries, child ∉ later.2 :=
        fun later member mine => notHere later member child mine here
      simp only [here, if_true, notBefore]
      constructor
      · rintro (⟨later, member, -, mine⟩ | same)
        · exact absurd mine (notLater later member)
        · exact Or.inl ⟨entry, List.mem_cons_self, Option.some.inj same, here⟩
      · rintro (⟨parent, member, same, mine⟩ | none)
        · rcases List.mem_cons.mp member with rfl | member
          · exact Or.inr (congrArg some same)
          · exact absurd mine (notLater parent member)
        · cases none
    · simp [here]

/-- The parent map is derived when the split map gives every shard of the layout, and only those,
as the child of exactly one entry of the right shape. -/
theorem validateAndDeriveShardParentMapV2_eq_some {shardIds : List ShardId}
    {shardsSplitMap : ShardsSplitMapV2} (distinct : shardIds.Nodup)
    (childrenDistinct : (shardsSplitMap.entries.flatMap (·.2)).Nodup)
    (shaped : ∀ entry ∈ shardsSplitMap.entries, keepsOrSplits shardIds entry.1 entry.2 = true)
    (covered : ∀ shardId, shardId ∈ shardIds ↔ ∃ entry ∈ shardsSplitMap.entries, shardId ∈ entry.2) :
    ∃ shardsParentMap, validateAndDeriveShardParentMapV2 shardIds shardsSplitMap = some shardsParentMap ∧
      ∀ child parentShardId, shardsParentMap.lookup child = some parentShardId ↔
        ∃ entry ∈ shardsSplitMap.entries, entry.1 = parentShardId ∧ child ∈ entry.2 := by
  obtain ⟨derived, ran, looked⟩ := foldlM_validateSplitEntry shardIds shardsSplitMap.entries ∅
    childrenDistinct (fun _ _ _ _ => AList.notMem_empty _) shaped
  have parents : ∀ child parentShardId, derived.lookup child = some parentShardId ↔
      ∃ entry ∈ shardsSplitMap.entries, entry.1 = parentShardId ∧ child ∈ entry.2 := by
    intro child parentShardId
    simpa using looked child parentShardId
  -- the keys of the parent map are the layout's shards, so both sort alike
  have keys : derived.keys.Perm shardIds := by
    refine (List.perm_ext_iff_of_nodup derived.keys_nodup distinct).mpr fun shardId => ?_
    rw [← AList.mem_keys, ← AList.lookup_isSome, Option.isSome_iff_exists, covered]
    simp only [parents]
    constructor
    · rintro ⟨_, entry, member, -, mine⟩
      exact ⟨entry, member, mine⟩
    · rintro ⟨entry, member, mine⟩
      exact ⟨entry.1, entry, member, rfl, mine⟩
  refine ⟨derived, ?_, parents⟩
  simp only [validateAndDeriveShardParentMapV2, ran, Option.bind_eq_bind, Option.bind_some]
  rw [if_pos (mergeSort_eq_of_perm (· ≤ ·) keys.symm)]

theorem lookup_foldl_zipIdx {shardIds : List ShardId} (distinct : shardIds.Nodup) :
    ∀ (start : Nat) (idToIndexMap : AList fun _ : ShardId => Nat) (shardId : ShardId),
      ((shardIds.zipIdx start).foldl (fun idToIndexMap entry => idToIndexMap.insert entry.1 entry.2)
          idToIndexMap).lookup shardId =
        if shardId ∈ shardIds then some (start + shardIds.idxOf shardId)
        else idToIndexMap.lookup shardId := by
  induction shardIds with
  | nil => simp
  | cons first rest ih =>
    intro start idToIndexMap shardId
    obtain ⟨notLater, restDistinct⟩ := List.nodup_cons.mp distinct
    rw [List.zipIdx_cons, List.foldl_cons, ih restDistinct]
    by_cases same : shardId = first
    · subst same
      simp [notLater]
    · by_cases later : shardId ∈ rest
      · simp [later, same, List.idxOf_cons_ne _ (Ne.symm same), Nat.add_assoc, Nat.add_comm 1]
      · simp [later, same, AList.lookup_insert_ne same]

/-- With distinct shard ids, the index map and the id list are inverse. -/
theorem lookup_idToIndexMapOf {shardIds : List ShardId} (distinct : shardIds.Nodup)
    (shardId : ShardId) (shardIndex : Nat) :
    (idToIndexMapOf shardIds).lookup shardId = some shardIndex ↔ shardIds[shardIndex]? = some shardId := by
  rw [idToIndexMapOf, lookup_foldl_zipIdx distinct 0 ∅ shardId]
  constructor
  · intro found
    split at found
    · next member =>
      rw [Nat.zero_add] at found
      cases found
      exact List.getElem?_idxOf member
    · simp at found
  · intro found
    obtain ⟨inside, atIndex⟩ := List.getElem?_eq_some_iff.mp found
    have member : shardId ∈ shardIds := atIndex ▸ List.getElem_mem inside
    rw [if_pos member, Nat.zero_add, ← atIndex, distinct.idxOf_getElem]

namespace ShardLayout

/-- What `ShardLayout::v2` asserts: one more shard than boundaries, and sorted boundaries. -/
theorem v2_shaped {boundaryAccounts : List AccountId} {shardIds : List ShardId}
    {shardsSplitMap : Option ShardsSplitMapV2} {layout : ShardLayout}
    (built : v2 boundaryAccounts shardIds shardsSplitMap = some layout) :
    layout.boundaryAccounts = boundaryAccounts ∧ layout.shardIds = shardIds ∧
      shardIds.length = boundaryAccounts.length + 1 ∧ boundaryAccounts.Pairwise (· ≤ ·) := by
  unfold v2 at built
  split at built
  · cases built
  · next shaped =>
    split at built
    · cases built
    · next sorted =>
      have pairwise : boundaryAccounts.Pairwise (· ≤ ·) := by
        rw [not_not.mp sorted]
        exact List.pairwise_mergeSort' (· ≤ ·) _
      cases shardsSplitMap with
      | none =>
        cases built
        exact ⟨rfl, rfl, by omega, pairwise⟩
      | some shardsSplitMap =>
        obtain ⟨_, -, rfl⟩ := Option.map_eq_some_iff.mp built
        exact ⟨rfl, rfl, by omega, pairwise⟩

theorem v2_eq_some {boundaryAccounts : List AccountId} {shardIds : List ShardId}
    {shardsSplitMap : ShardsSplitMapV2} {shardsParentMap : ShardsParentMapV2}
    (shaped : shardIds.length = boundaryAccounts.length + 1)
    (sorted : boundaryAccounts.Pairwise (· ≤ ·))
    (validated : validateAndDeriveShardParentMapV2 shardIds shardsSplitMap = some shardsParentMap) :
    v2 boundaryAccounts shardIds (some shardsSplitMap) =
      some (V2 ⟨boundaryAccounts, shardIds⟩ (idToIndexMapOf shardIds) (some shardsParentMap)) := by
  rw [v2, if_neg (by omega), if_neg (not_not.mpr (List.mergeSort_eq_self (· ≤ ·) sorted).symm),
    validated]
  rfl

end ShardLayout

/-! The split map of a derivation and the parent map it yields. -/

section SplitMap

variable (shardIds : List ShardId) (parentShardId first second : ShardId)

/-- The split map `derive_shard_layout` hands to `ShardLayout::v2`: every shard is its own only
child, but the split one, whose children are the new shards. -/
abbrev derivedSplitMap : ShardsSplitMapV2 :=
  (shardIds.foldl (fun (shardsSplitMap : ShardsSplitMapV2) shardId =>
    shardsSplitMap.insert shardId [shardId]) ∅).insert parentShardId [first, second]

theorem lookup_derivedSplitMap (shardId : ShardId) :
    (derivedSplitMap shardIds parentShardId first second).lookup shardId =
      if shardId = parentShardId then some [first, second]
      else if shardId ∈ shardIds then some [shardId] else none := by
  by_cases split : shardId = parentShardId
  · subst split
    simp
  · simp [split, AList.lookup_insert_ne split, lookup_foldl_insertSingleton]

variable {shardIds parentShardId first second}

theorem mem_derivedSplitMap {entry : (_ : ShardId) × List ShardId}
    (member : entry ∈ (derivedSplitMap shardIds parentShardId first second).entries) :
    (entry.1 = parentShardId ∧ entry.2 = [first, second]) ∨
      (entry.1 ≠ parentShardId ∧ entry.1 ∈ shardIds ∧ entry.2 = [entry.1]) := by
  have looked := AList.mem_lookup_iff.mpr member
  rw [Option.mem_def, lookup_derivedSplitMap] at looked
  split at looked
  · exact Or.inl ⟨‹_›, (Option.some.inj looked).symm⟩
  · split at looked
    · exact Or.inr ⟨‹_›, ‹_›, (Option.some.inj looked).symm⟩
    · cases looked

theorem split_mem_derivedSplitMap :
    ⟨parentShardId, [first, second]⟩ ∈ (derivedSplitMap shardIds parentShardId first second).entries :=
  AList.mem_lookup_iff.mp (by rw [Option.mem_def, lookup_derivedSplitMap, if_pos rfl])

theorem kept_mem_derivedSplitMap {shardId : ShardId} (member : shardId ∈ shardIds)
    (kept : shardId ≠ parentShardId) :
    ⟨shardId, [shardId]⟩ ∈ (derivedSplitMap shardIds parentShardId first second).entries :=
  AList.mem_lookup_iff.mp (by rw [Option.mem_def, lookup_derivedSplitMap, if_neg kept, if_pos member])

/-- The derived layout's parent map: the new shards have the split shard as parent, and every
other shard of the base is its own parent. -/
theorem validate_derivedSplitMap {index : Nat} (distinct : shardIds.Nodup)
    (inside : index < shardIds.length) (differ : first ≠ second)
    (firstNew : first ∉ shardIds) (secondNew : second ∉ shardIds) :
    ∃ shardsParentMap,
      validateAndDeriveShardParentMapV2 (spliced shardIds index first second)
          (derivedSplitMap shardIds shardIds[index] first second) = some shardsParentMap ∧
        ∀ child parent, shardsParentMap.lookup child = some parent ↔
          (parent = shardIds[index] ∧ (child = first ∨ child = second)) ∨
            (parent ≠ shardIds[index] ∧ parent ∈ shardIds ∧ child = parent) := by
  set parentShardId := shardIds[index]
  have parentListed : parentShardId ∈ shardIds := List.getElem_mem inside
  have childrenDistinct :
      ((derivedSplitMap shardIds parentShardId first second).entries.flatMap (·.2)).Nodup := by
    refine List.nodup_flatMap.mpr ⟨fun entry member => ?_, ?_⟩
    · rcases mem_derivedSplitMap member with ⟨-, split⟩ | ⟨-, -, kept⟩
      · simp [split, differ]
      · simp [kept]
    · refine (List.nodupKeys_iff_pairwise.mp (AList.nodupKeys _)).imp_of_mem ?_
      intro entry other member otherMember keys child mine theirs
      dsimp only at mine theirs
      rcases mem_derivedSplitMap member with ⟨split, children⟩ | ⟨_, listed, kept⟩ <;>
        rcases mem_derivedSplitMap otherMember with ⟨otherSplit, otherChildren⟩ |
          ⟨_, otherListed, otherKept⟩
      · exact keys (split.trans otherSplit.symm)
      · rw [children] at mine
        rw [otherKept, List.mem_singleton] at theirs
        rcases List.mem_pair.mp mine with rfl | rfl
        · exact firstNew (theirs ▸ otherListed)
        · exact secondNew (theirs ▸ otherListed)
      · rw [otherChildren] at theirs
        rw [kept, List.mem_singleton] at mine
        rcases List.mem_pair.mp theirs with rfl | rfl
        · exact firstNew (mine ▸ listed)
        · exact secondNew (mine ▸ listed)
      · rw [kept, List.mem_singleton] at mine
        rw [otherKept, List.mem_singleton] at theirs
        exact keys (mine.symm.trans theirs)
  have shaped : ∀ entry ∈ (derivedSplitMap shardIds parentShardId first second).entries,
      keepsOrSplits (spliced shardIds index first second) entry.1 entry.2 = true := by
    intro entry member
    rcases mem_derivedSplitMap member with ⟨split, children⟩ | ⟨-, -, kept⟩
    · -- the split shard is gone from the new layout
      have gone : parentShardId ∉ spliced shardIds index first second := by
        rw [mem_spliced distinct inside]
        rintro (same | same | ⟨-, kept⟩)
        · exact firstNew (same ▸ parentListed)
        · exact secondNew (same ▸ parentListed)
        · exact kept rfl
      simp [children, split, keepsOrSplits, gone]
    · simp [kept, keepsOrSplits]
  have covered : ∀ shardId, shardId ∈ spliced shardIds index first second ↔
      ∃ entry ∈ (derivedSplitMap shardIds parentShardId first second).entries, shardId ∈ entry.2 := by
    intro shardId
    rw [mem_spliced distinct inside]
    constructor
    · rintro (rfl | rfl | ⟨listed, kept⟩)
      · exact ⟨_, split_mem_derivedSplitMap, by simp⟩
      · exact ⟨_, split_mem_derivedSplitMap, by simp⟩
      · exact ⟨_, kept_mem_derivedSplitMap listed kept, List.mem_singleton_self _⟩
    · rintro ⟨entry, member, mine⟩
      rcases mem_derivedSplitMap member with ⟨-, children⟩ | ⟨kept, listed, children⟩
      · rw [children] at mine
        rcases List.mem_pair.mp mine with rfl | rfl
        · exact Or.inl rfl
        · exact Or.inr (Or.inl rfl)
      · rw [children, List.mem_singleton] at mine
        exact Or.inr (Or.inr ⟨mine ▸ listed, mine ▸ kept⟩)
  obtain ⟨shardsParentMap, validated, parents⟩ := validateAndDeriveShardParentMapV2_eq_some
    (nodup_spliced distinct differ firstNew secondNew) childrenDistinct shaped covered
  refine ⟨shardsParentMap, validated, fun child parent => (parents child parent).trans ?_⟩
  constructor
  · rintro ⟨entry, member, rfl, mine⟩
    rcases mem_derivedSplitMap member with ⟨split, children⟩ | ⟨kept, listed, children⟩
    · rw [children] at mine
      exact Or.inl ⟨split, List.mem_pair.mp mine⟩
    · rw [children, List.mem_singleton] at mine
      exact Or.inr ⟨kept, listed, mine⟩
  · rintro (⟨rfl, mine⟩ | ⟨kept, listed, rfl⟩)
    · exact ⟨_, split_mem_derivedSplitMap, rfl, by simpa using mine⟩
    · exact ⟨_, kept_mem_derivedSplitMap listed kept, rfl, List.mem_singleton_self _⟩

end SplitMap

namespace ShardLayout

/-- What deriving needs of its base layout. `ShardLayout::v2` asserts sorted boundaries and one
more shard than boundaries of every layout it builds (`v2_shaped`), and every V1 layout has one
more shard; the shard ids must also be distinct and leave room in a `u64` for two more above the
largest. -/
structure Derivable (layout : ShardLayout) : Prop where
  sorted : layout.boundaryAccounts.Pairwise (· ≤ ·)
  shaped : layout.shardIds.length = layout.boundaryAccounts.length + 1
  distinct : layout.shardIds.Nodup
  room : ∀ shardId ∈ layout.shardIds, shardId.toNat + 2 < 2 ^ 64

/-- A layout `ShardLayout::v2` builds can be derived from once its ids are distinct and leave
room for two more. -/
theorem Derivable.of_v2 {boundaryAccounts : List AccountId} {shardIds : List ShardId}
    {shardsSplitMap : Option ShardsSplitMapV2} {layout : ShardLayout}
    (built : v2 boundaryAccounts shardIds shardsSplitMap = some layout) (distinct : shardIds.Nodup)
    (room : ∀ shardId ∈ shardIds, shardId.toNat + 2 < 2 ^ 64) : layout.Derivable := by
  obtain ⟨boundaries, ids, shaped, sorted⟩ := v2_shaped built
  exact ⟨boundaries ▸ sorted, by rw [ids, boundaries, shaped], ids ▸ distinct, ids ▸ room⟩

/-- Every V1 layout with sorted boundaries can be derived from, short of `2 ^ 64 - 2` shards. -/
theorem Derivable.of_V1 {accounts : List AccountId} {toParentShardMap : Option (List ShardId)}
    (sorted : accounts.Pairwise (· ≤ ·)) (small : accounts.length + 3 < 2 ^ 64) :
    (V1 accounts toParentShardMap).Derivable := by
  have exact : ∀ index ∈ List.range (accounts.length + 1), (UInt64.ofNat index).toNat = index :=
    fun index member => by
      have := List.mem_range.mp member
      rw [UInt64.toNat_ofNat', Nat.mod_eq_of_lt (by omega)]
  refine ⟨sorted, by simp [shardIds, numShards, ShardLayout.boundaryAccounts], ?_, ?_⟩
  · refine List.nodup_range.map_on fun first firstIn second secondIn same => ?_
    have := congrArg UInt64.toNat same
    rwa [exact first firstIn, exact second secondIn] at this
  · intro shardId member
    obtain ⟨index, indexIn, rfl⟩ := List.mem_map.mp member
    have := List.mem_range.mp indexIn
    rw [exact index indexIn]
    simp only [numShards] at this
    omega

/-- The layout `derive_shard_layout` builds: the new boundary sorted in, the shard it falls in
replaced by two new ones, and the parent map of `validate_derivedSplitMap`. -/
theorem deriveShardLayout_eq {base : ShardLayout} {newBoundaryAccount : AccountId}
    (derivable : base.Derivable) (fresh : newBoundaryAccount ∉ base.boundaryAccounts) :
    ∃ maxShardId parentShardId shardsParentMap,
      base.shardIds.max? = some maxShardId ∧
      base.shardIds[shardIdIndex newBoundaryAccount base.boundaryAccounts]? = some parentShardId ∧
      base.deriveShardLayout newBoundaryAccount =
        some (V2 ⟨(base.boundaryAccounts ++ [newBoundaryAccount]).mergeSort (fun a b => decide (a ≤ b)),
            spliced base.shardIds (shardIdIndex newBoundaryAccount base.boundaryAccounts)
              (maxShardId + 1) (maxShardId + 2)⟩
          (idToIndexMapOf (spliced base.shardIds (shardIdIndex newBoundaryAccount base.boundaryAccounts)
            (maxShardId + 1) (maxShardId + 2)))
          (some shardsParentMap)) ∧
      ∀ child parent, shardsParentMap.lookup child = some parent ↔
        (parent = parentShardId ∧ (child = maxShardId + 1 ∨ child = maxShardId + 2)) ∨
          (parent ≠ parentShardId ∧ parent ∈ base.shardIds ∧ child = parent) := by
  set k := shardIdIndex newBoundaryAccount base.boundaryAccounts
  have inside : k < base.shardIds.length := by
    have := shardIdIndex_le_length newBoundaryAccount base.boundaryAccounts
    rw [derivable.shaped]
    omega
  have located : ((base.boundaryAccounts ++ [newBoundaryAccount]).mergeSort
      (fun a b => decide (a ≤ b))).findIdx? (· == newBoundaryAccount) = some k := by
    rw [mergeSort_append_boundary newBoundaryAccount derivable.sorted,
      findIdx?_insert fun member => fresh (List.mem_of_mem_take member),
      List.length_take_of_le (shardIdIndex_le_length _ _)]
  obtain ⟨maxShardId, found⟩ : ∃ maxShardId, base.shardIds.max? = some maxShardId :=
    Option.isSome_iff_exists.mp (List.isSome_max?_iff.mpr (List.ne_nil_of_length_pos (by omega)))
  have room := derivable.room _ (List.max?_mem found)
  obtain ⟨differ, firstNew, secondNew⟩ := newShards_fresh found room
  obtain ⟨shardsParentMap, validated, parents⟩ :=
    validate_derivedSplitMap derivable.distinct inside differ firstNew secondNew
  have lengths : (spliced base.shardIds k (maxShardId + 1) (maxShardId + 2)).length =
      ((base.boundaryAccounts ++ [newBoundaryAccount]).mergeSort (fun a b => decide (a ≤ b))).length + 1 := by
    have shaped := derivable.shaped
    rw [List.length_mergeSort, spliced]
    simp only [List.length_append, List.length_take, List.length_drop, List.length_cons,
      List.length_nil]
    omega
  have built := v2_eq_some lengths (List.pairwise_mergeSort' (· ≤ ·) _) validated
  refine ⟨maxShardId, _, shardsParentMap, found, List.getElem?_eq_getElem inside, ?_, parents⟩
  have fits : ¬2 ^ 64 ≤ maxShardId.toNat + 2 := by omega
  simp only [deriveShardLayout, if_neg fresh, located, found, Option.bind_eq_bind, Option.bind_some,
    fits, if_false, List.getElem?_eq_getElem inside]
  exact built

/-- Where the new boundaries and the spliced ids send an account: where the old ones did, but
into the new shard on its side of the new boundary when it fell in the split one. -/
theorem spliced_getElem?_shardIdIndex {boundaries : List AccountId} {shardIds : List ShardId}
    (newBoundary accountId : AccountId) (first second : ShardId)
    (sorted : boundaries.Pairwise (· ≤ ·)) (shaped : shardIds.length = boundaries.length + 1) :
    (spliced shardIds (shardIdIndex newBoundary boundaries) first second)[shardIdIndex accountId
        ((boundaries ++ [newBoundary]).mergeSort (fun a b => decide (a ≤ b)))]? =
      if shardIdIndex accountId boundaries = shardIdIndex newBoundary boundaries then
        some (if accountId < newBoundary then first else second)
      else shardIds[shardIdIndex accountId boundaries]? := by
  have inside : shardIdIndex newBoundary boundaries < shardIds.length := by
    have := shardIdIndex_le_length newBoundary boundaries
    omega
  rw [mergeSort_append_boundary newBoundary sorted, shardIdIndex_insert,
    getElem?_spliced _ _ _ _ inside]
  by_cases before : shardIdIndex accountId boundaries < shardIdIndex newBoundary boundaries
  · simp [before, Nat.ne_of_lt before]
  · by_cases same : shardIdIndex accountId boundaries = shardIdIndex newBoundary boundaries
    · by_cases below : accountId < newBoundary
      · simp [same, below]
      · simp [same, below]
    · -- past the split shard every index moves up by one
      have notSecond : shardIdIndex accountId boundaries + 1 ≠ shardIdIndex newBoundary boundaries + 1 :=
        fun moved => same (Nat.succ_injective moved)
      have passes : ¬(shardIdIndex accountId boundaries < shardIdIndex newBoundary boundaries ∨
          shardIdIndex accountId boundaries = shardIdIndex newBoundary boundaries ∧
            accountId < newBoundary) := by
        simp [before, same]
      rw [if_neg passes, if_neg (by omega), if_neg (by omega), if_neg notSecond, if_neg same,
        Nat.add_sub_cancel]

/-- Deriving refines the base layout: every account's new shard has its old shard as parent, an
account keeps its shard unless that is the one split, where it goes to the new shard on its side
of the new boundary, and the derived layout's ids are distinct and inverse to its indices. -/
theorem deriveShardLayout_refines (base : ShardLayout) (newBoundaryAccount : AccountId)
    (derivable : base.Derivable) (fresh : newBoundaryAccount ∉ base.boundaryAccounts) :
    ∃ derived maxShardId, base.deriveShardLayout newBoundaryAccount = some derived ∧
      base.shardIds.max? = some maxShardId ∧
      (∀ accountId, ∃ shardId parentShardId, derived.accountIdToShardId accountId = some shardId ∧
        base.accountIdToShardId accountId = some parentShardId ∧
        derived.getParentShardId shardId = some (.ok parentShardId)) ∧
      (∀ accountId shardId, base.accountIdToShardId accountId = some shardId →
        derived.accountIdToShardId accountId =
          if base.accountIdToShardId newBoundaryAccount = some shardId then
            some (if accountId < newBoundaryAccount then maxShardId + 1 else maxShardId + 2)
          else some shardId) ∧
      derived.shardIds.Nodup ∧
      ∀ shardIndex shardId, derived.getShardId shardIndex = .ok shardId ↔
        derived.getShardIndex shardId = .ok shardIndex := by
  obtain ⟨maxShardId, parentShardId, shardsParentMap, found, parentAt, derivedEq, parents⟩ :=
    deriveShardLayout_eq derivable fresh
  obtain ⟨differ, firstNew, secondNew⟩ :=
    newShards_fresh found (derivable.room _ (List.max?_mem found))
  have distinct : (spliced base.shardIds (shardIdIndex newBoundaryAccount base.boundaryAccounts)
      (maxShardId + 1) (maxShardId + 2)).Nodup :=
    nodup_spliced derivable.distinct differ firstNew secondNew
  have inside : ∀ accountId, shardIdIndex accountId base.boundaryAccounts < base.shardIds.length :=
    fun accountId => by
      have := shardIdIndex_le_length accountId base.boundaryAccounts
      rw [derivable.shaped]
      omega
  have splitAt := List.getElem?_eq_getElem (inside newBoundaryAccount)
  rw [parentAt, Option.some_inj] at splitAt
  -- an account's old shard is the split one exactly when it stops where the new boundary does
  have split : ∀ accountId,
      base.shardIds[shardIdIndex accountId base.boundaryAccounts]? = some parentShardId ↔
        shardIdIndex accountId base.boundaryAccounts =
          shardIdIndex newBoundaryAccount base.boundaryAccounts := by
    intro accountId
    rw [← parentAt, List.getElem?_inj (inside accountId) derivable.distinct]
  have sends := fun accountId => spliced_getElem?_shardIdIndex newBoundaryAccount accountId
    (maxShardId + 1) (maxShardId + 2) derivable.sorted derivable.shaped
  refine ⟨_, maxShardId, derivedEq, found, fun accountId => ?_, fun accountId shardId old => ?_,
    distinct, fun shardIndex shardId => ?_⟩
  · obtain ⟨oldShardId, was⟩ :
        ∃ oldShardId, base.shardIds[shardIdIndex accountId base.boundaryAccounts]? = some oldShardId :=
      ⟨_, List.getElem?_eq_getElem (inside accountId)⟩
    have oldMember : oldShardId ∈ base.shardIds := List.mem_of_getElem? was
    have now := sends accountId
    by_cases same : shardIdIndex accountId base.boundaryAccounts =
        shardIdIndex newBoundaryAccount base.boundaryAccounts
    · rw [if_pos same] at now
      have isParent : oldShardId = parentShardId :=
        Option.some_inj.mp (was.symm.trans ((split accountId).mpr same))
      refine ⟨_, oldShardId, now, by rw [accountIdToShardId_eq, was],
        getParentShardId_V2 _ _ _ ?_ ((parents _ _).mpr (Or.inl ⟨isParent, ?_⟩))⟩
      · rw [mem_spliced derivable.distinct (inside newBoundaryAccount)]
        split <;> simp
      · split <;> simp
    · rw [if_neg same, was] at now
      have kept : oldShardId ≠ parentShardId := fun parent => same ((split accountId).mp (parent ▸ was))
      refine ⟨_, oldShardId, now, by rw [accountIdToShardId_eq, was],
        getParentShardId_V2 _ _ _ ?_ ((parents _ _).mpr (Or.inr ⟨kept, oldMember, rfl⟩))⟩
      rw [mem_spliced derivable.distinct (inside newBoundaryAccount)]
      exact Or.inr (Or.inr ⟨oldMember, splitAt ▸ kept⟩)
  · rw [accountIdToShardId_eq] at old
    rw [accountIdToShardId_eq base newBoundaryAccount, parentAt]
    simp only [Option.some_inj]
    refine (sends accountId).trans ?_
    by_cases same : shardIdIndex accountId base.boundaryAccounts =
        shardIdIndex newBoundaryAccount base.boundaryAccounts
    · have isParent : parentShardId = shardId :=
        Option.some_inj.mp (((split accountId).mpr same).symm.trans old)
      rw [if_pos same, if_pos isParent]
    · have kept : parentShardId ≠ shardId := fun parent => same ((split accountId).mp (parent ▸ old))
      rw [if_neg same, if_neg kept, old]
  · rw [getShardId_V2, getShardIndex_V2, lookup_idToIndexMapOf distinct]

/-- The account id `a`, a boundary for the runs below. -/
def sampleBoundary : AccountId := AccountId.ofLetter 97 AccountId.lower_a

theorem deriveShardLayout_refines_oneShard :
    (V1 [] none).Derivable ∧ sampleBoundary ∉ (V1 [] none).boundaryAccounts ∧
      ∃ derived, (V1 [] none).deriveShardLayout sampleBoundary = some derived ∧
        derived.shardIds.Nodup := by
  have derivable : (V1 [] none).Derivable := by
    refine ⟨List.Pairwise.nil, by decide, by decide, fun shardId member => ?_⟩
    -- the one shard has id 0
    obtain ⟨index, below, rfl⟩ := List.mem_map.mp member
    obtain rfl : index = 0 := by
      simp only [List.mem_range, numShards, List.length_nil] at below
      omega
    rw [show (UInt64.ofNat 0).toNat = 0 from rfl]
    have wide := Nat.lt_two_pow_self (n := 64)
    omega
  have fresh : sampleBoundary ∉ (V1 [] none).boundaryAccounts := List.not_mem_nil
  obtain ⟨derived, -, derivedEq, -, -, -, distinct, -⟩ :=
    deriveShardLayout_refines _ _ derivable fresh
  exact ⟨derivable, fresh, derived, derivedEq, distinct⟩

/-- Two V2 layouts that pass every assert of `ShardLayout::v2` and that deriving panics on: one
whose shard has id `u64::MAX`, where the new ids overflow, and one that repeats a shard id, where
the split shard's id is still in the new layout. -/
theorem deriveShardLayout_panics :
    (∃ base, v2 [] [18446744073709551615] none = some base ∧
      base.deriveShardLayout sampleBoundary = none) ∧
    (∃ base, v2 [sampleBoundary] [0, 0] none = some base ∧
      base.deriveShardLayout (AccountId.ofLetter 98 ⟨by decide, by decide⟩) = none) := by
  refine ⟨⟨V2 ⟨[], [18446744073709551615]⟩ (idToIndexMapOf [18446744073709551615]) none,
    by simp [v2], by simp [deriveShardLayout, boundaryAccounts, shardIds]⟩, ?_⟩
  have sorted : ([sampleBoundary, AccountId.ofLetter 98 ⟨by decide, by decide⟩].mergeSort
      fun a b => decide (a ≤ b)) = [sampleBoundary, AccountId.ofLetter 98 ⟨by decide, by decide⟩] :=
    List.mergeSort_eq_self (· ≤ ·) (by decide)
  have located : [sampleBoundary, AccountId.ofLetter 98 ⟨by decide, by decide⟩].findIdx?
      (· == AccountId.ofLetter 98 ⟨by decide, by decide⟩) = some 1 := by decide
  have largest : max (0 : ShardId) 0 = 0 := rfl
  -- the split shard `0` has children, yet is still a shard of the new layout
  have rejected : validateSplitEntry [0, 1, 2] ∅ ⟨0, [1, 2]⟩ = none := rfl
  refine ⟨V2 ⟨[sampleBoundary], [0, 0]⟩ (idToIndexMapOf [0, 0]) none, by simp [v2], ?_⟩
  simp [deriveShardLayout, boundaryAccounts, shardIds, sorted, located, largest, v2,
    validateAndDeriveShardParentMapV2, rejected]

end ShardLayout

end Nearcore
