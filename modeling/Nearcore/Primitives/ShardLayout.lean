import Nearcore.Primitives.TrieKey

/-! Account-to-shard assignment of `ShardLayoutV2` (`core/primitives/src/shard_layout.rs`).
Only the two vectors the assignment reads are modelled; the id/index maps, the
split and parent maps and the version are left out. -/
namespace Nearcore

structure ShardLayoutV2 where
  boundaryAccounts : List AccountId
  shardIds : List ShardId

/-- The value of `shard_id_index` when the loop of `account_id_to_shard_id` stops:
it passes every boundary up to the first one above the account. -/
def shardIdIndex (accountId : AccountId) : List AccountId → Nat
  | [] => 0
  | boundaryAccount :: rest => if accountId < boundaryAccount then 0 else shardIdIndex accountId rest + 1

section
attribute [local simp] shardIdIndex
end

/-- `none` is the panic of indexing `shard_ids` out of range. -/
def ShardLayoutV2.accountIdToShardId (layout : ShardLayoutV2) (accountId : AccountId) : Option ShardId :=
  layout.shardIds[shardIdIndex accountId layout.boundaryAccounts]?

section
attribute [local simp] ShardLayoutV2.accountIdToShardId
end

theorem AccountId.lt_trans {a b c : AccountId} (first : a < b) (second : b < c) : a < c :=
  List.lt_trans (α := UInt8) first second

theorem AccountId.not_lt {a b : AccountId} : ¬a < b ↔ b ≤ a := List.not_lt

theorem AccountId.le_trans {a b c : AccountId} (first : a ≤ b) (second : b ≤ c) : a ≤ c :=
  List.le_trans (α := UInt8) first second

theorem AccountId.le_antisymm {a b : AccountId} (first : a ≤ b) (second : b ≤ a) : a = b :=
  AccountId.bytes_injective (List.le_antisymm first second)

theorem AccountId.le_of_lt {a b : AccountId} (lt : a < b) : a ≤ b :=
  AccountId.not_lt.mp (List.lt_asymm lt)

/-- Sorting accounts, as the layouts do, is sorting by a total order. -/
instance : Std.Total (· ≤ · : AccountId → AccountId → Prop) := ⟨fun a b => List.le_total a.bytes b.bytes⟩
instance : IsTrans AccountId (· ≤ ·) := ⟨fun _ _ _ => AccountId.le_trans⟩
instance : Std.Antisymm (· ≤ · : AccountId → AccountId → Prop) := ⟨fun _ _ => AccountId.le_antisymm⟩

theorem shardIdIndex_le_length (accountId : AccountId) (boundaries : List AccountId) :
    shardIdIndex accountId boundaries ≤ boundaries.length := by
  induction boundaries with
  | nil => exact Nat.le_refl 0
  | cons first rest ih =>
    unfold shardIdIndex
    split
    · exact Nat.zero_le _
    · simpa using ih

/-- The loop over two runs of boundaries stops in the first, or passes all of it. -/
theorem shardIdIndex_append (accountId : AccountId) (front back : List AccountId) :
    shardIdIndex accountId (front ++ back) =
      if shardIdIndex accountId front < front.length then shardIdIndex accountId front
      else front.length + shardIdIndex accountId back := by
  induction front with
  | nil => simp [shardIdIndex]
  | cons first rest ih =>
    by_cases below : accountId < first
    · simp [shardIdIndex, below]
    · simp only [List.cons_append, shardIdIndex, below, if_false, ih, List.length_cons]
      split <;> split <;> omega

/-- Every boundary the loop passes sorts at or below the account. -/
theorem not_lt_of_mem_take_shardIdIndex {accountId boundary : AccountId} {boundaries : List AccountId}
    (passed : boundary ∈ boundaries.take (shardIdIndex accountId boundaries)) :
    ¬accountId < boundary := by
  induction boundaries with
  | nil => simp at passed
  | cons first rest ih =>
    by_cases below : accountId < first
    · simp [shardIdIndex, below] at passed
    · rw [shardIdIndex, if_neg below, List.take_succ_cons, List.mem_cons] at passed
      rcases passed with rfl | passed
      · exact below
      · exact ih passed

/-- The boundary the loop stops at sorts above the account. -/
theorem lt_of_head?_drop_shardIdIndex {accountId boundary : AccountId} {boundaries : List AccountId}
    (stopped : (boundaries.drop (shardIdIndex accountId boundaries)).head? = some boundary) :
    accountId < boundary := by
  induction boundaries with
  | nil => simp at stopped
  | cons first rest ih =>
    by_cases below : accountId < first
    · simp only [shardIdIndex, below, if_true, List.drop_zero, List.head?_cons,
        Option.some.injEq] at stopped
      exact stopped ▸ below
    · rw [shardIdIndex, if_neg below, List.drop_succ_cons] at stopped
      exact ih stopped

/-- Where an account lands once a new boundary is inserted where the loop puts it: at the same
index, or one further when it passes the new boundary. -/
theorem shardIdIndex_insert (accountId newBoundary : AccountId) (boundaries : List AccountId) :
    shardIdIndex accountId (boundaries.take (shardIdIndex newBoundary boundaries) ++
        newBoundary :: boundaries.drop (shardIdIndex newBoundary boundaries)) =
      if shardIdIndex accountId boundaries < shardIdIndex newBoundary boundaries ∨
          shardIdIndex accountId boundaries = shardIdIndex newBoundary boundaries ∧
            accountId < newBoundary
      then shardIdIndex accountId boundaries else shardIdIndex accountId boundaries + 1 := by
  set k := shardIdIndex newBoundary boundaries with atNew
  have length : (boundaries.take k).length = k :=
    List.length_take_of_le (shardIdIndex_le_length newBoundary boundaries)
  have front := shardIdIndex_le_length accountId (boundaries.take k)
  rw [length] at front
  have whole := shardIdIndex_append accountId (boundaries.take k) (boundaries.drop k)
  rw [List.take_append_drop, length] at whole
  rw [shardIdIndex_append, whole, length]
  by_cases stops : shardIdIndex accountId (boundaries.take k) < k
  · simp [stops]
  · rw [if_neg stops, if_neg stops]
    by_cases below : accountId < newBoundary
    · -- the account also stops at the first old boundary past the new one
      have past : shardIdIndex accountId (boundaries.drop k) = 0 := by
        cases after : boundaries.drop k with
        | nil => rfl
        | cons next rest =>
          have above : newBoundary < next := lt_of_head?_drop_shardIdIndex (by rw [← atNew, after]; rfl)
          simp [shardIdIndex, AccountId.lt_trans below above]
      simp [below, past, shardIdIndex]
    · have passes : ¬(k + shardIdIndex accountId (boundaries.drop k) < k ∨
          k + shardIdIndex accountId (boundaries.drop k) = k ∧ accountId < newBoundary) := by
        rintro (less | ⟨-, lt⟩)
        · omega
        · exact below lt
      rw [if_neg passes, shardIdIndex, if_neg below]
      omega

/-- With sorted boundaries, the account lands at or left of boundary `i` exactly
when it sorts below that boundary. -/
theorem shardIdIndex_le_iff (accountId boundary : AccountId) (boundaries : List AccountId) (i : Nat)
    (sorted : boundaries.Pairwise (· < ·)) (atIndex : boundaries[i]? = some boundary) :
    shardIdIndex accountId boundaries ≤ i ↔ accountId < boundary := by
  induction boundaries generalizing i with
  | nil => simp at atIndex
  | cons first rest ih =>
    obtain ⟨firstBelow, restSorted⟩ := List.pairwise_cons.mp sorted
    cases i with
    | zero =>
      have same : first = boundary := by simpa using atIndex
      subst same
      by_cases below : accountId < first <;> simp [shardIdIndex, below]
    | succ j =>
      have later : rest[j]? = some boundary := by simpa using atIndex
      have firstLt : first < boundary := firstBelow boundary (List.mem_of_getElem? later)
      by_cases below : accountId < first
      · simp [shardIdIndex, below, AccountId.lt_trans below firstLt]
      · simp [shardIdIndex, below, ih j restSorted later]

end Nearcore
