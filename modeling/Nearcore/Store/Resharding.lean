import Nearcore.Primitives.ShardLayout
import Nearcore.Library.ListLex
import Nearcore.Library.Except

/-! Key ranges kept by each child of a shard split (`core/store/src/trie/ops/resharding.rs`,
`boundary_account_to_intervals`). Each range lies within one column, so a key is
kept exactly when the range of its own column holds it; for account-keyed columns
that is a comparison of the account with the boundary account. Last, `retain_decision`, which
tells for the subtree of a key whether the ranges keep all of it, none of it, or must be asked
again below. -/
namespace Nearcore

inductive RetainMode where
  | left
  | right
  deriving DecidableEq

/-- `std::ops::Range`: `start` is included, `stop` (Rust's `end`) is not. -/
structure Range (α : Type) where
  start : α
  stop : α

def Range.contains [LE α] [LT α] (range : Range α) (x : α) : Prop := range.start ≤ x ∧ x < range.stop

section
attribute [local simp] Range.contains
end

instance [LE α] [LT α] [DecidableLE α] [DecidableLT α] (range : Range α) (x : α) :
    Decidable (range.contains x) :=
  inferInstanceAs (Decidable (range.start ≤ x ∧ x < range.stop))

def appendKey (trieKey : UInt8) (boundaryAccount : AccountId) : List UInt8 :=
  trieKey :: boundaryAccount.bytes

section
attribute [local simp] appendKey
end

def getIntervalForSplitKeys (boundaryAccount : AccountId) (retainMode : RetainMode) (column : UInt8) :
    Range (List UInt8) :=
  match retainMode with
  | .left => ⟨[column], appendKey column boundaryAccount⟩
  | .right => ⟨appendKey column boundaryAccount, [column + 1]⟩

section
attribute [local simp] getIntervalForSplitKeys
end

def getIntervalForCopyToBothChildren (column : UInt8) : Range (List UInt8) := ⟨[column], [column + 1]⟩

def getIntervalForCopyToOneChild (retainMode : RetainMode) (column : UInt8) : Option (Range (List UInt8)) :=
  match retainMode with
  | .left => some ⟨[column], [column + 1]⟩
  | .right => none

section
attribute [local simp] getIntervalForCopyToOneChild
end

def copyToBothColumns : List UInt8 :=
  [Col.delayedReceiptOrIndices, Col.promiseYieldIndices, Col.promiseYieldTimeout,
    Col.bandwidthSchedulerState, Col.globalContractCode]

section
attribute [local simp] copyToBothColumns
end

def copyToOneColumns : List UInt8 :=
  [Col.bufferedReceiptIndices, Col.bufferedReceipt, Col.bufferedReceiptGroupsQueueData,
    Col.bufferedReceiptGroupsQueueItem]

section
attribute [local simp] copyToOneColumns
end

/-- The body of the loop over `ALL_COLUMNS_WITH_NAMES`; an error is the panic on an
unhandled column. -/
def columnIntervals (boundaryAccount : AccountId) (retainMode : RetainMode) :
    UInt8 × String → Except String (List (Range (List UInt8)))
  | (column, name) =>
    if (column, name) ∈ Col.columnsWithAccountIdInKey then
      .ok [getIntervalForSplitKeys boundaryAccount retainMode column]
    else if column ∈ copyToBothColumns then .ok [getIntervalForCopyToBothChildren column]
    else if column ∈ copyToOneColumns then .ok (getIntervalForCopyToOneChild retainMode column).toList
    else .error ("Unhandled trie key type: " ++ name)

section
attribute [local simp] columnIntervals
end

def collectIntervals (boundaryAccount : AccountId) (retainMode : RetainMode) :
    List (UInt8 × String) → Except String (List (Range (List UInt8)))
  | [] => .ok []
  | entry :: rest => do
    let here ← columnIntervals boundaryAccount retainMode entry
    let later ← collectIntervals boundaryAccount retainMode rest
    pure (here ++ later)

section
attribute [local simp] collectIntervals
end

def boundaryAccountToIntervals (boundaryAccount : AccountId) (retainMode : RetainMode) :
    Except String (List (Range (List UInt8))) :=
  collectIntervals boundaryAccount retainMode Col.allColumnsWithNames

/-- The key is kept by the child of `retainMode`: the intervals are produced and one holds it. -/
def Retained (boundaryAccount : AccountId) (retainMode : RetainMode) (key : List UInt8) : Prop :=
  ∃ intervals, boundaryAccountToIntervals boundaryAccount retainMode = .ok intervals ∧
    ∃ range ∈ intervals, range.contains key

theorem collectIntervals_mem {boundaryAccount : AccountId} {retainMode : RetainMode}
    (entries : List (UInt8 × String)) (intervals : List (Range (List UInt8)))
    (collected : collectIntervals boundaryAccount retainMode entries = .ok intervals)
    (range : Range (List UInt8)) :
    range ∈ intervals ↔ ∃ entry ∈ entries, ∃ here,
      columnIntervals boundaryAccount retainMode entry = .ok here ∧ range ∈ here := by
  induction entries generalizing intervals with
  | nil =>
    simp only [collectIntervals, Except.ok.injEq] at collected
    simp [← collected]
  | cons entry rest ih =>
    cases first : columnIntervals boundaryAccount retainMode entry with
    | error message => simp [collectIntervals, first] at collected
    | ok here =>
      cases second : collectIntervals boundaryAccount retainMode rest with
      | error message => simp [collectIntervals, first, second] at collected
      | ok later =>
        have same : intervals = here ++ later := by
          simp only [collectIntervals, first, second] at collected
          exact (Except.ok.inj collected).symm
        subst same
        simp only [List.mem_append, ih later second, List.mem_cons, exists_eq_or_imp, first,
          Except.ok.injEq, exists_eq_left']

/-- The intervals of every listed column are produced; nothing panics. -/
theorem columnIntervals_ok (boundaryAccount : AccountId) (retainMode : RetainMode)
    (entry : UInt8 × String) (listed : entry ∈ Col.allColumnsWithNames) :
    ∃ here, columnIntervals boundaryAccount retainMode entry = .ok here := by
  simp only [Col.allColumnsWithNames, List.mem_cons, List.not_mem_nil, or_false] at listed
  rcases listed with rfl | rfl | rfl | rfl | rfl | rfl | rfl | rfl | rfl | rfl | rfl | rfl | rfl | rfl |
    rfl | rfl | rfl | rfl <;>
    simp [columnIntervals, Col.columnsWithAccountIdInKey, copyToBothColumns, copyToOneColumns, Col.account,
      Col.contractCode, Col.accessKey, Col.receivedData, Col.postponedReceiptId, Col.pendingDataCount,
      Col.postponedReceipt, Col.delayedReceiptOrIndices, Col.contractData, Col.promiseYieldIndices,
      Col.promiseYieldTimeout, Col.promiseYieldReceipt, Col.bufferedReceiptIndices, Col.bufferedReceipt,
      Col.bandwidthSchedulerState, Col.bufferedReceiptGroupsQueueData, Col.bufferedReceiptGroupsQueueItem,
      Col.globalContractCode]

theorem collectIntervals_ok (boundaryAccount : AccountId) (retainMode : RetainMode)
    (entries : List (UInt8 × String)) (listed : ∀ entry ∈ entries, entry ∈ Col.allColumnsWithNames) :
    ∃ intervals, collectIntervals boundaryAccount retainMode entries = .ok intervals := by
  induction entries with
  | nil => exact ⟨[], rfl⟩
  | cons entry rest ih =>
    obtain ⟨here, first⟩ := columnIntervals_ok boundaryAccount retainMode entry (listed entry List.mem_cons_self)
    obtain ⟨later, second⟩ := ih (fun e member => listed e (List.mem_cons_of_mem entry member))
    exact ⟨here ++ later, by simp [collectIntervals, first, second]⟩

theorem boundaryAccountToIntervals_ok (boundaryAccount : AccountId) (retainMode : RetainMode) :
    ∃ intervals, boundaryAccountToIntervals boundaryAccount retainMode = .ok intervals :=
  collectIntervals_ok boundaryAccount retainMode _ (fun _ listed => listed)


/-- Every column byte is listed once, with one name. -/
theorem allColumns_unique (first second : UInt8 × String) (inFirst : first ∈ Col.allColumnsWithNames)
    (inSecond : second ∈ Col.allColumnsWithNames) (sameColumn : first.1 = second.1) : first = second := by
  have table : ∀ a ∈ Col.allColumnsWithNames, ∀ b ∈ Col.allColumnsWithNames, a.1 = b.1 → a = b := by
    decide
  exact table first inFirst second inSecond sameColumn

theorem allColumns_small (entry : UInt8 × String) (listed : entry ∈ Col.allColumnsWithNames) :
    entry.1.toNat < 255 := by
  revert entry
  decide

theorem accountColumns_listed (entry : UInt8 × String) (listed : entry ∈ Col.columnsWithAccountIdInKey) :
    entry ∈ Col.allColumnsWithNames := by
  revert entry
  decide

/-- A key between `c :: s` and either `c :: s'` or `[c + 1]` starts with `c`. -/
theorem head_eq_of_bounds {c d : UInt8} {s s' t : List UInt8} (small : c.toNat < 255)
    (lower : c :: s ≤ d :: t) (upper : d :: t < c :: s' ∨ d :: t < [c + 1]) : d = c := by
  have notBelow : ¬ d < c := by
    intro below
    exact lower (List.cons_lt_cons_iff.mpr (Or.inl below))
  have successor : (c + 1).toNat = c.toNat + 1 := by
    rw [UInt8.toNat_add]
    simp only [UInt8.toNat_one]
    omega
  have notAbove : d.toNat ≤ c.toNat := by
    rcases upper with upper | upper
    · rcases List.cons_lt_cons_iff.mp upper with below | ⟨same, _⟩
      · exact Nat.le_of_lt (UInt8.lt_iff_toNat_lt.mp below)
      · rw [same]
    · rcases List.cons_lt_cons_iff.mp upper with below | ⟨_, tooShort⟩
      · have := UInt8.lt_iff_toNat_lt.mp below
        omega
      · exact absurd tooShort (List.not_lt_nil t)
  have notBelowNat : ¬ d.toNat < c.toNat := fun below => notBelow (UInt8.lt_iff_toNat_lt.mpr below)
  apply UInt8.toNat_inj.mp
  omega

/-- Each interval of a column is bounded by that column's byte. -/
theorem columnIntervals_bounds (boundaryAccount : AccountId) (retainMode : RetainMode) (column : UInt8)
    (name : String) (here : List (Range (List UInt8)))
    (produced : columnIntervals boundaryAccount retainMode (column, name) = .ok here)
    (range : Range (List UInt8)) (member : range ∈ here) :
    (∃ s, range.start = column :: s) ∧ ∃ s, range.stop = column :: s ∨ range.stop = [column + 1] := by
  simp only [columnIntervals] at produced
  split at produced
  · rw [← Except.ok.inj produced, List.mem_singleton] at member
    subst member
    cases retainMode with
    | left => exact ⟨⟨[], rfl⟩, boundaryAccount.bytes, Or.inl rfl⟩
    | right => exact ⟨⟨boundaryAccount.bytes, rfl⟩, [], Or.inr rfl⟩
  · split at produced
    · rw [← Except.ok.inj produced, List.mem_singleton] at member
      subst member
      exact ⟨⟨[], rfl⟩, [], Or.inr rfl⟩
    · split at produced
      · rw [← Except.ok.inj produced] at member
        cases retainMode with
        | left =>
          rw [getIntervalForCopyToOneChild, Option.toList_some, List.mem_singleton] at member
          subst member
          exact ⟨⟨[], rfl⟩, [], Or.inr rfl⟩
        | right => simp [getIntervalForCopyToOneChild] at member
      · cases produced

/-- A key of a listed column is retained exactly when an interval of its own column holds it. -/
theorem retained_iff_column (boundaryAccount : AccountId) (retainMode : RetainMode) (column : UInt8)
    (name : String) (tail : List UInt8) (listed : (column, name) ∈ Col.allColumnsWithNames) :
    Retained boundaryAccount retainMode (column :: tail) ↔
      ∃ here, columnIntervals boundaryAccount retainMode (column, name) = .ok here ∧
        ∃ range ∈ here, range.contains (column :: tail) := by
  obtain ⟨intervals, produced⟩ := boundaryAccountToIntervals_ok boundaryAccount retainMode
  constructor
  · rintro ⟨found, same, range, member, holds⟩
    rw [produced, Except.ok.injEq] at same
    subst same
    obtain ⟨entry, entryListed, here, entryProduced, inHere⟩ :=
      (collectIntervals_mem _ _ produced range).mp member
    obtain ⟨⟨s, start⟩, s', stop⟩ := columnIntervals_bounds boundaryAccount retainMode entry.1 entry.2 here
      entryProduced range inHere
    have small := allColumns_small entry entryListed
    have lower : entry.1 :: s ≤ column :: tail := by
      rw [← start]
      exact holds.1
    have upper : column :: tail < entry.1 :: s' ∨ column :: tail < [entry.1 + 1] := by
      rcases stop with stop | stop
      · exact Or.inl (stop ▸ holds.2)
      · exact Or.inr (stop ▸ holds.2)
    have sameColumn : column = entry.1 := head_eq_of_bounds small lower upper
    have sameEntry : (column, name) = entry :=
      allColumns_unique (column, name) entry listed entryListed sameColumn
    subst sameEntry
    exact ⟨here, entryProduced, range, inHere, holds⟩
  · rintro ⟨here, columnProduced, range, inHere, holds⟩
    have member : range ∈ intervals :=
      (collectIntervals_mem _ _ produced range).mpr ⟨(column, name), listed, here, columnProduced, inHere⟩
    exact ⟨intervals, produced, range, member, holds⟩

theorem column_lt_succ {column : UInt8} (small : column.toNat < 255) : column < column + 1 := by
  rw [UInt8.lt_iff_toNat_lt, UInt8.toNat_add]
  simp only [UInt8.toNat_one]
  omega

/-- An account-keyed key opens with its column and the account; what follows the
account is empty or starts with a separator. -/
def AccountTail (rest : List UInt8) : Prop := rest = [] ∨ ∃ s tail, rest = s :: tail ∧ s.toNat ≤ 44

theorem append_tail_lt_iff (accountId boundaryAccount : AccountId) {rest : List UInt8}
    (shape : AccountTail rest) : accountId.bytes ++ rest < boundaryAccount.bytes ↔ accountId < boundaryAccount := by
  rcases shape with rfl | ⟨s, tail, rfl, small⟩
  · rw [List.append_nil, AccountId.lt_def]
  · exact List.append_cons_lt_iff (fun x member => separator_below (boundaryAccount.valid x member) small)

theorem splitInterval_left_contains (boundaryAccount accountId : AccountId) (column : UInt8)
    {rest : List UInt8} (shape : AccountTail rest) :
    (getIntervalForSplitKeys boundaryAccount .left column).contains (column :: (accountId.bytes ++ rest)) ↔
      accountId < boundaryAccount := by
  have lower : [column] ≤ column :: (accountId.bytes ++ rest) := List.singleton_le_cons column _
  simp only [getIntervalForSplitKeys, Range.contains, appendKey, lower, true_and, List.cons_lt_cons_self]
  exact append_tail_lt_iff accountId boundaryAccount shape

theorem splitInterval_right_contains (boundaryAccount accountId : AccountId) (column : UInt8)
    {rest : List UInt8} (shape : AccountTail rest) (small : column.toNat < 255) :
    (getIntervalForSplitKeys boundaryAccount .right column).contains (column :: (accountId.bytes ++ rest)) ↔
      boundaryAccount ≤ accountId := by
  have upper : column :: (accountId.bytes ++ rest) < [column + 1] :=
    List.cons_lt_singleton _ (column_lt_succ small)
  simp only [getIntervalForSplitKeys, Range.contains, appendKey, upper, and_true]
  rw [← List.not_lt, List.cons_lt_cons_self, append_tail_lt_iff accountId boundaryAccount shape]
  exact Iff.rfl

theorem columnIntervals_account (boundaryAccount : AccountId) (retainMode : RetainMode) (column : UInt8)
    (name : String) (accountColumn : (column, name) ∈ Col.columnsWithAccountIdInKey) :
    columnIntervals boundaryAccount retainMode (column, name) =
      .ok [getIntervalForSplitKeys boundaryAccount retainMode column] := by
  simp [columnIntervals, accountColumn]

/-- Keys of account-keyed columns go left exactly when the account sorts below the
boundary account, and right otherwise. -/
theorem retained_account_key (boundaryAccount accountId : AccountId) (key : TrieKey)
    (owner : key.getAccountId = some accountId) :
    ∃ bytes, key.toVec = some bytes ∧
      (Retained boundaryAccount .left bytes ↔ accountId < boundaryAccount) ∧
      (Retained boundaryAccount .right bytes ↔ boundaryAccount ≤ accountId) := by
  obtain ⟨column, name, rest, encoded, accountColumn, shape⟩ := toVec_of_getAccountId key accountId owner
  have listed := accountColumns_listed _ accountColumn
  have small := allColumns_small _ listed
  refine ⟨_, encoded, ?_, ?_⟩
  · rw [retained_iff_column _ _ column name _ listed, columnIntervals_account _ _ column name accountColumn]
    simp only [Except.ok.injEq, exists_eq_left', List.mem_singleton, exists_eq_left]
    exact splitInterval_left_contains boundaryAccount accountId column shape
  · rw [retained_iff_column _ _ column name _ listed, columnIntervals_account _ _ column name accountColumn]
    simp only [Except.ok.injEq, exists_eq_left', List.mem_singleton, exists_eq_left]
    exact splitInterval_right_contains boundaryAccount accountId column shape small

theorem copyColumns_not_account (entry : UInt8 × String) (listed : entry ∈ Col.allColumnsWithNames) :
    (entry.1 ∈ copyToBothColumns → entry ∉ Col.columnsWithAccountIdInKey) ∧
    (entry.1 ∈ copyToOneColumns → entry ∉ Col.columnsWithAccountIdInKey ∧ entry.1 ∉ copyToBothColumns) := by
  have table : ∀ e ∈ Col.allColumnsWithNames,
      (e.1 ∈ copyToBothColumns → e ∉ Col.columnsWithAccountIdInKey) ∧
      (e.1 ∈ copyToOneColumns → e ∉ Col.columnsWithAccountIdInKey ∧ e.1 ∉ copyToBothColumns) := by
    decide
  exact table entry listed

/-- A key of the given column lies in `[column, column + 1)`. -/
theorem columnRange_contains (column : UInt8) (tail : List UInt8) (small : column.toNat < 255) :
    (⟨[column], [column + 1]⟩ : Range (List UInt8)).contains (column :: tail) :=
  ⟨List.singleton_le_cons column tail, List.cons_lt_singleton tail (column_lt_succ small)⟩

theorem toVec_column_listed (key : TrieKey) (column : UInt8) (tail : List UInt8)
    (encoded : key.toVec = some (column :: tail)) : ∃ name, (column, name) ∈ Col.allColumnsWithNames := by
  obtain ⟨head, rest, same, listedColumn⟩ := toVec_head key _ encoded
  obtain ⟨entry, listed, headEq⟩ := List.mem_map.mp listedColumn
  have sameColumn : column = entry.1 := by
    rw [headEq]
    exact (List.cons.inj same).1
  exact ⟨entry.2, by rw [sameColumn]; exact listed⟩

/-- Keys of the delayed-receipt, yield, scheduler and global-code columns go to both children. -/
theorem retained_copy_to_both (boundaryAccount : AccountId) (retainMode : RetainMode) (key : TrieKey)
    (column : UInt8) (tail : List UInt8) (encoded : key.toVec = some (column :: tail))
    (copied : column ∈ copyToBothColumns) : Retained boundaryAccount retainMode (column :: tail) := by
  obtain ⟨name, listed⟩ := toVec_column_listed key column tail encoded
  have notAccount := (copyColumns_not_account _ listed).1 copied
  rw [retained_iff_column _ _ column name tail listed]
  refine ⟨[getIntervalForCopyToBothChildren column], ?_, _, List.mem_singleton_self _, ?_⟩
  · simp [columnIntervals, notAccount, copied]
  · exact columnRange_contains column tail (allColumns_small _ listed)

/-- Buffered-receipt keys stay with the left child only. -/
theorem retained_copy_to_one (boundaryAccount : AccountId) (key : TrieKey) (column : UInt8)
    (tail : List UInt8) (encoded : key.toVec = some (column :: tail)) (copied : column ∈ copyToOneColumns) :
    Retained boundaryAccount .left (column :: tail) ∧ ¬ Retained boundaryAccount .right (column :: tail) := by
  obtain ⟨name, listed⟩ := toVec_column_listed key column tail encoded
  obtain ⟨notAccount, notBoth⟩ := (copyColumns_not_account _ listed).2 copied
  have produced (retainMode : RetainMode) : columnIntervals boundaryAccount retainMode (column, name) =
      .ok (getIntervalForCopyToOneChild retainMode column).toList := by
    simp [columnIntervals, notAccount, notBoth, copied]
  constructor
  · rw [retained_iff_column _ _ column name tail listed, produced]
    exact ⟨_, rfl, _, List.mem_singleton_self _, columnRange_contains column tail (allColumns_small _ listed)⟩
  · rw [retained_iff_column _ _ column name tail listed, produced]
    simp [getIntervalForCopyToOneChild]

/-- What the two children of the split at `boundaryAccount` keep, set against the
layout in which `boundaryAccount` is boundary `i`: account-keyed records by the
account's side of the boundary (shards up to `i` are left of it), copied columns on
both sides, buffered receipts on the left only. -/
def SplitMatchesLayout (boundaryAccount : AccountId) (layout : ShardLayoutV2) (i : Nat) : Prop :=
  (∀ (key : TrieKey) (accountId : AccountId), key.getAccountId = some accountId →
    ∃ bytes, key.toVec = some bytes ∧
      (Retained boundaryAccount .left bytes ↔ accountId < boundaryAccount) ∧
      (Retained boundaryAccount .right bytes ↔ boundaryAccount ≤ accountId) ∧
      (Retained boundaryAccount .left bytes ↔ shardIdIndex accountId layout.boundaryAccounts ≤ i) ∧
      (Retained boundaryAccount .right bytes ↔ i < shardIdIndex accountId layout.boundaryAccounts)) ∧
  (∀ (key : TrieKey) (column : UInt8) (tail : List UInt8), key.toVec = some (column :: tail) →
    column ∈ copyToBothColumns →
      Retained boundaryAccount .left (column :: tail) ∧ Retained boundaryAccount .right (column :: tail)) ∧
  (∀ (key : TrieKey) (column : UInt8) (tail : List UInt8), key.toVec = some (column :: tail) →
    column ∈ copyToOneColumns →
      Retained boundaryAccount .left (column :: tail) ∧ ¬ Retained boundaryAccount .right (column :: tail))

theorem boundary_intervals_match_layout (boundaryAccount : AccountId) (layout : ShardLayoutV2) (i : Nat)
    (sorted : layout.boundaryAccounts.Pairwise (· < ·))
    (atSplit : layout.boundaryAccounts[i]? = some boundaryAccount) :
    SplitMatchesLayout boundaryAccount layout i := by
  refine ⟨?_, ?_, ?_⟩
  · intro key accountId owner
    obtain ⟨bytes, encoded, left, right⟩ := retained_account_key boundaryAccount accountId key owner
    have index := shardIdIndex_le_iff accountId boundaryAccount layout.boundaryAccounts i sorted atSplit
    refine ⟨bytes, encoded, left, right, left.trans index.symm, ?_⟩
    rw [right, ← Nat.not_le, index]
    exact Iff.rfl
  · intro key column tail encoded copied
    exact ⟨retained_copy_to_both boundaryAccount .left key column tail encoded copied,
      retained_copy_to_both boundaryAccount .right key column tail encoded copied⟩
  · intro key column tail encoded copied
    exact retained_copy_to_one boundaryAccount key column tail encoded copied

/-- The account `b`, used to exercise the split theorem. -/
def accountB : AccountId where
  bytes := [98]
  valid := by
    intro c member
    rw [List.mem_singleton] at member
    subst member
    exact Or.inl ⟨by decide, by decide⟩

theorem boundary_intervals_match_layout_at_b :
    [accountB].Pairwise (· < ·) ∧ [accountB][0]? = some accountB ∧
      SplitMatchesLayout accountB ⟨[accountB], [0, 1]⟩ 0 :=
  ⟨List.pairwise_singleton _ _, rfl,
    boundary_intervals_match_layout accountB ⟨[accountB], [0, 1]⟩ 0 (List.pairwise_singleton _ _) rfl⟩

/-- `RetainDecision`. -/
inductive RetainDecision where
  | retainAll
  | discardAll
  | descend
  deriving DecidableEq

/-- The loop of `retain_decision` over the intervals, with its flag `should_descend`. -/
def retainDecisionLoop (key : List UInt8) : Bool → List (Range (List UInt8)) → RetainDecision
  | shouldDescend, [] => if shouldDescend then .descend else .discardAll
  | shouldDescend, interval :: intervals =>
    -- the key can be extended to a boundary: its subtree may hold keys on both sides
    if key <+: interval.start ∨ key <+: interval.stop then retainDecisionLoop key true intervals
    else if interval.start ≤ key ∧ key < interval.stop then .retainAll
    else retainDecisionLoop key shouldDescend intervals

section
attribute [local simp] retainDecisionLoop
end

/-- `retain_decision`. -/
def retainDecision (key : List UInt8) (intervals : List (Range (List UInt8))) : RetainDecision :=
  retainDecisionLoop key false intervals

example : retainDecision [0] [⟨[0, 2], [3]⟩] = .descend := by decide

example : retainDecision [4] [⟨[0, 2], [3]⟩] = .discardAll := by decide

/-- The loop keeps everything only at an interval that holds the key and whose boundaries it
is not a prefix of. -/
theorem retainDecisionLoop_retainAll {key : List UInt8} :
    ∀ {shouldDescend : Bool} {intervals : List (Range (List UInt8))},
      retainDecisionLoop key shouldDescend intervals = .retainAll →
        ∃ range ∈ intervals, ¬ key <+: range.stop ∧ range.contains key
  | shouldDescend, [], decided => by
    unfold retainDecisionLoop at decided
    split at decided <;> cases decided
  | shouldDescend, interval :: intervals, decided => by
    unfold retainDecisionLoop at decided
    split at decided
    · obtain ⟨range, member, found⟩ := retainDecisionLoop_retainAll decided
      exact ⟨range, List.mem_cons_of_mem _ member, found⟩
    · rename_i boundary
      split at decided
      · rename_i inside
        exact ⟨interval, List.mem_cons_self, fun front => boundary (Or.inr front), inside⟩
      · obtain ⟨range, member, found⟩ := retainDecisionLoop_retainAll decided
        exact ⟨range, List.mem_cons_of_mem _ member, found⟩

/-- The loop discards everything only when the flag is down and no interval holds the key or
has it as a prefix of a boundary. -/
theorem retainDecisionLoop_discardAll {key : List UInt8} :
    ∀ {shouldDescend : Bool} {intervals : List (Range (List UInt8))},
      retainDecisionLoop key shouldDescend intervals = .discardAll →
        shouldDescend = false ∧ ∀ range ∈ intervals,
          ¬ key <+: range.start ∧ ¬ key <+: range.stop ∧ ¬ range.contains key
  | shouldDescend, [], decided => by
    unfold retainDecisionLoop at decided
    split at decided
    · cases decided
    · rename_i down
      exact ⟨by simpa using down, fun range absent => absurd absent List.not_mem_nil⟩
  | shouldDescend, interval :: intervals, decided => by
    unfold retainDecisionLoop at decided
    split at decided
    · -- the flag went up, and no later interval takes it down
      cases (retainDecisionLoop_discardAll decided).1
    · rename_i boundary
      split at decided
      · cases decided
      · rename_i outside
        obtain ⟨down, others⟩ := retainDecisionLoop_discardAll decided
        refine ⟨down, fun range member => ?_⟩
        rcases List.mem_cons.mp member with rfl | later
        · exact ⟨fun front => boundary (Or.inl front), fun front => boundary (Or.inr front), outside⟩
        · exact others range later

/-- An interval that holds a key it does not have as a prefix of its end holds every
extension of the key. -/
theorem Range.contains_append {range : Range (List UInt8)} {key : List UInt8}
    (notPrefix : ¬ key <+: range.stop) (inside : range.contains key) (extension : List UInt8) :
    range.contains (key ++ extension) :=
  ⟨List.le_append_of_le extension inside.1, List.append_lt_of_lt extension inside.2 notPrefix⟩

/-- An interval that does not hold a key, and none of whose boundaries has it as a prefix,
holds no extension of the key: the key is below the start and stays below when extended, or
it is at the end or above and stays there. -/
theorem Range.not_contains_append {range : Range (List UInt8)} {key : List UInt8}
    (notStart : ¬ key <+: range.start) (outside : ¬ range.contains key) (extension : List UInt8) :
    ¬ range.contains (key ++ extension) := by
  rintro ⟨above, below⟩
  by_cases started : range.start ≤ key
  · exact outside ⟨started, Classical.not_not.mp fun stopped => List.le_append_of_le extension stopped below⟩
  · exact above (List.append_lt_of_lt extension (Classical.not_not.mp started) notStart)

/-- `retain_decision` is sound: when it keeps a subtree, an interval holds every key in it,
and when it drops one, no interval holds any key in it. -/
theorem retainDecision_sound (key : List UInt8) (intervals : List (Range (List UInt8))) :
    (retainDecision key intervals = .retainAll →
      ∀ extension, ∃ range ∈ intervals, range.contains (key ++ extension)) ∧
    (retainDecision key intervals = .discardAll →
      ∀ extension, ∀ range ∈ intervals, ¬ range.contains (key ++ extension)) := by
  constructor
  · intro decided extension
    obtain ⟨range, member, notPrefix, inside⟩ := retainDecisionLoop_retainAll decided
    exact ⟨range, member, Range.contains_append notPrefix inside extension⟩
  · intro decided extension range member
    obtain ⟨notStart, -, outside⟩ := (retainDecisionLoop_discardAll decided).2 range member
    exact Range.not_contains_append notStart outside extension

/-- The subtree of the key `[1]` is kept whole by the interval `[0, 2]..[3]`. -/
theorem retainDecision_sound_one :
    retainDecision [1] [⟨[0, 2], [3]⟩] = .retainAll ∧
      ∀ extension, ∃ range ∈ [(⟨[0, 2], [3]⟩ : Range (List UInt8))], range.contains ([1] ++ extension) :=
  ⟨by decide, (retainDecision_sound _ _).1 (by decide)⟩

end Nearcore
