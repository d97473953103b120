import Nearcore.Library.AListSum
import Nearcore.Library.Except
import Nearcore.Epoch.ValidatorSelection

/-! Approvals and their trackers (`chain/chain/src/doomslug.rs`,
`core/primitives/src/block_header.rs`). A tracker counts the stake of the accounts whose
approval it holds in its witness, with the stakes it was created with; the trackers at one
target height keep one approval per account, the account's last, and drop a tracker whose
witness empties. Signatures are left out: an approval is its inner part, its target and its
account. Heights, and clock times in nanoseconds, are natural numbers. -/
namespace Nearcore

/-- `ApprovalInner`: an endorsement of the parent block, or a skip from the parent height. -/
inductive ApprovalInner where
  | endorsement (parentHash : CryptoHash)
  | skip (parentHeight : Nat)
  deriving DecidableEq, Repr

/-- `ApprovalInner::new`. -/
def ApprovalInner.new (parentHash : CryptoHash) (parentHeight targetHeight : Nat) : ApprovalInner :=
  if targetHeight = parentHeight + 1 then .endorsement parentHash else .skip parentHeight

section
attribute [local simp] ApprovalInner.new
end

/-- `Approval`, without its signature. -/
structure Approval where
  inner : ApprovalInner
  targetHeight : Nat
  accountId : AccountId
  deriving DecidableEq

/-- `Approval::new`, by the signer of `signer`. -/
def Approval.new (parentHash : CryptoHash) (parentHeight targetHeight : Nat) (signer : AccountId) :
    Approval :=
  ⟨ApprovalInner.new parentHash parentHeight targetHeight, targetHeight, signer⟩

section
attribute [local simp] Approval.new
end

/-- `ApprovalStake`, without the public key. -/
structure ApprovalStake where
  accountId : AccountId
  stakeThisEpoch : Balance
  stakeNextEpoch : Balance

/-- `DoomslugThresholdMode`. -/
inductive DoomslugThresholdMode where
  | noApprovals
  | twoThirds
  deriving DecidableEq, Repr

/-- `DoomslugBlockProductionReadiness`. -/
inductive DoomslugBlockProductionReadiness where
  | notReady
  | readySince (since : Nat)
  deriving DecidableEq, Repr

/-- The stakes of this and the next epoch, by account. -/
abbrev Stakes := AList fun _ : AccountId => Balance × Balance

/-- `DoomslugApprovalsTracker`: the approvals of one inner part at one target height. -/
structure DoomslugApprovalsTracker where
  witness : AList fun _ : AccountId => Approval × Nat
  accountIdToStakes : Stakes
  totalStakeThisEpoch : Balance
  approvedStakeThisEpoch : Balance
  totalStakeNextEpoch : Balance
  approvedStakeNextEpoch : Balance
  timePassedThreshold : Option Nat
  thresholdMode : DoomslugThresholdMode

namespace DoomslugApprovalsTracker

/-- `DoomslugApprovalsTracker::new`. -/
def new (accountIdToStakes : Stakes) (thresholdMode : DoomslugThresholdMode) : DoomslugApprovalsTracker where
  witness := ∅
  accountIdToStakes
  totalStakeThisEpoch := (accountIdToStakes.entries.map fun entry => entry.2.1).sum
  approvedStakeThisEpoch := 0
  totalStakeNextEpoch := (accountIdToStakes.entries.map fun entry => entry.2.2).sum
  approvedStakeNextEpoch := 0
  timePassedThreshold := none
  thresholdMode

section
attribute [local simp] new
end

/-- The stakes of an account, `(0, 0)` for one the tracker does not know. -/
def stakesOf (tracker : DoomslugApprovalsTracker) (accountId : AccountId) : Balance × Balance :=
  (tracker.accountIdToStakes.lookup accountId).getD (0, 0)

section
attribute [local simp] stakesOf
end

/-- The approved stake is more than two thirds of the total, in this epoch and in the next one
unless that has no stake; or no approvals are needed. -/
def PassesThreshold (tracker : DoomslugApprovalsTracker) : Prop :=
  (tracker.approvedStakeThisEpoch > tracker.totalStakeThisEpoch * 2 / 3 ∧
      (tracker.approvedStakeNextEpoch > tracker.totalStakeNextEpoch * 2 / 3 ∨ tracker.totalStakeNextEpoch = 0)) ∨
    tracker.thresholdMode = .noApprovals

instance (tracker : DoomslugApprovalsTracker) : Decidable tracker.PassesThreshold :=
  inferInstanceAs (Decidable ((_ ∧ (_ ∨ _)) ∨ _))

/-- `get_block_production_readiness`: past the threshold, the time it was first passed is kept. -/
def getBlockProductionReadiness (now : Nat) (tracker : DoomslugApprovalsTracker) :
    DoomslugApprovalsTracker × DoomslugBlockProductionReadiness :=
  if tracker.PassesThreshold then
    let since := tracker.timePassedThreshold.getD now
    ({ tracker with timePassedThreshold := some since }, .readySince since)
  else (tracker, .notReady)

section
attribute [local simp] getBlockProductionReadiness
end

theorem passesThreshold_of_ready {now since : Nat} {tracker : DoomslugApprovalsTracker}
    (ready : (tracker.getBlockProductionReadiness now).2 = .readySince since) : tracker.PassesThreshold := by
  unfold getBlockProductionReadiness at ready
  split at ready
  · assumption
  · cases ready

/-- `process_approval`: an account not yet in the witness is added with its stake. -/
def processApproval (now : Nat) (nowUtc : Nat) (approval : Approval) (tracker : DoomslugApprovalsTracker) :
    DoomslugApprovalsTracker × DoomslugBlockProductionReadiness :=
  let tracker :=
    if approval.accountId ∈ tracker.witness then tracker
    else
      let stakes := tracker.stakesOf approval.accountId
      { tracker with
        witness := tracker.witness.insert approval.accountId (approval, nowUtc)
        approvedStakeThisEpoch := tracker.approvedStakeThisEpoch + stakes.1
        approvedStakeNextEpoch := tracker.approvedStakeNextEpoch + stakes.2 }
  tracker.getBlockProductionReadiness now

section
attribute [local simp] processApproval
end

/-- `withdraw_approval`: the account's approval leaves the witness and its stake the approved
stake, by the `u128` subtraction that panics below zero. -/
def withdrawApproval (accountId : AccountId) (tracker : DoomslugApprovalsTracker) :
    Except String DoomslugApprovalsTracker :=
  match tracker.witness.lookup accountId with
  | none => .ok tracker
  | some (approval, _) =>
    let stakes := tracker.stakesOf approval.accountId
    if stakes.1 ≤ tracker.approvedStakeThisEpoch ∧ stakes.2 ≤ tracker.approvedStakeNextEpoch then
      .ok { tracker with
        witness := tracker.witness.erase accountId
        approvedStakeThisEpoch := tracker.approvedStakeThisEpoch - stakes.1
        approvedStakeNextEpoch := tracker.approvedStakeNextEpoch - stakes.2 }
    else .error "attempt to subtract with overflow"

section
attribute [local simp] withdrawApproval
end

/-- What a tracker is made with and no operation changes: its stakes, their totals and the
threshold mode. -/
def fixed (tracker : DoomslugApprovalsTracker) : Stakes × Balance × Balance × DoomslugThresholdMode :=
  (tracker.accountIdToStakes, tracker.totalStakeThisEpoch, tracker.totalStakeNextEpoch, tracker.thresholdMode)

section
attribute [local simp] fixed
end

@[simp] theorem getBlockProductionReadiness_fixed (now : Nat) (tracker : DoomslugApprovalsTracker) :
    (tracker.getBlockProductionReadiness now).1.fixed = tracker.fixed := by
  unfold getBlockProductionReadiness
  split <;> rfl

@[simp] theorem processApproval_fixed (now : Nat) (nowUtc : Nat) (approval : Approval)
    (tracker : DoomslugApprovalsTracker) : (tracker.processApproval now nowUtc approval).1.fixed = tracker.fixed := by
  unfold processApproval
  split
  · exact getBlockProductionReadiness_fixed now tracker
  · rw [getBlockProductionReadiness_fixed]
    rfl

theorem withdrawApproval_fixed {accountId : AccountId} {tracker tracker' : DoomslugApprovalsTracker}
    (withdrawn : tracker.withdrawApproval accountId = .ok tracker') : tracker'.fixed = tracker.fixed := by
  unfold withdrawApproval at withdrawn
  split at withdrawn
  · cases withdrawn
    rfl
  · dsimp only at withdrawn
    split at withdrawn
    · cases withdrawn
      rfl
    · cases withdrawn

@[simp] theorem getBlockProductionReadiness_witness (now : Nat) (tracker : DoomslugApprovalsTracker) :
    (tracker.getBlockProductionReadiness now).1.witness = tracker.witness := by
  unfold getBlockProductionReadiness
  split <;> rfl

@[simp] theorem getBlockProductionReadiness_accountIdToStakes (now : Nat) (tracker : DoomslugApprovalsTracker) :
    (tracker.getBlockProductionReadiness now).1.accountIdToStakes = tracker.accountIdToStakes := by
  unfold getBlockProductionReadiness
  split <;> rfl

@[simp] theorem getBlockProductionReadiness_approvedStakeThisEpoch (now : Nat)
    (tracker : DoomslugApprovalsTracker) :
    (tracker.getBlockProductionReadiness now).1.approvedStakeThisEpoch = tracker.approvedStakeThisEpoch := by
  unfold getBlockProductionReadiness
  split <;> rfl

@[simp] theorem getBlockProductionReadiness_approvedStakeNextEpoch (now : Nat)
    (tracker : DoomslugApprovalsTracker) :
    (tracker.getBlockProductionReadiness now).1.approvedStakeNextEpoch = tracker.approvedStakeNextEpoch := by
  unfold getBlockProductionReadiness
  split <;> rfl

theorem processApproval_witness (now : Nat) (nowUtc : Nat) (approval : Approval)
    (tracker : DoomslugApprovalsTracker) :
    (tracker.processApproval now nowUtc approval).1.witness =
      if approval.accountId ∈ tracker.witness then tracker.witness
      else tracker.witness.insert approval.accountId (approval, nowUtc) := by
  unfold processApproval
  split <;> simp

/-- The approved stake is the stake of the witness, each account counted once with the
tracker's own stakes; each approval in the witness is the approval of its key. -/
structure Tallied (tracker : DoomslugApprovalsTracker) : Prop where
  keyed : ∀ accountId entry, tracker.witness.lookup accountId = some entry → entry.1.accountId = accountId
  thisEpoch : tracker.approvedStakeThisEpoch = (tracker.witness.keys.map fun a => (tracker.stakesOf a).1).sum
  nextEpoch : tracker.approvedStakeNextEpoch = (tracker.witness.keys.map fun a => (tracker.stakesOf a).2).sum

theorem tallied_new (accountIdToStakes : Stakes) (thresholdMode : DoomslugThresholdMode) :
    (new accountIdToStakes thresholdMode).Tallied :=
  ⟨fun _ _ found => by simp [new, AList.lookup_empty] at found, by simp [new, AList.keys_empty],
    by simp [new, AList.keys_empty]⟩

theorem Tallied.getBlockProductionReadiness {tracker : DoomslugApprovalsTracker} (tallied : tracker.Tallied)
    (now : Nat) : (tracker.getBlockProductionReadiness now).1.Tallied := by
  refine ⟨?_, ?_, ?_⟩
  · simpa using tallied.keyed
  · simpa [stakesOf] using tallied.thisEpoch
  · simpa [stakesOf] using tallied.nextEpoch

/-- Adding an account not in the witness adds its stake. -/
theorem Tallied.processApproval {tracker : DoomslugApprovalsTracker} (tallied : tracker.Tallied)
    (now : Nat) (nowUtc : Nat) (approval : Approval) (absent : approval.accountId ∉ tracker.witness) :
    (tracker.processApproval now nowUtc approval).1.Tallied ∧
      (tracker.processApproval now nowUtc approval).1.witness =
        tracker.witness.insert approval.accountId (approval, nowUtc) ∧
      (tracker.processApproval now nowUtc approval).1.accountIdToStakes = tracker.accountIdToStakes := by
  let added : DoomslugApprovalsTracker := { tracker with
    witness := tracker.witness.insert approval.accountId (approval, nowUtc)
    approvedStakeThisEpoch := tracker.approvedStakeThisEpoch + (tracker.stakesOf approval.accountId).1
    approvedStakeNextEpoch := tracker.approvedStakeNextEpoch + (tracker.stakesOf approval.accountId).2 }
  have processed : tracker.processApproval now nowUtc approval = added.getBlockProductionReadiness now := by
    simp only [DoomslugApprovalsTracker.processApproval, if_neg absent]
    rfl
  have addedTallied : added.Tallied := by
    refine ⟨fun accountId entry found => ?_, ?_, ?_⟩
    · by_cases same : accountId = approval.accountId
      · subst same
        simp only [added, AList.lookup_insert, Option.some.injEq] at found
        rw [← found]
      · exact tallied.keyed accountId entry (by simpa [added, AList.lookup_insert_ne same] using found)
    · simp only [added]
      rw [AList.sum_keys_insert_of_notMem _ _ absent, tallied.thisEpoch]
      simp [stakesOf, Nat.add_comm]
    · simp only [added]
      rw [AList.sum_keys_insert_of_notMem _ _ absent, tallied.nextEpoch]
      simp [stakesOf, Nat.add_comm]
  rw [processed]
  exact ⟨addedTallied.getBlockProductionReadiness now, by simp [added], by simp [added]⟩

/-- Withdrawing never goes below zero: the approved stake holds the account's stake. -/
theorem Tallied.withdrawApproval {tracker : DoomslugApprovalsTracker} (tallied : tracker.Tallied)
    (accountId : AccountId) :
    ∃ tracker', tracker.withdrawApproval accountId = .ok tracker' ∧ tracker'.Tallied ∧
      tracker'.witness = tracker.witness.erase accountId ∧ tracker'.accountIdToStakes = tracker.accountIdToStakes := by
  cases found : tracker.witness.lookup accountId with
  | none =>
    have absent : accountId ∉ tracker.witness := AList.lookup_eq_none.mp found
    refine ⟨tracker, by simp [DoomslugApprovalsTracker.withdrawApproval, found], tallied, ?_, rfl⟩
    apply AList.ext
    simp [AList.erase, List.kerase_of_notMem_keys (mt AList.mem_keys.mpr absent)]
  | some entry =>
    obtain ⟨approval, arrived⟩ := entry
    have present : accountId ∈ tracker.witness := AList.lookup_isSome.mp (by simp [found])
    have own : approval.accountId = accountId := tallied.keyed accountId _ found
    -- the account's stake is a part of the approved stake
    have thisEpoch := AList.sum_keys_erase_add (fun a => (tracker.stakesOf a).1) present
    have nextEpoch := AList.sum_keys_erase_add (fun a => (tracker.stakesOf a).2) present
    rw [← tallied.thisEpoch] at thisEpoch
    rw [← tallied.nextEpoch] at nextEpoch
    let withdrawn : DoomslugApprovalsTracker := { tracker with
      witness := tracker.witness.erase accountId
      approvedStakeThisEpoch := tracker.approvedStakeThisEpoch - (tracker.stakesOf accountId).1
      approvedStakeNextEpoch := tracker.approvedStakeNextEpoch - (tracker.stakesOf accountId).2 }
    have covered : (tracker.stakesOf accountId).1 ≤ tracker.approvedStakeThisEpoch ∧
        (tracker.stakesOf accountId).2 ≤ tracker.approvedStakeNextEpoch :=
      ⟨thisEpoch ▸ Nat.le_add_left _ _, nextEpoch ▸ Nat.le_add_left _ _⟩
    refine ⟨withdrawn, ?_, ⟨fun b entry' found' => ?_, ?_, ?_⟩, rfl, rfl⟩
    · rw [DoomslugApprovalsTracker.withdrawApproval, found]
      dsimp only
      rw [own, if_pos covered]
    · by_cases same : b = accountId
      · subst same
        simp [withdrawn, AList.lookup_erase] at found'
      · exact tallied.keyed b entry' (by simpa [withdrawn, AList.lookup_erase_ne same] using found')
    · exact Nat.sub_eq_of_eq_add thisEpoch.symm
    · exact Nat.sub_eq_of_eq_add nextEpoch.symm

end DoomslugApprovalsTracker

/-- The stakes by account, as `process_approval` collects them from the list of stakes: a later
entry of an account replaces an earlier one. -/
def accountIdToStakes (stakes : List ApprovalStake) : Stakes :=
  stakes.foldl (fun map stake => map.insert stake.accountId (stake.stakeThisEpoch, stake.stakeNextEpoch)) ∅

section
attribute [local simp] accountIdToStakes
end

theorem keys_foldl_insert (stakes : List ApprovalStake) (map : Stakes)
    (distinct : (stakes.map ApprovalStake.accountId).Nodup) (fresh : ∀ stake ∈ stakes, stake.accountId ∉ map) :
    (stakes.foldl (fun map stake => map.insert stake.accountId (stake.stakeThisEpoch, stake.stakeNextEpoch))
      map).keys.length = map.keys.length + stakes.length := by
  induction stakes generalizing map with
  | nil => rfl
  | cons stake rest ih =>
    rw [List.map_cons, List.nodup_cons] at distinct
    have absent : stake.accountId ∉ map := fresh stake List.mem_cons_self
    rw [List.foldl_cons, ih _ distinct.2, AList.keys_insert, List.erase_of_not_mem (mt AList.mem_keys.mpr absent),
      List.length_cons, List.length_cons]
    · omega
    · intro other member
      rw [AList.mem_insert, not_or]
      refine ⟨fun same => distinct.1 ?_, fresh other (List.mem_cons_of_mem _ member)⟩
      rw [← same]
      exact List.mem_map_of_mem member

/-- With distinct accounts, the collected map has one key per stake: the `assert_eq` holds. -/
theorem accountIdToStakes_length {stakes : List ApprovalStake} (distinct : (stakes.map ApprovalStake.accountId).Nodup) :
    (accountIdToStakes stakes).keys.length = stakes.length := by
  rw [accountIdToStakes, keys_foldl_insert stakes ∅ distinct fun _ _ => AList.notMem_empty _, AList.keys_empty,
    List.length_nil, Nat.zero_add]

/-- `DoomslugApprovalsTrackersAtHeight`: the trackers of one target height by inner part, and
the inner part of each account's last approval. -/
structure DoomslugApprovalsTrackersAtHeight where
  approvalTrackers : ApprovalInner → Option DoomslugApprovalsTracker
  lastApprovalPerAccount : AccountId → Option ApprovalInner

namespace DoomslugApprovalsTrackersAtHeight

/-- `DoomslugApprovalsTrackersAtHeight::new`. -/
def new : DoomslugApprovalsTrackersAtHeight := ⟨fun _ => none, fun _ => none⟩

section
attribute [local simp] new
end

/-- The first part of `process_approval`: the account's last approval is withdrawn from its
tracker, which is removed once its witness is empty. -/
def withdrawLast (accountId : AccountId) (trackers : DoomslugApprovalsTrackersAtHeight) :
    Except String DoomslugApprovalsTrackersAtHeight :=
  match trackers.lastApprovalPerAccount accountId with
  | none => .ok trackers
  | some lastParent =>
    match trackers.approvalTrackers lastParent with
    | none => .ok trackers
    | some tracker => do
      let tracker ← tracker.withdrawApproval accountId
      pure { trackers with
        approvalTrackers := Function.update trackers.approvalTrackers lastParent
          (if tracker.witness.entries = [] then none else some tracker) }

section
attribute [local simp] withdrawLast
end

/-- The last part of `process_approval`: the approval becomes the account's last and goes to
the tracker of its inner part, made with these stakes if there is none. -/
def insertApproval (now : Nat) (nowUtc : Nat) (approval : Approval) (accountIdToStakes : Stakes)
    (thresholdMode : DoomslugThresholdMode) (trackers : DoomslugApprovalsTrackersAtHeight) :
    DoomslugApprovalsTrackersAtHeight × DoomslugBlockProductionReadiness :=
  let processed := ((trackers.approvalTrackers approval.inner).getD
    (.new accountIdToStakes thresholdMode)).processApproval now nowUtc approval
  ({ approvalTrackers := Function.update trackers.approvalTrackers approval.inner (some processed.1)
     lastApprovalPerAccount :=
       Function.update trackers.lastApprovalPerAccount approval.accountId (some approval.inner) },
    processed.2)

/-- `process_approval`: the account's last approval is withdrawn; an approval of an account
without a stake stops there. -/
def processApproval (now : Nat) (nowUtc : Nat) (approval : Approval) (stakes : List ApprovalStake)
    (thresholdMode : DoomslugThresholdMode) (trackers : DoomslugApprovalsTrackersAtHeight) :
    Except String (DoomslugApprovalsTrackersAtHeight × DoomslugBlockProductionReadiness) := do
  let trackers ← trackers.withdrawLast approval.accountId
  if (accountIdToStakes stakes).keys.length ≠ stakes.length then
    throw "assertion `left == right` failed"
  else if approval.accountId ∉ accountIdToStakes stakes then
    pure (trackers, .notReady)
  else
    pure (trackers.insertApproval now nowUtc approval (accountIdToStakes stakes) thresholdMode)

section
attribute [local simp] processApproval
end

section Invariant

variable {trackers trackers' : DoomslugApprovalsTrackersAtHeight}

/-- The accounting of one height is exact: an account in a witness has its last approval in that
tracker, no witness is empty, and each tracker's approved stake is the stake of its witness. -/
structure Exact (trackers : DoomslugApprovalsTrackersAtHeight) : Prop where
  last : ∀ inner tracker accountId, trackers.approvalTrackers inner = some tracker →
    accountId ∈ tracker.witness → trackers.lastApprovalPerAccount accountId = some inner
  nonempty : ∀ inner tracker, trackers.approvalTrackers inner = some tracker → tracker.witness.entries ≠ []
  tallied : ∀ inner tracker, trackers.approvalTrackers inner = some tracker → tracker.Tallied

/-- Every approval in a witness satisfies `P` with its tracker's inner part. -/
def Filed (P : ApprovalInner → Approval → Prop) (trackers : DoomslugApprovalsTrackersAtHeight) : Prop :=
  ∀ inner tracker accountId entry, trackers.approvalTrackers inner = some tracker →
    tracker.witness.lookup accountId = some entry → P inner entry.1

/-- Every tracker was made with the stakes, totals and mode `made`. -/
def Made (made : Stakes × Balance × Balance × DoomslugThresholdMode) (trackers : DoomslugApprovalsTrackersAtHeight) :
    Prop :=
  ∀ inner tracker, trackers.approvalTrackers inner = some tracker → tracker.fixed = made

/-- Each tracker of `trackers'` is the one of `trackers` at the same inner part, with what it
was made with and a part of its witness. -/
def Within (trackers' trackers : DoomslugApprovalsTrackersAtHeight) : Prop :=
  ∀ inner tracker', trackers'.approvalTrackers inner = some tracker' →
    ∃ tracker, trackers.approvalTrackers inner = some tracker ∧ tracker'.fixed = tracker.fixed ∧
      ∀ accountId entry, tracker'.witness.lookup accountId = some entry → tracker.witness.lookup accountId = some entry

theorem exact_new : new.Exact :=
  ⟨fun _ _ _ found => (by cases found), fun _ _ found => (by cases found), fun _ _ found => (by cases found)⟩

theorem filed_new (P : ApprovalInner → Approval → Prop) : new.Filed P :=
  fun _ _ _ _ found => by cases found

theorem made_new (made : Stakes × Balance × Balance × DoomslugThresholdMode) : new.Made made :=
  fun _ _ found => by cases found

theorem Filed.mono {P P' : ApprovalInner → Approval → Prop} (filed : trackers.Filed P)
    (weaker : ∀ inner approval, P inner approval → P' inner approval) : trackers.Filed P' :=
  fun inner tracker accountId entry found looked => weaker inner entry.1 (filed inner tracker accountId entry found looked)

/-- An account is in the witness of one tracker at most. -/
theorem Exact.unique (exact : trackers.Exact) {inner inner' : ApprovalInner} {tracker tracker' : DoomslugApprovalsTracker}
    {accountId : AccountId} (found : trackers.approvalTrackers inner = some tracker)
    (found' : trackers.approvalTrackers inner' = some tracker') (member : accountId ∈ tracker.witness)
    (member' : accountId ∈ tracker'.witness) : inner = inner' := by
  have last := exact.last inner tracker accountId found member
  rw [exact.last inner' tracker' accountId found' member'] at last
  exact (Option.some.inj last).symm

theorem Within.refl (trackers : DoomslugApprovalsTrackersAtHeight) : trackers.Within trackers :=
  fun _ tracker found => ⟨tracker, found, rfl, fun _ _ => id⟩

theorem Within.filed {P : ApprovalInner → Approval → Prop} (within : trackers'.Within trackers)
    (filed : trackers.Filed P) : trackers'.Filed P := by
  intro inner tracker' accountId entry found found'
  obtain ⟨tracker, original, -, lookups⟩ := within inner tracker' found
  exact filed inner tracker accountId entry original (lookups accountId entry found')

theorem Within.made {made : Stakes × Balance × Balance × DoomslugThresholdMode} (within : trackers'.Within trackers)
    (madeWith : trackers.Made made) : trackers'.Made made := by
  intro inner tracker' found
  obtain ⟨tracker, original, fixed, -⟩ := within inner tracker' found
  rw [fixed, madeWith inner tracker original]

/-- What a lookup in an updated map of trackers finds. -/
theorem found_update {trackers : ApprovalInner → Option DoomslugApprovalsTracker} {inner other : ApprovalInner}
    {value : Option DoomslugApprovalsTracker} {tracker : DoomslugApprovalsTracker}
    (found : Function.update trackers other value inner = some tracker) :
    (inner = other ∧ value = some tracker) ∨ (inner ≠ other ∧ trackers inner = some tracker) := by
  by_cases same : inner = other
  · subst same
    exact .inl ⟨rfl, by rwa [Function.update_self] at found⟩
  · exact .inr ⟨same, by rwa [Function.update_of_ne same] at found⟩

/-- Withdrawing the account's last approval never fails; afterwards the account is in no
witness, and the trackers are within the old ones. -/
theorem Exact.withdrawLast (exact : trackers.Exact) (accountId : AccountId) :
    ∃ trackers', trackers.withdrawLast accountId = .ok trackers' ∧ trackers'.Exact ∧
      trackers'.lastApprovalPerAccount = trackers.lastApprovalPerAccount ∧ trackers'.Within trackers ∧
      ∀ inner tracker, trackers'.approvalTrackers inner = some tracker → accountId ∉ tracker.witness := by
  cases last : trackers.lastApprovalPerAccount accountId with
  | none =>
    refine ⟨trackers, by simp [DoomslugApprovalsTrackersAtHeight.withdrawLast, last], exact, rfl, .refl _, ?_⟩
    intro inner tracker found member
    rw [exact.last inner tracker accountId found member] at last
    cases last
  | some lastParent =>
    -- an account in a witness is in the one of its last approval's tracker
    have elsewhere : ∀ inner tracker, trackers.approvalTrackers inner = some tracker →
        accountId ∈ tracker.witness → inner = lastParent := by
      intro inner tracker found member
      rw [exact.last inner tracker accountId found member] at last
      exact Option.some.inj last
    cases current : trackers.approvalTrackers lastParent with
    | none =>
      refine ⟨trackers, by simp [DoomslugApprovalsTrackersAtHeight.withdrawLast, last, current], exact, rfl,
        .refl _, fun inner tracker found member => ?_⟩
      rw [elsewhere inner tracker found member, current] at found
      cases found
    | some tracker =>
      obtain ⟨withdrawn, withdrew, tallied, witness, -⟩ := (exact.tallied lastParent tracker current).withdrawApproval accountId
      let kept : Option DoomslugApprovalsTracker := if withdrawn.witness.entries = [] then none else some withdrawn
      have keptSome : ∀ tracker', kept = some tracker' → tracker' = withdrawn ∧ withdrawn.witness.entries ≠ [] := by
        intro tracker' isKept
        by_cases empty : withdrawn.witness.entries = []
        · simp [kept, empty] at isKept
        · simp only [kept, if_neg empty, Option.some.injEq] at isKept
          exact ⟨isKept.symm, empty⟩
      refine ⟨{ trackers with approvalTrackers := Function.update trackers.approvalTrackers lastParent kept },
        by simp [DoomslugApprovalsTrackersAtHeight.withdrawLast, last, current, withdrew, kept], ⟨?_, ?_, ?_⟩, rfl, ?_, ?_⟩
      · intro inner tracker' b found member
        rcases found_update found with ⟨rfl, isKept⟩ | ⟨-, found⟩
        · obtain ⟨rfl, -⟩ := keptSome tracker' isKept
          rw [witness] at member
          exact exact.last inner tracker b current (AList.mem_erase.mp member).2
        · exact exact.last inner tracker' b found member
      · intro inner tracker' found
        rcases found_update found with ⟨-, isKept⟩ | ⟨-, found⟩
        · obtain ⟨rfl, nonempty⟩ := keptSome tracker' isKept
          exact nonempty
        · exact exact.nonempty inner tracker' found
      · intro inner tracker' found
        rcases found_update found with ⟨-, isKept⟩ | ⟨-, found⟩
        · rw [(keptSome tracker' isKept).1]
          exact tallied
        · exact exact.tallied inner tracker' found
      · intro inner tracker' found
        rcases found_update found with ⟨rfl, isKept⟩ | ⟨-, found⟩
        · obtain ⟨rfl, -⟩ := keptSome tracker' isKept
          refine ⟨tracker, current, DoomslugApprovalsTracker.withdrawApproval_fixed withdrew, fun b entry looked => ?_⟩
          rw [witness] at looked
          by_cases same : b = accountId
          · subst same
            simp [AList.lookup_erase] at looked
          · rwa [AList.lookup_erase_ne same] at looked
        · exact ⟨tracker', found, rfl, fun _ _ => id⟩
      · intro inner tracker' found member
        rcases found_update found with ⟨rfl, isKept⟩ | ⟨apart, found⟩
        · obtain ⟨rfl, -⟩ := keptSome tracker' isKept
          rw [witness] at member
          exact (AList.mem_erase.mp member).1 rfl
        · exact apart (elsewhere inner tracker' found member)

@[simp] theorem insertApproval_approvalTrackers (now : Nat) (nowUtc : Nat) (approval : Approval)
    (stakes : Stakes) (thresholdMode : DoomslugThresholdMode) :
    (trackers.insertApproval now nowUtc approval stakes thresholdMode).1.approvalTrackers =
      Function.update trackers.approvalTrackers approval.inner
        (some (((trackers.approvalTrackers approval.inner).getD (.new stakes thresholdMode)).processApproval
          now nowUtc approval).1) :=
  rfl

@[simp] theorem insertApproval_lastApprovalPerAccount (now : Nat) (nowUtc : Nat) (approval : Approval)
    (stakes : Stakes) (thresholdMode : DoomslugThresholdMode) :
    (trackers.insertApproval now nowUtc approval stakes thresholdMode).1.lastApprovalPerAccount =
      Function.update trackers.lastApprovalPerAccount approval.accountId (some approval.inner) :=
  rfl

/-- The insertion, of an account in no witness, keeps the accounting exact. -/
theorem Exact.insertApproval (exact : trackers.Exact) (now : Nat) (nowUtc : Nat) (approval : Approval)
    (stakes : Stakes) (thresholdMode : DoomslugThresholdMode)
    (absent : ∀ inner tracker, trackers.approvalTrackers inner = some tracker → approval.accountId ∉ tracker.witness) :
    (trackers.insertApproval now nowUtc approval stakes thresholdMode).1.Exact := by
  -- the tracker the approval goes to: the existing one, or a new one with an empty witness
  set tracker := (trackers.approvalTrackers approval.inner).getD (.new stakes thresholdMode) with chosen
  have fromOld : ∀ b ∈ tracker.witness, trackers.lastApprovalPerAccount b = some approval.inner := by
    intro b member
    cases current : trackers.approvalTrackers approval.inner with
    | none => simp [chosen, current, DoomslugApprovalsTracker.new, AList.mem_keys] at member
    | some existing => exact exact.last _ existing b current (by simpa [chosen, current] using member)
  have notThere : approval.accountId ∉ tracker.witness := by
    cases current : trackers.approvalTrackers approval.inner with
    | none => simp [chosen, current, DoomslugApprovalsTracker.new, AList.mem_keys]
    | some existing => simpa [chosen, current] using absent approval.inner existing current
  have tallied : tracker.Tallied := by
    cases current : trackers.approvalTrackers approval.inner with
    | none => simpa [chosen, current] using DoomslugApprovalsTracker.tallied_new stakes thresholdMode
    | some existing => simpa [chosen, current] using exact.tallied approval.inner existing current
  have inserted := tallied.processApproval now nowUtc approval notThere
  refine ⟨fun _ tracker' b found member => ?_, fun _ tracker' found => ?_, fun _ tracker' found => ?_⟩
  · rw [insertApproval_approvalTrackers] at found
    rw [insertApproval_lastApprovalPerAccount]
    rcases found_update found with ⟨rfl, isProcessed⟩ | ⟨apart, found⟩
    · cases isProcessed
      rw [inserted.2.1, AList.mem_insert] at member
      by_cases same : b = approval.accountId
      · rw [same, Function.update_self]
      · rw [Function.update_of_ne same, fromOld b (member.resolve_left same)]
    · have other : b ≠ approval.accountId := fun same => absent _ tracker' found (same ▸ member)
      rw [Function.update_of_ne other, exact.last _ tracker' b found member]
  · rw [insertApproval_approvalTrackers] at found
    rcases found_update found with ⟨-, isProcessed⟩ | ⟨-, found⟩
    · cases isProcessed
      rw [inserted.2.1]
      simp [AList.insert]
    · exact exact.nonempty _ tracker' found
  · rw [insertApproval_approvalTrackers] at found
    rcases found_update found with ⟨-, isProcessed⟩ | ⟨-, found⟩
    · cases isProcessed
      exact inserted.1
    · exact exact.tallied _ tracker' found

/-- The insertion files nothing but the new approval, under its inner part. -/
theorem Filed.insertApproval {P : ApprovalInner → Approval → Prop} (filed : trackers.Filed P) (now : Nat)
    (nowUtc : Nat) (approval : Approval) (stakes : Stakes) (thresholdMode : DoomslugThresholdMode)
    (holds : P approval.inner approval) : (trackers.insertApproval now nowUtc approval stakes thresholdMode).1.Filed P := by
  set tracker := (trackers.approvalTrackers approval.inner).getD (.new stakes thresholdMode) with chosen
  have fromOld : ∀ b entry, tracker.witness.lookup b = some entry → P approval.inner entry.1 := by
    intro b entry looked
    cases current : trackers.approvalTrackers approval.inner with
    | none => simp [chosen, current, DoomslugApprovalsTracker.new, AList.lookup_empty] at looked
    | some existing => exact filed _ existing b entry current (by simpa [chosen, current] using looked)
  intro _ tracker' b entry found looked
  rw [insertApproval_approvalTrackers] at found
  rcases found_update found with ⟨rfl, isProcessed⟩ | ⟨-, found⟩
  · cases isProcessed
    rw [DoomslugApprovalsTracker.processApproval_witness] at looked
    split at looked
    · exact fromOld b entry looked
    · by_cases same : b = approval.accountId
      · subst same
        rw [AList.lookup_insert, Option.some.injEq] at looked
        rw [← looked]
        exact holds
      · exact fromOld b entry (by rwa [AList.lookup_insert_ne same] at looked)
  · exact filed _ tracker' b entry found looked

/-- The insertion makes a new tracker only with the stakes and mode it is given. -/
theorem Made.insertApproval {made : Stakes × Balance × Balance × DoomslugThresholdMode} (madeWith : trackers.Made made)
    (now : Nat) (nowUtc : Nat) (approval : Approval) {stakes : Stakes} {thresholdMode : DoomslugThresholdMode}
    (fresh : (DoomslugApprovalsTracker.new stakes thresholdMode).fixed = made) :
    (trackers.insertApproval now nowUtc approval stakes thresholdMode).1.Made made := by
  intro _ tracker' found
  rw [insertApproval_approvalTrackers] at found
  rcases found_update found with ⟨-, isProcessed⟩ | ⟨-, found⟩
  · cases isProcessed
    rw [DoomslugApprovalsTracker.processApproval_fixed]
    cases current : trackers.approvalTrackers approval.inner with
    | none => simpa [current] using fresh
    | some existing => simpa [current] using madeWith _ existing current
  · exact madeWith _ tracker' found

/-- With distinct stakes `process_approval` never fails (no assertion, no withdrawal below
zero), keeps the accounting exact, files only the new approval and makes trackers only with
these stakes. -/
theorem Exact.processApproval (exact : trackers.Exact) (now : Nat) (nowUtc : Nat) (approval : Approval)
    {stakes : List ApprovalStake} (distinct : (stakes.map ApprovalStake.accountId).Nodup)
    (thresholdMode : DoomslugThresholdMode) :
    ∃ trackers' readiness, trackers.processApproval now nowUtc approval stakes thresholdMode = .ok (trackers', readiness) ∧
      trackers'.Exact ∧ (∀ P, trackers.Filed P → P approval.inner approval → trackers'.Filed P) ∧
      (∀ made, trackers.Made made → (DoomslugApprovalsTracker.new (accountIdToStakes stakes) thresholdMode).fixed = made →
        trackers'.Made made) := by
  obtain ⟨withdrawn, withdrew, exact', -, within, absent⟩ := exact.withdrawLast approval.accountId
  have length := accountIdToStakes_length distinct
  by_cases staked : approval.accountId ∈ accountIdToStakes stakes
  · refine ⟨_, (withdrawn.insertApproval now nowUtc approval (accountIdToStakes stakes) thresholdMode).2, ?_,
      exact'.insertApproval now nowUtc approval _ thresholdMode absent,
      fun P filed holds => (within.filed filed).insertApproval now nowUtc approval _ thresholdMode holds,
      fun made madeWith fresh => (within.made madeWith).insertApproval now nowUtc approval fresh⟩
    simp [DoomslugApprovalsTrackersAtHeight.processApproval, withdrew, length, staked]
  · refine ⟨withdrawn, .notReady, ?_, exact', fun P filed _ => within.filed filed,
      fun made madeWith _ => within.made madeWith⟩
    simp [DoomslugApprovalsTrackersAtHeight.processApproval, withdrew, length, staked]

section Replace

variable {inner : ApprovalInner} {tracker tracker' : DoomslugApprovalsTracker}
  (found : trackers.approvalTrackers inner = some tracker) (witness : tracker'.witness = tracker.witness)
include found witness

/-- Replacing a tracker by one with the same witness, as a readiness check does, keeps the
accounting exact when the new one is tallied. -/
theorem Exact.replace (exact : trackers.Exact) (tallied : tracker'.Tallied) :
    ({ trackers with approvalTrackers := Function.update trackers.approvalTrackers inner (some tracker') } :
      DoomslugApprovalsTrackersAtHeight).Exact := by
  refine ⟨fun _ other b updated member => ?_, fun _ other updated => ?_, fun _ other updated => ?_⟩
  · rcases found_update updated with ⟨rfl, replaced⟩ | ⟨-, updated⟩
    · cases replaced
      exact exact.last _ tracker b found (witness ▸ member)
    · exact exact.last _ other b updated member
  · rcases found_update updated with ⟨-, replaced⟩ | ⟨-, updated⟩
    · cases replaced
      rw [witness]
      exact exact.nonempty _ tracker found
    · exact exact.nonempty _ other updated
  · rcases found_update updated with ⟨-, replaced⟩ | ⟨-, updated⟩
    · cases replaced
      exact tallied
    · exact exact.tallied _ other updated

theorem within_replace (fixed : tracker'.fixed = tracker.fixed) :
    ({ trackers with approvalTrackers := Function.update trackers.approvalTrackers inner (some tracker') } :
      DoomslugApprovalsTrackersAtHeight).Within trackers := by
  intro _ other updated
  rcases found_update updated with ⟨rfl, replaced⟩ | ⟨-, updated⟩
  · cases replaced
    exact ⟨tracker, found, fixed, fun b entry looked => witness ▸ looked⟩
  · exact ⟨other, updated, rfl, fun _ _ => id⟩

end Replace

end Invariant

end DoomslugApprovalsTrackersAtHeight

end Nearcore
