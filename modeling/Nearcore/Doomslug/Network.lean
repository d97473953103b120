import Nearcore.Doomslug.Emission

/-! The protocol the fuzz test of Doomslug runs (`chain/chain/src/tests/doomslug.rs`): nodes
made with the two-thirds threshold, all starting from the first block, each with one account
that signs its approvals. In any order, a node's timer sends approvals; an approval sent by any
node is delivered to any node, any number of times or never; a node sets its tip to any produced
block above its tip; and a node whose check of a target says ready produces a block with a fresh
hash on its tip, as many as it likes. Clock readings are arbitrary.

What is kept along every run: each node's state says what `Emits` says of the approvals it sent;
the approvals of one account are ordered as `Approval.Ordered` says; every tracker holds only
approvals sent for its target and inner part, with exact accounting and the stakes of the test;
and every produced block has a certificate, the accounts of a tracker past the threshold when it
was made, whose approvals are in the history of sent ones for good. -/
namespace Nearcore

/-- A block of the test's tree: its hash, height and parent's hash, none for the first block. -/
structure Block where
  hash : CryptoHash
  height : Nat
  prevHash : Option CryptoHash

/-- The first block, at height 1. -/
def Block.genesis (hash : CryptoHash) : Block := ⟨hash, 1, none⟩

/-- The nodes, the approvals sent so far in order, and the blocks produced. -/
structure Network (ι : Type) where
  nodes : ι → Doomslug
  sent : List Approval
  blocks : List Block

/-- `ancestor` is `block` or an ancestor of it, through parents among `blocks`. -/
inductive Descends (blocks : List Block) (ancestor : Block) : Block → Prop
  | refl : Descends blocks ancestor ancestor
  | parent {block parent : Block} : parent ∈ blocks → block.prevHash = some parent.hash →
      Descends blocks ancestor parent → Descends blocks ancestor block

namespace Network

variable {ι : Type} (account : ι → AccountId) (stakes : List ApprovalStake)

/-- One step of the protocol. -/
inductive Step [DecidableEq ι] : Network ι → Network ι → Prop
  /-- An approval sent by any node arrives at `node`. -/
  | deliver (network : Network ι) (node : ι) {approval : Approval} (sent : approval ∈ network.sent) (now nowUtc : Nat)
      {doomslug : Doomslug}
      (processed : (network.nodes node).onApprovalMessage now nowUtc approval stakes = .ok doomslug) :
      Step network { network with nodes := Function.update network.nodes node doomslug }
  /-- `node` sets its tip to a produced block above it. -/
  | receive (network : Network ι) (node : ι) {block : Block} (produced : block ∈ network.blocks)
      (higher : (network.nodes node).tip.height < block.height) (now lastFinalHeight : Nat) :
      Step network { network with
        nodes := Function.update network.nodes node
          ((network.nodes node).setTip now block.hash block.height lastFinalHeight) }
  /-- The timer of `node` runs and its approvals are sent. -/
  | timer (network : Network ι) (node : ι) (now : Nat) :
      Step network { network with
        nodes := Function.update network.nodes node ((network.nodes node).processTimer now (some (account node))).2
        sent := network.sent ++ ((network.nodes node).processTimer now (some (account node))).1 }
  /-- `node` checks whether it can produce a block of a target. -/
  | check (network : Network ι) (node : ι) (now targetHeight : Nat) (hasEnoughChunks : Bool) :
      Step network { network with
        nodes := Function.update network.nodes node
          ((network.nodes node).readyToProduceBlock now targetHeight hasEnoughChunks).2 }
  /-- The check says ready, and `node` produces a block of the target on its tip. -/
  | produce (network : Network ι) (node : ι) (now targetHeight : Nat) (hasEnoughChunks : Bool) (hash : CryptoHash)
      (ready : ((network.nodes node).readyToProduceBlock now targetHeight hasEnoughChunks).1 = true)
      (above : (network.nodes node).tip.height < targetHeight) (fresh : ∀ block ∈ network.blocks, block.hash ≠ hash) :
      Step network { network with
        nodes := Function.update network.nodes node
          ((network.nodes node).readyToProduceBlock now targetHeight hasEnoughChunks).2
        blocks := network.blocks ++ [⟨hash, targetHeight, some (network.nodes node).tip.blockHash⟩] }

/-- The start of the test: no approval sent, only the first block, and every node made with the
two-thirds threshold and its tip set to the first block. -/
structure Started (genesisHash : CryptoHash) (network : Network ι) : Prop where
  sent : network.sent = []
  blocks : network.blocks = [Block.genesis genesisHash]
  nodes : ∀ node, ∃ created now largestTargetHeight endorsementDelay minDelay delayStep maxDelay chunkWaitMult
    lastFinalHeight, network.nodes node =
      (Doomslug.new created largestTargetHeight endorsementDelay minDelay delayStep maxDelay chunkWaitMult
        .twoThirds).setTip now genesisHash 1 lastFinalHeight

/-- The approvals `node` sent: those of its account. -/
def Own (network : Network ι) (node : ι) (approval : Approval) : Prop :=
  approval ∈ network.sent ∧ approval.accountId = account node

section
attribute [local simp] Own
end

/-- What every tracker of the test is made with: the test's stakes and the two-thirds mode. -/
def made : Stakes × Balance × Balance × DoomslugThresholdMode :=
  (DoomslugApprovalsTracker.new (accountIdToStakes stakes) .twoThirds).fixed

section
attribute [local simp] made
end

/-- What the trackers of every node keep: exact accounting, only approvals sent for the
tracker's target and inner part, and the test's stakes. -/
def Kept (network : Network ι) (height : Nat) (trackers : DoomslugApprovalsTrackersAtHeight) : Prop :=
  trackers.Exact ∧
    trackers.Filed (fun inner approval => approval.inner = inner ∧ approval.targetHeight = height ∧
      approval ∈ network.sent) ∧
    trackers.Made (made stakes)

/-- The stake of an account in this epoch, as the test's stakes give it. -/
def stakeThisEpoch (accountId : AccountId) : Balance :=
  (((accountIdToStakes stakes).lookup accountId).getD (0, 0)).1

section
attribute [local simp] stakeThisEpoch
end

/-- A certificate of `block` on `parent`: distinct accounts with more than two thirds of the
stake of this epoch, each of which sent an approval of the block's height from the parent. -/
def Certified (network : Network ι) (block parent : Block) : Prop :=
  ∃ voters : List AccountId, voters.Nodup ∧
    ((accountIdToStakes stakes).keys.map (stakeThisEpoch stakes)).sum * 2 / 3 < (voters.map (stakeThisEpoch stakes)).sum ∧
    ∀ accountId ∈ voters, ∃ approval ∈ network.sent, approval.accountId = accountId ∧
      approval.targetHeight = block.height ∧ approval.inner = ApprovalInner.new parent.hash parent.height block.height

/-- What holds along every run of the protocol. -/
structure Inv (network : Network ι) : Prop where
  emits : ∀ node, (network.nodes node).Emits (network.Own account node)
  tips : ∀ node, ∃ block ∈ network.blocks,
    block.hash = (network.nodes node).tip.blockHash ∧ block.height = (network.nodes node).tip.height
  ordered : network.sent.Pairwise fun earlier later => earlier.accountId = later.accountId → earlier.Ordered later
  kept : ∀ node, (network.nodes node).Tracked (network.Kept stakes)
  mode : ∀ node, (network.nodes node).thresholdMode = .twoThirds
  hashes : (network.blocks.map Block.hash).Nodup
  parents : ∀ block ∈ network.blocks, (block.prevHash = none ∧ block.height = 1) ∨
    ∃ parent ∈ network.blocks, block.prevHash = some parent.hash ∧ parent.height < block.height ∧
      network.Certified stakes block parent

variable {account stakes} {network : Network ι}

theorem inv_started {genesisHash : CryptoHash} (started : network.Started genesisHash) :
    network.Inv account stakes := by
  have nodes := started.nodes
  refine ⟨fun node => ?_, fun node => ?_, by rw [started.sent]; exact List.Pairwise.nil, fun node => ?_,
    fun node => ?_, by simp [started.blocks], fun block member => ?_⟩
  · obtain ⟨_, _, _, _, _, _, _, _, _, made⟩ := nodes node
    rw [made]
    exact (Doomslug.emits_setTip _ _ _ _ _).mono fun _ own => by simp [Own, started.sent] at own
  · obtain ⟨_, _, _, _, _, _, _, _, _, made⟩ := nodes node
    exact ⟨Block.genesis genesisHash, by simp [started.blocks], by rw [made]; rfl, by rw [made]; rfl⟩
  · obtain ⟨_, _, _, _, _, _, _, _, _, made⟩ := nodes node
    rw [made]
    exact (Doomslug.tracked_new _ _ _ _ _ _ _ _ _).setTip _ _ _ _
  · obtain ⟨_, _, _, _, _, _, _, _, _, made⟩ := nodes node
    rw [made]
    rfl
  · rw [started.blocks, List.mem_singleton] at member
    exact .inl ⟨by rw [member]; rfl, by rw [member]; rfl⟩

/-- A step that changes only the state of `node` keeps the invariant when the new state keeps
that node's part of it. -/
theorem Inv.update [DecidableEq ι] (inv : network.Inv account stakes) (node : ι) {doomslug : Doomslug}
    (emits : doomslug.Emits (network.Own account node))
    (tip : ∃ block ∈ network.blocks, block.hash = doomslug.tip.blockHash ∧ block.height = doomslug.tip.height)
    (kept : doomslug.Tracked (network.Kept stakes)) (mode : doomslug.thresholdMode = .twoThirds) :
    Inv account stakes { network with nodes := Function.update network.nodes node doomslug } := by
  refine ⟨fun other => ?_, fun other => ?_, inv.ordered, fun other => ?_, fun other => ?_, inv.hashes, inv.parents⟩
  all_goals
    by_cases same : other = node
    · subst same
      simp only [Function.update_self]
      first | exact emits | exact tip | exact kept | exact mode
    · simp only [Function.update_of_ne same]
      first | exact inv.emits other | exact inv.tips other | exact inv.kept other | exact inv.mode other

section Kept

variable {height : Nat} {trackers : DoomslugApprovalsTrackersAtHeight}

theorem kept_new (network : Network ι) (height : Nat) : network.Kept stakes height .new :=
  ⟨DoomslugApprovalsTrackersAtHeight.exact_new, DoomslugApprovalsTrackersAtHeight.filed_new _,
    DoomslugApprovalsTrackersAtHeight.made_new _⟩

/-- What the trackers keep only grows with the approvals sent. -/
theorem Kept.mono {network' : Network ι} (kept : network.Kept stakes height trackers)
    (grows : ∀ approval ∈ network.sent, approval ∈ network'.sent) : network'.Kept stakes height trackers :=
  ⟨kept.1, DoomslugApprovalsTrackersAtHeight.Filed.mono kept.2.1 fun _ _ filed => ⟨filed.1, filed.2.1, grows _ filed.2.2⟩,
    kept.2.2⟩

/-- A readiness check puts a tracker back with the same witness and stakes. -/
theorem Kept.replace (kept : network.Kept stakes height trackers) {inner : ApprovalInner}
    {tracker : DoomslugApprovalsTracker} (found : trackers.approvalTrackers inner = some tracker) (now : Nat) :
    network.Kept stakes height { trackers with
      approvalTrackers := Function.update trackers.approvalTrackers inner
        (some (tracker.getBlockProductionReadiness now).1) } := by
  have witness := DoomslugApprovalsTracker.getBlockProductionReadiness_witness now tracker
  have within := DoomslugApprovalsTrackersAtHeight.within_replace found witness
    (DoomslugApprovalsTracker.getBlockProductionReadiness_fixed now tracker)
  exact ⟨kept.1.replace found witness ((kept.1.tallied _ tracker found).getBlockProductionReadiness now),
    within.filed kept.2.1, within.made kept.2.2⟩

/-- An approval that was sent, processed at its target height with the test's stakes and the
two-thirds mode, keeps what the trackers of that height keep. -/
theorem Kept.processApproval (kept : network.Kept stakes approval.targetHeight trackers)
    (distinct : (stakes.map ApprovalStake.accountId).Nodup) (sent : approval ∈ network.sent) (now nowUtc : Nat)
    {processed : DoomslugApprovalsTrackersAtHeight × DoomslugBlockProductionReadiness}
    (processing : trackers.processApproval now nowUtc approval stakes .twoThirds = .ok processed) :
    network.Kept stakes approval.targetHeight processed.1 := by
  obtain ⟨trackers', readiness, processing', exact, filed, madeWith⟩ :=
    kept.1.processApproval now nowUtc approval distinct .twoThirds
  rw [processing, Except.ok.injEq] at processing'
  rw [processing']
  exact ⟨exact, filed _ kept.2.1 ⟨rfl, rfl, sent⟩, madeWith _ kept.2.2 rfl⟩

/-- A certificate stays one as approvals are sent. -/
theorem Certified.mono {network' : Network ι} {block parent : Block} (certified : network.Certified stakes block parent)
    (grows : ∀ approval ∈ network.sent, approval ∈ network'.sent) : network'.Certified stakes block parent := by
  obtain ⟨voters, distinct, quorum, approved⟩ := certified
  exact ⟨voters, distinct, quorum, fun accountId member =>
    (approved accountId member).imp fun approval found => ⟨grows approval found.1, found.2⟩⟩

/-- A kept tracker past the threshold certifies a block of its target on the block whose
approvals it counts: its witness is the certificate. -/
theorem Kept.certified (kept : network.Kept stakes height trackers) {parent : Block} {tracker : DoomslugApprovalsTracker}
    (found : trackers.approvalTrackers (ApprovalInner.new parent.hash parent.height height) = some tracker)
    (passes : tracker.PassesThreshold) (block : Block) (atHeight : block.height = height) :
    network.Certified stakes block parent := by
  obtain ⟨exact, filed, madeWith⟩ := kept
  have fixed := madeWith _ tracker found
  simp only [DoomslugApprovalsTracker.fixed, made, DoomslugApprovalsTracker.new, Prod.mk.injEq] at fixed
  obtain ⟨stakesEq, totalThis, -, modeEq⟩ := fixed
  have tallied := exact.tallied _ tracker found
  refine ⟨tracker.witness.keys, tracker.witness.keys_nodup, ?_, fun accountId member => ?_⟩
  · -- the tracker is past two thirds, since its mode is not the one without approvals
    have past : tracker.totalStakeThisEpoch * 2 / 3 < tracker.approvedStakeThisEpoch := by
      rcases passes with ⟨past, -⟩ | noApprovals
      · exact past
      · rw [modeEq] at noApprovals
        cases noApprovals
    have total : tracker.totalStakeThisEpoch = ((accountIdToStakes stakes).keys.map (stakeThisEpoch stakes)).sum := by
      rw [totalThis, AList.sum_entries_eq_sum_keys _ Prod.fst (0, 0)]
      rfl
    have approved : tracker.approvedStakeThisEpoch = (tracker.witness.keys.map (stakeThisEpoch stakes)).sum := by
      rw [tallied.thisEpoch]
      simp only [DoomslugApprovalsTracker.stakesOf, stakesEq]
      rfl
    rw [← total, ← approved]
    exact past
  · -- each account of the witness sent the approval the tracker holds for it
    obtain ⟨entry, looked⟩ : ∃ entry, tracker.witness.lookup accountId = some entry :=
      Option.isSome_iff_exists.mp (AList.lookup_isSome.mpr (AList.mem_keys.mp member))
    obtain ⟨inner, target, sent⟩ := filed _ tracker accountId entry found looked
    exact ⟨entry.1, sent, tallied.keyed accountId entry looked, target.trans atHeight.symm, by rw [inner, atHeight]⟩

end Kept

section Steps

variable (inv : network.Inv account stakes)
include inv

/-- The node after a readiness check keeps its part of the invariant. -/
theorem Inv.readyToProduceBlock (node : ι) (now targetHeight : Nat) (hasEnoughChunks : Bool) :
    ((network.nodes node).readyToProduceBlock now targetHeight hasEnoughChunks).2.Emits (network.Own account node) ∧
      (∃ block ∈ network.blocks,
        block.hash = ((network.nodes node).readyToProduceBlock now targetHeight hasEnoughChunks).2.tip.blockHash ∧
        block.height = ((network.nodes node).readyToProduceBlock now targetHeight hasEnoughChunks).2.tip.height) ∧
      ((network.nodes node).readyToProduceBlock now targetHeight hasEnoughChunks).2.Tracked (network.Kept stakes) ∧
      ((network.nodes node).readyToProduceBlock now targetHeight hasEnoughChunks).2.thresholdMode = .twoThirds := by
  obtain ⟨keeps, tracking⟩ := Doomslug.readyToProduceBlock_spec now targetHeight hasEnoughChunks (network.nodes node)
  refine ⟨(inv.emits node).keepsTimer keeps, keeps.tip ▸ inv.tips node, ?_, keeps.thresholdMode ▸ inv.mode node⟩
  rcases tracking with same | ⟨trackers, tracker, found, current, updated⟩
  · exact (inv.kept node).congr same
  · exact (inv.kept node).update updated ((inv.kept node targetHeight trackers found).replace current now)

/-- A block made on a block with its certificate. -/
theorem Inv.addBlock {block parent : Block} (fresh : ∀ other ∈ network.blocks, other.hash ≠ block.hash)
    (parentMember : parent ∈ network.blocks) (prev : block.prevHash = some parent.hash) (lower : parent.height < block.height)
    (certified : network.Certified stakes block parent) :
    Inv account stakes { network with blocks := network.blocks ++ [block] } := by
  have grows : ∀ other ∈ network.blocks, other ∈ network.blocks ++ [block] := fun _ member => List.mem_append_left _ member
  refine ⟨inv.emits, fun node => ?_, inv.ordered, inv.kept, inv.mode, ?_, fun other member => ?_⟩
  · obtain ⟨tip, tipMember, hash, height⟩ := inv.tips node
    exact ⟨tip, grows tip tipMember, hash, height⟩
  · rw [List.map_append, List.nodup_append]
    refine ⟨inv.hashes, List.nodup_singleton _, fun hash member hash' member' same => ?_⟩
    obtain ⟨other, otherMember, rfl⟩ := List.mem_map.mp member
    rw [List.map_singleton, List.mem_singleton] at member'
    exact fresh other otherMember (same.trans member')
  · rcases List.mem_append.mp member with old | new
    · rcases inv.parents other old with root | ⟨parent', parentMember', prev', lower', certified'⟩
      · exact .inl root
      · exact .inr ⟨parent', grows parent' parentMember', prev', lower', certified'⟩
    · rw [List.mem_singleton.mp new]
      exact .inr ⟨parent, grows parent parentMember, prev, lower, certified⟩

variable [DecidableEq ι]

/-- Delivering a sent approval touches only the trackers of the node it arrives at. -/
theorem Inv.deliver (distinct : (stakes.map ApprovalStake.accountId).Nodup) (node : ι) {approval : Approval}
    (sent : approval ∈ network.sent) (now nowUtc : Nat) {doomslug : Doomslug}
    (processed : (network.nodes node).onApprovalMessage now nowUtc approval stakes = .ok doomslug) :
    Inv account stakes { network with nodes := Function.update network.nodes node doomslug } := by
  obtain ⟨keeps, tracking⟩ := Doomslug.onApprovalMessage_spec processed
  refine inv.update node ((inv.emits node).keepsTimer keeps) (keeps.tip ▸ inv.tips node) ?_
    (keeps.thresholdMode ▸ inv.mode node)
  rcases tracking with same | ⟨trackers, processing, updated⟩
  · exact (inv.kept node).congr same
  · rw [inv.mode node] at processing
    exact (inv.kept node).update updated
      (((inv.kept node).getD _ (kept_new network _)).processApproval distinct sent now nowUtc processing)

/-- Setting a tip to a produced block above it restarts the timer past it. -/
theorem Inv.receive (node : ι) {block : Block} (produced : block ∈ network.blocks)
    (higher : (network.nodes node).tip.height < block.height) (now lastFinalHeight : Nat) :
    Inv account stakes { network with
      nodes := Function.update network.nodes node
        ((network.nodes node).setTip now block.hash block.height lastFinalHeight) } :=
  inv.update node ((inv.emits node).setTip now block.hash higher.le lastFinalHeight) ⟨block, produced, rfl, rfl⟩
    ((inv.kept node).setTip _ _ _ _) (inv.mode node)

/-- A readiness check touches only the checked tracker of the node. -/
theorem Inv.check (node : ι) (now targetHeight : Nat) (hasEnoughChunks : Bool) :
    Inv account stakes { network with
      nodes := Function.update network.nodes node
        ((network.nodes node).readyToProduceBlock now targetHeight hasEnoughChunks).2 } := by
  obtain ⟨emits, tip, kept, mode⟩ := inv.readyToProduceBlock node now targetHeight hasEnoughChunks
  exact inv.update node emits tip kept mode

/-- The approvals a timer sends are the node's own, in order after its earlier ones. -/
theorem Inv.timer (injective : Function.Injective account) (node : ι) (now : Nat) :
    Inv account stakes { network with
      nodes := Function.update network.nodes node ((network.nodes node).processTimer now (some (account node))).2
      sent := network.sent ++ ((network.nodes node).processTimer now (some (account node))).1 } := by
  have sends : Doomslug.Sends (some (account node)) (network.nodes node) (network.Own account node)
      ((network.nodes node).processTimer now (some (account node))).1
      ((network.nodes node).processTimer now (some (account node))).2 :=
    (inv.emits node).sends_processTimer now
  set timed := (network.nodes node).processTimer now (some (account node))
  -- every approval sent now is of the node's account
  have signed : ∀ approval ∈ timed.1, approval.accountId = account node := fun approval member =>
    (Option.some.inj (sends.fromTip approval member).2.2).symm
  have grows : ∀ approval ∈ network.sent, approval ∈ network.sent ++ timed.1 :=
    fun _ member => List.mem_append_left _ member
  refine ⟨fun other => ?_, fun other => ?_, ?_, fun other => ?_, fun other => ?_, inv.hashes, fun block member => ?_⟩
  · by_cases same : other = node
    · subst same
      simp only [Function.update_self]
      refine sends.emits.mono fun approval own => ?_
      rcases List.mem_append.mp own.1 with earlier | current
      · exact .inl ⟨earlier, own.2⟩
      · exact .inr current
    · simp only [Function.update_of_ne same]
      refine (inv.emits other).mono fun approval own => ⟨?_, own.2⟩
      rcases List.mem_append.mp own.1 with earlier | current
      · exact earlier
      · exact absurd (injective ((signed approval current).symm.trans own.2)) (Ne.symm same)
  · by_cases same : other = node
    · subst same
      simp only [Function.update_self]
      rw [sends.tip]
      exact inv.tips other
    · simp only [Function.update_of_ne same]
      exact inv.tips other
  · have ownOrder : timed.1.Pairwise fun earlier later => earlier.accountId = later.accountId → earlier.Ordered later := by
      refine sends.ordered.imp ?_
      intro earlier later ordered _
      exact ordered
    refine List.pairwise_append.mpr ⟨inv.ordered, ownOrder, ?_⟩
    intro earlier member later current sameAccount
    exact sends.after earlier ⟨member, sameAccount.trans (signed later current)⟩ later current
  · intro height trackers found
    by_cases same : other = node
    · subst same
      simp only [Function.update_self, Doomslug.processTimer_approvalTracking, timed] at found
      exact (inv.kept other height trackers found).mono grows
    · simp only [Function.update_of_ne same] at found
      exact (inv.kept other height trackers found).mono grows
  · by_cases same : other = node
    · subst same
      simp only [Function.update_self, Doomslug.processTimer_thresholdMode, timed]
      exact inv.mode other
    · simp only [Function.update_of_ne same]
      exact inv.mode other
  · rcases inv.parents block member with root | ⟨parent, parentMember, prev, lower, certified⟩
    · exact .inl root
    · exact .inr ⟨parent, parentMember, prev, lower, certified.mono grows⟩

/-- A block is produced only on the node's tip, which is a block, and with the certificate the
checked tracker gives. -/
theorem Inv.produce (node : ι) (now targetHeight : Nat) (hasEnoughChunks : Bool) (hash : CryptoHash)
    (ready : ((network.nodes node).readyToProduceBlock now targetHeight hasEnoughChunks).1 = true)
    (above : (network.nodes node).tip.height < targetHeight) (fresh : ∀ block ∈ network.blocks, block.hash ≠ hash) :
    Inv account stakes { network with
      nodes := Function.update network.nodes node
        ((network.nodes node).readyToProduceBlock now targetHeight hasEnoughChunks).2
      blocks := network.blocks ++ [⟨hash, targetHeight, some (network.nodes node).tip.blockHash⟩] } := by
  obtain ⟨tip, tipMember, tipHash, tipHeight⟩ := inv.tips node
  obtain ⟨trackers, tracker, found, current, passes⟩ := Doomslug.readyToProduceBlock_ready ready
  rw [← tipHash, ← tipHeight] at current
  have certified := (inv.kept node targetHeight trackers found).certified current passes
    ⟨hash, targetHeight, some (network.nodes node).tip.blockHash⟩ rfl
  exact (inv.check node now targetHeight hasEnoughChunks).addBlock fresh tipMember (by rw [tipHash]) (by rw [tipHeight]; exact above)
    certified

/-- Every step keeps the invariant. -/
theorem Inv.step (distinct : (stakes.map ApprovalStake.accountId).Nodup) (injective : Function.Injective account)
    {network' : Network ι} (step : Step account stakes network network') : network'.Inv account stakes := by
  cases step with
  | deliver node sent now nowUtc processed => exact inv.deliver distinct node sent now nowUtc processed
  | receive node produced higher now lastFinalHeight => exact inv.receive node produced higher now lastFinalHeight
  | timer node now => exact inv.timer injective node now
  | check node now targetHeight hasEnoughChunks => exact inv.check node now targetHeight hasEnoughChunks
  | produce node now targetHeight hasEnoughChunks hash ready above fresh =>
    exact inv.produce node now targetHeight hasEnoughChunks hash ready above fresh

end Steps

/-- The invariant holds along every run from the start. -/
theorem inv_of_run [DecidableEq ι] {genesisHash : CryptoHash} {start : Network ι} (started : start.Started genesisHash)
    (distinct : (stakes.map ApprovalStake.accountId).Nodup) (injective : Function.Injective account)
    (run : Relation.ReflTransGen (Step account stakes) start network) : network.Inv account stakes := by
  induction run with
  | refl => exact inv_started started
  | tail _ step inv => exact inv.step distinct injective step

end Network

end Nearcore
