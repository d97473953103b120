import Nearcore.Doomslug.Approvals

/-! The Doomslug state of one node (`chain/chain/src/doomslug.rs`): its tip, the timer that
sends endorsements and skips (`process_timer`), the trackers of the approvals it receives by
target height, and the readiness check of block production. A run is a sequence of calls, each
with the clock's readings. The history of created approvals, kept for debugging, and the
metrics are left out. -/
namespace Nearcore

/-- `MAX_TIMER_ITERS`. -/
def maxTimerIters : Nat := 20

/-- `MAX_HEIGHTS_AHEAD_TO_STORE_APPROVALS`. -/
def maxHeightsAheadToStoreApprovals : Nat := 10000

/-- `MAX_HEIGHTS_BEFORE_TO_STORE_APPROVALS`. -/
def maxHeightsBeforeToStoreApprovals : Nat := 20

/-- `DoomslugTimer`; `chunk_wait_mult` is kept as its numerator and denominator. -/
structure DoomslugTimer where
  started : Nat
  lastEndorsementSent : Nat
  height : Nat
  endorsementDelay : Nat
  minDelay : Nat
  delayStep : Nat
  maxDelay : Nat
  chunkWaitMult : Nat × Nat

/-- `get_delay`: the delay grows by `delay_step` for each height past the second since the last
final block, up to `max_delay`. -/
def DoomslugTimer.getDelay (timer : DoomslugTimer) (n : Nat) : Nat :=
  min timer.maxDelay (timer.minDelay + timer.delayStep * (min n (2 ^ 32 - 1) - 2))

/-- `DoomslugTip`. -/
structure DoomslugTip where
  blockHash : CryptoHash
  height : Nat

/-- `Doomslug`. -/
structure Doomslug where
  approvalTracking : Nat → Option DoomslugApprovalsTrackersAtHeight
  largestTargetHeight : Nat
  largestFinalHeight : Nat
  largestThresholdHeight : Nat
  largestApprovalHeight : Nat
  tip : DoomslugTip
  endorsementPending : Bool
  timer : DoomslugTimer
  thresholdMode : DoomslugThresholdMode

namespace Doomslug

/-- `Doomslug::new`, at clock time `now`. -/
def new (now : Nat) (largestTargetHeight : Nat) (endorsementDelay minDelay delayStep maxDelay : Nat)
    (chunkWaitMult : Nat × Nat) (thresholdMode : DoomslugThresholdMode) : Doomslug where
  approvalTracking _ := none
  largestTargetHeight
  largestFinalHeight := 0
  largestThresholdHeight := 0
  largestApprovalHeight := 0
  tip := ⟨default, 0⟩
  endorsementPending := false
  timer := ⟨now, now, 0, endorsementDelay, minDelay, delayStep, maxDelay, chunkWaitMult⟩
  thresholdMode

section
attribute [local simp] new
end

/-- `create_approval`: an approval of the target from the tip, if the node has a signer. -/
def createApproval (doomslug : Doomslug) (targetHeight : Nat) (signer : Option AccountId) :
    Option Approval :=
  signer.map (Approval.new doomslug.tip.blockHash doomslug.tip.height targetHeight)

/-- The endorsement part of an iteration of `process_timer`: once the endorsement delay has
passed since the tip was set, the tip is endorsed unless an approval of a target above it was
already sent. -/
def endorseTip (now : Nat) (signer : Option AccountId) (doomslug : Doomslug) : List Approval × Doomslug :=
  if doomslug.endorsementPending ∧ now ≥ doomslug.timer.lastEndorsementSent + doomslug.timer.endorsementDelay then
    let sent := { doomslug with
      timer := { doomslug.timer with lastEndorsementSent := now }
      endorsementPending := false }
    if doomslug.tip.height ≥ doomslug.largestTargetHeight then
      ((doomslug.createApproval (doomslug.tip.height + 1) signer).toList,
        { sent with largestTargetHeight := doomslug.tip.height + 1 })
    else ([], sent)
  else ([], doomslug)

section
attribute [local simp] endorseTip
end

/-- The skip part of an iteration of `process_timer`: once the skip delay has passed, the
height after the timer's is approved and the timer moves on; otherwise the loop stops. -/
def skipTimer (now : Nat) (skipDelay : Nat) (signer : Option AccountId) (doomslug : Doomslug) :
    Option (List Approval × Doomslug) :=
  if now ≥ doomslug.timer.started + skipDelay then
    some ((doomslug.createApproval (doomslug.timer.height + 1) signer).toList,
      { doomslug with
        largestTargetHeight := max (doomslug.timer.height + 1) doomslug.largestTargetHeight
        timer := { doomslug.timer with
          started := doomslug.timer.started + skipDelay
          height := doomslug.timer.height + 1 } })
  else none

section
attribute [local simp] skipTimer
end

/-- The loop of `process_timer`, with `iters` iterations left. -/
def processTimerLoop (now : Nat) (signer : Option AccountId) : Nat → Doomslug → List Approval × Doomslug
  | 0, doomslug => ([], doomslug)
  | iters + 1, doomslug =>
    let skipDelay := doomslug.timer.getDelay (doomslug.timer.height - doomslug.largestFinalHeight)
    let endorsed := doomslug.endorseTip now signer
    match endorsed.2.skipTimer now skipDelay signer with
    | none => endorsed
    | some skipped =>
      let rest := processTimerLoop now signer iters skipped.2
      (endorsed.1 ++ skipped.1 ++ rest.1, rest.2)

section
attribute [local simp] processTimerLoop
end

/-- `process_timer`: the approvals to send, in order. -/
def processTimer (now : Nat) (signer : Option AccountId) (doomslug : Doomslug) : List Approval × Doomslug :=
  processTimerLoop now signer maxTimerIters doomslug

/-- `set_tip`: the timer restarts for the height after the tip, approvals are kept for the
heights from 20 below the tip to 10000 above it, and the tip is to be endorsed. -/
def setTip (now : Nat) (blockHash : CryptoHash) (height lastFinalHeight : Nat) (doomslug : Doomslug) :
    Doomslug :=
  { doomslug with
    tip := ⟨blockHash, height⟩
    largestFinalHeight := lastFinalHeight
    timer := { doomslug.timer with height := height + 1, started := now }
    approvalTracking := fun h =>
      if h > height - maxHeightsBeforeToStoreApprovals ∧ h ≤ height + maxHeightsAheadToStoreApprovals then
        doomslug.approvalTracking h
      else none
    endorsementPending := true }

section
attribute [local simp] setTip
end

/-- `on_approval_message_internal`: the approval goes to the trackers of its target height, and
the largest heights of approvals and of thresholds move up. -/
def onApprovalMessageInternal (now : Nat) (nowUtc : Nat) (approval : Approval) (stakes : List ApprovalStake)
    (doomslug : Doomslug) : Except String (DoomslugBlockProductionReadiness × Doomslug) := do
  let processed ← ((doomslug.approvalTracking approval.targetHeight).getD .new).processApproval now nowUtc approval
    stakes doomslug.thresholdMode
  let doomslug := { doomslug with
    approvalTracking := Function.update doomslug.approvalTracking approval.targetHeight (some processed.1)
    largestApprovalHeight := max approval.targetHeight doomslug.largestApprovalHeight }
  let doomslug :=
    if processed.2 ≠ .notReady ∧ approval.targetHeight > doomslug.largestThresholdHeight then
      { doomslug with largestThresholdHeight := approval.targetHeight }
    else doomslug
  pure (processed.2, doomslug)

section
attribute [local simp] onApprovalMessageInternal
end

/-- `on_approval_message`: approvals of targets below the tip or too far above it are dropped. -/
def onApprovalMessage (now : Nat) (nowUtc : Nat) (approval : Approval) (stakes : List ApprovalStake)
    (doomslug : Doomslug) : Except String Doomslug :=
  if approval.targetHeight < doomslug.tip.height ∨
      approval.targetHeight > doomslug.tip.height + maxHeightsAheadToStoreApprovals then
    .ok doomslug
  else
    Prod.snd <$> doomslug.onApprovalMessageInternal now nowUtc approval stakes

section
attribute [local simp] onApprovalMessage
end

/-- `ready_to_produce_block`: the tracker of the approvals of the target from the tip has passed
the threshold, and either the chunks are there or a part of the skip delay has passed since. -/
def readyToProduceBlock (now : Nat) (targetHeight : Nat) (hasEnoughChunks : Bool) (doomslug : Doomslug) :
    Bool × Doomslug :=
  let hashOrHeight := ApprovalInner.new doomslug.tip.blockHash doomslug.tip.height targetHeight
  match doomslug.approvalTracking targetHeight with
  | none => (false, doomslug)
  | some trackers =>
    match trackers.approvalTrackers hashOrHeight with
    | none => (false, doomslug)
    | some tracker =>
      let checked := tracker.getBlockProductionReadiness now
      let doomslug := { doomslug with
        approvalTracking := Function.update doomslug.approvalTracking targetHeight
          (some { trackers with
            approvalTrackers := Function.update trackers.approvalTrackers hashOrHeight (some checked.1) }) }
      match checked.2 with
      | .notReady => (false, doomslug)
      | .readySince since =>
        if hasEnoughChunks then (true, doomslug)
        else
          let delay := doomslug.timer.getDelay (doomslug.timer.height - doomslug.largestFinalHeight) *
            doomslug.timer.chunkWaitMult.1 / doomslug.timer.chunkWaitMult.2
          (decide (now > since + delay), doomslug)

section
attribute [local simp] readyToProduceBlock
end

section Frame

variable {doomslug doomslug' : Doomslug} {now : Nat} {signer : Option AccountId}

@[simp] theorem endorseTip_approvalTracking :
    (doomslug.endorseTip now signer).2.approvalTracking = doomslug.approvalTracking := by
  unfold endorseTip
  split
  · split <;> rfl
  · rfl

@[simp] theorem endorseTip_thresholdMode :
    (doomslug.endorseTip now signer).2.thresholdMode = doomslug.thresholdMode := by
  unfold endorseTip
  split
  · split <;> rfl
  · rfl

theorem skipTimer_approvalTracking {skipDelay : Nat} {skipped : List Approval × Doomslug}
    (skips : doomslug.skipTimer now skipDelay signer = some skipped) :
    skipped.2.approvalTracking = doomslug.approvalTracking ∧ skipped.2.thresholdMode = doomslug.thresholdMode := by
  unfold skipTimer at skips
  split at skips
  · cases skips
    exact ⟨rfl, rfl⟩
  · cases skips

/-- The timer sends approvals and never touches the trackers. -/
theorem processTimerLoop_approvalTracking (iters : Nat) (doomslug : Doomslug) :
    (processTimerLoop now signer iters doomslug).2.approvalTracking = doomslug.approvalTracking ∧
      (processTimerLoop now signer iters doomslug).2.thresholdMode = doomslug.thresholdMode := by
  induction iters generalizing doomslug with
  | zero => exact ⟨rfl, rfl⟩
  | succ iters ih =>
    simp only [processTimerLoop]
    split
    · exact ⟨endorseTip_approvalTracking, endorseTip_thresholdMode⟩
    · rename_i skipped skips
      obtain ⟨tracking, mode⟩ := skipTimer_approvalTracking skips
      rw [(ih skipped.2).1, (ih skipped.2).2, tracking, mode, endorseTip_approvalTracking, endorseTip_thresholdMode]
      exact ⟨rfl, rfl⟩

@[simp] theorem processTimer_approvalTracking :
    (doomslug.processTimer now signer).2.approvalTracking = doomslug.approvalTracking :=
  (processTimerLoop_approvalTracking maxTimerIters doomslug).1

@[simp] theorem processTimer_thresholdMode :
    (doomslug.processTimer now signer).2.thresholdMode = doomslug.thresholdMode :=
  (processTimerLoop_approvalTracking maxTimerIters doomslug).2

/-- Everything but the trackers and the largest heights of approvals and thresholds: what the
timer and the approvals the node sends depend on. -/
structure KeepsTimer (doomslug' doomslug : Doomslug) : Prop where
  tip : doomslug'.tip = doomslug.tip
  endorsementPending : doomslug'.endorsementPending = doomslug.endorsementPending
  timer : doomslug'.timer = doomslug.timer
  largestTargetHeight : doomslug'.largestTargetHeight = doomslug.largestTargetHeight
  largestFinalHeight : doomslug'.largestFinalHeight = doomslug.largestFinalHeight
  thresholdMode : doomslug'.thresholdMode = doomslug.thresholdMode

theorem KeepsTimer.refl (doomslug : Doomslug) : KeepsTimer doomslug doomslug :=
  ⟨rfl, rfl, rfl, rfl, rfl, rfl⟩

/-- An approval message either is dropped or goes through `process_approval` at its target
height; the timer is left as it is. -/
theorem onApprovalMessage_spec {approval : Approval} {stakes : List ApprovalStake} {nowUtc : Nat}
    (ok : doomslug.onApprovalMessage now nowUtc approval stakes = .ok doomslug') :
    KeepsTimer doomslug' doomslug ∧ (doomslug'.approvalTracking = doomslug.approvalTracking ∨
      ∃ processed, ((doomslug.approvalTracking approval.targetHeight).getD .new).processApproval now nowUtc approval
          stakes doomslug.thresholdMode = .ok processed ∧
        doomslug'.approvalTracking = Function.update doomslug.approvalTracking approval.targetHeight (some processed.1)) := by
  unfold onApprovalMessage at ok
  split at ok
  · cases ok
    exact ⟨.refl _, .inl rfl⟩
  · unfold onApprovalMessageInternal at ok
    cases processing : ((doomslug.approvalTracking approval.targetHeight).getD .new).processApproval now nowUtc approval
      stakes doomslug.thresholdMode with
    | error message => simp [processing] at ok
    | ok processed =>
      simp only [processing, Except.ok_bind, Except.pure_eq_ok, Except.functor_map_ok, Except.ok.injEq] at ok
      subst ok
      split <;> exact ⟨⟨rfl, rfl, rfl, rfl, rfl, rfl⟩, .inr ⟨processed, rfl, rfl⟩⟩

/-- An approval message goes through once `process_approval` does. -/
theorem onApprovalMessage_ok {approval : Approval} {stakes : List ApprovalStake} {nowUtc : Nat}
    {processed : DoomslugApprovalsTrackersAtHeight × DoomslugBlockProductionReadiness}
    (processing : ((doomslug.approvalTracking approval.targetHeight).getD .new).processApproval now nowUtc approval
      stakes doomslug.thresholdMode = .ok processed) :
    ∃ doomslug', doomslug.onApprovalMessage now nowUtc approval stakes = .ok doomslug' := by
  unfold onApprovalMessage
  split
  · exact ⟨doomslug, rfl⟩
  · unfold onApprovalMessageInternal
    simp only [processing, Except.ok_bind, Except.pure_eq_ok, Except.functor_map_ok]
    exact ⟨_, rfl⟩

/-- A readiness check either finds no tracker or puts the tracker back past its check. -/
theorem readyToProduceBlock_spec (now targetHeight : Nat) (hasEnoughChunks : Bool) (doomslug : Doomslug) :
    KeepsTimer (doomslug.readyToProduceBlock now targetHeight hasEnoughChunks).2 doomslug ∧
      ((doomslug.readyToProduceBlock now targetHeight hasEnoughChunks).2.approvalTracking = doomslug.approvalTracking ∨
        ∃ trackers tracker, doomslug.approvalTracking targetHeight = some trackers ∧
          trackers.approvalTrackers (ApprovalInner.new doomslug.tip.blockHash doomslug.tip.height targetHeight) =
            some tracker ∧
          (doomslug.readyToProduceBlock now targetHeight hasEnoughChunks).2.approvalTracking =
            Function.update doomslug.approvalTracking targetHeight (some { trackers with
              approvalTrackers := Function.update trackers.approvalTrackers
                (ApprovalInner.new doomslug.tip.blockHash doomslug.tip.height targetHeight)
                (some (tracker.getBlockProductionReadiness now).1) })) := by
  dsimp only [readyToProduceBlock]
  split
  · exact ⟨.refl _, .inl rfl⟩
  · rename_i trackers found
    split
    · exact ⟨.refl _, .inl rfl⟩
    · rename_i tracker current
      -- past the lookups, every branch returns the state with the checked tracker put back
      refine ⟨?_, .inr ⟨trackers, tracker, found, current, ?_⟩⟩
      · split
        · exact ⟨rfl, rfl, rfl, rfl, rfl, rfl⟩
        · split <;> exact ⟨rfl, rfl, rfl, rfl, rfl, rfl⟩
      · split
        · rfl
        · split <;> rfl

/-- A block can be produced only from a tracker, of the approvals of the target from the tip,
that is past the threshold. -/
theorem readyToProduceBlock_ready {targetHeight : Nat} {hasEnoughChunks : Bool}
    (ready : (doomslug.readyToProduceBlock now targetHeight hasEnoughChunks).1 = true) :
    ∃ trackers tracker, doomslug.approvalTracking targetHeight = some trackers ∧
      trackers.approvalTrackers (ApprovalInner.new doomslug.tip.blockHash doomslug.tip.height targetHeight) =
        some tracker ∧ tracker.PassesThreshold := by
  dsimp only [readyToProduceBlock] at ready
  split at ready
  · cases ready
  · rename_i trackers found
    split at ready
    · cases ready
    · rename_i tracker current
      refine ⟨trackers, tracker, found, current, ?_⟩
      split at ready
      · cases ready
      · rename_i since checked
        exact DoomslugApprovalsTracker.passesThreshold_of_ready checked

end Frame

section Tracked

variable {Q : Nat → DoomslugApprovalsTrackersAtHeight → Prop} {doomslug doomslug' : Doomslug}

/-- The trackers of every height satisfy `Q`. -/
def Tracked (Q : Nat → DoomslugApprovalsTrackersAtHeight → Prop) (doomslug : Doomslug) : Prop :=
  ∀ height trackers, doomslug.approvalTracking height = some trackers → Q height trackers

theorem tracked_new (Q : Nat → DoomslugApprovalsTrackersAtHeight → Prop) (now : Nat)
    (largestTargetHeight : Nat) (endorsementDelay minDelay delayStep maxDelay : Nat)
    (chunkWaitMult : Nat × Nat) (thresholdMode : DoomslugThresholdMode) :
    (new now largestTargetHeight endorsementDelay minDelay delayStep maxDelay chunkWaitMult thresholdMode).Tracked Q :=
  fun _ _ found => by cases found

theorem Tracked.congr (tracked : doomslug.Tracked Q) (same : doomslug'.approvalTracking = doomslug.approvalTracking) :
    doomslug'.Tracked Q := by
  intro height trackers found
  rw [same] at found
  exact tracked height trackers found

/-- `set_tip` only drops trackers. -/
theorem Tracked.setTip (tracked : doomslug.Tracked Q) (now : Nat) (blockHash : CryptoHash)
    (height lastFinalHeight : Nat) : (doomslug.setTip now blockHash height lastFinalHeight).Tracked Q := by
  intro h trackers found
  simp only [Doomslug.setTip] at found
  split at found
  · exact tracked h trackers found
  · cases found

theorem Tracked.update (tracked : doomslug.Tracked Q) {height : Nat} {trackers : DoomslugApprovalsTrackersAtHeight}
    (updated : doomslug'.approvalTracking = Function.update doomslug.approvalTracking height (some trackers))
    (holds : Q height trackers) : doomslug'.Tracked Q := by
  intro h trackers' found
  rw [updated] at found
  by_cases same : h = height
  · subst same
    rw [Function.update_self, Option.some.injEq] at found
    rw [← found]
    exact holds
  · rw [Function.update_of_ne same] at found
    exact tracked h trackers' found

/-- The trackers an approval goes to: those of its target height, or new ones. -/
theorem Tracked.getD (tracked : doomslug.Tracked Q) (height : Nat) (base : Q height .new) :
    Q height ((doomslug.approvalTracking height).getD .new) := by
  cases found : doomslug.approvalTracking height with
  | none => exact base
  | some trackers => exact tracked height trackers found

end Tracked

end Doomslug

/-- A public method of `Doomslug`. -/
inductive DoomslugOp where
  | setTip (blockHash : CryptoHash) (height lastFinalHeight : Nat)
  | onApprovalMessage (approval : Approval) (stakes : List ApprovalStake)
  | processTimer (signer : Option AccountId)
  | readyToProduceBlock (targetHeight : Nat) (hasEnoughChunks : Bool)

/-- What a method returns: nothing, the approvals to send, or whether a block can be produced. -/
inductive DoomslugOutput where
  | none
  | approvals (approvals : List Approval)
  | ready (ready : Bool)

/-- A call of a method with the clock's readings. -/
structure DoomslugCall where
  now : Nat
  nowUtc : Nat
  op : DoomslugOp

/-- A call on the node's state; it fails where the code panics. -/
def DoomslugCall.apply (call : DoomslugCall) : StateT Doomslug (Except String) DoomslugOutput := fun doomslug =>
  match call.op with
  | .setTip blockHash height lastFinalHeight =>
    .ok (.none, doomslug.setTip call.now blockHash height lastFinalHeight)
  | .onApprovalMessage approval stakes =>
    (fun doomslug => (.none, doomslug)) <$> doomslug.onApprovalMessage call.now call.nowUtc approval stakes
  | .processTimer signer =>
    let timed := doomslug.processTimer call.now signer
    .ok (.approvals timed.1, timed.2)
  | .readyToProduceBlock targetHeight hasEnoughChunks =>
    let checked := doomslug.readyToProduceBlock call.now targetHeight hasEnoughChunks
    .ok (.ready checked.1, checked.2)

section
attribute [local simp] DoomslugCall.apply
end

/-- Before any tip is set, the skip timer of a new node fires for height 1, the height after
the placeholder tip at height 0, and `Approval::new` makes that approval an endorsement of the
placeholder hash: an endorsement whose target is not above the largest target height 1 the node
was created with. -/
theorem processTimer_new_endorses_placeholder :
    ((Doomslug.new 0 1 200 1000 100 2000 (1, 3) .twoThirds).processTimer 1000
        (some (AccountId.ofLetter 97 (by decide)))).1 =
      [⟨.endorsement default, 1, AccountId.ofLetter 97 (by decide)⟩] := by
  decide

/-- The stakes given with an approval message name each account once. -/
def DoomslugOp.StakesDistinct : DoomslugOp → Prop
  | .onApprovalMessage _ stakes => (stakes.map ApprovalStake.accountId).Nodup
  | _ => True

instance (op : DoomslugOp) : Decidable op.StakesDistinct :=
  match op with
  | .setTip .. | .processTimer _ | .readyToProduceBlock .. => isTrue trivial
  | .onApprovalMessage _ stakes => inferInstanceAs (Decidable (stakes.map ApprovalStake.accountId).Nodup)

namespace Doomslug

section Accounting

variable {doomslug : Doomslug}

/-- A call with distinct stakes never fails and keeps the accounting of every height exact. -/
theorem Tracked.apply_exact (tracked : doomslug.Tracked fun _ trackers => trackers.Exact) (call : DoomslugCall)
    (distinct : call.op.StakesDistinct) :
    ∃ output doomslug', call.apply doomslug = .ok (output, doomslug') ∧
      doomslug'.Tracked fun _ trackers => trackers.Exact := by
  unfold DoomslugCall.apply
  split
  · exact ⟨_, _, rfl, tracked.setTip _ _ _ _⟩
  · rename_i approval stakes op
    rw [op] at distinct
    have exact := tracked.getD approval.targetHeight DoomslugApprovalsTrackersAtHeight.exact_new
    obtain ⟨processed, readiness, processing, exact', -⟩ :=
      exact.processApproval call.now call.nowUtc approval distinct doomslug.thresholdMode
    obtain ⟨doomslug', ok⟩ := onApprovalMessage_ok processing
    refine ⟨_, doomslug', by rw [ok]; rfl, ?_⟩
    rcases (onApprovalMessage_spec ok).2 with same | ⟨processed', processing', updated⟩
    · exact tracked.congr same
    · rw [processing, Except.ok.injEq] at processing'
      rw [← processing'] at updated
      exact tracked.update updated exact'
  · exact ⟨_, _, rfl, tracked.congr processTimer_approvalTracking⟩
  · rename_i targetHeight hasEnoughChunks op
    refine ⟨_, _, rfl, ?_⟩
    rcases (readyToProduceBlock_spec call.now targetHeight hasEnoughChunks doomslug).2 with
      same | ⟨trackers, tracker, found, current, updated⟩
    · exact tracked.congr same
    · exact tracked.update updated ((tracked targetHeight trackers found).replace current
        (DoomslugApprovalsTracker.getBlockProductionReadiness_witness call.now tracker)
        (((tracked targetHeight trackers found).tallied _ tracker current).getBlockProductionReadiness call.now))

/-- A run of calls with distinct stakes never fails and keeps the accounting exact. -/
theorem Tracked.run_exact : ∀ (calls : List DoomslugCall) {doomslug : Doomslug},
    doomslug.Tracked (fun _ trackers => trackers.Exact) → (∀ call ∈ calls, call.op.StakesDistinct) →
    ∃ outputs doomslug', calls.mapM DoomslugCall.apply doomslug = .ok (outputs, doomslug') ∧
      doomslug'.Tracked fun _ trackers => trackers.Exact
  | [], doomslug, tracked, _ => ⟨[], doomslug, rfl, tracked⟩
  | call :: calls, _, tracked, distinct => by
    obtain ⟨output, doomslug₁, applied, tracked₁⟩ := tracked.apply_exact call (distinct call List.mem_cons_self)
    obtain ⟨outputs, doomslug₂, ran, tracked₂⟩ :=
      Tracked.run_exact calls tracked₁ fun other member => distinct other (List.mem_cons_of_mem _ member)
    refine ⟨output :: outputs, doomslug₂, ?_, tracked₂⟩
    rw [StateT.mapM_cons_apply_of_ok applied, ran]
    rfl

end Accounting

end Doomslug

/-- From `Doomslug::new`, every run of calls whose approval messages come with distinct stakes
goes through, and at every target height each account is in the witness of one tracker at most,
with its last approval there, no witness is empty, and each tracker's approved stake is the
stake of its witness. -/
theorem doomslug_approval_accounting_exact (now : Nat) (largestTargetHeight : Nat)
    (endorsementDelay minDelay delayStep maxDelay : Nat) (chunkWaitMult : Nat × Nat)
    (thresholdMode : DoomslugThresholdMode) (calls : List DoomslugCall)
    (distinct : ∀ call ∈ calls, call.op.StakesDistinct) :
    ∃ outputs doomslug,
      calls.mapM DoomslugCall.apply
          (Doomslug.new now largestTargetHeight endorsementDelay minDelay delayStep maxDelay chunkWaitMult
            thresholdMode) = .ok (outputs, doomslug) ∧
      ∀ height trackers, doomslug.approvalTracking height = some trackers → trackers.Exact ∧
        ∀ inner inner' tracker tracker' accountId, trackers.approvalTrackers inner = some tracker →
          trackers.approvalTrackers inner' = some tracker' → accountId ∈ tracker.witness →
          accountId ∈ tracker'.witness → inner = inner' := by
  obtain ⟨outputs, doomslug, ran, tracked⟩ := Doomslug.Tracked.run_exact calls (Doomslug.tracked_new _ _ _ _ _ _ _ _ _) distinct
  refine ⟨outputs, doomslug, ran, fun height trackers found => ⟨tracked height trackers found, ?_⟩⟩
  intro inner inner' tracker tracker' accountId current current' member member'
  exact (tracked height trackers found).unique current current' member member'

/-- An account that approves a target twice, first with a skip and then with an endorsement,
with the stakes of two accounts, and a tip set in between. -/
theorem doomslug_approval_accounting_exact_revote :
    (∀ call ∈ [⟨0, 0, .onApprovalMessage ⟨.skip 0, 2, AccountId.ofLetter 97 (by decide)⟩
          [⟨AccountId.ofLetter 97 (by decide), 1, 1⟩, ⟨AccountId.ofLetter 98 (by decide), 1, 1⟩]⟩,
        ⟨1, 1, .setTip default 1 0⟩,
        ⟨2, 2, .onApprovalMessage ⟨.endorsement default, 2, AccountId.ofLetter 97 (by decide)⟩
          [⟨AccountId.ofLetter 97 (by decide), 1, 1⟩, ⟨AccountId.ofLetter 98 (by decide), 1, 1⟩]⟩],
      DoomslugOp.StakesDistinct (DoomslugCall.op call)) ∧
    ∃ outputs doomslug,
      [⟨0, 0, .onApprovalMessage ⟨.skip 0, 2, AccountId.ofLetter 97 (by decide)⟩
          [⟨AccountId.ofLetter 97 (by decide), 1, 1⟩, ⟨AccountId.ofLetter 98 (by decide), 1, 1⟩]⟩,
        ⟨1, 1, .setTip default 1 0⟩,
        ⟨2, 2, .onApprovalMessage ⟨.endorsement default, 2, AccountId.ofLetter 97 (by decide)⟩
          [⟨AccountId.ofLetter 97 (by decide), 1, 1⟩, ⟨AccountId.ofLetter 98 (by decide), 1, 1⟩]⟩].mapM
          DoomslugCall.apply (Doomslug.new 0 0 200 1000 100 2000 (1, 3) .twoThirds) = .ok (outputs, doomslug) ∧
      ∀ height trackers, doomslug.approvalTracking height = some trackers → trackers.Exact ∧
        ∀ inner inner' tracker tracker' accountId, trackers.approvalTrackers inner = some tracker →
          trackers.approvalTrackers inner' = some tracker' → accountId ∈ tracker.witness →
          accountId ∈ tracker'.witness → inner = inner' :=
  ⟨by decide, doomslug_approval_accounting_exact 0 0 200 1000 100 2000 (1, 3) .twoThirds _ (by decide)⟩

end Nearcore
