import Nearcore.Doomslug.Doomslug

/-! What the approvals one node sends say about each other, once its tip is set. The timer is
then always past the tip, so a skip is of a target at least two above its parent; an
endorsement is sent only from a tip at or above the largest target height, which every target
sent stays below; and the tip only goes up. Together: an endorsement's target is above every
earlier target and below every later one, and parent heights never go down. -/
namespace Nearcore

/-- Whether the approval endorses its parent. -/
def ApprovalInner.isEndorsement : ApprovalInner → Bool
  | .endorsement _ => true
  | .skip _ => false

section
attribute [local simp] ApprovalInner.isEndorsement
end

/-- The height of the block an approval builds on: the one below the target for an
endorsement, the one it names for a skip. -/
def Approval.parentHeight (approval : Approval) : Nat :=
  match approval.inner with
  | .endorsement _ => approval.targetHeight - 1
  | .skip parentHeight => parentHeight

section
attribute [local simp] Approval.parentHeight
end

theorem ApprovalInner.isEndorsement_new (parentHash : CryptoHash) (parentHeight targetHeight : Nat) :
    (ApprovalInner.new parentHash parentHeight targetHeight).isEndorsement = true ↔ targetHeight = parentHeight + 1 := by
  unfold ApprovalInner.new
  split <;> simp_all [ApprovalInner.isEndorsement]

/-- An approval made from a parent names that parent's height. -/
theorem Approval.parentHeight_of_inner {approval : Approval} {parentHash : CryptoHash} {parentHeight : Nat}
    (made : approval.inner = ApprovalInner.new parentHash parentHeight approval.targetHeight) :
    approval.parentHeight = parentHeight := by
  unfold Approval.parentHeight
  rw [made, ApprovalInner.new]
  by_cases endorses : approval.targetHeight = parentHeight + 1
  · simp only [if_pos endorses]
    omega
  · simp only [if_neg endorses]

@[simp] theorem Approval.parentHeight_new (parentHash : CryptoHash) (parentHeight targetHeight : Nat)
    (signer : AccountId) : (Approval.new parentHash parentHeight targetHeight signer).parentHeight = parentHeight :=
  Approval.parentHeight_of_inner rfl

/-- Two approvals of one node in the order it sent them: an endorsement's target is above every
earlier target and below every later one, and the parent heights never go down. -/
structure Approval.Ordered (earlier later : Approval) : Prop where
  endorsed : earlier.inner.isEndorsement → earlier.targetHeight < later.targetHeight
  endorses : later.inner.isEndorsement → earlier.targetHeight < later.targetHeight
  parents : earlier.parentHeight ≤ later.parentHeight

namespace Doomslug

variable {doomslug doomslug' : Doomslug} {own own' : Approval → Prop} {signer : Option AccountId}

/-- What a node's state says of the approvals `own` it has sent: its timer is past its tip, its
largest target height is at least every target, its endorsements are of targets up to the one
after the tip, and their parents are at most the tip. -/
structure Emits (doomslug : Doomslug) (own : Approval → Prop) : Prop where
  timer : doomslug.tip.height + 1 ≤ doomslug.timer.height
  targets : ∀ approval, own approval → approval.targetHeight ≤ doomslug.largestTargetHeight
  endorsements : ∀ approval, own approval → approval.inner.isEndorsement →
    approval.targetHeight ≤ doomslug.tip.height + 1
  parents : ∀ approval, own approval → approval.parentHeight ≤ doomslug.tip.height

theorem Emits.mono (emits : doomslug.Emits own) (sub : ∀ approval, own' approval → own approval) :
    doomslug.Emits own' :=
  ⟨emits.timer, fun a sent => emits.targets a (sub a sent), fun a sent => emits.endorsements a (sub a sent),
    fun a sent => emits.parents a (sub a sent)⟩

theorem Emits.keepsTimer (emits : doomslug.Emits own) (keeps : KeepsTimer doomslug' doomslug) : doomslug'.Emits own := by
  obtain ⟨tip, -, timer, largest, -, -⟩ := keeps
  exact ⟨tip ▸ timer ▸ emits.timer, largest ▸ emits.targets, tip ▸ emits.endorsements, tip ▸ emits.parents⟩

/-- A tip set at a height not below the old one restarts the timer past it. -/
theorem Emits.setTip (emits : doomslug.Emits own) (now : Nat) (blockHash : CryptoHash)
    {height : Nat} (higher : doomslug.tip.height ≤ height) (lastFinalHeight : Nat) :
    (doomslug.setTip now blockHash height lastFinalHeight).Emits own := by
  refine ⟨Nat.le_refl _, emits.targets, fun a sent endorses => ?_, fun a sent => ?_⟩
  · have := emits.endorsements a sent endorses
    change a.targetHeight ≤ height + 1
    omega
  · have := emits.parents a sent
    change a.parentHeight ≤ height
    omega

/-- Before it sends anything, a node whose tip was set emits nothing out of order. -/
theorem emits_setTip (doomslug : Doomslug) (now : Nat) (blockHash : CryptoHash) (height lastFinalHeight : Nat) :
    (doomslug.setTip now blockHash height lastFinalHeight).Emits fun _ => False :=
  ⟨Nat.le_refl _, fun _ => False.elim, fun _ => False.elim, fun _ => False.elim⟩

/-- `doomslug'` is `doomslug` after it sent `sent`, in order, with `signer`: the state still
says what it did of the approvals sent so far and of these, these are ordered among themselves
and after the earlier ones, the tip did not move, and each was made from it. -/
structure Sends (signer : Option AccountId) (doomslug : Doomslug) (own : Approval → Prop) (sent : List Approval)
    (doomslug' : Doomslug) : Prop where
  emits : doomslug'.Emits fun approval => own approval ∨ approval ∈ sent
  ordered : sent.Pairwise Approval.Ordered
  after : ∀ earlier, own earlier → ∀ later ∈ sent, earlier.Ordered later
  tip : doomslug'.tip = doomslug.tip
  fromTip : ∀ approval ∈ sent,
    approval.inner = ApprovalInner.new doomslug.tip.blockHash doomslug.tip.height approval.targetHeight ∧
      doomslug.tip.height + 1 ≤ approval.targetHeight ∧ signer = some approval.accountId

/-- A step that sends nothing and keeps the tip. -/
theorem Emits.sends_nil (emits : doomslug'.Emits own) (tip : doomslug'.tip = doomslug.tip) :
    Sends signer doomslug own [] doomslug' :=
  ⟨emits.mono fun _ sent => sent.elim id fun member => (by cases member), List.Pairwise.nil,
    fun _ _ _ member => (by cases member), tip, fun _ member => (by cases member)⟩

theorem Sends.trans {doomslug₁ doomslug₂ : Doomslug} {sent₁ sent₂ : List Approval}
    (first : Sends signer doomslug own sent₁ doomslug₁)
    (second : Sends signer doomslug₁ (fun approval => own approval ∨ approval ∈ sent₁) sent₂ doomslug₂) :
    Sends signer doomslug own (sent₁ ++ sent₂) doomslug₂ := by
  refine ⟨second.emits.mono fun a sent => ?_, ?_, fun x earlier y later => ?_, second.tip.trans first.tip,
    fun a member => ?_⟩
  · rcases sent with earlier | member
    · exact .inl (.inl earlier)
    · rcases List.mem_append.mp member with inFirst | inSecond
      · exact .inl (.inr inFirst)
      · exact .inr inSecond
  · exact List.pairwise_append.mpr ⟨first.ordered, second.ordered, fun x inFirst y inSecond =>
      second.after x (.inr inFirst) y inSecond⟩
  · rcases List.mem_append.mp later with inFirst | inSecond
    · exact first.after x earlier y inFirst
    · exact second.after x (.inl earlier) y inSecond
  · rcases List.mem_append.mp member with inFirst | inSecond
    · exact first.fromTip a inFirst
    · rw [← first.tip]
      exact second.fromTip a inSecond

/-- The approval the node makes of a target above its tip, when the state after it has room
for that target and it comes after every earlier one. -/
theorem Emits.sends_createApproval (emits : doomslug'.Emits own) (tip : doomslug'.tip = doomslug.tip)
    {targetHeight : Nat} (above : doomslug.tip.height + 1 ≤ targetHeight)
    (room : targetHeight ≤ doomslug'.largestTargetHeight)
    (after : ∀ signer earlier, own earlier →
      earlier.Ordered (Approval.new doomslug.tip.blockHash doomslug.tip.height targetHeight signer)) :
    Sends signer doomslug own (doomslug.createApproval targetHeight signer).toList doomslug' := by
  cases signer with
  | none => exact emits.sends_nil tip
  | some signer =>
    let approval := Approval.new doomslug.tip.blockHash doomslug.tip.height targetHeight signer
    have parent : approval.parentHeight = doomslug.tip.height := Approval.parentHeight_new _ _ _ _
    have sent : (doomslug.createApproval targetHeight (some signer)).toList = [approval] := rfl
    rw [sent]
    refine ⟨⟨emits.timer, fun a member => ?_, fun a member endorses => ?_, fun a member => ?_⟩,
      List.pairwise_singleton _ _, fun earlier own' later member => ?_, tip, fun a member => ?_⟩
    · rcases member with earlier | member
      · exact emits.targets a earlier
      · rw [List.mem_singleton.mp member]
        exact room
    · rcases member with earlier | member
      · exact emits.endorsements a earlier endorses
      · rw [List.mem_singleton.mp member] at endorses ⊢
        rw [tip]
        exact Nat.le_of_eq ((ApprovalInner.isEndorsement_new _ _ _).mp endorses)
    · rcases member with earlier | member
      · exact emits.parents a earlier
      · rw [List.mem_singleton.mp member, parent, tip]
    · rw [List.mem_singleton.mp member]
      exact after signer earlier own'
    · rw [List.mem_singleton.mp member]
      exact ⟨rfl, above, rfl⟩

/-- The endorsement part of an iteration: the tip is endorsed only from a tip at or above the
largest target height, which then becomes the endorsed target. -/
theorem Emits.sends_endorseTip (emits : doomslug.Emits own) (now : Nat) :
    Sends signer doomslug own (doomslug.endorseTip now signer).1 (doomslug.endorseTip now signer).2 := by
  unfold endorseTip
  split
  · split
    · rename_i atOrAbove
      dsimp only
      refine Emits.sends_createApproval ?emits ?tip ?above ?room ?after
      case tip => rfl
      case above => exact Nat.le_refl _
      case room => exact Nat.le_refl _
      case emits =>
        refine ⟨emits.timer, fun a earlier => ?_, emits.endorsements, emits.parents⟩
        have := emits.targets a earlier
        change a.targetHeight ≤ doomslug.tip.height + 1
        omega
      case after =>
        -- every earlier target is at most the largest, which the tip has reached
        intro _ earlier sent
        have below : earlier.targetHeight < doomslug.tip.height + 1 := by
          have := emits.targets earlier sent
          omega
        refine ⟨fun _ => below, fun _ => below, ?_⟩
        rw [Approval.parentHeight_new]
        exact emits.parents earlier sent
    · dsimp only
      exact Emits.sends_nil ⟨emits.timer, emits.targets, emits.endorsements, emits.parents⟩ rfl
  · exact emits.sends_nil rfl

/-- The skip part of an iteration: the target after the timer's is at least two above the tip,
so the skip comes after every endorsement sent from this tip or an earlier one. -/
theorem Emits.sends_skipTimer (emits : doomslug.Emits own) {now : Nat} {skipDelay : Nat}
    {skipped : List Approval × Doomslug} (skips : doomslug.skipTimer now skipDelay signer = some skipped) :
    Sends signer doomslug own skipped.1 skipped.2 := by
  unfold skipTimer at skips
  split at skips
  · cases skips
    dsimp only
    have timer := emits.timer
    refine Emits.sends_createApproval ?emits ?tip ?above ?room ?after
    case tip => rfl
    case above => omega
    case room => exact le_max_left _ _
    case emits =>
      refine ⟨?_, fun a earlier => le_trans (emits.targets a earlier) (le_max_right _ _), emits.endorsements,
        emits.parents⟩
      change doomslug.tip.height + 1 ≤ doomslug.timer.height + 1
      omega
    case after =>
      -- the skip is no endorsement, and its target is above every endorsed one
      intro _ earlier sent
      refine ⟨fun endorsed => ?_, fun endorses => ?_, ?_⟩
      · have := emits.endorsements earlier sent endorsed
        change earlier.targetHeight < doomslug.timer.height + 1
        omega
      · have := (ApprovalInner.isEndorsement_new _ _ _).mp endorses
        omega
      · rw [Approval.parentHeight_new]
        exact emits.parents earlier sent
  · cases skips

/-- The loop of `process_timer`, iteration by iteration. -/
theorem Emits.sends_processTimerLoop (now : Nat) (iters : Nat) :
    ∀ {doomslug : Doomslug} {own : Approval → Prop}, doomslug.Emits own →
      Sends signer doomslug own (processTimerLoop now signer iters doomslug).1 (processTimerLoop now signer iters doomslug).2 := by
  induction iters with
  | zero => exact fun emits => emits.sends_nil rfl
  | succ iters ih =>
    intro doomslug own emits
    have endorsed : Sends signer doomslug own (doomslug.endorseTip now signer).1 (doomslug.endorseTip now signer).2 :=
      emits.sends_endorseTip now
    simp only [processTimerLoop]
    split
    · exact endorsed
    · rename_i skipped skips
      have skippedSends := endorsed.emits.sends_skipTimer skips
      rw [List.append_assoc]
      exact endorsed.trans (skippedSends.trans (ih skippedSends.emits))

/-- What `process_timer` sends, from a state whose tip was set. -/
theorem Emits.sends_processTimer (emits : doomslug.Emits own) (now : Nat) :
    Sends signer doomslug own (doomslug.processTimer now signer).1 (doomslug.processTimer now signer).2 :=
  emits.sends_processTimerLoop now maxTimerIters

end Doomslug

end Nearcore
