import Nearcore.Library.Quorum
import Nearcore.Doomslug.Network

/-! Doomslug finality is safe in the protocol of the fuzz test. A block `b` with a child `c` at
the next height and a grandchild `g` at the one after has two certificates: the accounts that
endorsed `b` for `c`, and those that endorsed `c` for `g`. Any certificate of a block above `b`
meets one of them in an account, by the weight of two thirds; that account sent both approvals,
and the order of one account's approvals then says the block is built on `b`, on `c`, or on a
block above `b`, which by induction on the height descends from `b`. -/
namespace Nearcore

theorem ApprovalInner.hash_of_new_eq_endorsement {parentHash hash : CryptoHash} {parentHeight targetHeight : Nat}
    (endorses : ApprovalInner.new parentHash parentHeight targetHeight = .endorsement hash) : parentHash = hash := by
  unfold ApprovalInner.new at endorses
  split at endorses
  · exact ApprovalInner.endorsement.inj endorses
  · cases endorses

theorem ApprovalInner.new_succ_isEndorsement (parentHash : CryptoHash) (parentHeight : Nat) :
    (ApprovalInner.new parentHash parentHeight (parentHeight + 1)).isEndorsement = true :=
  (ApprovalInner.isEndorsement_new _ _ _).mpr rfl

namespace Network

variable {ι : Type} {account : ι → AccountId} {stakes : List ApprovalStake} {network : Network ι}

/-- Two certificates share an account, which sent an approval for each. -/
theorem Certified.meet {block parent block' parent' : Block} (certified : network.Certified stakes block parent)
    (certified' : network.Certified stakes block' parent') :
    ∃ approval ∈ network.sent, ∃ approval' ∈ network.sent, approval.accountId = approval'.accountId ∧
      approval.targetHeight = block.height ∧ approval.inner = ApprovalInner.new parent.hash parent.height block.height ∧
      approval'.targetHeight = block'.height ∧
      approval'.inner = ApprovalInner.new parent'.hash parent'.height block'.height := by
  obtain ⟨voters, distinct, quorum, approved⟩ := certified
  obtain ⟨voters', distinct', quorum', approved'⟩ := certified'
  -- only the accounts of the stakes weigh
  have support : ∀ accountId, stakeThisEpoch stakes accountId ≠ 0 → accountId ∈ (accountIdToStakes stakes).keys := by
    intro accountId weighs
    by_contra absent
    have looked : (accountIdToStakes stakes).lookup accountId = none := AList.lookup_eq_none.mpr absent
    simp [stakeThisEpoch, looked] at weighs
  obtain ⟨accountId, member, member', -⟩ :=
    List.exists_mem_of_two_thirds distinct distinct' (AList.keys_nodup _) support quorum quorum'
  obtain ⟨approval, sent, signer, target, inner⟩ := approved accountId member
  obtain ⟨approval', sent', signer', target', inner'⟩ := approved' accountId member'
  exact ⟨approval, sent, approval', sent', signer.trans signer'.symm, target, inner, target', inner'⟩

variable (inv : network.Inv account stakes)
include inv

theorem Inv.eq_of_hash {block block' : Block} (member : block ∈ network.blocks) (member' : block' ∈ network.blocks)
    (same : block.hash = block'.hash) : block = block' :=
  List.inj_on_of_nodup_map inv.hashes member member' same

/-- A block whose parent is `parent` is certified on it. -/
theorem Inv.certified_of_child {child parent : Block} (member : child ∈ network.blocks)
    (parentMember : parent ∈ network.blocks) (prev : child.prevHash = some parent.hash) :
    network.Certified stakes child parent := by
  rcases inv.parents child member with ⟨root, -⟩ | ⟨parent', parentMember', prev', -, certified⟩
  · rw [root] at prev
    cases prev
  · rw [prev, Option.some.injEq] at prev'
    rw [inv.eq_of_hash parentMember parentMember' prev']
    exact certified

/-- Every block is above height 0. -/
theorem Inv.height_pos {block : Block} (member : block ∈ network.blocks) : 0 < block.height := by
  rcases inv.parents block member with ⟨-, one⟩ | ⟨_, -, -, lower, -⟩ <;> omega

/-- An account approves a target once if it endorses it. -/
theorem Inv.eq_of_endorsement {approval approval' : Approval} (sent : approval ∈ network.sent)
    (sent' : approval' ∈ network.sent) (signer : approval.accountId = approval'.accountId)
    (target : approval.targetHeight = approval'.targetHeight) (endorses : approval'.inner.isEndorsement = true) :
    approval = approval' := by
  rcases inv.ordered.eq_or_rel_of_mem sent sent' with same | ordered | ordered
  · exact same
  · have := (ordered signer).endorses endorses
    omega
  · have := (ordered signer.symm).endorsed endorses
    omega

/-- An account that endorsed a target cannot later approve a higher target from a lower parent. -/
theorem Inv.parent_le_of_endorsement {approval approval' : Approval} (sent : approval ∈ network.sent)
    (sent' : approval' ∈ network.sent) (signer : approval.accountId = approval'.accountId)
    (above : approval'.targetHeight < approval.targetHeight) (endorses : approval'.inner.isEndorsement = true) :
    approval'.parentHeight ≤ approval.parentHeight := by
  rcases inv.ordered.eq_or_rel_of_mem sent sent' with same | ordered | ordered
  · rw [same] at above
    omega
  · have := (ordered signer).endorses endorses
    omega
  · exact (ordered signer.symm).parents

/-- The block certified by an approval that is the endorsement of `parent` has `parent` as its
parent. -/
theorem Inv.parent_eq_of_endorsement {block parent other : Block} (member : parent ∈ network.blocks)
    (otherMember : other ∈ network.blocks) {approval approval' : Approval} (sent : approval ∈ network.sent)
    (sent' : approval' ∈ network.sent) (signer : approval.accountId = approval'.accountId)
    (target : approval.targetHeight = block.height) (inner : approval.inner = ApprovalInner.new other.hash other.height block.height)
    (target' : approval'.targetHeight = parent.height + 1)
    (inner' : approval'.inner = ApprovalInner.new parent.hash parent.height (parent.height + 1))
    (atHeight : block.height = parent.height + 1) : other = parent := by
  have endorses : approval'.inner.isEndorsement = true := by
    rw [inner']
    exact ApprovalInner.new_succ_isEndorsement _ _
  have same := inv.eq_of_endorsement sent sent' signer (by rw [target, target', atHeight]) endorses
  rw [same, inner', ApprovalInner.new, if_pos rfl] at inner
  exact inv.eq_of_hash otherMember member (ApprovalInner.hash_of_new_eq_endorsement inner.symm)

/-- Strong induction on the height: a block above `b` descends from it, once `b` has a child
and a grandchild at the next two heights. -/
theorem Inv.descends_of_final {b c g : Block} (bMember : b ∈ network.blocks) (cMember : c ∈ network.blocks)
    (gMember : g ∈ network.blocks) (cParent : c.prevHash = some b.hash) (cHeight : c.height = b.height + 1)
    (gParent : g.prevHash = some c.hash) (gHeight : g.height = c.height + 1) :
    ∀ height, ∀ x ∈ network.blocks, x.height = height → b.height < height → Descends network.blocks b x := by
  have certifiedC := inv.certified_of_child cMember bMember cParent
  have certifiedG := inv.certified_of_child gMember cMember gParent
  have bPos := inv.height_pos bMember
  intro height
  induction height using Nat.strong_induction_on with
  | _ height ih =>
    intro x member atHeight above
    rcases inv.parents x member with ⟨-, one⟩ | ⟨parent, parentMember, prev, lower, certified⟩
    · omega
    -- the certificate of `x` meets that of `c` or `g`, by the height of `x`
    by_cases first : height = b.height + 1
    · obtain ⟨approval, sent, approval', sent', signer, target, inner, target', inner'⟩ := certified.meet certifiedC
      rw [cHeight] at target' inner'
      have same := inv.parent_eq_of_endorsement bMember parentMember sent sent' signer target inner target' inner'
        (by rw [atHeight, first])
      exact .parent parentMember prev (same ▸ .refl)
    by_cases second : height = b.height + 2
    · obtain ⟨approval, sent, approval', sent', signer, target, inner, target', inner'⟩ := certified.meet certifiedG
      rw [gHeight] at target' inner'
      have same := inv.parent_eq_of_endorsement cMember parentMember sent sent' signer target inner target' inner'
        (by rw [atHeight, second, cHeight])
      exact .parent parentMember prev (same ▸ .parent bMember cParent .refl)
    -- higher up, the shared account endorsed `c` earlier, so it approved `x`'s target from a
    -- parent at least as high as `c`
    obtain ⟨approval, sent, approval', sent', signer, target, inner, target', inner'⟩ := certified.meet certifiedG
    have endorses : approval'.inner.isEndorsement = true := by
      rw [inner', gHeight]
      exact ApprovalInner.new_succ_isEndorsement _ _
    have parents := inv.parent_le_of_endorsement sent sent' signer (by omega) endorses
    rw [Approval.parentHeight_of_inner (inner.trans (by rw [target])),
      Approval.parentHeight_of_inner (inner'.trans (by rw [target']))] at parents
    have ancestor := ih parent.height (by omega) parent parentMember rfl (by omega)
    exact .parent parentMember prev ancestor

end Network

end Nearcore
