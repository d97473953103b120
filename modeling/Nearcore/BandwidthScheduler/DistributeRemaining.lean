import Nearcore.Primitives.DeriveShardLayout
import Nearcore.Library.Unsigned

/-! `distribute_remaining_bandwidth` of `runtime/src/bandwidth_scheduler/distribute_remaining.rs`:
once the bandwidth requests are granted, the budget each shard has left to send and to receive
is shared out over the links allowed between shards. The maps keyed by shard index and by link
are functions: each is built for the layout it is used with, so its indexing stays in range, and
the two endpoint maps are filled for every shard before they are read, so their `unwrap`s never
fail. A `Bandwidth` is a `u64`, here a natural number whose subtractions are checked. -/
namespace Nearcore.BandwidthScheduler

open Unsigned

abbrev ShardIndexMap (α : Type) := Nat → Option α

/-- Keyed by `ShardLink::new(sender, receiver)`. -/
abbrev ShardLinkMap (α : Type) := Nat → Nat → Option α

structure EndpointInfo where
  bandwidthLeft : Nat
  linksNum : Nat
  deriving DecidableEq, Repr

namespace EndpointInfo

def averageLinkBandwidth (info : EndpointInfo) : Nat :=
  if info.linksNum = 0 then 0 else info.bandwidthLeft / info.linksNum

def linkProposition (info : EndpointInfo) : Except Panic Nat :=
  div info.bandwidthLeft info.linksNum

section
attribute [local simp] linkProposition
end

/-- One more link to share the bandwidth over. -/
def addLink (info : EndpointInfo) : EndpointInfo := { info with linksNum := info.linksNum + 1 }

section
attribute [local simp] addLink
end

end EndpointInfo

/-- `is_link_allowed.get(..).unwrap_or(&false)`. -/
def isAllowed (isLinkAllowed : ShardLinkMap Bool) (sender receiver : Nat) : Bool :=
  (isLinkAllowed sender receiver).getD false

/-- The first loop: every shard starts with its budget, or `0` without one, and no links. -/
def newInfos (budgets : ShardIndexMap Nat) : Nat → EndpointInfo :=
  fun shardIndex => ⟨(budgets shardIndex).getD 0, 0⟩

section
attribute [local simp] newInfos
end

/-- The loop over receivers inside the second loop: an allowed link counts at both ends. -/
def countLinksFrom (isLinkAllowed : ShardLinkMap Bool) (sender : Nat) :
    List Nat → (Nat → EndpointInfo) × (Nat → EndpointInfo) → (Nat → EndpointInfo) × (Nat → EndpointInfo)
  | [], infos => infos
  | receiver :: receivers, (senderInfos, receiverInfos) =>
    countLinksFrom isLinkAllowed sender receivers
      (if isAllowed isLinkAllowed sender receiver then
        (Function.update senderInfos sender (senderInfos sender).addLink,
          Function.update receiverInfos receiver (receiverInfos receiver).addLink)
      else (senderInfos, receiverInfos))

section
attribute [local simp] countLinksFrom
end

def countLinks (isLinkAllowed : ShardLinkMap Bool) (receivers : List Nat) :
    List Nat → (Nat → EndpointInfo) × (Nat → EndpointInfo) → (Nat → EndpointInfo) × (Nat → EndpointInfo)
  | [], infos => infos
  | sender :: senders, infos =>
    countLinks isLinkAllowed receivers senders (countLinksFrom isLinkAllowed sender receivers infos)

section
attribute [local simp] countLinks
end

/-- `sort_by_key` on the average link bandwidth, a stable sort. -/
def sortByAverageLinkBandwidth (infos : Nat → EndpointInfo) (shardIndexes : List Nat) : List Nat :=
  shardIndexes.mergeSort fun a b =>
    decide ((infos a).averageLinkBandwidth ≤ (infos b).averageLinkBandwidth)

structure DistributionState where
  senderInfos : Nat → EndpointInfo
  receiverInfos : Nat → EndpointInfo
  bandwidthGrants : ShardLinkMap Nat

/-- How the loop over the receivers of one sender ends: it runs out of receivers, or takes its
`break`. The source drops this; the model keeps it to state that the `break` is never taken. -/
inductive LoopEnd
  | exhausted
  | broke
  deriving DecidableEq, Repr

/-- The grant on one link, with the bandwidth and the link left at both of its ends. -/
def DistributionState.grant (state : DistributionState) (sender receiver : Nat)
    (grantedBandwidth : Nat) (senderInfo receiverInfo : EndpointInfo) : DistributionState where
  senderInfos := Function.update state.senderInfos sender senderInfo
  receiverInfos := Function.update state.receiverInfos receiver receiverInfo
  bandwidthGrants := fun linkSender linkReceiver =>
    if linkSender = sender ∧ linkReceiver = receiver then some grantedBandwidth
    else state.bandwidthGrants linkSender linkReceiver

def grantToReceivers (isLinkAllowed : ShardLinkMap Bool) (sender : Nat) :
    List Nat → DistributionState → Except Panic (DistributionState × LoopEnd)
  | [], state => .ok (state, .exhausted)
  | receiver :: receivers, state =>
    if !isAllowed isLinkAllowed sender receiver then
      grantToReceivers isLinkAllowed sender receivers state
    else if (state.senderInfos sender).linksNum = 0 ∨ (state.receiverInfos receiver).linksNum = 0 then
      .ok (state, .broke)
    else do
      let senderInfo := state.senderInfos sender
      let receiverInfo := state.receiverInfos receiver
      let senderProposition ← senderInfo.linkProposition
      let receiverProposition ← receiverInfo.linkProposition
      let grantedBandwidth := min senderProposition receiverProposition
      let senderLeft ← sub senderInfo.bandwidthLeft grantedBandwidth
      let senderLinks ← sub senderInfo.linksNum 1
      let receiverLeft ← sub receiverInfo.bandwidthLeft grantedBandwidth
      let receiverLinks ← sub receiverInfo.linksNum 1
      grantToReceivers isLinkAllowed sender receivers
        (state.grant sender receiver grantedBandwidth ⟨senderLeft, senderLinks⟩
          ⟨receiverLeft, receiverLinks⟩)

section
attribute [local simp] grantToReceivers
end

def grantToSenders (isLinkAllowed : ShardLinkMap Bool) (receivers : List Nat) :
    List Nat → DistributionState → Except Panic (DistributionState × List LoopEnd)
  | [], state => .ok (state, [])
  | sender :: senders, state => do
    let (state, loopEnd) ← grantToReceivers isLinkAllowed sender receivers state
    let (state, loopEnds) ← grantToSenders isLinkAllowed receivers senders state
    .ok (state, loopEnd :: loopEnds)

section
attribute [local simp] grantToSenders
end

/-- The whole computation, with how each loop over receivers ended. -/
def distributeRemainingBandwidthRun (senderBudgets receiverBudgets : ShardIndexMap Nat)
    (isLinkAllowed : ShardLinkMap Bool) (shardLayout : ShardLayout) :
    Except Panic (DistributionState × List LoopEnd) :=
  let shardIndexes := List.range shardLayout.numShards
  let infos := countLinks isLinkAllowed shardIndexes shardIndexes
    (newInfos senderBudgets, newInfos receiverBudgets)
  grantToSenders isLinkAllowed (sortByAverageLinkBandwidth infos.2 shardIndexes)
    (sortByAverageLinkBandwidth infos.1 shardIndexes) ⟨infos.1, infos.2, fun _ _ => none⟩

def distributeRemainingBandwidth (senderBudgets receiverBudgets : ShardIndexMap Nat)
    (isLinkAllowed : ShardLinkMap Bool) (shardLayout : ShardLayout) :
    Except Panic (ShardLinkMap Nat) :=
  (distributeRemainingBandwidthRun senderBudgets receiverBudgets isLinkAllowed shardLayout).map
    fun run => run.1.bandwidthGrants

/-! Counting the links. -/

theorem countLinksFrom_spec (isLinkAllowed : ShardLinkMap Bool) (sender : Nat) (receivers : List Nat) :
    ∀ infos : (Nat → EndpointInfo) × (Nat → EndpointInfo),
      (∀ shardIndex, (countLinksFrom isLinkAllowed sender receivers infos).1 shardIndex =
        ⟨(infos.1 shardIndex).bandwidthLeft, (infos.1 shardIndex).linksNum +
          if shardIndex = sender then receivers.countP (isAllowed isLinkAllowed sender ·) else 0⟩) ∧
      (∀ shardIndex, (countLinksFrom isLinkAllowed sender receivers infos).2 shardIndex =
        ⟨(infos.2 shardIndex).bandwidthLeft, (infos.2 shardIndex).linksNum +
          if isAllowed isLinkAllowed sender shardIndex then receivers.count shardIndex else 0⟩) := by
  induction receivers with
  | nil => intro infos; simp [countLinksFrom]
  | cons receiver receivers ih =>
    rintro ⟨senderInfos, receiverInfos⟩
    by_cases allowed : isAllowed isLinkAllowed sender receiver = true
    · rw [countLinksFrom, if_pos allowed]
      obtain ⟨senders, counted⟩ := ih (Function.update senderInfos sender (senderInfos sender).addLink,
        Function.update receiverInfos receiver (receiverInfos receiver).addLink)
      refine ⟨fun shardIndex => ?_, fun shardIndex => ?_⟩
      · rw [senders shardIndex]
        by_cases same : shardIndex = sender
        · subst same
          simp [EndpointInfo.addLink, allowed]
          omega
        · simp [same]
      · rw [counted shardIndex]
        by_cases same : shardIndex = receiver
        · subst same
          simp [EndpointInfo.addLink, allowed]
          omega
        · simp [Function.update_of_ne same, Ne.symm same]
    · rw [countLinksFrom, if_neg allowed]
      obtain ⟨senders, counted⟩ := ih (senderInfos, receiverInfos)
      refine ⟨fun shardIndex => ?_, fun shardIndex => ?_⟩
      · rw [senders shardIndex]
        simp [allowed]
      · rw [counted shardIndex]
        by_cases same : shardIndex = receiver
        · subst same
          simp [allowed]
        · simp [Ne.symm same]

/-- After the second loop every shard counts its allowed links, once for each time it is listed. -/
theorem countLinks_spec (isLinkAllowed : ShardLinkMap Bool) (receivers senders : List Nat) :
    ∀ infos : (Nat → EndpointInfo) × (Nat → EndpointInfo),
      (∀ shardIndex, (countLinks isLinkAllowed receivers senders infos).1 shardIndex =
        ⟨(infos.1 shardIndex).bandwidthLeft, (infos.1 shardIndex).linksNum +
          senders.count shardIndex * receivers.countP (isAllowed isLinkAllowed shardIndex ·)⟩) ∧
      (∀ shardIndex, (countLinks isLinkAllowed receivers senders infos).2 shardIndex =
        ⟨(infos.2 shardIndex).bandwidthLeft, (infos.2 shardIndex).linksNum +
          receivers.count shardIndex * senders.countP (isAllowed isLinkAllowed · shardIndex)⟩) := by
  induction senders with
  | nil => intro infos; simp [countLinks]
  | cons sender senders ih =>
    intro infos
    obtain ⟨fromSender, toReceivers⟩ := countLinksFrom_spec isLinkAllowed sender receivers infos
    obtain ⟨senderSide, receiverSide⟩ := ih (countLinksFrom isLinkAllowed sender receivers infos)
    refine ⟨fun shardIndex => ?_, fun shardIndex => ?_⟩
    · rw [countLinks, senderSide, fromSender]
      by_cases same : shardIndex = sender
      · subst same
        simp [Nat.add_mul]
        omega
      · simp [same, Ne.symm same]
    · rw [countLinks, receiverSide, toReceivers]
      by_cases allowed : isAllowed isLinkAllowed sender shardIndex = true
      · simp [allowed, Nat.mul_add]
        omega
      · simp [allowed]

/-! The grid of grants and the budgets. -/

@[simp] theorem grant_bandwidthGrants (state : DistributionState) (sender receiver : Nat)
    (grantedBandwidth : Nat) (senderInfo receiverInfo : EndpointInfo) (linkSender linkReceiver : Nat) :
    (state.grant sender receiver grantedBandwidth senderInfo receiverInfo).bandwidthGrants linkSender
        linkReceiver =
      if linkSender = sender ∧ linkReceiver = receiver then some grantedBandwidth
      else state.bandwidthGrants linkSender linkReceiver := rfl

@[simp] theorem grant_senderInfos (state : DistributionState) (sender receiver : Nat)
    (grantedBandwidth : Nat) (senderInfo receiverInfo : EndpointInfo) :
    (state.grant sender receiver grantedBandwidth senderInfo receiverInfo).senderInfos =
      Function.update state.senderInfos sender senderInfo := rfl

@[simp] theorem grant_receiverInfos (state : DistributionState) (sender receiver : Nat)
    (grantedBandwidth : Nat) (senderInfo receiverInfo : EndpointInfo) :
    (state.grant sender receiver grantedBandwidth senderInfo receiverInfo).receiverInfos =
      Function.update state.receiverInfos receiver receiverInfo := rfl

/-- A grant where there was none adds to one entry of a row or column of the grid. -/
theorem sum_range_ite_of_eq_zero {f : Nat → Nat} {index n : Nat} (inside : index < n)
    (zero : f index = 0) (value : Nat) :
    ∑ i ∈ Finset.range n, (if i = index then value else f i) = ∑ i ∈ Finset.range n, f i + value := by
  have pointwise : ∀ i, (if i = index then value else f i) = f i + if i = index then value else 0 := by
    intro i
    by_cases same : i = index
    · simp [same, zero]
    · simp [same]
  rw [Finset.sum_congr rfl fun i _ => pointwise i, Finset.sum_add_distrib,
    Finset.sum_ite_eq' (Finset.range n) index, if_pos (Finset.mem_range.mpr inside)]

section Invariants

variable (isLinkAllowed : ShardLinkMap Bool) (senderBudgets receiverBudgets : ShardIndexMap Nat)
  (n : Nat)

/-- What the run keeps of the budgets: on each row and each column of the grid of grants, what is
granted and what is left add up to the budget; and no link outside the layout, nor any that is
not allowed, has a grant. -/
structure Totals (state : DistributionState) : Prop where
  sender : ∀ sender, ∑ receiver ∈ Finset.range n, (state.bandwidthGrants sender receiver).getD 0 +
    (state.senderInfos sender).bandwidthLeft = (senderBudgets sender).getD 0
  receiver : ∀ receiver, ∑ sender ∈ Finset.range n, (state.bandwidthGrants sender receiver).getD 0 +
    (state.receiverInfos receiver).bandwidthLeft = (receiverBudgets receiver).getD 0
  disallowed : ∀ sender receiver, isAllowed isLinkAllowed sender receiver = false →
    state.bandwidthGrants sender receiver = none
  outside : ∀ sender receiver, n ≤ sender ∨ n ≤ receiver → state.bandwidthGrants sender receiver = none

/-- Before the loop visits the senders `todo`, each receives on as many links as it has allowed
ones, and each receiver sends on as many as it has allowed ones from those senders. -/
structure SenderLoopInv (receivers todo : List Nat) (state : DistributionState) : Prop where
  totals : Totals isLinkAllowed senderBudgets receiverBudgets n state
  senderLinks : ∀ sender ∈ todo,
    (state.senderInfos sender).linksNum = receivers.countP (isAllowed isLinkAllowed sender ·)
  receiverLinks : ∀ receiver ∈ receivers,
    (state.receiverInfos receiver).linksNum = todo.countP (isAllowed isLinkAllowed · receiver)
  unvisited : ∀ sender ∈ todo, ∀ receiver, state.bandwidthGrants sender receiver = none

/-- Inside the loop over the receivers of `sender`, before it visits the receivers `later`, with
the senders `rest` still to come: the counting argument that keeps both ends of an allowed link
with a link to share their bandwidth over. -/
structure ReceiverLoopInv (receivers : List Nat) (sender : Nat) (rest later : List Nat)
    (state : DistributionState) : Prop where
  totals : Totals isLinkAllowed senderBudgets receiverBudgets n state
  senderLinks : (state.senderInfos sender).linksNum = later.countP (isAllowed isLinkAllowed sender ·)
  restLinks : ∀ other ∈ rest,
    (state.senderInfos other).linksNum = receivers.countP (isAllowed isLinkAllowed other ·)
  receiverLinks : ∀ receiver ∈ receivers, (state.receiverInfos receiver).linksNum =
    rest.countP (isAllowed isLinkAllowed · receiver) +
      if receiver ∈ later ∧ isAllowed isLinkAllowed sender receiver = true then 1 else 0
  unvisited : ∀ other ∈ rest, ∀ receiver, state.bandwidthGrants other receiver = none
  pending : ∀ receiver ∈ later, state.bandwidthGrants sender receiver = none

variable {isLinkAllowed senderBudgets receiverBudgets n}

theorem Totals.grant {state : DistributionState} {sender receiver grantedBandwidth : Nat}
    (totals : Totals isLinkAllowed senderBudgets receiverBudgets n state)
    (senderInside : sender < n) (receiverInside : receiver < n)
    (allowed : isAllowed isLinkAllowed sender receiver = true)
    (fresh : state.bandwidthGrants sender receiver = none)
    (senderFits : grantedBandwidth ≤ (state.senderInfos sender).bandwidthLeft)
    (receiverFits : grantedBandwidth ≤ (state.receiverInfos receiver).bandwidthLeft)
    (senderLinks receiverLinks : Nat) :
    Totals isLinkAllowed senderBudgets receiverBudgets n
      (state.grant sender receiver grantedBandwidth
        ⟨(state.senderInfos sender).bandwidthLeft - grantedBandwidth, senderLinks⟩
        ⟨(state.receiverInfos receiver).bandwidthLeft - grantedBandwidth, receiverLinks⟩) where
  sender := by
    intro other
    by_cases same : other = sender
    · subst same
      have total := totals.sender other
      simp only [grant_bandwidthGrants, true_and, grant_senderInfos, Function.update_self]
      rw [Finset.sum_congr rfl fun i _ => apply_ite (Option.getD · 0) _ _ _,
        sum_range_ite_of_eq_zero receiverInside (by simp [fresh])]
      simp only [Option.getD_some]
      generalize ∑ i ∈ Finset.range n, (state.bandwidthGrants other i).getD 0 = row at total ⊢
      omega
    · simp [same, totals.sender other]
  receiver := by
    intro other
    by_cases same : other = receiver
    · subst same
      have total := totals.receiver other
      simp only [grant_bandwidthGrants, and_true, grant_receiverInfos, Function.update_self]
      rw [Finset.sum_congr rfl fun i _ => apply_ite (Option.getD · 0) _ _ _,
        sum_range_ite_of_eq_zero senderInside (by simp [fresh])]
      simp only [Option.getD_some]
      generalize ∑ i ∈ Finset.range n, (state.bandwidthGrants i other).getD 0 = column at total ⊢
      omega
    · simp [same, totals.receiver other]
  disallowed := by
    intro linkSender linkReceiver blocked
    have other : ¬(linkSender = sender ∧ linkReceiver = receiver) := by
      rintro ⟨rfl, rfl⟩
      rw [allowed] at blocked
      cases blocked
    simp [other, totals.disallowed _ _ blocked]
  outside := by
    intro linkSender linkReceiver beyond
    have other : ¬(linkSender = sender ∧ linkReceiver = receiver) := by
      rintro ⟨rfl, rfl⟩
      omega
    simp [other, totals.outside _ _ beyond]

/-- The loop over a sender's receivers starts where the loop over senders stands. -/
theorem SenderLoopInv.start {receivers rest : List Nat} {sender : Nat} {state : DistributionState}
    (inv : SenderLoopInv isLinkAllowed senderBudgets receiverBudgets n receivers (sender :: rest) state) :
    ReceiverLoopInv isLinkAllowed senderBudgets receiverBudgets n receivers sender rest receivers
      state where
  totals := inv.totals
  senderLinks := inv.senderLinks sender List.mem_cons_self
  restLinks := fun other member => inv.senderLinks other (List.mem_cons_of_mem _ member)
  receiverLinks := by
    intro receiver listed
    rw [inv.receiverLinks receiver listed, List.countP_cons]
    simp [listed]
  unvisited := fun other member => inv.unvisited other (List.mem_cons_of_mem _ member)
  pending := fun _ _ => inv.unvisited sender List.mem_cons_self _

/-- Once a sender's receivers are all visited, the loop over senders goes on with the rest. -/
theorem ReceiverLoopInv.finish {receivers rest : List Nat} {sender : Nat} {state : DistributionState}
    (inv : ReceiverLoopInv isLinkAllowed senderBudgets receiverBudgets n receivers sender rest [] state) :
    SenderLoopInv isLinkAllowed senderBudgets receiverBudgets n receivers rest state where
  totals := inv.totals
  senderLinks := inv.restLinks
  receiverLinks := fun receiver listed => by simpa using inv.receiverLinks receiver listed
  unvisited := inv.unvisited

/-- A link that is not allowed is passed over. -/
theorem ReceiverLoopInv.skip {receivers rest later : List Nat} {sender receiver : Nat}
    {state : DistributionState}
    (inv : ReceiverLoopInv isLinkAllowed senderBudgets receiverBudgets n receivers sender rest
      (receiver :: later) state)
    (blocked : isAllowed isLinkAllowed sender receiver = false) :
    ReceiverLoopInv isLinkAllowed senderBudgets receiverBudgets n receivers sender rest later state where
  totals := inv.totals
  senderLinks := by rw [inv.senderLinks, List.countP_cons, if_neg (by simp [blocked])]; rfl
  restLinks := inv.restLinks
  receiverLinks := by
    intro other listed
    rw [inv.receiverLinks other listed]
    by_cases same : other = receiver
    · subst same
      simp [blocked]
    · simp [same]
  unvisited := inv.unvisited
  pending := fun other member => inv.pending other (List.mem_cons_of_mem _ member)

/-- The counting argument: both ends of the next allowed link still have a link to share their
bandwidth over, so the `break` is not taken and neither proposition divides by zero. -/
theorem ReceiverLoopInv.linksNum_pos {receivers rest later : List Nat} {sender receiver : Nat}
    {state : DistributionState}
    (inv : ReceiverLoopInv isLinkAllowed senderBudgets receiverBudgets n receivers sender rest
      (receiver :: later) state)
    (listed : receiver ∈ receivers) (allowed : isAllowed isLinkAllowed sender receiver = true) :
    0 < (state.senderInfos sender).linksNum ∧ 0 < (state.receiverInfos receiver).linksNum := by
  rw [inv.senderLinks, inv.receiverLinks receiver listed, List.countP_cons]
  simp [allowed]

/-- A grant on the next allowed link leaves one link fewer at both ends. -/
theorem ReceiverLoopInv.grant {receivers rest later : List Nat} {sender receiver grantedBandwidth : Nat}
    {state : DistributionState}
    (inv : ReceiverLoopInv isLinkAllowed senderBudgets receiverBudgets n receivers sender rest
      (receiver :: later) state)
    (listed : receiver ∈ receivers) (fresh : receiver ∉ later) (senderLater : sender ∉ rest)
    (senderInside : sender < n) (receiverInside : receiver < n)
    (allowed : isAllowed isLinkAllowed sender receiver = true)
    (senderFits : grantedBandwidth ≤ (state.senderInfos sender).bandwidthLeft)
    (receiverFits : grantedBandwidth ≤ (state.receiverInfos receiver).bandwidthLeft) :
    ReceiverLoopInv isLinkAllowed senderBudgets receiverBudgets n receivers sender rest later
      (state.grant sender receiver grantedBandwidth
        ⟨(state.senderInfos sender).bandwidthLeft - grantedBandwidth,
          (state.senderInfos sender).linksNum - 1⟩
        ⟨(state.receiverInfos receiver).bandwidthLeft - grantedBandwidth,
          (state.receiverInfos receiver).linksNum - 1⟩) where
  totals := inv.totals.grant senderInside receiverInside allowed
    (inv.pending receiver List.mem_cons_self) senderFits receiverFits _ _
  senderLinks := by
    rw [grant_senderInfos, Function.update_self, inv.senderLinks, List.countP_cons, if_pos allowed]
    rfl
  restLinks := by
    intro other member
    have differ : other ≠ sender := fun same => senderLater (same ▸ member)
    rw [grant_senderInfos, Function.update_of_ne differ, inv.restLinks other member]
  receiverLinks := by
    intro other otherListed
    rw [grant_receiverInfos]
    by_cases same : other = receiver
    · subst same
      rw [Function.update_self, inv.receiverLinks other otherListed]
      simp [allowed, fresh]
    · rw [Function.update_of_ne same, inv.receiverLinks other otherListed]
      simp [same]
  unvisited := by
    intro other member linkReceiver
    have differ : other ≠ sender := fun same => senderLater (same ▸ member)
    simp [differ, inv.unvisited other member linkReceiver]
  pending := by
    intro other member
    have differ : other ≠ receiver := fun same => fresh (same ▸ member)
    simp [differ, inv.pending other (List.mem_cons_of_mem _ member)]

/-- Where both ends of an allowed link have a link left, the loop grants the smaller of their two
propositions on it and goes on. -/
theorem grantToReceivers_cons_of_pos {sender receiver : Nat} {receivers : List Nat}
    {state : DistributionState} (allowed : isAllowed isLinkAllowed sender receiver = true)
    (senderPos : 0 < (state.senderInfos sender).linksNum)
    (receiverPos : 0 < (state.receiverInfos receiver).linksNum) :
    grantToReceivers isLinkAllowed sender (receiver :: receivers) state =
      grantToReceivers isLinkAllowed sender receivers
        (state.grant sender receiver
          (min ((state.senderInfos sender).bandwidthLeft / (state.senderInfos sender).linksNum)
            ((state.receiverInfos receiver).bandwidthLeft / (state.receiverInfos receiver).linksNum))
          ⟨(state.senderInfos sender).bandwidthLeft -
              min ((state.senderInfos sender).bandwidthLeft / (state.senderInfos sender).linksNum)
                ((state.receiverInfos receiver).bandwidthLeft / (state.receiverInfos receiver).linksNum),
            (state.senderInfos sender).linksNum - 1⟩
          ⟨(state.receiverInfos receiver).bandwidthLeft -
              min ((state.senderInfos sender).bandwidthLeft / (state.senderInfos sender).linksNum)
                ((state.receiverInfos receiver).bandwidthLeft / (state.receiverInfos receiver).linksNum),
            (state.receiverInfos receiver).linksNum - 1⟩) := by
  -- the grant is at most what each end has left, so neither subtraction underflows
  have senderFits : min ((state.senderInfos sender).bandwidthLeft / (state.senderInfos sender).linksNum)
      ((state.receiverInfos receiver).bandwidthLeft / (state.receiverInfos receiver).linksNum) ≤
        (state.senderInfos sender).bandwidthLeft :=
    (min_le_left _ _).trans (Nat.div_le_self _ _)
  have receiverFits : min ((state.senderInfos sender).bandwidthLeft / (state.senderInfos sender).linksNum)
      ((state.receiverInfos receiver).bandwidthLeft / (state.receiverInfos receiver).linksNum) ≤
        (state.receiverInfos receiver).bandwidthLeft :=
    (min_le_right _ _).trans (Nat.div_le_self _ _)
  rw [grantToReceivers, if_neg (by simp [allowed]), if_neg (by omega)]
  simp only [EndpointInfo.linkProposition, div_of_pos senderPos, div_of_pos receiverPos,
    Except.ok_bind, sub_of_le senderFits, sub_of_le receiverFits, sub_of_le senderPos,
    sub_of_le receiverPos]

/-- The loop over one sender's receivers: by induction on the receivers still to visit, with
`ReceiverLoopInv` carried from one to the next, it never panics nor breaks, and hands the loop
over senders its invariant back for the senders after this one. -/
theorem grantToReceivers_exhausts {receivers rest : List Nat} {sender : Nat}
    (receiversInside : ∀ receiver ∈ receivers, receiver < n) (senderInside : sender < n)
    (senderLater : sender ∉ rest) :
    ∀ (later : List Nat) (state : DistributionState), later.Nodup → later ⊆ receivers →
      ReceiverLoopInv isLinkAllowed senderBudgets receiverBudgets n receivers sender rest later state →
      ∃ state', grantToReceivers isLinkAllowed sender later state = .ok (state', .exhausted) ∧
        SenderLoopInv isLinkAllowed senderBudgets receiverBudgets n receivers rest state'
  | [], state, _, _, inv => ⟨state, rfl, inv.finish⟩
  | receiver :: later, state, nodup, listedAll, inv => by
    obtain ⟨fresh, nodupLater⟩ := List.nodup_cons.mp nodup
    have listed : receiver ∈ receivers := listedAll List.mem_cons_self
    have listedLater : later ⊆ receivers := fun _ member => listedAll (List.mem_cons_of_mem _ member)
    by_cases allowed : isAllowed isLinkAllowed sender receiver = true
    · obtain ⟨senderPos, receiverPos⟩ := inv.linksNum_pos listed allowed
      rw [grantToReceivers_cons_of_pos allowed senderPos receiverPos]
      exact grantToReceivers_exhausts receiversInside senderInside senderLater later _ nodupLater
        listedLater (inv.grant listed fresh senderLater senderInside (receiversInside _ listed) allowed
          ((min_le_left _ _).trans (Nat.div_le_self _ _))
          ((min_le_right _ _).trans (Nat.div_le_self _ _)))
    · have blocked : isAllowed isLinkAllowed sender receiver = false := by simpa using allowed
      rw [grantToReceivers, if_pos (by simp [blocked])]
      exact grantToReceivers_exhausts receiversInside senderInside senderLater later state nodupLater
        listedLater (inv.skip blocked)

/-- The loop over senders, by induction on the senders still to visit: every loop over receivers
runs out of receivers, and the budgets are kept. -/
theorem grantToSenders_exhausts {receivers : List Nat} (receiversNodup : receivers.Nodup)
    (receiversInside : ∀ receiver ∈ receivers, receiver < n) :
    ∀ (todo : List Nat) (state : DistributionState), todo.Nodup → (∀ sender ∈ todo, sender < n) →
      SenderLoopInv isLinkAllowed senderBudgets receiverBudgets n receivers todo state →
      ∃ state' loopEnds, grantToSenders isLinkAllowed receivers todo state = .ok (state', loopEnds) ∧
        (∀ loopEnd ∈ loopEnds, loopEnd = .exhausted) ∧
        Totals isLinkAllowed senderBudgets receiverBudgets n state'
  | [], state, _, _, inv => ⟨state, [], rfl, by simp, inv.totals⟩
  | sender :: rest, state, nodup, sendersInside, inv => by
    obtain ⟨senderLater, nodupRest⟩ := List.nodup_cons.mp nodup
    obtain ⟨middle, senderRun, middleInv⟩ := grantToReceivers_exhausts receiversInside
      (sendersInside sender List.mem_cons_self) senderLater receivers state receiversNodup
      (List.Subset.refl _) inv.start
    obtain ⟨final, loopEnds, restRun, exhausted, totals⟩ := grantToSenders_exhausts receiversNodup
      receiversInside rest middle nodupRest
      (fun other member => sendersInside other (List.mem_cons_of_mem _ member)) middleInv
    refine ⟨final, .exhausted :: loopEnds, ?_, ?_, totals⟩
    · simp [grantToSenders, senderRun, restRun]
    · simpa using exhausted

theorem sortByAverageLinkBandwidth_perm (infos : Nat → EndpointInfo) (shardIndexes : List Nat) :
    (sortByAverageLinkBandwidth infos shardIndexes).Perm shardIndexes :=
  List.mergeSort_perm _ _

/-- Once the links are counted, with no grant yet, the loop over senders may start: each shard is
listed once, so it counts exactly its allowed links, whatever order the two sorts put them in. -/
theorem SenderLoopInv.initial :
    SenderLoopInv isLinkAllowed senderBudgets receiverBudgets n
      (sortByAverageLinkBandwidth (countLinks isLinkAllowed (List.range n) (List.range n)
        (newInfos senderBudgets, newInfos receiverBudgets)).2 (List.range n))
      (sortByAverageLinkBandwidth (countLinks isLinkAllowed (List.range n) (List.range n)
        (newInfos senderBudgets, newInfos receiverBudgets)).1 (List.range n))
      ⟨(countLinks isLinkAllowed (List.range n) (List.range n)
          (newInfos senderBudgets, newInfos receiverBudgets)).1,
        (countLinks isLinkAllowed (List.range n) (List.range n)
          (newInfos senderBudgets, newInfos receiverBudgets)).2, fun _ _ => none⟩ := by
  obtain ⟨senders, receivers⟩ := countLinks_spec isLinkAllowed (List.range n) (List.range n)
    (newInfos senderBudgets, newInfos receiverBudgets)
  have once : ∀ shardIndex ∈ List.range n, (List.range n).count shardIndex = 1 :=
    fun _ => List.count_eq_one_of_mem List.nodup_range
  refine ⟨⟨?_, ?_, ?_, ?_⟩, ?_, ?_, ?_⟩
  · intro sender
    simp [senders, newInfos]
  · intro receiver
    simp [receivers, newInfos]
  · intros; rfl
  · intros; rfl
  · intro sender member
    have inRange := (sortByAverageLinkBandwidth_perm _ _).mem_iff.mp member
    dsimp only
    rw [senders, (sortByAverageLinkBandwidth_perm _ _).countP_eq]
    simp [newInfos, once sender inRange]
  · intro receiver member
    have inRange := (sortByAverageLinkBandwidth_perm _ _).mem_iff.mp member
    dsimp only
    rw [receivers, (sortByAverageLinkBandwidth_perm _ _).countP_eq]
    simp [newInfos, once receiver inRange]
  · intros; rfl

end Invariants

/-- The remaining bandwidth is shared out without a panic and without taking the `break`, grants
nothing on a link that is not allowed or lies outside the layout, and grants no shard more to send
or to receive than its budget: for every layout, budgets and allowed links. -/
theorem distributeRemainingBandwidth_within_budgets (senderBudgets receiverBudgets : ShardIndexMap Nat)
    (isLinkAllowed : ShardLinkMap Bool) (shardLayout : ShardLayout) :
    ∃ state loopEnds, distributeRemainingBandwidthRun senderBudgets receiverBudgets isLinkAllowed
        shardLayout = .ok (state, loopEnds) ∧
      (∀ loopEnd ∈ loopEnds, loopEnd = .exhausted) ∧
      (∀ sender receiver, isAllowed isLinkAllowed sender receiver = false →
        state.bandwidthGrants sender receiver = none) ∧
      (∀ sender receiver, shardLayout.numShards ≤ sender ∨ shardLayout.numShards ≤ receiver →
        state.bandwidthGrants sender receiver = none) ∧
      (∀ sender, ∑ receiver ∈ Finset.range shardLayout.numShards,
        (state.bandwidthGrants sender receiver).getD 0 ≤ (senderBudgets sender).getD 0) ∧
      (∀ receiver, ∑ sender ∈ Finset.range shardLayout.numShards,
        (state.bandwidthGrants sender receiver).getD 0 ≤ (receiverBudgets receiver).getD 0) := by
  have inRange : ∀ (infos : Nat → EndpointInfo),
      ∀ shardIndex ∈ sortByAverageLinkBandwidth infos (List.range shardLayout.numShards),
        shardIndex < shardLayout.numShards := fun infos shardIndex member =>
    List.mem_range.mp ((sortByAverageLinkBandwidth_perm _ _).mem_iff.mp member)
  obtain ⟨state, loopEnds, run, exhausted, totals⟩ :=
    grantToSenders_exhausts ((sortByAverageLinkBandwidth_perm _ _).nodup_iff.mpr List.nodup_range)
      (inRange _) _ _ ((sortByAverageLinkBandwidth_perm _ _).nodup_iff.mpr List.nodup_range)
      (inRange _) SenderLoopInv.initial
  refine ⟨state, loopEnds, run, exhausted, totals.disallowed, totals.outside, fun sender => ?_,
    fun receiver => ?_⟩
  · rw [← totals.sender sender]
    exact Nat.le_add_right _ _
  · rw [← totals.receiver receiver]
    exact Nat.le_add_right _ _

end Nearcore.BandwidthScheduler
