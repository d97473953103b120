import Nearcore.Primitives.TrieKey
import Nearcore.Primitives.Version
import Nearcore.Library.RunningTest

/-! Validator selection (`chain/epoch-manager/src/validator_selection.rs`). The proposals are
ordered by stake, larger first, ties going to the smaller account id; each role takes them in
that order, up to its seats, while each one's stake is more than `min_stake_ratio` of the
stake taken with it. Balances (`u128`) are natural numbers and `Ratio<u128>` values rationals:
stakes and their sums stay far below `2^128`. -/
namespace Nearcore

/-- `Balance`. -/
abbrev Balance := Nat

/-- `ValidatorStake`: an account and its stake. The public key travels with them in the source
and takes no part in selection. -/
structure ValidatorStake where
  accountId : AccountId
  stake : Balance
  deriving DecidableEq

namespace ValidatorStake

/-- The heap order of `OrderedValidatorStake`, whose key is `(stake, Reverse(account_id))`,
read as the order of the pops: `a` comes out no later than `b`. -/
def PopsBefore (a b : ValidatorStake) : Prop :=
  b.stake < a.stake ∨ (a.stake = b.stake ∧ a.accountId ≤ b.accountId)

instance : DecidableRel PopsBefore := fun a b =>
  inferInstanceAs (Decidable (b.stake < a.stake ∨ (a.stake = b.stake ∧ a.accountId ≤ b.accountId)))

/-- Sorted by stake descending, then by account id ascending. -/
def Precedes (a b : ValidatorStake) : Prop :=
  b.stake < a.stake ∨ (a.stake = b.stake ∧ a.accountId < b.accountId)

end ValidatorStake

/-- `order_proposals`: the `BinaryHeap` is modelled by the order it pops its proposals in. -/
def orderProposals (proposals : List ValidatorStake) : List ValidatorStake :=
  proposals.insertionSort ValidatorStake.PopsBefore

section
attribute [local simp] orderProposals
end

/-- `Ratio::new(p_stake, total_stake_with_p) > min_stake_ratio`. -/
def TakesMoreThan (minStakeRatio : ℚ) (totalStake : Balance) (p : ValidatorStake) : Prop :=
  minStakeRatio < (p.stake : ℚ) / ((totalStake + p.stake : Balance) : ℚ)

section
attribute [local simp] TakesMoreThan
end

instance (minStakeRatio : ℚ) (totalStake : Balance) (p : ValidatorStake) :
    Decidable (TakesMoreThan minStakeRatio totalStake p) :=
  inferInstanceAs (Decidable (_ < _))

/-- The loop of `select_validators`, `n` pops at most: a proposal is taken while it takes more
than the ratio, the first one that does not goes back to the heap. It returns the validators,
the heap, and the total stake taken. `none` is a panic: `Ratio::new` with a zero denominator. -/
def selectLoop (minStakeRatio : ℚ) : Nat → Balance → List ValidatorStake →
    Option (List ValidatorStake × List ValidatorStake × Balance)
  | 0, totalStake, proposals => some ([], proposals, totalStake)
  -- `proposals.pop().unwrap()`: the count never exceeds the heap
  | _ + 1, _, [] => none
  | n + 1, totalStake, p :: proposals =>
    if totalStake + p.stake = 0 then none
    else if TakesMoreThan minStakeRatio totalStake p then
      (selectLoop minStakeRatio n (totalStake + p.stake) proposals).map
        fun (validators, rest, total) => (p :: validators, rest, total)
    else some ([], p :: proposals, totalStake)

section
attribute [local simp] selectLoop
end

/-- The threshold `select_validators` returns with its validators. `none` is a panic: no last
validator when there are no seats, or a division by `1 - min_stake_ratio` that underflows or is
zero. -/
def stakeThreshold (validators : List ValidatorStake) (maxNumberSelected : Nat) (minStakeRatio : ℚ)
    (totalStake : Balance) (protocolVersion : ProtocolVersion) : Option Balance :=
  if validators.length = maxNumberSelected then
    -- every seat is filled: one more than the smallest stake taken
    validators.getLast?.map fun last => last.stake + 1
  else if ProtocolFeature.fixStakingThreshold.enabled protocolVersion then
    if 1 ≤ minStakeRatio then none
    else some ⌈minStakeRatio * totalStake / (1 - minStakeRatio)⌉₊
  else some ⌈minStakeRatio * totalStake⌉₊

section
attribute [local simp] stakeThreshold
end

/-- `select_validators`, on the heap as its pop order. -/
def selectValidators (proposals : List ValidatorStake) (maxNumberSelected : Nat) (minStakeRatio : ℚ)
    (protocolVersion : ProtocolVersion) : Option (List ValidatorStake × List ValidatorStake × Balance) := do
  let (validators, proposals, totalStake) ←
    selectLoop minStakeRatio (min maxNumberSelected proposals.length) 0 proposals
  let threshold ← stakeThreshold validators maxNumberSelected minStakeRatio totalStake protocolVersion
  pure (validators, proposals, threshold)

section
attribute [local simp] selectValidators
end

/-- `select_block_producers`. -/
def selectBlockProducers (blockProducerProposals : List ValidatorStake) (maxNumSelected : Nat)
    (minStakeRatio : ℚ) (protocolVersion : ProtocolVersion) :
    Option (List ValidatorStake × List ValidatorStake × Balance) :=
  selectValidators blockProducerProposals maxNumSelected minStakeRatio protocolVersion

section
attribute [local simp] selectBlockProducers
end

/-- `select_chunk_producers`: before `FixChunkProducerStakingThreshold` the ratio is shared
among the shards. -/
def selectChunkProducers (allProposals : List ValidatorStake) (maxNumSelected : Nat)
    (minStakeRatio : ℚ) (numShards : Nat) (protocolVersion : ProtocolVersion) :
    Option (List ValidatorStake × List ValidatorStake × Balance) :=
  let minStakeRatio :=
    if ProtocolFeature.fixChunkProducerStakingThreshold.enabled protocolVersion then minStakeRatio
    else minStakeRatio * (1 / numShards)
  selectValidators allProposals maxNumSelected minStakeRatio protocolVersion

section
attribute [local simp] selectChunkProducers
end

/-- The fields of `EpochConfig` that selection reads; `numShards` counts the shard layout's
shards, of which there is at least one. -/
structure EpochConfig where
  numBlockProducerSeats : Nat
  numChunkProducerSeats : Nat
  numChunkValidatorSeats : Nat
  minimumStakeRatio : ℚ
  numShards : Nat
  numShards_pos : 0 < numShards

/-- `ValidatorRoles`; the heap of unselected proposals is modelled by its pop order. -/
structure ValidatorRoles where
  unselectedProposals : List ValidatorStake
  chunkProducers : List ValidatorStake
  blockProducers : List ValidatorStake
  chunkValidators : List ValidatorStake
  threshold : Balance

/-- `select_validators_from_proposals`, the proposals given as the values of their map. -/
def selectValidatorsFromProposals (epochConfig : EpochConfig) (proposals : List ValidatorStake)
    (protocolVersion : ProtocolVersion) : Option ValidatorRoles := do
  let (chunkProducers, _, cpStakeThreshold) ←
    selectChunkProducers (orderProposals proposals) epochConfig.numChunkProducerSeats
      epochConfig.minimumStakeRatio epochConfig.numShards protocolVersion
  let (blockProducers, _, bpStakeThreshold) ←
    selectBlockProducers (orderProposals proposals) epochConfig.numBlockProducerSeats
      epochConfig.minimumStakeRatio protocolVersion
  let (chunkValidators, _, cvStakeThreshold) ←
    selectValidators (orderProposals proposals) epochConfig.numChunkValidatorSeats
      epochConfig.minimumStakeRatio protocolVersion
  let unselectedProposals := (orderProposals proposals).filter fun proposal =>
    !chunkProducers.contains proposal && !blockProducers.contains proposal &&
      !chunkValidators.contains proposal
  pure ⟨unselectedProposals, chunkProducers, blockProducers, chunkValidators,
    min (min bpStakeThreshold cpStakeThreshold) cvStakeThreshold⟩

section
attribute [local simp] selectValidatorsFromProposals
end

namespace ValidatorStake

theorem popsBefore_total (a b : ValidatorStake) : PopsBefore a b ∨ PopsBefore b a := by
  rcases lt_trichotomy a.stake b.stake with below | same | above
  · exact .inr (.inl below)
  · rcases List.le_total a.accountId.bytes b.accountId.bytes with le | ge
    · exact .inl (.inr ⟨same, le⟩)
    · exact .inr (.inr ⟨same.symm, ge⟩)
  · exact .inl (.inl above)

theorem popsBefore_trans {a b c : ValidatorStake} (first : PopsBefore a b) (second : PopsBefore b c) :
    PopsBefore a c := by
  rcases first with above | ⟨same, le⟩ <;> rcases second with above' | ⟨same', le'⟩
  · exact .inl (above'.trans above)
  · exact .inl (same' ▸ above)
  · exact .inl (same ▸ above')
  · exact .inr ⟨same.trans same', List.le_trans le le'⟩

instance : Std.Total PopsBefore := ⟨popsBefore_total⟩
instance : IsTrans ValidatorStake PopsBefore := ⟨fun _ _ _ => popsBefore_trans⟩

/-- Between proposals of different accounts the heap order is the strict order. -/
theorem precedes_of_popsBefore {a b : ValidatorStake} (pops : PopsBefore a b)
    (apart : a.accountId ≠ b.accountId) : Precedes a b := by
  rcases pops with above | ⟨same, le⟩
  · exact .inl above
  · have differ : a.accountId.bytes ≠ b.accountId.bytes := fun eq => apart (AccountId.bytes_injective eq)
    exact .inr ⟨same, (List.le_iff_lt_or_eq.mp le).resolve_right differ⟩

end ValidatorStake

/-- The heap pops the proposals, when their accounts are distinct, in the order sorted by stake
descending and account id ascending. -/
theorem orderProposals_pairwise {proposals : List ValidatorStake}
    (distinct : (proposals.map ValidatorStake.accountId).Nodup) :
    (orderProposals proposals).Pairwise ValidatorStake.Precedes := by
  have sorted := List.pairwise_insertionSort ValidatorStake.PopsBefore proposals
  have apart : (orderProposals proposals).Pairwise fun a b => a.accountId ≠ b.accountId :=
    List.pairwise_map.mp (((List.perm_insertionSort _ proposals).map _).nodup_iff.mpr distinct)
  exact (sorted.and apart).imp fun both => ValidatorStake.precedes_of_popsBefore both.1 both.2

theorem orderProposals_perm (proposals : List ValidatorStake) : (orderProposals proposals).Perm proposals :=
  List.perm_insertionSort _ proposals

/-- Each of the validators takes more than `r` of the stake up to and including its own:
`p_i.stake / (p_1.stake + ... + p_i.stake) > r`. -/
def Admissible (minStakeRatio : ℚ) (validators : List ValidatorStake) : Prop :=
  ∀ i (h : i < validators.length),
    minStakeRatio < (validators[i].stake : ℚ) / (((validators.take (i + 1)).map ValidatorStake.stake).sum : ℚ)

/-- `k` is the number of validators selection is meant to take from the ordered proposals: the
first `k` are admissible, fit in the seats, and no longer admissible run does. -/
structure LongestAdmissible (minStakeRatio : ℚ) (maxNumberSelected : Nat) (ordered : List ValidatorStake)
    (k : Nat) : Prop where
  le_max : k ≤ maxNumberSelected
  le_length : k ≤ ordered.length
  admissible : Admissible minStakeRatio (ordered.take k)
  longest : ∀ j ≤ maxNumberSelected, j ≤ ordered.length → Admissible minStakeRatio (ordered.take j) → j ≤ k

theorem foldl_addStake (l : List ValidatorStake) (totalStake : Balance) :
    l.foldl (fun total p => total + p.stake) totalStake = totalStake + (l.map ValidatorStake.stake).sum := by
  induction l generalizing totalStake with
  | nil => simp
  | cons p l ih => simp [ih, Nat.add_assoc]

/-- Admissibility is the running test of the selection loop, from no stake taken. -/
theorem admissible_iff_passesFrom (minStakeRatio : ℚ) (validators : List ValidatorStake) :
    Admissible minStakeRatio validators ↔
      validators.PassesFrom (fun total p => total + p.stake) (TakesMoreThan minStakeRatio) 0 := by
  rw [List.passesFrom_iff_getElem]
  apply forall_congr'
  intro i
  apply forall_congr'
  intro bound
  have upTo : validators.take (i + 1) = validators.take i ++ [validators[i]] := by
    rw [List.take_add_one, List.getElem?_eq_getElem bound]
    rfl
  rw [upTo, List.map_append, List.sum_append]
  simp [TakesMoreThan, foldl_addStake]

section Loop

variable (minStakeRatio : ℚ)

/-- The loop takes the first `k` proposals, `k` at most its count, each passing the ratio test
against the stake before it, and when it stops early the next proposal fails that test. -/
theorem selectLoop_spec : ∀ (n : Nat) (totalStake : Balance) (proposals : List ValidatorStake),
    (∀ p ∈ proposals, 0 < p.stake) → n ≤ proposals.length →
    ∃ k ≤ n, selectLoop minStakeRatio n totalStake proposals =
        some (proposals.take k, proposals.drop k,
          (proposals.take k).foldl (fun total p => total + p.stake) totalStake) ∧
      (proposals.take k).PassesFrom (fun total p => total + p.stake) (TakesMoreThan minStakeRatio) totalStake ∧
      (k < n → ∀ p, (proposals.drop k).head? = some p →
        ¬ TakesMoreThan minStakeRatio ((proposals.take k).foldl (fun total p => total + p.stake) totalStake) p)
  | 0, totalStake, proposals, _, _ => ⟨0, le_rfl, by simp [selectLoop], by simp, by simp⟩
  | n + 1, totalStake, [], _, bound => by simp at bound
  | n + 1, totalStake, p :: proposals, positive, bound => by
    have nonzero : p.stake ≠ 0 := Nat.ne_of_gt (positive p List.mem_cons_self)
    by_cases takes : TakesMoreThan minStakeRatio totalStake p
    · -- `p` is taken and the loop goes on from the stake with it
      obtain ⟨k, le, loop, passes, stops⟩ :=
        selectLoop_spec n (totalStake + p.stake) proposals
          (fun q member => positive q (List.mem_cons_of_mem p member)) (by simpa using bound)
      refine ⟨k + 1, by omega, ?_, ⟨takes, passes⟩, fun early => ?_⟩
      · simp [selectLoop, nonzero, takes, loop]
      · simpa using stops (by omega)
    · -- `p` goes back: nothing is taken
      refine ⟨0, by omega, by simp [selectLoop, nonzero, takes], by simp, fun _ q next => ?_⟩
      simp only [List.drop_zero, List.head?_cons, Option.some.injEq] at next
      subst next
      simpa using takes

end Loop

/-- Over an ordered heap of positive stakes, with at least one seat and a ratio below one,
`select_validators` returns the longest admissible run of the ordered proposals that fits in
the seats, and the rest. -/
theorem selectValidators_spec {proposals : List ValidatorStake} (positive : ∀ p ∈ proposals, 0 < p.stake)
    {maxNumberSelected : Nat} (atLeastOne : 1 ≤ maxNumberSelected) {minStakeRatio : ℚ}
    (belowOne : minStakeRatio < 1) (protocolVersion : ProtocolVersion) :
    ∃ k threshold, selectValidators proposals maxNumberSelected minStakeRatio protocolVersion =
        some (proposals.take k, proposals.drop k, threshold) ∧
      LongestAdmissible minStakeRatio maxNumberSelected proposals k := by
  obtain ⟨k, le, loop, passes, stops⟩ :=
    selectLoop_spec minStakeRatio _ 0 proposals positive (min_le_right maxNumberSelected _)
  have length : (proposals.take k).length = k := by
    have := min_le_right maxNumberSelected proposals.length
    simp only [List.length_take]
    omega
  -- the threshold is computed without a panic
  obtain ⟨threshold, computed⟩ : ∃ threshold, stakeThreshold (proposals.take k) maxNumberSelected
      minStakeRatio ((proposals.take k).foldl (fun total p => total + p.stake) 0) protocolVersion =
        some threshold := by
    unfold stakeThreshold
    split_ifs with filled _ atLeast
    · have nonempty : proposals.take k ≠ [] := by
        rw [← List.length_pos_iff, filled]
        exact atLeastOne
      exact ⟨_, by rw [List.getLast?_eq_some_getLast nonempty]; rfl⟩
    · exact absurd belowOne (not_lt.mpr atLeast)
    · exact ⟨_, rfl⟩
    · exact ⟨_, rfl⟩
  refine ⟨k, threshold, by simp [selectValidators, loop, computed], ?_⟩
  refine ⟨le.trans (min_le_left _ _), le.trans (min_le_right _ _),
    (admissible_iff_passesFrom _ _).mpr passes, fun j fits inside admissible => ?_⟩
  rcases Nat.lt_or_ge k (min maxNumberSelected proposals.length) with early | full
  · -- the loop stopped at a proposal that fails the test
    obtain ⟨p, next⟩ : ∃ p, (proposals.drop k).head? = some p := by
      have : k < proposals.length := lt_of_lt_of_le early (min_le_right _ _)
      exact ⟨proposals[k], by simp [List.head?_drop, this]⟩
    exact ((admissible_iff_passesFrom _ _).mp admissible).le_of_fails next (stops early p next)
  · exact le_trans (le_min fits inside) full

/-- The ratio chunk producers are selected with stays below one. -/
theorem chunkProducerRatio_lt_one {minStakeRatio : ℚ} (belowOne : minStakeRatio < 1) {numShards : Nat}
    (atLeastOne : 0 < numShards) (fixed : Bool) :
    (if fixed then minStakeRatio else minStakeRatio * (1 / numShards)) < 1 := by
  split_ifs
  · exact belowOne
  · have shards : (1 : ℚ) ≤ numShards := by exact_mod_cast atLeastOne
    rw [mul_one_div, div_lt_one (by linarith)]
    linarith

/-- The three passes of `select_validators_from_proposals` each take their longest admissible
run of the ordered proposals, and the unselected proposals are those none of them took. -/
theorem selectValidatorsFromProposals_spec (epochConfig : EpochConfig) {proposals : List ValidatorStake}
    (positive : ∀ p ∈ proposals, 0 < p.stake) (chunkProducerSeats : 1 ≤ epochConfig.numChunkProducerSeats)
    (blockProducerSeats : 1 ≤ epochConfig.numBlockProducerSeats)
    (chunkValidatorSeats : 1 ≤ epochConfig.numChunkValidatorSeats)
    (belowOne : epochConfig.minimumStakeRatio < 1) (protocolVersion : ProtocolVersion) :
    ∃ roles, selectValidatorsFromProposals epochConfig proposals protocolVersion = some roles ∧
      (∃ k, roles.chunkProducers = (orderProposals proposals).take k ∧
        LongestAdmissible
          (if ProtocolFeature.fixChunkProducerStakingThreshold.enabled protocolVersion then
            epochConfig.minimumStakeRatio
          else epochConfig.minimumStakeRatio / epochConfig.numShards)
          epochConfig.numChunkProducerSeats (orderProposals proposals) k) ∧
      (∃ k, roles.blockProducers = (orderProposals proposals).take k ∧
        LongestAdmissible epochConfig.minimumStakeRatio epochConfig.numBlockProducerSeats
          (orderProposals proposals) k) ∧
      (∃ k, roles.chunkValidators = (orderProposals proposals).take k ∧
        LongestAdmissible epochConfig.minimumStakeRatio epochConfig.numChunkValidatorSeats
          (orderProposals proposals) k) ∧
      ∀ p, p ∈ roles.unselectedProposals ↔
        p ∈ proposals ∧ p ∉ roles.chunkProducers ∧ p ∉ roles.blockProducers ∧ p ∉ roles.chunkValidators := by
  have ordered : ∀ p ∈ orderProposals proposals, 0 < p.stake := fun p member =>
    positive p ((orderProposals_perm proposals).subset member)
  obtain ⟨kc, tc, chunk, chunkLongest⟩ := selectValidators_spec ordered chunkProducerSeats
    (chunkProducerRatio_lt_one belowOne epochConfig.numShards_pos
      (ProtocolFeature.fixChunkProducerStakingThreshold.enabled protocolVersion)) protocolVersion
  obtain ⟨kb, tb, block, blockLongest⟩ := selectValidators_spec ordered blockProducerSeats belowOne protocolVersion
  obtain ⟨kv, tv, validators, validatorsLongest⟩ :=
    selectValidators_spec ordered chunkValidatorSeats belowOne protocolVersion
  have chunk : selectChunkProducers (orderProposals proposals) epochConfig.numChunkProducerSeats
      epochConfig.minimumStakeRatio epochConfig.numShards protocolVersion =
        some ((orderProposals proposals).take kc, (orderProposals proposals).drop kc, tc) := chunk
  have block : selectBlockProducers (orderProposals proposals) epochConfig.numBlockProducerSeats
      epochConfig.minimumStakeRatio protocolVersion =
        some ((orderProposals proposals).take kb, (orderProposals proposals).drop kb, tb) := block
  refine ⟨_, by simp only [selectValidatorsFromProposals, chunk, block, validators]; rfl,
    ⟨kc, rfl, by simpa only [mul_one_div] using chunkLongest⟩, ⟨kb, rfl, blockLongest⟩,
    ⟨kv, rfl, validatorsLongest⟩, fun p => ?_⟩
  simp [List.mem_filter, orderProposals, List.mem_insertionSort, and_assoc]

/-- Over proposals of distinct accounts and positive stakes, the heap pops them sorted by stake
descending, then account id ascending. With at least one seat and a ratio below one,
`select_validators` takes the longest admissible run of that order that fits in the seats and
leaves the rest; `select_validators_from_proposals` does so for each role, the chunk producers'
ratio shared among the shards before `FixChunkProducerStakingThreshold`, and leaves unselected
exactly the proposals no role took. -/
theorem selectValidators_takes_longest_admissible_run {proposals : List ValidatorStake}
    (distinct : (proposals.map ValidatorStake.accountId).Nodup) (positive : ∀ p ∈ proposals, 0 < p.stake)
    (protocolVersion : ProtocolVersion) :
    (orderProposals proposals).Pairwise ValidatorStake.Precedes ∧ (orderProposals proposals).Perm proposals ∧
    (∀ maxNumberSelected, 1 ≤ maxNumberSelected → ∀ minStakeRatio : ℚ, minStakeRatio < 1 →
      ∃ k threshold,
        selectValidators (orderProposals proposals) maxNumberSelected minStakeRatio protocolVersion =
          some ((orderProposals proposals).take k, (orderProposals proposals).drop k, threshold) ∧
        LongestAdmissible minStakeRatio maxNumberSelected (orderProposals proposals) k) ∧
    (∀ epochConfig : EpochConfig, 1 ≤ epochConfig.numChunkProducerSeats →
      1 ≤ epochConfig.numBlockProducerSeats → 1 ≤ epochConfig.numChunkValidatorSeats →
      epochConfig.minimumStakeRatio < 1 →
      ∃ roles, selectValidatorsFromProposals epochConfig proposals protocolVersion = some roles ∧
        (∃ k, roles.chunkProducers = (orderProposals proposals).take k ∧
          LongestAdmissible
            (if ProtocolFeature.fixChunkProducerStakingThreshold.enabled protocolVersion then
              epochConfig.minimumStakeRatio
            else epochConfig.minimumStakeRatio / epochConfig.numShards)
            epochConfig.numChunkProducerSeats (orderProposals proposals) k) ∧
        (∃ k, roles.blockProducers = (orderProposals proposals).take k ∧
          LongestAdmissible epochConfig.minimumStakeRatio epochConfig.numBlockProducerSeats
            (orderProposals proposals) k) ∧
        (∃ k, roles.chunkValidators = (orderProposals proposals).take k ∧
          LongestAdmissible epochConfig.minimumStakeRatio epochConfig.numChunkValidatorSeats
            (orderProposals proposals) k) ∧
        ∀ p, p ∈ roles.unselectedProposals ↔
          p ∈ proposals ∧ p ∉ roles.chunkProducers ∧ p ∉ roles.blockProducers ∧ p ∉ roles.chunkValidators) := by
  have ordered : ∀ p ∈ orderProposals proposals, 0 < p.stake := fun p member =>
    positive p ((orderProposals_perm proposals).subset member)
  refine ⟨orderProposals_pairwise distinct, orderProposals_perm proposals, ?_, ?_⟩
  · intro maxNumberSelected atLeastOne minStakeRatio belowOne
    exact selectValidators_spec ordered atLeastOne belowOne protocolVersion
  · intro epochConfig chunkProducerSeats blockProducerSeats chunkValidatorSeats belowOne
    exact selectValidatorsFromProposals_spec epochConfig positive chunkProducerSeats blockProducerSeats
      chunkValidatorSeats belowOne protocolVersion

theorem selectValidators_takes_longest_admissible_run_twoAccounts :
    let proposals : List ValidatorStake := [⟨AccountId.ofLetter 97 ⟨by decide, by decide⟩, 5⟩, ⟨AccountId.ofLetter 98 ⟨by decide, by decide⟩, 3⟩]
    (proposals.map ValidatorStake.accountId).Nodup ∧ (∀ p ∈ proposals, 0 < p.stake) ∧
    (orderProposals proposals).Pairwise ValidatorStake.Precedes ∧ (orderProposals proposals).Perm proposals ∧
    (∀ maxNumberSelected, 1 ≤ maxNumberSelected → ∀ minStakeRatio : ℚ, minStakeRatio < 1 →
      ∃ k threshold,
        selectValidators (orderProposals proposals) maxNumberSelected minStakeRatio 74 =
          some ((orderProposals proposals).take k, (orderProposals proposals).drop k, threshold) ∧
        LongestAdmissible minStakeRatio maxNumberSelected (orderProposals proposals) k) ∧
    (∀ epochConfig : EpochConfig, 1 ≤ epochConfig.numChunkProducerSeats →
      1 ≤ epochConfig.numBlockProducerSeats → 1 ≤ epochConfig.numChunkValidatorSeats →
      epochConfig.minimumStakeRatio < 1 →
      ∃ roles, selectValidatorsFromProposals epochConfig proposals 74 = some roles ∧
        (∃ k, roles.chunkProducers = (orderProposals proposals).take k ∧
          LongestAdmissible
            (if ProtocolFeature.fixChunkProducerStakingThreshold.enabled 74 then
              epochConfig.minimumStakeRatio
            else epochConfig.minimumStakeRatio / epochConfig.numShards)
            epochConfig.numChunkProducerSeats (orderProposals proposals) k) ∧
        (∃ k, roles.blockProducers = (orderProposals proposals).take k ∧
          LongestAdmissible epochConfig.minimumStakeRatio epochConfig.numBlockProducerSeats
            (orderProposals proposals) k) ∧
        (∃ k, roles.chunkValidators = (orderProposals proposals).take k ∧
          LongestAdmissible epochConfig.minimumStakeRatio epochConfig.numChunkValidatorSeats
            (orderProposals proposals) k) ∧
        ∀ p, p ∈ roles.unselectedProposals ↔
          p ∈ proposals ∧ p ∉ roles.chunkProducers ∧ p ∉ roles.blockProducers ∧ p ∉ roles.chunkValidators) := by
  intro proposals
  have distinct : (proposals.map ValidatorStake.accountId).Nodup := by decide
  have positive : ∀ p ∈ proposals, 0 < p.stake := by decide
  exact ⟨distinct, positive, selectValidators_takes_longest_admissible_run distinct positive 74⟩

/-- At the ratio `160 / 1000000`, two seats for each role and one shard, a proposal of stake 1
behind one of stake 6249 takes exactly the ratio and is left out, with the threshold equal to
its stake. -/
theorem unselected_stake_reaches_threshold :
    selectValidatorsFromProposals ⟨2, 2, 2, 160 / 1000000, 1, Nat.one_pos⟩
        [⟨AccountId.ofLetter 97 ⟨by decide, by decide⟩, 6249⟩, ⟨AccountId.ofLetter 98 ⟨by decide, by decide⟩, 1⟩] 74 =
      some ⟨[⟨AccountId.ofLetter 98 ⟨by decide, by decide⟩, 1⟩], [⟨AccountId.ofLetter 97 ⟨by decide, by decide⟩, 6249⟩], [⟨AccountId.ofLetter 97 ⟨by decide, by decide⟩, 6249⟩],
        [⟨AccountId.ofLetter 97 ⟨by decide, by decide⟩, 6249⟩], 1⟩ := by
  have ordered : orderProposals [⟨AccountId.ofLetter 97 ⟨by decide, by decide⟩, 6249⟩, ⟨AccountId.ofLetter 98 ⟨by decide, by decide⟩, 1⟩] =
      [⟨AccountId.ofLetter 97 ⟨by decide, by decide⟩, 6249⟩, ⟨AccountId.ofLetter 98 ⟨by decide, by decide⟩, 1⟩] := by decide
  have first : TakesMoreThan (160 / 1000000) 0 ⟨AccountId.ofLetter 97 ⟨by decide, by decide⟩, 6249⟩ := by norm_num [TakesMoreThan]
  -- `1 / 6250` is exactly the ratio, not more
  have second : ¬ TakesMoreThan (160 / 1000000) 6249 ⟨AccountId.ofLetter 98 ⟨by decide, by decide⟩, 1⟩ := by norm_num [TakesMoreThan]
  have loop : selectLoop (160 / 1000000) 2 0 [⟨AccountId.ofLetter 97 ⟨by decide, by decide⟩, 6249⟩, ⟨AccountId.ofLetter 98 ⟨by decide, by decide⟩, 1⟩] =
      some ([⟨AccountId.ofLetter 97 ⟨by decide, by decide⟩, 6249⟩], [⟨AccountId.ofLetter 98 ⟨by decide, by decide⟩, 1⟩], 6249) := by
    simp [selectLoop, first, second]
  have threshold : stakeThreshold [⟨AccountId.ofLetter 97 ⟨by decide, by decide⟩, 6249⟩] 2 (160 / 1000000) 6249 74 = some 1 := by
    norm_num [stakeThreshold, ProtocolFeature.enabled, ProtocolFeature.protocolVersion]
  simp [selectValidatorsFromProposals, selectChunkProducers, selectBlockProducers, selectValidators,
    ordered, loop, threshold, ProtocolFeature.enabled, ProtocolFeature.protocolVersion]

end Nearcore
