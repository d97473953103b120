import Nearcore.Epoch.ValidatorSelection
import Nearcore.Library.AListSum
import Nearcore.Library.Except
import Nearcore.Library.ListSearch
import Nearcore.Library.RoundRobin
import Nearcore.Primitives.MandatePrice

/-! Validator mandates (`core/primitives/src/validator_mandates/mod.rs`, with `num_mandates` and
`partial_mandate_weight` of `ValidatorStake` in `core/primitives/src/types.rs`). A validator's
position in the list is its id. `ValidatorMandates::new` gives each validator one mandate per whole
`stake_per_mandate` of its stake and a partial mandate of what is left; `sample` deals the shuffled
mandates and partials round-robin to the shards, renamed by two shuffles of the shard ids. The
random number generator is a `Shuffler`: whatever it is, each shuffle puts the list in some order
of its elements. The `HashMap` of a shard is an association list from validator ids to stakes,
whose keys are sorted before they are shuffled, so that their order in the map plays no part; its
`u128` additions stay within a validator's stake and cannot overflow. The pushes of `new` are
written as the lists they build. -/
namespace Nearcore

open Unsigned RoundRobin

/-- A random number generator as `SliceRandom::shuffle` uses it: from its state it puts a list in
some order and moves to a new state. Whatever the generator, the order is a permutation. -/
structure Shuffler (σ : Type) where
  shuffle : {α : Type} → σ → List α → List α × σ
  perm : ∀ {α : Type} (state : σ) (l : List α), (shuffle state l).1.Perm l

/-- `ValidatorStake::num_mandates`: the whole mandates of the stake, which must fit in `u16`. -/
def ValidatorStake.numMandates (validator : ValidatorStake) (stakePerMandate : Nat) : Except Panic Nat := do
  let mandates ← div validator.stake stakePerMandate
  if mandates < 2 ^ 16 then pure mandates
  else throw ⟨"number of mandates should fit u16: TryFromIntError(())"⟩

/-- `ValidatorStake::partial_mandate_weight`. -/
def ValidatorStake.partialMandateWeight (validator : ValidatorStake) (stakePerMandate : Nat) : Except Panic Nat :=
  rem validator.stake stakePerMandate

section
attribute [local simp] ValidatorStake.partialMandateWeight
end

/-- `ValidatorMandates`. -/
structure ValidatorMandates where
  config : ValidatorMandatesConfig
  stakePerMandate : Nat
  mandates : List Nat
  partials : List (Nat × Nat)

/-- `ValidatorMandates::new`. -/
def ValidatorMandates.new (config : ValidatorMandatesConfig) (validators : List ValidatorStake) :
    Except Panic ValidatorMandates := do
  let stakes := validators.map ValidatorStake.stake
  let stakePerMandate ← computeMandatePrice config stakes
  let numMandatesPerValidator ← validators.mapM (·.numMandates stakePerMandate)
  -- validator `i` pushed once per mandate it holds
  let mandates := numMandatesPerValidator.zipIdx.flatMap fun (numMandates, i) => List.replicate numMandates i
  let partialWeights ← validators.mapM (·.partialMandateWeight stakePerMandate)
  let partials := (partialWeights.zipIdx.filter fun (partialWeight, _) => partialWeight > 0).map
    fun (partialWeight, i) => (i, partialWeight)
  pure { config, stakePerMandate, mandates, partials }

section
attribute [local simp] ValidatorMandates.new
end

/-- `ShuffledShardIds::new`: the shard ids in the order the generator puts them. -/
def ShuffledShardIds.new {σ : Type} (rng : Shuffler σ) (state : σ) (numShards : Nat) : List Nat × σ :=
  rng.shuffle state (List.range numShards)

section
attribute [local simp] ShuffledShardIds.new
end

/-- `ShuffledShardIds::get_alias`, read at a shard id below the number of shards. -/
def ShuffledShardIds.getAlias (shuffledIds : List Nat) (shardId : Nat) : Nat :=
  shuffledIds.getD shardId 0

section
attribute [local simp] ShuffledShardIds.getAlias
end

/-- The `HashMap` of a shard in `sample`: the stake it is assigned, by validator id. -/
abbrev StakeAssignment := AList fun _ : Nat => Nat

/-- The stake of a validator in an assignment, `or_default` when it has none. -/
def stakeOf (assignment : StakeAssignment) (validatorId : Nat) : Nat :=
  (assignment.lookup validatorId).getD 0

section
attribute [local simp] stakeOf
end

/-- `*assignment.entry(validator_id).or_default() += stake`. -/
def addStake (assignment : StakeAssignment) (validatorId stake : Nat) : StakeAssignment :=
  assignment.insert validatorId (stakeOf assignment validatorId + stake)

section
attribute [local simp] addStake
end

/-- What one call of `sample` draws from the generator, in the order it draws it: the shard ids
for the mandates and for the partials, then the shuffled mandates and partials. -/
structure SampleDraws (σ : Type) where
  shardIdsForMandates : List Nat
  shardIdsForPartials : List Nat
  shuffledMandates : List Nat
  shuffledPartials : List (Nat × Nat)
  state : σ

/-- The draws at the start of `sample`. -/
def ValidatorMandates.draw {σ : Type} (mandates : ValidatorMandates) (rng : Shuffler σ) (state : σ) :
    SampleDraws σ :=
  let (shardIdsForMandates, state) := ShuffledShardIds.new rng state mandates.config.numShards
  let (shardIdsForPartials, state) := ShuffledShardIds.new rng state mandates.config.numShards
  -- `shuffled_mandates` and `shuffled_partials`
  let (shuffledMandates, state) := rng.shuffle state mandates.mandates
  let (shuffledPartials, state) := rng.shuffle state mandates.partials
  ⟨shardIdsForMandates, shardIdsForPartials, shuffledMandates, shuffledPartials, state⟩

section
attribute [local simp] ValidatorMandates.draw
end

/-- One round of the distributing loop of `sample`: the mandates and then the partials at the
indices of `shard_id`, each added to the shard at its alias. -/
def assignShard {σ : Type} (stakePerMandate numShards : Nat) (draws : SampleDraws σ)
    (assignments : List StakeAssignment) (shardId : Nat) : List StakeAssignment :=
  let assignments := (stepBy shardId draws.shuffledMandates.length numShards).foldl (fun assignments idx =>
    assignments.modify (ShuffledShardIds.getAlias draws.shardIdsForMandates shardId)
      (addStake · (draws.shuffledMandates.getD idx 0) stakePerMandate)) assignments
  (stepBy shardId draws.shuffledPartials.length numShards).foldl (fun assignments idx =>
    assignments.modify (ShuffledShardIds.getAlias draws.shardIdsForPartials shardId)
      (addStake · (draws.shuffledPartials.getD idx (0, 0)).1 (draws.shuffledPartials.getD idx (0, 0)).2))
    assignments

/-- The distributing loop of `sample`, from one empty map per shard. -/
def assignShards {σ : Type} (stakePerMandate numShards : Nat) (draws : SampleDraws σ) : List StakeAssignment :=
  (List.range numShards).foldl (assignShard stakePerMandate numShards draws) (List.replicate numShards ∅)

section
attribute [local simp] assignShards
end

/-- The order of one shard: its validator ids sorted, then shuffled, each with its stake. -/
def orderShard {σ : Type} (rng : Shuffler σ) (state : σ) (assignment : StakeAssignment) :
    List (Nat × Nat) × σ :=
  let (orderedValidatorIds, state) := rng.shuffle state (assignment.keys.mergeSort fun a b => a ≤ b)
  -- every id is a key, so `stake_assignment[validator_id]` finds it
  (orderedValidatorIds.map fun validatorId => (validatorId, stakeOf assignment validatorId), state)

section
attribute [local simp] orderShard
end

/-- The ordering loop of `sample`: the order of each shard in turn, pushed in shard order, with
the generator's state threaded through. -/
def orderShards {σ : Type} (rng : Shuffler σ) (assignments : List StakeAssignment) (state : σ) :
    List Nat → List (List (Nat × Nat)) × σ
  | [] => ([], state)
  | shardId :: rest =>
    let (shard, state) := orderShard rng state (assignments.getD shardId ∅)
    let (shards, state) := orderShards rng assignments state rest
    (shard :: shards, state)

section
attribute [local simp] orderShards
end

/-- `ValidatorMandates::sample`: the validators and stakes of each shard, in shard order, and the
generator's state after. -/
def ValidatorMandates.sample {σ : Type} (mandates : ValidatorMandates) (rng : Shuffler σ) (state : σ) :
    List (List (Nat × Nat)) × σ :=
  let draws := mandates.draw rng state
  let assignments := assignShards mandates.stakePerMandate mandates.config.numShards draws
  orderShards rng assignments draws.state (List.range mandates.config.numShards)

section
attribute [local simp] ValidatorMandates.sample
end

/-! ### The mandates of `new` -/

/-- Summing over the positions of a list from `start` the value at position `k` alone gives that
value. -/
theorem sum_zipIdx_ite : ∀ (l : List Nat) (start k : Nat),
    ((l.zipIdx start).map fun entry => if entry.2 = k then entry.1 else 0).sum =
      if start ≤ k then l.getD (k - start) 0 else 0
  | [], start, k => by simp
  | x :: rest, start, k => by
    rw [List.zipIdx_cons, List.map_cons, List.sum_cons, sum_zipIdx_ite rest (start + 1) k]
    by_cases here : start = k
    · subst here
      simp
    · by_cases later : start + 1 ≤ k
      · have shift : k - start = k - (start + 1) + 1 := by omega
        rw [if_neg here, if_pos later, if_pos (by omega), shift]
        simp
      · rw [if_neg here, if_neg later, if_neg (by omega)]

theorem ValidatorStake.numMandates_eq_ok {validator : ValidatorStake} {stakePerMandate numMandates : Nat}
    (computed : validator.numMandates stakePerMandate = .ok numMandates) :
    0 < stakePerMandate ∧ numMandates = validator.stake / stakePerMandate := by
  obtain ⟨mandates, divided, fits⟩ := Except.bind_eq_ok computed
  obtain ⟨positive, rfl⟩ := pos_of_div_eq_ok divided
  split at fits
  · cases fits
    exact ⟨positive, rfl⟩
  · cases fits

/-- What `ValidatorMandates::new` builds from a list of validators: the price is positive when
there is a validator; validator `i` holds its stake over the price in mandates and, when it is
positive, a partial mandate of the rest; every id is a position in the list. -/
structure MandatesOf (validators : List ValidatorStake) (mandates : ValidatorMandates) : Prop where
  pricePositive : validators ≠ [] → 0 < mandates.stakePerMandate
  count : ∀ i (valid : i < validators.length),
    mandates.mandates.count i = validators[i].stake / mandates.stakePerMandate
  mandateValid : ∀ validatorId ∈ mandates.mandates, validatorId < validators.length
  partialOf : ∀ i w, (i, w) ∈ mandates.partials ↔
    ∃ valid : i < validators.length, w = validators[i].stake % mandates.stakePerMandate ∧ 0 < w
  partialSum : ∀ i (valid : i < validators.length),
    (mandates.partials.map fun entry => if entry.1 = i then entry.2 else 0).sum =
      validators[i].stake % mandates.stakePerMandate

/-- `ValidatorMandates::new`, when it does not panic, builds the mandates of the validators with
the configuration it was given. -/
theorem ValidatorMandates.mandatesOf_new {config : ValidatorMandatesConfig} {validators : List ValidatorStake}
    {mandates : ValidatorMandates} (built : ValidatorMandates.new config validators = .ok mandates) :
    MandatesOf validators mandates ∧ mandates.config = config := by
  unfold ValidatorMandates.new at built
  obtain ⟨stakePerMandate, -, rest⟩ := Except.bind_eq_ok built
  obtain ⟨nums, numsOk, rest⟩ := Except.bind_eq_ok rest
  obtain ⟨weights, weightsOk, rest⟩ := Except.bind_eq_ok rest
  cases rest
  obtain ⟨numsLength, numsAt⟩ := List.forall₂_iff_get.mp (List.forall₂_of_mapM_eq_ok numsOk)
  obtain ⟨weightsLength, weightsAt⟩ := List.forall₂_iff_get.mp (List.forall₂_of_mapM_eq_ok weightsOk)
  have numAt : ∀ i (valid : i < validators.length),
      0 < stakePerMandate ∧ nums.getD i 0 = validators[i].stake / stakePerMandate := fun i valid => by
    have at_i := ValidatorStake.numMandates_eq_ok (numsAt i valid (numsLength ▸ valid))
    rw [List.getD_eq_getElem?_getD, List.getElem?_eq_getElem (numsLength ▸ valid)]
    exact ⟨at_i.1, at_i.2⟩
  have weightAt : ∀ i (valid : i < validators.length),
      weights[i]? = some (validators[i].stake % stakePerMandate) := fun i valid => by
    have computed := weightsAt i valid (weightsLength ▸ valid)
    rw [List.get_eq_getElem, List.get_eq_getElem, ValidatorStake.partialMandateWeight,
      rem_of_pos (numAt i valid).1] at computed
    rw [List.getElem?_eq_getElem (weightsLength ▸ valid), ← Except.ok.inj computed]
  have weightBelow : ∀ i w, weights[i]? = some w → ∃ valid : i < validators.length,
      w = validators[i].stake % stakePerMandate := fun i w found => by
    have valid : i < validators.length := weightsLength ▸ (List.getElem?_eq_some_iff.mp found).1
    exact ⟨valid, Option.some.inj (found.symm.trans (weightAt i valid))⟩
  refine ⟨⟨fun nonempty => ?_, fun i valid => ?_, fun validatorId member => ?_, fun i w => ?_, fun i valid => ?_⟩, rfl⟩
  · obtain ⟨first, others, rfl⟩ := List.exists_cons_of_ne_nil nonempty
    exact (numAt 0 (Nat.zero_lt_succ _)).1
  · -- each position pushes its count of copies of its id
    have atI := sum_zipIdx_ite nums 0 i
    rw [if_pos (Nat.zero_le i), Nat.sub_zero, (numAt i valid).2] at atI
    rw [← atI, List.count_flatMap]
    congr 1
    apply List.map_congr_left
    rintro ⟨numMandates, index⟩ -
    simp [List.count_replicate]
  · obtain ⟨entry, member, copy⟩ := List.mem_flatMap.mp member
    obtain ⟨-, below, -⟩ := List.mem_zipIdx (x := entry.1) (i := entry.2) member
    rw [(List.mem_replicate.mp copy).2]
    omega
  · simp only [List.mem_map, List.mem_filter, Prod.mk.injEq]
    constructor
    · rintro ⟨⟨weight, index⟩, ⟨member, positive⟩, rfl, rfl⟩
      obtain ⟨valid, weighed⟩ := weightBelow index weight (List.mem_zipIdx_iff_getElem?.mp member)
      exact ⟨valid, weighed, by simpa using positive⟩
    · rintro ⟨valid, rfl, positive⟩
      exact ⟨(validators[i].stake % stakePerMandate, i),
        ⟨List.mem_zipIdx_iff_getElem?.mpr (weightAt i valid), by simpa using positive⟩, rfl, rfl⟩
  · -- the weights dropped are zero, so the sum is the weight at `i`
    rw [List.map_map, List.sum_map_filter_of_zero (fun entry _ dropped => by simp_all)]
    have atI := sum_zipIdx_ite weights 0 i
    rw [if_pos (Nat.zero_le i), Nat.sub_zero, List.getD_eq_getElem?_getD, weightAt i valid] at atI
    simpa [Function.comp_def] using atI

/-! ### Sampling -/

/-- One addition of the distributing loop: to the shard at the first position, for the validator
of the second, the stake of the third. -/
def applyAddition (assignments : List StakeAssignment) (addition : Nat × Nat × Nat) : List StakeAssignment :=
  assignments.modify addition.1 (addStake · addition.2.1 addition.2.2)

section
attribute [local simp] applyAddition
end

/-- The additions of one round of the distributing loop, in the order it makes them. -/
def shardAdditions {σ : Type} (stakePerMandate numShards : Nat) (draws : SampleDraws σ) (shardId : Nat) :
    List (Nat × Nat × Nat) :=
  (stepBy shardId draws.shuffledMandates.length numShards).map (fun idx =>
      (ShuffledShardIds.getAlias draws.shardIdsForMandates shardId, draws.shuffledMandates.getD idx 0,
        stakePerMandate)) ++
    (stepBy shardId draws.shuffledPartials.length numShards).map fun idx =>
      (ShuffledShardIds.getAlias draws.shardIdsForPartials shardId, (draws.shuffledPartials.getD idx (0, 0)).1,
        (draws.shuffledPartials.getD idx (0, 0)).2)

section
attribute [local simp] shardAdditions
end

/-- The distributing loop makes the additions of all rounds, one after another. -/
theorem assignShards_eq {σ : Type} (stakePerMandate numShards : Nat) (draws : SampleDraws σ) :
    assignShards stakePerMandate numShards draws =
      ((List.range numShards).flatMap (shardAdditions stakePerMandate numShards draws)).foldl applyAddition
        (List.replicate numShards ∅) := by
  rw [List.foldl_flatMap, assignShards]
  congr 1
  funext assignments shardId
  rw [shardAdditions, List.foldl_append, List.foldl_map, List.foldl_map]
  rfl

@[simp] theorem stakeOf_empty (validatorId : Nat) : stakeOf ∅ validatorId = 0 := rfl

theorem stakeOf_addStake (assignment : StakeAssignment) (validatorId stake other : Nat) :
    stakeOf (addStake assignment validatorId stake) other =
      stakeOf assignment other + if validatorId = other then stake else 0 := by
  by_cases same : validatorId = other
  · subst same
    simp [stakeOf, addStake, AList.lookup_insert]
  · rw [stakeOf, addStake, AList.lookup_insert_ne (Ne.symm same), if_neg same, Nat.add_zero]
    rfl

/-- The stake of all validators of a shard. -/
def totalStake (assignment : StakeAssignment) : Nat :=
  (assignment.keys.map (stakeOf assignment)).sum

section
attribute [local simp] totalStake
end

theorem totalStake_addStake (assignment : StakeAssignment) (validatorId stake : Nat) :
    totalStake (addStake assignment validatorId stake) = totalStake assignment + stake := by
  have agree : ∀ other, other ≠ validatorId →
      stakeOf (addStake assignment validatorId stake) other = stakeOf assignment other := fun other different => by
    rw [stakeOf_addStake, if_neg (Ne.symm different), Nat.add_zero]
  have absentZero : validatorId ∉ assignment → stakeOf assignment validatorId = 0 := fun absent => by
    rw [stakeOf, AList.lookup_eq_none.mpr absent]
    rfl
  have moved := AList.sum_keys_insert_add (stakeOf (addStake assignment validatorId stake))
    (stakeOf assignment validatorId + stake) agree absentZero
  rw [stakeOf_addStake, if_pos rfl] at moved
  show ((assignment.insert validatorId (stakeOf assignment validatorId + stake)).keys.map
    (stakeOf (addStake assignment validatorId stake))).sum = totalStake assignment + stake
  unfold totalStake
  omega

/-- Every validator of a shard holds a positive stake there. -/
def Positive (assignment : StakeAssignment) : Prop :=
  ∀ validatorId ∈ assignment, 0 < stakeOf assignment validatorId

theorem positive_empty : Positive ∅ := fun validatorId absent => absurd absent (AList.notMem_empty validatorId)

theorem positive_addStake {assignment : StakeAssignment} (positive : Positive assignment) {validatorId stake : Nat}
    (added : 0 < stake) : Positive (addStake assignment validatorId stake) := by
  intro other member
  rw [stakeOf_addStake]
  rcases (AList.mem_insert assignment).mp member with rfl | old
  · rw [if_pos rfl]
    omega
  · have := positive other old
    omega

/-- The stake of a validator over all shards. -/
def validatorStake (assignments : List StakeAssignment) (validatorId : Nat) : Nat :=
  (assignments.map (stakeOf · validatorId)).sum

section
attribute [local simp] validatorStake
end

section Additions

variable {assignments : List StakeAssignment} {addition : Nat × Nat × Nat}

theorem length_applyAddition : (applyAddition assignments addition).length = assignments.length :=
  List.length_modify ..

theorem validatorStake_applyAddition (valid : addition.1 < assignments.length) (validatorId : Nat) :
    validatorStake (applyAddition assignments addition) validatorId =
      validatorStake assignments validatorId + if addition.2.1 = validatorId then addition.2.2 else 0 := by
  have moved := List.sum_map_modify (stakeOf · validatorId) (addStake · addition.2.1 addition.2.2) assignments
    addition.1 valid
  simp only [stakeOf_addStake] at moved
  unfold validatorStake applyAddition
  omega

theorem totalStake_applyAddition {shardId : Nat} (valid : shardId < assignments.length) :
    totalStake ((applyAddition assignments addition).getD shardId ∅) =
      totalStake (assignments.getD shardId ∅) + if addition.1 = shardId then addition.2.2 else 0 := by
  rw [applyAddition, List.getD_modify_of_lt _ valid]
  split
  · exact totalStake_addStake ..
  · exact (Nat.add_zero _).symm

theorem positive_applyAddition (added : 0 < addition.2.2)
    (positive : ∀ shardId, Positive (assignments.getD shardId ∅)) (shardId : Nat) :
    Positive ((applyAddition assignments addition).getD shardId ∅) := by
  by_cases inside : shardId < assignments.length
  · rw [applyAddition, List.getD_modify_of_lt _ inside]
    split
    · exact positive_addStake (positive shardId) added
    · exact positive shardId
  · rw [List.getD_eq_default _ _ (by rw [length_applyAddition]; omega)]
    exact positive_empty

end Additions

/-! The distributing loop as a run of additions: each lemma below is the step lemma above carried
through the list of additions by induction. -/

theorem length_foldl_applyAddition :
    ∀ (additions : List (Nat × Nat × Nat)) (assignments : List StakeAssignment),
      (additions.foldl applyAddition assignments).length = assignments.length
  | [], _ => rfl
  | addition :: rest, assignments => by
    rw [List.foldl_cons, length_foldl_applyAddition rest, length_applyAddition]

theorem validatorStake_foldl (validatorId : Nat) :
    ∀ (additions : List (Nat × Nat × Nat)) (assignments : List StakeAssignment),
      (∀ addition ∈ additions, addition.1 < assignments.length) →
      validatorStake (additions.foldl applyAddition assignments) validatorId =
        validatorStake assignments validatorId +
          (additions.map fun addition => if addition.2.1 = validatorId then addition.2.2 else 0).sum
  | [], _, _ => rfl
  | addition :: rest, assignments, valid => by
    have inside : ∀ later ∈ rest, later.1 < (applyAddition assignments addition).length := fun later member => by
      rw [length_applyAddition]
      exact valid later (List.mem_cons_of_mem _ member)
    rw [List.foldl_cons, validatorStake_foldl validatorId rest _ inside,
      validatorStake_applyAddition (valid addition List.mem_cons_self), List.map_cons, List.sum_cons,
      Nat.add_assoc]

theorem totalStake_foldl {shardId : Nat} :
    ∀ (additions : List (Nat × Nat × Nat)) (assignments : List StakeAssignment),
      shardId < assignments.length →
      totalStake ((additions.foldl applyAddition assignments).getD shardId ∅) =
        totalStake (assignments.getD shardId ∅) +
          (additions.map fun addition => if addition.1 = shardId then addition.2.2 else 0).sum
  | [], _, _ => rfl
  | addition :: rest, assignments, valid => by
    have inside : shardId < (applyAddition assignments addition).length := by
      rw [length_applyAddition]
      exact valid
    rw [List.foldl_cons, totalStake_foldl rest _ inside, totalStake_applyAddition valid, List.map_cons,
      List.sum_cons, Nat.add_assoc]

theorem positive_foldl :
    ∀ (additions : List (Nat × Nat × Nat)) (assignments : List StakeAssignment),
      (∀ addition ∈ additions, 0 < addition.2.2) → (∀ shardId, Positive (assignments.getD shardId ∅)) →
      ∀ shardId, Positive ((additions.foldl applyAddition assignments).getD shardId ∅)
  | [], _, _, positive => positive
  | addition :: rest, assignments, added, positive => by
    rw [List.foldl_cons]
    exact positive_foldl rest _ (fun later member => added later (List.mem_cons_of_mem _ member))
      (positive_applyAddition (added addition List.mem_cons_self) positive)

/-! The additions of all rounds, summed by validator and by shard. -/

/-- Over the round-robin decks, a function of the element each index reads sums as over the list. -/
theorem sum_stepBy_getD {β : Type} (l : List β) (d : β) {numShards : Nat} (positive : 0 < numShards)
    (g : β → Nat) :
    ((List.range numShards).map fun r => ((stepBy r l.length numShards).map fun idx => g (l.getD idx d)).sum).sum =
      (l.map g).sum :=
  calc _ = ((((List.range numShards).flatMap fun r => stepBy r l.length numShards).map
          fun idx => g (l.getD idx d)).sum) := (List.sum_map_flatMap _ _ _).symm
    _ = ((List.range l.length).map fun idx => g (l.getD idx d)).sum := sum_flatMap_stepBy positive _
    _ = (((List.range l.length).map (l.getD · d)).map g).sum := by rw [List.map_map]; rfl
    _ = (l.map g).sum := by rw [List.map_getD_range]

theorem sum_shardAdditions_validator {σ : Type} (stakePerMandate : Nat) {numShards : Nat} (positive : 0 < numShards)
    (draws : SampleDraws σ) (validatorId : Nat) :
    (((List.range numShards).flatMap (shardAdditions stakePerMandate numShards draws)).map
        fun addition => if addition.2.1 = validatorId then addition.2.2 else 0).sum =
      draws.shuffledMandates.count validatorId * stakePerMandate +
        (draws.shuffledPartials.map fun entry => if entry.1 = validatorId then entry.2 else 0).sum := by
  rw [List.sum_map_flatMap]
  simp only [shardAdditions, List.map_append, List.sum_append, List.map_map, Function.comp_def]
  rw [List.sum_map_add, sum_stepBy_getD _ _ positive (fun x => if x = validatorId then stakePerMandate else 0),
    sum_stepBy_getD draws.shuffledPartials (0, 0) positive fun entry => if entry.1 = validatorId then entry.2 else 0,
    List.sum_map_ite_eq_count]

/-- The mandates the round-robin deals to a shard: the deck of each index whose alias it is. -/
def mandatesDealt (numShards length : Nat) (shardIds : List Nat) (shardId : Nat) : Nat :=
  ((List.range numShards).map fun r =>
    if ShuffledShardIds.getAlias shardIds r = shardId then (stepBy r length numShards).length else 0).sum

section
attribute [local simp] mandatesDealt
end

/-- The partial stake the round-robin deals to a shard. -/
def partialsDealt (numShards : Nat) (partials : List (Nat × Nat)) (shardIds : List Nat) (shardId : Nat) : Nat :=
  ((List.range numShards).map fun r =>
    if ShuffledShardIds.getAlias shardIds r = shardId then
      ((stepBy r partials.length numShards).map fun idx => (partials.getD idx (0, 0)).2).sum
    else 0).sum

section
attribute [local simp] partialsDealt
end

theorem sum_shardAdditions_shard {σ : Type} (stakePerMandate numShards : Nat) (draws : SampleDraws σ)
    (shardId : Nat) :
    (((List.range numShards).flatMap (shardAdditions stakePerMandate numShards draws)).map
        fun addition => if addition.1 = shardId then addition.2.2 else 0).sum =
      stakePerMandate * mandatesDealt numShards draws.shuffledMandates.length draws.shardIdsForMandates shardId +
        partialsDealt numShards draws.shuffledPartials draws.shardIdsForPartials shardId := by
  rw [List.sum_map_flatMap, mandatesDealt, partialsDealt, ← List.sum_map_mul_left, ← List.sum_map_add]
  congr 1
  refine List.map_congr_left fun r _ => ?_
  simp only [shardAdditions, List.map_append, List.sum_append, List.map_map, Function.comp_def]
  by_cases forMandates : ShuffledShardIds.getAlias draws.shardIdsForMandates r = shardId <;>
    by_cases forPartials : ShuffledShardIds.getAlias draws.shardIdsForPartials r = shardId <;>
    simp [forMandates, forPartials, Nat.mul_comm]

/-- An order of the shard ids renames each shard below their number as exactly one index. -/
theorem sum_range_getAlias {shardIds : List Nat} {numShards : Nat} (perm : shardIds.Perm (List.range numShards))
    {shardId : Nat} (valid : shardId < numShards) (g : Nat → Nat) :
    ∃ r < numShards, ((List.range numShards).map fun r' =>
      if ShuffledShardIds.getAlias shardIds r' = shardId then g r' else 0).sum = g r := by
  have length : shardIds.length = numShards := by rw [perm.length_eq, List.length_range]
  have nodup : shardIds.Nodup := perm.nodup_iff.mpr List.nodup_range
  obtain ⟨r, below, named⟩ := List.getElem_of_mem (perm.mem_iff.mpr (List.mem_range.mpr valid))
  refine ⟨r, length ▸ below, ?_⟩
  have only : ∀ r' ∈ List.range numShards,
      (if ShuffledShardIds.getAlias shardIds r' = shardId then g r' else 0) = if r' = r then g r else 0 := by
    intro r' member
    have inside : r' < shardIds.length := length ▸ List.mem_range.mp member
    rw [ShuffledShardIds.getAlias, List.getD_eq_getElem?_getD, List.getElem?_eq_getElem inside,
      Option.getD_some, ← named]
    simp only [nodup.getElem_inj_iff]
    by_cases same : r' = r
    · subst same
      rfl
    · rw [if_neg same, if_neg same]
  rw [List.map_congr_left only, List.sum_range_ite_eq (length ▸ below)]

theorem getAlias_lt {shardIds : List Nat} {numShards : Nat} (perm : shardIds.Perm (List.range numShards))
    {r : Nat} (valid : r < numShards) : ShuffledShardIds.getAlias shardIds r < numShards := by
  have inside : r < shardIds.length := by rw [perm.length_eq, List.length_range]; exact valid
  rw [ShuffledShardIds.getAlias, List.getD_eq_getElem?_getD, List.getElem?_eq_getElem inside, Option.getD_some,
    ← List.mem_range, ← perm.mem_iff]
  exact List.getElem_mem inside

/-- What `sample` draws: two orders of the shard ids and orders of the mandates and partials. -/
structure DrawsOf (mandates : ValidatorMandates) {σ : Type} (draws : SampleDraws σ) : Prop where
  forMandates : draws.shardIdsForMandates.Perm (List.range mandates.config.numShards)
  forPartials : draws.shardIdsForPartials.Perm (List.range mandates.config.numShards)
  shuffledMandates : draws.shuffledMandates.Perm mandates.mandates
  shuffledPartials : draws.shuffledPartials.Perm mandates.partials

theorem ValidatorMandates.drawsOf_draw {σ : Type} (mandates : ValidatorMandates) (rng : Shuffler σ) (state : σ) :
    DrawsOf mandates (mandates.draw rng state) := by
  have forMandates := rng.perm state (List.range mandates.config.numShards)
  rcases first : rng.shuffle state (List.range mandates.config.numShards) with ⟨idsForMandates, state1⟩
  have forPartials := rng.perm state1 (List.range mandates.config.numShards)
  rcases second : rng.shuffle state1 (List.range mandates.config.numShards) with ⟨idsForPartials, state2⟩
  have shuffledMandates := rng.perm state2 mandates.mandates
  rcases third : rng.shuffle state2 mandates.mandates with ⟨someMandates, state3⟩
  have shuffledPartials := rng.perm state3 mandates.partials
  rcases fourth : rng.shuffle state3 mandates.partials with ⟨somePartials, state4⟩
  rw [first] at forMandates
  rw [second] at forPartials
  rw [third] at shuffledMandates
  rw [fourth] at shuffledPartials
  simp only [ValidatorMandates.draw, ShuffledShardIds.new, first, second, third, fourth]
  exact ⟨forMandates, forPartials, shuffledMandates, shuffledPartials⟩

/-- A shard as `sample` returns it orders an assignment: each validator of the assignment once,
with its stake there. -/
structure OrdersAssignment (assignment : StakeAssignment) (shard : List (Nat × Nat)) : Prop where
  ids : (shard.map Prod.fst).Perm assignment.keys
  stakes : ∀ entry ∈ shard, entry.2 = stakeOf assignment entry.1

theorem orderShard_orders {σ : Type} (rng : Shuffler σ) (state : σ) (assignment : StakeAssignment) :
    OrdersAssignment assignment (orderShard rng state assignment).1 := by
  have shuffled := rng.perm state (assignment.keys.mergeSort fun a b => a ≤ b)
  rcases drawn : rng.shuffle state (assignment.keys.mergeSort fun a b => a ≤ b) with ⟨ids, state'⟩
  rw [drawn] at shuffled
  simp only [orderShard, drawn]
  constructor
  · rw [List.map_map]
    simpa [Function.comp_def] using shuffled.trans (List.mergeSort_perm _ _)
  · intro entry member
    obtain ⟨validatorId, -, rfl⟩ := List.mem_map.mp member
    rfl

theorem orderShards_orders {σ : Type} (rng : Shuffler σ) (assignments : List StakeAssignment) :
    ∀ (state : σ) (shardIds : List Nat), List.Forall₂ (fun shardId shard =>
      OrdersAssignment (assignments.getD shardId ∅) shard) shardIds (orderShards rng assignments state shardIds).1
  | _, [] => .nil
  | state, shardId :: rest => by
    have first := orderShard_orders rng state (assignments.getD shardId ∅)
    rcases ordered : orderShard rng state (assignments.getD shardId ∅) with ⟨shard, state'⟩
    rw [ordered] at first
    have later := orderShards_orders rng assignments state' rest
    rcases others : orderShards rng assignments state' rest with ⟨shards, state''⟩
    rw [others] at later
    simp only [orderShards, ordered, others]
    exact .cons first later

/-- The stake of one validator in a shard that orders an assignment is its stake there. -/
theorem OrdersAssignment.sum_validator {assignment : StakeAssignment} {shard : List (Nat × Nat)}
    (orders : OrdersAssignment assignment shard) (validatorId : Nat) :
    (shard.map fun entry => if entry.1 = validatorId then entry.2 else 0).sum = stakeOf assignment validatorId := by
  have atId : (shard.map fun entry => if entry.1 = validatorId then entry.2 else 0) =
      (shard.map Prod.fst).map fun x => if x = validatorId then stakeOf assignment validatorId else 0 := by
    rw [List.map_map]
    refine List.map_congr_left fun entry member => ?_
    by_cases same : entry.1 = validatorId
    · simp [same, orders.stakes entry member]
    · simp [same]
  rw [atId, List.sum_map_ite_eq_count, orders.ids.count_eq]
  by_cases present : validatorId ∈ assignment
  · rw [List.count_eq_one_of_mem (AList.keys_nodup assignment) (AList.mem_keys.mp present), Nat.one_mul]
  · rw [List.count_eq_zero_of_not_mem (mt AList.mem_keys.mpr present), Nat.zero_mul, stakeOf,
      AList.lookup_eq_none.mpr present]
    rfl

/-- The stakes of a shard that orders an assignment sum to the assignment's total. -/
theorem OrdersAssignment.sum_stakes {assignment : StakeAssignment} {shard : List (Nat × Nat)}
    (orders : OrdersAssignment assignment shard) : (shard.map Prod.snd).sum = totalStake assignment := by
  have atId : shard.map Prod.snd = (shard.map Prod.fst).map (stakeOf assignment) := by
    rw [List.map_map]
    exact List.map_congr_left orders.stakes
  rw [atId, totalStake, (orders.ids.map _).sum_eq]

/-! ### Stake conservation of `sample` -/

theorem length_assignShards {σ : Type} (stakePerMandate numShards : Nat) (draws : SampleDraws σ) :
    (assignShards stakePerMandate numShards draws).length = numShards := by
  rw [assignShards_eq, length_foldl_applyAddition, List.length_replicate]

/-- The stake of a validator over the assignments, shard by shard. -/
theorem validatorStake_eq_sum_range {assignments : List StakeAssignment} {numShards : Nat}
    (length : assignments.length = numShards) (validatorId : Nat) :
    validatorStake assignments validatorId =
      ((List.range numShards).map fun shardId => stakeOf (assignments.getD shardId ∅) validatorId).sum := by
  subst length
  unfold validatorStake
  conv_lhs => rw [← List.map_getD_range assignments ∅]
  rw [List.map_map]
  rfl

/-- The round-robin deals a shard at most one mandate more than any other, when the shard ids
are renamed by an order of them. -/
theorem mandatesDealt_balanced {shardIds : List Nat} {numShards : Nat} (perm : shardIds.Perm (List.range numShards))
    (length : Nat) {shardId shardId' : Nat} (valid : shardId < numShards) (valid' : shardId' < numShards) :
    mandatesDealt numShards length shardIds shardId ≤ mandatesDealt numShards length shardIds shardId' + 1 := by
  obtain ⟨r, below, dealt⟩ := sum_range_getAlias perm valid fun r => (stepBy r length numShards).length
  obtain ⟨r', below', dealt'⟩ := sum_range_getAlias perm valid' fun r => (stepBy r length numShards).length
  rw [mandatesDealt, mandatesDealt, dealt, dealt']
  exact length_stepBy_le_succ below below'

theorem totalStake_assignShards {σ : Type} (stakePerMandate numShards : Nat) (draws : SampleDraws σ)
    {shardId : Nat} (valid : shardId < numShards) :
    totalStake ((assignShards stakePerMandate numShards draws).getD shardId ∅) =
      stakePerMandate * mandatesDealt numShards draws.shuffledMandates.length draws.shardIdsForMandates shardId +
        partialsDealt numShards draws.shuffledPartials draws.shardIdsForPartials shardId := by
  have inside : shardId < (List.replicate numShards (∅ : StakeAssignment)).length := by
    rw [List.length_replicate]
    exact valid
  have empty : totalStake ((List.replicate numShards (∅ : StakeAssignment)).getD shardId ∅) = 0 := by
    rw [List.getD_eq_getElem?_getD, List.getElem?_getD_replicate_default_eq]
    rfl
  rw [assignShards_eq, totalStake_foldl _ _ inside, sum_shardAdditions_shard, empty, Nat.zero_add]

section Conservation

variable {validators : List ValidatorStake} {mandates : ValidatorMandates} {σ : Type} {draws : SampleDraws σ}

/-- Every addition of the distributing loop goes to a shard below their number and adds a positive
stake: a mandate is dealt only when there is a validator, so its price is positive, and a partial
is dealt only when positive. -/
theorem shardAdditions_valid (mandatesOf : MandatesOf validators mandates) (drawn : DrawsOf mandates draws) :
    ∀ addition ∈ (List.range mandates.config.numShards).flatMap
        (shardAdditions mandates.stakePerMandate mandates.config.numShards draws),
      addition.1 < mandates.config.numShards ∧ 0 < addition.2.2 := by
  intro addition member
  obtain ⟨r, round, inRound⟩ := List.mem_flatMap.mp member
  have below := List.mem_range.mp round
  rcases List.mem_append.mp inRound with fromMandates | fromPartials
  · obtain ⟨idx, dealt, rfl⟩ := List.mem_map.mp fromMandates
    have inside := ((mem_stepBy below).mp dealt).1
    have validator := mandatesOf.mandateValid _ (drawn.shuffledMandates.subset (List.getElem_mem inside))
    exact ⟨getAlias_lt drawn.forMandates below,
      mandatesOf.pricePositive (List.ne_nil_of_length_pos (Nat.lt_of_le_of_lt (Nat.zero_le _) validator))⟩
  · obtain ⟨idx, dealt, rfl⟩ := List.mem_map.mp fromPartials
    have inside := ((mem_stepBy below).mp dealt).1
    have entry : draws.shuffledPartials.getD idx (0, 0) ∈ mandates.partials := by
      rw [List.getD_eq_getElem?_getD, List.getElem?_eq_getElem inside, Option.getD_some]
      exact drawn.shuffledPartials.subset (List.getElem_mem inside)
    obtain ⟨-, -, positive⟩ := (mandatesOf.partialOf _ _).mp entry
    exact ⟨getAlias_lt drawn.forPartials below, positive⟩

/-- Over all shards, the distributing loop gives each validator its stake: its mandates at the
price each, and its partial. -/
theorem validatorStake_assignShards (mandatesOf : MandatesOf validators mandates) (drawn : DrawsOf mandates draws)
    (shards : 0 < mandates.config.numShards) {i : Nat} (valid : i < validators.length) :
    validatorStake (assignShards mandates.stakePerMandate mandates.config.numShards draws) i = validators[i].stake := by
  have inside : ∀ addition ∈ (List.range mandates.config.numShards).flatMap
      (shardAdditions mandates.stakePerMandate mandates.config.numShards draws),
      addition.1 < (List.replicate mandates.config.numShards (∅ : StakeAssignment)).length :=
    fun addition member => by
      rw [List.length_replicate]
      exact (shardAdditions_valid mandatesOf drawn addition member).1
  have empty : validatorStake (List.replicate mandates.config.numShards ∅) i = 0 := by
    simp [validatorStake]
  rw [assignShards_eq, validatorStake_foldl i _ _ inside, sum_shardAdditions_validator _ shards, empty,
    Nat.zero_add, drawn.shuffledMandates.count_eq, mandatesOf.count i valid, (drawn.shuffledPartials.map _).sum_eq,
    mandatesOf.partialSum i valid, Nat.div_add_mod']

theorem positive_assignShards (mandatesOf : MandatesOf validators mandates) (drawn : DrawsOf mandates draws)
    (shardId : Nat) :
    Positive ((assignShards mandates.stakePerMandate mandates.config.numShards draws).getD shardId ∅) := by
  rw [assignShards_eq]
  refine positive_foldl _ _ (fun addition member => (shardAdditions_valid mandatesOf drawn addition member).2)
    (fun shardId => ?_) shardId
  rw [List.getD_eq_getElem?_getD, List.getElem?_getD_replicate_default_eq]
  exact positive_empty

end Conservation

/-- The shards `sample` returns order the assignments of the distributing loop, shard by shard. -/
theorem ValidatorMandates.sample_orders {σ : Type} (mandates : ValidatorMandates) (rng : Shuffler σ) (state : σ) :
    List.Forall₂ (fun shardId shard => OrdersAssignment
        ((assignShards mandates.stakePerMandate mandates.config.numShards (mandates.draw rng state)).getD shardId ∅)
        shard)
      (List.range mandates.config.numShards) (mandates.sample rng state).1 :=
  orderShards_orders rng _ _ _

/-- `ValidatorMandates::new` and `sample`, for at least one shard: each validator holds its stake
over the price in mandates and a partial mandate of the rest when positive; whatever the
generator, `sample` returns one list per shard, each with distinct validators of positive stake;
each validator's stakes over the shards add up to its stake; the round-robin deals any two shards
numbers of mandates at most one apart, and the stake of each shard is the price times its
mandates plus its partials. -/
theorem ValidatorMandates.sample_conserves_stake {config : ValidatorMandatesConfig}
    {validators : List ValidatorStake} {mandates : ValidatorMandates} (shards : 1 ≤ config.numShards)
    (built : ValidatorMandates.new config validators = .ok mandates) {σ : Type} (rng : Shuffler σ) (state : σ) :
    MandatesOf validators mandates ∧
      (mandates.sample rng state).1.length = config.numShards ∧
      (∀ shard ∈ (mandates.sample rng state).1, (shard.map Prod.fst).Nodup ∧ ∀ entry ∈ shard, 0 < entry.2) ∧
      (∀ i (valid : i < validators.length), ((mandates.sample rng state).1.map fun shard =>
        (shard.map fun entry => if entry.1 = i then entry.2 else 0).sum).sum = validators[i].stake) ∧
      (∀ shardId < config.numShards, ∀ shardId' < config.numShards,
        mandatesDealt config.numShards (mandates.draw rng state).shuffledMandates.length
            (mandates.draw rng state).shardIdsForMandates shardId ≤
          mandatesDealt config.numShards (mandates.draw rng state).shuffledMandates.length
            (mandates.draw rng state).shardIdsForMandates shardId' + 1) ∧
      (∀ shardId (valid : shardId < (mandates.sample rng state).1.length),
        ((mandates.sample rng state).1[shardId].map Prod.snd).sum =
          mandates.stakePerMandate * mandatesDealt config.numShards (mandates.draw rng state).shuffledMandates.length
              (mandates.draw rng state).shardIdsForMandates shardId +
            partialsDealt config.numShards (mandates.draw rng state).shuffledPartials
              (mandates.draw rng state).shardIdsForPartials shardId) := by
  obtain ⟨mandatesOf, rfl⟩ := ValidatorMandates.mandatesOf_new built
  have drawn := mandates.drawsOf_draw rng state
  have ordered := mandates.sample_orders rng state
  have length : (mandates.sample rng state).1.length = mandates.config.numShards := by
    rw [← ordered.length_eq, List.length_range]
  refine ⟨mandatesOf, length, fun shard member => ?_, fun i valid => ?_,
    fun shardId valid shardId' valid' => mandatesDealt_balanced drawn.forMandates _ valid valid',
    fun shardId valid => ?_⟩
  · -- each shard orders the assignment of some shard, whose stakes are positive
    obtain ⟨shardId, -, orders⟩ := List.Forall₂.exists_of_mem_right ordered shard member
    refine ⟨orders.ids.nodup_iff.mpr (AList.keys_nodup _), fun entry inShard => ?_⟩
    rw [orders.stakes entry inShard]
    exact positive_assignShards mandatesOf drawn shardId entry.1
      (AList.mem_keys.mpr (orders.ids.subset (List.mem_map_of_mem inShard)))
  · rw [← ordered.sum_map_eq fun shardId shard orders => (OrdersAssignment.sum_validator orders i).symm,
      ← validatorStake_eq_sum_range (length_assignShards _ _ _),
      validatorStake_assignShards mandatesOf drawn shards valid]
  · obtain ⟨-, related⟩ := List.forall₂_iff_get.mp ordered
    have inside : shardId < mandates.config.numShards := length ▸ valid
    have orders := related shardId (by rw [List.length_range]; exact inside) valid
    rw [List.get_eq_getElem, List.get_eq_getElem, List.getElem_range] at orders
    rw [orders.sum_stakes, totalStake_assignShards _ _ _ inside]

/-- The generator that leaves every list in its order. -/
def keepOrder : Shuffler Unit := ⟨fun state l => (l, state), fun _ l => List.Perm.refl l⟩

/-- A validator of stake one. -/
def unitValidator : ValidatorStake := ⟨AccountId.ofLetter 97 AccountId.lower_a, 1⟩

/-- A single stake of one is priced at one, whatever the target. -/
theorem computeMandatePrice_unitStake (config : ValidatorMandatesConfig) : computeMandatePrice config [1] = .ok 1 := by
  have total : saturatingSum [1] = 1 := by decide
  have atOne : countWholeMandates [1] 1 = 1 := by decide
  have target : targetMandates config 1 ≤ 1 := Nat.min_le_right _ _
  simp only [computeMandatePrice, binarySearch, total, atOne]
  rcases Nat.le_one_iff_eq_zero_or_eq_one.mp target with none | one
  · rw [none, binarySearchLoop]
    rfl
  · rw [one, if_pos rfl, highestExact]
    rfl

theorem ValidatorMandates.new_unitValidator (config : ValidatorMandatesConfig) :
    ValidatorMandates.new config [unitValidator] = .ok ⟨config, 1, [0], []⟩ := by
  have stakes : [unitValidator].map ValidatorStake.stake = [1] := rfl
  simp only [ValidatorMandates.new, stakes, computeMandatePrice_unitStake]
  rfl

theorem ValidatorMandates.sample_conserves_stake_oneShard :
    ((ValidatorMandates.mk ⟨1, 1⟩ 1 [0] []).sample keepOrder ()).1.length = 1 ∧
      (((ValidatorMandates.mk ⟨1, 1⟩ 1 [0] []).sample keepOrder ()).1.map fun shard =>
        (shard.map fun entry => if entry.1 = 0 then entry.2 else 0).sum).sum = 1 := by
  obtain ⟨-, length, -, sums, -, -⟩ :=
    ValidatorMandates.sample_conserves_stake (Nat.le_refl 1) (ValidatorMandates.new_unitValidator ⟨1, 1⟩) keepOrder ()
  exact ⟨length, sums 0 (by decide)⟩

/-- Without shards, `new` still succeeds, but `sample` returns no shard: the stake of the only
validator is assigned nowhere. -/
theorem ValidatorMandates.sample_without_shards_drops_stake :
    ValidatorMandates.new ⟨0, 0⟩ [unitValidator] = .ok ⟨⟨0, 0⟩, 1, [0], []⟩ ∧ unitValidator.stake = 1 ∧
      ∀ {σ : Type} (rng : Shuffler σ) (state : σ),
        (((ValidatorMandates.mk ⟨0, 0⟩ 1 [0] []).sample rng state).1.map fun shard =>
          (shard.map fun entry => if entry.1 = 0 then entry.2 else 0).sum).sum = 0 :=
  ⟨ValidatorMandates.new_unitValidator ⟨0, 0⟩, rfl, fun _ _ => rfl⟩

end Nearcore
