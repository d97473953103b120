import Nearcore.Library.Unsigned
import Nearcore.Primitives.Action

/-! The price of a mandate (`core/primitives/src/validator_mandates/compute_price.rs`): the
largest price at which the stakes make the target number of whole mandates, found by two binary
searches over `u128` prices. `binary_search` and `highest_exact` are generic over the function
they search, as in the source, and rely on it not increasing. Their `debug_assert!`s are not
compiled into the node's release build and are left out. The subtraction `high - low` panics
below zero; `low + (high - low) / 2` stays within `high` and cannot overflow. The count of whole
mandates is only evaluated at prices of at least one, so its division never divides by zero. -/
namespace Nearcore

open Unsigned

/-- `ValidatorMandatesConfig`. -/
structure ValidatorMandatesConfig where
  targetMandatesPerShard : Nat
  numShards : Nat

/-- `usize::MAX` on the 64-bit targets the node runs on. -/
def Usize.MAX : Nat := 2 ^ 64 - 1

section
attribute [local simp] Usize.MAX
end

/-- `saturating_sum`: the sum of `u128` values, stopping at `u128::MAX`. -/
def saturatingSum (values : List Nat) : Nat :=
  values.foldl (fun acc x => min (acc + x) Balance.MAX) 0

/-- `highest_exact`: from a price that makes the target and a higher one that makes less, the
highest price that makes the target. -/
def highestExact (low high target : Nat) (f : Nat → Nat) : Except Panic Nat :=
  -- `high - low` is a `u128` subtraction
  if high < low then throw ⟨"attempt to subtract with overflow"⟩
  else if high - low > 1 then
    let mid := low + (high - low) / 2
    match compare (f mid) target with
    | .eq => highestExact mid high target f
    | .lt => highestExact low mid target f
    | .gt => throw ⟨"internal error: entered unreachable code: Given function must be non-increasing"⟩
  else pure low
termination_by high - low

section
attribute [local simp] highestExact
end

/-- The loop of `binary_search`, once neither end makes the target. -/
def binarySearchLoop (low high target : Nat) (f : Nat → Nat) : Except Panic Nat :=
  if high < low then throw ⟨"attempt to subtract with overflow"⟩
  else if high - low > 1 then
    let mid := low + (high - low) / 2
    match compare (f mid) target with
    | .eq => highestExact mid high target f
    | .lt => binarySearchLoop low mid target f
    | .gt => binarySearchLoop mid high target f
  else pure low
termination_by high - low

section
attribute [local simp] binarySearchLoop
end

/-- `binary_search`. -/
def binarySearch (low high target : Nat) (f : Nat → Nat) : Except Panic Nat :=
  if f low = target then highestExact low high target f
  else if f high = target then pure high
  else binarySearchLoop low high target f

section
attribute [local simp] binarySearch
end

/-- The number of whole mandates the stakes make at a price, the closure `compute_mandate_price`
searches with. -/
def countWholeMandates (stakes : List Nat) (mandatePrice : Nat) : Nat :=
  saturatingSum (stakes.map (· / mandatePrice))

/-- The target number of mandates of `compute_mandate_price`: that of all shards, which cannot be
larger than the total stake. -/
def targetMandates (config : ValidatorMandatesConfig) (totalStake : Nat) : Nat :=
  -- `usize::saturating_mul`, then `as u128`
  min (min (config.numShards * config.targetMandatesPerShard) Usize.MAX) totalStake

section
attribute [local simp] targetMandates
end

/-- `compute_mandate_price`. -/
def computeMandatePrice (config : ValidatorMandatesConfig) (stakes : List Nat) : Except Panic Nat :=
  let totalStake := saturatingSum stakes
  binarySearch 1 totalStake (targetMandates config totalStake) (countWholeMandates stakes)

section
attribute [local simp] computeMandatePrice
end

/-! ### The two searches -/

section Search

variable {f : Nat → Nat} {base target : Nat}

/-- The midpoint of two bounds more than one apart lies strictly between them. -/
theorem mid_between (low high : Nat) (apart : high - low > 1) :
    low < low + (high - low) / 2 ∧ low + (high - low) / 2 < high := by
  omega

/-- A search for the highest price that makes the target, from one that makes it and a higher one
that makes less, finds a price that makes it with the next one making less. -/
theorem highestExact_spec (antitone : ∀ a b, base ≤ a → a ≤ b → f b ≤ f a) :
    ∀ low high, base ≤ low → low < high → f low = target → f high < target →
      ∃ p, highestExact low high target f = .ok p ∧ low ≤ p ∧ p < high ∧ f p = target ∧ f (p + 1) < target := by
  intro low high
  fun_induction highestExact low high target f with
  | case1 low high reversed =>
    intro _ below
    omega
  | case2 low high ordered apart mid exact ih =>
    intro based below atLow atHigh
    have between := mid_between low high apart
    obtain ⟨p, found, above, within, hit, next⟩ :=
      ih (by omega) between.2 (Nat.compare_eq_eq.mp exact) atHigh
    exact ⟨p, found, by omega, within, hit, next⟩
  | case3 low high ordered apart mid less ih =>
    intro based below atLow atHigh
    have between := mid_between low high apart
    obtain ⟨p, found, above, within, hit, next⟩ := ih based between.1 atLow (Nat.compare_eq_lt.mp less)
    exact ⟨p, found, above, by omega, hit, next⟩
  | case4 low high ordered apart mid more =>
    -- a price above `low` makes more than `low` does: `f` would increase
    intro based below atLow atHigh
    have between := mid_between low high apart
    have := antitone low mid based (Nat.le_of_lt between.1)
    have := Nat.compare_eq_gt.mp more
    omega
  | case5 low high ordered close =>
    intro based below atLow atHigh
    have next : low + 1 = high := by omega
    exact ⟨low, rfl, Nat.le_refl _, below, atLow, next ▸ atHigh⟩

/-- Above a price whose next price makes less than the target, no price makes it. -/
theorem ne_target_above (antitone : ∀ a b, base ≤ a → a ≤ b → f b ≤ f a) {p : Nat} (based : base ≤ p)
    (next : f (p + 1) < target) : ∀ q, p < q → f q ≠ target := by
  intro q above hit
  have := antitone (p + 1) q (by omega) above
  omega

/-- When a price makes more than the target and the next one less, no price makes it. -/
theorem ne_target_of_between (antitone : ∀ a b, base ≤ a → a ≤ b → f b ≤ f a) {p : Nat} (based : base ≤ p)
    (more : target < f p) (next : f (p + 1) < target) : ∀ q, base ≤ q → f q ≠ target := by
  intro q qBased hit
  by_cases below : q ≤ p
  · have := antitone q p qBased below
    omega
  · exact ne_target_above antitone based next q (by omega) hit

/-- The loop of `binary_search`, between a price that makes more than the target and a higher one
that makes less, finds a price that makes at least the target with the next one making less. -/
theorem binarySearchLoop_spec (antitone : ∀ a b, base ≤ a → a ≤ b → f b ≤ f a) :
    ∀ low high, base ≤ low → low < high → target < f low → f high < target →
      ∃ p, binarySearchLoop low high target f = .ok p ∧ low ≤ p ∧ p < high ∧ target ≤ f p ∧ f (p + 1) < target := by
  intro low high
  fun_induction binarySearchLoop low high target f with
  | case1 low high reversed =>
    intro _ below
    omega
  | case2 low high ordered apart mid exact =>
    -- the midpoint makes the target: the rest is `highest_exact`
    intro based below atLow atHigh
    have between := mid_between low high apart
    obtain ⟨p, found, above, within, hit, next⟩ :=
      highestExact_spec antitone mid high (by omega) between.2 (Nat.compare_eq_eq.mp exact) atHigh
    exact ⟨p, found, by omega, within, Nat.le_of_eq hit.symm, next⟩
  | case3 low high ordered apart mid less ih =>
    intro based below atLow atHigh
    have between := mid_between low high apart
    obtain ⟨p, found, above, within, hit, next⟩ := ih based between.1 atLow (Nat.compare_eq_lt.mp less)
    exact ⟨p, found, above, by omega, hit, next⟩
  | case4 low high ordered apart mid more ih =>
    intro based below atLow atHigh
    have between := mid_between low high apart
    obtain ⟨p, found, above, within, hit, next⟩ :=
      ih (by omega) between.2 (Nat.compare_eq_gt.mp more) atHigh
    exact ⟨p, found, by omega, within, hit, next⟩
  | case5 low high ordered close =>
    intro based below atLow atHigh
    have next : low + 1 = high := by omega
    exact ⟨low, rfl, Nat.le_refl _, below, Nat.le_of_lt atLow, next ▸ atHigh⟩

/-- `binary_search` on a function that does not increase from `base` on, from a price that makes
at least the target to a higher one that makes at most the target and less than the lower one:
the price it returns makes the target with no higher price up to `high` making it, or no price
makes the target and it is the last price that makes more. -/
theorem binarySearch_spec (antitone : ∀ a b, base ≤ a → a ≤ b → f b ≤ f a) {low high : Nat} (based : base ≤ low)
    (below : low < high) (atLow : target ≤ f low) (atHigh : f high ≤ target) (falls : f high < f low) :
    ∃ p, binarySearch low high target f = .ok p ∧ low ≤ p ∧ p ≤ high ∧
      ((f p = target ∧ ∀ q, p < q → q ≤ high → f q ≠ target) ∨
        ((∀ q, base ≤ q → f q ≠ target) ∧ target < f p ∧ f (p + 1) < target)) := by
  unfold binarySearch
  by_cases exactLow : f low = target
  · rw [if_pos exactLow]
    obtain ⟨p, found, above, within, hit, next⟩ :=
      highestExact_spec antitone low high based below exactLow (by omega)
    exact ⟨p, found, above, Nat.le_of_lt within,
      .inl ⟨hit, fun q higher _ => ne_target_above antitone (by omega) next q higher⟩⟩
  · rw [if_neg exactLow]
    by_cases exactHigh : f high = target
    · rw [if_pos exactHigh]
      exact ⟨high, rfl, Nat.le_of_lt below, Nat.le_refl _, .inl ⟨exactHigh, fun q higher within => by omega⟩⟩
    · rw [if_neg exactHigh]
      have moreAtLow : target < f low := by omega
      have lessAtHigh : f high < target := by omega
      obtain ⟨p, found, above, within, atLeast, next⟩ :=
        binarySearchLoop_spec antitone low high based below moreAtLow lessAtHigh
      refine ⟨p, found, above, Nat.le_of_lt within, ?_⟩
      -- the loop stops at a price that makes the target, or at the last one that makes more
      by_cases hit : f p = target
      · exact .inl ⟨hit, fun q higher _ => ne_target_above antitone (by omega) next q higher⟩
      · have more : target < f p := by omega
        exact .inr ⟨ne_target_of_between antitone (by omega) more next, more, next⟩

end Search

/-! ### The price -/

/-- A saturating sum that does not reach `u128::MAX` is the sum. -/
theorem foldl_saturating_eq : ∀ (values : List Nat) (acc : Nat), acc + values.sum ≤ Balance.MAX →
    values.foldl (fun acc x => min (acc + x) Balance.MAX) acc = acc + values.sum
  | [], acc, _ => by simp
  | x :: rest, acc, fits => by
    rw [List.sum_cons] at fits
    rw [List.foldl_cons, Nat.min_eq_left (by omega), foldl_saturating_eq rest (acc + x) (by omega), List.sum_cons,
      Nat.add_assoc]

theorem saturatingSum_of_le {values : List Nat} (fits : values.sum ≤ Balance.MAX) : saturatingSum values = values.sum := by
  have summed := foldl_saturating_eq values 0 (by rwa [Nat.zero_add])
  rwa [Nat.zero_add] at summed

/-- At any price the whole mandates are at most the stakes. -/
theorem sum_div_le_sum (stakes : List Nat) (mandatePrice : Nat) : (stakes.map (· / mandatePrice)).sum ≤ stakes.sum :=
  calc (stakes.map (· / mandatePrice)).sum ≤ (stakes.map id).sum := List.sum_le_sum fun s _ => Nat.div_le_self s _
    _ = stakes.sum := by rw [List.map_id]

/-- For stakes whose sum fits in `u128`, the count of whole mandates is the sum of the floors. -/
theorem countWholeMandates_of_le {stakes : List Nat} (fits : stakes.sum ≤ Balance.MAX) (mandatePrice : Nat) :
    countWholeMandates stakes mandatePrice = (stakes.map (· / mandatePrice)).sum :=
  saturatingSum_of_le (Nat.le_trans (sum_div_le_sum stakes mandatePrice) fits)

/-- What the search needs of the count of whole mandates: it does not increase from price one on,
it is the total stake at price one, and at most one at the total stake. -/
theorem countWholeMandates_searchable {stakes : List Nat} (fits : stakes.sum ≤ Balance.MAX) (positive : 0 < stakes.sum) :
    (∀ a b, 1 ≤ a → a ≤ b → countWholeMandates stakes b ≤ countWholeMandates stakes a) ∧
      countWholeMandates stakes 1 = stakes.sum ∧ countWholeMandates stakes stakes.sum ≤ 1 := by
  refine ⟨fun a b based higher => ?_, ?_, ?_⟩
  · rw [countWholeMandates_of_le fits, countWholeMandates_of_le fits]
    exact List.sum_le_sum fun s _ => Nat.div_le_div_left higher based
  · rw [countWholeMandates_of_le fits]
    simp
  · -- each floor times the total is at most its stake, so the floors times the total are at most the total
    rw [countWholeMandates_of_le fits]
    have scaled : (stakes.map (· / stakes.sum)).sum * stakes.sum ≤ 1 * stakes.sum :=
      calc (stakes.map (· / stakes.sum)).sum * stakes.sum
          = (stakes.map fun s => s / stakes.sum * stakes.sum).sum := (List.sum_map_mul_right stakes (· / stakes.sum) stakes.sum).symm
        _ ≤ (stakes.map id).sum := List.sum_le_sum fun s _ => Nat.div_mul_le_self s _
        _ = 1 * stakes.sum := by rw [List.map_id, Nat.one_mul]
    exact Nat.le_of_mul_le_mul_right scaled positive

/-- For stakes whose sum fits, `compute_mandate_price` searches the prices from one to the total
stake for the target of the configuration. -/
theorem computeMandatePrice_eq (config : ValidatorMandatesConfig) {stakes : List Nat} (fits : stakes.sum ≤ Balance.MAX) :
    computeMandatePrice config stakes =
      binarySearch 1 stakes.sum (targetMandates config stakes.sum) (countWholeMandates stakes) := by
  rw [computeMandatePrice, saturatingSum_of_le fits]

/-- The target of a configuration with a shard and a mandate per shard, for a total stake of at
least one, is between one and the total stake. -/
theorem targetMandates_bounds {config : ValidatorMandatesConfig} {totalStake : Nat} (shards : 1 ≤ config.numShards)
    (perShard : 1 ≤ config.targetMandatesPerShard) (positive : 1 ≤ totalStake) :
    1 ≤ targetMandates config totalStake ∧ targetMandates config totalStake ≤ totalStake := by
  have product : 1 ≤ config.numShards * config.targetMandatesPerShard := Nat.mul_le_mul shards perShard
  unfold targetMandates Usize.MAX
  omega

/-- The mandate price meets its specification. For every list of stakes with a total `T` of at
least two that fits in `u128`, and every configuration with a shard and a mandate per shard, let
`t` be the target of whole mandates, the saturated product of the shards and the mandates per
shard but at most `T`, and `f p` the sum of the floors of the stakes divided by `p`:
`compute_mandate_price` returns a price `p` between one and `T` with `f p = t` and no higher price
up to `T` making `t`, or no price from one to `T` makes `t` and `f p > t > f (p + 1)`. -/
theorem computeMandatePrice_meets_spec (config : ValidatorMandatesConfig) (stakes : List Nat)
    (atLeastTwo : 2 ≤ stakes.sum) (fits : stakes.sum ≤ Balance.MAX) (shards : 1 ≤ config.numShards)
    (perShard : 1 ≤ config.targetMandatesPerShard) :
    ∃ p, computeMandatePrice config stakes = .ok p ∧ 1 ≤ p ∧ p ≤ stakes.sum ∧
      (((stakes.map (· / p)).sum = targetMandates config stakes.sum ∧
          ∀ q, p < q → q ≤ stakes.sum → (stakes.map (· / q)).sum ≠ targetMandates config stakes.sum) ∨
        ((∀ q, 1 ≤ q → q ≤ stakes.sum → (stakes.map (· / q)).sum ≠ targetMandates config stakes.sum) ∧
          targetMandates config stakes.sum < (stakes.map (· / p)).sum ∧
          (stakes.map (· / (p + 1))).sum < targetMandates config stakes.sum)) := by
  obtain ⟨antitone, atOne, atTotal⟩ := countWholeMandates_searchable fits (by omega)
  obtain ⟨targetPositive, targetWithin⟩ := targetMandates_bounds shards perShard (by omega : 1 ≤ stakes.sum)
  -- at price one the stakes make the total, at the total stake at most one whole mandate
  obtain ⟨p, found, above, within, result⟩ := binarySearch_spec antitone (Nat.le_refl 1) (by omega)
    (by rw [atOne]; exact targetWithin) (Nat.le_trans atTotal targetPositive) (by omega)
  rw [computeMandatePrice_eq config fits]
  simp only [countWholeMandates_of_le fits] at result
  refine ⟨p, found, above, within, ?_⟩
  rcases result with ⟨hit, higher⟩ | ⟨none, more, next⟩
  · exact .inl ⟨hit, higher⟩
  · exact .inr ⟨fun q based _ => none q based, more, next⟩

/-- Two stakes of 3 and 5, one shard with one mandate per shard. -/
theorem computeMandatePrice_meets_spec_twoStakes :
    ∃ p, computeMandatePrice ⟨1, 1⟩ [3, 5] = .ok p ∧ 1 ≤ p ∧ p ≤ 8 :=
  let ⟨p, found, above, within, _⟩ :=
    computeMandatePrice_meets_spec ⟨1, 1⟩ [3, 5] (by decide) (by decide) (by decide) (by decide)
  ⟨p, found, above, within⟩

/-- With 2^32 shards of 2^32 mandates the product of `compute_mandate_price` saturates at
`usize::MAX`: a single stake of 2^65 - 1 makes 2^64 - 1 whole mandates at price 2, the price
returned, which is fewer than the 2^64 of the unsaturated product and not more. -/
theorem computeMandatePrice_saturated_target :
    computeMandatePrice ⟨2 ^ 32, 2 ^ 32⟩ [2 ^ 65 - 1] = .ok 2 ∧
      ([2 ^ 65 - 1].map (· / 2)).sum < min (2 ^ 32 * 2 ^ 32) [2 ^ 65 - 1].sum := by
  have fits : [2 ^ 65 - 1].sum ≤ Balance.MAX := by decide
  obtain ⟨antitone, atOne, atTotal⟩ := countWholeMandates_searchable fits (by decide)
  have total : [2 ^ 65 - 1].sum = 2 ^ 65 - 1 := rfl
  have target : targetMandates ⟨2 ^ 32, 2 ^ 32⟩ (2 ^ 65 - 1) = 2 ^ 64 - 1 := by decide
  have count : ∀ q, countWholeMandates [2 ^ 65 - 1] q = (2 ^ 65 - 1) / q := fun q => by
    rw [countWholeMandates_of_le fits]
    simp
  rw [total] at atOne atTotal
  have atLow : targetMandates ⟨2 ^ 32, 2 ^ 32⟩ (2 ^ 65 - 1) ≤ countWholeMandates [2 ^ 65 - 1] 1 := by
    rw [atOne, target]
    decide
  have atHigh : countWholeMandates [2 ^ 65 - 1] (2 ^ 65 - 1) ≤ targetMandates ⟨2 ^ 32, 2 ^ 32⟩ (2 ^ 65 - 1) := by
    rw [target]
    omega
  have falls : countWholeMandates [2 ^ 65 - 1] (2 ^ 65 - 1) < countWholeMandates [2 ^ 65 - 1] 1 := by
    rw [atOne]
    omega
  obtain ⟨p, found, above, within, result⟩ :=
    binarySearch_spec antitone (Nat.le_refl 1) (by decide) atLow atHigh falls
  rw [target, count] at result
  simp only [count] at result
  -- price 2 makes the target exactly, so the search stops there
  have atTwo : (2 ^ 65 - 1) / 2 = 2 ^ 64 - 1 := by decide
  have priced : p = 2 := by
    rcases result with ⟨hit, higher⟩ | ⟨none, -, -⟩
    · by_cases low : p < 2
      · exact absurd atTwo (higher 2 low (by decide))
      · have : (2 ^ 65 - 1) / p ≤ (2 ^ 65 - 1) / 3 ∨ p = 2 := by
          by_cases two : p = 2
          · exact .inr two
          · exact .inl (Nat.div_le_div_left (by omega) (by decide))
        rcases this with smaller | two
        · rw [hit] at smaller
          exact absurd smaller (by decide)
        · exact two
    · exact absurd atTwo (none 2 (by decide))
  rw [computeMandatePrice_eq _ fits, total]
  exact ⟨priced ▸ found, by decide⟩

end Nearcore
