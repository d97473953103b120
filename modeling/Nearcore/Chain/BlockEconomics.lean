import Nearcore.Library.Unsigned

/-! The economics checks of a block (`core/primitives/src/block.rs`), which `Chain::preprocess_block`
(`chain/chain/src/chain.rs`) makes after `validate_header` and `validate_block`, and before
`validate_chunk_headers` compares the chunk headers with the results of the previous chunks. Of
a chunk header they read the height it was included at and three values its producer signed: the
gas used and the balance burnt by the previous chunk, and the gas limit. Gas is a `u64`, a balance
a `u128`, and the node is built with `overflow-checks` and `panic = "abort"`: an operation that
does not fit panics, and the panic ends the node. -/
namespace Nearcore.Chain

open Unsigned

/-- The fields of `ShardChunkHeader` that the checks read. -/
structure ShardChunkHeader where
  heightIncluded : Nat
  prevGasUsed : Nat
  gasLimit : Nat
  prevBalanceBurnt : Nat
  deriving DecidableEq, Repr

/-- The fields of `BlockHeader` that the checks read. -/
structure BlockHeader where
  height : Nat
  nextGasPrice : Nat
  totalSupply : Nat
  deriving DecidableEq, Repr

/-- A `Block`: its header and the chunk headers of its body. -/
structure Block where
  header : BlockHeader
  chunks : List ShardChunkHeader
  deriving DecidableEq, Repr

/-- `Rational32`, a ratio of two `i32`. -/
structure Rational32 where
  numer : Int
  denom : Int
  deriving DecidableEq, Repr

/-- `x as u128` for an `i32`: the value modulo `2 ^ 128`. -/
def asU128 (x : Int) : Nat := (x % 2 ^ 128).toNat

section
attribute [local simp] asU128
end

/-- `Ord::clamp`, which asserts that its bounds are ordered. -/
def clamp (value min max : Nat) : Except Panic Nat :=
  if min ≤ max then .ok (if value < min then min else if max < value then max else value)
  else .error ⟨"assertion failed: min <= max"⟩

/-- `U256::as_u128`. -/
def U256.asU128 (value : Nat) : Except Panic Nat :=
  if value < 2 ^ 128 then .ok value else .error ⟨"Integer overflow when casting to u128"⟩

section
attribute [local simp] U256.asU128
end

/-- The sum of a field of the chunks included at `height`, folded with checked additions of the
field's `width`, as `compute_gas_used`, `compute_gas_limit` and `verify_total_supply` fold it. -/
def sumIncluded (width : Nat) (field : ShardChunkHeader → Nat) (chunks : List ShardChunkHeader)
    (height : Nat) : Except Panic Nat :=
  chunks.foldlM (fun acc chunk => if chunk.heightIncluded = height then add width acc (field chunk) else pure acc) 0

section
attribute [local simp] sumIncluded
end

/-- `Block::compute_gas_used`. -/
def Block.computeGasUsed (chunks : List ShardChunkHeader) (height : Nat) : Except Panic Nat :=
  sumIncluded 64 ShardChunkHeader.prevGasUsed chunks height

/-- `Block::compute_gas_limit`. -/
def Block.computeGasLimit (chunks : List ShardChunkHeader) (height : Nat) : Except Panic Nat :=
  sumIncluded 64 ShardChunkHeader.gasLimit chunks height

/-- `Block::compute_next_gas_price`: `gas_price * (1 + (gas_used / gas_limit - 1/2) * rate)`,
rounded down and clamped, computed in `u128` and then `U256`. -/
def Block.computeNextGasPrice (gasPrice gasUsed gasLimit : Nat) (gasPriceAdjustmentRate : Rational32)
    (minGasPrice maxGasPrice : Nat) : Except Panic Nat :=
  -- a block whose chunks were all skipped leaves the price as it is
  if gasLimit = 0 then pure gasPrice
  else do
    let adjustmentRateNumer := asU128 gasPriceAdjustmentRate.numer
    let adjustmentRateDenom := asU128 gasPriceAdjustmentRate.denom
    -- `2 * denom * gas_limit + 2 * numer * gas_used - numer * gas_limit`, left to right
    let first ← mul 128 2 adjustmentRateDenom >>= (mul 128 · gasLimit)
    let second ← mul 128 2 adjustmentRateNumer >>= (mul 128 · gasUsed)
    let sum ← add 128 first second
    let numerator ← mul 128 adjustmentRateNumer gasLimit >>= (sub sum ·)
    let denominator ← mul 128 2 adjustmentRateDenom >>= (mul 128 · gasLimit)
    let nextGasPrice ← mul 256 gasPrice numerator >>= (div · denominator)
    clamp nextGasPrice minGasPrice maxGasPrice >>= U256.asU128

section
attribute [local simp] Block.computeNextGasPrice
end

/-- `Block::verify_gas_price`. -/
def Block.verifyGasPrice (block : Block) (gasPrice minGasPrice maxGasPrice : Nat)
    (gasPriceAdjustmentRate : Rational32) : Except Panic Bool := do
  let gasUsed ← Block.computeGasUsed block.chunks block.header.height
  let gasLimit ← Block.computeGasLimit block.chunks block.header.height
  let expectedPrice ← Block.computeNextGasPrice gasPrice gasUsed gasLimit gasPriceAdjustmentRate
    minGasPrice maxGasPrice
  pure (block.header.nextGasPrice = expectedPrice)

section
attribute [local simp] Block.verifyGasPrice
end

/-- `Block::verify_total_supply`. -/
def Block.verifyTotalSupply (block : Block) (prevTotalSupply : Nat) (mintedAmount : Option Nat) :
    Except Panic Bool := do
  let balanceBurnt ← sumIncluded 128 ShardChunkHeader.prevBalanceBurnt block.chunks block.header.height
  let newTotalSupply ← add 128 prevTotalSupply (mintedAmount.getD 0) >>= (sub · balanceBurnt)
  pure (block.header.totalSupply = newTotalSupply)

section
attribute [local simp] Block.verifyTotalSupply
end

/-- The error `preprocess_block` gives for either check: a wrong total supply is reported as a wrong
gas price too. -/
inductive Error where
  | invalidGasPrice
  deriving DecidableEq, Repr

/-- The economics checks of `Chain::preprocess_block`: the gas price against the previous header's
next gas price, then the total supply against the previous header's. -/
def checkBlockEconomics (block : Block) (gasPrice prevTotalSupply : Nat) (mintedAmount : Option Nat)
    (minGasPrice maxGasPrice : Nat) (gasPriceAdjustmentRate : Rational32) :
    Except Panic (Except Error Unit) := do
  if !(← block.verifyGasPrice gasPrice minGasPrice maxGasPrice gasPriceAdjustmentRate) then
    return .error .invalidGasPrice
  if !(← block.verifyTotalSupply prevTotalSupply mintedAmount) then
    return .error .invalidGasPrice
  return .ok ()

section
attribute [local simp] checkBlockEconomics
end

/-! ### The checks in unbounded arithmetic -/

/-- The total of a field over the chunks included at `height`. -/
def includedTotal (field : ShardChunkHeader → Nat) (chunks : List ShardChunkHeader) (height : Nat) : Nat :=
  ((chunks.filter fun chunk => decide (chunk.heightIncluded = height)).map field).sum

section
attribute [local simp] includedTotal
end

/-- The price `compute_next_gas_price` means, in unbounded arithmetic. -/
def nextGasPrice (gasPrice gasUsed gasLimit numer denom minGasPrice maxGasPrice : Nat) : Nat :=
  if gasLimit = 0 then gasPrice
  else
    let price := gasPrice * (2 * denom * gasLimit + 2 * numer * gasUsed - numer * gasLimit) / (2 * denom * gasLimit)
    if price < minGasPrice then minGasPrice else if maxGasPrice < price then maxGasPrice else price

section
attribute [local simp] nextGasPrice
end

/-- A clamped price lies within the bounds. -/
theorem nextGasPrice_mem {gasPrice gasUsed gasLimit numer denom minGasPrice maxGasPrice : Nat}
    (ordered : minGasPrice ≤ maxGasPrice) (limited : gasLimit ≠ 0) :
    minGasPrice ≤ nextGasPrice gasPrice gasUsed gasLimit numer denom minGasPrice maxGasPrice ∧
      nextGasPrice gasPrice gasUsed gasLimit numer denom minGasPrice maxGasPrice ≤ maxGasPrice := by
  simp only [nextGasPrice, if_neg limited]
  split
  · exact ⟨Nat.le_refl _, ordered⟩
  · split <;> omega

/-- A checked sum over the included chunks is their total when it fits, and an overflow panic
when it does not. -/
theorem sumIncluded_eq (width : Nat) (field : ShardChunkHeader → Nat) (chunks : List ShardChunkHeader)
    (height : Nat) :
    sumIncluded width field chunks height =
      if includedTotal field chunks height < 2 ^ width then .ok (includedTotal field chunks height)
      else .error ⟨"attempt to add with overflow"⟩ := by
  unfold sumIncluded includedTotal
  rw [List.foldlM_ite_pure (fun chunk : ShardChunkHeader => chunk.heightIncluded = height) field (add width),
    foldlM_add _ (Nat.two_pow_pos width), Nat.zero_add]

/-! ### No overflow in the price -/

/-- An adjustment rate a configuration can have: a ratio of `i32`s in `[0, 1]`, as the comment
of `compute_next_gas_price` asks, with a positive denominator. -/
structure Rational32.Sane (rate : Rational32) : Prop where
  numer_nonneg : 0 ≤ rate.numer
  numer_le : rate.numer ≤ rate.denom
  denom_pos : 0 < rate.denom
  denom_lt : rate.denom < 2 ^ 31

theorem asU128_of_nonneg {x : Int} (nonneg : 0 ≤ x) (lt : x < 2 ^ 128) : asU128 x = x.toNat := by
  rw [asU128, Int.emod_eq_of_lt nonneg lt]

section Price

variable {rate : Rational32} {gasPrice gasUsed gasLimit minGasPrice maxGasPrice : Nat}

/-- For gas values that fit in `u64` and a price that fits in `u128`, with a rate a configuration
can have and ordered bounds, `compute_next_gas_price` does not panic and computes the price in
unbounded arithmetic. -/
theorem computeNextGasPrice_eq (sane : rate.Sane) (price : gasPrice < 2 ^ 128) (used : gasUsed < 2 ^ 64)
    (limit : gasLimit < 2 ^ 64) (ordered : minGasPrice ≤ maxGasPrice) (bounded : maxGasPrice < 2 ^ 128) :
    Block.computeNextGasPrice gasPrice gasUsed gasLimit rate minGasPrice maxGasPrice =
      .ok (nextGasPrice gasPrice gasUsed gasLimit rate.numer.toNat rate.denom.toNat minGasPrice maxGasPrice) := by
  by_cases skipped : gasLimit = 0
  · simp [Block.computeNextGasPrice, nextGasPrice, skipped]
  · obtain ⟨numerNonneg, numerLe, denomPos, denomLt⟩ := sane
    -- the rate's two parts as natural numbers
    obtain ⟨numer, numerCast⟩ := Int.eq_ofNat_of_zero_le numerNonneg
    obtain ⟨denom, denomCast⟩ := Int.eq_ofNat_of_zero_le (Int.le_of_lt denomPos)
    have numerEq : asU128 rate.numer = numer := by
      rw [asU128_of_nonneg numerNonneg (by omega), numerCast, Int.toNat_natCast]
    have denomEq : asU128 rate.denom = denom := by
      rw [asU128_of_nonneg (Int.le_of_lt denomPos) (by omega), denomCast, Int.toNat_natCast]
    rw [numerCast, denomCast, Int.toNat_natCast, Int.toNat_natCast]
    -- every `u128` intermediate is below `2 ^ 97`
    have twoDenom : 2 * denom < 2 ^ 32 := by omega
    have twoNumer : 2 * numer < 2 ^ 32 := by omega
    have first : 2 * denom * gasLimit < 2 ^ 96 := mul_lt_two_pow twoDenom limit
    have second : 2 * numer * gasUsed < 2 ^ 96 := mul_lt_two_pow twoNumer used
    have third : numer * gasLimit < 2 ^ 96 := mul_lt_two_pow (by omega : numer < 2 ^ 32) limit
    have below : numer * gasLimit ≤ 2 * denom * gasLimit + 2 * numer * gasUsed :=
      calc numer * gasLimit ≤ 2 * denom * gasLimit := Nat.mul_le_mul_right _ (by omega)
        _ ≤ _ := Nat.le_add_right _ _
    have numerator : gasPrice * (2 * denom * gasLimit + 2 * numer * gasUsed - numer * gasLimit) < 2 ^ 256 :=
      calc _ < 2 ^ (128 + 97) := mul_lt_two_pow price (by omega)
        _ ≤ 2 ^ 256 := Nat.pow_le_pow_right (by omega) (by omega)
    have denominator : 0 < 2 * denom * gasLimit := Nat.mul_pos (by omega) (by omega)
    simp only [Block.computeNextGasPrice, if_neg skipped, numerEq, denomEq, Except.ok_bind,
      mul_of_lt (by omega : 2 * denom < 2 ^ 128), mul_of_lt (by omega : 2 * numer < 2 ^ 128),
      mul_of_lt (by omega : 2 * denom * gasLimit < 2 ^ 128), mul_of_lt (by omega : 2 * numer * gasUsed < 2 ^ 128),
      add_of_lt (by omega : 2 * denom * gasLimit + 2 * numer * gasUsed < 2 ^ 128),
      mul_of_lt (by omega : numer * gasLimit < 2 ^ 128), sub_of_le below, mul_of_lt numerator,
      div_of_pos denominator, clamp, if_pos ordered]
    -- the clamped price is within the bounds, so it fits in `u128`
    have clamped := @nextGasPrice_mem gasPrice gasUsed _ numer denom _ _ ordered skipped
    simp only [nextGasPrice, if_neg skipped] at clamped ⊢
    rw [U256.asU128, if_pos (by omega)]

end Price

/-! ### The checks of a block -/

namespace Block

/-- The gas used and the gas limit of the chunks included in the block. -/
def gasUsedTotal (block : Block) : Nat := includedTotal ShardChunkHeader.prevGasUsed block.chunks block.header.height
def gasLimitTotal (block : Block) : Nat := includedTotal ShardChunkHeader.gasLimit block.chunks block.header.height

/-- The balance the chunks included in the block burnt. -/
def balanceBurnt (block : Block) : Nat :=
  includedTotal ShardChunkHeader.prevBalanceBurnt block.chunks block.header.height

/-- The header's next gas price is the one the chunks included in the block give. -/
def GasPriceHolds (block : Block) (gasPrice minGasPrice maxGasPrice : Nat) (rate : Rational32) : Prop :=
  block.header.nextGasPrice =
    nextGasPrice gasPrice block.gasUsedTotal block.gasLimitTotal rate.numer.toNat rate.denom.toNat minGasPrice maxGasPrice

instance (block : Block) (gasPrice minGasPrice maxGasPrice : Nat) (rate : Rational32) :
    Decidable (block.GasPriceHolds gasPrice minGasPrice maxGasPrice rate) :=
  inferInstanceAs (Decidable (_ = _))

variable (block : Block) {rate : Rational32} {gasPrice minGasPrice maxGasPrice : Nat}

theorem computeGasUsed_eq :
    computeGasUsed block.chunks block.header.height =
      if block.gasUsedTotal < 2 ^ 64 then .ok block.gasUsedTotal else .error ⟨"attempt to add with overflow"⟩ :=
  sumIncluded_eq _ _ _ _

theorem computeGasLimit_eq :
    computeGasLimit block.chunks block.header.height =
      if block.gasLimitTotal < 2 ^ 64 then .ok block.gasLimitTotal else .error ⟨"attempt to add with overflow"⟩ :=
  sumIncluded_eq _ _ _ _

theorem sumIncluded_balanceBurnt_eq :
    sumIncluded 128 ShardChunkHeader.prevBalanceBurnt block.chunks block.header.height =
      if block.balanceBurnt < 2 ^ 128 then .ok block.balanceBurnt else .error ⟨"attempt to add with overflow"⟩ :=
  sumIncluded_eq _ _ _ _

/-- `verify_gas_price` panics exactly when a gas sum does not fit in `u64`, and otherwise checks
the price in unbounded arithmetic. -/
theorem verifyGasPrice_eq (sane : rate.Sane) (price : gasPrice < 2 ^ 128) (ordered : minGasPrice ≤ maxGasPrice)
    (bounded : maxGasPrice < 2 ^ 128) :
    block.verifyGasPrice gasPrice minGasPrice maxGasPrice rate =
      if block.gasUsedTotal < 2 ^ 64 ∧ block.gasLimitTotal < 2 ^ 64 then
        .ok (decide (block.GasPriceHolds gasPrice minGasPrice maxGasPrice rate))
      else .error ⟨"attempt to add with overflow"⟩ := by
  rw [verifyGasPrice, computeGasUsed_eq, computeGasLimit_eq]
  by_cases used : block.gasUsedTotal < 2 ^ 64
  · by_cases limit : block.gasLimitTotal < 2 ^ 64
    · simp only [if_pos used, if_pos limit, if_pos (And.intro used limit), Except.ok_bind,
        computeNextGasPrice_eq sane price used limit ordered bounded, Except.pure_eq_ok]
      rfl
    · simp only [if_pos used, if_neg limit, if_neg (fun both : _ ∧ _ => limit both.2), Except.ok_bind,
        Except.error_bind]
  · simp only [if_neg used, if_neg (fun both : _ ∧ _ => used both.1), Except.error_bind]

/-- `verify_total_supply` panics exactly when the balance burnt does not fit in `u128` or exceeds
the supply, and otherwise checks the supply in unbounded arithmetic. -/
theorem verifyTotalSupply_eq {prevTotalSupply : Nat} {mintedAmount : Option Nat}
    (supply : prevTotalSupply + mintedAmount.getD 0 < 2 ^ 128) :
    block.verifyTotalSupply prevTotalSupply mintedAmount =
      if block.balanceBurnt < 2 ^ 128 then
        if block.balanceBurnt ≤ prevTotalSupply + mintedAmount.getD 0 then
          .ok (decide (block.header.totalSupply = prevTotalSupply + mintedAmount.getD 0 - block.balanceBurnt))
        else .error ⟨"attempt to subtract with overflow"⟩
      else .error ⟨"attempt to add with overflow"⟩ := by
  rw [verifyTotalSupply, sumIncluded_balanceBurnt_eq]
  by_cases burnt : block.balanceBurnt < 2 ^ 128
  · by_cases within : block.balanceBurnt ≤ prevTotalSupply + mintedAmount.getD 0
    · simp only [if_pos burnt, if_pos within, Except.ok_bind, add_of_lt supply, sub_of_le within,
        Except.pure_eq_ok]
    · simp only [if_pos burnt, if_neg within, Except.ok_bind, add_of_lt supply,
        sub_of_lt (Nat.not_le.mp within), Except.error_bind]
  · simp only [if_neg burnt, Except.error_bind]

end Block

/-! ### What `preprocess_block` does with a block -/

variable {block : Block} {rate : Rational32} {gasPrice prevTotalSupply minGasPrice maxGasPrice : Nat}
  {mintedAmount : Option Nat}

/-- The checks run one after the other: the total supply is checked only after the gas price
passed. -/
theorem checkBlockEconomics_eq_bind :
    checkBlockEconomics block gasPrice prevTotalSupply mintedAmount minGasPrice maxGasPrice rate =
      block.verifyGasPrice gasPrice minGasPrice maxGasPrice rate >>= fun priceOk =>
        if priceOk then
          block.verifyTotalSupply prevTotalSupply mintedAmount >>= fun supplyOk =>
            pure (if supplyOk then .ok () else .error .invalidGasPrice)
        else pure (.error .invalidGasPrice) := by
  unfold checkBlockEconomics
  rcases block.verifyGasPrice gasPrice minGasPrice maxGasPrice rate with panic | _ | _
  · rfl
  · rfl
  · rcases block.verifyTotalSupply prevTotalSupply mintedAmount with panic | _ | _ <;> rfl

section Sane

variable (sane : rate.Sane) (price : gasPrice < 2 ^ 128) (ordered : minGasPrice ≤ maxGasPrice)
  (bounded : maxGasPrice < 2 ^ 128) (supply : prevTotalSupply + mintedAmount.getD 0 < 2 ^ 128)
include sane price ordered bounded supply

/-- The economics checks end the node exactly when a gas sum of the included chunks does not fit
in `u64`, or when the gas price is right and the included chunks burnt more than the supply. -/
theorem checkBlockEconomics_panics_iff :
    (∃ panic, checkBlockEconomics block gasPrice prevTotalSupply mintedAmount minGasPrice maxGasPrice rate =
        .error panic) ↔
      ¬ (block.gasUsedTotal < 2 ^ 64 ∧ block.gasLimitTotal < 2 ^ 64) ∨
        (block.GasPriceHolds gasPrice minGasPrice maxGasPrice rate ∧
          prevTotalSupply + mintedAmount.getD 0 < block.balanceBurnt) := by
  rw [checkBlockEconomics_eq_bind, block.verifyGasPrice_eq sane price ordered bounded,
    block.verifyTotalSupply_eq supply]
  by_cases fits : block.gasUsedTotal < 2 ^ 64 ∧ block.gasLimitTotal < 2 ^ 64
  · rw [if_pos fits, Except.ok_bind]
    by_cases holds : block.GasPriceHolds gasPrice minGasPrice maxGasPrice rate
    · -- the price is right: the total supply check decides
      rw [if_pos (decide_eq_true holds)]
      by_cases within : block.balanceBurnt ≤ prevTotalSupply + mintedAmount.getD 0
      · have burnt : block.balanceBurnt < 2 ^ 128 := by omega
        rw [if_pos burnt, if_pos within, Except.ok_bind]
        refine iff_of_false (fun ⟨_, failed⟩ => by cases failed) ?_
        rintro (unfit | ⟨-, exceeds⟩)
        · exact unfit fits
        · omega
      · have exceeds : prevTotalSupply + mintedAmount.getD 0 < block.balanceBurnt := by omega
        by_cases burnt : block.balanceBurnt < 2 ^ 128
        · rw [if_pos burnt, if_neg within, Except.error_bind]
          exact iff_of_true ⟨_, rfl⟩ (.inr ⟨holds, exceeds⟩)
        · rw [if_neg burnt, Except.error_bind]
          exact iff_of_true ⟨_, rfl⟩ (.inr ⟨holds, exceeds⟩)
    · rw [if_neg (fun decided => holds (of_decide_eq_true decided))]
      refine iff_of_false (fun ⟨_, failed⟩ => by cases failed) ?_
      rintro (unfit | ⟨held, -⟩)
      · exact unfit fits
      · exact holds held
  · rw [if_neg fits, Except.error_bind]
    exact iff_of_true ⟨_, rfl⟩ (.inl fits)

/-- A block the economics checks accept has the next gas price that its included chunks give,
within the bounds unless all its chunks were skipped, and a total supply that is the previous one
with the minted amount added and the balance burnt taken away. -/
theorem checkBlockEconomics_accepts
    (accepted : checkBlockEconomics block gasPrice prevTotalSupply mintedAmount minGasPrice maxGasPrice rate =
      .ok (.ok ())) :
    block.GasPriceHolds gasPrice minGasPrice maxGasPrice rate ∧
      (block.gasLimitTotal ≠ 0 → minGasPrice ≤ block.header.nextGasPrice ∧ block.header.nextGasPrice ≤ maxGasPrice) ∧
      block.header.totalSupply + block.balanceBurnt = prevTotalSupply + mintedAmount.getD 0 := by
  rw [checkBlockEconomics_eq_bind, block.verifyGasPrice_eq sane price ordered bounded,
    block.verifyTotalSupply_eq supply] at accepted
  by_cases fits : block.gasUsedTotal < 2 ^ 64 ∧ block.gasLimitTotal < 2 ^ 64
  · rw [if_pos fits, Except.ok_bind] at accepted
    by_cases holds : block.GasPriceHolds gasPrice minGasPrice maxGasPrice rate
    · refine ⟨holds, fun limited => holds ▸ nextGasPrice_mem ordered limited, ?_⟩
      rw [if_pos (decide_eq_true holds)] at accepted
      by_cases burnt : block.balanceBurnt < 2 ^ 128
      · by_cases within : block.balanceBurnt ≤ prevTotalSupply + mintedAmount.getD 0
        · rw [if_pos burnt, if_pos within, Except.ok_bind] at accepted
          by_cases total : block.header.totalSupply = prevTotalSupply + mintedAmount.getD 0 - block.balanceBurnt
          · omega
          · rw [if_neg (fun decided => total (of_decide_eq_true decided))] at accepted
            cases accepted
        · rw [if_pos burnt, if_neg within, Except.error_bind] at accepted
          cases accepted
      · rw [if_neg burnt, Except.error_bind] at accepted
        cases accepted
    · rw [if_neg (fun decided => holds (of_decide_eq_true decided))] at accepted
      cases accepted
  · rw [if_neg fits, Except.error_bind] at accepted
    cases accepted

end Sane

/-! ### Chunk headers that end the node -/

/-- An adjustment rate of `1/100`. -/
def economicsRate : Rational32 := ⟨1, 100⟩

/-- A block at height 2 with the right gas price and one chunk included at its height, whose
producer signed a balance burnt one above the supply of 1000. -/
def overBurntBlock : Block := ⟨⟨2, 100000000, 0⟩, [⟨2, 0, 1000, 1001⟩]⟩

/-- A block at height 2 with two chunks included at its height, whose producers signed a gas used
of `2 ^ 63` each. -/
def overUsedBlock : Block := ⟨⟨2, 100000000, 1000⟩, [⟨2, 2 ^ 63, 1000, 0⟩, ⟨2, 2 ^ 63, 1000, 0⟩]⟩

/-- Both blocks reach the economics checks of `preprocess_block`, as `validate_block` checks only the
chunk producers' signatures, and the checks panic instead of rejecting them: the first in the
subtraction of `verify_total_supply`, the second in the addition of `compute_gas_used`. -/
theorem checkBlockEconomics_aborts :
    checkBlockEconomics overBurntBlock 100000000 1000 none 100000000 2000000000 economicsRate =
        .error ⟨"attempt to subtract with overflow"⟩ ∧
      checkBlockEconomics overUsedBlock 100000000 1000 none 100000000 2000000000 economicsRate =
        .error ⟨"attempt to add with overflow"⟩ :=
  ⟨rfl, rfl⟩

end Nearcore.Chain
