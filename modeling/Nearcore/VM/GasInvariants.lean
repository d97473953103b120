import Nearcore.VM.GasCounter

/-! What the gas counter keeps along a run of calls from `GasCounter::new`. Two invariants, each
proved once over the four outcomes of a call: `Capped`, that nothing passes the hard limits,
holds along every run; `Covered`, that the prepaid gas covers the used gas and the cached limit
leaves the promises their gas, holds for a counter that is not a view, until a call fails. -/
namespace Nearcore

namespace GasCounter

open Relation

/-- Neither the cached limit nor the burnt gas passes `max_gas_burnt` or the prepaid gas. -/
structure Capped (counter : GasCounter) : Prop where
  limit : counter.fastCounter.gasLimit ≤ min counter.maxGasBurnt counter.prepaidGas
  burnt : counter.fastCounter.burntGas ≤ min counter.maxGasBurnt counter.prepaidGas

/-- The prepaid gas covers what was used, and the cached limit leaves the promises their gas. -/
structure Covered (counter : GasCounter) : Prop where
  used : counter.usedGas ≤ counter.prepaidGas
  limit : counter.fastCounter.gasLimit ≤ min counter.maxGasBurnt (counter.prepaidGas - counter.promisesGas)

theorem capped_new (maxGasBurnt prepaidGas : Nat) (isView : Bool) : (new maxGasBurnt prepaidGas isView).Capped :=
  ⟨Nat.le_refl _, Nat.zero_le _⟩

theorem covered_new (maxGasBurnt prepaidGas : Nat) : (new maxGasBurnt prepaidGas false).Covered :=
  ⟨Nat.zero_le _, Nat.le_refl _⟩

variable {counter counter' : GasCounter} {burnt used : Nat}

theorem Outcome.isView {outcome : Except HostError Unit × GasCounter} (done : counter.Outcome burnt used outcome) :
    outcome.2.isView = counter.isView :=
  congrArg (fun limits => limits.2.2) done.limits

/-- Every outcome keeps the hard limits. -/
theorem Capped.outcome {outcome : Except HostError Unit × GasCounter} (capped : counter.Capped)
    (done : counter.Outcome burnt used outcome) : outcome.2.Capped := by
  cases done with
  | overflow => exact capped
  | charge fits => exact ⟨capped.limit, Nat.le_trans fits capped.limit⟩
  | deduct _ within burntFits usedFits =>
    unfold usedGas at usedFits
    refine ⟨?_, ?_⟩
    · -- the recomputed limit is below both hard limits, the kept one already was
      dsimp only [deducted]
      split
      · omega
      · exact capped.limit
    · dsimp only [deducted]
      omega
  | clamp newBurntGas newUsedGas =>
    refine ⟨capped.limit, ?_⟩
    dsimp only [processGasLimit]
    omega

/-- A successful outcome of a counter that is not a view keeps the prepaid gas covering. -/
theorem Covered.outcome (covered : counter.Covered) (notView : counter.isView = false)
    (done : counter.Outcome burnt used (.ok (), counter')) : counter'.Covered := by
  have usedCovered := covered.used
  have limit := covered.limit
  unfold usedGas at usedCovered
  cases done with
  | charge fits =>
    refine ⟨?_, limit⟩
    simp only [usedGas, charge_promisesGas, charge_burntGas, charge_prepaidGas]
    omega
  | deduct _ within burntFits usedFits =>
    unfold usedGas at usedFits
    refine ⟨?_, ?_⟩
    · simp only [usedGas, deducted_promisesGas, deducted_burntGas, deducted_prepaidGas]
      omega
    · -- promises that got no gas leave the limit as it was
      simp only [deducted, notView, and_true]
      split <;> omega

/-- A run of successful calls is a run of calls. -/
theorem called_of_succeeded {start : GasCounter} (run : ReflTransGen Succeeded start counter) :
    ReflTransGen Called start counter :=
  ReflTransGen.mono (fun _ _ step => ⟨_, step⟩) _ _ run

theorem capped_of_run {start : GasCounter} (capped : start.Capped) (run : ReflTransGen Called start counter) :
    counter.Capped := by
  induction run with
  | refl => exact capped
  | tail _ step ih =>
    obtain ⟨result, step⟩ := step
    obtain ⟨burnt, used, done⟩ := step.outcome
    exact ih.outcome done

theorem covered_of_run {start : GasCounter} (covered : start.Covered) (notView : start.isView = false)
    (run : ReflTransGen Succeeded start counter) : counter.Covered ∧ counter.isView = false := by
  induction run with
  | refl => exact ⟨covered, notView⟩
  | tail _ step ih =>
    obtain ⟨burnt, used, done⟩ := Step.outcome step
    exact ⟨ih.1.outcome ih.2 done, done.isView.trans ih.2⟩

/-- The gas counter stays within what was paid for. Along every run from `GasCounter::new`, the
burnt gas stays under both hard limits; for a counter that is not a view, as long as every call
succeeded, the prepaid gas covers the used gas and the cached limit leaves the promises their
gas; and a call that succeeds raises the burnt and the used gas by what it burns and uses. -/
theorem gasCounter_burnt_within_limits (maxGasBurnt prepaidGas : Nat) (isView : Bool) :
    (∀ counter, ReflTransGen Called (new maxGasBurnt prepaidGas isView) counter →
      counter.burntGas ≤ min counter.maxGasBurnt counter.prepaidGas) ∧
    (isView = false → ∀ counter, ReflTransGen Succeeded (new maxGasBurnt prepaidGas isView) counter →
      counter.usedGas ≤ counter.prepaidGas ∧
        counter.fastCounter.gasLimit ≤ min counter.maxGasBurnt (counter.prepaidGas - counter.promisesGas)) ∧
    (∀ (counter : GasCounter) (op : GasOp) (counter' : GasCounter), op.apply counter = some (.ok (), counter') →
      counter'.burntGas = counter.burntGas + op.burntAmount ∧ counter'.usedGas = counter.usedGas + op.usedAmount) := by
  refine ⟨?_, ?_, ?_⟩
  · intro counter run
    exact (capped_of_run (capped_new maxGasBurnt prepaidGas isView) run).burnt
  · rintro rfl counter run
    have covered := (covered_of_run (covered_new maxGasBurnt prepaidGas) rfl run).1
    exact ⟨covered.used, covered.limit⟩
  · intro counter op counter' called
    exact (GasOp.apply_outcome called).ok

/-- A prepayment of 50 out of 100 and a charge of 40 of the compiled code. -/
theorem gasCounter_burnt_within_limits_prepayThenCharge :
    (((new 100 100 false).deducted 0 50).charge 40).burntGas ≤ 100 ∧
      (((new 100 100 false).deducted 0 50).charge 40).usedGas ≤ 100 ∧
      (((new 100 100 false).deducted 0 50).charge 40).fastCounter.gasLimit ≤ 100 - 50 ∧
      ((new 100 100 false).deducted 0 50).burntGas = (new 100 100 false).burntGas + 0 ∧
      ((new 100 100 false).deducted 0 50).usedGas = (new 100 100 false).usedGas + 50 :=
  have run : ReflTransGen Succeeded (new 100 100 false) (((new 100 100 false).deducted 0 50).charge 40) :=
    .tail (.single (.call (.prepayGas 50) rfl)) (.charge _ 40 (by decide))
  have called := called_of_succeeded run
  have capped := (gasCounter_burnt_within_limits 100 100 false).1 _ called
  have covered := (gasCounter_burnt_within_limits 100 100 false).2.1 rfl _ run
  have prepaid := (gasCounter_burnt_within_limits 100 100 false).2.2 (new 100 100 false) (.prepayGas 50) _ rfl
  ⟨capped, covered.1, covered.2, prepaid.1, prepaid.2⟩

/-- The promises' gas and the cached limit are not kept after a failure, nor by a view counter. A
failed prepayment gives the promises all the prepaid gas not burnt and keeps the cached limit, so
that a later burn within it uses more than was prepaid. A view counter, whose deductions never
lower the cached limit, does the same with no failure, and its `used_gas()` overflows `u64`. -/
theorem burnGas_after_prepayGas_exceeds_prepaid :
    (∃ counter, ReflTransGen Called (new 10 10 false) counter ∧ counter.prepaidGas < counter.usedGas) ∧
    (∃ counter, ReflTransGen Succeeded (new 10 10 true) counter ∧
      counter.prepaidGas = Gas.MAX ∧ Gas.MAX < counter.usedGas) := by
  constructor
  · -- `prepay_gas(11)` fails, and `burn_gas(1)` then fits the cached limit of 10
    exact ⟨_, .tail (.single ⟨_, .call (.prepayGas 11) rfl⟩) ⟨_, .call (.burnGas 1) rfl⟩, by decide⟩
  · -- the view counter's prepaid gas is `u64::MAX`, which `prepay_gas` may take whole
    have prepaid : Succeeded (new 10 10 true) ((new 10 10 true).deducted 0 Gas.MAX) :=
      .call (.prepayGas Gas.MAX) (by
        simp only [GasOp.apply, prepayGas]
        exact deductGas_of_le (Nat.zero_le _) (by decide) (by decide) (by decide))
    have burnt : Succeeded ((new 10 10 true).deducted 0 Gas.MAX) (((new 10 10 true).deducted 0 Gas.MAX).charge 1) :=
      .call (.burnGas 1) (by
        simp only [GasOp.apply]
        exact congrArg some (burnGas_of_le (by decide) (by decide)))
    exact ⟨_, .tail (.single prepaid) burnt, by decide⟩

/-! `add_contract_loading_fee` is two calls, `pay_per` and then `pay_base`, so both invariants hold
after it. -/

theorem addContractLoadingFee_run (counter : GasCounter) (bytesFee baseFee codeLen : Nat) :
    ReflTransGen Called counter (counter.addContractLoadingFee bytesFee baseFee codeLen).2 := by
  unfold addContractLoadingFee
  split
  · rename_i paid paidPer
    exact .tail (.single ⟨_, .call (.payPer bytesFee codeLen) (congrArg some paidPer)⟩)
      ⟨_, .call (.payBase baseFee) rfl⟩
  · exact .single ⟨_, .call (.payPer bytesFee codeLen) rfl⟩

/-- A successful `add_contract_loading_fee` burnt the fee of the code's bytes and the base fee. -/
theorem addContractLoadingFee_ok {bytesFee baseFee codeLen : Nat}
    (ok : counter.addContractLoadingFee bytesFee baseFee codeLen = (.ok (), counter')) :
    counter'.burntGas = counter.burntGas + codeLen * bytesFee + baseFee := by
  unfold addContractLoadingFee at ok
  split at ok
  · rename_i paid paidPer
    have perByte := outcome_payPer counter bytesFee codeLen
    rw [paidPer] at perByte
    have base := outcome_burnGas paid baseFee
    rw [show paid.burnGas baseFee = (.ok (), counter') from ok] at base
    rw [base.ok.1, perByte.ok.1]
  · rename_i failed notPaid
    exact absurd ok (notPaid counter')

end GasCounter

end Nearcore
