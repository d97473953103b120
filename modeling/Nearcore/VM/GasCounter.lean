import Mathlib

/-! The gas counter of the contract runtime (`runtime/near-vm-runner/src/logic/gas_counter.rs`).
Gas is a `u64`, taken as `Nat` with the source's checks against `u64::MAX` written out. The cost
table, the profile and the cost counter of the tests only record what was charged, and are left
out: `pay_per` and `pay_base` take the gas of their cost. The compiled contract code charges
`burnt_gas` itself, against the cached `gas_limit`, and is a step of its own in `Step`.

Every call keeps the burnt gas under both hard limits. The promises' gas and the cached limit
are right only until a call fails: `process_gas_limit` sets the promises' gas from what the
failed charge would have used and keeps the cached limit, and a view counter never lowers the
cached limit at all. -/
namespace Nearcore

namespace Gas

/-- `Gas::MAX`, that is `u64::MAX`. -/
def MAX : Nat := 18446744073709551615

section
attribute [local simp] MAX
end

/-- `u64::checked_add`. -/
def checkedAdd (a b : Nat) : Option Nat := if a + b ≤ MAX then some (a + b) else none

section
attribute [local simp] checkedAdd
end

/-- `u64::checked_mul`. -/
def checkedMul (a b : Nat) : Option Nat := if a * b ≤ MAX then some (a * b) else none

section
attribute [local simp] checkedMul
end

/-- `u64::wrapping_add`. -/
def wrappingAdd (a b : Nat) : Nat := (a + b) % 2 ^ 64

theorem checkedAdd_eq_some {a b c : Nat} (added : checkedAdd a b = some c) : a + b = c := by
  unfold checkedAdd at added
  split at added
  · exact Option.some.inj added
  · cases added

theorem checkedMul_eq_some {a b c : Nat} (multiplied : checkedMul a b = some c) : a * b = c := by
  unfold checkedMul at multiplied
  split at multiplied
  · exact Option.some.inj multiplied
  · cases multiplied

end Gas

/-- The errors of the counter, of those `HostError` has. -/
inductive HostError where
  | integerOverflow
  | gasLimitExceeded
  | gasExceeded
  deriving DecidableEq, Repr

/-- `FastGasCounter`, the part the compiled code reads and writes. Its `opcode_cost` is read
only by the older VMs, and left out. -/
structure FastGasCounter where
  burntGas : Nat
  gasLimit : Nat
  deriving DecidableEq, Repr

/-- `GasCounter`, without the copy of the cost table and the profile. -/
structure GasCounter where
  fastCounter : FastGasCounter
  promisesGas : Nat
  maxGasBurnt : Nat
  prepaidGas : Nat
  isView : Bool
  deriving DecidableEq, Repr

namespace GasCounter

/-- `GasCounter::new`: a view call ignores the prepaid gas. -/
def new (maxGasBurnt prepaidGas : Nat) (isView : Bool) : GasCounter :=
  let prepaidGas := if isView then Gas.MAX else prepaidGas
  { fastCounter := { burntGas := 0, gasLimit := min maxGasBurnt prepaidGas },
    promisesGas := 0, maxGasBurnt, prepaidGas, isView }

section
attribute [local simp] new
end

/-- `GasCounter::burnt_gas`. -/
def burntGas (counter : GasCounter) : Nat := counter.fastCounter.burntGas

/-- `GasCounter::used_gas`. -/
def usedGas (counter : GasCounter) : Nat := counter.promisesGas + counter.fastCounter.burntGas

section
attribute [local simp] usedGas
end

/-- `process_gas_limit`: the burnt gas is clamped to both hard limits, and the promises get what
the failed charge would have used past it, saturating where that sum wrapped. -/
def processGasLimit (counter : GasCounter) (newBurntGas newUsedGas : Nat) : HostError × GasCounter :=
  let hardBurntLimit := min counter.prepaidGas counter.maxGasBurnt
  let burntGas := min newBurntGas hardBurntLimit
  let usedGasLimit := min counter.prepaidGas newUsedGas
  (if counter.maxGasBurnt < newBurntGas then .gasLimitExceeded else .gasExceeded,
    { counter with fastCounter := { counter.fastCounter with burntGas },
                   promisesGas := usedGasLimit - burntGas })

section
attribute [local simp] processGasLimit
end

/-- `burn_gas`, which checks against the cached limit only. -/
def burnGas (counter : GasCounter) (gasBurnt : Nat) : Except HostError Unit × GasCounter :=
  match Gas.checkedAdd counter.fastCounter.burntGas gasBurnt with
  | none => (.error .integerOverflow, counter)
  | some newBurntGas =>
    if newBurntGas ≤ counter.fastCounter.gasLimit then
      (.ok (), { counter with fastCounter := { counter.fastCounter with burntGas := newBurntGas } })
    else
      let newUsedGas := Gas.wrappingAdd newBurntGas counter.promisesGas
      Prod.map Except.error id (counter.processGasLimit newBurntGas newUsedGas)

section
attribute [local simp] burnGas
end

/-- `deduct_gas`; its assertion `gas_burnt <= gas_used` panics, which is `none`. The cached limit
is recomputed only when promises get gas and the call is not a view. -/
def deductGas (counter : GasCounter) (gasBurnt gasUsed : Nat) : Option (Except HostError Unit × GasCounter) :=
  if gasBurnt ≤ gasUsed then
    let promisesGas := gasUsed - gasBurnt
    some <|
      match Gas.checkedAdd counter.promisesGas promisesGas with
      | none => (.error .integerOverflow, counter)
      | some newPromisesGas =>
        match Gas.checkedAdd counter.fastCounter.burntGas gasBurnt with
        | none => (.error .integerOverflow, counter)
        | some newBurntGas =>
          match Gas.checkedAdd newBurntGas newPromisesGas with
          | none => (.error .integerOverflow, counter)
          | some newUsedGas =>
            if newBurntGas ≤ counter.maxGasBurnt ∧ newUsedGas ≤ counter.prepaidGas then
              let gasLimit :=
                if promisesGas ≠ 0 ∧ counter.isView = false then
                  min counter.maxGasBurnt (counter.prepaidGas - newPromisesGas)
                else counter.fastCounter.gasLimit
              (.ok (), { counter with fastCounter := { burntGas := newBurntGas, gasLimit },
                                      promisesGas := newPromisesGas })
            else Prod.map Except.error id (counter.processGasLimit newBurntGas newUsedGas)
  else none

section
attribute [local simp] deductGas
end

/-- `pay_per`, with the gas of the cost. -/
def payPer (counter : GasCounter) (costGas num : Nat) : Except HostError Unit × GasCounter :=
  match Gas.checkedMul num costGas with
  | none => (.error .integerOverflow, counter)
  | some useGas => counter.burnGas useGas

section
attribute [local simp] payPer
end

/-- `pay_base`, with the gas of the cost. -/
def payBase (counter : GasCounter) (baseFee : Nat) : Except HostError Unit × GasCounter :=
  counter.burnGas baseFee

/-- `pay_action_accumulated`. -/
def payActionAccumulated (counter : GasCounter) (burnGas useGas : Nat) : Option (Except HostError Unit × GasCounter) :=
  counter.deductGas burnGas useGas

/-- `prepay_gas`. -/
def prepayGas (counter : GasCounter) (useGas : Nat) : Option (Except HostError Unit × GasCounter) :=
  counter.deductGas 0 useGas

section
attribute [local simp] prepayGas
end

/-- `add_contract_loading_fee`, with the gas of `contract_loading_bytes` and of
`contract_loading_base`. -/
def addContractLoadingFee (counter : GasCounter) (bytesFee baseFee codeLen : Nat) : Except HostError Unit × GasCounter :=
  match counter.payPer bytesFee codeLen with
  | (.ok (), paid) => paid.payBase baseFee
  | failed => failed

section
attribute [local simp] addContractLoadingFee
end

/-! The counter after the changes the calls can make: a charge of `burnt_gas` alone, and a
deduction that passed both limits. -/

/-- `burnt_gas` raised by `gas`, as a charge of the compiled code or a `burn_gas` within the
cached limit does. -/
def charge (counter : GasCounter) (gas : Nat) : GasCounter :=
  { counter with fastCounter := { counter.fastCounter with burntGas := counter.fastCounter.burntGas + gas } }

/-- The counter after a `deduct_gas` of `gasBurnt` burnt out of `gasUsed` used, within both limits. -/
def deducted (counter : GasCounter) (gasBurnt gasUsed : Nat) : GasCounter :=
  let newPromisesGas := counter.promisesGas + (gasUsed - gasBurnt)
  { counter with
    fastCounter :=
      { burntGas := counter.fastCounter.burntGas + gasBurnt,
        gasLimit :=
          if gasUsed - gasBurnt ≠ 0 ∧ counter.isView = false then
            min counter.maxGasBurnt (counter.prepaidGas - newPromisesGas)
          else counter.fastCounter.gasLimit },
    promisesGas := newPromisesGas }

section
attribute [local simp] deducted
end

@[simp] theorem charge_burntGas (counter : GasCounter) (gas : Nat) :
    (counter.charge gas).fastCounter.burntGas = counter.fastCounter.burntGas + gas := rfl

@[simp] theorem charge_gasLimit (counter : GasCounter) (gas : Nat) :
    (counter.charge gas).fastCounter.gasLimit = counter.fastCounter.gasLimit := rfl

@[simp] theorem charge_promisesGas (counter : GasCounter) (gas : Nat) :
    (counter.charge gas).promisesGas = counter.promisesGas := rfl

@[simp] theorem charge_prepaidGas (counter : GasCounter) (gas : Nat) :
    (counter.charge gas).prepaidGas = counter.prepaidGas := rfl

@[simp] theorem deducted_burntGas (counter : GasCounter) (gasBurnt gasUsed : Nat) :
    (counter.deducted gasBurnt gasUsed).fastCounter.burntGas = counter.fastCounter.burntGas + gasBurnt := rfl

@[simp] theorem deducted_promisesGas (counter : GasCounter) (gasBurnt gasUsed : Nat) :
    (counter.deducted gasBurnt gasUsed).promisesGas = counter.promisesGas + (gasUsed - gasBurnt) := rfl

@[simp] theorem deducted_prepaidGas (counter : GasCounter) (gasBurnt gasUsed : Nat) :
    (counter.deducted gasBurnt gasUsed).prepaidGas = counter.prepaidGas := rfl

/-- The fields no call changes. -/
def limits (counter : GasCounter) : Nat × Nat × Bool :=
  (counter.maxGasBurnt, counter.prepaidGas, counter.isView)

/-- What a call on `counter` that burns `burnt` and uses `used` can do: report an overflow and
change nothing, charge within the cached limit, deduct within both limits, or fail through
`process_gas_limit`. Every invariant of the counter is proved over these four cases. -/
inductive Outcome (counter : GasCounter) : Nat → Nat → Except HostError Unit × GasCounter → Prop
  | overflow (burnt used : Nat) : Outcome counter burnt used (.error .integerOverflow, counter)
  | charge (gas : Nat) (fits : counter.fastCounter.burntGas + gas ≤ counter.fastCounter.gasLimit) :
      Outcome counter gas gas (.ok (), counter.charge gas)
  | deduct (gasBurnt gasUsed : Nat) (within : gasBurnt ≤ gasUsed)
      (burntFits : counter.fastCounter.burntGas + gasBurnt ≤ counter.maxGasBurnt)
      (usedFits : counter.usedGas + gasUsed ≤ counter.prepaidGas) :
      Outcome counter gasBurnt gasUsed (.ok (), counter.deducted gasBurnt gasUsed)
  | clamp (burnt used newBurntGas newUsedGas : Nat) :
      Outcome counter burnt used
        (.error (counter.processGasLimit newBurntGas newUsedGas).1, (counter.processGasLimit newBurntGas newUsedGas).2)

theorem outcome_processGasLimit (counter : GasCounter) (newBurntGas newUsedGas : Nat) :
    counter.Outcome 0 0 (Prod.map Except.error id (counter.processGasLimit newBurntGas newUsedGas)) :=
  .clamp 0 0 newBurntGas newUsedGas

theorem outcome_burnGas (counter : GasCounter) (gasBurnt : Nat) :
    counter.Outcome gasBurnt gasBurnt (counter.burnGas gasBurnt) := by
  unfold burnGas
  split
  · exact .overflow gasBurnt gasBurnt
  · rename_i newBurntGas added
    obtain rfl := Gas.checkedAdd_eq_some added
    split
    · exact .charge gasBurnt ‹_›
    · exact .clamp _ _ _ _

theorem outcome_payPer (counter : GasCounter) (costGas num : Nat) :
    counter.Outcome (num * costGas) (num * costGas) (counter.payPer costGas num) := by
  unfold payPer
  split
  · exact .overflow _ _
  · rename_i useGas multiplied
    obtain rfl := Gas.checkedMul_eq_some multiplied
    exact outcome_burnGas counter _

/-- The three checked additions of `deduct_gas` either overflow or are the sums. -/
theorem outcome_deductGas {counter : GasCounter} {gasBurnt gasUsed : Nat} {outcome : Except HostError Unit × GasCounter}
    (called : counter.deductGas gasBurnt gasUsed = some outcome) : counter.Outcome gasBurnt gasUsed outcome := by
  unfold deductGas at called
  split at called
  · rename_i within
    obtain rfl := Option.some.inj called
    split
    · exact .overflow _ _
    · rename_i newPromisesGas promised
      obtain rfl := Gas.checkedAdd_eq_some promised
      split
      · exact .overflow _ _
      · rename_i newBurntGas burnt
        obtain rfl := Gas.checkedAdd_eq_some burnt
        split
        · exact .overflow _ _
        · rename_i newUsedGas used
          obtain rfl := Gas.checkedAdd_eq_some used
          split
          · rename_i fits
            exact .deduct gasBurnt gasUsed within fits.1 (by unfold usedGas; omega)
          · exact .clamp _ _ _ _
  · cases called

/-- `burn_gas` within the cached limit charges the gas. -/
theorem burnGas_of_le {counter : GasCounter} {gas : Nat}
    (fits : counter.fastCounter.burntGas + gas ≤ counter.fastCounter.gasLimit)
    (noOverflow : counter.fastCounter.burntGas + gas ≤ Gas.MAX) :
    counter.burnGas gas = (.ok (), counter.charge gas) := by
  simp only [burnGas, Gas.checkedAdd, if_pos noOverflow, if_pos fits]
  rfl

/-- `deduct_gas` within both limits, whose sums fit a `u64`, deducts the gas. -/
theorem deductGas_of_le {counter : GasCounter} {gasBurnt gasUsed : Nat} (within : gasBurnt ≤ gasUsed)
    (burntFits : counter.fastCounter.burntGas + gasBurnt ≤ counter.maxGasBurnt)
    (usedFits : counter.usedGas + gasUsed ≤ counter.prepaidGas) (noOverflow : counter.usedGas + gasUsed ≤ Gas.MAX) :
    counter.deductGas gasBurnt gasUsed = some (.ok (), counter.deducted gasBurnt gasUsed) := by
  unfold usedGas at usedFits noOverflow
  have promised : counter.promisesGas + (gasUsed - gasBurnt) ≤ Gas.MAX := by omega
  have burnt : counter.fastCounter.burntGas + gasBurnt ≤ Gas.MAX := by omega
  have used :
      counter.fastCounter.burntGas + gasBurnt + (counter.promisesGas + (gasUsed - gasBurnt)) ≤ Gas.MAX := by omega
  have fits : counter.fastCounter.burntGas + gasBurnt ≤ counter.maxGasBurnt ∧
      counter.fastCounter.burntGas + gasBurnt + (counter.promisesGas + (gasUsed - gasBurnt)) ≤ counter.prepaidGas :=
    ⟨burntFits, by omega⟩
  simp only [deductGas, if_pos within, Gas.checkedAdd, if_pos promised, if_pos burnt, if_pos used, if_pos fits]
  rfl

theorem Outcome.limits {counter : GasCounter} {burnt used : Nat} {outcome : Except HostError Unit × GasCounter}
    (done : counter.Outcome burnt used outcome) : outcome.2.limits = counter.limits := by
  cases done <;> rfl

/-- A call that succeeded raised the burnt gas by what it burns and the used gas by what it uses. -/
theorem Outcome.ok {counter counter' : GasCounter} {burnt used : Nat} (done : counter.Outcome burnt used (.ok (), counter')) :
    counter'.burntGas = counter.burntGas + burnt ∧ counter'.usedGas = counter.usedGas + used := by
  cases done with
  | charge fits => exact ⟨rfl, by simp only [usedGas, charge_promisesGas, charge_burntGas]; omega⟩
  | deduct _ within burntFits usedFits =>
    exact ⟨rfl, by simp only [usedGas, deducted_promisesGas, deducted_burntGas]; omega⟩

end GasCounter

/-- A call of the host functions on the counter, with the gas of the costs it pays. -/
inductive GasOp where
  | burnGas (gasBurnt : Nat)
  | payPer (costGas num : Nat)
  | payBase (baseFee : Nat)
  | payActionAccumulated (burnGas useGas : Nat)
  | prepayGas (useGas : Nat)
  | processGasLimit (newBurntGas newUsedGas : Nat)
  deriving DecidableEq, Repr

namespace GasOp

/-- What the call returns and the counter after it; `none` is a panic. -/
def apply : GasOp → GasCounter → Option (Except HostError Unit × GasCounter)
  | .burnGas gasBurnt, counter => some (counter.burnGas gasBurnt)
  | .payPer costGas num, counter => some (counter.payPer costGas num)
  | .payBase baseFee, counter => some (counter.payBase baseFee)
  | .payActionAccumulated burnt useGas, counter => counter.payActionAccumulated burnt useGas
  | .prepayGas useGas, counter => counter.prepayGas useGas
  | .processGasLimit newBurntGas newUsedGas, counter =>
    some (Prod.map Except.error id (counter.processGasLimit newBurntGas newUsedGas))

section
attribute [local simp] apply
end

/-- The gas a successful call burns. -/
def burntAmount : GasOp → Nat
  | .burnGas gasBurnt => gasBurnt
  | .payPer costGas num => num * costGas
  | .payBase baseFee => baseFee
  | .payActionAccumulated burnt _ => burnt
  | .prepayGas _ => 0
  | .processGasLimit _ _ => 0

/-- The gas a successful call uses, burnt or attached to promises. -/
def usedAmount : GasOp → Nat
  | .burnGas gasBurnt => gasBurnt
  | .payPer costGas num => num * costGas
  | .payBase baseFee => baseFee
  | .payActionAccumulated _ useGas => useGas
  | .prepayGas useGas => useGas
  | .processGasLimit _ _ => 0

end GasOp

namespace GasCounter

/-- One call on the counter and what it returned: a call of the host functions that did not
panic, or a charge of the compiled code, which adds to `burnt_gas` only within the cached limit
(past it the code traps, and the runner calls `process_gas_limit`). -/
inductive Step : GasCounter → Except HostError Unit → GasCounter → Prop
  | call (op : GasOp) {counter : GasCounter} {result : Except HostError Unit} {counter' : GasCounter}
      (called : op.apply counter = some (result, counter')) : Step counter result counter'
  | charge (counter : GasCounter) (gas : Nat)
      (fits : counter.fastCounter.burntGas + gas ≤ counter.fastCounter.gasLimit) :
      Step counter (.ok ()) (counter.charge gas)

theorem GasOp.apply_outcome {op : GasOp} {counter : GasCounter} {outcome : Except HostError Unit × GasCounter}
    (called : op.apply counter = some outcome) : counter.Outcome op.burntAmount op.usedAmount outcome := by
  cases op with
  | burnGas gasBurnt => exact Option.some.inj called ▸ outcome_burnGas counter gasBurnt
  | payPer costGas num => exact Option.some.inj called ▸ outcome_payPer counter costGas num
  | payBase baseFee => exact Option.some.inj called ▸ outcome_burnGas counter baseFee
  | payActionAccumulated burnt useGas => exact outcome_deductGas called
  | prepayGas useGas => exact outcome_deductGas called
  | processGasLimit newBurntGas newUsedGas =>
    exact Option.some.inj called ▸ outcome_processGasLimit counter newBurntGas newUsedGas

/-- Every call has one of the four outcomes. -/
theorem Step.outcome {counter counter' : GasCounter} {result : Except HostError Unit} (step : counter.Step result counter') :
    ∃ burnt used, counter.Outcome burnt used (result, counter') := by
  cases step with
  | call op called => exact ⟨_, _, GasOp.apply_outcome called⟩
  | charge _ gas fits => exact ⟨gas, gas, .charge gas fits⟩

/-- One call, whatever it returned. -/
def Called (counter counter' : GasCounter) : Prop := ∃ result, counter.Step result counter'

/-- One call that succeeded. -/
def Succeeded (counter counter' : GasCounter) : Prop := counter.Step (.ok ()) counter'

end GasCounter

end Nearcore
