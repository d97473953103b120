import Nearcore.Chain.BlockEconomics
import Nearcore.Runtime.ActionGas

/-! The refunds of an action receipt and the tokens it burns: `generate_refund_receipts` and the
part of `apply_action_receipt` after the actions ran (`runtime/runtime/src/lib.rs`), with
`total_deposit`, `safe_gas_to_balance` and `safe_add_balance` (`runtime/runtime/src/config.rs`).
A balance is a `u128`, taken as `Nat` with the checked operations of the source written out; its
plain `-`, `*` and `/` panic, as the node is built with `overflow-checks`. Of a receipt the fields
these read are kept, and of a refund receipt its receiver and amount: the priority it copies is
left out. The receiver's account is its balance, `none` when it does not exist; the commits and
rollbacks of the state and the validator proposals are left out. -/
namespace Nearcore

open Unsigned

/-- `safe_gas_to_balance`. -/
def safeGasToBalance (gasPrice gas : Nat) : Except IntegerOverflowError Nat :=
  if gasPrice * gas ≤ Balance.MAX then .ok (gasPrice * gas) else .error {}

/-- `safe_add_balance`. -/
def safeAddBalance (a b : Nat) : Except IntegerOverflowError Nat :=
  if a + b ≤ Balance.MAX then .ok (a + b) else .error {}

@[simp] theorem safeGasToBalance_of_le {gasPrice gas : Nat} (fits : gasPrice * gas ≤ Balance.MAX) :
    safeGasToBalance gasPrice gas = .ok (gasPrice * gas) := if_pos fits

@[simp] theorem safeAddBalance_of_le {a b : Nat} (fits : a + b ≤ Balance.MAX) :
    safeAddBalance a b = .ok (a + b) := if_pos fits

/-- A panic of machine arithmetic, in code that returns a `RuntimeError`: it ends the node. -/
def ApplyError.ofPanic {α : Type} : Except Panic α → Except ApplyError α
  | .ok a => .ok a
  | .error e => .error (.panic e.message)

section
attribute [local simp] ApplyError.ofPanic
end

@[simp] theorem ApplyError.ofPanic_ok {α : Type} (a : α) : ApplyError.ofPanic (.ok a : Except Panic α) = .ok a :=
  rfl

/-- `x as u64` for an `i32`: the value modulo `2 ^ 64`. -/
def asU64 (x : Int) : Nat := (x % 2 ^ 64).toNat

/-! ### Deposits -/

/-- The loop of `total_deposit`: the checked `u128` sum of one balance per action. -/
def checkedBalanceSum (balance : Action → Except IntegerOverflowError Nat) (actions : List Action) :
    Except IntegerOverflowError Nat :=
  actions.foldlM (fun totalBalance action => balance action >>= safeAddBalance totalBalance) 0

/-- `total_deposit`. The recursive call for a delegate action is on actions none of which is a
delegate action, and adds their deposits. -/
def totalDeposit (actions : List Action) : Except IntegerOverflowError Nat :=
  checkedBalanceSum (fun
    | .delegate delegateAction =>
      checkedBalanceSum (fun action => .ok action.getDepositBalance) delegateAction.getActions
    | .nonDelegate action => .ok (Action.nonDelegate action).getDepositBalance) actions

/-- The deposit of an action, as `total_deposit` adds it up: its own, or for a delegate action
those of the actions it carries. -/
def Action.deposit : Action → Nat
  | .delegate delegateAction => (delegateAction.getActions.map Action.getDepositBalance).sum
  | .nonDelegate action => (Action.nonDelegate action).getDepositBalance

section
attribute [local simp] Action.deposit
end

theorem checkedBalanceSum_of_le {balance : Action → Except IntegerOverflowError Nat} {value : Action → Nat}
    (exactBalance : ∀ action, value action ≤ Balance.MAX → balance action = .ok (value action))
    {actions : List Action} (fits : (actions.map value).sum ≤ Balance.MAX) :
    checkedBalanceSum balance actions = .ok (actions.map value).sum := by
  have summed := List.foldlM_add_of_le (fun _ _ fit => safeAddBalance_of_le fit) exactBalance actions 0
    (by rwa [Nat.zero_add])
  rwa [Nat.zero_add] at summed

/-- The deposits add up with no overflow when their sum fits in `u128`. -/
theorem totalDeposit_of_le {actions : List Action} (fits : (actions.map Action.deposit).sum ≤ Balance.MAX) :
    totalDeposit actions = .ok (actions.map Action.deposit).sum := by
  refine checkedBalanceSum_of_le (fun action within => ?_) fits
  cases action with
  | nonDelegate action => rfl
  | delegate delegateAction => exact checkedBalanceSum_of_le (fun _ _ => rfl) within

/-! ### Refunds -/

/-- What the refunds read of `ActionReceipt`. -/
structure ActionReceipt where
  signerId : AccountId
  signerPublicKey : PublicKey
  gasPrice : Nat
  actions : List Action

/-- What the refunds read of the `Receipt` that carries an action receipt. -/
structure Receipt where
  predecessorId : AccountId
  receiverId : AccountId

/-- `AccountId::is_system`: the account `system`, the predecessor of refund receipts. -/
def AccountId.isSystem (accountId : AccountId) : Bool := accountId.bytes = [115, 121, 115, 116, 101, 109]

/-- A refund receipt, `Receipt::new_balance_refund` or `Receipt::new_gas_refund`: its receiver and
the amount it refunds; a gas refund also names the access key whose allowance it returns. -/
inductive RefundReceipt where
  | balanceRefund (receiverId : AccountId) (refund : Nat)
  | gasRefund (receiverId : AccountId) (refund : Nat) (signerPublicKey : PublicKey)
  deriving DecidableEq

/-- The deposit a refund receipt returns. -/
def RefundReceipt.depositRefund : RefundReceipt → Nat
  | .balanceRefund _ refund => refund
  | .gasRefund .. => 0

section
attribute [local simp] RefundReceipt.depositRefund
end

/-- The gas balance a refund receipt returns. -/
def RefundReceipt.gasBalanceRefund : RefundReceipt → Nat
  | .balanceRefund .. => 0
  | .gasRefund _ refund _ => refund

section
attribute [local simp] RefundReceipt.gasBalanceRefund
end

/-- The price branch of `generate_refund_receipts`, from the refund at the price the gas was bought
at: at a higher current price the difference for the burnt gas comes out of the refund, and what
the refund cannot cover is the deficit; at a price no higher the difference is refunded as well.
Returns the refund and the deficit. -/
def chargePriceDifference (currentGasPrice purchasedGasPrice gasBurnt gasBalanceRefund : Nat) :
    Except ApplyError (Nat × Nat) :=
  if currentGasPrice > purchasedGasPrice then do
    let gasDeficitAmount ← ApplyError.ofOverflow (safeGasToBalance (currentGasPrice - purchasedGasPrice) gasBurnt)
    if gasBalanceRefund ≥ gasDeficitAmount then pure (gasBalanceRefund - gasDeficitAmount, 0)
    else pure (0, gasDeficitAmount - gasBalanceRefund)
  else do
    let difference ← ApplyError.ofOverflow (safeGasToBalance (purchasedGasPrice - currentGasPrice) gasBurnt)
    let gasBalanceRefund ← ApplyError.ofOverflow (safeAddBalance gasBalanceRefund difference)
    pure (gasBalanceRefund, 0)

section
attribute [local simp] chargePriceDifference
end

/-- The receipts `generate_refund_receipts` pushes: the deposit back to the predecessor and the gas
to the signer's access key, none for an amount of zero. -/
def refundReceipts (receipt : Receipt) (actionReceipt : ActionReceipt) (depositRefund gasBalanceRefund : Nat) :
    List RefundReceipt :=
  (if depositRefund > 0 then [.balanceRefund receipt.predecessorId depositRefund] else []) ++
    if gasBalanceRefund > 0 then [.gasRefund actionReceipt.signerId gasBalanceRefund actionReceipt.signerPublicKey]
    else []

section
attribute [local simp] refundReceipts
end

@[simp] theorem refundReceipts_depositRefund (receipt : Receipt) (actionReceipt : ActionReceipt)
    (depositRefund gasBalanceRefund : Nat) :
    ((refundReceipts receipt actionReceipt depositRefund gasBalanceRefund).map RefundReceipt.depositRefund).sum =
      depositRefund := by
  unfold refundReceipts
  split <;> split <;> simp [RefundReceipt.depositRefund] <;> omega

@[simp] theorem refundReceipts_gasBalanceRefund (receipt : Receipt) (actionReceipt : ActionReceipt)
    (depositRefund gasBalanceRefund : Nat) :
    ((refundReceipts receipt actionReceipt depositRefund gasBalanceRefund).map RefundReceipt.gasBalanceRefund).sum =
      gasBalanceRefund := by
  unfold refundReceipts
  split <;> split <;> simp [RefundReceipt.gasBalanceRefund] <;> omega

/-- The price difference nets out: the refund less the deficit is the refund at the purchase
price plus the difference of the prices for the burnt gas, at most one of the two is positive,
and the deficit is at most the rise of the price for the burnt gas. -/
theorem chargePriceDifference_of_le {currentGasPrice purchasedGasPrice gasBurnt refund : Nat}
    (deficitFits : (currentGasPrice - purchasedGasPrice) * gasBurnt ≤ Balance.MAX)
    (refundFits : refund + (purchasedGasPrice - currentGasPrice) * gasBurnt ≤ Balance.MAX) :
    ∃ gasBalanceRefund gasDeficitAmount,
      chargePriceDifference currentGasPrice purchasedGasPrice gasBurnt refund = .ok (gasBalanceRefund, gasDeficitAmount) ∧
      (gasBalanceRefund : Int) - gasDeficitAmount = refund + ((purchasedGasPrice : Int) - currentGasPrice) * gasBurnt ∧
      (gasBalanceRefund = 0 ∨ gasDeficitAmount = 0) ∧
      gasDeficitAmount ≤ (currentGasPrice - purchasedGasPrice) * gasBurnt := by
  unfold chargePriceDifference
  by_cases higher : currentGasPrice > purchasedGasPrice
  · rw [if_pos higher, safeGasToBalance_of_le deficitFits, ApplyError.ofOverflow_ok, Except.ok_bind]
    -- the price rise for the burnt gas, as an integer
    have rise : (((currentGasPrice - purchasedGasPrice) * gasBurnt : Nat) : Int) =
        -(((purchasedGasPrice : Int) - currentGasPrice) * gasBurnt) := by
      rw [Nat.cast_mul, Nat.cast_sub (Nat.le_of_lt higher)]
      ring
    rw [← neg_neg (((purchasedGasPrice : Int) - currentGasPrice) * gasBurnt), ← rise]
    generalize (currentGasPrice - purchasedGasPrice) * gasBurnt = deficit
    by_cases covered : refund ≥ deficit
    · rw [if_pos covered]
      exact ⟨_, _, rfl, by omega, Or.inr rfl, Nat.zero_le _⟩
    · rw [if_neg covered]
      exact ⟨_, _, rfl, by omega, Or.inl rfl, Nat.sub_le _ _⟩
  · rw [if_neg higher, safeGasToBalance_of_le (Nat.le_trans (Nat.le_add_left _ _) refundFits),
      ApplyError.ofOverflow_ok, Except.ok_bind, safeAddBalance_of_le refundFits, ApplyError.ofOverflow_ok,
      Except.ok_bind]
    -- the price fall for the burnt gas, as an integer
    have fall : (((purchasedGasPrice - currentGasPrice) * gasBurnt : Nat) : Int) =
        ((purchasedGasPrice : Int) - currentGasPrice) * gasBurnt := by
      rw [Nat.cast_mul, Nat.cast_sub (Nat.le_of_not_lt higher)]
    refine ⟨_, _, rfl, ?_, Or.inr rfl, Nat.zero_le _⟩
    rw [← fall]
    omega

/-! ### Burning -/

/-- The tokens `apply_action_receipt` burns for the gas: the burnt gas at the current price, less
the deficit, which the comment of the source says is below it. -/
def txBurntAmount (gasPrice gasBurnt gasDeficitAmount : Nat) : Except ApplyError Nat := do
  let burnt ← ApplyError.ofOverflow (safeGasToBalance gasPrice gasBurnt)
  ApplyError.ofPanic (sub burnt gasDeficitAmount)

section
attribute [local simp] txBurntAmount
end

/-- `receiver_gas_reward` of `apply_action_receipt`: the part `burnt_gas_reward` of the gas the
function calls burnt, in `u64` arithmetic. -/
def receiverGasReward (burntGasReward : Chain.Rational32) (gasBurntForFunctionCall : Nat) : Except ApplyError Nat :=
  ApplyError.ofPanic
    (mul 64 gasBurntForFunctionCall (asU64 burntGasReward.numer) >>= (div · (asU64 burntGasReward.denom)))

section
attribute [local simp] receiverGasReward
end

/-- `receiver_reward`: the receiver gas reward at the current price, less the deficit, stopping
at zero. -/
def receiverReward (gasPrice : Nat) (burntGasReward : Chain.Rational32) (gasBurntForFunctionCall gasDeficitAmount : Nat) :
    Except ApplyError Nat := do
  let receiverGasReward ← receiverGasReward burntGasReward gasBurntForFunctionCall
  let reward ← ApplyError.ofOverflow (safeGasToBalance gasPrice receiverGasReward)
  pure (reward - gasDeficitAmount)

section
attribute [local simp] receiverReward
end

/-- The reward of the receiver, given when it is positive and the account exists, comes out of
the burnt tokens. Returns the burnt tokens left and the receiver's balance. -/
def rewardReceiver (txBurntAmount receiverReward : Nat) (receiverAmount : Option Nat) :
    Except ApplyError (Nat × Option Nat) :=
  match receiverAmount with
  | some amount =>
    if receiverReward > 0 then do
      let txBurntAmount ← ApplyError.ofPanic (sub txBurntAmount receiverReward)
      let amount ← ApplyError.ofOverflow (safeAddBalance amount receiverReward)
      pure (txBurntAmount, some amount)
    else pure (txBurntAmount, some amount)
  | none => pure (txBurntAmount, none)

section
attribute [local simp] rewardReceiver
end

/-- The balance stats of a chunk that `apply_action_receipt` adds to. -/
structure BalanceStats where
  otherBurntAmount : Nat
  gasDeficitAmount : Nat
  txBurntAmount : Nat

/-- What `apply_action_receipt` makes of a receipt once its actions ran: the refund receipts, the
tokens burnt of its outcome, the balance of its receiver and the stats. -/
structure Settlement where
  refunds : List RefundReceipt
  tokensBurnt : Nat
  receiverAmount : Option Nat
  stats : BalanceStats

theorem ApplyError.ofOverflow_ne_panic {α : Type} (x : Except IntegerOverflowError α) (message : String) :
    ApplyError.ofOverflow x ≠ .error (.panic message) := by
  cases x <;> intro failed <;> cases failed

theorem txBurntAmount_of_le {gasPrice gasBurnt gasDeficitAmount : Nat} (fits : gasPrice * gasBurnt ≤ Balance.MAX)
    (below : gasDeficitAmount ≤ gasPrice * gasBurnt) :
    txBurntAmount gasPrice gasBurnt gasDeficitAmount = .ok (gasPrice * gasBurnt - gasDeficitAmount) := by
  rw [txBurntAmount, safeGasToBalance_of_le fits, ApplyError.ofOverflow_ok, Except.ok_bind, sub_of_le below,
    ApplyError.ofPanic_ok]

/-- A reward ratio of at most one, as the code casts it, rewards at most the gas the function
calls burnt. -/
theorem receiverGasReward_of_le {burntGasReward : Chain.Rational32} {gasBurntForFunctionCall : Nat}
    (positive : 0 < asU64 burntGasReward.denom) (atMostOne : asU64 burntGasReward.numer ≤ asU64 burntGasReward.denom)
    (fits : gasBurntForFunctionCall * asU64 burntGasReward.numer ≤ Gas.MAX) :
    ∃ reward, receiverGasReward burntGasReward gasBurntForFunctionCall = .ok reward ∧
      reward ≤ gasBurntForFunctionCall := by
  have below : gasBurntForFunctionCall * asU64 burntGasReward.numer < 2 ^ 64 := by
    unfold Gas.MAX at fits
    omega
  refine ⟨_, by rw [receiverGasReward, mul_of_lt below, Except.ok_bind, div_of_pos positive, ApplyError.ofPanic_ok], ?_⟩
  apply Nat.div_le_of_le_mul
  calc gasBurntForFunctionCall * asU64 burntGasReward.numer
      ≤ gasBurntForFunctionCall * asU64 burntGasReward.denom := Nat.mul_le_mul_left _ atMostOne
    _ = asU64 burntGasReward.denom * gasBurntForFunctionCall := Nat.mul_comm _ _

/-- The receiver's reward is within the burnt tokens when the function calls burnt at most what
the receipt burnt: both lose the same deficit. -/
theorem receiverReward_of_le {gasPrice : Nat} {burntGasReward : Chain.Rational32}
    {gasBurntForFunctionCall gasBurnt gasDeficitAmount : Nat}
    (positive : 0 < asU64 burntGasReward.denom) (atMostOne : asU64 burntGasReward.numer ≤ asU64 burntGasReward.denom)
    (fits : gasBurntForFunctionCall * asU64 burntGasReward.numer ≤ Gas.MAX)
    (forFunctionCall : gasBurntForFunctionCall ≤ gasBurnt) (burntFits : gasPrice * gasBurnt ≤ Balance.MAX) :
    ∃ reward, receiverReward gasPrice burntGasReward gasBurntForFunctionCall gasDeficitAmount = .ok reward ∧
      reward ≤ gasPrice * gasBurnt - gasDeficitAmount := by
  obtain ⟨rewardGas, rewarded, within⟩ := receiverGasReward_of_le positive atMostOne fits
  have priced : gasPrice * rewardGas ≤ gasPrice * gasBurnt := Nat.mul_le_mul_left _ (Nat.le_trans within forFunctionCall)
  refine ⟨gasPrice * rewardGas - gasDeficitAmount, ?_, Nat.sub_le_sub_right priced _⟩
  rw [receiverReward, rewarded, Except.ok_bind, safeGasToBalance_of_le (Nat.le_trans priced burntFits),
    ApplyError.ofOverflow_ok, Except.ok_bind]
  rfl

/-- The reward of the receiver does not take the burnt tokens below zero when it is within them:
the only panic of the step never happens. -/
theorem rewardReceiver_ne_panic {txBurntAmount receiverReward : Nat} (within : receiverReward ≤ txBurntAmount)
    (receiverAmount : Option Nat) (message : String) :
    rewardReceiver txBurntAmount receiverReward receiverAmount ≠ .error (.panic message) := by
  unfold rewardReceiver
  cases receiverAmount with
  | none => exact fun failed => nomatch failed
  | some amount =>
    dsimp only
    split
    · rw [sub_of_le within, ApplyError.ofPanic_ok, Except.ok_bind]
      exact Except.bind_ne_error (ApplyError.ofOverflow_ne_panic _ message) (fun _ _ failed => nomatch failed)
    · exact fun failed => nomatch failed

section Refunds

variable (accountType : AccountId → AccountType)

/-- `generate_refund_receipts`: the deficit, and the refund receipts it adds to the result. -/
def generateRefundReceipts (currentGasPrice : Nat) (receipt : Receipt) (actionReceipt : ActionReceipt)
    (result : ActionResult) (config : RuntimeConfig) : Except ApplyError (Nat × List RefundReceipt) := do
  let totalDeposit ← ApplyError.ofOverflow (totalDeposit actionReceipt.actions)
  let gasRefund ← gasRefund accountType config receipt.receiverId actionReceipt.actions result
  let depositRefund := if result.succeeded then 0 else totalDeposit
  -- the unused gas at the price it was bought at
  let gasBalanceRefund ← ApplyError.ofOverflow (safeGasToBalance actionReceipt.gasPrice gasRefund)
  let (gasBalanceRefund, gasDeficitAmount) ←
    chargePriceDifference currentGasPrice actionReceipt.gasPrice result.gasBurnt gasBalanceRefund
  pure (gasDeficitAmount, refundReceipts receipt actionReceipt depositRefund gasBalanceRefund)

section
attribute [local simp] generateRefundReceipts
end

/-- The spent gas of a result whose burnt gas is within its used gas is at least the burnt gas,
and within what the receipt prepaid when the used gas is. -/
theorem ActionResult.spentGas_bounds {result : ActionResult} {budget : Nat} (burnt : result.gasBurnt ≤ result.gasUsed)
    (used : result.gasUsed ≤ budget) : result.gasBurnt ≤ result.spentGas ∧ result.spentGas ≤ budget := by
  unfold ActionResult.spentGas
  split <;> omega

/-- The refund at the purchase price and the price difference for the burnt gas stay within the
purchase price of everything prepaid: the burnt gas is part of the spent gas. -/
theorem refund_add_difference_le {purchasedGasPrice currentGasPrice budget spent gasBurnt : Nat}
    (burnt : gasBurnt ≤ spent) (within : spent ≤ budget) :
    purchasedGasPrice * (budget - spent) + (purchasedGasPrice - currentGasPrice) * gasBurnt ≤
      purchasedGasPrice * budget :=
  calc purchasedGasPrice * (budget - spent) + (purchasedGasPrice - currentGasPrice) * gasBurnt
      ≤ purchasedGasPrice * (budget - spent) + purchasedGasPrice * gasBurnt :=
        Nat.add_le_add_left (Nat.mul_le_mul_right _ (Nat.sub_le _ _)) _
    _ = purchasedGasPrice * (budget - spent + gasBurnt) := (Nat.mul_add _ _ _).symm
    _ ≤ purchasedGasPrice * budget := Nat.mul_le_mul_left _ (by omega)

/-- The refunds of `apply_action_receipt`: a receipt from `system` is itself a refund, which gets
none and burns its deposit if it fails; any other has its refunds generated. Returns the deficit,
the refund receipts and the other burnt amount of the stats. -/
def refundOrBurn (currentGasPrice : Nat) (receipt : Receipt) (actionReceipt : ActionReceipt) (result : ActionResult)
    (config : RuntimeConfig) (otherBurntAmount : Nat) : Except ApplyError (Nat × List RefundReceipt × Nat) :=
  if receipt.predecessorId.isSystem then
    if result.succeeded then pure (0, [], otherBurntAmount)
    else do
      let totalDeposit ← ApplyError.ofOverflow (totalDeposit actionReceipt.actions)
      let otherBurntAmount ← ApplyError.ofOverflow (safeAddBalance otherBurntAmount totalDeposit)
      pure (0, [], otherBurntAmount)
  else do
    let (gasDeficitAmount, refunds) ←
      generateRefundReceipts accountType currentGasPrice receipt actionReceipt result config
    pure (gasDeficitAmount, refunds, otherBurntAmount)

section
attribute [local simp] refundOrBurn
end

/-- The end of `apply_action_receipt` once the actions ran, from the refunds to the burnt tokens
of the stats. -/
def settleActionReceipt (currentGasPrice : Nat) (burntGasReward : Chain.Rational32) (config : RuntimeConfig)
    (receipt : Receipt) (actionReceipt : ActionReceipt) (result : ActionResult) (receiverAmount : Option Nat)
    (stats : BalanceStats) : Except ApplyError Settlement := do
  let (gasDeficitAmount, refunds, otherBurntAmount) ←
    refundOrBurn accountType currentGasPrice receipt actionReceipt result config stats.otherBurntAmount
  let statsDeficitAmount ← ApplyError.ofOverflow (safeAddBalance stats.gasDeficitAmount gasDeficitAmount)
  -- a refund receipt is free: it burns no gas
  let gasBurnt := if receipt.predecessorId.isSystem then 0 else result.gasBurnt
  let tokensBurnt ← txBurntAmount currentGasPrice gasBurnt gasDeficitAmount
  let reward ← receiverReward currentGasPrice burntGasReward result.gasBurntForFunctionCall gasDeficitAmount
  let (txBurntLeft, receiverAmount) ← rewardReceiver tokensBurnt reward receiverAmount
  let statsBurntAmount ← ApplyError.ofOverflow (safeAddBalance stats.txBurntAmount txBurntLeft)
  pure { refunds, tokensBurnt, receiverAmount, stats := ⟨otherBurntAmount, statsDeficitAmount, statsBurntAmount⟩ }

section
attribute [local simp] settleActionReceipt
end

/-- Everything `generate_refund_receipts` computes succeeds when what the receipt prepaid fits in
`u64`, its deposits in `u128`, and the prepaid gas at either price in `u128`: the deposit of a
failure comes back, the refund less the deficit is the unused gas at the purchase price plus the
price difference for the burnt gas, at most one of the two is positive, and the deficit is within
the burnt gas at the current price. -/
theorem generateRefundReceipts_of_le {config : RuntimeConfig} {currentGasPrice : Nat} {receipt : Receipt}
    {actionReceipt : ActionReceipt} {result : ActionResult} (burntWithinUsed : result.gasBurnt ≤ result.gasUsed)
    (usedWithinPrepaid : result.gasUsed ≤ prepaidBudget accountType config receipt.receiverId actionReceipt.actions)
    (prepaidFits : prepaidBudget accountType config receipt.receiverId actionReceipt.actions ≤ Gas.MAX)
    (depositFits : (actionReceipt.actions.map Action.deposit).sum ≤ Balance.MAX)
    (purchasedFits :
      actionReceipt.gasPrice * prepaidBudget accountType config receipt.receiverId actionReceipt.actions ≤ Balance.MAX)
    (currentFits : currentGasPrice * prepaidBudget accountType config receipt.receiverId actionReceipt.actions ≤ Balance.MAX) :
    ∃ gasDeficitAmount refunds,
      generateRefundReceipts accountType currentGasPrice receipt actionReceipt result config =
        .ok (gasDeficitAmount, refunds) ∧
      (refunds.map RefundReceipt.depositRefund).sum =
        (if result.succeeded then 0 else (actionReceipt.actions.map Action.deposit).sum) ∧
      ((refunds.map RefundReceipt.gasBalanceRefund).sum : Int) - gasDeficitAmount =
        ((prepaidBudget accountType config receipt.receiverId actionReceipt.actions - result.spentGas : Nat) : Int) *
          actionReceipt.gasPrice + ((actionReceipt.gasPrice : Int) - currentGasPrice) * result.gasBurnt ∧
      ((refunds.map RefundReceipt.gasBalanceRefund).sum = 0 ∨ gasDeficitAmount = 0) ∧
      gasDeficitAmount ≤ currentGasPrice * result.gasBurnt := by
  obtain ⟨burntSpent, spentWithin⟩ := ActionResult.spentGas_bounds burntWithinUsed usedWithinPrepaid
  -- the two products the price branch computes stay within the prepaid gas at either price
  have refundFits : actionReceipt.gasPrice * (prepaidBudget accountType config receipt.receiverId actionReceipt.actions -
      result.spentGas) + (actionReceipt.gasPrice - currentGasPrice) * result.gasBurnt ≤ Balance.MAX :=
    Nat.le_trans (refund_add_difference_le burntSpent spentWithin) purchasedFits
  have deficitFits : (currentGasPrice - actionReceipt.gasPrice) * result.gasBurnt ≤ Balance.MAX :=
    Nat.le_trans (Nat.mul_le_mul (Nat.sub_le _ _) (Nat.le_trans burntSpent spentWithin)) currentFits
  obtain ⟨gasBalanceRefund, gasDeficitAmount, charged, nets, oneZero, bounded⟩ :=
    chargePriceDifference_of_le deficitFits refundFits
  refine ⟨gasDeficitAmount, refundReceipts receipt actionReceipt
    (if result.succeeded then 0 else (actionReceipt.actions.map Action.deposit).sum) gasBalanceRefund, ?_, ?_, ?_, ?_, ?_⟩
  · unfold generateRefundReceipts
    rw [totalDeposit_of_le depositFits, ApplyError.ofOverflow_ok, Except.ok_bind,
      gasRefund_of_le accountType prepaidFits spentWithin, Except.ok_bind,
      safeGasToBalance_of_le (Nat.le_trans (Nat.le_add_right _ _) refundFits), ApplyError.ofOverflow_ok,
      Except.ok_bind, charged]
    rfl
  · exact refundReceipts_depositRefund _ _ _ _
  · rw [refundReceipts_gasBalanceRefund, nets, Nat.cast_mul]
    ring
  · rwa [refundReceipts_gasBalanceRefund]
  · exact Nat.le_trans bounded (Nat.mul_le_mul_right _ (Nat.sub_le _ _))

/-- For a receipt that is not a refund, with its refunds generated and a reward within the burnt
tokens, the end of `apply_action_receipt` never panics: every step left may only overflow. -/
theorem settleActionReceipt_ne_panic {config : RuntimeConfig} {currentGasPrice : Nat}
    {burntGasReward : Chain.Rational32} {receipt : Receipt} {actionReceipt : ActionReceipt} {result : ActionResult}
    {gasDeficitAmount tokensBurnt reward : Nat} {refunds : List RefundReceipt}
    (notSystem : receipt.predecessorId.isSystem = false)
    (generated : generateRefundReceipts accountType currentGasPrice receipt actionReceipt result config =
      .ok (gasDeficitAmount, refunds))
    (burnt : txBurntAmount currentGasPrice result.gasBurnt gasDeficitAmount = .ok tokensBurnt)
    (rewarded : receiverReward currentGasPrice burntGasReward result.gasBurntForFunctionCall gasDeficitAmount = .ok reward)
    (within : reward ≤ tokensBurnt) (receiverAmount : Option Nat) (stats : BalanceStats) (message : String) :
    settleActionReceipt accountType currentGasPrice burntGasReward config receipt actionReceipt result receiverAmount
      stats ≠ .error (.panic message) := by
  unfold settleActionReceipt refundOrBurn
  simp only [notSystem, Bool.false_eq_true, ↓reduceIte, generated, Except.ok_bind, Except.pure_eq_ok]
  refine Except.bind_ne_error (ApplyError.ofOverflow_ne_panic _ message) (fun _ _ => ?_)
  rw [burnt, Except.ok_bind, rewarded, Except.ok_bind]
  refine Except.bind_ne_error (rewardReceiver_ne_panic within receiverAmount message) (fun _ _ => ?_)
  exact Except.bind_ne_error (ApplyError.ofOverflow_ne_panic _ message) (fun _ _ failed => nomatch failed)

/-- Refunds conserve value. For every receipt whose burnt gas is within its used gas and that
within what it prepaid, and whose sums and prices fit their machine types, `generate_refund_receipts`
returns: the deposit of a failure comes back, the gas refund less the deficit is the unused gas at
the purchase price plus the price difference for the burnt gas, at most one of them is positive,
and the deficit is within the burnt gas at the current price. Then, with a reward ratio of at most
one and the function calls' burnt gas within the burnt gas, `apply_action_receipt` burns the
burnt gas at the current price less the deficit, rewards the receiver at most that, and for a
receipt that is not a refund never panics. -/
theorem refunds_conserve_value_when_fitting (config : RuntimeConfig) (currentGasPrice : Nat) (receipt : Receipt)
    (actionReceipt : ActionReceipt) (result : ActionResult) (burntWithinUsed : result.gasBurnt ≤ result.gasUsed)
    (usedWithinPrepaid : result.gasUsed ≤ prepaidBudget accountType config receipt.receiverId actionReceipt.actions)
    (prepaidFits : prepaidBudget accountType config receipt.receiverId actionReceipt.actions ≤ Gas.MAX)
    (depositFits : (actionReceipt.actions.map Action.deposit).sum ≤ Balance.MAX)
    (purchasedFits :
      actionReceipt.gasPrice * prepaidBudget accountType config receipt.receiverId actionReceipt.actions ≤ Balance.MAX)
    (currentFits : currentGasPrice * prepaidBudget accountType config receipt.receiverId actionReceipt.actions ≤ Balance.MAX) :
    ∃ gasDeficitAmount refunds,
      generateRefundReceipts accountType currentGasPrice receipt actionReceipt result config =
        .ok (gasDeficitAmount, refunds) ∧
      (refunds.map RefundReceipt.depositRefund).sum =
        (if result.succeeded then 0 else (actionReceipt.actions.map Action.deposit).sum) ∧
      ((refunds.map RefundReceipt.gasBalanceRefund).sum : Int) - gasDeficitAmount =
        ((prepaidBudget accountType config receipt.receiverId actionReceipt.actions - result.spentGas : Nat) : Int) *
          actionReceipt.gasPrice + ((actionReceipt.gasPrice : Int) - currentGasPrice) * result.gasBurnt ∧
      ((refunds.map RefundReceipt.gasBalanceRefund).sum = 0 ∨ gasDeficitAmount = 0) ∧
      gasDeficitAmount ≤ currentGasPrice * result.gasBurnt ∧
      ∀ burntGasReward : Chain.Rational32, 0 < asU64 burntGasReward.denom →
        asU64 burntGasReward.numer ≤ asU64 burntGasReward.denom →
        result.gasBurntForFunctionCall * asU64 burntGasReward.numer ≤ Gas.MAX →
        result.gasBurntForFunctionCall ≤ result.gasBurnt →
        txBurntAmount currentGasPrice result.gasBurnt gasDeficitAmount =
          .ok (currentGasPrice * result.gasBurnt - gasDeficitAmount) ∧
        (∃ reward, receiverReward currentGasPrice burntGasReward result.gasBurntForFunctionCall gasDeficitAmount =
          .ok reward ∧ reward ≤ currentGasPrice * result.gasBurnt - gasDeficitAmount) ∧
        (receipt.predecessorId.isSystem = false → ∀ receiverAmount stats message,
          settleActionReceipt accountType currentGasPrice burntGasReward config receipt actionReceipt result
            receiverAmount stats ≠ .error (.panic message)) := by
  obtain ⟨gasDeficitAmount, refunds, generated, deposit, nets, oneZero, bounded⟩ :=
    generateRefundReceipts_of_le accountType burntWithinUsed usedWithinPrepaid prepaidFits depositFits purchasedFits
      currentFits
  refine ⟨gasDeficitAmount, refunds, generated, deposit, nets, oneZero, bounded,
    fun burntGasReward positive atMostOne rewardFits forFunctionCall => ?_⟩
  -- the burnt gas is within what was prepaid, so its price fits
  have burntFits : currentGasPrice * result.gasBurnt ≤ Balance.MAX :=
    Nat.le_trans (Nat.mul_le_mul_left _ (Nat.le_trans burntWithinUsed usedWithinPrepaid)) currentFits
  have burnt := txBurntAmount_of_le burntFits bounded
  obtain ⟨reward, rewarded, within⟩ : ∃ reward, receiverReward currentGasPrice burntGasReward
      result.gasBurntForFunctionCall gasDeficitAmount = .ok reward ∧
        reward ≤ currentGasPrice * result.gasBurnt - gasDeficitAmount :=
    receiverReward_of_le positive atMostOne rewardFits forFunctionCall burntFits
  exact ⟨burnt, ⟨reward, rewarded, within⟩,
    fun notSystem => settleActionReceipt_ne_panic accountType notSystem generated burnt rewarded within⟩

/-- The signer, who is also the predecessor, and the receiver of the receipts below. -/
def refundedSigner : AccountId := AccountId.ofLetter 97 AccountId.lower_a

def refundedReceiver : AccountId := AccountId.ofLetter 98 AccountId.lower_b

/-- An action receipt of one function call with `gas` attached and `deposit` on it, bought at
`gasPrice`. -/
def oneCallReceipt (gasPrice gas deposit : Nat) : ActionReceipt :=
  ⟨refundedSigner, .ed25519 (Vector.replicate 32 0), gasPrice, [.nonDelegate (.functionCall ⟨"", [], gas, deposit⟩)]⟩

/-- A configuration with every fee zero. -/
def zeroFees : RuntimeConfig := ⟨fun _ => ⟨0, 0, 0⟩, false, false⟩

/-- A call of 10 gas with a deposit of 5, bought at 2 and applied at 3, that burns 4, of which 2
in function calls, uses 5 and fails: its deposit of 5 comes back. -/
theorem refunds_conserve_value_failedCall :
    ∃ gasDeficitAmount refunds,
      generateRefundReceipts (fun _ => .namedAccount) 3 ⟨refundedSigner, refundedReceiver⟩ (oneCallReceipt 2 10 5)
        ⟨4, 2, 5, false⟩ zeroFees = .ok (gasDeficitAmount, refunds) ∧
      (refunds.map RefundReceipt.depositRefund).sum = 5 :=
  have conserved := refunds_conserve_value_when_fitting (fun _ => .namedAccount) zeroFees 3
    ⟨refundedSigner, refundedReceiver⟩ (oneCallReceipt 2 10 5) ⟨4, 2, 5, false⟩ (by decide) (by decide) (by decide)
    (by decide) (by decide) (by decide)
  let ⟨gasDeficitAmount, refunds, generated, deposit, _⟩ := conserved
  ⟨gasDeficitAmount, refunds, generated, by rw [deposit]; rfl⟩

/-- At a price of `2 ^ 127` the unused gas of a call of 2 gas no longer fits in `u128`: for a
receipt that is not a refund and spent nothing, `generate_refund_receipts` fails with an overflow
and returns no deficit. -/
theorem generateRefundReceipts_overflows_at_high_price :
    refundedSigner.isSystem = false ∧ (⟨0, 0, 0, true⟩ : ActionResult).gasBurnt ≤ (⟨0, 0, 0, true⟩ : ActionResult).gasUsed ∧
      (⟨0, 0, 0, true⟩ : ActionResult).gasUsed ≤
        prepaidBudget (fun _ => .namedAccount) zeroFees refundedReceiver (oneCallReceipt (2 ^ 127) 2 0).actions ∧
      generateRefundReceipts (fun _ => .namedAccount) (2 ^ 127) ⟨refundedSigner, refundedReceiver⟩
        (oneCallReceipt (2 ^ 127) 2 0) ⟨0, 0, 0, true⟩ zeroFees = .error .unexpectedIntegerOverflow :=
  ⟨by decide, Nat.le_refl 0, Nat.zero_le _, rfl⟩

end Refunds

end Nearcore
