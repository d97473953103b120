import Nearcore.Library.Except
import Nearcore.Primitives.Action
import Nearcore.VM.GasCounter

/-! Fees of actions (`runtime/runtime/src/config.rs`, with `transfer_exec_fee` and
`transfer_send_fee` of `core/parameters/src/cost.rs`). An action burns its send fee when it is
sent and its execution fee when it runs; a delegate action prepays both fees of the actions it
carries, and the execution fee of the receipt it sends them in. The sums over a receipt's
actions are `u64` additions checked at each step; the fee of one action is computed in `Nat`,
as the parameters keep it far below `u64::MAX`. The account type of a receiver comes from the
account-id crate, outside the repository, and is the parameter `accountType`. -/
namespace Nearcore

inductive AccountType where
  | namedAccount
  | nearImplicitAccount
  | ethImplicitAccount
  deriving DecidableEq

structure Fee where
  sendSir : Nat
  sendNotSir : Nat
  execution : Nat

/-- `Fee::send_fee`. -/
def Fee.sendFee (fee : Fee) (sir : Bool) : Nat := if sir then fee.sendSir else fee.sendNotSir

/-- `Fee::exec_fee`. -/
def Fee.execFee (fee : Fee) : Nat := fee.execution

section
attribute [local simp] Fee.execFee
end

inductive ActionCosts where
  | createAccount
  | deleteAccount
  | deployContractBase
  | deployContractByte
  | functionCallBase
  | functionCallByte
  | transfer
  | stake
  | addFullAccessKey
  | addFunctionCallKeyBase
  | addFunctionCallKeyByte
  | deleteKey
  | newActionReceipt
  | newDataReceiptBase
  | newDataReceiptByte
  | delegate
  | deployGlobalContractBase
  | deployGlobalContractByte
  | useGlobalContractBase
  | useGlobalContractByte
  deriving DecidableEq

/-- What the fee functions read of `RuntimeConfig`: `fees.fee` of each cost, and the two
switches of implicit account creation in `wasm_config`. -/
structure RuntimeConfig where
  fee : ActionCosts → Fee
  implicitAccountCreation : Bool
  ethImplicitAccounts : Bool

/-- `IntegerOverflowError`. -/
structure IntegerOverflowError where
  deriving DecidableEq

/-- `safe_add_gas`. -/
def safeAddGas (a b : Nat) : Except IntegerOverflowError Nat :=
  match Gas.checkedAdd a b with
  | some sum => .ok sum
  | none => .error {}

section
attribute [local simp] safeAddGas
end

theorem safeAddGas_eq_ok {a b c : Nat} (added : safeAddGas a b = .ok c) : c = a + b := by
  unfold safeAddGas at added
  split at added
  · rename_i sum summed
    cases added
    exact (Gas.checkedAdd_eq_some summed).symm
  · cases added

theorem safeAddGas_of_le {a b : Nat} (fits : a + b ≤ Gas.MAX) : safeAddGas a b = .ok (a + b) := by
  simp [safeAddGas, Gas.checkedAdd, fits]

theorem safeAddGas_of_lt {a b : Nat} (overflows : Gas.MAX < a + b) : safeAddGas a b = .error {} := by
  simp [safeAddGas, Gas.checkedAdd, Nat.not_le.mpr overflows]

/-- The fee of a transfer: its own, and those of the account a transfer to an implicit account
creates, in the fee `feeOf` reads of each cost. -/
def transferFee (config : RuntimeConfig) (feeOf : Fee → Nat) (receiverAccountType : AccountType) : Nat :=
  let transferFee := feeOf (config.fee .transfer)
  match config.implicitAccountCreation, config.ethImplicitAccounts, receiverAccountType with
  | _, _, .namedAccount => transferFee
  | false, _, _ => transferFee
  | true, false, .ethImplicitAccount => transferFee
  | true, true, .ethImplicitAccount => transferFee + feeOf (config.fee .createAccount)
  | true, _, .nearImplicitAccount =>
    transferFee + feeOf (config.fee .createAccount) + feeOf (config.fee .addFullAccessKey)

/-- `transfer_exec_fee`. -/
def transferExecFee (config : RuntimeConfig) (receiverAccountType : AccountType) : Nat :=
  transferFee config Fee.execFee receiverAccountType

/-- `transfer_send_fee`. -/
def transferSendFee (config : RuntimeConfig) (senderIsReceiver : Bool) (receiverAccountType : AccountType) : Nat :=
  transferFee config (fun fee => fee.sendFee senderIsReceiver) receiverAccountType

/-- The fee of an action other than a delegate action, in the fee `feeOf` reads of each cost:
`total_send_fees` computes it with a send fee and `exec_fee` with the execution fee, the same
way for every action but a transfer, whose fee is given. -/
def NonDelegateAction.fee (config : RuntimeConfig) (feeOf : Fee → Nat) (transferFee : Nat) :
    NonDelegateAction → Nat
  | .createAccount => feeOf (config.fee .createAccount)
  | .deployContract code =>
    feeOf (config.fee .deployContractBase) + feeOf (config.fee .deployContractByte) * code.length
  | .functionCall action =>
    feeOf (config.fee .functionCallBase) +
      feeOf (config.fee .functionCallByte) * (action.methodName.utf8ByteSize + action.args.length)
  | .transfer _ => transferFee
  | .stake _ _ => feeOf (config.fee .stake)
  | .addKey _ accessKey =>
    match accessKey.permission with
    | .functionCall _ _ methodNames =>
      -- every name is counted with its null terminator
      feeOf (config.fee .addFunctionCallKeyBase) +
        (methodNames.map fun name => name.utf8ByteSize + 1).sum * feeOf (config.fee .addFunctionCallKeyByte)
    | .fullAccess => feeOf (config.fee .addFullAccessKey)
  | .deleteKey _ => feeOf (config.fee .deleteKey)
  | .deleteAccount _ => feeOf (config.fee .deleteAccount)
  | .deployGlobalContract code _ =>
    feeOf (config.fee .deployGlobalContractBase) + feeOf (config.fee .deployGlobalContractByte) * code.length
  | .useGlobalContract identifier =>
    feeOf (config.fee .useGlobalContractBase) + feeOf (config.fee .useGlobalContractByte) * identifier.len

section
attribute [local simp] NonDelegateAction.fee
end

section Fees

variable (accountType : AccountId → AccountType)

/-- The send fee of an action other than a delegate action, as `total_send_fees` adds it. -/
def NonDelegateAction.sendFee (config : RuntimeConfig) (senderIsReceiver : Bool) (receiverId : AccountId)
    (action : NonDelegateAction) : Nat :=
  action.fee config (fun fee => fee.sendFee senderIsReceiver)
    (transferSendFee config senderIsReceiver (accountType receiverId))

/-- `exec_fee`. -/
def execFee (config : RuntimeConfig) (action : Action) (receiverId : AccountId) : Nat :=
  match action with
  | .nonDelegate action => action.fee config Fee.execFee (transferExecFee config (accountType receiverId))
  | .delegate _ => (config.fee .delegate).execFee

section
attribute [local simp] execFee
end

/-- The loop of the `total_*` functions: the checked sum of one amount per item, each of which
may fail itself. -/
def checkedSum {α : Type} (amount : α → Except IntegerOverflowError Nat) (items : List α) :
    Except IntegerOverflowError Nat :=
  items.foldlM (fun result item => amount item >>= safeAddGas result) 0

section
attribute [local simp] checkedSum
end

/-- `total_send_fees`. The recursive call for a delegate action is on actions none of which is a
delegate action, and adds their send fees. -/
def totalSendFees (config : RuntimeConfig) (senderIsReceiver : Bool) (actions : List Action)
    (receiverId : AccountId) : Except IntegerOverflowError Nat :=
  checkedSum (fun
    | .nonDelegate action => .ok (action.sendFee accountType config senderIsReceiver receiverId)
    | .delegate delegateAction => do
      let inner ← checkedSum (fun action => .ok (action.sendFee accountType config senderIsReceiver
        delegateAction.receiverId)) delegateAction.actions
      pure ((config.fee .delegate).sendFee senderIsReceiver + inner)) actions

/-- `total_prepaid_send_fees`: only a delegate action prepays send fees, those of its actions. -/
def totalPrepaidSendFees (config : RuntimeConfig) (actions : List Action) : Except IntegerOverflowError Nat :=
  checkedSum (fun
    | .delegate delegateAction =>
      totalSendFees accountType config (decide (delegateAction.senderId = delegateAction.receiverId))
        delegateAction.getActions delegateAction.receiverId
    | .nonDelegate _ => .ok 0) actions

/-- `total_prepaid_exec_fees`. A delegate action prepays the execution fees of its actions (the
recursive call, on actions none of which is a delegate action), its own, and that of the receipt
it sends. -/
def totalPrepaidExecFees (config : RuntimeConfig) (actions : List Action) (receiverId : AccountId) :
    Except IntegerOverflowError Nat :=
  checkedSum (fun
    | .delegate delegateAction => do
      let delta ← checkedSum (fun action => .ok (execFee accountType config (.nonDelegate action)
        delegateAction.receiverId)) delegateAction.actions
      let delta ← safeAddGas delta (execFee accountType config (.delegate delegateAction) delegateAction.receiverId)
      safeAddGas delta (config.fee .newActionReceipt).execFee
    | .nonDelegate action => .ok (execFee accountType config (.nonDelegate action) receiverId)) actions

/-- `total_prepaid_gas`. -/
def totalPrepaidGas (actions : List Action) : Except IntegerOverflowError Nat :=
  checkedSum (fun
    | .delegate delegateAction =>
      checkedSum (fun action => .ok (Action.nonDelegate action).getPrepaidGas) delegateAction.actions
    | .nonDelegate action => .ok (Action.nonDelegate action).getPrepaidGas) actions

/-! What each action costs and prepaid, as the `total_*` functions add it up when no sum
overflows. -/

/-- The send fees of an action, as `total_send_fees` adds them. -/
def Action.sendFees (config : RuntimeConfig) (senderIsReceiver : Bool) (receiverId : AccountId) : Action → Nat
  | .nonDelegate action => action.sendFee accountType config senderIsReceiver receiverId
  | .delegate delegateAction =>
    (config.fee .delegate).sendFee senderIsReceiver +
      (delegateAction.actions.map fun action => action.sendFee accountType config senderIsReceiver
        delegateAction.receiverId).sum

section
attribute [local simp] Action.sendFees
end

/-- The gas an action prepaid for function calls: its own, or that of the actions it carries. -/
def Action.prepaidGas : Action → Nat
  | .delegate delegateAction =>
    (delegateAction.actions.map fun action => (Action.nonDelegate action).getPrepaidGas).sum
  | .nonDelegate action => (Action.nonDelegate action).getPrepaidGas

section
attribute [local simp] Action.prepaidGas
end

/-- The send fees an action prepaid: those of the actions a delegate action carries, at the
delegate action's own sender and receiver. -/
def Action.prepaidSendFees (config : RuntimeConfig) : Action → Nat
  | .delegate delegateAction =>
    (delegateAction.actions.map fun action => action.sendFee accountType config
      (decide (delegateAction.senderId = delegateAction.receiverId)) delegateAction.receiverId).sum
  | .nonDelegate _ => 0

/-- The execution fees an action prepaid. -/
def Action.prepaidExecFees (config : RuntimeConfig) (receiverId : AccountId) : Action → Nat
  | .delegate delegateAction =>
    (delegateAction.actions.map fun action => execFee accountType config (.nonDelegate action)
      delegateAction.receiverId).sum +
      execFee accountType config (.delegate delegateAction) delegateAction.receiverId +
      (config.fee .newActionReceipt).execFee
  | .nonDelegate action => execFee accountType config (.nonDelegate action) receiverId

section
attribute [local simp] Action.prepaidExecFees
end

/-- A checked sum that succeeds is the sum of what each amount is whenever it succeeds. -/
theorem checkedSum_eq_ok {α : Type} {amount : α → Except IntegerOverflowError Nat} {value : α → Nat}
    (agrees : ∀ item total, amount item = .ok total → total = value item) {items : List α} {total : Nat}
    (summed : checkedSum amount items = .ok total) : total = (items.map value).sum := by
  -- the loop keeps the running result at the sum of the items done
  have kept := @List.foldlM_invariant_of_ok _ _ _ _ (fun done result => result = (done.map value).sum)
    (fun done item result result' added holds => by
      cases first : amount item with
      | error e => rw [first] at added; cases added
      | ok delta =>
        rw [first, Except.ok_bind] at added
        rw [safeAddGas_eq_ok added, holds, agrees item delta first]
        simp)
    items [] 0 total summed rfl
  simpa using kept

/-- Each item of a checked sum over items that never fail. -/
theorem checkedSum_ok_eq {α : Type} {value : α → Nat} {items : List α} {total : Nat}
    (summed : checkedSum (fun item => .ok (value item)) items = .ok total) : total = (items.map value).sum :=
  checkedSum_eq_ok (fun _ _ given => (Except.ok.inj given).symm) summed

theorem totalSendFees_eq_ok {config : RuntimeConfig} {senderIsReceiver : Bool} {actions : List Action}
    {receiverId : AccountId} {total : Nat}
    (summed : totalSendFees accountType config senderIsReceiver actions receiverId = .ok total) :
    total = (actions.map (Action.sendFees accountType config senderIsReceiver receiverId)).sum := by
  refine checkedSum_eq_ok (fun action fee computed => ?_) summed
  cases action with
  | nonDelegate action => exact (Except.ok.inj computed).symm
  | delegate delegateAction =>
    cases inner : checkedSum (fun action => .ok (action.sendFee accountType config senderIsReceiver
        delegateAction.receiverId)) delegateAction.actions with
    | error e => simp [inner] at computed
    | ok innerFees =>
      simp only [inner, Except.ok_bind, Except.pure_eq_ok, Except.ok.injEq] at computed
      rw [← computed, Action.sendFees, checkedSum_ok_eq inner]

theorem totalPrepaidSendFees_eq_ok {config : RuntimeConfig} {actions : List Action} {total : Nat}
    (summed : totalPrepaidSendFees accountType config actions = .ok total) :
    total = (actions.map (Action.prepaidSendFees accountType config)).sum := by
  refine checkedSum_eq_ok (fun action fees computed => ?_) summed
  cases action with
  | nonDelegate action => exact (Except.ok.inj computed).symm
  | delegate delegateAction =>
    rw [totalSendFees_eq_ok accountType computed, DelegateAction.getActions, List.map_map]
    rfl

theorem totalPrepaidExecFees_eq_ok {config : RuntimeConfig} {actions : List Action} {receiverId : AccountId}
    {total : Nat} (summed : totalPrepaidExecFees accountType config actions receiverId = .ok total) :
    total = (actions.map (Action.prepaidExecFees accountType config receiverId)).sum := by
  refine checkedSum_eq_ok (fun action fees computed => ?_) summed
  cases action with
  | nonDelegate action => exact (Except.ok.inj computed).symm
  | delegate delegateAction =>
    -- three checked additions: the actions carried, the delegate action, the receipt
    cases inner : checkedSum (fun action => .ok (execFee accountType config (.nonDelegate action)
        delegateAction.receiverId)) delegateAction.actions with
    | error e => simp [inner] at computed
    | ok innerFees =>
      dsimp only at computed
      rw [inner, Except.ok_bind] at computed
      cases own : safeAddGas innerFees (execFee accountType config (.delegate delegateAction)
          delegateAction.receiverId) with
      | error e => rw [own] at computed; cases computed
      | ok withOwn =>
        rw [own, Except.ok_bind] at computed
        rw [safeAddGas_eq_ok computed, safeAddGas_eq_ok own, checkedSum_ok_eq inner]
        rfl

theorem totalPrepaidGas_eq_ok {actions : List Action} {total : Nat}
    (summed : totalPrepaidGas actions = .ok total) : total = (actions.map Action.prepaidGas).sum := by
  refine checkedSum_eq_ok (fun action gas computed => ?_) summed
  cases action with
  | nonDelegate action => exact (Except.ok.inj computed).symm
  | delegate delegateAction => exact checkedSum_ok_eq computed

/-! The same sums succeed when their total fits in `u64`. -/

/-- A checked sum whose total fits succeeds with it, when each amount succeeds whenever its own
value fits. -/
theorem checkedSum_of_le {α : Type} {amount : α → Except IntegerOverflowError Nat} {value : α → Nat}
    (exactAmount : ∀ item, value item ≤ Gas.MAX → amount item = .ok (value item)) {items : List α}
    (fits : (items.map value).sum ≤ Gas.MAX) : checkedSum amount items = .ok (items.map value).sum := by
  have summed := List.foldlM_add_of_le (fun _ _ fit => safeAddGas_of_le fit) exactAmount items 0
    (by rwa [Nat.zero_add])
  rwa [Nat.zero_add] at summed

theorem totalSendFees_of_le {config : RuntimeConfig} {senderIsReceiver : Bool} {actions : List Action}
    {receiverId : AccountId}
    (fits : (actions.map (Action.sendFees accountType config senderIsReceiver receiverId)).sum ≤ Gas.MAX) :
    totalSendFees accountType config senderIsReceiver actions receiverId =
      .ok (actions.map (Action.sendFees accountType config senderIsReceiver receiverId)).sum := by
  refine checkedSum_of_le (fun action within => ?_) fits
  cases action with
  | nonDelegate action => rfl
  | delegate delegateAction =>
    -- the fees of the actions carried are part of the delegate action's, so their sum fits too
    have inner : checkedSum (fun action => .ok (action.sendFee accountType config senderIsReceiver
        delegateAction.receiverId)) delegateAction.actions = .ok (delegateAction.actions.map fun action =>
          action.sendFee accountType config senderIsReceiver delegateAction.receiverId).sum :=
      checkedSum_of_le (fun _ _ => rfl) (Nat.le_trans (Nat.le_add_left _ _) within)
    simp only [inner, Except.ok_bind, Except.pure_eq_ok, Action.sendFees]

theorem totalPrepaidSendFees_of_le {config : RuntimeConfig} {actions : List Action}
    (fits : (actions.map (Action.prepaidSendFees accountType config)).sum ≤ Gas.MAX) :
    totalPrepaidSendFees accountType config actions = .ok (actions.map (Action.prepaidSendFees accountType config)).sum := by
  refine checkedSum_of_le (fun action within => ?_) fits
  cases action with
  | nonDelegate action => rfl
  | delegate delegateAction =>
    have sendFees : ((delegateAction.getActions.map (Action.sendFees accountType config
        (decide (delegateAction.senderId = delegateAction.receiverId)) delegateAction.receiverId)).sum) =
        (Action.delegate delegateAction).prepaidSendFees accountType config := by
      rw [DelegateAction.getActions, List.map_map]
      rfl
    rw [← sendFees] at within ⊢
    exact totalSendFees_of_le accountType within

theorem totalPrepaidExecFees_of_le {config : RuntimeConfig} {actions : List Action} {receiverId : AccountId}
    (fits : (actions.map (Action.prepaidExecFees accountType config receiverId)).sum ≤ Gas.MAX) :
    totalPrepaidExecFees accountType config actions receiverId =
      .ok (actions.map (Action.prepaidExecFees accountType config receiverId)).sum := by
  refine checkedSum_of_le (fun action within => ?_) fits
  cases action with
  | nonDelegate action => rfl
  | delegate delegateAction =>
    simp only [Action.prepaidExecFees] at within ⊢
    have inner : checkedSum (fun action => .ok (execFee accountType config (.nonDelegate action)
        delegateAction.receiverId)) delegateAction.actions = .ok (delegateAction.actions.map fun action =>
          execFee accountType config (.nonDelegate action) delegateAction.receiverId).sum :=
      checkedSum_of_le (fun _ _ => rfl) (by omega)
    rw [inner, Except.ok_bind, safeAddGas_of_le (Nat.le_trans (Nat.le_add_right _ _) within), Except.ok_bind,
      safeAddGas_of_le within]

theorem totalPrepaidGas_of_le {actions : List Action} (fits : (actions.map Action.prepaidGas).sum ≤ Gas.MAX) :
    totalPrepaidGas actions = .ok (actions.map Action.prepaidGas).sum := by
  refine checkedSum_of_le (fun action within => ?_) fits
  cases action with
  | nonDelegate action => rfl
  | delegate delegateAction => exact checkedSum_of_le (fun _ _ => rfl) within

end Fees

end Nearcore
