import Nearcore.Primitives.TrieKey

/-! Actions (`core/primitives/src/action`): what a transaction or a receipt asks of the
receiver's account. The actions of a delegate action are never delegate actions themselves
(`NonDelegateAction`); here an `Action` is a non-delegate action or a delegate one, so that
no nesting can be built. The signature of a delegate action is left out: whether it verifies
is an input of the code that checks it. -/
namespace Nearcore

/-- `Balance::MAX`, that is `u128::MAX`: deposits, stakes and prices are `u128` balances. -/
def Balance.MAX : Nat := 2 ^ 128 - 1

section
attribute [local simp] Balance.MAX
end

inductive AccessKeyPermission where
  | functionCall (allowance : Option Nat) (receiverId : AccountId) (methodNames : List String)
  | fullAccess
  deriving DecidableEq

structure AccessKey where
  nonce : Nat
  permission : AccessKeyPermission
  deriving DecidableEq

structure FunctionCallAction where
  methodName : String
  args : List UInt8
  gas : Nat
  deposit : Nat
  deriving DecidableEq

inductive GlobalContractDeployMode where
  | codeHash
  | accountId
  deriving DecidableEq

inductive GlobalContractIdentifier where
  | codeHash (hash : CryptoHash)
  | accountId (accountId : AccountId)
  deriving DecidableEq

/-- `GlobalContractIdentifier::len`. -/
def GlobalContractIdentifier.len : GlobalContractIdentifier → Nat
  | .codeHash _ => 32
  | .accountId account => account.bytes.length

section
attribute [local simp] GlobalContractIdentifier.len
end

/-- The variants of `Action` other than `Delegate`. -/
inductive NonDelegateAction where
  | createAccount
  | deployContract (code : List UInt8)
  | functionCall (action : FunctionCallAction)
  | transfer (deposit : Nat)
  | stake (stake : Nat) (publicKey : PublicKey)
  | addKey (publicKey : PublicKey) (accessKey : AccessKey)
  | deleteKey (publicKey : PublicKey)
  | deleteAccount (beneficiaryId : AccountId)
  | deployGlobalContract (code : List UInt8) (deployMode : GlobalContractDeployMode)
  | useGlobalContract (contractIdentifier : GlobalContractIdentifier)
  deriving DecidableEq

structure DelegateAction where
  senderId : AccountId
  receiverId : AccountId
  actions : List NonDelegateAction
  nonce : Nat
  maxBlockHeight : Nat
  publicKey : PublicKey
  deriving DecidableEq

inductive Action where
  | nonDelegate (action : NonDelegateAction)
  | delegate (delegateAction : DelegateAction)
  deriving DecidableEq

/-- `Action::get_prepaid_gas`. -/
def Action.getPrepaidGas : Action → Nat
  | .nonDelegate (.functionCall action) => action.gas
  | _ => 0

section
attribute [local simp] Action.getPrepaidGas
end

/-- `Action::get_deposit_balance`. -/
def Action.getDepositBalance : Action → Nat
  | .nonDelegate (.functionCall action) => action.deposit
  | .nonDelegate (.transfer deposit) => deposit
  | _ => 0

/-- `DelegateAction::get_actions`. -/
def DelegateAction.getActions (delegateAction : DelegateAction) : List Action :=
  delegateAction.actions.map .nonDelegate

section
attribute [local simp] DelegateAction.getActions
end

/-- Whether an action is a delegate action. -/
def Action.isDelegate : Action → Bool
  | .delegate _ => true
  | .nonDelegate _ => false

section
attribute [local simp] Action.isDelegate
end

end Nearcore
