import Nearcore.Primitives.Action
import Nearcore.Store.TrieUpdate
import Nearcore.Trie.Update

/-! Access keys in the runtime: `verify_and_charge_tx_ephemeral` (`runtime/runtime/src/verifier.rs`),
which checks a transaction against its signer's account and access key and charges both, and
`apply_delegate_action` with `validate_delegate_action_key` (`runtime/runtime/src/actions.rs`),
which check the key of a delegate action and bump its nonce; and the commit or the rollback with
which `apply_action_receipt` (`runtime/runtime/src/lib.rs`) ends a receipt. The state is the
state update of `Store.TrieUpdate` over trie keys, and holds accounts and access keys as values
rather than as their borsh bytes: a value of the other kind at a key stands for bytes that do not
deserialize. Of a delegate action that passes, only the receipt it sends is kept here; its gas is
`applyDelegateAction` of `Runtime.ActionGas`. The checked `u128` operations are checked against
`2 ^ 128`; the `u64` product that bounds a nonce is taken unbounded. -/
namespace Nearcore.Runtime

open Store

/-- The fields of `Account` that the checks read and charge. -/
structure Account where
  amount : Nat
  locked : Nat
  storageUsage : Nat
  deriving DecidableEq

/-- A value of the state, deserialized: an account or an access key. -/
inductive StateRecord where
  | account (account : Account)
  | accessKey (accessKey : AccessKey)
  deriving DecidableEq

/-- The state update the checks read and write, with commit causes `C`. -/
abbrev State (C : Type) := TrieUpdate TrieKey StateRecord C

/-- `AccessKey::ACCESS_KEY_NONCE_RANGE_MULTIPLIER`. -/
def accessKeyNonceRangeMultiplier : Nat := 1000000

/-- `ZERO_BALANCE_ACCOUNT_STORAGE_LIMIT`. -/
def zeroBalanceAccountStorageLimit : Nat := 770

/-- The error of `get` for bytes that do not deserialize; the borsh error it formats is left out. -/
def deserializeError : StorageError := .storageInconsistentState "Failed to deserialize"

section State

variable {C : Type}

/-- `get_account`. -/
def getAccount (state : State C) (accountId : AccountId) : Except StorageError (Option Account) :=
  match state.get (.account accountId) with
  | none => .ok none
  | some (.account account) => .ok (some account)
  | some (.accessKey _) => .error deserializeError

/-- `get_access_key`. -/
def getAccessKey (state : State C) (accountId : AccountId) (publicKey : PublicKey) :
    Except StorageError (Option AccessKey) :=
  match state.get (.accessKey accountId publicKey) with
  | none => .ok none
  | some (.accessKey accessKey) => .ok (some accessKey)
  | some (.account _) => .error deserializeError

section
attribute [local simp] getAccessKey
end

/-- `set_access_key`. -/
def setAccessKey (state : State C) (accountId : AccountId) (publicKey : PublicKey) (accessKey : AccessKey) :
    State C :=
  state.set (.accessKey accountId publicKey) (.accessKey accessKey)

section
attribute [local simp] setAccessKey
end

@[simp] theorem getAccessKey_setAccessKey (state : State C) (accountId : AccountId) (publicKey : PublicKey)
    (accessKey : AccessKey) :
    getAccessKey (setAccessKey state accountId publicKey accessKey) accountId publicKey = .ok (some accessKey) := by
  rw [getAccessKey, setAccessKey, TrieUpdate.get_set_self]

end State

/-! ### The checks of a transaction -/

/-- The fields of a signed transaction that the checks read. -/
structure Transaction where
  signerId : AccountId
  publicKey : PublicKey
  nonce : Nat
  receiverId : AccountId
  actions : List Action

/-- `TransactionCost`. -/
structure TransactionCost where
  gasBurnt : Nat
  gasRemaining : Nat
  receiptGasPrice : Nat
  totalCost : Nat
  burntAmount : Nat

/-- `InvalidAccessKeyError`. -/
inductive InvalidAccessKeyError where
  | accessKeyNotFound (accountId : AccountId) (publicKey : PublicKey)
  | receiverMismatch (txReceiver akReceiver : AccountId)
  | methodNameMismatch (methodName : String)
  | requiresFullAccess
  | notEnoughAllowance (accountId : AccountId) (publicKey : PublicKey) (allowance cost : Nat)
  | depositWithFunctionCall

/-- The variants of `InvalidTxError` that `verify_and_charge_tx_ephemeral` gives. -/
inductive InvalidTxError where
  | invalidAccessKeyError (error : InvalidAccessKeyError)
  | signerDoesNotExist (signerId : AccountId)
  | invalidNonce (txNonce akNonce : Nat)
  | nonceTooLarge (txNonce upperBound : Nat)
  | notEnoughBalance (signerId : AccountId) (balance cost : Nat)
  | lackBalanceForState (signerId : AccountId) (amount : Nat)
  | storageError (error : StorageError)

/-- `StorageStakingError`. -/
inductive StorageStakingError where
  | lackBalanceForStorageStaking (amount : Nat)
  | storageError (message : String)

/-- `VerificationResult`. -/
structure VerificationResult where
  gasBurnt : Nat
  gasRemaining : Nat
  receiptGasPrice : Nat
  burntAmount : Nat
  signer : Account
  accessKey : AccessKey

/-- `is_zero_balance_account`. -/
def isZeroBalanceAccount (account : Account) : Bool := account.storageUsage ≤ zeroBalanceAccountStorageLimit

/-- `check_storage_stake`; `zeroBalanceAccount` is whether `ZeroBalanceAccount` is enabled in the
current protocol version. -/
def checkStorageStake (account : Account) (storageAmountPerByte : Nat) (zeroBalanceAccount : Bool) :
    Except StorageStakingError Unit := do
  let billableStorageBytes := account.storageUsage
  let requiredAmount ←
    if billableStorageBytes * storageAmountPerByte < 2 ^ 128 then pure (billableStorageBytes * storageAmountPerByte)
    else throw (.storageError
      ("Account\x27s billable storage usage " ++ toString billableStorageBytes ++ " overflows multiplication"))
  let availableAmount ←
    if account.amount + account.locked < 2 ^ 128 then pure (account.amount + account.locked)
    else throw (.storageError ("Account\x27s amount " ++ toString account.amount ++ " and locked " ++
      toString account.locked ++ " overflow addition"))
  if availableAmount ≥ requiredAmount then pure ()
  else if zeroBalanceAccount && isZeroBalanceAccount account then pure ()
  else throw (.lackBalanceForStorageStaking (requiredAmount - availableAmount))

/-- How `verify_and_charge_tx_ephemeral` reports a failed storage check. -/
def InvalidTxError.ofStorageStaking (signerId : AccountId) : StorageStakingError → InvalidTxError
  | .lackBalanceForStorageStaking amount => .lackBalanceForState signerId amount
  | .storageError message => .storageError (.storageInconsistentState message)

/-- The two nonce checks, of a transaction and of a delegate action: the nonce must be above the
key's, and below `height * ACCESS_KEY_NONCE_RANGE_MULTIPLIER` when a height is given. Each caller
fails with its own errors. -/
def checkNonce {ε : Type} (invalidNonce tooLarge : Nat → Nat → ε) (nonce akNonce : Nat)
    (blockHeight : Option Nat) : Except ε Unit := do
  if nonce ≤ akNonce then throw (invalidNonce nonce akNonce)
  if let some height := blockHeight then
    let upperBound := height * accessKeyNonceRangeMultiplier
    if nonce ≥ upperBound then throw (tooLarge nonce upperBound)

section
attribute [local simp] checkNonce
end

/-- The method check of both callers: the key names methods, and the called one is none of them. -/
def methodNameMismatch (methodNames : List String) (methodName : String) : Bool :=
  !methodNames.isEmpty && methodNames.all fun name => methodName != name

section
attribute [local simp] methodNameMismatch
end

/-- The restriction of a `FunctionCall` key in `verify_and_charge_tx_ephemeral`. -/
def checkFunctionCallPermission (permission : AccessKeyPermission) (receiverId : AccountId)
    (actions : List Action) : Except InvalidAccessKeyError Unit :=
  match permission with
  | .fullAccess => pure ()
  | .functionCall _ keyReceiverId methodNames =>
    if actions.length ≠ 1 then throw .requiresFullAccess
    else
      match actions.head? with
      | some (.nonDelegate (.functionCall functionCall)) =>
        if functionCall.deposit > 0 then throw .depositWithFunctionCall
        else if receiverId ≠ keyReceiverId then throw (.receiverMismatch receiverId keyReceiverId)
        else if methodNameMismatch methodNames functionCall.methodName then
          throw (.methodNameMismatch functionCall.methodName)
        else pure ()
      | _ => throw .requiresFullAccess

section
attribute [local simp] checkFunctionCallPermission
end

/-- Charging the signer's amount. -/
def chargeAmount (signerId : AccountId) (totalCost : Nat) (signer : Account) : Except InvalidTxError Account :=
  if totalCost ≤ signer.amount then pure { signer with amount := signer.amount - totalCost }
  else throw (.notEnoughBalance signerId signer.amount totalCost)

section
attribute [local simp] chargeAmount
end

/-- Charging a limited allowance. -/
def chargeAllowance (accountId : AccountId) (publicKey : PublicKey) (totalCost : Nat) (accessKey : AccessKey) :
    Except InvalidTxError AccessKey :=
  match accessKey.permission with
  | .functionCall (some allowance) receiverId methodNames =>
    if totalCost ≤ allowance then
      pure { accessKey with permission := .functionCall (some (allowance - totalCost)) receiverId methodNames }
    else throw (.invalidAccessKeyError (.notEnoughAllowance accountId publicKey allowance totalCost))
  | _ => pure accessKey

section
attribute [local simp] chargeAllowance
end

end Nearcore.Runtime

/-! ### What a key allows -/

namespace Nearcore

/-- What a key's permission lets a signer do: anything with full access; with a function-call
permission, one function call with no deposit, to the key's receiver, and to one of the key's
methods if it names any. -/
def AccessKeyPermission.Authorises : AccessKeyPermission → AccountId → List Action → Prop
  | .fullAccess, _, _ => True
  | .functionCall _ keyReceiverId methodNames, receiverId, actions =>
    ∃ functionCall, actions = [.nonDelegate (.functionCall functionCall)] ∧ functionCall.deposit = 0 ∧
      receiverId = keyReceiverId ∧ (methodNames ≠ [] → functionCall.methodName ∈ methodNames)

section
attribute [local simp] AccessKeyPermission.Authorises
end

/-- A permission after a charge of `cost`: a limited allowance less exactly the cost, which it
covers, and otherwise the permission as it was. -/
def AccessKeyPermission.ChargedBy (before after : AccessKeyPermission) (cost : Nat) : Prop :=
  match before with
  | .functionCall (some allowance) receiverId methodNames =>
    cost ≤ allowance ∧ after = .functionCall (some (allowance - cost)) receiverId methodNames
  | _ => after = before

section
attribute [local simp] AccessKeyPermission.ChargedBy
end

/-- A charge leaves what the key allows as it was: only the allowance changes. -/
theorem AccessKeyPermission.ChargedBy.authorises_iff {before after : AccessKeyPermission} {cost : Nat}
    (charged : before.ChargedBy after cost) (receiverId : AccountId) (actions : List Action) :
    after.Authorises receiverId actions ↔ before.Authorises receiverId actions := by
  unfold ChargedBy at charged
  split at charged
  · rw [charged.2]
    rfl
  · rw [charged]

end Nearcore

namespace Nearcore.Runtime

open Store

theorem checkNonce_eq_ok {ε : Type} {invalidNonce tooLarge : Nat → Nat → ε} {nonce akNonce : Nat}
    {blockHeight : Option Nat} :
    checkNonce invalidNonce tooLarge nonce akNonce blockHeight = .ok () ↔
      akNonce < nonce ∧ ∀ height, blockHeight = some height → nonce < height * accessKeyNonceRangeMultiplier := by
  unfold checkNonce
  by_cases stale : nonce ≤ akNonce
  · simp [stale]
  · cases blockHeight with
    | none =>
      simp [stale]
      omega
    | some height =>
      by_cases large : nonce ≥ height * accessKeyNonceRangeMultiplier
      · simp [stale, large]
      · simp [stale, large]
        omega

theorem methodNameMismatch_eq_false {methodNames : List String} {methodName : String} :
    methodNameMismatch methodNames methodName = false ↔ (methodNames ≠ [] → methodName ∈ methodNames) := by
  cases methodNames with
  | nil => simp [methodNameMismatch]
  | cons name names =>
    simp only [methodNameMismatch, List.isEmpty_cons, List.all_cons, ne_eq, reduceCtorEq, not_false_eq_true,
      List.mem_cons, forall_const]
    simp [or_iff_not_imp_left]

/-- The transaction's permission check passes exactly when the key allows the actions. -/
theorem checkFunctionCallPermission_eq_ok {permission : AccessKeyPermission} {receiverId : AccountId}
    {actions : List Action} :
    checkFunctionCallPermission permission receiverId actions = .ok () ↔ permission.Authorises receiverId actions := by
  cases permission with
  | fullAccess => simp [checkFunctionCallPermission, AccessKeyPermission.Authorises]
  | functionCall allowance keyReceiverId methodNames =>
    simp only [checkFunctionCallPermission, AccessKeyPermission.Authorises]
    match actions with
    | [] => simp
    | _ :: _ :: _ => simp
    | [.nonDelegate (.functionCall functionCall)] =>
      simp only [List.length_singleton, ne_eq, not_true_eq_false, if_false, List.head?_cons,
        List.cons.injEq, Action.nonDelegate.injEq, NonDelegateAction.functionCall.injEq, and_true,
        exists_eq_left']
      by_cases deposit : functionCall.deposit > 0
      · exact iff_of_false (by simp [deposit]) fun ⟨noDeposit, _⟩ => by omega
      · have noDeposit : functionCall.deposit = 0 := by omega
        by_cases receiver : receiverId = keyReceiverId
        · cases mismatch : methodNameMismatch methodNames functionCall.methodName
          · exact iff_of_true (by simp [deposit, receiver])
              ⟨noDeposit, receiver, methodNameMismatch_eq_false.mp mismatch⟩
          · refine iff_of_false (by simp [deposit, receiver]) fun ⟨_, _, named⟩ => ?_
            simp [methodNameMismatch_eq_false.mpr named] at mismatch
        · exact iff_of_false (by simp [deposit, receiver]) fun ⟨_, same, _⟩ => receiver same
    | [.delegate _] => simp
    | [.nonDelegate (.createAccount)] | [.nonDelegate (.deployContract _)] | [.nonDelegate (.transfer _)]
    | [.nonDelegate (.stake _ _)] | [.nonDelegate (.addKey _ _)] | [.nonDelegate (.deleteKey _)]
    | [.nonDelegate (.deleteAccount _)] | [.nonDelegate (.deployGlobalContract _ _)]
    | [.nonDelegate (.useGlobalContract _)] => simp

theorem chargeAmount_eq_ok {signerId : AccountId} {totalCost : Nat} {signer charged : Account}
    (ok : chargeAmount signerId totalCost signer = .ok charged) :
    totalCost ≤ signer.amount ∧ charged = { signer with amount := signer.amount - totalCost } := by
  unfold chargeAmount at ok
  split at ok
  · rename_i covered
    cases ok
    exact ⟨covered, rfl⟩
  · cases ok

/-- A charge that succeeds keeps the nonce and charges the permission by the cost. -/
theorem chargeAllowance_eq_ok {accountId : AccountId} {publicKey : PublicKey} {totalCost : Nat}
    {accessKey charged : AccessKey}
    (ok : chargeAllowance accountId publicKey totalCost accessKey = .ok charged) :
    charged.nonce = accessKey.nonce ∧ accessKey.permission.ChargedBy charged.permission totalCost := by
  unfold chargeAllowance at ok
  unfold AccessKeyPermission.ChargedBy
  rcases accessKey with ⟨nonce, permission⟩
  cases permission with
  | fullAccess =>
    cases ok
    exact ⟨rfl, rfl⟩
  | functionCall allowance receiverId methodNames =>
    cases allowance with
    | none =>
      cases ok
      exact ⟨rfl, rfl⟩
    | some allowance =>
      simp only at ok
      split at ok
      · rename_i covered
        cases ok
        exact ⟨rfl, covered, rfl⟩
      · cases ok

section Verify

variable {C : Type}

/-- `verify_and_charge_tx_ephemeral`. `blockHeight` is `none` where the caller only asks whether
the transaction could be charged. -/
def verifyAndChargeTxEphemeral (storageAmountPerByte : Nat) (zeroBalanceAccount : Bool) (state : State C)
    (tx : Transaction) (transactionCost : TransactionCost) (blockHeight : Option Nat) :
    Except InvalidTxError VerificationResult := do
  let some signer ← (getAccount state tx.signerId).mapError .storageError
    | throw (.signerDoesNotExist tx.signerId)
  let some accessKey ← (getAccessKey state tx.signerId tx.publicKey).mapError .storageError
    | throw (.invalidAccessKeyError (.accessKeyNotFound tx.signerId tx.publicKey))
  checkNonce .invalidNonce .nonceTooLarge tx.nonce accessKey.nonce blockHeight
  let accessKey := { accessKey with nonce := tx.nonce }
  let signer ← chargeAmount tx.signerId transactionCost.totalCost signer
  let accessKey ← chargeAllowance tx.signerId tx.publicKey transactionCost.totalCost accessKey
  (checkStorageStake signer storageAmountPerByte zeroBalanceAccount).mapError
    (InvalidTxError.ofStorageStaking tx.signerId)
  (checkFunctionCallPermission accessKey.permission tx.receiverId tx.actions).mapError .invalidAccessKeyError
  pure { gasBurnt := transactionCost.gasBurnt, gasRemaining := transactionCost.gasRemaining,
         receiptGasPrice := transactionCost.receiptGasPrice, burntAmount := transactionCost.burntAmount,
         signer, accessKey }

section
attribute [local simp] verifyAndChargeTxEphemeral
end

/-- What an accepted transaction leaves of its signer and its key: the key allows the actions;
the key's nonce becomes the transaction's, which is above the old one and below the height's
range; and the cost, which the amount covers, is taken from the amount and from a limited
allowance. -/
structure TxCharged (signer : Account) (accessKey : AccessKey) (tx : Transaction) (cost : TransactionCost)
    (blockHeight : Option Nat) (result : VerificationResult) : Prop where
  authorised : accessKey.permission.Authorises tx.receiverId tx.actions
  nonce_lt_nonce : accessKey.nonce < tx.nonce
  nonce_lt_bound : ∀ height, blockHeight = some height → tx.nonce < height * accessKeyNonceRangeMultiplier
  newNonce : result.accessKey.nonce = tx.nonce
  covered : cost.totalCost ≤ signer.amount
  newAmount : result.signer.amount = signer.amount - cost.totalCost
  allowance : accessKey.permission.ChargedBy result.accessKey.permission cost.totalCost

/-- An accepted transaction found its signer and key, and charged them as `TxCharged` says; the
checks are peeled off in the order the source makes them. -/
theorem verifyAndChargeTxEphemeral_eq_ok {storageAmountPerByte : Nat} {zeroBalanceAccount : Bool}
    {state : State C} {tx : Transaction} {cost : TransactionCost} {blockHeight : Option Nat}
    {result : VerificationResult}
    (accepted : verifyAndChargeTxEphemeral storageAmountPerByte zeroBalanceAccount state tx cost blockHeight =
      .ok result) :
    ∃ signer accessKey, getAccount state tx.signerId = .ok (some signer) ∧
      getAccessKey state tx.signerId tx.publicKey = .ok (some accessKey) ∧
      TxCharged signer accessKey tx cost blockHeight result := by
  dsimp only [verifyAndChargeTxEphemeral] at accepted
  obtain ⟨found, gotSigner, accepted⟩ := Except.bind_eq_ok accepted
  rcases found with _ | signer
  · cases accepted
  obtain ⟨found, gotKey, accepted⟩ := Except.bind_eq_ok accepted
  rcases found with _ | accessKey
  · cases accepted
  obtain ⟨⟨⟩, nonceChecked, accepted⟩ := Except.bind_eq_ok accepted
  obtain ⟨charged, signerCharged, accepted⟩ := Except.bind_eq_ok accepted
  obtain ⟨chargedKey, keyCharged, accepted⟩ := Except.bind_eq_ok accepted
  obtain ⟨⟨⟩, -, accepted⟩ := Except.bind_eq_ok accepted
  obtain ⟨⟨⟩, permitted, accepted⟩ := Except.bind_eq_ok accepted
  cases accepted
  obtain ⟨covered, rfl⟩ := chargeAmount_eq_ok signerCharged
  obtain ⟨fresh, bounded⟩ := checkNonce_eq_ok.mp nonceChecked
  obtain ⟨keptNonce, allowance⟩ := chargeAllowance_eq_ok keyCharged
  refine ⟨signer, accessKey, Except.mapError_eq_ok.mp gotSigner, Except.mapError_eq_ok.mp gotKey,
    ⟨?_, fresh, bounded, keptNonce, covered, rfl, allowance⟩⟩
  exact (allowance.authorises_iff _ _).mp (checkFunctionCallPermission_eq_ok.mp (Except.mapError_eq_ok.mp permitted))

end Verify

/-! ### The checks of a delegate action -/

/-- The variants of `ActionErrorKind` that a delegate action gives. -/
inductive ActionErrorKind where
  | delegateActionInvalidSignature
  | delegateActionExpired
  | delegateActionSenderDoesNotMatchTxReceiver (senderId receiverId : AccountId)
  | delegateActionAccessKeyError (error : InvalidAccessKeyError)
  | delegateActionInvalidNonce (delegateNonce akNonce : Nat)
  | delegateActionNonceTooLarge (delegateNonce upperBound : Nat)

/-- The restriction of a `FunctionCall` key in `validate_delegate_action_key`. Unlike the
transaction's check, a deposit sets the result to its error without returning, so that the
checks after it still run, and return their own error in its place: `.error` is a check that
returned, and `.ok (some error)` the deposit error left in the result. -/
def checkDelegatePermission (permission : AccessKeyPermission) (receiverId : AccountId) (actions : List Action) :
    Except InvalidAccessKeyError (Option InvalidAccessKeyError) :=
  match permission with
  | .fullAccess => pure none
  | .functionCall _ keyReceiverId methodNames =>
    if actions.length ≠ 1 then throw .requiresFullAccess
    else
      match actions.head? with
      | some (.nonDelegate (.functionCall functionCall)) =>
        let deposit := if functionCall.deposit > 0 then some .depositWithFunctionCall else none
        if receiverId ≠ keyReceiverId then throw (.receiverMismatch receiverId keyReceiverId)
        else if methodNameMismatch methodNames functionCall.methodName then
          throw (.methodNameMismatch functionCall.methodName)
        else pure deposit
      | _ => throw .requiresFullAccess

section
attribute [local simp] checkDelegatePermission
end

/-- The two checks accept the same actions: the delegate's passes with no error left in the
result exactly when the transaction's passes. -/
theorem checkDelegatePermission_eq_ok_none {permission : AccessKeyPermission} {receiverId : AccountId}
    {actions : List Action} :
    checkDelegatePermission permission receiverId actions = .ok none ↔
      checkFunctionCallPermission permission receiverId actions = .ok () := by
  cases permission with
  | fullAccess => simp [checkDelegatePermission, checkFunctionCallPermission]
  | functionCall allowance keyReceiverId methodNames =>
    simp only [checkDelegatePermission, checkFunctionCallPermission]
    split
    · simp
    · split
      · rename_i functionCall _
        by_cases deposit : functionCall.deposit > 0 <;> by_cases receiver : receiverId = keyReceiverId <;>
          cases methodNameMismatch methodNames functionCall.methodName <;> simp [deposit, receiver]
      · simp

section Delegate

variable {C : Type}

/-- `validate_delegate_action_key`: the state after it and the result it leaves. -/
def validateDelegateActionKey (state : State C) (blockHeight : Nat) (delegateAction : DelegateAction) :
    Except StorageError (State C × Except ActionErrorKind Unit) := do
  let some accessKey ← getAccessKey state delegateAction.senderId delegateAction.publicKey
    | pure (state, .error (.delegateActionAccessKeyError
        (.accessKeyNotFound delegateAction.senderId delegateAction.publicKey)))
  match checkNonce .delegateActionInvalidNonce .delegateActionNonceTooLarge delegateAction.nonce accessKey.nonce
      (some blockHeight) with
  | .error error => pure (state, .error error)
  | .ok () =>
    let accessKey := { accessKey with nonce := delegateAction.nonce }
    match checkDelegatePermission accessKey.permission delegateAction.receiverId delegateAction.getActions with
    | .error error => pure (state, .error (.delegateActionAccessKeyError error))
    | .ok deposit =>
      -- the key is written even when a deposit was recorded as the error
      pure (setAccessKey state delegateAction.senderId delegateAction.publicKey accessKey,
        match deposit with
        | some error => .error (.delegateActionAccessKeyError error)
        | none => .ok ())

section
attribute [local simp] validateDelegateActionKey
end

/-- The receipt a delegate action that passes sends: from the sender, to the delegate action's
receiver, with its actions. -/
structure DelegatedReceipt where
  predecessorId : AccountId
  receiverId : AccountId
  actions : List Action

/-- `apply_delegate_action`, up to the receipt it sends. `senderId` is the receiver of the receipt
that holds the delegate action, and `signatureValid` whether its signature verifies. -/
def applyDelegateAction (state : State C) (blockHeight : Nat) (senderId : AccountId)
    (delegateAction : DelegateAction) (signatureValid : Bool) :
    Except StorageError (State C × Except ActionErrorKind DelegatedReceipt) :=
  if !signatureValid then pure (state, .error .delegateActionInvalidSignature)
  else if blockHeight > delegateAction.maxBlockHeight then pure (state, .error .delegateActionExpired)
  else if delegateAction.senderId ≠ senderId then
    pure (state, .error (.delegateActionSenderDoesNotMatchTxReceiver delegateAction.senderId senderId))
  else do
    let (state, result) ← validateDelegateActionKey state blockHeight delegateAction
    match result with
    | .error error => pure (state, .error error)
    | .ok () => pure (state, .ok ⟨senderId, delegateAction.receiverId, delegateAction.getActions⟩)

section
attribute [local simp] applyDelegateAction
end

/-- What a delegate action that passes found of its key: the key allows the delegated actions, and
the delegate nonce is above the key's and below the height's range. -/
structure DelegateAccepted (accessKey : AccessKey) (delegateAction : DelegateAction) (blockHeight : Nat) :
    Prop where
  authorised : accessKey.permission.Authorises delegateAction.receiverId delegateAction.getActions
  nonce_lt_nonce : accessKey.nonce < delegateAction.nonce
  nonce_lt_bound : delegateAction.nonce < blockHeight * accessKeyNonceRangeMultiplier

/-- The key check of a delegate action writes at most the key. -/
theorem validateDelegateActionKey_frame {state state' : State C} {blockHeight : Nat}
    {delegateAction : DelegateAction} {result : Except ActionErrorKind Unit}
    (validated : validateDelegateActionKey state blockHeight delegateAction = .ok (state', result)) :
    TrieUpdate.Frame state state' := by
  dsimp only [validateDelegateActionKey] at validated
  obtain ⟨found, -, validated⟩ := Except.bind_eq_ok validated
  rcases found with _ | accessKey
  · cases validated
    exact .refl _
  dsimp only at validated
  split at validated
  next => cases validated; exact .refl _
  next =>
    split at validated
    next => cases validated; exact .refl _
    next => cases validated; exact TrieUpdate.frame_set _ _ _

/-- A key check that leaves `Ok` found the key, which allows the actions and whose nonce the
delegate nonce passes, and wrote the key back with the delegate nonce. -/
theorem validateDelegateActionKey_eq_ok {state state' : State C} {blockHeight : Nat}
    {delegateAction : DelegateAction}
    (validated : validateDelegateActionKey state blockHeight delegateAction = .ok (state', .ok ())) :
    ∃ accessKey, getAccessKey state delegateAction.senderId delegateAction.publicKey = .ok (some accessKey) ∧
      DelegateAccepted accessKey delegateAction blockHeight ∧
      state' = setAccessKey state delegateAction.senderId delegateAction.publicKey
        { accessKey with nonce := delegateAction.nonce } := by
  dsimp only [validateDelegateActionKey] at validated
  obtain ⟨found, got, validated⟩ := Except.bind_eq_ok validated
  rcases found with _ | accessKey
  · cases validated
  dsimp only at validated
  split at validated
  next => cases validated
  next nonceChecked =>
    split at validated
    next => cases validated
    next deposit permitted =>
      cases deposit with
      | some error => cases validated
      | none =>
        cases validated
        obtain ⟨fresh, bounded⟩ := checkNonce_eq_ok.mp nonceChecked
        have authorised := checkFunctionCallPermission_eq_ok.mp (checkDelegatePermission_eq_ok_none.mp permitted)
        exact ⟨accessKey, got, ⟨authorised, fresh, bounded blockHeight rfl⟩, rfl⟩

/-- Where the transaction's check would return the deposit error and the other checks pass, the
delegate's check leaves the error in the result and still writes the key with the new nonce: the
write is undone only by the rollback of the receipt. -/
theorem validateDelegateActionKey_deposit_writes {state : State C} {blockHeight : Nat}
    {delegateAction : DelegateAction} {accessKey : AccessKey} {allowance : Option Nat}
    {methodNames : List String} {functionCall : FunctionCallAction}
    (found : getAccessKey state delegateAction.senderId delegateAction.publicKey = .ok (some accessKey))
    (fresh : accessKey.nonce < delegateAction.nonce)
    (bounded : delegateAction.nonce < blockHeight * accessKeyNonceRangeMultiplier)
    (permission : accessKey.permission = .functionCall allowance delegateAction.receiverId methodNames)
    (single : delegateAction.actions = [.functionCall functionCall]) (deposit : 0 < functionCall.deposit)
    (named : methodNameMismatch methodNames functionCall.methodName = false) :
    validateDelegateActionKey state blockHeight delegateAction =
      .ok (setAccessKey state delegateAction.senderId delegateAction.publicKey
          { accessKey with nonce := delegateAction.nonce },
        .error (.delegateActionAccessKeyError .depositWithFunctionCall)) := by
  have nonceChecked : checkNonce ActionErrorKind.delegateActionInvalidNonce
      ActionErrorKind.delegateActionNonceTooLarge delegateAction.nonce accessKey.nonce (some blockHeight) = .ok () :=
    checkNonce_eq_ok.mpr ⟨fresh, fun _ same => Option.some.inj same ▸ bounded⟩
  have permitted : checkDelegatePermission accessKey.permission delegateAction.receiverId delegateAction.getActions =
      .ok (some .depositWithFunctionCall) := by
    simp [checkDelegatePermission, permission, DelegateAction.getActions, single, deposit, named]
  simp only [validateDelegateActionKey, found, Except.ok_bind, nonceChecked, permitted]
  rfl

/-- A delegate action writes at most its key. -/
theorem applyDelegateAction_frame {state state' : State C} {blockHeight : Nat} {senderId : AccountId}
    {delegateAction : DelegateAction} {signatureValid : Bool} {result : Except ActionErrorKind DelegatedReceipt}
    (applied : applyDelegateAction state blockHeight senderId delegateAction signatureValid = .ok (state', result)) :
    TrieUpdate.Frame state state' := by
  unfold applyDelegateAction at applied
  split at applied
  · cases applied
    exact .refl _
  split at applied
  · cases applied
    exact .refl _
  split at applied
  · cases applied
    exact .refl _
  obtain ⟨⟨checked, checkResult⟩, validated, applied⟩ := Except.bind_eq_ok applied
  have frame := validateDelegateActionKey_frame validated
  dsimp only at applied
  split at applied
  next => cases applied; exact frame
  next => cases applied; exact frame

/-- A delegate action whose result is `Ok` had a valid signature, had not expired, came from the
receipt's receiver, and passed the key check: it wrote only its key, with the delegate nonce, and
sends the delegated actions on. -/
theorem applyDelegateAction_eq_ok {state state' : State C} {blockHeight : Nat} {senderId : AccountId}
    {delegateAction : DelegateAction} {signatureValid : Bool} {receipt : DelegatedReceipt}
    (applied : applyDelegateAction state blockHeight senderId delegateAction signatureValid = .ok (state', .ok receipt)) :
    signatureValid = true ∧ blockHeight ≤ delegateAction.maxBlockHeight ∧ delegateAction.senderId = senderId ∧
      (∃ accessKey, getAccessKey state delegateAction.senderId delegateAction.publicKey = .ok (some accessKey) ∧
        DelegateAccepted accessKey delegateAction blockHeight ∧
        state' = setAccessKey state delegateAction.senderId delegateAction.publicKey
          { accessKey with nonce := delegateAction.nonce }) ∧
      receipt = ⟨senderId, delegateAction.receiverId, delegateAction.getActions⟩ := by
  unfold applyDelegateAction at applied
  split at applied
  · cases applied
  rename_i signed
  split at applied
  · cases applied
  rename_i live
  split at applied
  · cases applied
  rename_i sender
  obtain ⟨⟨checked, checkResult⟩, validated, applied⟩ := Except.bind_eq_ok applied
  dsimp only at applied
  split at applied
  next => cases applied
  next =>
    cases applied
    exact ⟨by simpa using signed, by omega, by simpa using sender, validateDelegateActionKey_eq_ok validated, rfl⟩

end Delegate

/-! ### The receipt -/

section Receipt

variable {C : Type}

/-- A step of a receipt that only writes to the state update: it neither commits nor rolls back. -/
def OnlyWrites {ε : Type} (step : State C → Except ε (State C × Bool)) : Prop :=
  ∀ state result, step state = .ok result → TrieUpdate.Frame state result.1

/-- `apply_action` as the state sees it: the state update after the action, and whether its
result is `Ok`. `admitted` is whether the receiver's account and the actor may run the action
(`check_account_existence`, `check_actor_permissions`), which read nothing of the state update;
the actions other than a delegate action are `applyNonDelegate`. -/
def applyActionState (applyNonDelegate : NonDelegateAction → State C → Except StorageError (State C × Bool))
    (admitted : Action → Bool) (blockHeight : Nat) (receiverId : AccountId) (signatureValid : DelegateAction → Bool)
    (action : Action) (state : State C) : Except StorageError (State C × Bool) :=
  if !admitted action then pure (state, false)
  else
    match action with
    | .nonDelegate action => applyNonDelegate action state
    | .delegate delegateAction => do
      let (state, result) ← applyDelegateAction state blockHeight receiverId delegateAction (signatureValid delegateAction)
      pure (state, result.isOk)

section
attribute [local simp] applyActionState
end

/-- The loop of `apply_action_receipt`: the actions in order, up to the first whose result is an
error. -/
def applyActionsState (step : Action → State C → Except StorageError (State C × Bool)) :
    List Action → State C → Except StorageError (State C × Bool)
  | [], state => pure (state, true)
  | action :: actions, state => do
    let (state, succeeded) ← step action state
    if succeeded then applyActionsState step actions state else pure (state, false)

section
attribute [local simp] applyActionsState
end

/-- The state side of `apply_action_receipt`: it commits what came before the receipt, runs the
actions, lets `finish` (the storage check, which writes the account when it passes) run after
actions that all succeeded, and then commits the receipt's changes when its result is `Ok` and
rolls them back when it is not. -/
def applyActionReceiptState (step : Action → State C → Except StorageError (State C × Bool))
    (finish : State C → Except StorageError (State C × Bool)) (started processed : C) (actions : List Action)
    (state : State C) : Except StorageError (State C) := do
  let state := state.commit started
  let (state, succeeded) ← applyActionsState step actions state
  let (state, succeeded) ← if succeeded then finish state else pure (state, false)
  pure (if succeeded then state.commit processed else state.rollback)

section
attribute [local simp] applyActionReceiptState
end

/-- A loop of steps that only write only writes. -/
theorem applyActionsState_frame {step : Action → State C → Except StorageError (State C × Bool)}
    (writes : ∀ action, OnlyWrites (step action)) :
    ∀ (actions : List Action) (state : State C) (result : State C × Bool),
      applyActionsState step actions state = .ok result → TrieUpdate.Frame state result.1
  | [], state, result, ran => by
    cases ran
    exact .refl _
  | action :: actions, state, result, ran => by
    obtain ⟨⟨next, succeeded⟩, stepped, ran⟩ := Except.bind_eq_ok ran
    have first := writes action state _ stepped
    dsimp only at ran
    split at ran
    next => exact first.trans (applyActionsState_frame writes actions next result ran)
    next =>
      cases ran
      exact first

/-- A loop fails where it reaches a step that fails: either the actions before that step all
succeed and the step fails, or one of them fails first. -/
theorem applyActionsState_fails_at {step : Action → State C → Except StorageError (State C × Bool)}
    {action : Action} {after : List Action} :
    ∀ (before : List Action) (state : State C) (result : State C × Bool),
      (∀ reached, applyActionsState step before state = .ok (reached, true) →
        ∃ later, step action reached = .ok (later, false)) →
      applyActionsState step (before ++ action :: after) state = .ok result → result.2 = false
  | [], state, result, fails, ran => by
    obtain ⟨later, failed⟩ := fails state rfl
    rw [List.nil_append, applyActionsState, failed, Except.ok_bind] at ran
    cases ran
    rfl
  | first :: before, state, result, fails, ran => by
    obtain ⟨⟨next, succeeded⟩, stepped, ran⟩ := Except.bind_eq_ok ran
    dsimp only at ran
    split at ran
    next continued =>
      -- the first action succeeded: the step is reached from where it left the state
      refine applyActionsState_fails_at before next result (fun reached reachedOk => fails reached ?_) ran
      rw [applyActionsState, stepped, Except.ok_bind]
      dsimp only
      rw [if_pos continued]
      exact reachedOk
    next =>
      cases ran
      rfl

variable {applyNonDelegate : NonDelegateAction → State C → Except StorageError (State C × Bool)}
  {admitted : Action → Bool} {blockHeight : Nat} {receiverId : AccountId} {signatureValid : DelegateAction → Bool}

/-- Where the other actions only write, every action of a receipt only writes. -/
theorem applyActionState_onlyWrites (writes : ∀ action, OnlyWrites (applyNonDelegate action)) (action : Action) :
    OnlyWrites (applyActionState applyNonDelegate admitted blockHeight receiverId signatureValid action) := by
  intro state result applied
  unfold applyActionState at applied
  split at applied
  next =>
    cases applied
    exact .refl _
  next =>
    cases action with
    | nonDelegate action => exact writes action state result applied
    | delegate delegateAction =>
      obtain ⟨⟨next, delegated⟩, done, applied⟩ := Except.bind_eq_ok applied
      cases applied
      exact applyDelegateAction_frame done

/-- A rejected delegate action fails its step of the receipt. -/
theorem applyActionState_of_rejected {state later : State C} {delegateAction : DelegateAction}
    {error : ActionErrorKind}
    (rejected : applyDelegateAction state blockHeight receiverId delegateAction (signatureValid delegateAction) =
      .ok (later, .error error)) :
    ∃ after, applyActionState applyNonDelegate admitted blockHeight receiverId signatureValid
      (.delegate delegateAction) state = .ok (after, false) := by
  unfold applyActionState
  split
  next => exact ⟨state, rfl⟩
  next =>
    dsimp only
    rw [rejected]
    exact ⟨later, rfl⟩

/-- A receipt whose actions fail is rolled back: every read after it sees what it saw once the
receipt had started, whatever its actions wrote before one failed. -/
theorem applyActionReceiptState_rolled_back {step : Action → State C → Except StorageError (State C × Bool)}
    {finish : State C → Except StorageError (State C × Bool)} {started processed : C}
    {actions : List Action} {state state' : State C} (writes : ∀ action, OnlyWrites (step action))
    (failed : ∀ result, applyActionsState step actions (state.commit started) = .ok result → result.2 = false)
    (applied : applyActionReceiptState step finish started processed actions state = .ok state') (key : TrieKey) :
    state'.get key = (state.commit started).get key := by
  dsimp only [applyActionReceiptState] at applied
  obtain ⟨⟨ran, succeeded⟩, loop, applied⟩ := Except.bind_eq_ok applied
  have unsucceeded : succeeded = false := failed _ loop
  subst unsucceeded
  -- with the actions failed, the storage check does not run and the receipt rolls back
  cases applied
  exact (applyActionsState_frame writes actions _ _ loop).rollback_get key

end Receipt

/-! ### Access keys stay within their permission -/

/-- A transaction that `verify_and_charge_tx_ephemeral` accepts was signed with a key that allows
its actions, and charges the key and the signer as `TxCharged` says; a delegate action whose
result is `Ok` was signed with a key that allows the delegated actions, and writes only the key,
with the delegate nonce; and a receipt in which a delegate action is rejected is rolled back, so
that every read after it sees the state the receipt started from, the key's nonce included. -/
theorem accessKeys_within_permission {C : Type} :
    (∀ (storageAmountPerByte : Nat) (zeroBalanceAccount : Bool) (state : State C) (tx : Transaction)
        (cost : TransactionCost) (blockHeight : Option Nat) (result : VerificationResult),
      verifyAndChargeTxEphemeral storageAmountPerByte zeroBalanceAccount state tx cost blockHeight = .ok result →
      ∃ signer accessKey, getAccount state tx.signerId = .ok (some signer) ∧
        getAccessKey state tx.signerId tx.publicKey = .ok (some accessKey) ∧
        TxCharged signer accessKey tx cost blockHeight result) ∧
    (∀ (state state' : State C) (blockHeight : Nat) (senderId : AccountId) (delegateAction : DelegateAction)
        (signatureValid : Bool) (receipt : DelegatedReceipt),
      applyDelegateAction state blockHeight senderId delegateAction signatureValid = .ok (state', .ok receipt) →
      ∃ accessKey, getAccessKey state delegateAction.senderId delegateAction.publicKey = .ok (some accessKey) ∧
        DelegateAccepted accessKey delegateAction blockHeight ∧
        state' = setAccessKey state delegateAction.senderId delegateAction.publicKey
          { accessKey with nonce := delegateAction.nonce } ∧
        getAccessKey state' delegateAction.senderId delegateAction.publicKey =
          .ok (some { accessKey with nonce := delegateAction.nonce })) ∧
    (∀ (applyNonDelegate : NonDelegateAction → State C → Except StorageError (State C × Bool))
        (admitted : Action → Bool) (blockHeight : Nat) (receiverId : AccountId)
        (signatureValid : DelegateAction → Bool) (finish : State C → Except StorageError (State C × Bool))
        (started processed : C) (before after : List Action) (delegateAction : DelegateAction)
        (state state' : State C),
      (∀ action, OnlyWrites (applyNonDelegate action)) →
      (∀ reached, applyActionsState (applyActionState applyNonDelegate admitted blockHeight receiverId signatureValid)
          before (state.commit started) = .ok (reached, true) →
        ∃ later error, applyDelegateAction reached blockHeight receiverId delegateAction (signatureValid delegateAction) =
          .ok (later, .error error)) →
      applyActionReceiptState (applyActionState applyNonDelegate admitted blockHeight receiverId signatureValid) finish
          started processed (before ++ .delegate delegateAction :: after) state = .ok state' →
      ∀ key, state'.get key = (state.commit started).get key) := by
  refine ⟨fun _ _ _ _ _ _ _ accepted => verifyAndChargeTxEphemeral_eq_ok accepted, ?_, ?_⟩
  · intro state state' blockHeight senderId delegateAction signatureValid receipt applied
    obtain ⟨-, -, -, ⟨accessKey, found, accepted, written⟩, -⟩ := applyDelegateAction_eq_ok applied
    refine ⟨accessKey, found, accepted, written, ?_⟩
    rw [written, getAccessKey_setAccessKey]
  · intro applyNonDelegate admitted blockHeight receiverId signatureValid finish started processed before after
      delegateAction state state' writes rejected applied
    apply applyActionReceiptState_rolled_back (applyActionState_onlyWrites writes) _ applied
    intro result ran
    refine applyActionsState_fails_at before _ result (fun reached reachedOk => ?_) ran
    obtain ⟨later, error, refused⟩ := rejected reached reachedOk
    exact applyActionState_of_rejected refused

/-- The account `a`, which holds a key that may call `go` on the account `b` with an allowance of
100, and what the witness below sends with it. -/
def alice : AccountId := AccountId.ofLetter 97 AccountId.lower_a

def bob : AccountId := AccountId.ofLetter 98 AccountId.lower_b

def aliceKey : PublicKey := .ed25519 (Vector.replicate 32 0)

def aliceAccessKey : AccessKey := ⟨5, .functionCall (some 100) bob ["go"]⟩

def aliceState : State Unit := TrieUpdate.new fun key =>
  if key = .account alice then some (.account ⟨1000, 0, 100⟩)
  else if key = .accessKey alice aliceKey then some (.accessKey aliceAccessKey)
  else none

/-- A delegate action of `a` that calls `go` on `b` with the given deposit. -/
def delegateGo (deposit : Nat) : DelegateAction :=
  ⟨alice, bob, [.functionCall ⟨"go", [], 10, deposit⟩], 8, 20, aliceKey⟩

/-- The transaction of `a` that calls `go` on `b`. -/
def aliceTx : Transaction := ⟨alice, aliceKey, 7, bob, [.nonDelegate (.functionCall ⟨"go", [], 10, 0⟩)]⟩

/-- A call of `go` charged 30: the amount and the allowance drop by 30 and the nonce becomes 7; a
delegate call with no deposit passes and writes the nonce 8; and a receipt whose delegate call
carries a deposit writes the nonce, is rejected, and reads as it started. -/
theorem accessKeys_within_permission_go :
    (verifyAndChargeTxEphemeral 1 true aliceState aliceTx ⟨0, 0, 0, 30, 0⟩ (some 10) =
        .ok ⟨0, 0, 0, 0, ⟨970, 0, 100⟩, ⟨7, .functionCall (some 70) bob ["go"]⟩⟩ ∧
      ∃ signer accessKey, getAccount aliceState alice = .ok (some signer) ∧
        getAccessKey aliceState alice aliceKey = .ok (some accessKey) ∧
        TxCharged signer accessKey aliceTx ⟨0, 0, 0, 30, 0⟩ (some 10)
          ⟨0, 0, 0, 0, ⟨970, 0, 100⟩, ⟨7, .functionCall (some 70) bob ["go"]⟩⟩) ∧
    (applyDelegateAction aliceState 10 alice (delegateGo 0) true =
        .ok (setAccessKey aliceState alice aliceKey ⟨8, aliceAccessKey.permission⟩,
          .ok ⟨alice, bob, (delegateGo 0).getActions⟩) ∧
      ∃ accessKey, getAccessKey aliceState alice aliceKey = .ok (some accessKey) ∧
        DelegateAccepted accessKey (delegateGo 0) 10 ∧
        setAccessKey aliceState alice aliceKey ⟨8, aliceAccessKey.permission⟩ =
          setAccessKey aliceState alice aliceKey { accessKey with nonce := 8 } ∧
        getAccessKey (setAccessKey aliceState alice aliceKey ⟨8, aliceAccessKey.permission⟩) alice aliceKey =
          .ok (some { accessKey with nonce := 8 })) ∧
    (applyActionReceiptState (applyActionState (fun _ state => .ok (state, true)) (fun _ => true) 10 alice
          (fun _ => true)) (fun state => .ok (state, true)) () () ([] ++ [.delegate (delegateGo 1)]) aliceState =
        .ok (setAccessKey (aliceState.commit ()) alice aliceKey ⟨8, aliceAccessKey.permission⟩).rollback ∧
      ∀ key, (setAccessKey (aliceState.commit ()) alice aliceKey ⟨8, aliceAccessKey.permission⟩).rollback.get key =
        (aliceState.commit ()).get key) := by
  have accepted := accessKeys_within_permission (C := Unit)
  refine ⟨⟨rfl, accepted.1 1 true aliceState aliceTx ⟨0, 0, 0, 30, 0⟩ (some 10) _ rfl⟩, ⟨rfl, accepted.2.1 aliceState _ 10 alice (delegateGo 0) true _ rfl⟩, ⟨rfl, ?_⟩⟩
  refine accepted.2.2 (fun _ state => .ok (state, true)) (fun _ => true) 10 alice (fun _ => true)
    (fun state => .ok (state, true)) () () [] [] (delegateGo 1) aliceState _ (fun _ _ _ ran => ?_) (fun reached reachedOk => ?_) rfl
  · cases ran
    exact .refl _
  · cases reachedOk
    exact ⟨_, _, rfl⟩

end Nearcore.Runtime
