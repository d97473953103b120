import Nearcore.Runtime.ReceiptManager

/-! The gas of applying an action receipt: `apply_action_receipt` and `apply_action`
(`runtime/runtime/src/lib.rs`), `action_function_call`, `execute_function_call` and
`apply_delegate_action` (`runtime/runtime/src/actions.rs`), and the refund of
`generate_refund_receipts`. Only the gas is modelled: state changes, new receipts, logs and
the compute usage, which follows the burnt gas, are left out. What the checks, the account and
the contract runtime give each action is an input, `ActionInput`; the storage and runtime errors
that end the application of a receipt with no result are left out with them. -/
namespace Nearcore

/-- `VMOutcome`, the part of it the gas accounting reads. -/
structure VMOutcome where
  burntGas : Nat
  usedGas : Nat
  aborted : Bool

/-- What the contract runtime gives a function call: no code to run, or the outcome of the run
and the receipt manager its promises filled. -/
inductive FunctionCallRun where
  | codeNotPresent
  | ran (outcome : VMOutcome) (receiptManager : ReceiptManager)

/-- What the checks and the contract runtime give one action of a receipt. -/
structure ActionInput where
  /-- The checks before the action does its work pass: the account's existence, the actor's
  permissions, a delegate action's signature, expiry, sender and key, and the action's own. -/
  passes : Bool
  /-- The receipts the action makes pass `validate_receipt`. -/
  receiptsValid : Bool
  run : FunctionCallRun

/-- `ActionResult`: its gas, and whether `result` is `Ok`. -/
structure ActionResult where
  gasBurnt : Nat
  gasBurntForFunctionCall : Nat
  gasUsed : Nat
  succeeded : Bool

/-- The result an action starts from: its execution fee burnt and used. -/
def ActionResult.ofFees (fees : Nat) : ActionResult :=
  { gasBurnt := fees, gasBurntForFunctionCall := 0, gasUsed := fees, succeeded := true }

section
attribute [local simp] ActionResult.ofFees
end

/-- The gas a refund is computed against: the used gas of a success, the burnt gas of a failure. -/
def ActionResult.spentGas (result : ActionResult) : Nat :=
  if result.succeeded then result.gasUsed else result.gasBurnt

section
attribute [local simp] ActionResult.spentGas
end

/-- What `merge` asserts of a result: what function calls burnt is part of what was burnt, and
that of what was used. -/
structure ActionResult.Ordered (result : ActionResult) : Prop where
  forFunctionCall : result.gasBurntForFunctionCall ≤ result.gasBurnt
  burnt : result.gasBurnt ≤ result.gasUsed

/-- What the contract runtime is trusted with: a call burns at most what it uses, and uses at
most the gas attached to it. -/
def FunctionCallRun.Obeys (functionCall : FunctionCallAction) : FunctionCallRun → Prop
  | .codeNotPresent => True
  | .ran outcome _ => outcome.burntGas ≤ outcome.usedGas ∧ outcome.usedGas ≤ functionCall.gas

/-- The same, of the input of an action that is a function call. -/
def ActionInput.Obeys (input : ActionInput) : Action → Prop
  | .nonDelegate (.functionCall functionCall) => input.run.Obeys functionCall
  | _ => True

/-- `ActionResult::merge`. Its two assertions are panics of the node. -/
def ActionResult.merge (result next : ActionResult) : Except ApplyError ActionResult :=
  if next.gasBurntForFunctionCall ≤ next.gasBurnt then
    if next.gasBurnt ≤ next.gasUsed then do
      let gasBurnt ← ApplyError.ofOverflow (safeAddGas result.gasBurnt next.gasBurnt)
      let gasBurntForFunctionCall ←
        ApplyError.ofOverflow (safeAddGas result.gasBurntForFunctionCall next.gasBurntForFunctionCall)
      let gasUsed ← ApplyError.ofOverflow (safeAddGas result.gasUsed next.gasUsed)
      pure { gasBurnt, gasBurntForFunctionCall, gasUsed, succeeded := next.succeeded }
    else throw (.panic "Gas burnt <= Gas used")
  else throw (.panic "assertion failed: next_result.gas_burnt_for_function_call <= next_result.gas_burnt")

section
attribute [local simp] ActionResult.merge
end

/-- The end of `execute_function_call`, not in a view: the gas the call left unused goes to the
function calls of its promises, and what was handed out counts as used. -/
def executeFunctionCall (functionCall : FunctionCallAction) : FunctionCallRun → Except ApplyError VMOutcome
  | .codeNotPresent => .ok { burntGas := 0, usedGas := 0, aborted := true }
  | .ran outcome receiptManager => do
    let unusedGas := functionCall.gas - outcome.usedGas
    let (distributed, _) ← receiptManager.distributeGas unusedGas
    let usedGas ← ApplyError.ofOverflow (safeAddGas outcome.usedGas distributed)
    pure { outcome with usedGas }

/-- The gas of `action_function_call`: what the call burnt and used joins the execution fee. -/
def actionFunctionCall (result : ActionResult) (functionCall : FunctionCallAction) (run : FunctionCallRun) :
    Except ApplyError ActionResult := do
  let outcome ← executeFunctionCall functionCall run
  let gasBurnt ← ApplyError.ofOverflow (safeAddGas result.gasBurnt outcome.burntGas)
  let gasBurntForFunctionCall ← ApplyError.ofOverflow (safeAddGas result.gasBurntForFunctionCall outcome.burntGas)
  let gasUsed ← ApplyError.ofOverflow (safeAddGas result.gasUsed outcome.usedGas)
  pure { gasBurnt, gasBurntForFunctionCall, gasUsed, succeeded := !outcome.aborted }

section Apply

variable (accountType : AccountId → AccountType)

/-- `receipt_required_gas` of an action receipt. -/
def receiptRequiredGas (config : RuntimeConfig) (actions : List Action) (receiverId : AccountId) :
    Except IntegerOverflowError Nat := do
  let requiredGas ← safeAddGas (← totalPrepaidExecFees accountType config actions receiverId) (← totalPrepaidGas actions)
  safeAddGas requiredGas (config.fee .newActionReceipt).execFee

/-- The gas of `apply_delegate_action` once its checks passed: the receipt it sends uses the gas
its receiver will need, and burns the send fees the receipt prepaid. -/
def applyDelegateAction (config : RuntimeConfig) (receiptActions : List Action) (delegateAction : DelegateAction)
    (result : ActionResult) : Except ApplyError ActionResult := do
  let prepaidSendFees ← ApplyError.ofOverflow (totalPrepaidSendFees accountType config receiptActions)
  let requiredGas ← ApplyError.ofOverflow
    (receiptRequiredGas accountType config delegateAction.getActions delegateAction.receiverId)
  let gasUsed ← ApplyError.ofOverflow (safeAddGas result.gasUsed requiredGas)
  let gasUsed ← ApplyError.ofOverflow (safeAddGas gasUsed prepaidSendFees)
  let gasBurnt ← ApplyError.ofOverflow (safeAddGas result.gasBurnt prepaidSendFees)
  pure { result with gasUsed, gasBurnt }

section
attribute [local simp] applyDelegateAction
end

/-- The gas of `apply_action`: the execution fee, and what a function call or a delegate action
adds to it when the checks pass. -/
def applyAction (config : RuntimeConfig) (receiverId : AccountId) (receiptActions : List Action) (action : Action)
    (input : ActionInput) : Except ApplyError ActionResult :=
  let result := ActionResult.ofFees (execFee accountType config action receiverId)
  if input.passes then
    match action with
    | .nonDelegate (.functionCall functionCall) => actionFunctionCall result functionCall input.run
    | .delegate delegateAction => applyDelegateAction accountType config receiptActions delegateAction result
    | .nonDelegate _ => .ok result
  else .ok { result with succeeded := false }

section
attribute [local simp] applyAction
end

/-- The loop of `apply_action_receipt` from its `index`-th action: each result is merged in, and
the first action that fails ends the loop. -/
def applyActions (config : RuntimeConfig) (receiverId : AccountId) (receiptActions : List Action)
    (inputs : Nat → ActionInput) : Nat → ActionResult → List Action → Except ApplyError ActionResult
  | _, result, [] => .ok result
  | index, result, action :: rest => do
    let newResult ← applyAction accountType config receiverId receiptActions action (inputs index)
    -- `validate_receipt` on the receipts of an action that succeeded: an invalid one fails it
    let newResult := { newResult with succeeded := newResult.succeeded && (inputs index).receiptsValid }
    let result ← result.merge newResult
    if result.succeeded then applyActions config receiverId receiptActions inputs (index + 1) result rest
    else .ok result

/-- The gas of `apply_action_receipt`: the execution fee of the receipt, its actions, and a
failure of `check_storage_stake` after them, which adds no gas. -/
def applyActionReceipt (config : RuntimeConfig) (receiverId : AccountId) (actions : List Action)
    (inputs : Nat → ActionInput) (coversStorage : Bool) : Except ApplyError ActionResult := do
  let result ← applyActions accountType config receiverId actions inputs 0
    (ActionResult.ofFees (config.fee .newActionReceipt).execFee) actions
  if result.succeeded && !coversStorage then
    result.merge { gasBurnt := 0, gasBurntForFunctionCall := 0, gasUsed := 0, succeeded := false }
  else pure result

/-- The gas refund of `generate_refund_receipts`: what the receipt prepaid, less what it spent.
The subtraction is a `u64` one, which panics when it would go below zero. -/
def gasRefund (config : RuntimeConfig) (receiverId : AccountId) (actions : List Action) (result : ActionResult) :
    Except ApplyError Nat := do
  let prepaidGas ← ApplyError.ofOverflow (totalPrepaidGas actions)
  let prepaidSendFees ← ApplyError.ofOverflow (totalPrepaidSendFees accountType config actions)
  let prepaidGas ← ApplyError.ofOverflow (safeAddGas prepaidGas prepaidSendFees)
  let prepaidExecFees ← ApplyError.ofOverflow (totalPrepaidExecFees accountType config actions receiverId)
  let prepaidExecGas ← ApplyError.ofOverflow (safeAddGas prepaidExecFees (config.fee .newActionReceipt).execFee)
  let total ← ApplyError.ofOverflow (safeAddGas prepaidGas prepaidExecGas)
  if result.spentGas ≤ total then pure (total - result.spentGas)
  else throw (.panic "attempt to subtract with overflow")

section
attribute [local simp] gasRefund
end

/-! What one action may spend: the gas it prepaid for function calls, the execution fees it
prepaid, and for a delegate action the send fees the whole receipt prepaid, which it burns. -/

/-- What an action of a receipt may spend, when the receipt prepaid `sendFees` in send fees. -/
def Action.spendable (config : RuntimeConfig) (receiverId : AccountId) (sendFees : Nat) (action : Action) : Nat :=
  action.prepaidGas + action.prepaidExecFees accountType config receiverId + if action.isDelegate then sendFees else 0

section
attribute [local simp] Action.spendable
end

/-- What a receipt prepaid, as `generate_refund_receipts` adds it up. -/
def prepaidBudget (config : RuntimeConfig) (receiverId : AccountId) (actions : List Action) : Nat :=
  (actions.map Action.prepaidGas).sum + (actions.map (Action.prepaidSendFees accountType config)).sum +
    (actions.map (Action.prepaidExecFees accountType config receiverId)).sum + (config.fee .newActionReceipt).execFee

section
attribute [local simp] prepaidBudget
end

/-- The send fees are spent once per delegate action. -/
theorem sum_spendable (config : RuntimeConfig) (receiverId : AccountId) (sendFees : Nat) :
    ∀ actions : List Action, (actions.map (Action.spendable accountType config receiverId sendFees)).sum =
      (actions.map Action.prepaidGas).sum + (actions.map (Action.prepaidExecFees accountType config receiverId)).sum +
        (actions.filter Action.isDelegate).length * sendFees
  | [] => by simp
  | action :: rest => by
    have later := sum_spendable config receiverId sendFees rest
    cases delegate : action.isDelegate <;>
      simp only [List.map_cons, List.sum_cons, List.filter_cons, delegate, Action.spendable, later,
        if_true, Bool.false_eq_true, if_false, List.length_cons] <;>
      grind

theorem ActionResult.ordered_ofFees (fees : Nat) : (ActionResult.ofFees fees).Ordered :=
  ⟨Nat.zero_le _, Nat.le_refl _⟩

/-- A merge that returns found the next result ordered, and added the gas up. -/
theorem ActionResult.merge_eq_ok {result next merged : ActionResult} (done : result.merge next = .ok merged) :
    next.Ordered ∧ merged.gasBurnt = result.gasBurnt + next.gasBurnt ∧
      merged.gasBurntForFunctionCall = result.gasBurntForFunctionCall + next.gasBurntForFunctionCall ∧
      merged.gasUsed = result.gasUsed + next.gasUsed ∧ merged.succeeded = next.succeeded := by
  unfold ActionResult.merge at done
  split at done
  · split at done
    · rename_i forFunctionCall burnt
      have summed := safeAddGas_bind_eq_ok (safeAddGas_bind_eq_ok (safeAddGas_bind_eq_ok done))
      cases summed
      exact ⟨⟨forFunctionCall, burnt⟩, rfl, rfl, rfl, rfl⟩
    · cases done
  · cases done

theorem ActionResult.Ordered.merge {result next merged : ActionResult} (ordered : result.Ordered)
    (done : result.merge next = .ok merged) : merged.Ordered := by
  obtain ⟨nextOrdered, burnt, forFunctionCall, used, -⟩ := ActionResult.merge_eq_ok done
  have := ordered.forFunctionCall
  have := ordered.burnt
  have := nextOrdered.forFunctionCall
  have := nextOrdered.burnt
  exact ⟨by omega, by omega⟩

/-- A call the contract runtime ran within its gas used at most its gas, the gas handed to its
promises included. -/
theorem executeFunctionCall_bound {functionCall : FunctionCallAction} {run : FunctionCallRun} {outcome : VMOutcome}
    (obeys : run.Obeys functionCall) (executed : executeFunctionCall functionCall run = .ok outcome) :
    outcome.burntGas ≤ outcome.usedGas ∧ outcome.usedGas ≤ functionCall.gas := by
  cases run with
  | codeNotPresent =>
    cases executed
    exact ⟨Nat.le_refl 0, Nat.zero_le _⟩
  | ran ranOutcome receiptManager =>
    obtain ⟨burnt, used⟩ := obeys
    obtain ⟨⟨distributed, manager'⟩, handed, rest⟩ := Except.bind_eq_ok executed
    cases safeAddGas_bind_eq_ok rest
    dsimp only
    -- the gas handed out is nothing or all the gas the call left unused
    rcases distributeGas_eq_zero_or_unused handed with nothing | all
    · exact ⟨by omega, by omega⟩
    · exact ⟨by omega, by omega⟩

theorem actionFunctionCall_bound {fees : Nat} {functionCall : FunctionCallAction} {run : FunctionCallRun}
    {next : ActionResult} (obeys : run.Obeys functionCall)
    (applied : actionFunctionCall (ActionResult.ofFees fees) functionCall run = .ok next) :
    next.Ordered ∧ next.gasUsed ≤ fees + functionCall.gas := by
  obtain ⟨outcome, executed, rest⟩ := Except.bind_eq_ok applied
  have bound := executeFunctionCall_bound obeys executed
  cases safeAddGas_bind_eq_ok (safeAddGas_bind_eq_ok (safeAddGas_bind_eq_ok rest))
  refine ⟨⟨?_, ?_⟩, ?_⟩ <;> dsimp only [ActionResult.ofFees] <;> omega

/-- The gas the receipt of a delegate action needs is what the delegate action prepaid, but for
its own execution fee. -/
theorem receiptRequiredGas_eq_ok {config : RuntimeConfig} {delegateAction : DelegateAction} {required : Nat}
    (receiverId : AccountId)
    (computed : receiptRequiredGas accountType config delegateAction.getActions delegateAction.receiverId = .ok required) :
    execFee accountType config (.delegate delegateAction) receiverId + required =
      (Action.delegate delegateAction).prepaidGas + (Action.delegate delegateAction).prepaidExecFees accountType config receiverId := by
  obtain ⟨execFees, execComputed, rest⟩ := Except.bind_eq_ok computed
  obtain ⟨gas, gasComputed, rest⟩ := Except.bind_eq_ok rest
  obtain ⟨sum, added, rest⟩ := Except.bind_eq_ok rest
  rw [safeAddGas_eq_ok rest, safeAddGas_eq_ok added, totalPrepaidExecFees_eq_ok accountType execComputed,
    totalPrepaidGas_eq_ok gasComputed]
  simp only [DelegateAction.getActions, List.map_map, Function.comp_def, Action.prepaidExecFees, Action.prepaidGas,
    execFee]
  omega

theorem applyDelegateAction_bound {config : RuntimeConfig} {receiverId : AccountId} {actions : List Action}
    {delegateAction : DelegateAction} {next : ActionResult}
    (applied : applyDelegateAction accountType config actions delegateAction
      (ActionResult.ofFees (execFee accountType config (.delegate delegateAction) receiverId)) = .ok next) :
    next.Ordered ∧ next.gasUsed = (Action.delegate delegateAction).prepaidGas +
      (Action.delegate delegateAction).prepaidExecFees accountType config receiverId +
        (actions.map (Action.prepaidSendFees accountType config)).sum := by
  obtain ⟨sendFees, sendComputed, rest⟩ := ofOverflow_bind_eq_ok applied
  obtain ⟨required, requiredComputed, rest⟩ := ofOverflow_bind_eq_ok rest
  cases safeAddGas_bind_eq_ok (safeAddGas_bind_eq_ok (safeAddGas_bind_eq_ok rest))
  have needed := receiptRequiredGas_eq_ok accountType receiverId requiredComputed
  rw [← totalPrepaidSendFees_eq_ok accountType sendComputed]
  refine ⟨⟨?_, ?_⟩, ?_⟩ <;> dsimp only [ActionResult.ofFees] <;> omega

theorem execFee_le_spendable (config : RuntimeConfig) (receiverId : AccountId) (sendFees : Nat) (action : Action) :
    execFee accountType config action receiverId ≤ action.spendable accountType config receiverId sendFees := by
  cases action with
  | nonDelegate action => simp only [Action.spendable, Action.prepaidExecFees]; omega
  | delegate delegateAction => simp only [Action.spendable, Action.prepaidExecFees, execFee]; omega

/-- One action spends at most what it may, and leaves its result ordered. -/
theorem applyAction_bound {config : RuntimeConfig} {receiverId : AccountId} {actions : List Action}
    {action : Action} {input : ActionInput} {next : ActionResult} (obeys : input.Obeys action)
    (applied : applyAction accountType config receiverId actions action input = .ok next) :
    next.Ordered ∧ next.gasUsed ≤
      action.spendable accountType config receiverId (actions.map (Action.prepaidSendFees accountType config)).sum := by
  have feeBound := execFee_le_spendable accountType config receiverId
    (actions.map (Action.prepaidSendFees accountType config)).sum action
  unfold applyAction at applied
  split at applied
  · -- the checks passed: a function call and a delegate action spend more than their fee
    cases action with
    | delegate delegateAction =>
      obtain ⟨ordered, used⟩ := applyDelegateAction_bound accountType applied
      refine ⟨ordered, ?_⟩
      simp only [Action.spendable, Action.isDelegate, if_true]
      omega
    | nonDelegate action =>
      cases action
      case functionCall functionCall =>
        obtain ⟨ordered, used⟩ := actionFunctionCall_bound obeys applied
        refine ⟨ordered, ?_⟩
        simp only [Action.spendable, Action.prepaidGas, Action.getPrepaidGas, Action.prepaidExecFees,
          Action.isDelegate, Bool.false_eq_true, if_false]
        omega
      all_goals
        cases applied
        exact ⟨ActionResult.ordered_ofFees _, feeBound⟩
  · -- the checks failed: the action paid its execution fee, and failed
    cases applied
    exact ⟨⟨Nat.zero_le _, Nat.le_refl _⟩, feeBound⟩

/-- The loop spends at most what its actions may, and keeps the result ordered. -/
theorem applyActions_bound {config : RuntimeConfig} {receiverId : AccountId} {actions : List Action}
    {inputs : Nat → ActionInput} :
    ∀ {index : Nat} {result final : ActionResult} {rest : List Action},
      (∀ j action, rest[j]? = some action → (inputs (index + j)).Obeys action) → result.Ordered →
      applyActions accountType config receiverId actions inputs index result rest = .ok final →
      final.Ordered ∧ final.gasUsed ≤ result.gasUsed + (rest.map (Action.spendable accountType config receiverId
        (actions.map (Action.prepaidSendFees accountType config)).sum)).sum
  | _, result, final, [], _, ordered, applied => by
    cases applied
    exact ⟨ordered, by simp⟩
  | index, result, final, action :: rest, obeys, ordered, applied => by
    obtain ⟨newResult, appliedOne, continued⟩ := Except.bind_eq_ok applied
    obtain ⟨-, used⟩ := applyAction_bound accountType (obeys 0 action rfl) appliedOne
    obtain ⟨merged, mergedOk, continued⟩ := Except.bind_eq_ok continued
    obtain ⟨-, -, -, mergedUsed, -⟩ := ActionResult.merge_eq_ok mergedOk
    have mergedOrdered := ordered.merge mergedOk
    simp only [List.map_cons, List.sum_cons]
    split at continued
    · -- the action succeeded: the loop goes on from the next index
      have shifted : ∀ j action, rest[j]? = some action → (inputs (index + 1 + j)).Obeys action :=
        fun j action found => by
          have shifted := obeys (j + 1) action (by simpa using found)
          rwa [show index + (j + 1) = index + 1 + j by omega] at shifted
      have later := applyActions_bound shifted mergedOrdered continued
      exact ⟨later.1, by dsimp only at mergedUsed; omega⟩
    · -- the action failed: the loop ends
      cases continued
      exact ⟨mergedOrdered, by dsimp only at mergedUsed; omega⟩

/-- A receipt spends at most the execution fee of its own and what its actions may. -/
theorem applyActionReceipt_bound {config : RuntimeConfig} {receiverId : AccountId} {actions : List Action}
    {inputs : Nat → ActionInput} {coversStorage : Bool} {result : ActionResult}
    (obeys : ∀ i action, actions[i]? = some action → (inputs i).Obeys action)
    (applied : applyActionReceipt accountType config receiverId actions inputs coversStorage = .ok result) :
    result.Ordered ∧ result.gasUsed ≤ (config.fee .newActionReceipt).execFee +
      (actions.map (Action.spendable accountType config receiverId
        (actions.map (Action.prepaidSendFees accountType config)).sum)).sum := by
  obtain ⟨looped, loopOk, stake⟩ := Except.bind_eq_ok applied
  have fromStart : ∀ j action, actions[j]? = some action → (inputs (0 + j)).Obeys action :=
    fun j action found => by simpa using obeys j action found
  obtain ⟨ordered, used⟩ := applyActions_bound accountType fromStart (ActionResult.ordered_ofFees _) loopOk
  split at stake
  · -- the storage check failed: its result adds no gas
    obtain ⟨-, -, -, stakeUsed, -⟩ := ActionResult.merge_eq_ok stake
    exact ⟨ordered.merge stake, by dsimp only [ActionResult.ofFees] at used stakeUsed; omega⟩
  · cases stake
    exact ⟨ordered, by simpa [ActionResult.ofFees] using used⟩

/-- What a receipt with at most one delegate action may spend is within what it prepaid. -/
theorem sum_spendable_le_prepaidBudget (config : RuntimeConfig) (receiverId : AccountId) {actions : List Action}
    (oneDelegate : (actions.filter Action.isDelegate).length ≤ 1) :
    (config.fee .newActionReceipt).execFee + (actions.map (Action.spendable accountType config receiverId
      (actions.map (Action.prepaidSendFees accountType config)).sum)).sum ≤
      prepaidBudget accountType config receiverId actions := by
  rw [sum_spendable, prepaidBudget]
  -- the send fees are spent by the one delegate action, if there is one
  have once := Nat.mul_le_mul_right (actions.map (Action.prepaidSendFees accountType config)).sum oneDelegate
  rw [Nat.one_mul] at once
  omega

/-- The checked sums of `generate_refund_receipts`, when none overflows, add up to the budget. -/
theorem prepaidTotal_eq {config : RuntimeConfig} {receiverId : AccountId} {actions : List Action}
    {gas sendFees prepaidGas execFees prepaidExecGas total : Nat}
    (gasOk : totalPrepaidGas actions = .ok gas) (sendOk : totalPrepaidSendFees accountType config actions = .ok sendFees)
    (prepaidOk : safeAddGas gas sendFees = .ok prepaidGas)
    (execOk : totalPrepaidExecFees accountType config actions receiverId = .ok execFees)
    (execGasOk : safeAddGas execFees (config.fee .newActionReceipt).execFee = .ok prepaidExecGas)
    (totalOk : safeAddGas prepaidGas prepaidExecGas = .ok total) :
    total = prepaidBudget accountType config receiverId actions := by
  rw [safeAddGas_eq_ok totalOk, safeAddGas_eq_ok prepaidOk, safeAddGas_eq_ok execGasOk, totalPrepaidGas_eq_ok gasOk,
    totalPrepaidSendFees_eq_ok accountType sendOk, totalPrepaidExecFees_eq_ok accountType execOk, prepaidBudget]
  omega

/-- A refund that is computed is what the receipt prepaid less what it spent. -/
theorem gasRefund_eq_ok {config : RuntimeConfig} {receiverId : AccountId} {actions : List Action}
    {result : ActionResult} {refund : Nat}
    (refunded : gasRefund accountType config receiverId actions result = .ok refund) :
    refund = prepaidBudget accountType config receiverId actions - result.spentGas := by
  unfold gasRefund at refunded
  obtain ⟨gas, gasOk, refunded⟩ := ofOverflow_bind_eq_ok refunded
  obtain ⟨sendFees, sendOk, refunded⟩ := ofOverflow_bind_eq_ok refunded
  obtain ⟨prepaidGas, prepaidOk, refunded⟩ := ofOverflow_bind_eq_ok refunded
  obtain ⟨execFees, execOk, refunded⟩ := ofOverflow_bind_eq_ok refunded
  obtain ⟨prepaidExecGas, execGasOk, refunded⟩ := ofOverflow_bind_eq_ok refunded
  obtain ⟨total, totalOk, refunded⟩ := ofOverflow_bind_eq_ok refunded
  rw [← prepaidTotal_eq accountType gasOk sendOk prepaidOk execOk execGasOk totalOk]
  split at refunded
  · cases refunded
    rfl
  · cases refunded

/-- The subtraction of `generate_refund_receipts` does not go below zero when the receipt spent
at most what it prepaid: its only panic never happens. -/
theorem gasRefund_ne_panic {config : RuntimeConfig} {receiverId : AccountId} {actions : List Action}
    {result : ActionResult} (spent : result.spentGas ≤ prepaidBudget accountType config receiverId actions)
    (message : String) : gasRefund accountType config receiverId actions result ≠ .error (.panic message) := by
  intro panicked
  unfold gasRefund at panicked
  obtain ⟨gas, gasOk, panicked⟩ := ofOverflow_bind_eq_panic panicked
  obtain ⟨sendFees, sendOk, panicked⟩ := ofOverflow_bind_eq_panic panicked
  obtain ⟨prepaidGas, prepaidOk, panicked⟩ := ofOverflow_bind_eq_panic panicked
  obtain ⟨execFees, execOk, panicked⟩ := ofOverflow_bind_eq_panic panicked
  obtain ⟨prepaidExecGas, execGasOk, panicked⟩ := ofOverflow_bind_eq_panic panicked
  obtain ⟨total, totalOk, panicked⟩ := ofOverflow_bind_eq_panic panicked
  rw [← prepaidTotal_eq accountType gasOk sendOk prepaidOk execOk execGasOk totalOk] at spent
  rw [if_pos spent] at panicked
  cases panicked

/-- The refund is computed, with no overflow, when what the receipt prepaid fits in `u64`, and is
what was prepaid less what was spent when that is at most what was prepaid. -/
theorem gasRefund_of_le {config : RuntimeConfig} {receiverId : AccountId} {actions : List Action}
    {result : ActionResult} (fits : prepaidBudget accountType config receiverId actions ≤ Gas.MAX)
    (spent : result.spentGas ≤ prepaidBudget accountType config receiverId actions) :
    gasRefund accountType config receiverId actions result =
      .ok (prepaidBudget accountType config receiverId actions - result.spentGas) := by
  unfold prepaidBudget at fits spent ⊢
  -- every partial sum is part of the budget, so none overflows
  have gasFits : (actions.map Action.prepaidGas).sum ≤ Gas.MAX := by omega
  have sendFits : (actions.map (Action.prepaidSendFees accountType config)).sum ≤ Gas.MAX := by omega
  have execFits : (actions.map (Action.prepaidExecFees accountType config receiverId)).sum ≤ Gas.MAX := by omega
  have prepaidFits : (actions.map Action.prepaidGas).sum +
      (actions.map (Action.prepaidSendFees accountType config)).sum ≤ Gas.MAX := by omega
  have execGasFits : (actions.map (Action.prepaidExecFees accountType config receiverId)).sum +
      (config.fee .newActionReceipt).execFee ≤ Gas.MAX := by omega
  have totalFits : (actions.map Action.prepaidGas).sum + (actions.map (Action.prepaidSendFees accountType config)).sum +
      ((actions.map (Action.prepaidExecFees accountType config receiverId)).sum +
        (config.fee .newActionReceipt).execFee) ≤ Gas.MAX := by omega
  unfold gasRefund
  simp only [totalPrepaidGas_of_le gasFits, totalPrepaidSendFees_of_le accountType sendFits,
    totalPrepaidExecFees_of_le accountType execFits, safeAddGas_of_le prepaidFits, safeAddGas_of_le execGasFits,
    safeAddGas_of_le totalFits, ApplyError.ofOverflow_ok, Except.ok_bind]
  rw [if_pos (by omega)]
  congr 1
  omega

/-- An action receipt never uses more gas than it bought. For every receipt with at most one
delegate action, and every run of its actions in which each function call burns at most what
it uses and uses at most its gas, the result `apply_action_receipt` returns has the burnt gas
of its function calls within its burnt gas, that within its used gas, and that within what the
receipt prepaid; the refund is what was prepaid less what was spent, and never panics. And
`distribute_gas` hands out the floor shares of the unused gas by the weights, the remainder to
the last, which add up to all the unused gas. -/
theorem actionReceipt_gas_within_prepaid :
    (∀ (config : RuntimeConfig) (receiverId : AccountId) (actions : List Action) (inputs : Nat → ActionInput)
      (coversStorage : Bool) (result : ActionResult),
      (actions.filter Action.isDelegate).length ≤ 1 →
      (∀ i action, actions[i]? = some action → (inputs i).Obeys action) →
      applyActionReceipt accountType config receiverId actions inputs coversStorage = .ok result →
      result.gasBurntForFunctionCall ≤ result.gasBurnt ∧ result.gasBurnt ≤ result.gasUsed ∧
        result.gasUsed ≤ prepaidBudget accountType config receiverId actions ∧
        (∀ refund, gasRefund accountType config receiverId actions result = .ok refund →
          refund = prepaidBudget accountType config receiverId actions - result.spentGas) ∧
        ∀ message, gasRefund accountType config receiverId actions result ≠ .error (.panic message)) ∧
    (∀ (manager : ReceiptManager) (unusedGas : Nat), unusedGas ≤ Gas.MAX →
      manager.distributeGas unusedGas =
        (if (manager.gasWeights.map Prod.snd).sum = 0 ∨ unusedGas = 0 then .ok (0, manager)
        else (fun receipts => (unusedGas, { manager with actionReceipts := receipts })) <$>
          addShares manager.actionReceipts (manager.gasShares unusedGas)) ∧
      ∀ distributed manager', manager.distributeGas unusedGas = .ok (distributed, manager') →
        distributed = (if (manager.gasWeights.map Prod.snd).sum = 0 ∨ unusedGas = 0 then 0 else unusedGas) ∧
          prepaidGasOf manager'.actionReceipts = prepaidGasOf manager.actionReceipts + distributed) := by
  refine ⟨fun config receiverId actions inputs coversStorage result oneDelegate obeys applied => ?_,
    fun manager unusedGas fits => ⟨distributeGas_eq_addShares manager fits,
      fun _ _ done => distributeGas_hands_out fits done⟩⟩
  obtain ⟨ordered, used⟩ := applyActionReceipt_bound accountType obeys applied
  have budget := sum_spendable_le_prepaidBudget accountType config receiverId oneDelegate
  -- what the refund is computed against is the used or the burnt gas, both within the budget
  have spent : result.spentGas ≤ prepaidBudget accountType config receiverId actions := by
    unfold ActionResult.spentGas
    have := ordered.burnt
    split <;> omega
  exact ⟨ordered.forFunctionCall, ordered.burnt, by omega, fun _ refunded => gasRefund_eq_ok accountType refunded,
    gasRefund_ne_panic accountType spent⟩

/-- A receipt of one function call of 10 gas that burns 2 and uses 3, at fees of 1: it uses 5 of
the 12 it bought and is refunded 7. And 7 unused gas, handed by weights 1 and 2 to calls of 5
and 0 gas, gives them 2 and 5. -/
theorem actionReceipt_gas_within_prepaid_oneCall :
    5 ≤ prepaidBudget (fun _ => .namedAccount) ⟨fun _ => ⟨1, 1, 1⟩, false, false⟩ ⟨[], fun _ absent => nomatch absent⟩
        [.nonDelegate (.functionCall ⟨"", [], 10, 0⟩)] ∧
      gasRefund (fun _ => .namedAccount) ⟨fun _ => ⟨1, 1, 1⟩, false, false⟩ ⟨[], fun _ absent => nomatch absent⟩
        [.nonDelegate (.functionCall ⟨"", [], 10, 0⟩)] ⟨4, 2, 5, true⟩ ≠ .error (.panic "attempt to subtract with overflow") ∧
      prepaidGasOf [⟨[.nonDelegate (.functionCall ⟨"", [], 7, 0⟩), .nonDelegate (.functionCall ⟨"", [], 5, 0⟩)]⟩] =
        prepaidGasOf [⟨[.nonDelegate (.functionCall ⟨"", [], 5, 0⟩), .nonDelegate (.functionCall ⟨"", [], 0, 0⟩)]⟩] + 7 :=
  have receipt := (actionReceipt_gas_within_prepaid (fun _ => .namedAccount)).1 ⟨fun _ => ⟨1, 1, 1⟩, false, false⟩
    ⟨[], fun _ absent => nomatch absent⟩ [.nonDelegate (.functionCall ⟨"", [], 10, 0⟩)]
    (fun _ => ⟨true, true, .ran ⟨2, 3, false⟩ ⟨[], []⟩⟩) true ⟨4, 2, 5, true⟩ (by decide)
    (fun i action found => by
      cases i with
      | zero =>
        cases found
        exact ⟨by decide, by decide⟩
      | succ i => cases found)
    rfl
  have handed := ((actionReceipt_gas_within_prepaid (fun _ => .namedAccount)).2
    ⟨[⟨[.nonDelegate (.functionCall ⟨"", [], 5, 0⟩), .nonDelegate (.functionCall ⟨"", [], 0, 0⟩)]⟩],
      [(⟨0, 0⟩, 1), (⟨0, 1⟩, 2)]⟩ 7 (by decide)).2 7
    ⟨[⟨[.nonDelegate (.functionCall ⟨"", [], 7, 0⟩), .nonDelegate (.functionCall ⟨"", [], 5, 0⟩)]⟩],
      [(⟨0, 0⟩, 1), (⟨0, 1⟩, 2)]⟩ rfl
  ⟨receipt.2.2.1, receipt.2.2.2.2 _, handed.2⟩

end Apply

end Nearcore
