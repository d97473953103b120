import Nearcore.Library.FloorShares
import Nearcore.Runtime.Fees

/-! The part of `ReceiptManager` (`runtime/runtime/src/receipt_manager.rs`) that hands out the gas
a function call left unused: `distribute_gas` gives each function call with a gas weight the
floor of its part of the unused gas, and the last one also what the floors leave over. Of a
receipt it keeps only the actions, and of the manager the receipts and the weights; the data
receipts and the index of yielded promises are left out. -/
namespace Nearcore

/-- An error that ends the application of a receipt: `RuntimeError::UnexpectedIntegerOverflow`,
or a panic of the node, with the start of its message. -/
inductive ApplyError where
  | unexpectedIntegerOverflow
  | panic (message : String)
  deriving DecidableEq

/-- `?` on an `IntegerOverflowError` in code that returns a `RuntimeError`. -/
def ApplyError.ofOverflow {α : Type} : Except IntegerOverflowError α → Except ApplyError α
  | .ok a => .ok a
  | .error _ => .error .unexpectedIntegerOverflow

@[simp] theorem ApplyError.ofOverflow_ok {α : Type} (a : α) :
    ApplyError.ofOverflow (.ok a : Except IntegerOverflowError α) = .ok a := rfl

@[simp] theorem ApplyError.ofOverflow_error {α : Type} (e : IntegerOverflowError) :
    ApplyError.ofOverflow (.error e : Except IntegerOverflowError α) = .error .unexpectedIntegerOverflow := rfl

/-- `ReceiptMetadata`, of which `distribute_gas` reads the actions. -/
structure ReceiptMetadata where
  actions : List Action

structure FunctionCallActionIndex where
  receiptIndex : Nat
  actionIndex : Nat
  deriving DecidableEq

structure ReceiptManager where
  actionReceipts : List ReceiptMetadata
  gasWeights : List (FunctionCallActionIndex × Nat)

/-- The function call at an index of the receipts, as `get_mut` finds it. -/
def functionCallAt (receipts : List ReceiptMetadata) (index : FunctionCallActionIndex) : Option FunctionCallAction :=
  match receipts[index.receiptIndex]? >>= fun receipt => receipt.actions[index.actionIndex]? with
  | some (.nonDelegate (.functionCall action)) => some action
  | _ => none

section
attribute [local simp] functionCallAt
end

/-- The receipts with the gas of the function call at an index set. -/
def setFunctionCallGas (receipts : List ReceiptMetadata) (index : FunctionCallActionIndex) (gas : Nat) :
    List ReceiptMetadata :=
  receipts.modify index.receiptIndex fun receipt =>
    { actions := receipt.actions.modify index.actionIndex fun
        | .nonDelegate (.functionCall action) => .nonDelegate (.functionCall { action with gas })
        | action => action }

section
attribute [local simp] setFunctionCallGas
end

/-- `checked_add(..).unwrap_or_else(|| panic!("gas computation overflowed"))`. -/
def checkedAddOrPanic (a b : Nat) : Except ApplyError Nat :=
  match Gas.checkedAdd a b with
  | some sum => .ok sum
  | none => .error (.panic "gas computation overflowed")

section
attribute [local simp] checkedAddOrPanic
end

/-- One turn of the loop of `distribute_gas`: the share of one weight, computed in `u128` and
cast to `u64`, and for the last weight also the remainder, a wrapping subtraction. -/
def distributeGasStep (unusedGas gasWeightSum : Nat) (last : Bool) (distributed : Nat)
    (receipts : List ReceiptMetadata) (index : FunctionCallActionIndex) (weight : Nat) :
    Except ApplyError (Nat × List ReceiptMetadata) := do
  let some action := functionCallAt receipts index
    | throw (.panic "Invalid function call index")
  let toAssign := unusedGas * weight / gasWeightSum % 2 ^ 64
  let gas ← ApplyError.ofOverflow (safeAddGas action.gas toAssign)
  let distributed ← checkedAddOrPanic distributed toAssign
  if last then
    let remainder := (unusedGas + 2 ^ 64 - distributed) % 2 ^ 64
    let distributed ← checkedAddOrPanic distributed remainder
    let gas ← ApplyError.ofOverflow (safeAddGas gas remainder)
    pure (distributed, setFunctionCallGas receipts index gas)
  else
    pure (distributed, setFunctionCallGas receipts index gas)

section
attribute [local simp] distributeGasStep
end

/-- The loop of `distribute_gas`, once `distributed` has been handed out. -/
def distributeGasLoop (unusedGas gasWeightSum : Nat) : Nat → List ReceiptMetadata →
    List (FunctionCallActionIndex × Nat) → Except ApplyError (Nat × List ReceiptMetadata)
  | distributed, receipts, [] => .ok (distributed, receipts)
  | distributed, receipts, (index, weight) :: rest => do
    let (distributed, receipts) ←
      distributeGasStep unusedGas gasWeightSum rest.isEmpty distributed receipts index weight
    distributeGasLoop unusedGas gasWeightSum distributed receipts rest

section
attribute [local simp] distributeGasLoop
end

/-- `ReceiptManager::distribute_gas`: the gas handed out, and the manager with the gas of its
function calls raised. -/
def ReceiptManager.distributeGas (manager : ReceiptManager) (unusedGas : Nat) :
    Except ApplyError (Nat × ReceiptManager) :=
  let gasWeightSum := (manager.gasWeights.map Prod.snd).sum
  if gasWeightSum = 0 ∨ unusedGas = 0 then .ok (0, manager)
  else do
    let (distributed, actionReceipts) ←
      distributeGasLoop unusedGas gasWeightSum 0 manager.actionReceipts manager.gasWeights
    if unusedGas = distributed then pure (distributed, { manager with actionReceipts })
    else throw (.panic "assertion failed: unused_gas == distributed")

section
attribute [local simp] ReceiptManager.distributeGas
end

/-! What `distribute_gas` is for: each weighted function call gets its share of the unused gas,
by `List.floorShares`, checked against overflow. -/

/-- Hands each index its share, and panics at an index that is not a function call. -/
def addShares : List ReceiptMetadata → List (FunctionCallActionIndex × Nat) →
    Except ApplyError (List ReceiptMetadata)
  | receipts, [] => .ok receipts
  | receipts, (index, share) :: rest => do
    let some action := functionCallAt receipts index
      | throw (.panic "Invalid function call index")
    let gas ← ApplyError.ofOverflow (safeAddGas action.gas share)
    addShares (setFunctionCallGas receipts index gas) rest

section
attribute [local simp] addShares
end

/-- The shares `distribute_gas` means to hand out: floor shares of the unused gas by the weights,
the remainder to the last. -/
def ReceiptManager.gasShares (manager : ReceiptManager) (unusedGas : Nat) :
    List (FunctionCallActionIndex × Nat) :=
  (manager.gasWeights.map Prod.fst).zip
    (List.floorShares unusedGas (manager.gasWeights.map Prod.snd).sum (manager.gasWeights.map Prod.snd))

/-- The gas attached to the function calls of the receipts. -/
def prepaidGasOf (receipts : List ReceiptMetadata) : Nat :=
  (receipts.map fun receipt => (receipt.actions.map Action.getPrepaidGas).sum).sum

section
attribute [local simp] prepaidGasOf
end

theorem ofOverflow_eq_ok {α : Type} {x : Except IntegerOverflowError α} {a : α}
    (ok : ApplyError.ofOverflow x = .ok a) : x = .ok a := by
  cases x with
  | error e => cases ok
  | ok b => cases ok; rfl

theorem ofOverflow_bind_eq_ok {α β : Type} {x : Except IntegerOverflowError α} {f : α → Except ApplyError β}
    {b : β} (ok : (ApplyError.ofOverflow x >>= f) = .ok b) : ∃ a, x = .ok a ∧ f a = .ok b := by
  obtain ⟨a, lifted, rest⟩ := Except.bind_eq_ok ok
  exact ⟨a, ofOverflow_eq_ok lifted, rest⟩

/-- Only the code after a step that did not overflow can panic. -/
theorem ofOverflow_bind_eq_panic {α β : Type} {x : Except IntegerOverflowError α} {f : α → Except ApplyError β}
    {message : String} (panicked : (ApplyError.ofOverflow x >>= f) = .error (.panic message)) :
    ∃ a, x = .ok a ∧ f a = .error (.panic message) := by
  cases x with
  | error e => cases panicked
  | ok a => exact ⟨a, rfl, panicked⟩

/-- A checked addition that let the code go on gave the sum. -/
theorem safeAddGas_bind_eq_ok {β : Type} {a b : Nat} {f : Nat → Except ApplyError β} {r : β}
    (ok : (ApplyError.ofOverflow (safeAddGas a b) >>= f) = .ok r) : f (a + b) = .ok r := by
  obtain ⟨sum, added, rest⟩ := ofOverflow_bind_eq_ok ok
  rwa [safeAddGas_eq_ok added] at rest

section Loop

variable {unusedGas gasWeightSum : Nat}

/-- A share that fits in `u64` is not changed by the cast. -/
theorem share_mod (fits : unusedGas ≤ Gas.MAX) {weight given : Nat}
    (within : given + unusedGas * weight / gasWeightSum ≤ unusedGas) :
    unusedGas * weight / gasWeightSum % 2 ^ 64 = unusedGas * weight / gasWeightSum := by
  unfold Gas.MAX at fits
  exact Nat.mod_eq_of_lt (by omega)

/-- The wrapping remainder of a `distributed` that did not pass the unused gas. -/
theorem remainder_mod (fits : unusedGas ≤ Gas.MAX) {distributed : Nat} (within : distributed ≤ unusedGas) :
    (unusedGas + 2 ^ 64 - distributed) % 2 ^ 64 = unusedGas - distributed := by
  unfold Gas.MAX at fits
  rw [show unusedGas + 2 ^ 64 - distributed = unusedGas - distributed + 2 ^ 64 by omega,
    Nat.add_mod_right, Nat.mod_eq_of_lt (by omega)]

theorem checkedAddOrPanic_of_le {a b : Nat} (fits : a + b ≤ Gas.MAX) : checkedAddOrPanic a b = .ok (a + b) := by
  simp [checkedAddOrPanic, Gas.checkedAdd, fits]

variable {given : Nat} {receipts : List ReceiptMetadata} {index : FunctionCallActionIndex} {weight : Nat}

theorem distributeGasStep_of_none {last : Bool} (missing : functionCallAt receipts index = none) :
    distributeGasStep unusedGas gasWeightSum last given receipts index weight =
      .error (.panic "Invalid function call index") := by
  simp only [distributeGasStep, missing, Except.throw_eq_error]

/-- A turn at a weight other than the last hands out its floor. -/
theorem distributeGasStep_of_not_last (fits : unusedGas ≤ Gas.MAX) {action : FunctionCallAction}
    (found : functionCallAt receipts index = some action)
    (within : given + unusedGas * weight / gasWeightSum ≤ unusedGas) :
    distributeGasStep unusedGas gasWeightSum false given receipts index weight =
      (fun gas => (given + unusedGas * weight / gasWeightSum, setFunctionCallGas receipts index gas)) <$>
        ApplyError.ofOverflow (safeAddGas action.gas (unusedGas * weight / gasWeightSum)) := by
  simp only [distributeGasStep, found, share_mod fits within, Bool.false_eq_true, if_false]
  cases ApplyError.ofOverflow (safeAddGas action.gas (unusedGas * weight / gasWeightSum)) with
  | error e => simp only [Except.error_bind, Except.functor_map_error]
  | ok gas =>
    simp only [Except.ok_bind, checkedAddOrPanic_of_le (Nat.le_trans within fits), Except.pure_eq_ok,
      Except.functor_map_ok]

/-- The turn at the last weight hands out its floor and what the floors left over, in two
checked additions that fail or succeed as one does. -/
theorem distributeGasStep_of_last (fits : unusedGas ≤ Gas.MAX) {action : FunctionCallAction}
    (found : functionCallAt receipts index = some action)
    (within : given + unusedGas * weight / gasWeightSum ≤ unusedGas) :
    distributeGasStep unusedGas gasWeightSum true given receipts index weight =
      (fun gas => (unusedGas, setFunctionCallGas receipts index gas)) <$>
        ApplyError.ofOverflow (safeAddGas action.gas
          (unusedGas * weight / gasWeightSum + (unusedGas - (given + unusedGas * weight / gasWeightSum)))) := by
  simp only [distributeGasStep, found, share_mod fits within, if_true]
  -- `omega` takes a division by a variable apart badly: name the floor first
  generalize unusedGas * weight / gasWeightSum = floor at within ⊢
  have handed : given + floor + (unusedGas - (given + floor)) = unusedGas := by omega
  by_cases first : action.gas + floor ≤ Gas.MAX
  · rw [safeAddGas_of_le first, ApplyError.ofOverflow_ok, Except.ok_bind,
      checkedAddOrPanic_of_le (Nat.le_trans within fits), Except.ok_bind, remainder_mod fits within,
      checkedAddOrPanic_of_le (show given + floor + (unusedGas - (given + floor)) ≤ Gas.MAX by omega),
      Except.ok_bind, handed]
    by_cases second : action.gas + floor + (unusedGas - (given + floor)) ≤ Gas.MAX
    · rw [safeAddGas_of_le second, safeAddGas_of_le (by omega), Nat.add_assoc]
      simp only [ApplyError.ofOverflow_ok, Except.ok_bind, Except.pure_eq_ok, Except.functor_map_ok]
    · rw [safeAddGas_of_lt (by omega), safeAddGas_of_lt (by omega)]
      simp only [ApplyError.ofOverflow_error, Except.error_bind, Except.functor_map_error]
  · rw [safeAddGas_of_lt (by omega), safeAddGas_of_lt (by omega)]
    simp only [ApplyError.ofOverflow_error, Except.error_bind, Except.functor_map_error]

theorem addShares_cons_of_found {share : Nat} {rest : List (FunctionCallActionIndex × Nat)}
    {action : FunctionCallAction} (found : functionCallAt receipts index = some action) :
    addShares receipts ((index, share) :: rest) =
      ApplyError.ofOverflow (safeAddGas action.gas share) >>= fun gas =>
        addShares (setFunctionCallGas receipts index gas) rest := by
  simp only [addShares, found]

theorem addShares_cons_of_none {share : Nat} {rest : List (FunctionCallActionIndex × Nat)}
    (missing : functionCallAt receipts index = none) :
    addShares receipts ((index, share) :: rest) = .error (.panic "Invalid function call index") := by
  simp only [addShares, missing, Except.throw_eq_error]

/-- The loop hands out the floor shares, the remainder to the last, from whatever was handed out
before it, as long as the floors fit in the unused gas. -/
theorem distributeGasLoop_eq (fits : unusedGas ≤ Gas.MAX) :
    ∀ (given : Nat) (receipts : List ReceiptMetadata) (gasWeights : List (FunctionCallActionIndex × Nat)),
      gasWeights ≠ [] →
      given + ((gasWeights.map Prod.snd).map fun weight => unusedGas * weight / gasWeightSum).sum ≤ unusedGas →
      distributeGasLoop unusedGas gasWeightSum given receipts gasWeights =
        (fun receipts => (unusedGas, receipts)) <$> addShares receipts ((gasWeights.map Prod.fst).zip
          (List.floorSharesFrom unusedGas gasWeightSum given (gasWeights.map Prod.snd)))
  | _, _, [], nonempty, _ => absurd rfl nonempty
  | given, receipts, [(index, weight)], _, within => by
    simp only [List.map_cons, List.map_nil, List.sum_cons, List.sum_nil, Nat.add_zero] at within
    rw [List.map_cons, List.map_cons, List.map_nil, List.map_nil, List.floorSharesFrom_singleton, List.zip_cons_cons,
      List.zip_nil_left, distributeGasLoop.eq_2, List.isEmpty_nil]
    cases found : functionCallAt receipts index with
    | none =>
      rw [distributeGasStep_of_none found, addShares_cons_of_none found, Except.error_bind, Except.functor_map_error]
    | some action =>
      rw [distributeGasStep_of_last fits found within, addShares_cons_of_found found]
      cases ApplyError.ofOverflow (safeAddGas action.gas
          (unusedGas * weight / gasWeightSum + (unusedGas - (given + unusedGas * weight / gasWeightSum)))) with
      | error e => simp only [Except.functor_map_error, Except.error_bind]
      | ok gas => simp only [Except.functor_map_ok, Except.ok_bind, distributeGasLoop, addShares]
  | given, receipts, (index, weight) :: next :: rest, _, within => by
    simp only [List.map_cons, List.sum_cons] at within
    -- the floors of the later weights only make room smaller
    have floorFits : given + unusedGas * weight / gasWeightSum ≤ unusedGas :=
      Nat.le_trans (Nat.add_le_add_left (Nat.le_add_right _ _) _) within
    rw [List.map_cons, List.map_cons, List.map_cons, List.map_cons, List.floorSharesFrom_cons_cons,
      List.zip_cons_cons, distributeGasLoop.eq_2,
      List.isEmpty_cons]
    cases found : functionCallAt receipts index with
    | none =>
      rw [distributeGasStep_of_none found, addShares_cons_of_none found, Except.error_bind, Except.functor_map_error]
    | some action =>
      rw [distributeGasStep_of_not_last fits found floorFits, addShares_cons_of_found found]
      cases ApplyError.ofOverflow (safeAddGas action.gas (unusedGas * weight / gasWeightSum)) with
      | error e => simp only [Except.functor_map_error, Except.error_bind]
      | ok gas =>
        rw [Except.functor_map_ok, Except.ok_bind, Except.ok_bind]
        exact distributeGasLoop_eq fits (given + unusedGas * weight / gasWeightSum) _ (next :: rest)
          (List.cons_ne_nil _ _) (by simpa [Nat.add_assoc] using within)

/-- `distribute_gas` hands out the floor shares of the unused gas by the weights, the remainder to
the last; the assertion at its end never fails. -/
theorem distributeGas_eq_addShares (manager : ReceiptManager) {unusedGas : Nat} (fits : unusedGas ≤ Gas.MAX) :
    manager.distributeGas unusedGas =
      if (manager.gasWeights.map Prod.snd).sum = 0 ∨ unusedGas = 0 then .ok (0, manager)
      else (fun receipts => (unusedGas, { manager with actionReceipts := receipts })) <$>
        addShares manager.actionReceipts (manager.gasShares unusedGas) := by
  unfold ReceiptManager.distributeGas
  dsimp only
  split
  · rfl
  · rename_i something
    have nonempty : manager.gasWeights ≠ [] := fun empty => something (Or.inl (by simp [empty]))
    -- the floors of all the weights fit in the unused gas, as the weights add up to their sum
    have within : ((manager.gasWeights.map Prod.snd).map fun weight =>
        unusedGas * weight / (manager.gasWeights.map Prod.snd).sum).sum ≤ unusedGas :=
      List.sum_map_div_le (Nat.le_refl _)
    rw [distributeGasLoop_eq fits 0 _ _ nonempty (by rw [Nat.zero_add]; exact within),
      ReceiptManager.gasShares, List.floorShares]
    cases addShares manager.actionReceipts ((manager.gasWeights.map Prod.fst).zip
        (List.floorSharesFrom unusedGas (manager.gasWeights.map Prod.snd).sum 0 (manager.gasWeights.map Prod.snd))) with
    | error e => simp only [Except.functor_map_error, Except.error_bind]
    | ok receipts => simp only [Except.functor_map_ok, Except.ok_bind, if_true, Except.pure_eq_ok]

/-- A `distribute_gas` that returns has handed out nothing or all the unused gas. -/
theorem distributeGas_eq_zero_or_unused {manager manager' : ReceiptManager} {unusedGas distributed : Nat}
    (done : manager.distributeGas unusedGas = .ok (distributed, manager')) :
    distributed = 0 ∨ distributed = unusedGas := by
  unfold ReceiptManager.distributeGas at done
  dsimp only at done
  split at done
  · cases done
    exact Or.inl rfl
  · cases loop : distributeGasLoop unusedGas (manager.gasWeights.map Prod.snd).sum 0 manager.actionReceipts
        manager.gasWeights with
    | error e => rw [loop] at done; cases done
    | ok result =>
      rw [loop, Except.ok_bind] at done
      -- the assertion `unused_gas == distributed`
      split at done
      · rename_i asserted
        cases done
        exact Or.inr asserted.symm
      · cases done

theorem functionCallAt_eq_some {receipts : List ReceiptMetadata} {index : FunctionCallActionIndex}
    {action : FunctionCallAction} (found : functionCallAt receipts index = some action) :
    ∃ receipt, receipts[index.receiptIndex]? = some receipt ∧
      receipt.actions[index.actionIndex]? = some (.nonDelegate (.functionCall action)) := by
  unfold functionCallAt at found
  cases lookup : receipts[index.receiptIndex]? with
  | none => rw [lookup] at found; cases found
  | some receipt =>
    rw [lookup, Option.bind_eq_bind, Option.bind_some] at found
    refine ⟨receipt, rfl, ?_⟩
    split at found
    · rename_i call inner
      cases found
      exact inner
    · cases found

/-- Setting the gas of a function call changes the gas of the receipts by the difference. -/
theorem prepaidGasOf_setFunctionCallGas {receipts : List ReceiptMetadata} {index : FunctionCallActionIndex}
    {action : FunctionCallAction} (found : functionCallAt receipts index = some action) (gas : Nat) :
    prepaidGasOf (setFunctionCallGas receipts index gas) + action.gas = prepaidGasOf receipts + gas := by
  obtain ⟨receipt, lookup, inner⟩ := functionCallAt_eq_some found
  -- once for the receipt among the receipts, once for the action among its actions
  have outer := List.sum_map_modify_add (fun receipt : ReceiptMetadata => (receipt.actions.map Action.getPrepaidGas).sum)
    (fun receipt => { actions := receipt.actions.modify index.actionIndex fun
        | .nonDelegate (.functionCall action) => .nonDelegate (.functionCall { action with gas })
        | action => action }) receipts index.receiptIndex lookup
  have within := List.sum_map_modify_add Action.getPrepaidGas (fun
        | .nonDelegate (.functionCall action) => .nonDelegate (.functionCall { action with gas })
        | action => action) receipt.actions index.actionIndex inner
  simp only [Action.getPrepaidGas] at within
  dsimp only at outer
  unfold prepaidGasOf setFunctionCallGas
  omega


/-- Handing out shares raises the gas of the receipts by the shares. -/
theorem prepaidGasOf_addShares :
    ∀ {receipts receipts' : List ReceiptMetadata} {shares : List (FunctionCallActionIndex × Nat)},
      addShares receipts shares = .ok receipts' →
      prepaidGasOf receipts' = prepaidGasOf receipts + (shares.map Prod.snd).sum
  | receipts, receipts', [], handed => by
    cases handed
    simp
  | receipts, receipts', (index, share) :: rest, handed => by
    cases found : functionCallAt receipts index with
    | none => rw [addShares_cons_of_none found] at handed; cases handed
    | some action =>
      rw [addShares_cons_of_found found] at handed
      cases added : ApplyError.ofOverflow (safeAddGas action.gas share) with
      | error e => rw [added] at handed; cases handed
      | ok gas =>
        rw [added, Except.ok_bind] at handed
        have raised := safeAddGas_eq_ok (ofOverflow_eq_ok added)
        have later := prepaidGasOf_addShares handed
        have set := prepaidGasOf_setFunctionCallGas found gas
        simp only [List.map_cons, List.sum_cons]
        omega

/-- A `distribute_gas` that returns hands out all the unused gas across the weighted function
calls, or nothing when there is nothing to share. -/
theorem distributeGas_hands_out {manager manager' : ReceiptManager} {unusedGas distributed : Nat}
    (fits : unusedGas ≤ Gas.MAX) (done : manager.distributeGas unusedGas = .ok (distributed, manager')) :
    distributed = (if (manager.gasWeights.map Prod.snd).sum = 0 ∨ unusedGas = 0 then 0 else unusedGas) ∧
      prepaidGasOf manager'.actionReceipts = prepaidGasOf manager.actionReceipts + distributed := by
  rw [distributeGas_eq_addShares manager fits] at done
  split at done
  · rename_i nothing
    cases done
    exact ⟨(if_pos nothing).symm, rfl⟩
  · rename_i something
    cases handed : addShares manager.actionReceipts (manager.gasShares unusedGas) with
    | error e => rw [handed] at done; cases done
    | ok receipts =>
      rw [handed, Except.functor_map_ok] at done
      cases done
      have nonempty : manager.gasWeights.map Prod.snd ≠ [] := fun empty => something (Or.inl (by simp [empty]))
      -- the shares are as many as the weights, and add up to the unused gas
      have shares : (manager.gasShares unusedGas).map Prod.snd =
          List.floorShares unusedGas (manager.gasWeights.map Prod.snd).sum (manager.gasWeights.map Prod.snd) :=
        List.map_snd_zip (by rw [List.floorShares, List.length_floorSharesFrom, List.length_map, List.length_map])
      refine ⟨(if_neg something).symm, ?_⟩
      rw [prepaidGasOf_addShares handed, shares, List.sum_floorShares nonempty (Nat.le_refl _)]

end Loop

end Nearcore
