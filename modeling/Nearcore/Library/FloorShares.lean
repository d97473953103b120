import Mathlib

/-! An amount split by weights: each weight gets the floor of its part of the amount, and the
last one also gets what the floors leave over. The floors never add up past the amount when
the weights add up to at most the total they are parts of, so the shares add up to the amount
exactly; and handing one entry of a list its share raises the list's sum by the share. -/
namespace List

/-- The shares of the weights, once `given` has been handed out before them. -/
def floorSharesFrom (amount total given : Nat) : List Nat → List Nat
  | [] => []
  | [weight] => [amount * weight / total + (amount - (given + amount * weight / total))]
  | weight :: rest => amount * weight / total :: floorSharesFrom amount total (given + amount * weight / total) rest

section
attribute [local simp] floorSharesFrom
end

theorem floorSharesFrom_singleton (amount total given weight : Nat) :
    floorSharesFrom amount total given [weight] =
      [amount * weight / total + (amount - (given + amount * weight / total))] := rfl

theorem floorSharesFrom_cons_cons (amount total given weight next : Nat) (rest : List Nat) :
    floorSharesFrom amount total given (weight :: next :: rest) =
      amount * weight / total :: floorSharesFrom amount total (given + amount * weight / total) (next :: rest) := rfl

/-- Floor shares of `amount` by `weights` out of `total`, the remainder to the last. -/
def floorShares (amount total : Nat) (weights : List Nat) : List Nat :=
  floorSharesFrom amount total 0 weights

section
attribute [local simp] floorShares
end

/-- The floors, scaled back by the total, are at most the amount times the weights. -/
theorem mul_sum_map_div_le (amount total : Nat) :
    ∀ weights : List Nat, total * (weights.map fun weight => amount * weight / total).sum ≤ amount * weights.sum
  | [] => by simp
  | weight :: rest => by
    have head := Nat.mul_div_le (amount * weight) total
    have tail := mul_sum_map_div_le amount total rest
    simp only [map_cons, sum_cons, Nat.mul_add]
    omega

/-- Floors of parts of the amount add up to at most the amount. -/
theorem sum_map_div_le {amount total : Nat} {weights : List Nat} (within : weights.sum ≤ total) :
    (weights.map fun weight => amount * weight / total).sum ≤ amount := by
  rcases Nat.eq_zero_or_pos total with rfl | positive
  · simp
  · apply Nat.le_of_mul_le_mul_left _ positive
    calc total * (weights.map fun weight => amount * weight / total).sum
        ≤ amount * weights.sum := mul_sum_map_div_le amount total weights
      _ ≤ amount * total := Nat.mul_le_mul_left amount within
      _ = total * amount := Nat.mul_comm amount total

theorem length_floorSharesFrom (amount total : Nat) :
    ∀ (given : Nat) (weights : List Nat), (floorSharesFrom amount total given weights).length = weights.length
  | _, [] => rfl
  | _, [_] => rfl
  | given, weight :: next :: rest => by
    simp only [floorSharesFrom, length_cons, length_floorSharesFrom amount total _ (next :: rest)]

/-- The shares hand out what was not given yet, when the floors fit in it. -/
theorem sum_floorSharesFrom (amount total : Nat) :
    ∀ (given : Nat) (weights : List Nat), weights ≠ [] →
      given + (weights.map fun weight => amount * weight / total).sum ≤ amount →
      (floorSharesFrom amount total given weights).sum = amount - given
  | _, [], nonempty, _ => absurd rfl nonempty
  | given, [weight], _, fits => by
    simp only [map_cons, map_nil, sum_cons, sum_nil] at fits
    simp only [floorSharesFrom, sum_cons, sum_nil]
    -- `omega` takes a division by a variable apart badly: name the floor first
    generalize amount * weight / total = floor at fits ⊢
    omega
  | given, weight :: next :: rest, _, fits => by
    simp only [map_cons, sum_cons] at fits
    have later := sum_floorSharesFrom amount total (given + amount * weight / total) (next :: rest)
      (cons_ne_nil _ _) (by simpa only [map_cons, sum_cons, Nat.add_assoc] using fits)
    simp only [floorSharesFrom]
    rw [sum_cons, later]
    generalize amount * weight / total = floor at fits ⊢
    generalize amount * next / total + (rest.map fun weight => amount * weight / total).sum = others at fits
    omega

/-- Weights that add up to at most the total split the amount exactly. -/
theorem sum_floorShares {amount total : Nat} {weights : List Nat} (nonempty : weights ≠ [])
    (within : weights.sum ≤ total) : (floorShares amount total weights).sum = amount := by
  have fits : (weights.map fun weight => amount * weight / total).sum ≤ amount := sum_map_div_le within
  rw [floorShares, sum_floorSharesFrom amount total 0 weights nonempty (by omega), Nat.sub_zero]

example : floorShares 10 6 [1, 2, 3] = [1, 3, 6] := by decide

/-- Changing one entry of a list changes its sum by the difference. -/
theorem sum_map_modify_add {α : Type} (value : α → Nat) (f : α → α) :
    ∀ (l : List α) (i : Nat) {a : α}, l[i]? = some a →
      ((l.modify i f).map value).sum + value a = (l.map value).sum + value (f a)
  | [], _, _, found => by simp at found
  | b :: l, 0, a, found => by
    simp only [getElem?_cons_zero, Option.some.injEq] at found
    subst found
    simp only [modify_zero_cons, map_cons, sum_cons]
    omega
  | b :: l, i + 1, a, found => by
    simp only [getElem?_cons_succ] at found
    have rest := sum_map_modify_add value f l i found
    simp only [modify_succ_cons, map_cons, sum_cons]
    omega

end List
