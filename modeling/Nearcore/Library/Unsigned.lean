import Nearcore.Library.Except

/-! Unsigned integer arithmetic as Rust compiles it with `overflow-checks` on: an operation whose
result does not fit in its type panics, with the message of the standard library, instead of
wrapping. Values are natural numbers below `2 ^ width`. -/
namespace Unsigned

/-- A panic, with its message. -/
structure Panic where
  message : String
  deriving DecidableEq, Repr

variable (width : Nat)

/-- `a + b`. -/
def add (a b : Nat) : Except Panic Nat :=
  if a + b < 2 ^ width then .ok (a + b) else .error ⟨"attempt to add with overflow"⟩

section
attribute [local simp] add
end

/-- `a - b`, which underflows below zero whatever the width. -/
def sub (a b : Nat) : Except Panic Nat :=
  if b ≤ a then .ok (a - b) else .error ⟨"attempt to subtract with overflow"⟩

section
attribute [local simp] sub
end

/-- `a * b`. -/
def mul (a b : Nat) : Except Panic Nat :=
  if a * b < 2 ^ width then .ok (a * b) else .error ⟨"attempt to multiply with overflow"⟩

section
attribute [local simp] mul
end

/-- `a / b`, which cannot overflow. -/
def div (a b : Nat) : Except Panic Nat :=
  if b = 0 then .error ⟨"attempt to divide by zero"⟩ else .ok (a / b)

section
attribute [local simp] div
end

/-- `a % b`, which cannot overflow. -/
def rem (a b : Nat) : Except Panic Nat :=
  if b = 0 then .error ⟨"attempt to calculate the remainder with a divisor of zero"⟩ else .ok (a % b)

section
attribute [local simp] rem
end

variable {width} {a b : Nat}

@[simp] theorem add_of_lt (fits : a + b < 2 ^ width) : add width a b = .ok (a + b) := if_pos fits

theorem add_of_le (exceeds : 2 ^ width ≤ a + b) : add width a b = .error ⟨"attempt to add with overflow"⟩ :=
  if_neg (Nat.not_lt.mpr exceeds)

/-- An addition fails only by overflowing. -/
theorem error_of_add {e : Panic} (failed : add width a b = .error e) : e = ⟨"attempt to add with overflow"⟩ := by
  unfold add at failed
  split at failed
  · cases failed
  · cases failed
    rfl

@[simp] theorem sub_of_le (le : b ≤ a) : sub a b = .ok (a - b) := if_pos le

theorem sub_of_lt (lt : a < b) : sub a b = .error ⟨"attempt to subtract with overflow"⟩ :=
  if_neg (Nat.not_le.mpr lt)

@[simp] theorem mul_of_lt (fits : a * b < 2 ^ width) : mul width a b = .ok (a * b) := if_pos fits

@[simp] theorem div_of_pos (positive : 0 < b) : div a b = .ok (a / b) :=
  if_neg (Nat.pos_iff_ne_zero.mp positive)

@[simp] theorem rem_of_pos (positive : 0 < b) : rem a b = .ok (a % b) :=
  if_neg (Nat.pos_iff_ne_zero.mp positive)

/-- A division that does not panic divides by a positive number. -/
theorem pos_of_div_eq_ok {q : Nat} (divided : div a b = .ok q) : 0 < b ∧ q = a / b := by
  unfold div at divided
  split at divided
  · cases divided
  · cases divided
    exact ⟨by omega, rfl⟩

/-- A product of two factors below powers of two is below their product. -/
theorem mul_lt_two_pow {i j : Nat} (ha : a < 2 ^ i) (hb : b < 2 ^ j) : a * b < 2 ^ (i + j) := by
  rw [Nat.pow_add]
  exact Nat.mul_lt_mul'' ha hb

/-- Values added one by one to `acc` with checked additions give their sum when it fits, and the
overflow panic when it does not: the partial sums only grow. -/
theorem foldlM_add : ∀ (values : List Nat) {acc : Nat}, acc < 2 ^ width →
    values.foldlM (add width) acc =
      if acc + values.sum < 2 ^ width then .ok (acc + values.sum)
      else .error ⟨"attempt to add with overflow"⟩
  | [], acc, fits => by simp [fits]
  | value :: values, acc, _ => by
    rw [List.foldlM_cons, List.sum_cons, ← Nat.add_assoc]
    by_cases first : acc + value < 2 ^ width
    · rw [add_of_lt first, Except.ok_bind, foldlM_add values first]
    · -- the first addition overflows, and so does the whole sum
      rw [add_of_le (Nat.not_lt.mp first), Except.error_bind, if_neg (by omega)]

end Unsigned
