import Mathlib

/-! Bitmaps over a list of flags: the number whose bit `i` is flag `i`, the count of its
trailing zeros, and clearing its lowest set bit with `n &&& (n - 1)`. A decoder that visits
the set bits of a bitmap this way fills the positions of the flags in increasing order,
which `fill` states without bits. -/
namespace Bitmap

/-- The number whose bit `i` is the `i`-th flag. -/
def ofBools : List Bool → Nat
  | [] => 0
  | b :: bs => Nat.bit b (ofBools bs)

section
attribute [local simp] ofBools
end

/-- The low `width` bits of `n`, lowest first. -/
def bitsOf : Nat → Nat → List Bool
  | 0, _ => []
  | width + 1, n => (n % 2 = 1) :: bitsOf width (n / 2)

section
attribute [local simp] bitsOf
end

/-- `trailing_zeros` of a `width`-bit number: the index of its lowest set bit, or `width`
when it has none. -/
def trailingZeros : Nat → Nat → Nat
  | 0, _ => 0
  | width + 1, n => if n % 2 = 1 then 0 else trailingZeros width (n / 2) + 1

section
attribute [local simp] trailingZeros
end

/-- Fills the positions whose flag is set with the values in order, keeping the others. -/
def fill {α : Type} : List Bool → List α → List (Option α) → List (Option α)
  | true :: bs, value :: values, _ :: slots => some value :: fill bs values slots
  | false :: bs, values, slot :: slots => slot :: fill bs values slots
  | _, _, slots => slots

section
attribute [local simp] fill
end

@[simp] theorem ofBools_nil : ofBools [] = 0 := rfl

@[simp] theorem ofBools_cons (b : Bool) (bs : List Bool) :
    ofBools (b :: bs) = Nat.bit b (ofBools bs) := rfl

theorem ofBools_lt (bs : List Bool) : ofBools bs < 2 ^ bs.length := by
  induction bs with
  | nil => simp
  | cons b bs ih =>
    rw [ofBools_cons, Nat.bit_val, List.length_cons, Nat.pow_succ]
    cases b <;> simp <;> omega

theorem ofBools_eq_zero_iff (bs : List Bool) : ofBools bs = 0 ↔ true ∉ bs := by
  induction bs with
  | nil => simp
  | cons b bs ih =>
    rw [ofBools_cons, Nat.bit_val, List.mem_cons, not_or, ← ih]
    cases b with
    | false =>
      simp only [Bool.toNat_false, Nat.add_zero, Bool.true_eq_false, not_false_eq_true, true_and]
      omega
    | true => simp

@[simp] theorem length_bitsOf (width n : Nat) : (bitsOf width n).length = width := by
  induction width generalizing n with
  | zero => rfl
  | succ width ih => simp [bitsOf, ih]

theorem ofBools_bitsOf (width n : Nat) : ofBools (bitsOf width n) = n % 2 ^ width := by
  induction width generalizing n with
  | zero => simp [bitsOf, Nat.mod_one]
  | succ width ih =>
    rw [bitsOf, ofBools_cons, ih, Nat.bit_val, Nat.pow_succ', Nat.mod_mul]
    rcases Nat.mod_two_eq_zero_or_one n with even | odd
    · simp [even]
    · simp [odd]; omega

theorem bitsOf_ofBools (bs : List Bool) : bitsOf bs.length (ofBools bs) = bs := by
  induction bs with
  | nil => rfl
  | cons b bs ih =>
    rw [List.length_cons, bitsOf, ofBools_cons, Nat.bit_div_two, ih, Nat.bit_mod_two]
    cases b <;> simp

/-- The lowest set bit is at the index of the first set flag. -/
theorem trailingZeros_ofBools (bs : List Bool) (width : Nat) (wide : bs.length ≤ width)
    (set : true ∈ bs) : trailingZeros width (ofBools bs) = bs.idxOf true := by
  induction bs generalizing width with
  | nil => simp at set
  | cons b bs ih =>
    cases width with
    | zero => simp at wide
    | succ width =>
      rw [trailingZeros, ofBools_cons, Nat.bit_mod_two, Nat.bit_div_two]
      cases b with
      | true => simp
      | false =>
        have rest : true ∈ bs := by simpa using set
        rw [ih width (by simp at wide; omega) rest]
        simp

theorem bit_and_bit (a b : Bool) (m n : Nat) :
    Nat.bit a m &&& Nat.bit b n = Nat.bit (a && b) (m &&& n) := by
  apply Nat.eq_of_testBit_eq
  intro i
  cases i with
  | zero => simp
  | succ i => simp only [Nat.testBit_and, Nat.testBit_bit_succ]

/-- `n &&& (n - 1)` clears the lowest set bit, the first set flag. -/
theorem ofBools_and_sub_one (bs : List Bool) :
    ofBools bs &&& (ofBools bs - 1) = ofBools (bs.set (bs.idxOf true) false) := by
  induction bs with
  | nil => rfl
  | cons b bs ih =>
    cases b with
    | true =>
      -- an odd number: `n - 1` clears bit zero and keeps the rest
      have lower : Nat.bit true (ofBools bs) - 1 = Nat.bit false (ofBools bs) := by
        simp only [Nat.bit_val]; simp
      rw [ofBools_cons, lower, bit_and_bit, Nat.and_self]
      simp
    | false =>
      by_cases set : true ∈ bs
      · -- an even number: `n - 1` sets bit zero and lowers the rest by one
        have positive : 0 < ofBools bs := Nat.pos_of_ne_zero ((ofBools_eq_zero_iff bs).not.mpr (by simpa using set))
        have lower : Nat.bit false (ofBools bs) - 1 = Nat.bit true (ofBools bs - 1) := by
          simp only [Nat.bit_val]; simp; omega
        rw [ofBools_cons, lower, bit_and_bit, ih]
        simp
      · have zero : ofBools bs = 0 := (ofBools_eq_zero_iff bs).mpr set
        have unset : (false :: bs).idxOf true = (false :: bs).length :=
          List.idxOf_eq_length (by simpa using set)
        rw [unset, List.set_eq_of_length_le (Nat.le_refl _), ofBools_cons, zero]
        rfl

theorem count_set_idxOf (bs : List Bool) (set : true ∈ bs) :
    (bs.set (bs.idxOf true) false).count true + 1 = bs.count true := by
  induction bs with
  | nil => simp at set
  | cons b bs ih =>
    cases b with
    | true => simp
    | false =>
      have rest : true ∈ bs := by simpa using set
      simp only [List.idxOf_cons_ne _ (Bool.false_ne_true), List.set_cons_succ, List.count_cons]
      simpa using ih rest

theorem count_map_isSome {α : Type} (options : List (Option α)) :
    (options.map Option.isSome).count true = options.reduceOption.length := by
  induction options with
  | nil => rfl
  | cons option options ih =>
    cases option with
    | none => simp [List.reduceOption_cons_of_none, ih]
    | some value => simp [List.reduceOption_cons_of_some, ih]

@[simp] theorem fill_nil_flags {α : Type} (values : List α) (slots : List (Option α)) :
    fill [] values slots = slots := by
  cases values <;> cases slots <;> rfl

/-- Filling the first set position and then the rest is filling them all. -/
theorem fill_set_first {α : Type} (bs : List Bool) (value : α) (values : List α)
    (slots : List (Option α)) (set : true ∈ bs) (fits : bs.length = slots.length) :
    fill bs (value :: values) slots =
      fill (bs.set (bs.idxOf true) false) values (slots.set (bs.idxOf true) (some value)) := by
  induction bs generalizing slots with
  | nil => simp at set
  | cons b bs ih =>
    cases slots with
    | nil => simp at fits
    | cons slot slots =>
      cases b with
      | true => simp [fill]
      | false =>
        have rest : true ∈ bs := by simpa using set
        simp only [List.idxOf_cons_ne _ (Bool.false_ne_true), List.set_cons_succ, fill]
        rw [ih slots rest (by simpa using fits)]

/-- Filling no position keeps the slots. -/
theorem fill_of_not_mem {α : Type} (bs : List Bool) (values : List α) (slots : List (Option α))
    (unset : true ∉ bs) : fill bs values slots = slots := by
  induction bs generalizing slots with
  | nil => simp
  | cons b bs ih =>
    cases b with
    | true => simp at unset
    | false =>
      cases slots with
      | nil => rfl
      | cons slot slots =>
        rw [fill, ih slots (by simpa using unset)]

/-- Filling the empty slots at the positions of present options gives back the options. -/
theorem fill_isSome_reduceOption {α : Type} (options : List (Option α)) :
    fill (options.map Option.isSome) options.reduceOption (List.replicate options.length none) =
      options := by
  induction options with
  | nil => rfl
  | cons option options ih =>
    cases option with
    | none => simp [fill, List.replicate_succ, List.reduceOption_cons_of_none, ih]
    | some value => simp [fill, List.replicate_succ, List.reduceOption_cons_of_some, ih]

theorem map_isSome_fill {α : Type} (bs : List Bool) (values : List α)
    (counted : values.length = bs.count true) :
    (fill bs values (List.replicate bs.length none)).map Option.isSome = bs := by
  induction bs generalizing values with
  | nil => rfl
  | cons b bs ih =>
    cases b with
    | true =>
      cases values with
      | nil => simp at counted
      | cons value values => simp [fill, List.replicate_succ, ih values (by simpa using counted)]
    | false => simp [fill, List.replicate_succ, ih values (by simpa using counted)]

theorem reduceOption_fill {α : Type} (bs : List Bool) (values : List α)
    (counted : values.length = bs.count true) :
    (fill bs values (List.replicate bs.length none)).reduceOption = values := by
  induction bs generalizing values with
  | nil => simp at counted; simp [counted]
  | cons b bs ih =>
    cases b with
    | true =>
      cases values with
      | nil => simp at counted
      | cons value values =>
        simp [fill, List.replicate_succ, List.reduceOption_cons_of_some,
          ih values (by simpa using counted)]
    | false =>
      simp [fill, List.replicate_succ, List.reduceOption_cons_of_none,
        ih values (by simpa using counted)]

theorem length_fill {α : Type} (bs : List Bool) (values : List α) (slots : List (Option α)) :
    (fill bs values slots).length = slots.length := by
  induction bs, values, slots using fill.induct with
  | case1 bs value values slot slots ih => simp [fill, ih]
  | case2 bs values slot slots ih => simp [fill, ih]
  | case3 bs values slots => cases bs <;> cases values <;> cases slots <;> simp_all [fill]

end Bitmap
