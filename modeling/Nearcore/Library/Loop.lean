import Mathlib

/-! A `loop` whose body, from a state, fails, breaks, or goes on with a new state, as Rust's
`loop { … }` with `break` and `assert!` in its body. It is run by well-founded recursion on a
variant that every pass going on lowers, so a loop with a bound on its passes (an `assert!`
on a counter) is modelled without fuel. What every pass keeps holds where the loop breaks;
a body that does not fail from the states of an invariant makes the loop return. -/
namespace Loop

variable {σ ε : Type}

-- the bound `lower` is read by the termination proof only
set_option linter.unusedVariables false in
/-- The loop of `pass` from `s`: the state it breaks in. -/
def run (pass : σ → Except ε (Option σ)) (variant : σ → Nat)
    (decreases : ∀ s s', pass s = .ok (some s') → variant s' < variant s) (s : σ) : Except ε σ :=
  match passed : pass s with
  | .error e => .error e
  | .ok none => .ok s
  | .ok (some s') =>
    have lower : variant s' < variant s := decreases s s' passed
    run pass variant decreases s'
termination_by variant s

section
attribute [local simp] run
end

variable {pass : σ → Except ε (Option σ)} {variant : σ → Nat}
  {decreases : ∀ s s', pass s = .ok (some s') → variant s' < variant s}

theorem run_of_error {s : σ} {e : ε} (failed : pass s = .error e) :
    run pass variant decreases s = .error e := by
  rw [run]
  split <;> simp_all

theorem run_of_break {s : σ} (broke : pass s = .ok none) : run pass variant decreases s = .ok s := by
  rw [run]
  split <;> simp_all

theorem run_of_continue {s s' : σ} (continued : pass s = .ok (some s')) :
    run pass variant decreases s = run pass variant decreases s' := by
  rw [run]
  split
  · simp_all
  · simp_all
  · rename_i next passed
    rw [continued] at passed
    cases passed
    rfl

/-- What every pass that goes on keeps holds in the state the loop breaks in. -/
theorem run_invariant (Inv : σ → Prop) (step : ∀ s s', Inv s → pass s = .ok (some s') → Inv s') :
    ∀ {s r : σ}, Inv s → run pass variant decreases s = .ok r → Inv r ∧ pass r = .ok none := by
  intro s
  -- on the variant, which each pass that goes on lowers
  induction s using WellFounded.induction (InvImage.wf variant Nat.lt_wfRel.wf) with
  | _ s ih =>
    intro r holds ran
    cases passed : pass s with
    | error e =>
      rw [run_of_error passed] at ran
      cases ran
    | ok next =>
      cases next with
      | none =>
        rw [run_of_break passed] at ran
        cases ran
        exact ⟨holds, passed⟩
      | some s' =>
        rw [run_of_continue passed] at ran
        exact ih s' (decreases s s' passed) (step s s' holds passed) ran

/-- A loop whose body does not fail from the states of an invariant it keeps returns. -/
theorem run_ok_of_invariant (Inv : σ → Prop) (step : ∀ s s', Inv s → pass s = .ok (some s') → Inv s')
    (total : ∀ s, Inv s → ∃ next, pass s = .ok next) :
    ∀ {s : σ}, Inv s → ∃ r, run pass variant decreases s = .ok r := by
  intro s
  induction s using WellFounded.induction (InvImage.wf variant Nat.lt_wfRel.wf) with
  | _ s ih =>
    intro holds
    obtain ⟨next, passed⟩ := total s holds
    cases next with
    | none => exact ⟨s, run_of_break passed⟩
    | some s' =>
      rw [run_of_continue passed]
      exact ih s' (decreases s s' passed) (step s s' holds passed)

end Loop
