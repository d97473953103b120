import Mathlib

/-! Evaluation of `Except` binds and of state-passing code over `Except`, so that fallible
code whose first step is known can be run step by step; and `mapM` over a list or a vector
whose every element succeeds. The same for code that may also fail without a value, over two
layers of errors (`OptionT (ExceptT ε (Except π))`): it returns when neither layer errs and the
option holds a value. -/
namespace Except

variable {ε α β : Type}

@[simp] theorem ok_bind (a : α) (f : α → Except ε β) : (Except.ok a >>= f) = f a := rfl

@[simp] theorem error_bind (e : ε) (f : α → Except ε β) : (Except.error e >>= f) = Except.error e := rfl

@[simp] theorem pure_eq_ok (a : α) : (pure a : Except ε α) = Except.ok a := rfl

@[simp] theorem bind_ok_eq (x : Except ε α) : (x >>= fun a => Except.ok a) = x := by
  cases x <;> rfl

@[simp] theorem functor_map_ok (f : α → β) (a : α) :
    (f <$> (Except.ok a : Except ε α)) = Except.ok (f a) := rfl

@[simp] theorem functor_map_error (f : α → β) (e : ε) :
    (f <$> (Except.error e : Except ε α)) = Except.error e := rfl

@[simp] theorem throw_eq_error (e : ε) : (throw e : Except ε α) = Except.error e := rfl

/-- A bind that succeeds ran its first step successfully. -/
theorem bind_eq_ok {x : Except ε α} {f : α → Except ε β} {b : β} (ok : (x >>= f) = .ok b) :
    ∃ a, x = .ok a ∧ f a = .ok b := by
  cases x with
  | error e => cases ok
  | ok a => exact ⟨a, rfl, ok⟩

/-- A bind whose first step does not fail with `e`, and whose rest does not after any success of
it, does not fail with `e`. -/
theorem bind_ne_error {x : Except ε α} {f : α → Except ε β} {e : ε} (first : x ≠ .error e)
    (rest : ∀ a, x = .ok a → f a ≠ .error e) : (x >>= f) ≠ .error e := by
  cases x with
  | error e' =>
    intro failed
    cases failed
    exact first rfl
  | ok a => exact rest a rfl

/-- A computation whose error is mapped succeeds where the computation does. -/
@[simp] theorem mapError_eq_ok {ε' : Type} {f : ε → ε'} {x : Except ε α} {a : α} :
    x.mapError f = .ok a ↔ x = .ok a := by
  cases x <;> simp [Except.mapError]

end Except

namespace StateT

variable {σ ε α β : Type}

/-- A step that succeeds hands its result and state to the rest. -/
theorem bind_apply_of_ok {x : StateT σ (Except ε) α} {f : α → StateT σ (Except ε) β}
    {s s' : σ} {a : α} (step : x s = .ok (a, s')) : (x >>= f) s = f a s' := by
  simp only [bind, StateT.bind, step]
  rfl

theorem bind_apply_of_error {x : StateT σ (Except ε) α} {f : α → StateT σ (Except ε) β}
    {s : σ} {e : ε} (step : x s = .error e) : (x >>= f) s = .error e := by
  simp only [bind, StateT.bind, step]
  rfl

theorem map_apply_of_ok {x : StateT σ (Except ε) α} {f : α → β} {s s' : σ} {a : α}
    (step : x s = .ok (a, s')) : (f <$> x) s = .ok (f a, s') := by
  simp only [Functor.map, StateT.map, step]
  rfl

@[simp] theorem pure_apply (a : α) (s : σ) : (pure a : StateT σ (Except ε) α) s = .ok (a, s) :=
  rfl

@[simp] theorem throw_apply (e : ε) (s : σ) : (throw e : StateT σ (Except ε) α) s = .error e :=
  rfl

/-- A `mapM` whose first step succeeds goes on from that step's state. -/
theorem mapM_cons_apply_of_ok {f : α → StateT σ (Except ε) β} {a : α} {l : List α} {s s' : σ} {b : β}
    (step : f a s = .ok (b, s')) :
    (a :: l).mapM f s = (fun r : List β × σ => (b :: r.1, r.2)) <$> l.mapM f s' := by
  rw [List.mapM_cons, bind_apply_of_ok step]
  cases rest : l.mapM f s' with
  | error e => rw [bind_apply_of_error rest]; rfl
  | ok r => rw [bind_apply_of_ok rest]; rfl

/-- A `mapM` whose first step fails fails with its error. -/
theorem mapM_cons_apply_of_error {f : α → StateT σ (Except ε) β} {a : α} {l : List α} {s : σ} {e : ε}
    (step : f a s = .error e) : (a :: l).mapM f s = .error e := by
  rw [List.mapM_cons, bind_apply_of_error step]

/-- A `mapM` over `l ++ l'` whose run over `l` succeeds goes on over `l'` from where it ended. -/
theorem mapM_append_apply_of_ok {f : α → StateT σ (Except ε) β} :
    ∀ {l : List α} (l' : List α) {s s' : σ} {bs : List β}, l.mapM f s = .ok (bs, s') →
      (l ++ l').mapM f s = (fun r : List β × σ => (bs ++ r.1, r.2)) <$> l'.mapM f s'
  | [], l', s, s', bs, done => by
    rw [List.mapM_nil, pure_apply] at done
    cases done
    rw [List.nil_append]
    cases l'.mapM f s <;> rfl
  | a :: l, l', s, s', bs, done => by
    -- the run over `a :: l` splits at its first step, which must have succeeded
    cases step : f a s with
    | error e => simp [List.mapM_cons, bind_apply_of_error step] at done
    | ok r =>
      obtain ⟨b, s₁⟩ := r
      cases rest : l.mapM f s₁ with
      | error e => simp [mapM_cons_apply_of_ok step, rest] at done
      | ok r' =>
        obtain ⟨bs', s₂⟩ := r'
        rw [mapM_cons_apply_of_ok step, rest] at done
        cases done
        rw [List.cons_append, mapM_cons_apply_of_ok step, mapM_append_apply_of_ok l' rest]
        dsimp only
        cases l'.mapM f s₂ <;> rfl

end StateT

namespace List

variable {ε α β : Type}

/-- A `mapM` whose every step succeeds succeeds, each output the step's. -/
theorem mapM_of_ok {f : α → Except ε β} :
    ∀ {l : List α}, (∀ a ∈ l, ∃ b, f a = .ok b) →
      ∃ l', l.mapM f = .ok l' ∧ List.Forall₂ (fun a b => f a = .ok b) l l'
  | [], _ => ⟨[], rfl, .nil⟩
  | a :: rest, ok => by
    obtain ⟨b, first⟩ := ok a mem_cons_self
    obtain ⟨l', others, all⟩ := mapM_of_ok fun x mem => ok x (mem_cons_of_mem _ mem)
    exact ⟨b :: l', by simp [first, others], .cons first all⟩

/-- A `mapM` that succeeds ran every step successfully, each output the step's. -/
theorem forall₂_of_mapM_eq_ok {f : α → Except ε β} :
    ∀ {l : List α} {l' : List β}, l.mapM f = .ok l' → List.Forall₂ (fun a b => f a = .ok b) l l'
  | [], l', done => by
    cases done
    exact .nil
  | a :: rest, l', done => by
    rw [mapM_cons] at done
    obtain ⟨b, first, done⟩ := Except.bind_eq_ok done
    obtain ⟨others, mapped, done⟩ := Except.bind_eq_ok done
    cases done
    exact .cons first (forall₂_of_mapM_eq_ok mapped)

/-- A loop whose every step succeeds while an invariant holds, on the elements it runs
over, succeeds with the invariant at the end. The invariant may read the elements done. -/
theorem foldlM_of_invariant (f : β → α → Except ε β) (P : α → Prop) (I : List α → β → Prop)
    (step : ∀ done a s, P a → I done s → ∃ s', f s a = .ok s' ∧ I (done ++ [a]) s') :
    ∀ {l : List α}, (∀ a ∈ l, P a) → ∀ done s, I done s →
      ∃ s', l.foldlM f s = .ok s' ∧ I (done ++ l) s'
  | [], _, done, s, holds => ⟨s, rfl, by simpa using holds⟩
  | a :: rest, all, done, s, holds => by
    obtain ⟨s₁, first, holds₁⟩ := step done a s (all a mem_cons_self) holds
    obtain ⟨s', others, holds'⟩ :=
      foldlM_of_invariant f P I step (fun x mem => all x (mem_cons_of_mem _ mem)) _ s₁ holds₁
    exact ⟨s', by simp [first, others], by simpa using holds'⟩

/-- What every successful step keeps, a successful loop keeps. The invariant may read the
elements done. -/
theorem foldlM_invariant_of_ok {f : β → α → Except ε β} (I : List α → β → Prop)
    (step : ∀ done a s s', f s a = .ok s' → I done s → I (done ++ [a]) s') :
    ∀ {l done : List α} {s s' : β}, l.foldlM f s = .ok s' → I done s → I (done ++ l) s'
  | [], done, s, s', done_ok, holds => by
    cases done_ok
    simpa using holds
  | a :: rest, done, s, s', done_ok, holds => by
    rw [foldlM_cons] at done_ok
    cases first : f s a with
    | error e => rw [first] at done_ok; cases done_ok
    | ok s₁ =>
      rw [first] at done_ok
      simpa using foldlM_invariant_of_ok I step done_ok (step done a s s₁ first holds)

/-- The same for an invariant of the state alone. -/
theorem foldlM_keeps_of_ok {f : β → α → Except ε β} (I : β → Prop)
    (step : ∀ a s s', f s a = .ok s' → I s → I s') {l : List α} {s s' : β}
    (done_ok : l.foldlM f s = .ok s') (holds : I s) : I s' :=
  @foldlM_invariant_of_ok ε α β f (fun _ => I) (fun _ a s s' => step a s s') l [] s s' done_ok holds

/-- A loop whose steps, from the states of an invariant they keep, fail only with `e` fails
only with `e`. -/
theorem foldlM_error_of_invariant {f : β → α → Except ε β} {e : ε} (I : β → Prop)
    (keeps : ∀ a s s', I s → f s a = .ok s' → I s') :
    ∀ {l : List α}, (∀ a ∈ l, ∀ s e', I s → f s a = .error e' → e' = e) →
      ∀ {s : β} {e' : ε}, I s → l.foldlM f s = .error e' → e' = e
  | [], _, _, _, _, failed => by cases failed
  | a :: rest, only, s, e', holds, failed => by
    rw [foldlM_cons] at failed
    cases first : f s a with
    | error e₁ =>
      rw [first, Except.error_bind] at failed
      cases failed
      exact only a mem_cons_self s _ holds first
    | ok s₁ =>
      rw [first, Except.ok_bind] at failed
      exact foldlM_error_of_invariant I keeps (fun x member => only x (mem_cons_of_mem _ member))
        (keeps a s s₁ holds first) failed

/-- Such a loop, over a list with an element at which every step from the invariant fails,
fails with `e`. -/
theorem foldlM_eq_error_of_mem {f : β → α → Except ε β} {e : ε} (I : β → Prop)
    (keeps : ∀ a s s', I s → f s a = .ok s' → I s') {a : α}
    (fails : ∀ s, I s → ∃ e', f s a = .error e') :
    ∀ {l : List α}, (∀ x ∈ l, ∀ s e', I s → f s x = .error e' → e' = e) → a ∈ l →
      ∀ {s : β}, I s → l.foldlM f s = .error e
  | [], _, member, _, _ => by cases member
  | x :: rest, only, member, s, holds => by
    rw [foldlM_cons]
    cases first : f s x with
    | error e₁ => rw [Except.error_bind, only x mem_cons_self s e₁ holds first]
    | ok s₁ =>
      rw [Except.ok_bind]
      -- the failing element is further on: at the head the step went through
      have later : a ∈ rest := by
        rcases mem_cons.mp member with same | later
        · subst same
          obtain ⟨e', failed⟩ := fails s holds
          rw [first] at failed
          cases failed
        · exact later
      exact foldlM_eq_error_of_mem I keeps fails (fun y member => only y (mem_cons_of_mem _ member)) later
        (keeps x s s₁ holds first)

/-- A loop that leaves its state alone on the elements a test rejects is the loop over the
elements the test accepts. -/
theorem foldlM_ite_pure {m : Type → Type} [Monad m] [LawfulMonad m] {γ : Type} (p : α → Prop)
    [DecidablePred p] (g : α → γ) (f : β → γ → m β) :
    ∀ (l : List α) (b : β), l.foldlM (fun acc x => if p x then f acc (g x) else pure acc) b =
      ((l.filter fun x => decide (p x)).map g).foldlM f b
  | [], _ => rfl
  | x :: l, b => by
    by_cases accepted : p x
    · simp [accepted, foldlM_ite_pure p g f l]
    · simp [accepted, foldlM_ite_pure p g f l]

/-- A loop that adds one amount per element, with an addition that is exact up to `bound` and
amounts that are exact whenever their value is within it, gives the sum when that is within the
bound: the partial sums only grow. -/
theorem foldlM_add_of_le {add : Nat → Nat → Except ε Nat} {bound : Nat}
    (exact : ∀ a b, a + b ≤ bound → add a b = .ok (a + b)) {amount : α → Except ε Nat} {value : α → Nat}
    (exactAmount : ∀ a, value a ≤ bound → amount a = .ok (value a)) :
    ∀ (l : List α) (acc : Nat), acc + (l.map value).sum ≤ bound →
      l.foldlM (fun total a => amount a >>= add total) acc = .ok (acc + (l.map value).sum)
  | [], acc, _ => by simp
  | a :: rest, acc, fits => by
    rw [map_cons, sum_cons] at fits ⊢
    have first : acc + value a ≤ bound := by omega
    rw [foldlM_cons, exactAmount a (by omega), Except.ok_bind, exact acc (value a) first, Except.ok_bind,
      foldlM_add_of_le exact exactAmount rest (acc + value a) (by omega), Nat.add_assoc]

end List

namespace Vector

variable {ε α β : Type} {n : Nat}

/-- The same for a vector, through the list of its elements. -/
theorem mapM_of_ok {f : α → Except ε β} {xs : Vector α n} (ok : ∀ a ∈ xs.toList, ∃ b, f a = .ok b) :
    ∃ ys : Vector β n, xs.mapM f = .ok ys ∧ ∀ (j : Nat) (h : j < n), f xs[j] = .ok ys[j] := by
  obtain ⟨l', listed, all⟩ := List.mapM_of_ok ok
  have arrays : toArray <$> xs.mapM f = .ok l'.toArray := by
    rw [Vector.toArray_mapM, Array.mapM_eq_mapM_toList, Vector.toList_toArray, listed]
    rfl
  cases result : xs.mapM f with
  | error e => rw [result] at arrays; cases arrays
  | ok ys =>
    rw [result] at arrays
    have same : ys.toList = l' := by
      simpa [Vector.toList] using congrArg Array.toList (Except.ok.inj arrays)
    refine ⟨ys, rfl, fun j h => ?_⟩
    obtain ⟨-, pointwise⟩ := List.forall₂_iff_get.mp all
    have := pointwise j (by simpa using h) (by rw [← same]; simpa using h)
    simpa [← same] using this

end Vector

namespace OptionT

variable {ε π α β : Type}

@[simp] theorem run_run_pure (a : α) :
    (pure a : OptionT (ExceptT ε (Except π)) α).run.run = .ok (.ok (some a)) := rfl

@[simp] theorem run_run_throwThe (e : ε) :
    (throwThe ε e : OptionT (ExceptT ε (Except π)) α).run.run = .ok (.error e) := rfl

theorem run_run_bind_of_some {x : OptionT (ExceptT ε (Except π)) α} {f : α → OptionT (ExceptT ε (Except π)) β}
    {a : α} (first : x.run.run = .ok (.ok (some a))) : (x >>= f).run.run = (f a).run.run := by
  match x, first with
  | .ok (.ok (some _)), rfl => rfl

theorem run_run_bind_eq_some {x : OptionT (ExceptT ε (Except π)) α} {f : α → OptionT (ExceptT ε (Except π)) β}
    {b : β} (ran : (x >>= f).run.run = .ok (.ok (some b))) :
    ∃ a, x.run.run = .ok (.ok (some a)) ∧ (f a).run.run = .ok (.ok (some b)) := by
  match x, ran with
  | .ok (.ok (some a)), ran => exact ⟨a, rfl, ran⟩
  | .ok (.ok none), ran => cases ran
  | .ok (.error _), ran => cases ran
  | .error _, ran => cases ran

theorem run_run_map_of_some {x : OptionT (ExceptT ε (Except π)) α} {f : α → β} {a : α}
    (first : x.run.run = .ok (.ok (some a))) : (f <$> x).run.run = .ok (.ok (some (f a))) := by
  match x, first with
  | .ok (.ok (some _)), rfl => rfl

theorem run_run_map_eq_some {x : OptionT (ExceptT ε (Except π)) α} {f : α → β} {b : β}
    (ran : (f <$> x).run.run = .ok (.ok (some b))) : ∃ a, x.run.run = .ok (.ok (some a)) ∧ f a = b := by
  match x, ran with
  | .ok (.ok (some a)), ran => exact ⟨a, rfl, by cases ran; rfl⟩
  | .ok (.ok none), ran => cases ran
  | .ok (.error _), ran => cases ran
  | .error _, ran => cases ran

/-- A computation of the outer layer, lifted, returns what it returns. -/
@[simp] theorem run_run_liftM_eq_some {x : Except π α} {a : α} :
    (liftM x : OptionT (ExceptT ε (Except π)) α).run.run = .ok (.ok (some a)) ↔ x = .ok a := by
  cases x with
  | ok b =>
    change (Except.ok (Except.ok (some b)) : Except π (Except ε (Option α))) = _ ↔ _
    simp
  | error e =>
    change (Except.error e : Except π (Except ε (Option α))) = _ ↔ _
    simp

end OptionT
