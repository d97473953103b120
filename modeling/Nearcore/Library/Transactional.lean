import Mathlib

/-! A key-value store with transactions, as a state update with prospective and committed changes
is meant to behave: writes go to a pending view, a commit makes the pending view the committed
one, and a rollback discards the pending view. -/
namespace Transactional

/-- The committed view and the pending view of the store. -/
structure Store (K V : Type) where
  committed : K → Option V
  pending : K → Option V

/-- What can be done to a store: write a value or remove it (`none`), commit, roll back. -/
inductive Op (K V : Type) where
  | write (key : K) (value : Option V)
  | commit
  | rollback

namespace Store

variable {K V : Type}

/-- A store over `base` with nothing written yet. -/
def init (base : K → Option V) : Store K V := ⟨base, base⟩

def commit (store : Store K V) : Store K V := { store with committed := store.pending }

section
attribute [local simp] commit
end

def rollback (store : Store K V) : Store K V := { store with pending := store.committed }

@[simp] theorem committed_commit (store : Store K V) : store.commit.committed = store.pending := rfl

@[simp] theorem pending_commit (store : Store K V) : store.commit.pending = store.pending := rfl

@[simp] theorem pending_rollback (store : Store K V) : store.rollback.pending = store.committed := rfl

@[simp] theorem committed_rollback (store : Store K V) : store.rollback.committed = store.committed := rfl

variable [DecidableEq K]

def write (store : Store K V) (key : K) (value : Option V) : Store K V :=
  { store with pending := Function.update store.pending key value }

section
attribute [local simp] write
end

def step (store : Store K V) : Op K V → Store K V
  | .write key value => store.write key value
  | .commit => store.commit
  | .rollback => store.rollback

section
attribute [local simp] step
end

def run (store : Store K V) (ops : List (Op K V)) : Store K V := ops.foldl step store

section
attribute [local simp] run
end

@[simp] theorem pending_write (store : Store K V) (key : K) (value : Option V) :
    (store.write key value).pending = Function.update store.pending key value := rfl

@[simp] theorem committed_write (store : Store K V) (key : K) (value : Option V) :
    (store.write key value).committed = store.committed := rfl

@[simp] theorem run_nil (store : Store K V) : store.run [] = store := rfl

@[simp] theorem run_cons (store : Store K V) (op : Op K V) (ops : List (Op K V)) :
    store.run (op :: ops) = (store.step op).run ops := rfl

theorem run_append (store : Store K V) (ops ops' : List (Op K V)) :
    store.run (ops ++ ops') = (store.run ops).run ops' := List.foldl_append

/-- Writes leave the committed view alone. -/
theorem committed_run_writes (store : Store K V) :
    ∀ writes : List (K × Option V),
      (store.run (writes.map fun write => .write write.1 write.2)).committed = store.committed
  | [] => rfl
  | write :: writes => committed_run_writes (store.write write.1 write.2) writes

/-- A rollback undoes every write since the last commit: after it the pending view is the
committed one, as it was before the writes. -/
theorem run_rollback (store : Store K V) (writes : List (K × Option V)) :
    (store.run (writes.map fun write => .write write.1 write.2)).rollback.pending = store.committed := by
  rw [pending_rollback, committed_run_writes]

end Store

end Transactional
