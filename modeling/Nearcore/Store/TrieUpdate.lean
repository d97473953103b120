import Nearcore.Library.Transactional

/-! `TrieUpdate` (`core/store/src/trie/update.rs`): the runtime's reads and writes over a trie.
Writes stay prospective until a commit appends them, with the commit's cause, to the committed
changes, and a rollback drops them. Keys and values are generic here (the source's are the
serialized `TrieKey` and bytes). The trie is a function from key to value: its storage errors,
the value pointers, the contract storage and the recorder are left out, as are the iterator and
`finalize`. -/
namespace Nearcore.Store

/-- `RawStateChange`: a committed value of a key, `none` for a removal, with its cause. -/
structure RawStateChange (V C : Type) where
  cause : C
  data : Option V

/-- `TrieUpdate`: the trie, the committed changes of each key in commit order, and the
prospective value of each key written since the last commit. -/
structure TrieUpdate (K V C : Type) where
  trie : K → Option V
  committed : K → List (RawStateChange V C)
  prospective : K → Option (Option V)

/-- The calls that change a `TrieUpdate`. -/
inductive TrieUpdateOp (K V C : Type) where
  | set (key : K) (value : V)
  | remove (key : K)
  | commit (cause : C)
  | rollback

/-- The call on the transactional store that each call on the state update makes. -/
def TrieUpdateOp.toOp {K V C : Type} : TrieUpdateOp K V C → Transactional.Op K V
  | .set key value => .write key (some value)
  | .remove key => .write key none
  | .commit _ => .commit
  | .rollback => .rollback

namespace TrieUpdate

variable {K V C : Type}

/-- `TrieUpdate::new`. -/
def new (trie : K → Option V) : TrieUpdate K V C := ⟨trie, fun _ => [], fun _ => none⟩

section
attribute [local simp] new
end

/-- `get_ref_from_updates`: the prospective value, else the last committed one. -/
def getRefFromUpdates (update : TrieUpdate K V C) (key : K) : Option (Option V) :=
  match update.prospective key with
  | some value => some value
  | none =>
    match (update.committed key).getLast? with
    | some change => some change.data
    | none => none

section
attribute [local simp] getRefFromUpdates
end

/-- `get_ref`, with the pointer it returns dereferenced. -/
def getRef (update : TrieUpdate K V C) (key : K) : Option V :=
  match update.getRefFromUpdates key with
  | some value => value
  | none => update.trie key

section
attribute [local simp] getRef
end

/-- `get_from_updates`. -/
def getFromUpdates (update : TrieUpdate K V C) (key : K) (fallback : K → Option V) : Option V :=
  match update.prospective key with
  | some value => value
  | none =>
    match (update.committed key).getLast? with
    | some change => change.data
    | none => fallback key

section
attribute [local simp] getFromUpdates
end

/-- `TrieAccess::get`. -/
def get (update : TrieUpdate K V C) (key : K) : Option V := update.getFromUpdates key update.trie

section
attribute [local simp] get
end

/-- `TrieAccess::get_no_side_effects`: the same read, without recording the trie nodes. -/
def getNoSideEffects (update : TrieUpdate K V C) (key : K) : Option V :=
  update.getFromUpdates key update.trie

/-- `contains_key`: any prospective entry of the key counts as present, a removal too. -/
def containsKey (update : TrieUpdate K V C) (key : K) : Bool :=
  if (update.prospective key).isSome then true
  else
    match (update.committed key).getLast? with
    | some change => change.data.isSome
    | none => (update.trie key).isSome

section
attribute [local simp] containsKey
end

/-- `commit`: each prospective change is appended, with the cause, to its key's committed changes. -/
def commit (update : TrieUpdate K V C) (cause : C) : TrieUpdate K V C :=
  { update with
    committed := fun key => update.committed key ++ ((update.prospective key).map fun value => ⟨cause, value⟩).toList
    prospective := fun _ => none }

section
attribute [local simp] commit
end

/-- `rollback`. -/
def rollback (update : TrieUpdate K V C) : TrieUpdate K V C := { update with prospective := fun _ => none }

/-! ### What the reads see -/

/-- The committed view: each key's last committed value, else the trie's. -/
def committedView (update : TrieUpdate K V C) (key : K) : Option V :=
  match (update.committed key).getLast? with
  | some change => change.data
  | none => update.trie key

section
attribute [local simp] committedView
end

/-- The state update as a transactional store: the prospective changes over the committed view. -/
def toStore (update : TrieUpdate K V C) : Transactional.Store K V where
  committed := update.committedView
  pending key := (update.prospective key).getD (update.committedView key)

section
attribute [local simp] toStore
end

/-- A read through the updates sees the prospective changes over the committed view. -/
theorem get_eq_pending (update : TrieUpdate K V C) (key : K) : update.get key = update.toStore.pending key := by
  simp only [get, getFromUpdates, toStore, committedView]
  rcases update.prospective key with _ | value
  · rcases (update.committed key).getLast? with _ | change <;> rfl
  · rfl

theorem getRef_eq_get (update : TrieUpdate K V C) (key : K) : update.getRef key = update.get key := by
  simp only [getRef, getRefFromUpdates, get, getFromUpdates]
  rcases update.prospective key with _ | value
  · rcases (update.committed key).getLast? with _ | change <;> rfl
  · rfl

theorem getNoSideEffects_eq_get (update : TrieUpdate K V C) (key : K) :
    update.getNoSideEffects key = update.get key := rfl

/-- A commit makes the prospective changes the last committed ones. -/
theorem committedView_commit (update : TrieUpdate K V C) (cause : C) :
    (update.commit cause).committedView = update.toStore.pending := by
  funext key
  simp only [committedView, commit, toStore]
  rcases update.prospective key with _ | value
  · simp
  · simp [List.getLast?_append]

theorem commit_toStore (update : TrieUpdate K V C) (cause : C) :
    (update.commit cause).toStore = update.toStore.commit := by
  simp only [toStore, Transactional.Store.commit, committedView_commit]
  rfl

theorem rollback_toStore (update : TrieUpdate K V C) : update.rollback.toStore = update.toStore.rollback := rfl

theorem new_toStore (trie : K → Option V) : (new trie : TrieUpdate K V C).toStore = .init trie := rfl

/-- Where no removal is pending, `contains_key` says whether `get` finds a value. -/
theorem containsKey_eq_isSome_get (update : TrieUpdate K V C) (key : K)
    (notRemoved : update.prospective key ≠ some none) : update.containsKey key = (update.get key).isSome := by
  simp only [containsKey, get, getFromUpdates]
  rcases pending : update.prospective key with _ | value
  · rcases (update.committed key).getLast? with _ | change <;> rfl
  · rcases value with _ | value
    · exact absurd pending notRemoved
    · rfl

/-- A state update that has only been written to since `before`: the trie and the committed
changes are `before`'s, and only the prospective changes differ. -/
structure Frame (before after : TrieUpdate K V C) : Prop where
  trie : after.trie = before.trie
  committed : after.committed = before.committed

theorem Frame.refl (update : TrieUpdate K V C) : Frame update update := ⟨rfl, rfl⟩

theorem Frame.trans {first second third : TrieUpdate K V C} (earlier : Frame first second)
    (later : Frame second third) : Frame first third :=
  ⟨later.trie.trans earlier.trie, later.committed.trans earlier.committed⟩

/-- A rollback after writes only: every read sees what it saw right after the last commit. -/
theorem Frame.rollback_get {update after : TrieUpdate K V C} {cause : C} (frame : Frame (update.commit cause) after)
    (key : K) : after.rollback.get key = (update.commit cause).get key := by
  rw [get_eq_pending, get_eq_pending, rollback_toStore, Transactional.Store.pending_rollback]
  -- the committed view reads only the trie and the committed changes, which the writes kept
  simp only [toStore, committedView, frame.trie, frame.committed]
  rfl

variable [DecidableEq K]

/-- `set`. -/
def set (update : TrieUpdate K V C) (key : K) (value : V) : TrieUpdate K V C :=
  { update with prospective := Function.update update.prospective key (some (some value)) }

section
attribute [local simp] set
end

/-- `remove`. -/
def remove (update : TrieUpdate K V C) (key : K) : TrieUpdate K V C :=
  { update with prospective := Function.update update.prospective key (some none) }

section
attribute [local simp] remove
end

def step (update : TrieUpdate K V C) : TrieUpdateOp K V C → TrieUpdate K V C
  | .set key value => update.set key value
  | .remove key => update.remove key
  | .commit cause => update.commit cause
  | .rollback => update.rollback

section
attribute [local simp] step
end

def run (update : TrieUpdate K V C) (ops : List (TrieUpdateOp K V C)) : TrieUpdate K V C :=
  ops.foldl step update

section
attribute [local simp] run
end

theorem set_toStore (update : TrieUpdate K V C) (key : K) (value : V) :
    (update.set key value).toStore = update.toStore.write key (some value) := by
  simp only [toStore, set, Transactional.Store.write, committedView]
  congr 1
  funext other
  by_cases same : other = key
  · subst same
    simp
  · simp [Function.update_of_ne same]

theorem remove_toStore (update : TrieUpdate K V C) (key : K) :
    (update.remove key).toStore = update.toStore.write key none := by
  simp only [toStore, remove, Transactional.Store.write, committedView]
  congr 1
  funext other
  by_cases same : other = key
  · subst same
    simp
  · simp [Function.update_of_ne same]

/-- Each call on the state update is the call on the store it stands for. -/
theorem step_toStore (update : TrieUpdate K V C) : ∀ op : TrieUpdateOp K V C,
    (update.step op).toStore = update.toStore.step op.toOp
  | .set key value => set_toStore update key value
  | .remove key => remove_toStore update key
  | .commit cause => commit_toStore update cause
  | .rollback => rollback_toStore update

/-- Any run of calls on a state update is the same run on the store, by induction on the calls
with `step_toStore` at each. -/
theorem run_toStore : ∀ (update : TrieUpdate K V C) (ops : List (TrieUpdateOp K V C)),
    (update.run ops).toStore = update.toStore.run (ops.map TrieUpdateOp.toOp)
  | _, [] => rfl
  | update, op :: ops => by
    rw [run, List.foldl_cons, ← run, run_toStore (update.step op) ops, step_toStore]
    rfl

/-- After any run from a fresh state update over a trie, `get` reads the pending view of the same
run on the store: the committed values over the trie, and the writes since the last commit over
them. -/
theorem get_run (trie : K → Option V) (ops : List (TrieUpdateOp K V C)) (key : K) :
    ((new trie).run ops).get key = ((Transactional.Store.init trie).run (ops.map TrieUpdateOp.toOp)).pending key := by
  rw [get_eq_pending, run_toStore, new_toStore]

@[simp] theorem get_set_self (update : TrieUpdate K V C) (key : K) (value : V) :
    (update.set key value).get key = some value := by
  rw [get_eq_pending, set_toStore]
  simp

theorem frame_set (update : TrieUpdate K V C) (key : K) (value : V) : Frame update (update.set key value) :=
  ⟨rfl, rfl⟩

theorem frame_remove (update : TrieUpdate K V C) (key : K) : Frame update (update.remove key) := ⟨rfl, rfl⟩

/-- A pending removal: `get` finds nothing, and `contains_key` still reports the key. -/
theorem containsKey_after_remove (update : TrieUpdate K V C) (key : K) :
    (update.remove key).get key = none ∧ (update.remove key).containsKey key = true := by
  simp [get, getFromUpdates, containsKey, remove]

end TrieUpdate

end Nearcore.Store
