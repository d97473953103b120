import Mathlib

/-! Partial maps keyed by paths (`List α → Option β`), built the way a prefix tree is: a
map moved under a path, a node with a value at the empty path and one map below each first
symbol, and the map with one entry. Updating such a map at one key goes through the
constructors, which is what proofs about insertion into and deletion from a prefix tree
need. -/
namespace PathMap

variable {α β : Type}

/-- The map with no entry. -/
def empty : List α → Option β := fun _ => none

section
attribute [local simp] empty
end

/-- A node holding `value` at the empty path and `children a` below each first symbol `a`. -/
def node (value : Option β) (children : α → List α → Option β) : List α → Option β
  | [] => value
  | a :: rest => children a rest

section
attribute [local simp] node
end

@[simp] theorem empty_apply (key : List α) : (empty key : Option β) = none := rfl

@[simp] theorem node_nil (value : Option β) (children : α → List α → Option β) :
    node value children [] = value := rfl

@[simp] theorem node_cons (value : Option β) (children : α → List α → Option β) (a : α)
    (rest : List α) : node value children (a :: rest) = children a rest := rfl

@[simp] theorem node_none_empty : node none (fun _ => empty) = (empty : List α → Option β) := by
  funext key
  cases key <;> rfl

variable [DecidableEq α]

/-- `f` moved under `path`: it answers `f rest` at `path ++ rest` and nothing elsewhere. -/
def under (path : List α) (f : List α → Option β) (key : List α) : Option β :=
  if path <+: key then f (key.drop path.length) else none

section
attribute [local simp] under
end

/-- The map with the single entry `key ↦ value`. -/
def single (key : List α) (value : β) : List α → Option β :=
  under key (node (some value) fun _ => empty)

section
attribute [local simp] single
end

theorem under_apply_append (path rest : List α) (f : List α → Option β) :
    under path f (path ++ rest) = f rest := by
  simp [under]

theorem under_apply_eq_none {path key : List α} (f : List α → Option β)
    (outside : ¬path <+: key) : under path f key = none := by
  simp [under, outside]

@[simp] theorem under_nil (f : List α → Option β) : under [] f = f := by
  funext key
  simp [under]

@[simp] theorem under_empty (path : List α) : under path (empty : List α → Option β) = empty := by
  funext key
  simp [under]

/-- Moving under `p ++ q` is moving under `q`, then under `p`. -/
theorem under_append (p q : List α) (f : List α → Option β) :
    under (p ++ q) f = under p (under q f) := by
  funext key
  by_cases front : p <+: key
  · obtain ⟨rest, rfl⟩ := front
    simp [under, List.prefix_append_right_inj]
  · have whole : ¬(p ++ q) <+: key := fun longer => front ((List.prefix_append p q).trans longer)
    rw [under_apply_eq_none f whole, under_apply_eq_none _ front]

/-- A map under a one-symbol path is a node with one child. -/
theorem under_singleton (a : α) (f : List α → Option β) :
    under [a] f = node none (Function.update (fun _ => empty) a f) := by
  funext key
  cases key with
  | nil => simp [under]
  | cons b rest =>
    by_cases same : b = a
    · subst same
      simp [under]
    · have other : a ≠ b := Ne.symm same
      simp [under, same, other]

/-- A node whose children are all empty but the one at `a`. -/
theorem node_of_only (a : α) (children : α → List α → Option β)
    (others : ∀ b, b ≠ a → children b = empty) :
    node none children = under [a] (children a) := by
  rw [under_singleton]
  congr 1
  funext b
  by_cases same : b = a
  · subst same
    simp
  · simp [same, others b same]

theorem single_nil (value : β) : single [] value = node (some value) (fun _ => (empty : List α → Option β)) := by
  simp [single]

theorem single_apply (key k : List α) (value : β) :
    single key value k = if k = key then some value else none := by
  by_cases front : key <+: k
  · obtain ⟨rest, rfl⟩ := front
    rw [single, under_apply_append]
    cases rest <;> simp
  · have other : k ≠ key := fun same => front (same ▸ List.prefix_refl k)
    simp [single, under_apply_eq_none _ front, other]

theorem under_single (path key : List α) (value : β) :
    under path (single key value) = single (path ++ key) value := by
  simp [single, under_append]

/-! Updating at one key. -/

/-- An update under `path` happens inside the moved map. -/
theorem update_under (path rest : List α) (f : List α → Option β) (x : Option β) :
    Function.update (under path f) (path ++ rest) x = under path (Function.update f rest x) := by
  funext key
  by_cases front : path <+: key
  · obtain ⟨r, rfl⟩ := front
    by_cases same : r = rest
    · subst same
      simp [under_apply_append]
    · have other : path ++ r ≠ path ++ rest := fun eq => same (List.append_cancel_left eq)
      simp [Function.update_of_ne other, under_apply_append, Function.update_of_ne same]
  · have other : key ≠ path ++ rest := fun eq => front (eq ▸ List.prefix_append path rest)
    rw [Function.update_of_ne other, under_apply_eq_none _ front,
      under_apply_eq_none _ front]

theorem update_under_of_prefix {path key : List α} (front : path <+: key)
    (f : List α → Option β) (x : Option β) :
    Function.update (under path f) key x =
      under path (Function.update f (key.drop path.length) x) := by
  obtain ⟨rest, rfl⟩ := front
  rw [update_under]
  simp

theorem update_node_nil (value : Option β) (children : α → List α → Option β) (x : Option β) :
    Function.update (node value children) [] x = node x children := by
  funext key
  cases key with
  | nil => simp
  | cons a rest => simp

theorem update_node_cons (value : Option β) (children : α → List α → Option β) (a : α)
    (rest : List α) (x : Option β) :
    Function.update (node value children) (a :: rest) x =
      node value (Function.update children a (Function.update (children a) rest x)) := by
  funext key
  cases key with
  | nil => simp
  | cons b more =>
    by_cases same : b = a
    · subst same
      by_cases deep : more = rest
      · subst deep
        simp
      · have other : b :: more ≠ b :: rest := fun eq => deep (List.cons.inj eq).2
        simp [Function.update_of_ne other, Function.update_of_ne deep]
    · simp [same]

theorem update_empty (key : List α) (value : β) :
    Function.update (empty : List α → Option β) key (some value) = single key value := by
  funext k
  rw [single_apply]
  by_cases same : k = key
  · subst same
    simp
  · simp [same]

theorem update_single_self (key : List α) (value : β) (x : Option β) :
    Function.update (single key value) key x = under key (node x fun _ => empty) := by
  have split := update_under key [] (node (some value) fun _ => (empty : List α → Option β)) x
  rw [List.append_nil] at split
  rw [single, split, update_node_nil]

/-- An update that writes what the map already holds changes nothing. -/
theorem update_of_apply_eq {f : List α → Option β} {key : List α} {x : Option β}
    (holds : f key = x) : Function.update f key x = f := by
  rw [← holds, Function.update_eq_self]

end PathMap
