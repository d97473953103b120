import Nearcore.Trie.Delete
import Nearcore.Trie.InsertRun
import Nearcore.Library.ListSearch

/-! The deletion loop, case by case (execution lemmas), and `squash_node` and
`extend_child` on each kind of node. -/
namespace Nearcore

variable {σ N V : Type} [HasValueLength V] {backend : Backend σ N V}

/-- Writing back what a slot holds leaves the arena as it was. -/
theorem set_of_read {α : Type} {l : List (Option α)} {i : Nat} {x : α} (read : l[i]? = some (some x)) :
    l.set i (some x) = l := by
  obtain ⟨inside, atSlot⟩ := List.getElem?_eq_some_iff.mp read
  rw [← atSlot, List.set_getElem_self]

section DeleteExecution

variable (backend) (fuel : Nat) {c : Nat} (partialKey : NibbleSlice) (path : List Nat)
  {nodes : UpdatedNodes N V} (inner : σ) {m : Nat}

theorem deleteLoop_empty (read : nodes[c]? = some (some ⟨.empty, m⟩)) :
    deleteLoop backend (fuel + 1) c partialKey path ⟨nodes, inner⟩ =
      .ok ((path ++ [c], false), ⟨nodes.set c (some .empty), inner⟩) := by
  have inside : c < nodes.length := (List.getElem?_eq_some_iff.mp read).1
  rw [deleteLoop, StateT.bind_apply_of_ok (takeNode_of_read _ _ read)]
  dsimp only
  rw [StateT.bind_apply_of_ok (placeNodeAt_of_lt _ _ _ (by simpa using inside))]
  simp

theorem deleteLoop_leaf_found (deletes : backend.Deletes) {ext : List UInt8} {value : V}
    (read : nodes[c]? = some (some ⟨.leaf ext value, m⟩))
    (found : ((NibbleSlice.fromEncoded ext).1 == partialKey) = true) :
    ∃ inner', deleteLoop backend (fuel + 1) c partialKey path ⟨nodes, inner⟩ =
      .ok ((path ++ [c], true), ⟨nodes.set c (some .empty), inner'⟩) := by
  have inside : c < nodes.length := (List.getElem?_eq_some_iff.mp read).1
  obtain ⟨inner', deleted⟩ := deletes value inner
  refine ⟨inner', ?_⟩
  rw [deleteLoop, StateT.bind_apply_of_ok (takeNode_of_read _ _ read)]
  dsimp only
  rw [if_pos found, StateT.bind_apply_of_ok (deleteValue_of_ok _ _ deleted),
    StateT.bind_apply_of_ok (placeNodeAt_of_lt _ _ _ (by simpa using inside))]
  simp

theorem deleteLoop_leaf_other {ext : List UInt8} {value : V}
    (read : nodes[c]? = some (some ⟨.leaf ext value, m⟩))
    (other : ((NibbleSlice.fromEncoded ext).1 == partialKey) = false) :
    deleteLoop backend (fuel + 1) c partialKey path ⟨nodes, inner⟩ =
      .ok ((path ++ [c], false), ⟨nodes, inner⟩) := by
  have inside : c < nodes.length := (List.getElem?_eq_some_iff.mp read).1
  rw [deleteLoop, StateT.bind_apply_of_ok (takeNode_of_read _ _ read)]
  dsimp only
  rw [if_neg (by simp [other]),
    StateT.bind_apply_of_ok (placeNodeAt_of_lt _ _ _ (by simpa using inside))]
  simp [set_of_read read]

theorem deleteLoop_branch_absent {children : Vector (Option (GenericNodeOrIndex N)) 16}
    (read : nodes[c]? = some (some ⟨.branch children none, m⟩))
    (atKey : partialKey.isEmpty = true) :
    deleteLoop backend (fuel + 1) c partialKey path ⟨nodes, inner⟩ =
      .ok ((path ++ [c], false), ⟨nodes, inner⟩) := by
  have inside : c < nodes.length := (List.getElem?_eq_some_iff.mp read).1
  rw [deleteLoop, StateT.bind_apply_of_ok (takeNode_of_read _ _ read)]
  dsimp only
  rw [if_pos atKey, StateT.bind_apply_of_ok (placeNodeAt_of_lt _ _ _ (by simpa using inside))]
  simp [set_of_read read]

theorem deleteLoop_branch_value (deletes : backend.Deletes)
    {children : Vector (Option (GenericNodeOrIndex N)) 16} {value : V}
    (read : nodes[c]? = some (some ⟨.branch children (some value), m⟩))
    (atKey : partialKey.isEmpty = true) :
    ∃ inner', deleteLoop backend (fuel + 1) c partialKey path ⟨nodes, inner⟩ =
      .ok ((path ++ [c], true), ⟨nodes.set c (some ⟨.branch children none,
        saturatingAdd (m - branchCost (some value)) (branchCost (none : Option V)) - 0⟩), inner'⟩) := by
  have inside : c < nodes.length := (List.getElem?_eq_some_iff.mp read).1
  obtain ⟨inner', deleted⟩ := deletes value inner
  refine ⟨inner', ?_⟩
  rw [deleteLoop, StateT.bind_apply_of_ok (takeNode_of_read _ _ read)]
  dsimp only
  rw [if_pos atKey, StateT.bind_apply_of_ok (deleteValue_of_ok _ _ deleted),
    StateT.bind_apply_of_ok (calcMemoryUsageAndStore_none _ _ (by simpa using inside))]
  simp

theorem deleteLoop_branch_missing {children : Vector (Option (GenericNodeOrIndex N)) 16}
    {value : Option V} (read : nodes[c]? = some (some ⟨.branch children value, m⟩))
    (descends : partialKey.isEmpty = false) (missing : children.get (partialKey.atIndex 0) = none) :
    deleteLoop backend (fuel + 1) c partialKey path ⟨nodes, inner⟩ =
      .ok ((path ++ [c], false), ⟨nodes, inner⟩) := by
  have inside : c < nodes.length := (List.getElem?_eq_some_iff.mp read).1
  rw [deleteLoop, StateT.bind_apply_of_ok (takeNode_of_read _ _ read)]
  dsimp only
  rw [if_neg (by simp [descends])]
  simp only [missing]
  rw [StateT.bind_apply_of_ok (placeNodeAt_of_lt _ _ _ (by simpa using inside))]
  simp [set_of_read read]

theorem deleteLoop_branch_descend {children : Vector (Option (GenericNodeOrIndex N)) 16}
    {value : Option V} {ptr : GenericNodeOrIndex N} {c' : Nat} {nodes₁ : UpdatedNodes N V}
    {inner₁ : σ} {childNode : GenericUpdatedTrieNodeWithSize N V}
    (read : nodes[c]? = some (some ⟨.branch children value, m⟩))
    (descends : partialKey.isEmpty = false) (present : children.get (partialKey.atIndex 0) = some ptr)
    (found : ensureUpdated backend ptr ⟨nodes.set c none, inner⟩ = .ok (c', ⟨nodes₁, inner₁⟩))
    (childRead : nodes₁[c']? = some (some childNode)) (inside₁ : c < nodes₁.length) :
    deleteLoop backend (fuel + 1) c partialKey path ⟨nodes, inner⟩ =
      deleteLoop backend fuel c' (partialKey.mid 1) (path ++ [c])
        ⟨nodes₁.set c (some ⟨.branch (children.set (partialKey.atIndex 0) (some (.updated c'))
          (NibbleSlice.index_lt _)) value, saturatingAdd (m - branchCost value) (branchCost value) -
            childNode.memoryUsage⟩), inner₁⟩ := by
  rw [deleteLoop, StateT.bind_apply_of_ok (takeNode_of_read _ _ read)]
  dsimp only
  rw [if_neg (by simp [descends])]
  simp only [present]
  rw [StateT.bind_apply_of_ok found,
    StateT.bind_apply_of_ok (calcMemoryUsageAndStore_some _ _ childRead inside₁)]
  simp

theorem deleteLoop_extension_descend {ext : List UInt8} {child : GenericNodeOrIndex N} {c' : Nat}
    {nodes₁ : UpdatedNodes N V} {inner₁ : σ} {childNode : GenericUpdatedTrieNodeWithSize N V}
    (read : nodes[c]? = some (some ⟨.extension ext child, m⟩))
    (whole : (NibbleSlice.fromEncoded ext).1.commonPrefix partialKey =
      (NibbleSlice.fromEncoded ext).1.len)
    (found : ensureUpdated backend child ⟨nodes.set c none, inner⟩ = .ok (c', ⟨nodes₁, inner₁⟩))
    (childRead : nodes₁[c']? = some (some childNode)) (inside₁ : c < nodes₁.length) :
    deleteLoop backend (fuel + 1) c partialKey path ⟨nodes, inner⟩ =
      deleteLoop backend fuel c' (partialKey.mid (NibbleSlice.fromEncoded ext).1.len) (path ++ [c])
        ⟨nodes₁.set c (some ⟨.extension ext (.updated c'),
          saturatingAdd (m - extensionCost ext) (extensionCost ext) - childNode.memoryUsage⟩),
          inner₁⟩ := by
  rw [deleteLoop, StateT.bind_apply_of_ok (takeNode_of_read _ _ read)]
  dsimp only
  rw [if_pos whole, StateT.bind_apply_of_ok found,
    StateT.bind_apply_of_ok (calcMemoryUsageAndStore_some _ _ childRead inside₁)]
  simp

theorem deleteLoop_extension_other {ext : List UInt8} {child : GenericNodeOrIndex N}
    (read : nodes[c]? = some (some ⟨.extension ext child, m⟩))
    (other : (NibbleSlice.fromEncoded ext).1.commonPrefix partialKey ≠
      (NibbleSlice.fromEncoded ext).1.len) :
    deleteLoop backend (fuel + 1) c partialKey path ⟨nodes, inner⟩ =
      .ok ((path ++ [c], false), ⟨nodes, inner⟩) := by
  have inside : c < nodes.length := (List.getElem?_eq_some_iff.mp read).1
  rw [deleteLoop, StateT.bind_apply_of_ok (takeNode_of_read _ _ read)]
  dsimp only
  rw [if_neg other, StateT.bind_apply_of_ok (placeNodeAt_of_lt _ _ _ (by simpa using inside))]
  simp [set_of_read read]

end DeleteExecution

/-- What the drop loop of `squash_node` leaves in a slot: an updated child whose node is
empty is gone. -/
def keepChild (nodes : UpdatedNodes N V) :
    Option (GenericNodeOrIndex N) → Option (GenericNodeOrIndex N)
  | some (.updated childId) =>
    match nodes[childId]? with
    | some (some ⟨.empty, _⟩) => none
    | _ => some (.updated childId)
  | child => child

section
attribute [local simp] keepChild
end

section SquashExecution

variable (backend) {a c' : Nat} {nodes nodes₁ : UpdatedNodes N V} {inner inner₁ : σ} {m : Nat}
  (ext : List UInt8) {ptr : GenericNodeOrIndex N}

theorem extendChild_empty
    (found : ensureUpdated backend ptr ⟨nodes, inner⟩ = .ok (c', ⟨nodes₁, inner₁⟩))
    (childRead : nodes₁[c']? = some (some ⟨.empty, m⟩)) (inside : a < nodes₁.length) :
    extendChild backend a ext ptr ⟨nodes, inner⟩ =
      .ok ((), ⟨(nodes₁.set c' none).set a (some .empty), inner₁⟩) := by
  rw [extendChild, StateT.bind_apply_of_ok found, StateT.bind_apply_of_ok (takeNode_of_read _ _ childRead)]
  exact placeNodeAt_of_lt _ _ _ (by simpa using inside)

theorem extendChild_leaf {childExt : List UInt8} {value : V}
    (found : ensureUpdated backend ptr ⟨nodes, inner⟩ = .ok (c', ⟨nodes₁, inner₁⟩))
    (childRead : nodes₁[c']? = some (some ⟨.leaf childExt value, m⟩)) (inside : a < nodes₁.length) :
    extendChild backend a ext ptr ⟨nodes, inner⟩ =
      .ok ((), ⟨(nodes₁.set c' none).set a (some ⟨.leaf ((NibbleSlice.fromEncoded ext).1.mergeEncoded
        (NibbleSlice.fromEncoded childExt).1 true) value, leafCost ((NibbleSlice.fromEncoded ext).1.mergeEncoded
        (NibbleSlice.fromEncoded childExt).1 true) value⟩), inner₁⟩) := by
  rw [extendChild, StateT.bind_apply_of_ok found, StateT.bind_apply_of_ok (takeNode_of_read _ _ childRead)]
  exact placeNodeAt_of_lt _ _ _ (by simpa using inside)

theorem extendChild_branch {children : Vector (Option (GenericNodeOrIndex N)) 16} {value : Option V}
    (found : ensureUpdated backend ptr ⟨nodes, inner⟩ = .ok (c', ⟨nodes₁, inner₁⟩))
    (childRead : nodes₁[c']? = some (some ⟨.branch children value, m⟩)) (inside : a < nodes₁.length) :
    extendChild backend a ext ptr ⟨nodes, inner⟩ =
      .ok ((), ⟨nodes₁.set a (some ⟨.extension ext (.updated c'), m + extensionCost ext⟩), inner₁⟩) := by
  have childInside : c' < nodes₁.length := (List.getElem?_eq_some_iff.mp childRead).1
  rw [extendChild, StateT.bind_apply_of_ok found, StateT.bind_apply_of_ok (takeNode_of_read _ _ childRead)]
  dsimp only
  rw [StateT.bind_apply_of_ok (placeNodeAt_of_lt _ _ _ (by simpa using childInside)), List.set_set,
    set_of_read childRead]
  simpa using placeNodeAt_of_lt _ _ _ inside

theorem extendChild_extension {childExt : List UInt8} {innerChild : GenericNodeOrIndex N}
    (found : ensureUpdated backend ptr ⟨nodes, inner⟩ = .ok (c', ⟨nodes₁, inner₁⟩))
    (childRead : nodes₁[c']? = some (some ⟨.extension childExt innerChild, m⟩))
    (inside : a < nodes₁.length) :
    extendChild backend a ext ptr ⟨nodes, inner⟩ =
      .ok ((), ⟨(nodes₁.set c' none).set a (some ⟨.extension ((NibbleSlice.fromEncoded ext).1.mergeEncoded
        (NibbleSlice.fromEncoded childExt).1 false) innerChild,
        extensionCost ((NibbleSlice.fromEncoded ext).1.mergeEncoded (NibbleSlice.fromEncoded childExt).1 false) +
          (m - extensionCost childExt)⟩), inner₁⟩) := by
  rw [extendChild, StateT.bind_apply_of_ok found, StateT.bind_apply_of_ok (takeNode_of_read _ _ childRead)]
  simpa using placeNodeAt_of_lt (nodes₁.set c' none) inner₁ _ (by simpa using inside)

omit [HasValueLength V] in
/-- The drop loop reads every updated child and changes nothing but the children. -/
theorem dropEmptyChildren_spec {children : Vector (Option (GenericNodeOrIndex N)) 16}
    (readable : ∀ (j : Fin 16) childId, children.get j = some (.updated childId) →
      ∃ node, nodes[childId]? = some (some node)) :
    ∀ count ≤ 16, dropEmptyChildren count children ⟨nodes, inner⟩ =
      .ok (Vector.ofFn fun j => if j.val < count then keepChild nodes (children.get j) else children.get j,
        ⟨nodes, inner⟩) := by
  intro count
  induction count with
  | zero =>
    intro _
    rw [dropEmptyChildren, StateT.pure_apply]
    congr
    ext j
    simp [Vector.get_eq_getElem]
  | succ count ih =>
    intro within
    rw [dropEmptyChildren, StateT.bind_apply_of_ok (ih (by omega)), dif_pos (by omega)]
    -- the slot `count` is still as it was; what the step does depends on it
    have slot : (Vector.ofFn fun j : Fin 16 => if j.val < count then keepChild nodes (children.get j)
        else children.get j)[count] = children[count] := by simp [Vector.get_eq_getElem]
    have extend : ∀ kept : Option (GenericNodeOrIndex N), kept = keepChild nodes children[count] →
        (Vector.ofFn fun j : Fin 16 => if j.val < count then keepChild nodes (children.get j)
          else children.get j).set count kept = Vector.ofFn fun j : Fin 16 =>
            if j.val < count + 1 then keepChild nodes (children.get j) else children.get j := by
      intro kept same
      ext j inside
      by_cases atCount : j = count
      · subst atCount
        simp [same, Vector.get_eq_getElem]
      · simp only [Vector.getElem_set, Vector.getElem_ofFn, Ne.symm atCount, if_false]
        by_cases below : j < count
        · simp [below, show j < count + 1 by omega, Vector.get_eq_getElem]
        · simp [below, show ¬ j < count + 1 by omega, Vector.get_eq_getElem]
    have keep : ∀ kept : Option (GenericNodeOrIndex N), children[count] = kept →
        kept = keepChild nodes children[count] →
        (Vector.ofFn fun j : Fin 16 => if j.val < count then keepChild nodes (children.get j)
          else children.get j) = Vector.ofFn fun j : Fin 16 =>
            if j.val < count + 1 then keepChild nodes (children.get j) else children.get j := by
      intro kept current same
      rw [← extend kept same]
      ext j inside
      by_cases atCount : j = count
      · subst atCount
        simp [current, Vector.get_eq_getElem]
      · simp [Ne.symm atCount]
    rw [slot]
    rcases present : children[count] with _ | (ptr | childId)
    · rw [← keep none present (by simp [present, keepChild])]
      simp
    · rw [← keep _ present (by simp [present, keepChild])]
      simp
    · obtain ⟨⟨node, memoryUsage⟩, read⟩ := readable ⟨count, by omega⟩ childId present
      simp only [StateT.bind_apply_of_ok (getNodeRef_of_read _ _ read)]
      cases node with
      | empty => rw [← extend none (by simp [present, keepChild, read])]; rfl
      | _ =>
        rw [← keep _ present (by simp [present, keepChild, read])]
        simp

omit [HasValueLength V] in
theorem dropEmptyChildren_all {children : Vector (Option (GenericNodeOrIndex N)) 16}
    (readable : ∀ (j : Fin 16) childId, children.get j = some (.updated childId) →
      ∃ node, nodes[childId]? = some (some node)) :
    dropEmptyChildren 16 children ⟨nodes, inner⟩ =
      .ok (children.map (keepChild nodes), ⟨nodes, inner⟩) := by
  rw [dropEmptyChildren_spec readable 16 le_rfl]
  congr
  ext j inside
  simp [Vector.get_eq_getElem]

theorem squashNode_empty (read : nodes[a]? = some (some ⟨.empty, m⟩)) :
    squashNode backend a ⟨nodes, inner⟩ = .ok ((), ⟨nodes.set a (some .empty), inner⟩) := by
  have inside : a < nodes.length := (List.getElem?_eq_some_iff.mp read).1
  rw [squashNode, StateT.bind_apply_of_ok (takeNode_of_read _ _ read)]
  dsimp only
  rw [placeNodeAt_of_lt (nodes.set a none) inner _ (by simpa using inside), List.set_set]

theorem squashNode_extension {child : GenericNodeOrIndex N}
    (read : nodes[a]? = some (some ⟨.extension ext child, m⟩)) :
    squashNode backend a ⟨nodes, inner⟩ = extendChild backend a ext child ⟨nodes.set a none, inner⟩ := by
  rw [squashNode, StateT.bind_apply_of_ok (takeNode_of_read _ _ read)]

section Branch

variable {children : Vector (Option (GenericNodeOrIndex N)) 16} {value : Option V}
  (read : nodes[a]? = some (some ⟨.branch children value, m⟩))
  (readable : ∀ (j : Fin 16) childId, children.get j = some (.updated childId) →
    ∃ node, (nodes.set a none)[childId]? = some (some node))
include read readable

theorem squashNode_branch_empty (noValue : value = none)
    (noChildren : numChildren (children.map (keepChild (nodes.set a none))) = 0) :
    squashNode backend a ⟨nodes, inner⟩ = .ok ((), ⟨nodes.set a (some .empty), inner⟩) := by
  have inside : a < nodes.length := (List.getElem?_eq_some_iff.mp read).1
  subst noValue
  rw [squashNode, StateT.bind_apply_of_ok (takeNode_of_read _ _ read)]
  dsimp only
  rw [StateT.bind_apply_of_ok (dropEmptyChildren_all readable), if_pos noChildren]
  rw [placeNodeAt_of_lt (nodes.set a none) inner _ (by simpa using inside), List.set_set]

theorem squashNode_branch_leaf {kept : V} (hasValue : value = some kept)
    (noChildren : numChildren (children.map (keepChild (nodes.set a none))) = 0) :
    squashNode backend a ⟨nodes, inner⟩ =
      .ok ((), ⟨nodes.set a (some ⟨.leaf ((NibbleSlice.new []).encoded true) kept,
        leafCost ((NibbleSlice.new []).encoded true) kept⟩), inner⟩) := by
  have inside : a < nodes.length := (List.getElem?_eq_some_iff.mp read).1
  subst hasValue
  rw [squashNode, StateT.bind_apply_of_ok (takeNode_of_read _ _ read)]
  dsimp only
  rw [StateT.bind_apply_of_ok (dropEmptyChildren_all readable), if_pos noChildren,
    placeNodeAt_of_lt (nodes.set a none) inner _ (by simpa using inside), List.set_set]
  simp

theorem squashNode_branch_single {idx : Fin 16} {child : GenericNodeOrIndex N}
    (noValue : value = none)
    (single : numChildren (children.map (keepChild (nodes.set a none))) = 1)
    (first : firstChild (children.map (keepChild (nodes.set a none))) = some (idx, child)) :
    squashNode backend a ⟨nodes, inner⟩ =
      extendChild backend a ((NibbleSlice.new [UInt8.ofNat (idx.val <<< 4)]).encodedLeftmost 1 false)
        child ⟨nodes.set a none, inner⟩ := by
  subst noValue
  rw [squashNode, StateT.bind_apply_of_ok (takeNode_of_read _ _ read)]
  dsimp only
  rw [StateT.bind_apply_of_ok (dropEmptyChildren_all readable), if_neg (by omega),
    if_pos ⟨single, rfl⟩]
  simp only [first]

theorem squashNode_branch_keep
    (several : ¬numChildren (children.map (keepChild (nodes.set a none))) = 0)
    (notSingle : ¬(numChildren (children.map (keepChild (nodes.set a none))) = 1 ∧ value.isNone)) :
    squashNode backend a ⟨nodes, inner⟩ =
      .ok ((), ⟨nodes.set a (some ⟨.branch (children.map (keepChild (nodes.set a none))) value, m⟩),
        inner⟩) := by
  have inside : a < nodes.length := (List.getElem?_eq_some_iff.mp read).1
  rw [squashNode, StateT.bind_apply_of_ok (takeNode_of_read _ _ read)]
  dsimp only
  rw [StateT.bind_apply_of_ok (dropEmptyChildren_all readable), if_neg several, if_neg notSingle]
  rw [placeNodeAt_of_lt (nodes.set a none) inner _ (by simpa using inside), List.set_set]

end Branch

end SquashExecution

/-! `squash_node` keeps `Holds`: the node at the hole comes to stand for `NodeTree.squash` of
the tree it stood for. -/

section SquashInvariant

variable {old : N → Option (GenericTrieNodeWithSize N V)} {nodes : UpdatedNodes N V}

theorem numChildren_eq_countP {P : Type} (children : Vector (Option P) 16) :
    numChildren children = (List.finRange 16).countP fun j => (children.get j).isSome := by
  have listed : children.toList = (List.finRange 16).map fun j => children.get j := by
    apply List.ext_getElem
    · simp
    · intro n _ _
      simp [Vector.get_eq_getElem]
  rw [numChildren, listed, List.countP_map]
  rfl

omit [HasValueLength V] in
theorem NodeTree.eq_of_firstChild {ts : Fin 16 → NodeTree V} {idx : Fin 16} {child : NodeTree V}
    (first : NodeTree.firstChild ts = some (idx, child)) : child = ts idx := by
  obtain ⟨-, hit⟩ := List.findSome?_tagged_eq_some first
  cases slot : ts idx <;> simp_all [NodeTree.toOption]

omit [HasValueLength V] in
theorem OldRep.dropEmpty_eq {p : N} {t : NodeTree V} (existing : OldRep old (some p) t) :
    t.dropEmpty = t := by
  cases existing <;> rfl

omit [HasValueLength V] in
/-- A pointer and the tree it stands for are missing together. -/
theorem Rep.isSome_eq {p : Option (GenericNodeOrIndex N)} {t : NodeTree V} {ids : List Nat}
    (rep : Rep nodes old p t ids) : p.isSome = t.toOption.isSome := by
  cases rep with
  | none => rfl
  | old existing => cases existing <;> rfl
  | empty => rfl
  | leaf => rfl
  | extension => rfl
  | branch => rfl

omit [HasValueLength V] in
/-- The drop loop on one slot is `dropEmpty` on the tree it stands for. -/
theorem Rep.keep {p : Option (GenericNodeOrIndex N)} {t : NodeTree V} {ids : List Nat}
    (rep : Rep nodes old p t ids) :
    ∃ ids', Rep nodes old (keepChild nodes p) t.dropEmpty ids' ∧ ids'.Sublist ids := by
  cases rep with
  | none => exact ⟨[], .none, List.Sublist.slnil⟩
  | old existing =>
    rw [existing.dropEmpty_eq]
    exact ⟨[], .old existing, List.Sublist.slnil⟩
  | empty read =>
    refine ⟨[], ?_, List.nil_sublist _⟩
    simp only [keepChild, read, NodeTree.dropEmpty]
    exact .none
  | leaf read =>
    refine ⟨_, ?_, List.Sublist.refl _⟩
    simp only [keepChild, read, NodeTree.dropEmpty]
    exact .leaf read
  | extension read below fresh =>
    refine ⟨_, ?_, List.Sublist.refl _⟩
    simp only [keepChild, read, NodeTree.dropEmpty]
    exact .extension read below fresh
  | branch read below distinct =>
    refine ⟨_, ?_, List.Sublist.refl _⟩
    simp only [keepChild, read, NodeTree.dropEmpty]
    exact .branch read below distinct

omit [HasValueLength V] in
theorem numChildren_keep {children : Vector (Option (GenericNodeOrIndex N)) 16}
    {ts : Fin 16 → NodeTree V} {ids : Fin 16 → List Nat}
    (below : ∀ j, Rep nodes old (children.get j) (ts j) (ids j)) :
    numChildren (children.map (keepChild nodes)) =
      NodeTree.countChildren fun j => (ts j).dropEmpty := by
  rw [numChildren_eq_countP, NodeTree.countChildren]
  congr 1
  funext j
  obtain ⟨_, kept, -⟩ := (below j).keep
  simpa [Vector.get_eq_getElem] using kept.isSome_eq

omit [HasValueLength V] in
/-- The child the squash keeps, on pointers and on trees. -/
theorem firstChild_keep {children : Vector (Option (GenericNodeOrIndex N)) 16}
    {ts : Fin 16 → NodeTree V} {ids : Fin 16 → List Nat}
    (below : ∀ j, Rep nodes old (children.get j) (ts j) (ids j)) {idx : Fin 16}
    {child : GenericNodeOrIndex N}
    (first : firstChild (children.map (keepChild nodes)) = some (idx, child)) :
    NodeTree.firstChild (fun j => (ts j).dropEmpty) = some (idx, (ts idx).dropEmpty) ∧
      ∃ ids', Rep nodes old (some child) (ts idx).dropEmpty ids' ∧ ids'.Sublist (ids idx) := by
  obtain ⟨-, hit⟩ := List.findSome?_tagged_eq_some first
  have same := List.findSome?_tagged_congr (fun j => (children.map (keepChild nodes)).get j)
    (fun j => ((ts j).dropEmpty).toOption) (List.finRange 16) fun j _ => by
      obtain ⟨_, kept, -⟩ := (below j).keep
      simpa [Vector.get_eq_getElem] using kept.isSome_eq
  have found : (NodeTree.firstChild fun j => (ts j).dropEmpty).map Prod.fst = some idx := by
    rw [NodeTree.firstChild, ← same]
    exact congrArg (Option.map Prod.fst) first
  obtain ⟨⟨idx', tree⟩, firstTree, rfl⟩ := Option.map_eq_some_iff.mp found
  refine ⟨by rw [firstTree, NodeTree.eq_of_firstChild firstTree], ?_⟩
  obtain ⟨ids', kept, sub⟩ := (below idx').keep
  dsimp only at hit ⊢
  simp only [Vector.get_map] at hit
  exact ⟨ids', hit ▸ kept, sub⟩

omit [HasValueLength V] in
/-- Writes at `a` and `c'` and appended nodes leave the other slots as they were. -/
theorem getElem?_set_set_append {α : Type} {l more : List α} {a c' i : Nat} {x y : α}
    (otherA : i ≠ a) (otherC : i ≠ c') (inside : i < l.length) :
    (((l ++ more).set c' x).set a y)[i]? = l[i]? := by
  rw [List.getElem?_set_ne (Ne.symm otherA), List.getElem?_set_ne (Ne.symm otherC),
    List.getElem?_append_left inside]

/-- `extend_child` at a node outside the child's tree: the node comes to stand for
`NodeTree.extendChild`, through itself, ids of the child's tree or fresh ones, and only the
node, the child's tree and fresh slots are written. -/
theorem extendChild_rep (reads : backend.Reads old) {a : Nat} (ext : List UInt8)
    {ptr : GenericNodeOrIndex N} {t : NodeTree V} {ids : List Nat}
    (rep : Rep nodes old (some ptr) t ids) (notBelow : a ∉ ids) (inside : a < nodes.length)
    (inner : σ) :
    ∃ nodes' inner' ids', extendChild backend a ext ptr ⟨nodes, inner⟩ = .ok ((), ⟨nodes', inner'⟩) ∧
      Rep nodes' old (some (.updated a)) (NodeTree.extendChild ext t) ids' ∧
      (∀ i ∈ ids', i = a ∨ i ∈ ids ∨ nodes.length ≤ i) ∧
      (∀ i, i ≠ a → i ∉ ids → i < nodes.length → nodes'[i]? = nodes[i]?) := by
  obtain ⟨c', more, inner₁, ids₁, found, childRep, fetched⟩ := ensureUpdated_rep reads rep inner
  have notBelow₁ : a ∉ ids₁ := by
    rcases fetched with rfl | ⟨-, rfl⟩
    · exact notBelow
    · simpa using inside.ne
  have insideAll : a < (nodes ++ more).length := by simp; omega
  -- the child's id is one of the child's ids, or the fresh copy
  have childId : c' ∈ ids ∨ c' = nodes.length := by
    rcases fetched with rfl | ⟨-, rfl⟩
    · exact .inl childRep.head_mem
    · exact .inr (List.mem_singleton.mp childRep.head_mem)
  have frame : ∀ (x y : Option (GenericUpdatedTrieNodeWithSize N V)) i, i ≠ a → i ∉ ids →
      i < nodes.length → (((nodes ++ more).set c' x).set a y)[i]? = nodes[i]? := by
    intro x y i otherA otherIds below
    refine getElem?_set_set_append otherA ?_ below
    rintro rfl
    rcases childId with member | fresh
    · exact otherIds member
    · omega
  have within₁ : ∀ i ∈ ids₁, i ∈ ids ∨ nodes.length ≤ i := by
    intro i member
    rcases fetched with rfl | ⟨-, rfl⟩
    · exact .inl member
    · exact .inr (List.mem_singleton.mp member).ge
  obtain ⟨⟨node, m⟩, childRead⟩ := childRep.isSome childRep.head_mem
  cases node with
  | empty =>
    obtain ⟨rfl, rfl⟩ := childRep.inv_empty childRead
    exact ⟨_, _, [a], extendChild_empty backend ext found childRead insideAll,
      .empty (List.getElem?_set_self (by simpa using insideAll)), by simp, frame _ _⟩
  | leaf childExt value =>
    obtain ⟨rfl, rfl⟩ := childRep.inv_leaf childRead
    exact ⟨_, _, [a], extendChild_leaf backend ext found childRead insideAll,
      .leaf (List.getElem?_set_self (by simpa using insideAll)), by simp, frame _ _⟩
  | branch children value =>
    obtain ⟨ts, cids, rfl, rfl, below, distinct⟩ := childRep.inv_branch childRead
    refine ⟨_, _, a :: c' :: childIds cids, extendChild_branch backend ext found childRead insideAll,
      .extension (List.getElem?_set_self insideAll) (childRep.set notBelow₁ _) notBelow₁, ?_, ?_⟩
    · intro i member
      rcases List.mem_cons.mp member with rfl | inChild
      · exact .inl rfl
      · exact .inr (within₁ i inChild)
    · intro i otherA otherIds below
      have same := frame (some ⟨.branch children value, m⟩) (some ⟨.extension ext
        (.updated c'), m + extensionCost ext⟩) i otherA otherIds below
      rwa [set_of_read childRead] at same
  | extension childExt innerChild =>
    obtain ⟨tInner, innerIds, rfl, rfl, innerRep, freshC⟩ := childRep.inv_extension childRead
    have notInner : a ∉ innerIds := fun member => notBelow₁ (List.mem_cons_of_mem _ member)
    refine ⟨_, _, a :: innerIds, extendChild_extension backend ext found childRead insideAll,
      .extension (List.getElem?_set_self (by simpa using insideAll))
        ((innerRep.set freshC _).set notInner _) notInner, ?_,
      frame _ _⟩
    intro i member
    rcases List.mem_cons.mp member with rfl | inInner
    · exact .inl rfl
    · exact .inr (within₁ i (List.mem_cons_of_mem _ inInner))

theorem firstChild_isSome {P : Type} {children : Vector (Option P) 16}
    (several : numChildren children ≠ 0) : (firstChild children).isSome := by
  rw [firstChild, List.isSome_findSome?_tagged]
  rw [numChildren_eq_countP] at several
  obtain ⟨j, member, occupied⟩ := List.countP_pos_iff.mp (Nat.pos_of_ne_zero several)
  exact List.any_eq_true.mpr ⟨j, member, occupied⟩

/-- `squash_node` at the hole: the hole comes to stand for the squashed tree. A leaf is never
squashed. -/
theorem squashNode_holds (reads : backend.Reads old) {root a : Nat} {frames : List (Nat × Frame V)}
    {t : NodeTree V} (holds : Holds nodes old root frames a t)
    (notLeaf : ∀ ext value m, t ≠ .leaf ext value m) (inner : σ) :
    ∃ nodes' inner', squashNode backend a ⟨nodes, inner⟩ = .ok ((), ⟨nodes', inner'⟩) ∧
      Holds nodes' old root frames a t.squash := by
  obtain ⟨ctxIds, ids, ctx, rep, distinct⟩ := holds
  have onPath : a ∈ ids := rep.head_mem
  have inside : a < nodes.length := rep.lt_length onPath
  have outside := ctx.outside_hole distinct onPath
  -- what the squash writes outside the hole's tree and the fresh slots leaves the path alone
  have keepsPath : ∀ nodes' : UpdatedNodes N V, (∀ i, i ≠ a → i ∉ ids → i < nodes.length →
      nodes'[i]? = (nodes.set a none)[i]?) → ∀ i ∈ ctxIds, nodes'[i]? = nodes[i]? := by
    intro nodes' frame i member
    obtain ⟨other, below⟩ := outside i member
    rw [frame i other (fun inIds => (List.nodup_append.mp distinct).2.2 i member i inIds rfl) below,
      List.getElem?_set_ne (Ne.symm other)]
  obtain ⟨⟨node, m⟩, read⟩ := rep.isSome onPath
  cases node with
  | empty =>
    obtain ⟨rfl, rfl⟩ := rep.inv_empty read
    exact ⟨_, _, squashNode_empty backend read, Holds.of_within ctx distinct
      (ctx.set_same distinct onPath _) (.empty (by simp [inside])) (by simp)⟩
  | leaf =>
    obtain ⟨rfl, -⟩ := rep.inv_leaf read
    exact absurd rfl (notLeaf _ _ _)
  | extension ext child =>
    obtain ⟨tc, cids, rfl, rfl, childRep, fresh⟩ := rep.inv_extension read
    obtain ⟨nodes', inner', ids', run, rep', within, frame⟩ :=
      extendChild_rep reads ext (childRep.set fresh none) fresh (by simpa using inside) inner
    refine ⟨nodes', inner', by rw [squashNode_extension backend ext read]; exact run, ?_⟩
    refine Holds.of_within ctx distinct (keepsPath nodes' fun i other notIds below =>
      frame i other (fun member => notIds (List.mem_cons_of_mem _ member)) (by simpa using below))
      rep' fun i member => ?_
    rcases within i member with rfl | inChild | above
    · exact .inl onPath
    · exact .inl (List.mem_cons_of_mem _ inChild)
    · exact .inr (by simpa using above)
  | branch children value =>
    obtain ⟨ts, cids, rfl, rfl, below, pathDistinct⟩ := rep.inv_branch read
    have notBelow : ∀ j, a ∉ cids j := fun j member =>
      (List.nodup_cons.mp pathDistinct).1 (mem_childIds.mpr ⟨j, member⟩)
    have below' : ∀ j, Rep (nodes.set a none) old (children.get j) (ts j) (cids j) :=
      fun j => (below j).set (notBelow j) none
    have readable : ∀ (j : Fin 16) childId, children.get j = some (.updated childId) →
        ∃ node, (nodes.set a none)[childId]? = some (some node) := by
      intro j childId present
      have child := below' j
      rw [present] at child
      exact child.isSome child.head_mem
    have count := numChildren_keep below'
    by_cases childless : numChildren (children.map (keepChild (nodes.set a none))) = 0
    · -- no child is left: an empty node, or a leaf with the value
      have noTree : NodeTree.countChildren (fun j => (ts j).dropEmpty) = 0 := count ▸ childless
      cases value with
      | none =>
        refine ⟨_, _, squashNode_branch_empty backend read readable rfl childless, ?_⟩
        have squashed : (NodeTree.branch ts Option.none m).squash = .empty 0 := by
          simp [NodeTree.squash, NodeTree.squashBranch, noTree]
        rw [squashed]
        exact Holds.of_within ctx distinct (ctx.set_same distinct onPath _)
          (.empty (by simp [inside])) (by simp)
      | some kept =>
        refine ⟨_, _, squashNode_branch_leaf backend read readable rfl childless, ?_⟩
        have squashed : (NodeTree.branch ts (some kept) m).squash =
            .leaf ((NibbleSlice.new []).encoded true) kept
              (leafCost ((NibbleSlice.new []).encoded true) kept) := by
          simp [NodeTree.squash, NodeTree.squashBranch, noTree]
        rw [squashed]
        exact Holds.set_leaf ctx distinct onPath inside _ _ _
    by_cases single : numChildren (children.map (keepChild (nodes.set a none))) = 1 ∧ value.isNone
    · -- one child and no value: an extension over that child, merged with it
      obtain ⟨⟨idx, child⟩, first⟩ := Option.isSome_iff_exists.mp (firstChild_isSome childless)
      obtain ⟨firstTree, keptIds, childRep, sub⟩ := firstChild_keep below' first
      have noValue : value = Option.none := by simpa using single.2
      subst noValue
      have notChild : a ∉ keptIds := fun member => notBelow idx (sub.subset member)
      obtain ⟨nodes', inner', ids', run, rep', within, frame⟩ :=
        extendChild_rep reads ((NibbleSlice.new [UInt8.ofNat (idx.val <<< 4)]).encodedLeftmost 1 false)
          childRep notChild (by simpa using inside) inner
      have run' : squashNode backend a ⟨nodes, inner⟩ = .ok ((), ⟨nodes', inner'⟩) := by
        rw [squashNode_branch_single backend read readable rfl single.1 first]
        exact run
      refine ⟨nodes', inner', run', ?_⟩
      have squashed : (NodeTree.branch ts Option.none m).squash = NodeTree.extendChild
          ((NibbleSlice.new [UInt8.ofNat (idx.val <<< 4)]).encodedLeftmost 1 false) (ts idx).dropEmpty := by
        simp [NodeTree.squash, NodeTree.squashBranch, ← count, single.1, firstTree]
      rw [squashed]
      refine Holds.of_within ctx distinct (keepsPath nodes' fun i other notIds below =>
        frame i other (fun member => notIds (List.mem_cons_of_mem _
          (mem_childIds.mpr ⟨idx, sub.subset member⟩))) (by simpa using below)) rep' fun i member => ?_
      rcases within i member with rfl | inChild | above
      · exact .inl onPath
      · exact .inl (List.mem_cons_of_mem _ (mem_childIds.mpr ⟨idx, sub.subset inChild⟩))
      · exact .inr (by simpa using above)
    · -- several children, or one and a value: the branch stays, without its empty children
      refine ⟨_, _, squashNode_branch_keep backend read readable childless single, ?_⟩
      have squashed : (NodeTree.branch ts value m).squash =
          .branch (fun j => (ts j).dropEmpty) value m := by
        simp only [NodeTree.squash, NodeTree.squashBranch]
        rw [if_neg (by rwa [← count]), if_neg (by rwa [← count])]
      rw [squashed]
      choose keptIds kept sub using fun j => (below' j).keep
      have shrink := childIds_sublist sub
      have keptRep : ∀ j, Rep (nodes.set a (some ⟨.branch (children.map (keepChild (nodes.set a none)))
          value, m⟩)) old (children.map (keepChild (nodes.set a none)))[j] ((ts j).dropEmpty)
          (keptIds j) := by
        intro j
        rw [Fin.getElem_fin, Vector.getElem_map]
        have onSet := (kept j).set (fun member => notBelow j ((sub j).subset member))
          (some ⟨.branch (children.map (keepChild (nodes.set a none))) value, m⟩)
        rwa [List.set_set] at onSet
      refine Holds.of_within ctx distinct (ctx.set_same distinct onPath _)
        (.branch (by simp [inside]) keptRep ?_) fun i member => ?_
      · exact pathDistinct.sublist (shrink.cons_cons a)
      · rcases List.mem_cons.mp member with rfl | inChild
        · exact .inl onPath
        · exact .inl (List.mem_cons_of_mem _ (shrink.subset inChild))

end SquashInvariant

end Nearcore
