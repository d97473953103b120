import Nearcore.Trie.Node

/-! The tree a node pointer stands for. `Rep nodes old p t ids` says that following `p`
through the updated nodes `nodes` and the existing trie `old` gives the tree `t`, and that
the updated nodes it passes through are `ids`, each once: updated nodes form a tree, so
writing outside `ids` leaves `t` alone. -/
namespace Nearcore

/-- A node with every pointer followed. `none` is a branch's missing child. -/
inductive NodeTree (V : Type) where
  | none
  | empty (memoryUsage : Nat)
  | leaf (ext : List UInt8) (value : V) (memoryUsage : Nat)
  | extension (ext : List UInt8) (child : NodeTree V) (memoryUsage : Nat)
  | branch (children : Fin 16 → NodeTree V) (value : Option V) (memoryUsage : Nat)

namespace NodeTree

variable {V : Type}

/-- The memory usage stored at the top node. -/
def memoryUsage : NodeTree V → Nat
  | none => 0
  | empty memoryUsage => memoryUsage
  | leaf _ _ memoryUsage => memoryUsage
  | extension _ _ memoryUsage => memoryUsage
  | branch _ _ memoryUsage => memoryUsage

section
attribute [local simp] memoryUsage
end

/-- A missing child becomes an empty node when the loop descends into it. -/
def orEmpty : NodeTree V → NodeTree V
  | none => empty 0
  | t => t

end NodeTree

section Rep

variable {N V : Type}

/-- A pointer into the existing trie stands for a tree. The existing trie has no empty
nodes: an empty trie has no root at all. -/
inductive OldRep (old : N → Option (GenericTrieNodeWithSize N V)) : Option N → NodeTree V → Prop
  | none : OldRep old none .none
  | leaf {p : N} {ext : List UInt8} {value : V} {memoryUsage : Nat}
      (read : old p = some ⟨.leaf ext value, memoryUsage⟩) :
      OldRep old (some p) (.leaf ext value memoryUsage)
  | extension {p child : N} {ext : List UInt8} {memoryUsage : Nat} {t : NodeTree V}
      (read : old p = some ⟨.extension ext child, memoryUsage⟩) (below : OldRep old (some child) t) :
      OldRep old (some p) (.extension ext t memoryUsage)
  | branch {p : N} {children : Vector (Option N) 16} {value : Option V} {memoryUsage : Nat}
      {ts : Fin 16 → NodeTree V}
      (read : old p = some ⟨.branch children value, memoryUsage⟩)
      (below : ∀ j, OldRep old children[j] (ts j)) :
      OldRep old (some p) (.branch ts value memoryUsage)

abbrev UpdatedNodes (N V : Type) := List (Option (GenericUpdatedTrieNodeWithSize N V))

/-- The ids of a branch's subtrees, one after the other. -/
def childIds (ids : Fin 16 → List Nat) : List Nat := (List.finRange 16).flatMap ids

section
attribute [local simp] childIds
end

/-- A pointer stands for a tree and passes through the updated nodes `ids`, each once. -/
inductive Rep (nodes : UpdatedNodes N V) (old : N → Option (GenericTrieNodeWithSize N V)) :
    Option (GenericNodeOrIndex N) → NodeTree V → List Nat → Prop
  | none : Rep nodes old none .none []
  | old {p : N} {t : NodeTree V} (existing : OldRep old (some p) t) :
      Rep nodes old (some (.old p)) t []
  | empty {i memoryUsage : Nat} (read : nodes[i]? = some (some ⟨.empty, memoryUsage⟩)) :
      Rep nodes old (some (.updated i)) (.empty memoryUsage) [i]
  | leaf {i memoryUsage : Nat} {ext : List UInt8} {value : V}
      (read : nodes[i]? = some (some ⟨.leaf ext value, memoryUsage⟩)) :
      Rep nodes old (some (.updated i)) (.leaf ext value memoryUsage) [i]
  | extension {i memoryUsage : Nat} {ext : List UInt8} {child : GenericNodeOrIndex N}
      {t : NodeTree V} {ids : List Nat}
      (read : nodes[i]? = some (some ⟨.extension ext child, memoryUsage⟩))
      (below : Rep nodes old (some child) t ids) (fresh : i ∉ ids) :
      Rep nodes old (some (.updated i)) (.extension ext t memoryUsage) (i :: ids)
  | branch {i memoryUsage : Nat} {children : Vector (Option (GenericNodeOrIndex N)) 16}
      {value : Option V} {ts : Fin 16 → NodeTree V} {ids : Fin 16 → List Nat}
      (read : nodes[i]? = some (some ⟨.branch children value, memoryUsage⟩))
      (below : ∀ j, Rep nodes old children[j] (ts j) (ids j))
      (distinct : (i :: childIds ids).Nodup) :
      Rep nodes old (some (.updated i)) (.branch ts value memoryUsage) (i :: childIds ids)

variable {nodes nodes' : UpdatedNodes N V} {old : N → Option (GenericTrieNodeWithSize N V)}

theorem mem_childIds {ids : Fin 16 → List Nat} {i : Nat} :
    i ∈ childIds ids ↔ ∃ j, i ∈ ids j := by
  simp [childIds]

/-- Emptying one block of a concatenation and putting it at the end is a permutation. -/
theorem flatMap_update_perm (ids : Fin 16 → List Nat) (slot : Fin 16) :
    ∀ slots : List (Fin 16), slots.Nodup → slot ∈ slots →
      (slots.flatMap (Function.update ids slot []) ++ ids slot).Perm (slots.flatMap ids)
  | [], _, member => absurd member List.not_mem_nil
  | x :: rest, distinct, member => by
    have fresh := (List.nodup_cons.mp distinct).1
    by_cases here : x = slot
    · subst here
      have untouched : rest.flatMap (Function.update ids x []) = rest.flatMap ids := by
        apply List.flatMap_congr
        intro y inRest
        exact Function.update_of_ne (by rintro rfl; exact fresh inRest) _ _
      simp only [List.flatMap_cons, Function.update_self, List.nil_append, untouched]
      exact List.perm_append_comm
    · have inRest : slot ∈ rest := (List.mem_cons.mp member).resolve_left (Ne.symm here)
      simp only [List.flatMap_cons, Function.update_of_ne here, List.append_assoc]
      exact (flatMap_update_perm ids slot rest (List.nodup_cons.mp distinct).2 inRest).append_left _

theorem childIds_update_perm (ids : Fin 16 → List Nat) (slot : Fin 16) :
    (childIds (Function.update ids slot []) ++ ids slot).Perm (childIds ids) :=
  flatMap_update_perm ids slot _ (List.nodup_finRange 16) (List.mem_finRange slot)

/-- The ids of the other children are among all children's ids. -/
theorem flatMap_update_sublist (ids : Fin 16 → List Nat) (slot : Fin 16) :
    ∀ slots : List (Fin 16), (slots.flatMap (Function.update ids slot [])).Sublist (slots.flatMap ids)
  | [] => List.Sublist.slnil
  | x :: rest => by
    simp only [List.flatMap_cons]
    by_cases here : x = slot
    · subst here
      rw [Function.update_self, List.nil_append]
      exact (flatMap_update_sublist ids x rest).trans (List.sublist_append_right _ _)
    · rw [Function.update_of_ne here]
      exact (flatMap_update_sublist ids slot rest).append_left _

theorem childIds_update_sublist (ids : Fin 16 → List Nat) (slot : Fin 16) :
    (childIds (Function.update ids slot [])).Sublist (childIds ids) :=
  flatMap_update_sublist ids slot _

/-- Children whose ids shrink leave fewer ids. -/
theorem childIds_sublist {ids ids' : Fin 16 → List Nat} (shrink : ∀ j, (ids j).Sublist (ids' j)) :
    (childIds ids).Sublist (childIds ids') := by
  unfold childIds
  induction List.finRange 16 with
  | nil => exact List.Sublist.slnil
  | cons j rest ih =>
    simp only [List.flatMap_cons]
    exact (shrink j).append ih

theorem Rep.nodup {p : Option (GenericNodeOrIndex N)} {t : NodeTree V} {ids : List Nat}
    (rep : Rep nodes old p t ids) : ids.Nodup := by
  induction rep with
  | none => exact List.nodup_nil
  | old => exact List.nodup_nil
  | empty => exact List.nodup_singleton _
  | leaf => exact List.nodup_singleton _
  | extension _ _ fresh ih => exact List.nodup_cons.mpr ⟨fresh, ih⟩
  | branch _ _ distinct => exact distinct

/-- Frame rule: writes outside a tree's ids do not change the tree. -/
theorem Rep.frame {p : Option (GenericNodeOrIndex N)} {t : NodeTree V} {ids : List Nat}
    (rep : Rep nodes old p t ids) (same : ∀ i ∈ ids, nodes'[i]? = nodes[i]?) :
    Rep nodes' old p t ids := by
  induction rep with
  | none => exact .none
  | old existing => exact .old existing
  | empty read => exact .empty (by rw [same _ (List.mem_singleton_self _), read])
  | leaf read => exact .leaf (by rw [same _ (List.mem_singleton_self _), read])
  | extension read _ fresh ih =>
    refine .extension (by rw [same _ List.mem_cons_self, read]) ?_ fresh
    exact ih fun i member => same i (List.mem_cons_of_mem _ member)
  | branch read _ distinct ih =>
    refine .branch (by rw [same _ List.mem_cons_self, read]) ?_ distinct
    intro j
    exact ih j fun i member => same i (List.mem_cons_of_mem _ (mem_childIds.mpr ⟨j, member⟩))

/-- Every id a tree passes through holds a node. -/
theorem Rep.isSome {p : Option (GenericNodeOrIndex N)} {t : NodeTree V} {ids : List Nat}
    (rep : Rep nodes old p t ids) {i : Nat} (member : i ∈ ids) :
    ∃ node, nodes[i]? = some (some node) := by
  induction rep with
  | none => simp at member
  | old => simp at member
  | empty read => rw [List.mem_singleton.mp member]; exact ⟨_, read⟩
  | leaf read => rw [List.mem_singleton.mp member]; exact ⟨_, read⟩
  | extension read _ _ ih =>
    rcases List.mem_cons.mp member with here | below
    · rw [here]; exact ⟨_, read⟩
    · exact ih below
  | branch read _ _ ih =>
    rcases List.mem_cons.mp member with here | below
    · rw [here]; exact ⟨_, read⟩
    · obtain ⟨j, inChild⟩ := mem_childIds.mp below
      exact ih j inChild

theorem Rep.lt_length {p : Option (GenericNodeOrIndex N)} {t : NodeTree V} {ids : List Nat}
    (rep : Rep nodes old p t ids) {i : Nat} (member : i ∈ ids) : i < nodes.length := by
  obtain ⟨node, read⟩ := rep.isSome member
  exact (List.getElem?_eq_some_iff.mp read).1

/-- Appending nodes leaves every tree alone. -/
theorem Rep.append {p : Option (GenericNodeOrIndex N)} {t : NodeTree V} {ids : List Nat}
    (rep : Rep nodes old p t ids) (more : UpdatedNodes N V) :
    Rep (nodes ++ more) old p t ids :=
  rep.frame fun _ member => List.getElem?_append_left (rep.lt_length member)

/-- Writing one slot outside a tree's ids leaves the tree alone. -/
theorem Rep.set {p : Option (GenericNodeOrIndex N)} {t : NodeTree V} {ids : List Nat}
    (rep : Rep nodes old p t ids) {k : Nat} (outside : k ∉ ids)
    (node : Option (GenericUpdatedTrieNodeWithSize N V)) :
    Rep (nodes.set k node) old p t ids :=
  rep.frame fun i member => List.getElem?_set_ne (by rintro rfl; exact outside member)

/-- The node at the top of an updated pointer carries the tree's memory usage. -/
theorem Rep.read_updated {i : Nat} {t : NodeTree V} {ids : List Nat}
    (rep : Rep nodes old (some (.updated i)) t ids) :
    ∃ node, nodes[i]? = some (some ⟨node, t.memoryUsage⟩) := by
  cases rep with
  | empty read => exact ⟨_, read⟩
  | leaf read => exact ⟨_, read⟩
  | extension read _ _ => exact ⟨_, read⟩
  | branch read _ _ => exact ⟨_, read⟩

theorem Rep.head_mem {i : Nat} {t : NodeTree V} {ids : List Nat}
    (rep : Rep nodes old (some (.updated i)) t ids) : i ∈ ids := by
  cases rep <;> simp

/-- An updated copy of an existing node, as `ensure_updated` makes it, stands for the same
tree. -/
theorem Rep.ofOld {p : N} {t : NodeTree V} (existing : OldRep old (some p) t)
    {node : GenericTrieNodeWithSize N V} (read : old p = some node) {i : Nat}
    (copy : nodes[i]? = some (some node.toUpdated)) :
    Rep nodes old (some (.updated i)) t [i] := by
  cases existing with
  | leaf stored =>
    rw [read] at stored
    cases stored
    exact .leaf copy
  | extension stored below =>
    rw [read] at stored
    cases stored
    exact .extension copy (.old below) (List.not_mem_nil)
  | @branch _ children value memoryUsage ts stored below =>
    rw [read] at stored
    cases stored
    have childrenRep : ∀ j : Fin 16, Rep nodes old (children.map (Option.map GenericNodeOrIndex.old))[j]
        (ts j) ([] : List Nat) := by
      intro j
      have mapped : (children.map (Option.map GenericNodeOrIndex.old))[j] =
          children[j].map .old := by simp
      have child := below j
      rw [mapped]
      generalize children[j] = c at child ⊢
      generalize ts j = t at child ⊢
      cases child with
      | none => exact .none
      | leaf r => exact .old (.leaf r)
      | extension r b => exact .old (.extension r b)
      | branch r b => exact .old (.branch r b)
    have single : [i] = i :: childIds (fun _ => ([] : List Nat)) := by simp [childIds, List.flatMap]
    rw [single]
    exact .branch copy childrenRep (by simp [childIds, List.flatMap])

/-! What the node at the top of an updated pointer says about the tree. -/

section Inversion

variable {i m : Nat} {t : NodeTree V} {ids : List Nat}

theorem Rep.inv_empty (rep : Rep nodes old (some (.updated i)) t ids)
    (read : nodes[i]? = some (some ⟨.empty, m⟩)) : t = .empty m ∧ ids = [i] := by
  cases rep with
  | empty stored => rw [read] at stored; cases stored; exact ⟨rfl, rfl⟩
  | leaf stored => rw [read] at stored; cases stored
  | extension stored => rw [read] at stored; cases stored
  | branch stored => rw [read] at stored; cases stored

theorem Rep.inv_leaf {ext : List UInt8} {value : V} (rep : Rep nodes old (some (.updated i)) t ids)
    (read : nodes[i]? = some (some ⟨.leaf ext value, m⟩)) : t = .leaf ext value m ∧ ids = [i] := by
  cases rep with
  | empty stored => rw [read] at stored; cases stored
  | leaf stored => rw [read] at stored; cases stored; exact ⟨rfl, rfl⟩
  | extension stored => rw [read] at stored; cases stored
  | branch stored => rw [read] at stored; cases stored

theorem Rep.inv_extension {ext : List UInt8} {child : GenericNodeOrIndex N}
    (rep : Rep nodes old (some (.updated i)) t ids)
    (read : nodes[i]? = some (some ⟨.extension ext child, m⟩)) :
    ∃ t' cids, t = .extension ext t' m ∧ ids = i :: cids ∧ Rep nodes old (some child) t' cids ∧
      i ∉ cids := by
  cases rep with
  | empty stored => rw [read] at stored; cases stored
  | leaf stored => rw [read] at stored; cases stored
  | extension stored below fresh =>
    rw [read] at stored
    cases stored
    exact ⟨_, _, rfl, rfl, below, fresh⟩
  | branch stored => rw [read] at stored; cases stored

theorem Rep.inv_branch {children : Vector (Option (GenericNodeOrIndex N)) 16} {value : Option V}
    (rep : Rep nodes old (some (.updated i)) t ids)
    (read : nodes[i]? = some (some ⟨.branch children value, m⟩)) :
    ∃ ts cids, t = .branch ts value m ∧ ids = i :: childIds cids ∧
      (∀ j, Rep nodes old children[j] (ts j) (cids j)) ∧ (i :: childIds cids).Nodup := by
  cases rep with
  | empty stored => rw [read] at stored; cases stored
  | leaf stored => rw [read] at stored; cases stored
  | extension stored => rw [read] at stored; cases stored
  | branch stored below distinct =>
    rw [read] at stored
    cases stored
    exact ⟨_, _, rfl, rfl, below, distinct⟩

end Inversion

theorem OldRep.isSome {p : N} {t : NodeTree V} (existing : OldRep old (some p) t) :
    ∃ node, old p = some node := by
  cases existing with
  | leaf read => exact ⟨_, read⟩
  | extension read => exact ⟨_, read⟩
  | branch read => exact ⟨_, read⟩

/-- Frame rule for the existing trie: a store that holds every node `old` holds reads the
same tree. -/
theorem OldRep.mono {old' : N → Option (GenericTrieNodeWithSize N V)} {p : Option N} {t : NodeTree V}
    (existing : OldRep old p t) (larger : ∀ q node, old q = some node → old' q = some node) :
    OldRep old' p t := by
  induction existing with
  | none => exact .none
  | leaf read => exact .leaf (larger _ _ read)
  | extension read _ below => exact .extension (larger _ _ read) below
  | branch read _ below => exact .branch (larger _ _ read) below

/-- A pointer stands for a node, never for a missing child. -/
theorem Rep.orEmpty_eq {p : GenericNodeOrIndex N} {t : NodeTree V} {ids : List Nat}
    (rep : Rep nodes old (some p) t ids) : t.orEmpty = t := by
  cases rep with
  | old existing => cases existing <;> rfl
  | _ => rfl

/-! Branches built from scratch, as the restarts build them: one child at `slot`. -/

theorem childIds_single_perm (slot : Fin 16) (ids : List Nat) :
    ids.Perm (childIds (Function.update (fun _ => []) slot ids)) := by
  have cleared : Function.update (Function.update (fun _ => ([] : List Nat)) slot ids) slot [] =
      fun _ => [] := by
    rw [Function.update_idem, Function.update_eq_self_iff]
  have noIds : childIds (fun _ => ([] : List Nat)) = [] :=
    List.flatMap_eq_nil_iff.mpr fun _ _ => rfl
  have perm := childIds_update_perm (Function.update (fun _ => []) slot ids) slot
  rwa [cleared, Function.update_self, noIds, List.nil_append] at perm

theorem mem_childIds_single {slot : Fin 16} {ids : List Nat} {i : Nat} :
    i ∈ childIds (Function.update (fun _ => []) slot ids) ↔ i ∈ ids :=
  (childIds_single_perm slot ids).mem_iff.symm

theorem Rep.single_child {i m : Nat} {slot : Fin 16} {p : GenericNodeOrIndex N} {value : Option V}
    {t : NodeTree V} {ids : List Nat}
    (read : nodes[i]? = some (some ⟨.branch (noChildren.set slot (some p)) value, m⟩))
    (below : Rep nodes old (some p) t ids) (fresh : i ∉ ids) :
    Rep nodes old (some (.updated i)) (.branch (Function.update (fun _ => .none) slot t) value m)
      (i :: childIds (Function.update (fun _ => []) slot ids)) := by
  have perm := childIds_single_perm slot ids
  refine .branch read ?_ ?_
  · intro j
    by_cases atSlot : j = slot
    · subst atSlot
      simpa using below
    · simpa [Function.update_of_ne atSlot, Vector.getElem_set_ne _ _ (Fin.val_ne_of_ne (Ne.symm atSlot))]
        using (Rep.none : Rep nodes old Option.none .none [])
  · exact List.nodup_cons.mpr ⟨by rwa [← perm.mem_iff], perm.nodup_iff.mp below.nodup⟩

theorem Rep.childless {i m : Nat} {value : Option V}
    (read : nodes[i]? = some (some ⟨.branch noChildren value, m⟩)) :
    Rep nodes old (some (.updated i)) (.branch (fun _ => .none) value m) [i] := by
  have noIds : childIds (fun _ => ([] : List Nat)) = [] :=
    List.flatMap_eq_nil_iff.mpr fun _ _ => rfl
  have rep : Rep nodes old (some (.updated i)) (.branch (fun _ => .none) value m)
      (i :: childIds fun _ => []) :=
    .branch read (fun j => by simpa using (Rep.none : Rep nodes old Option.none .none []))
      (by simp [noIds])
  rwa [noIds] at rep

end Rep

end Nearcore
