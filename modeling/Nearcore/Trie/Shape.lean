import Nearcore.Trie.Lookup

/-! The shape of the tries the update code leaves behind. An empty node only ever stands for
an empty trie at the root: `post_order_traverse_updated_nodes` asserts it, and
`construct_root_from_changes` cannot encode one. Insertion never leaves an empty node, and
deletion leaves one only at the top of the part it rewrote, which the squash pass then drops
or passes upward. -/
namespace Nearcore

namespace NodeTree

variable {V : Type}

/-- No node of the tree is empty. -/
def EmptyFree : NodeTree V → Prop
  | none => True
  | empty _ => False
  | leaf .. => True
  | extension _ child _ => child.EmptyFree
  | branch ts _ _ => ∀ j, (ts j).EmptyFree

section
attribute [local simp] EmptyFree
end

/-- What a root may be: empty, or without empty nodes. -/
def RootShape (t : NodeTree V) : Prop := (∃ m, t = empty m) ∨ t.EmptyFree

theorem emptyFree_update {ts : Fin 16 → NodeTree V} (free : ∀ j, (ts j).EmptyFree) (idx : Fin 16)
    {t : NodeTree V} (below : t.EmptyFree) (j : Fin 16) :
    (Function.update ts idx t j).EmptyFree := by
  by_cases same : j = idx
  · subst same
    simpa using below
  · simpa [same] using free j

theorem emptyFree_single_child (idx : Fin 16) {t : NodeTree V} (below : t.EmptyFree)
    (value : Option V) (m : Nat) :
    (branch (Function.update (fun _ => none) idx t) value m).EmptyFree := by
  simp only [EmptyFree]
  intro j
  by_cases same : j = idx
  · subst same
    simpa using below
  · simp [same, EmptyFree]

theorem emptyFree_dropEmpty {t : NodeTree V} (free : t.EmptyFree ∨ t = empty 0) :
    t.dropEmpty.EmptyFree := by
  rcases free with free | rfl
  · cases t <;> first | exact free | trivial
  · trivial

/-- The node the insertion loop descends into has no empty node below its top. -/
theorem emptyFree_dropEmpty_orEmpty {t : NodeTree V} (free : t.EmptyFree) :
    t.orEmpty.dropEmpty.EmptyFree := by
  cases t <;> first | exact free | trivial

variable [HasValueLength V]

/-! Insertion leaves no empty node. -/

theorem emptyFree_leafToBranch (ext : List UInt8) (value : V) :
    (leafToBranch ext value).EmptyFree := by
  unfold leafToBranch
  dsimp only
  split_ifs
  · exact fun _ => trivial
  · exact emptyFree_single_child _ (by trivial) _ _

theorem emptyFree_extensionToBranch {ext : List UInt8} {child : NodeTree V} (m : Nat)
    (free : child.EmptyFree) : (extensionToBranch ext child m).EmptyFree := by
  unfold extensionToBranch
  dsimp only
  split_ifs
  · exact emptyFree_single_child _ free _ _
  · apply emptyFree_single_child
    exact free

/-- By induction along `insert`. The node inserted into may be empty at its top: the loop
descends into a missing child as into an empty node. -/
theorem emptyFree_insert (handle : V) (t : NodeTree V) (partialKey : NibbleSlice)
    (free : t.dropEmpty.EmptyFree) : (t.insert handle partialKey).EmptyFree := by
  induction t, partialKey using NodeTree.insert.induct handle with
  | case1 partialKey => rw [insert]; trivial
  | case2 partialKey m => rw [insert]; trivial
  | case3 partialKey ts oldValue m atKey =>
    rw [insert, if_pos atKey]
    exact free
  | case4 partialKey ts oldValue m descends idx child ih =>
    simp only [child, idx] at ih
    rw [insert, if_neg descends]
    exact emptyFree_update free _ (ih (emptyFree_dropEmpty_orEmpty (free _)))
  | case5 partialKey ext oldValue m existingKey commonPrefix same =>
    simp only [commonPrefix, existingKey] at same
    rw [insert, if_pos same]
    trivial
  | case6 partialKey ext oldValue m existingKey commonPrefix notSame noCommon ih =>
    simp only [commonPrefix, existingKey] at notSame noCommon
    rw [insert, if_neg notSame, if_pos noCommon]
    exact ih (emptyFree_dropEmpty (.inl (emptyFree_leafToBranch ext oldValue)))
  | case7 partialKey ext oldValue m existingKey commonPrefix notSame nonzero leafExt ih =>
    simp only [leafExt, commonPrefix, existingKey] at notSame nonzero ih
    rw [insert, if_neg notSame, if_neg nonzero]
    exact ih trivial
  | case8 partialKey ext child m existingKey commonPrefix noCommon ih =>
    simp only [commonPrefix, existingKey] at noCommon
    rw [insert, if_pos noCommon]
    exact ih (emptyFree_dropEmpty (.inl (emptyFree_extensionToBranch m free)))
  | case9 partialKey ext child m existingKey commonPrefix nonzero whole ih =>
    simp only [commonPrefix, existingKey] at nonzero whole ih
    rw [insert, if_neg nonzero, if_pos whole]
    exact ih (emptyFree_dropEmpty (.inl free))
  | case10 partialKey ext child m existingKey commonPrefix nonzero notWhole innerExt ih =>
    simp only [innerExt, commonPrefix, existingKey] at nonzero notWhole ih
    rw [insert, if_neg nonzero, if_neg notWhole]
    exact ih free

/-! Deletion leaves an empty node only at the top of what it rewrote, and only when it
deleted the key: the squash pass then drops it from its branch or passes it up. -/

/-- What deletion may leave: a tree without empty nodes, or an empty node. -/
def EmptyFreeOrEmpty (t : NodeTree V) : Prop := t.EmptyFree ∨ t = empty 0

section
attribute [local simp] EmptyFreeOrEmpty
end

theorem emptyFreeOrEmpty_extendChild (ext : List UInt8) {t : NodeTree V}
    (free : t.EmptyFreeOrEmpty) : (extendChild ext t).EmptyFreeOrEmpty := by
  rcases free with free | rfl
  · cases t with
    | empty => exact absurd free id
    | extension childExt inner m => exact .inl free
    | _ => exact .inl free
  · exact .inr rfl

theorem emptyFreeOrEmpty_squashBranch {ts : Fin 16 → NodeTree V}
    (free : ∀ j, (ts j).EmptyFreeOrEmpty) (value : Option V) (m : Nat) :
    (squashBranch ts value m).EmptyFreeOrEmpty := by
  have dropped : ∀ j, ((ts j).dropEmpty).EmptyFree := fun j => emptyFree_dropEmpty (free j)
  unfold squashBranch
  dsimp only
  split_ifs
  · cases value with
    | none => exact .inr rfl
    | some => exact .inl trivial
  · split
    · next idx child first =>
      rw [eq_of_firstChild first]
      exact emptyFreeOrEmpty_extendChild _ (.inl (dropped idx))
    · exact .inl trivial
  · exact .inl dropped

/-- By induction on the tree, following `delete`: an empty node comes back only with the key
deleted, and then every node above it is squashed. -/
theorem emptyFree_delete (t : NodeTree V) (free : t.EmptyFree) (partialKey : NibbleSlice) :
    (t.delete partialKey).1.EmptyFree ∨
      ((t.delete partialKey).1 = empty 0 ∧ (t.delete partialKey).2 = true) := by
  induction t generalizing partialKey with
  | none => exact .inl trivial
  | empty => exact absurd free id
  | leaf ext value m =>
    simp only [delete]
    split
    · exact .inr ⟨rfl, rfl⟩
    · exact .inl trivial
  | extension ext child m ih =>
    simp only [delete]
    split
    · rcases result : child.delete (partialKey.mid (NibbleSlice.fromEncoded ext).1.len) with
        ⟨newChild, keyDeleted⟩
      have below := ih free (partialKey.mid (NibbleSlice.fromEncoded ext).1.len)
      rw [result] at below
      cases keyDeleted with
      | true =>
        rcases emptyFreeOrEmpty_extendChild ext (below.imp id And.left) with done | emptied
        · exact .inl done
        · exact .inr ⟨emptied, rfl⟩
      | false =>
        simp only [Bool.false_eq_true, and_false, or_false] at below
        exact .inl below
    · exact .inl free
  | branch ts value m ih =>
    simp only [delete]
    split
    · cases value with
      | none => exact .inl free
      | some =>
        rcases emptyFreeOrEmpty_squashBranch (fun j => .inl (free j)) Option.none
          (saturatingAdd (m - branchCost (some ‹V›)) (branchCost (Option.none : Option V))) with
          done | emptied
        · exact .inl done
        · exact .inr ⟨emptied, rfl⟩
    · split
      · exact .inl free
      · rcases result : (ts (partialKey.atIndex 0)).delete (partialKey.mid 1) with
          ⟨newChild, keyDeleted⟩
        have below := ih (partialKey.atIndex 0) (free _) (partialKey.mid 1)
        rw [result] at below
        cases keyDeleted with
        | true =>
          have children : ∀ j, (Function.update ts (partialKey.atIndex 0) newChild j).EmptyFreeOrEmpty := by
            intro j
            by_cases same : j = partialKey.atIndex 0
            · subst same
              simpa [EmptyFreeOrEmpty] using below.imp id And.left
            · simpa [same, EmptyFreeOrEmpty] using Or.inl (free j)
          rcases emptyFreeOrEmpty_squashBranch children value _ with done | emptied
          · exact .inl done
          · exact .inr ⟨emptied, rfl⟩
        | false =>
          simp only [Bool.false_eq_true, and_false, or_false] at below
          exact .inl (emptyFree_update free _ below)

end NodeTree

section Old

variable {N V : Type} {old : N → Option (GenericTrieNodeWithSize N V)}

/-- The existing trie has no empty nodes. -/
theorem OldRep.emptyFree {p : Option N} {t : NodeTree V} (existing : OldRep old p t) :
    t.EmptyFree := by
  induction existing with
  | none => trivial
  | leaf => trivial
  | extension _ _ below => exact below
  | branch _ _ below => exact below

/-- A root of the existing trie is a node, never a missing child. -/
theorem OldRep.orEmpty_eq {p : N} {t : NodeTree V} (existing : OldRep old (some p) t) :
    t.orEmpty = t := by
  cases existing <;> rfl

end Old

end Nearcore
