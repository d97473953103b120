import Nearcore.Trie.DeleteRefine
import Nearcore.Library.PathMap

/-! What a trie means: the value it holds under each nibble path, read the way
`memtrie_lookup` (`core/store/src/trie/mem/lookup.rs`) walks it: a leaf answers at its own
path, an extension passes the rest of the key below its path, a branch answers with its value
at the empty path and passes the rest to the child at the first nibble. Squashing changes no
lookup, and insertion and deletion change exactly the key they are given. -/
namespace Nearcore

namespace NodeTree

variable {V : Type}

/-- The map from nibble paths to values that the tree stands for. -/
def lookup : NodeTree V → List Nibble → Option V
  | none => PathMap.empty
  | empty _ => PathMap.empty
  | leaf ext value _ => PathMap.single (NibbleSlice.fromEncoded ext).1.nibbles value
  | extension ext child _ => PathMap.under (NibbleSlice.fromEncoded ext).1.nibbles child.lookup
  | branch ts value _ => PathMap.node value fun j => (ts j).lookup

section
attribute [local simp] lookup
end

@[simp] theorem lookup_leaf (ext : List UInt8) (value : V) (m : Nat) :
    (leaf ext value m).lookup = PathMap.single (NibbleSlice.fromEncoded ext).1.nibbles value := rfl

@[simp] theorem lookup_extension (ext : List UInt8) (child : NodeTree V) (m : Nat) :
    (extension ext child m).lookup =
      PathMap.under (NibbleSlice.fromEncoded ext).1.nibbles child.lookup := rfl

@[simp] theorem lookup_branch (ts : Fin 16 → NodeTree V) (value : Option V) (m : Nat) :
    (branch ts value m).lookup = PathMap.node value fun j => (ts j).lookup := rfl

theorem lookup_orEmpty (t : NodeTree V) : t.orEmpty.lookup = t.lookup := by
  cases t <;> rfl

theorem lookup_dropEmpty (t : NodeTree V) : t.dropEmpty.lookup = t.lookup := by
  cases t <;> rfl

theorem lookup_update (ts : Fin 16 → NodeTree V) (idx : Fin 16) (t : NodeTree V) :
    (fun j => (Function.update ts idx t j).lookup) =
      Function.update (fun j => (ts j).lookup) idx t.lookup := by
  funext j
  by_cases same : j = idx
  · subst same
    simp
  · simp [same]

/-! The children of a branch, as `squash_node` counts them. -/

theorem toOption_eq_none_iff {t : NodeTree V} : t.toOption = Option.none ↔ t = none := by
  cases t <;> simp [toOption]

theorem eq_none_of_countChildren_eq_zero {ts : Fin 16 → NodeTree V} (zero : countChildren ts = 0)
    (j : Fin 16) : ts j = none := by
  have absent := List.countP_eq_zero.mp zero j (List.mem_finRange j)
  simpa [toOption_eq_none_iff] using absent

theorem firstChild_isSome_of_ne_zero {ts : Fin 16 → NodeTree V} (several : countChildren ts ≠ 0) :
    (firstChild ts).isSome := by
  rw [firstChild, List.isSome_findSome?_tagged]
  obtain ⟨j, member, occupied⟩ := List.countP_pos_iff.mp (Nat.pos_of_ne_zero several)
  exact List.any_eq_true.mpr ⟨j, member, occupied⟩

/-- A branch with one child: the child `firstChild` finds is the only one. -/
theorem eq_none_of_firstChild {ts : Fin 16 → NodeTree V} (one : countChildren ts = 1)
    {idx : Fin 16} {child : NodeTree V} (first : firstChild ts = some (idx, child)) (j : Fin 16)
    (other : j ≠ idx) : ts j = none := by
  obtain ⟨-, hit⟩ := List.findSome?_tagged_eq_some first
  have occupied : (ts idx).toOption.isSome = true := by simp [hit]
  by_contra present
  have counted : (ts j).toOption.isSome = true := by
    cases slot : ts j <;> simp_all [toOption]
  exact other (List.eq_of_countP_eq_one one (List.mem_finRange j) (List.mem_finRange idx)
    counted occupied)

/-! Squashing keeps every lookup. -/

variable [HasValueLength V]

/-- `extend_child` builds a node that answers like an extension over the child. -/
theorem lookup_extendChild {ext : List UInt8} (nonempty : (NibbleSlice.fromEncoded ext).1.len ≠ 0)
    (t : NodeTree V) :
    (extendChild ext t).lookup = PathMap.under (NibbleSlice.fromEncoded ext).1.nibbles t.lookup := by
  have firstFromLeft : 0 < (NibbleSlice.fromEncoded ext).1.len := Nat.pos_of_ne_zero nonempty
  cases t with
  | none => simp [extendChild, lookup]
  | empty => simp [extendChild, lookup]
  | leaf childExt value m =>
    simp only [extendChild, lookup]
    rw [NibbleSlice.nibbles_fromEncoded_mergeEncoded _ _ _ (.inl firstFromLeft),
      PathMap.under_single]
  | extension childExt inner m =>
    simp only [extendChild, lookup]
    rw [NibbleSlice.nibbles_fromEncoded_mergeEncoded _ _ _ (.inl firstFromLeft),
      PathMap.under_append]
  | branch => rfl

theorem lookup_squashBranch (ts : Fin 16 → NodeTree V) (value : Option V) (memoryUsage : Nat) :
    (squashBranch ts value memoryUsage).lookup = PathMap.node value fun j => (ts j).lookup := by
  have kept : (fun j => (ts j).lookup) = fun j => ((ts j).dropEmpty).lookup := by
    simp [lookup_dropEmpty]
  rw [kept]
  unfold squashBranch
  dsimp only
  split_ifs with none_left single
  · -- no child left: the value alone, at the empty path
    have childless : (fun j => ((ts j).dropEmpty).lookup) = fun _ => PathMap.empty := by
      funext j
      rw [eq_none_of_countChildren_eq_zero none_left j]
      rfl
    rw [childless]
    cases value with
    | none => simp [lookup]
    | some value =>
      simp only [lookup, NibbleSlice.nibbles_fromEncoded_encoded, NibbleSlice.nibbles_new,
        bytesToNibbles_nil]
      exact PathMap.single_nil value
  · -- one child and no value: an extension over the child with the child's nibble
    obtain ⟨one, noValue⟩ := single
    rw [Option.isNone_iff_eq_none] at noValue
    subst noValue
    obtain ⟨⟨idx, child⟩, first⟩ := Option.isSome_iff_exists.mp
      (firstChild_isSome_of_ne_zero (by omega : countChildren (fun j => (ts j).dropEmpty) ≠ 0))
    rw [first]
    dsimp only
    rw [lookup_extendChild (by simp),
      NibbleSlice.nibbles_fromEncoded_slot, eq_of_firstChild first]
    refine (PathMap.node_of_only idx (fun j => ((ts j).dropEmpty).lookup) fun j other => ?_).symm
    simp [eq_none_of_firstChild one first j other, lookup]
  · rfl

/-- `squash_node` keeps every lookup, where the node is not an extension with an empty key. -/
theorem lookup_squash (t : NodeTree V) (wellFormed : t.NonemptyExtensions) :
    t.squash.lookup = t.lookup := by
  cases t with
  | none => rfl
  | empty => rfl
  | leaf => rfl
  | extension ext child m =>
    exact lookup_extendChild wellFormed.1 child
  | branch ts value m => exact lookup_squashBranch ts value m

/-! Squashing keeps extension keys nonempty. -/

omit [HasValueLength V] in
theorem nonemptyExtensions_dropEmpty {t : NodeTree V} (wellFormed : t.NonemptyExtensions) :
    t.dropEmpty.NonemptyExtensions := by
  cases t <;> exact wellFormed

theorem nonemptyExtensions_extendChild {ext : List UInt8}
    (nonempty : (NibbleSlice.fromEncoded ext).1.len ≠ 0) {t : NodeTree V}
    (wellFormed : t.NonemptyExtensions) : (extendChild ext t).NonemptyExtensions := by
  cases t with
  | none => trivial
  | empty => trivial
  | leaf => trivial
  | extension childExt inner m =>
    refine ⟨?_, wellFormed.2⟩
    rw [NibbleSlice.len_eq, NibbleSlice.nibbles_fromEncoded_mergeEncoded _ _ _
      (.inl (Nat.pos_of_ne_zero nonempty))]
    rw [NibbleSlice.len_eq] at nonempty
    simp [nonempty]
  | branch => exact ⟨nonempty, wellFormed⟩

theorem nonemptyExtensions_squashBranch {ts : Fin 16 → NodeTree V} {value : Option V} {m : Nat}
    (wellFormed : ∀ j, (ts j).NonemptyExtensions) :
    (squashBranch ts value m).NonemptyExtensions := by
  unfold squashBranch
  dsimp only
  split_ifs
  · cases value <;> trivial
  · split
    · next idx child first =>
      rw [eq_of_firstChild first]
      exact nonemptyExtensions_extendChild (by simp) (nonemptyExtensions_dropEmpty (wellFormed idx))
    · trivial
  · exact fun j => nonemptyExtensions_dropEmpty (wellFormed j)

theorem nonemptyExtensions_squash {t : NodeTree V} (wellFormed : t.NonemptyExtensions) :
    t.squash.NonemptyExtensions := by
  cases t with
  | extension ext child m => exact nonemptyExtensions_extendChild wellFormed.1 wellFormed.2
  | branch ts value m => exact nonemptyExtensions_squashBranch wellFormed
  | _ => trivial

/-! Deletion removes exactly the given key. -/

/-- By induction on the tree, following `delete`: the key is removed from the child it
descends into, and squashing the nodes on the way back changes no lookup. -/
theorem lookup_delete (t : NodeTree V) (wellFormed : t.NonemptyExtensions)
    (partialKey : NibbleSlice) :
    (t.delete partialKey).1.lookup = Function.update t.lookup partialKey.nibbles Option.none := by
  induction t generalizing partialKey with
  | none => exact (PathMap.update_of_apply_eq rfl).symm
  | empty m => exact (PathMap.update_of_apply_eq rfl).symm
  | leaf ext value m =>
    by_cases found : ((NibbleSlice.fromEncoded ext).1 == partialKey) = true
    · rw [← (NibbleSlice.beq_iff _ _).mp found]
      simp [delete, found, lookup, PathMap.update_single_self]
    · have other : partialKey.nibbles ≠ (NibbleSlice.fromEncoded ext).1.nibbles := fun same =>
        found ((NibbleSlice.beq_iff _ _).mpr same.symm)
      simp only [delete, found, if_false, Bool.false_eq_true]
      exact (PathMap.update_of_apply_eq (by simp [lookup, PathMap.single_apply, other])).symm
  | extension ext child m ih =>
    by_cases whole : (NibbleSlice.fromEncoded ext).1.commonPrefix partialKey =
        (NibbleSlice.fromEncoded ext).1.len
    · -- the key runs through the extension: it is deleted below it
      obtain ⟨rest, split⟩ := (NibbleSlice.commonPrefix_eq_len_iff _ _).mp whole
      have below : (partialKey.mid (NibbleSlice.fromEncoded ext).1.len).nibbles = rest := by
        simp [← split]
      have deleted := ih wellFormed.2 (partialKey.mid (NibbleSlice.fromEncoded ext).1.len)
      rw [below] at deleted
      rcases result : child.delete (partialKey.mid (NibbleSlice.fromEncoded ext).1.len) with
        ⟨newChild, keyDeleted⟩
      rw [result] at deleted
      have moved : (extension ext newChild 0).lookup =
          Function.update (extension ext child m).lookup partialKey.nibbles Option.none := by
        rw [← split, lookup, lookup, PathMap.update_under, ← deleted]
      cases keyDeleted with
      | true =>
        simp only [delete, whole, if_true, result]
        rw [lookup_extendChild wellFormed.1, ← moved]
        rfl
      | false =>
        simp only [delete, whole, if_true, result, Bool.false_eq_true, if_false]
        exact moved
    · -- the key leaves the extension's path: nothing is under it
      have outside : ¬(NibbleSlice.fromEncoded ext).1.nibbles <+: partialKey.nibbles :=
        fun front => whole ((NibbleSlice.commonPrefix_eq_len_iff _ _).mpr front)
      simp only [delete, whole, if_false]
      exact (PathMap.update_of_apply_eq (PathMap.under_apply_eq_none _ outside)).symm
  | branch ts value m ih =>
    by_cases atKey : partialKey.isEmpty = true
    · -- the key ends here: the branch's value goes
      have ends := (NibbleSlice.isEmpty_iff _).mp atKey
      rw [ends]
      cases value with
      | none =>
        simp only [delete, atKey, if_true]
        rw [lookup, PathMap.update_node_nil]
      | some value =>
        simp only [delete, atKey, if_true]
        rw [lookup_squashBranch, lookup, PathMap.update_node_nil]
    · have descends : partialKey.isEmpty = false := by simpa using atKey
      rw [NibbleSlice.nibbles_eq_cons partialKey descends]
      by_cases missing : (ts (partialKey.atIndex 0)).isNone = true
      · -- no child at the first nibble: nothing is under it
        have absent : ts (partialKey.atIndex 0) = none := by
          cases slot : ts (partialKey.atIndex 0) <;> simp_all [isNone]
        simp only [delete, atKey, if_false, Bool.false_eq_true, missing, if_true]
        exact (PathMap.update_of_apply_eq (by simp [lookup, absent])).symm
      · have deleted := ih (partialKey.atIndex 0) (wellFormed _) (partialKey.mid 1)
        rcases result : (ts (partialKey.atIndex 0)).delete (partialKey.mid 1) with
          ⟨newChild, keyDeleted⟩
        rw [result] at deleted
        have moved : (branch (Function.update ts (partialKey.atIndex 0) newChild) value 0).lookup =
            Function.update (branch ts value m).lookup
              (partialKey.atIndex 0 :: (partialKey.mid 1).nibbles) Option.none := by
          rw [lookup, lookup, lookup_update, PathMap.update_node_cons, ← deleted]
        cases keyDeleted with
        | true =>
          simp only [delete, atKey, if_false, Bool.false_eq_true, missing, result, if_true]
          rw [lookup_squashBranch, ← moved]
          rfl
        | false =>
          simp only [delete, atKey, if_false, Bool.false_eq_true, missing, result]
          exact moved

/-- Deletion keeps extension keys nonempty. -/
theorem nonemptyExtensions_delete (t : NodeTree V) (wellFormed : t.NonemptyExtensions)
    (partialKey : NibbleSlice) : (t.delete partialKey).1.NonemptyExtensions := by
  induction t generalizing partialKey with
  | none => trivial
  | empty => trivial
  | leaf ext value m =>
    simp only [delete]
    split <;> trivial
  | extension ext child m ih =>
    simp only [delete]
    split
    · have below := ih wellFormed.2 (partialKey.mid (NibbleSlice.fromEncoded ext).1.len)
      rcases result : child.delete (partialKey.mid (NibbleSlice.fromEncoded ext).1.len) with
        ⟨newChild, keyDeleted⟩
      rw [result] at below
      cases keyDeleted with
      | true => exact nonemptyExtensions_extendChild wellFormed.1 below
      | false => exact ⟨wellFormed.1, below⟩
    · exact wellFormed
  | branch ts value m ih =>
    simp only [delete]
    split
    · cases value with
      | none => exact wellFormed
      | some => exact nonemptyExtensions_squashBranch wellFormed
    · split
      · exact wellFormed
      · have below := ih (partialKey.atIndex 0) (wellFormed _) (partialKey.mid 1)
        rcases result : (ts (partialKey.atIndex 0)).delete (partialKey.mid 1) with
          ⟨newChild, keyDeleted⟩
        rw [result] at below
        have children : ∀ j, (Function.update ts (partialKey.atIndex 0) newChild j).NonemptyExtensions := by
          intro j
          by_cases same : j = partialKey.atIndex 0
          · subst same
            simpa using below
          · simpa [same] using wellFormed j
        cases keyDeleted with
        | true => exact nonemptyExtensions_squashBranch children
        | false => exact children

/-! Insertion sets exactly the given key. -/

omit [HasValueLength V] in
/-- A branch with one child and no value answers like an extension over the child. -/
theorem lookup_single_child (idx : Fin 16) (t : NodeTree V) (m : Nat) :
    (branch (Function.update (fun _ => none) idx t) Option.none m).lookup =
      PathMap.under [idx] t.lookup := by
  rw [lookup, lookup_update, PathMap.under_singleton]
  rfl

/-- The branch a leaf becomes holds the leaf's one entry. -/
theorem lookup_leafToBranch (ext : List UInt8) (value : V) (m : Nat) :
    (leafToBranch ext value).lookup = (leaf ext value m).lookup := by
  unfold leafToBranch
  dsimp only
  split_ifs with atKey
  · rw [lookup, (NibbleSlice.isEmpty_iff _).mp atKey, lookup, PathMap.single_nil]
    rfl
  · have descends : (NibbleSlice.fromEncoded ext).1.isEmpty = false := by simpa using atKey
    rw [lookup_single_child, lookup, lookup, NibbleSlice.nibbles_fromEncoded_encoded,
      PathMap.under_single, NibbleSlice.nibbles_eq_cons _ descends]
    rfl

/-- The branch an extension becomes answers like the extension, whose key is nonempty. -/
theorem lookup_extensionToBranch {ext : List UInt8}
    (nonempty : (NibbleSlice.fromEncoded ext).1.len ≠ 0) (child : NodeTree V) (m m' : Nat) :
    (extensionToBranch ext child m).lookup = (extension ext child m').lookup := by
  have descends : (NibbleSlice.fromEncoded ext).1.isEmpty = false := by
    simpa [NibbleSlice.isEmpty] using nonempty
  have inner : ∀ t : NodeTree V, t.lookup =
      PathMap.under ((NibbleSlice.fromEncoded ext).1.mid 1).nibbles child.lookup →
      (branch (Function.update (fun _ => none) ((NibbleSlice.fromEncoded ext).1.atIndex 0) t)
        Option.none (branchCost (Option.none : Option V) + t.memoryUsage)).lookup =
        (extension ext child m').lookup := by
    intro t below
    rw [lookup_single_child, below, ← PathMap.under_append, lookup]
    rw [NibbleSlice.nibbles_eq_cons _ descends]
    rfl
  unfold extensionToBranch
  dsimp only
  by_cases single : (NibbleSlice.fromEncoded ext).1.len = 1
  · -- a one-nibble key: the child goes straight into the branch
    simp only [single, if_true]
    apply inner
    have rest : ((NibbleSlice.fromEncoded ext).1.mid 1).nibbles = [] := by
      rw [NibbleSlice.len_eq, List.length_eq_one_iff] at single
      obtain ⟨first, only⟩ := single
      simp [only]
    rw [rest, PathMap.under_nil]
  · simp only [single, if_false]
    apply inner
    rw [lookup, NibbleSlice.nibbles_fromEncoded_encoded]

omit [HasValueLength V] in
theorem nonemptyExtensions_update {ts : Fin 16 → NodeTree V} (wellFormed : ∀ j, (ts j).NonemptyExtensions)
    (idx : Fin 16) {t : NodeTree V} (below : t.NonemptyExtensions) (j : Fin 16) :
    (Function.update ts idx t j).NonemptyExtensions := by
  by_cases same : j = idx
  · subst same
    simpa using below
  · simpa [same] using wellFormed j

omit [HasValueLength V] in
theorem nonemptyExtensions_single_child (idx : Fin 16) {t : NodeTree V}
    (below : t.NonemptyExtensions) (value : Option V) (m : Nat) :
    (branch (Function.update (fun _ => none) idx t) value m).NonemptyExtensions := by
  simp only [NonemptyExtensions]
  intro j
  by_cases same : j = idx
  · subst same
    simpa using below
  · simp [same, NonemptyExtensions]

omit [HasValueLength V] in
theorem nonemptyExtensions_orEmpty {t : NodeTree V} (wellFormed : t.NonemptyExtensions) :
    t.orEmpty.NonemptyExtensions := by
  cases t <;> exact wellFormed

theorem nonemptyExtensions_leafToBranch (ext : List UInt8) (value : V) :
    (leafToBranch ext value).NonemptyExtensions := by
  unfold leafToBranch
  dsimp only
  split_ifs
  · simp [NonemptyExtensions]
  · exact nonemptyExtensions_single_child _ (by trivial) _ _

theorem nonemptyExtensions_extensionToBranch {ext : List UInt8} {child : NodeTree V} {m : Nat}
    (wellFormed : (extension ext child m).NonemptyExtensions) :
    (extensionToBranch ext child m).NonemptyExtensions := by
  unfold extensionToBranch
  dsimp only
  by_cases single : (NibbleSlice.fromEncoded ext).1.len = 1
  · simp only [single, if_true]
    exact nonemptyExtensions_single_child _ wellFormed.2 _ _
  · simp only [single, if_false]
    apply nonemptyExtensions_single_child
    refine ⟨?_, wellFormed.2⟩
    have long := wellFormed.1
    simp only [NibbleSlice.len_eq, NibbleSlice.nibbles_fromEncoded_encoded, NibbleSlice.nibbles_mid,
      List.length_drop] at long single ⊢
    omega

/-- Insertion keeps extension keys nonempty: every extension it creates has a key of at
least one nibble. -/
theorem nonemptyExtensions_insert (handle : V) (t : NodeTree V) (partialKey : NibbleSlice)
    (wellFormed : t.NonemptyExtensions) : (t.insert handle partialKey).NonemptyExtensions := by
  induction t, partialKey using NodeTree.insert.induct handle with
  | case1 partialKey => rw [insert]; trivial
  | case2 partialKey m => rw [insert]; trivial
  | case3 partialKey ts oldValue m atKey =>
    rw [insert, if_pos atKey]
    exact wellFormed
  | case4 partialKey ts oldValue m descends idx child ih =>
    rw [insert, if_neg descends]
    exact nonemptyExtensions_update wellFormed _ (ih (nonemptyExtensions_orEmpty (wellFormed _)))
  | case5 partialKey ext oldValue m existingKey commonPrefix same =>
    rw [insert, if_pos same]
    trivial
  | case6 partialKey ext oldValue m existingKey commonPrefix notSame noCommon ih =>
    rw [insert, if_neg notSame, if_pos noCommon]
    exact ih (nonemptyExtensions_leafToBranch ext oldValue)
  | case7 partialKey ext oldValue m existingKey commonPrefix notSame nonzero leafExt ih =>
    rw [insert, if_neg notSame, if_neg nonzero]
    refine ⟨?_, ih trivial⟩
    have split : partialKey.commonPrefix (NibbleSlice.fromEncoded ext).1 ≠ 0 := nonzero
    have bound := commonPrefix_le_len partialKey (NibbleSlice.fromEncoded ext).1
    simp only [NibbleSlice.len_eq, NibbleSlice.nibbles_fromEncoded_encodedLeftmost,
      List.length_take] at bound ⊢
    omega
  | case8 partialKey ext child m existingKey commonPrefix noCommon ih =>
    rw [insert, if_pos noCommon]
    exact ih (nonemptyExtensions_extensionToBranch wellFormed)
  | case9 partialKey ext child m existingKey commonPrefix nonzero whole ih =>
    rw [insert, if_neg nonzero, if_pos whole]
    exact ⟨wellFormed.1, ih wellFormed.2⟩
  | case10 partialKey ext child m existingKey commonPrefix nonzero notWhole innerExt ih =>
    rw [insert, if_neg nonzero, if_neg notWhole]
    have split : partialKey.commonPrefix (NibbleSlice.fromEncoded ext).1 ≠ 0 := nonzero
    have short : partialKey.commonPrefix (NibbleSlice.fromEncoded ext).1 ≠
        (NibbleSlice.fromEncoded ext).1.len := notWhole
    have bound := List.commonPrefixLength_le_right partialKey.nibbles
      (NibbleSlice.fromEncoded ext).1.nibbles
    rw [← NibbleSlice.commonPrefix_eq] at bound
    refine ⟨?_, ih ⟨?_, wellFormed.2⟩⟩
    · simp only [NibbleSlice.len_eq, NibbleSlice.nibbles_fromEncoded_encodedLeftmost,
        List.length_take] at short ⊢
      omega
    · simp only [innerExt, existingKey, commonPrefix, NibbleSlice.len_eq,
        NibbleSlice.nibbles_fromEncoded_encoded, NibbleSlice.nibbles_mid, List.length_drop] at short ⊢
      omega

/-- Insertion sets exactly the given key: by induction along `insert`. Where a leaf or an
extension is split at the common prefix with the key, the update happens below the shared
front. -/
theorem lookup_insert (handle : V) (t : NodeTree V) (partialKey : NibbleSlice)
    (wellFormed : t.NonemptyExtensions) :
    (t.insert handle partialKey).lookup =
      Function.update t.lookup partialKey.nibbles (some handle) := by
  induction t, partialKey using NodeTree.insert.induct handle with
  | case1 partialKey =>
    rw [insert, lookup_leaf, NibbleSlice.nibbles_fromEncoded_encoded, lookup, PathMap.update_empty]
  | case2 partialKey m =>
    rw [insert, lookup_leaf, NibbleSlice.nibbles_fromEncoded_encoded, lookup, PathMap.update_empty]
  | case3 partialKey ts oldValue m atKey =>
    rw [insert, if_pos atKey, lookup_branch, lookup_branch, (NibbleSlice.isEmpty_iff _).mp atKey,
      PathMap.update_node_nil]
  | case4 partialKey ts oldValue m descends idx child ih =>
    simp only [child, idx] at ih
    have below := ih (nonemptyExtensions_orEmpty (wellFormed _))
    rw [lookup_orEmpty] at below
    rw [insert, if_neg descends, lookup_branch, lookup_branch, lookup_update, below,
      NibbleSlice.nibbles_eq_cons partialKey (by simpa using descends), PathMap.update_node_cons]
  | case5 partialKey ext oldValue m existingKey commonPrefix same =>
    simp only [commonPrefix, existingKey] at same
    obtain ⟨whole, full⟩ := same
    have equal : (NibbleSlice.fromEncoded ext).1.nibbles = partialKey.nibbles := by
      refine ((NibbleSlice.commonPrefix_eq_len_right_iff _ _).mp whole).eq_of_length ?_
      rw [← NibbleSlice.len_eq, ← NibbleSlice.len_eq, ← whole, full]
    rw [insert, if_pos ⟨whole, full⟩, lookup_leaf, lookup_leaf, ← equal,
      PathMap.update_single_self]
    rfl
  | case6 partialKey ext oldValue m existingKey commonPrefix notSame noCommon ih =>
    simp only [commonPrefix, existingKey] at notSame noCommon
    rw [insert, if_neg notSame, if_pos noCommon, ih (nonemptyExtensions_leafToBranch ext oldValue),
      lookup_leafToBranch ext oldValue m]
  | case7 partialKey ext oldValue m existingKey commonPrefix notSame nonzero leafExt ih =>
    -- the leaf splits into an extension over the shared front and a leaf below it
    simp only [leafExt, commonPrefix, existingKey] at notSame nonzero ih
    have shared : partialKey.nibbles.take (partialKey.commonPrefix (NibbleSlice.fromEncoded ext).1) =
        (NibbleSlice.fromEncoded ext).1.nibbles.take
          (partialKey.commonPrefix (NibbleSlice.fromEncoded ext).1) := by
      rw [NibbleSlice.commonPrefix_eq]
      exact List.take_commonPrefixLength _ _
    have within := commonPrefix_le_len partialKey (NibbleSlice.fromEncoded ext).1
    have below := ih trivial
    rw [insert, if_neg notSame, if_neg nonzero]
    dsimp only
    rw [lookup_extension, below, NibbleSlice.nibbles_fromEncoded_encodedLeftmost, lookup_leaf,
      lookup_leaf, NibbleSlice.nibbles_fromEncoded_encoded]
    rw [NibbleSlice.len_eq] at within
    set E := (NibbleSlice.fromEncoded ext).1.nibbles
    set P := partialKey.nibbles
    set cp := partialKey.commonPrefix (NibbleSlice.fromEncoded ext).1
    calc PathMap.under (P.take cp) (Function.update
          (PathMap.single (((NibbleSlice.fromEncoded ext).1.mid cp).nibbles) oldValue)
          (partialKey.mid cp).nibbles (some handle))
        = PathMap.under (P.take cp) (Function.update (PathMap.single (E.drop cp) oldValue)
            (P.drop cp) (some handle)) := by
          rw [NibbleSlice.nibbles_mid, NibbleSlice.nibbles_mid]
      _ = Function.update (PathMap.under (P.take cp) (PathMap.single (E.drop cp) oldValue)) P
            (some handle) := by
          rw [PathMap.update_under_of_prefix (List.take_prefix cp P), List.length_take,
            Nat.min_eq_left within]
      _ = Function.update (PathMap.single E oldValue) P (some handle) := by
          rw [PathMap.under_single, shared, List.take_append_drop]
  | case8 partialKey ext child m existingKey commonPrefix noCommon ih =>
    simp only [commonPrefix, existingKey] at noCommon
    rw [insert, if_pos noCommon, ih (nonemptyExtensions_extensionToBranch wellFormed),
      lookup_extensionToBranch wellFormed.1 child m m]
  | case9 partialKey ext child m existingKey commonPrefix nonzero whole ih =>
    simp only [commonPrefix, existingKey] at nonzero whole ih
    have front := (NibbleSlice.commonPrefix_eq_len_right_iff _ _).mp whole
    rw [insert, if_neg nonzero, if_pos whole, lookup_extension, lookup_extension, ih wellFormed.2,
      PathMap.update_under_of_prefix front, NibbleSlice.nibbles_mid, whole, NibbleSlice.len_eq]
  | case10 partialKey ext child m existingKey commonPrefix nonzero notWhole innerExt ih =>
    -- the extension splits into one over the shared front and one over the rest of its key
    simp only [innerExt, commonPrefix, existingKey] at nonzero notWhole ih
    have shared : partialKey.nibbles.take (partialKey.commonPrefix (NibbleSlice.fromEncoded ext).1) =
        (NibbleSlice.fromEncoded ext).1.nibbles.take
          (partialKey.commonPrefix (NibbleSlice.fromEncoded ext).1) := by
      rw [NibbleSlice.commonPrefix_eq]
      exact List.take_commonPrefixLength _ _
    have within : partialKey.commonPrefix (NibbleSlice.fromEncoded ext).1 ≤
        (NibbleSlice.fromEncoded ext).1.nibbles.length := by
      rw [NibbleSlice.commonPrefix_eq]
      exact List.commonPrefixLength_le_right _ _
    have below := ih ⟨by
      simp only [NibbleSlice.len_eq, NibbleSlice.nibbles_fromEncoded_encoded,
        NibbleSlice.nibbles_mid, List.length_drop] at notWhole ⊢
      omega, wellFormed.2⟩
    rw [insert, if_neg nonzero, if_neg notWhole]
    dsimp only
    rw [lookup_extension, below, NibbleSlice.nibbles_fromEncoded_encodedLeftmost, lookup_extension,
      lookup_extension, NibbleSlice.nibbles_fromEncoded_encoded]
    set E := (NibbleSlice.fromEncoded ext).1.nibbles
    set P := partialKey.nibbles
    set cp := partialKey.commonPrefix (NibbleSlice.fromEncoded ext).1
    calc PathMap.under (E.take cp) (Function.update
          (PathMap.under (((NibbleSlice.fromEncoded ext).1.mid cp).nibbles) child.lookup)
          (partialKey.mid cp).nibbles (some handle))
        = PathMap.under (E.take cp) (Function.update (PathMap.under (E.drop cp) child.lookup)
            (P.drop cp) (some handle)) := by
          rw [NibbleSlice.nibbles_mid, NibbleSlice.nibbles_mid]
      _ = Function.update (PathMap.under (E.take cp) (PathMap.under (E.drop cp) child.lookup)) P
            (some handle) := by
          have front : E.take cp <+: P := by
            rw [← shared]
            exact List.take_prefix cp P
          rw [PathMap.update_under_of_prefix front, List.length_take, Nat.min_eq_left within]
      _ = Function.update (PathMap.under E child.lookup) P (some handle) := by
          rw [← PathMap.under_append, List.take_append_drop]

end NodeTree

end Nearcore
