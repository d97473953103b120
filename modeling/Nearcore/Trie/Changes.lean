import Nearcore.Trie.Shape

/-! Applying a batch of changes: the loop of `Trie::update_with_memtrie` (for the shard's own
trie) and of `Trie::update_with_trie_storage` (`core/store/src/trie/mod.rs`), which insert
each `(key, Some(value))` and delete each `(key, None)` from the root, node 0. Over a backend
that reads the existing trie and stores every value, the loop refines the key-value map:
the root comes to stand for the map updated by the changes in order, last write winning. -/
namespace Nearcore

variable {σ N V : Type} [HasValueLength V] (backend : Backend σ N V)

/-- The loop over the changes. -/
def applyChanges : List (List UInt8 × Option (List UInt8)) → UpdateM σ N V Unit
  | [] => pure ()
  | (key, some value) :: rest => do
    genericInsert backend 0 key (.memtrieAndDisk value)
    applyChanges rest
  | (key, none) :: rest => do
    genericDelete backend 0 key
    applyChanges rest

section
attribute [local simp] applyChanges
end

/-- The map from byte keys to values that a root tree stands for. -/
def NodeTree.toMap (t : NodeTree V) (key : List UInt8) : Option V := t.lookup (bytesToNibbles key)

section
attribute [local simp] NodeTree.toMap
end

/-- The map after the changes, in order: a write sets the key to the value's handle, a
deletion removes it. -/
def applyToMap (handleOf : List UInt8 → V) (m : List UInt8 → Option V) :
    List (List UInt8 × Option (List UInt8)) → List UInt8 → Option V
  | [] => m
  | (key, value) :: rest => applyToMap handleOf (Function.update m key (value.map handleOf)) rest

theorem bytesToNibbles_injective : Function.Injective bytesToNibbles := by
  intro a b same
  rw [← packNibbles_bytesToNibbles a, same, packNibbles_bytesToNibbles]

omit [HasValueLength V] in
/-- A map update at a nibble path is an update at the byte key it encodes. -/
theorem toMap_of_lookup {t t' : NodeTree V} {key : List UInt8} {x : Option V}
    (updated : t'.lookup = Function.update t.lookup (bytesToNibbles key) x) :
    t'.toMap = Function.update t.toMap key x := by
  funext k
  by_cases same : k = key
  · subst same
    simp [NodeTree.toMap, updated]
  · have other : bytesToNibbles k ≠ bytesToNibbles key := fun eq => same (bytesToNibbles_injective eq)
    simp [NodeTree.toMap, updated, Function.update_of_ne other, Function.update_of_ne same]

namespace NodeTree

theorem rootShape_insert (handle : V) {t : NodeTree V} (shape : t.RootShape)
    (partialKey : NibbleSlice) : (t.insert handle partialKey).RootShape := by
  refine .inr (emptyFree_insert handle t partialKey ?_)
  rcases shape with ⟨m, rfl⟩ | free
  · trivial
  · exact emptyFree_dropEmpty (.inl free)

theorem rootShape_delete {t : NodeTree V} (shape : t.RootShape) (partialKey : NibbleSlice) :
    (t.delete partialKey).1.RootShape := by
  rcases shape with ⟨m, rfl⟩ | free
  · exact .inl ⟨0, rfl⟩
  · rcases emptyFree_delete t free partialKey with done | ⟨emptied, -⟩
    · exact .inr done
    · exact .inl ⟨0, emptied⟩

end NodeTree

variable {old : N → Option (GenericTrieNodeWithSize N V)}

/-- The invariant the loop keeps at the root: node 0 stands for a tree of root shape whose
extensions have nonempty keys. -/
structure RootHolds (nodes : UpdatedNodes N V) (old : N → Option (GenericTrieNodeWithSize N V))
    (t : NodeTree V) : Prop where
  rep : ∃ ids, Rep nodes old (some (.updated 0)) t ids
  nonemptyExtensions : t.NonemptyExtensions
  shape : t.RootShape

/-- One insertion keeps the invariant and sets the key. -/
theorem RootHolds.insert (reads : backend.Reads old) (deletes : backend.Deletes)
    {value : List UInt8} {handle : V} (stores : backend.Stores (.memtrieAndDisk value) handle)
    {nodes : UpdatedNodes N V} {t : NodeTree V} (holds : RootHolds nodes old t)
    (key : List UInt8) (inner : σ) :
    ∃ nodes' inner', genericInsert backend 0 key (.memtrieAndDisk value) ⟨nodes, inner⟩ =
        .ok ((), ⟨nodes', inner'⟩) ∧
      RootHolds nodes' old (t.insert handle (NibbleSlice.new key)) ∧
      (t.insert handle (NibbleSlice.new key)).toMap = Function.update t.toMap key (some handle) := by
  obtain ⟨ids, rep⟩ := holds.rep
  obtain ⟨nodes', inner', ids', run, rep'⟩ := genericInsert_rep reads deletes stores rep key inner
  refine ⟨nodes', inner', run, ⟨⟨ids', rep'⟩, ?_, ?_⟩, ?_⟩
  · exact NodeTree.nonemptyExtensions_insert handle t _ holds.nonemptyExtensions
  · exact NodeTree.rootShape_insert handle holds.shape _
  · refine toMap_of_lookup ?_
    rw [NodeTree.lookup_insert handle t _ holds.nonemptyExtensions, NibbleSlice.nibbles_new]

/-- One deletion keeps the invariant and removes the key. -/
theorem RootHolds.delete (reads : backend.Reads old) (deletes : backend.Deletes)
    {nodes : UpdatedNodes N V} {t : NodeTree V} (holds : RootHolds nodes old t)
    (key : List UInt8) (inner : σ) :
    ∃ nodes' inner', genericDelete backend 0 key ⟨nodes, inner⟩ = .ok ((), ⟨nodes', inner'⟩) ∧
      RootHolds nodes' old (t.delete (NibbleSlice.new key)).1 ∧
      (t.delete (NibbleSlice.new key)).1.toMap = Function.update t.toMap key Option.none := by
  obtain ⟨ids, rep⟩ := holds.rep
  obtain ⟨nodes', inner', ids', run, rep'⟩ :=
    genericDelete_rep reads deletes rep holds.nonemptyExtensions key inner
  refine ⟨nodes', inner', run, ⟨⟨ids', rep'⟩, ?_, ?_⟩, ?_⟩
  · exact NodeTree.nonemptyExtensions_delete t holds.nonemptyExtensions _
  · exact NodeTree.rootShape_delete holds.shape _
  · refine toMap_of_lookup ?_
    rw [NodeTree.lookup_delete t holds.nonemptyExtensions, NibbleSlice.nibbles_new]

/-- The loop, by induction on the changes: the root comes to stand for the map updated by
the changes in order. -/
theorem applyChanges_run (reads : backend.Reads old) (deletes : backend.Deletes)
    (handleOf : List UInt8 → V) (stores : ∀ value, backend.Stores (.memtrieAndDisk value) (handleOf value)) :
    ∀ (changes : List (List UInt8 × Option (List UInt8))) {nodes : UpdatedNodes N V} {t : NodeTree V}
      (inner : σ), RootHolds nodes old t →
      ∃ nodes' inner' t', applyChanges backend changes ⟨nodes, inner⟩ = .ok ((), ⟨nodes', inner'⟩) ∧
        RootHolds nodes' old t' ∧ t'.toMap = applyToMap handleOf t.toMap changes
  | [], nodes, t, inner, holds => ⟨nodes, inner, t, rfl, holds, rfl⟩
  | (key, some value) :: rest, nodes, t, inner, holds => by
    obtain ⟨nodes₁, inner₁, step, holds₁, updated⟩ :=
      holds.insert backend reads deletes (stores value) key inner
    obtain ⟨nodes', inner', t', run, holds', result⟩ :=
      applyChanges_run reads deletes handleOf stores rest inner₁ holds₁
    refine ⟨nodes', inner', t', ?_, holds', ?_⟩
    · rw [applyChanges, StateT.bind_apply_of_ok step]
      exact run
    · rw [result, updated]
      rfl
  | (key, none) :: rest, nodes, t, inner, holds => by
    obtain ⟨nodes₁, inner₁, step, holds₁, updated⟩ := holds.delete backend reads deletes key inner
    obtain ⟨nodes', inner', t', run, holds', result⟩ :=
      applyChanges_run reads deletes handleOf stores rest inner₁ holds₁
    refine ⟨nodes', inner', t', ?_, holds', ?_⟩
    · rw [applyChanges, StateT.bind_apply_of_ok step]
      exact run
    · rw [result, updated]
      rfl

end Nearcore
