import Nearcore.Mem.ConstructRun

/-! One block of the shard's own memtrie, end to end: `Trie::update_with_memtrie` runs the
changes through a `MemTrieUpdate` from the state root, the update is converted to memtrie
changes, and `MemTries::apply_memtrie_changes` constructs them into the arena. Over every
trie reached that way from the empty arena, the new root's lookups are the old ones updated
by the changes in order. -/
namespace Nearcore

variable (hashing : Hashing)

/-- The memtrie's half of `Trie::update_with_memtrie` followed by the construction of
`MemTries::apply_memtrie_changes`. The memtrie changes are the same whether they come out of
`to_trie_changes` or `to_memtrie_changes_only`; taking a reference on the new root is left to
`insert_root`. -/
def updateMemtrie (arena : Arena) (root : Option Nat) (mode : TrackingMode)
    (changes : List (List UInt8 × Option (List UInt8))) : Except UpdateError (Option Nat × Arena) := do
  let start ← MemTrieUpdate.new hashing arena root mode
  let ((), updated) ← applyChanges (memTrieBackend hashing arena) changes start
  let memtrieChanges ← toMemtrieChangesOnly hashing arena updated.nodes
  constructRootFromChanges hashing arena memtrieChanges

section
attribute [local simp] updateMemtrie
end

/-- `Trie::lookup_from_memory`, the root given by its arena id: the empty root has no keys. -/
def lookupFromMemory (arena : Arena) (root : Option Nat) (key : List UInt8) : Option (Option FlatStateValue) :=
  match root with
  | none => some none
  | some root => memtrieLookup arena root key

/-- The map a root stands for: what its lookups return. -/
def memtrieMap (arena : Arena) (root : Option Nat) (key : List UInt8) : Option FlatStateValue :=
  (lookupFromMemory arena root key).join

section
attribute [local simp] memtrieMap
end

/-- The tries reached from the empty arena by blocks of updates. A block may start from any
root reached so far, the roots before it staying in the arena. -/
inductive Reachable : Arena → Option Nat → Prop
  | empty : Reachable ⟨[], [], 0⟩ none
  | emptyRoot {arena : Arena} {root : Option Nat} : Reachable arena root → Reachable arena none
  | update {arena arena' : Arena} {root root' : Option Nat} {mode : TrackingMode}
      {changes : List (List UInt8 × Option (List UInt8))} :
      Reachable arena root → updateMemtrie hashing arena root mode changes = .ok (root', arena') →
      Reachable arena' root'
  | keep {arena arena' : Arena} {root other root' : Option Nat} {mode : TrackingMode}
      {changes : List (List UInt8 × Option (List UInt8))} :
      Reachable arena root → Reachable arena other →
      updateMemtrie hashing arena other mode changes = .ok (root', arena') → Reachable arena' root

/-- From a root standing for a trie, the lookup answers the trie's map. -/
theorem lookupFromMemory_eq {arena : Arena} {root : Option Nat} {t : NodeTree FlatStateValue}
    (existing : OldRep arena.old root t) (wellFormed : t.NonemptyExtensions) (key : List UInt8) :
    lookupFromMemory arena root key = some (t.toMap key) := by
  cases root with
  | none =>
    rw [existing.eq_none]
    rfl
  | some root => exact memtrieLookup_eq existing wellFormed key

/-- One block, by the refinement theorems of each stage: the new root stands for a trie whose
map is the old one updated by the changes, in a valid arena that keeps every node. -/
theorem updateMemtrie_spec {arena : Arena} (valid : arena.Valid) {root : Option Nat}
    {t : NodeTree FlatStateValue} (existing : OldRep arena.old root t) (wellFormed : t.NonemptyExtensions)
    (mode : TrackingMode) (changes : List (List UInt8 × Option (List UInt8))) :
    ∃ root' arena' t', updateMemtrie hashing arena root mode changes = .ok (root', arena') ∧
      arena'.Valid ∧ arena.Extends arena' ∧ OldRep arena'.old root' t' ∧ t'.NonemptyExtensions ∧
      t'.toMap = applyToMap (FlatStateValue.onDisk hashing) t.toMap changes := by
  obtain ⟨start, started, holds⟩ := MemTrieUpdate.new_rootHolds hashing arena existing wellFormed mode
  obtain ⟨nodes, inner, t₁, applied, holds₁, mapped⟩ :=
    applyChanges_run (memTrieBackend hashing arena) (memTrieBackend_reads hashing arena)
      (memTrieBackend_deletes hashing arena) (FlatStateValue.onDisk hashing)
      (memTrieBackend_stores hashing arena) changes start.backend holds
  obtain ⟨memtrieChanges, root', arena', t', converted, constructed, valid', larger, existing', same,
    wellFormed'⟩ := construct_rootHolds hashing valid holds₁
  refine ⟨root', arena', t', ?_, valid', larger, existing', wellFormed', ?_⟩
  · simp [updateMemtrie, started, applied, converted, constructed]
  · -- the new root's map is that of the tree node 0 came to stand for
    have sameMap : t'.toMap = t₁.toMap := by
      funext key
      simp [NodeTree.toMap, same]
    rw [sameMap, mapped]
    congr 1
    funext key
    simp [NodeTree.toMap, NodeTree.lookup_orEmpty]

/-- Every reachable trie is a trie of a valid arena with nonempty extension keys: the
invariant the next block needs. -/
theorem Reachable.holds {arena : Arena} {root : Option Nat} (reachable : Reachable hashing arena root) :
    arena.Valid ∧ ∃ t, OldRep arena.old root t ∧ t.NonemptyExtensions := by
  induction reachable with
  | empty => exact ⟨⟨by simp, List.nodup_nil⟩, .none, .none, trivial⟩
  | emptyRoot _ ih => exact ⟨ih.1, .none, .none, trivial⟩
  | update _ updated ih =>
    obtain ⟨valid, t, existing, wellFormed⟩ := ih
    obtain ⟨root', arena', t', run, valid', -, existing', wellFormed', -⟩ :=
      updateMemtrie_spec hashing valid existing wellFormed _ _
    rw [updated] at run
    cases run
    exact ⟨valid', t', existing', wellFormed'⟩
  | keep _ _ updated ih ihOther =>
    obtain ⟨valid, t, existing, wellFormed⟩ := ih
    obtain ⟨-, other, existingOther, wellFormedOther⟩ := ihOther
    obtain ⟨root', arena', t', run, valid', larger, -⟩ :=
      updateMemtrie_spec hashing valid existingOther wellFormedOther _ _
    rw [updated] at run
    cases run
    exact ⟨valid', t, existing.mono fun _ _ read => larger.old read, wellFormed⟩

/-- Over every reachable trie and every sequence of changes, the block succeeds, and the new
root's lookups are the old root's map updated by the changes in order: a written value is
found as `FlatStateValue::on_disk` of its bytes, a deleted key is absent, the last change of a
key wins. The old root's lookups never fail, so its map is what they return. -/
theorem updateMemtrie_lookup {arena : Arena} {root : Option Nat} (reachable : Reachable hashing arena root)
    (mode : TrackingMode) (changes : List (List UInt8 × Option (List UInt8))) :
    (∀ key, lookupFromMemory arena root key = some (memtrieMap arena root key)) ∧
    ∃ root' arena', updateMemtrie hashing arena root mode changes = .ok (root', arena') ∧
      ∀ key, lookupFromMemory arena' root' key =
        some (applyToMap (FlatStateValue.onDisk hashing) (memtrieMap arena root) changes key) := by
  obtain ⟨valid, t, existing, wellFormed⟩ := reachable.holds
  have before : ∀ key, lookupFromMemory arena root key = some (t.toMap key) :=
    lookupFromMemory_eq existing wellFormed
  have map : memtrieMap arena root = t.toMap := by
    funext key
    simp [memtrieMap, before]
  obtain ⟨root', arena', t', run, -, -, existing', wellFormed', mapped⟩ :=
    updateMemtrie_spec hashing valid existing wellFormed mode changes
  refine ⟨fun key => by rw [before, map], root', arena', run, fun key => ?_⟩
  rw [lookupFromMemory_eq existing' wellFormed', mapped, map]

theorem updateMemtrie_lookup_fromEmpty :
    (∀ key, lookupFromMemory ⟨[], [], 0⟩ none key = some (memtrieMap ⟨[], [], 0⟩ none key)) ∧
    ∃ root' arena', updateMemtrie ⟨fun _ => default, fun _ => default⟩ ⟨[], [], 0⟩ none .refcounts
        [([1], some [2]), ([1, 2], some [3])] = .ok (root', arena') ∧
      ∀ key, lookupFromMemory arena' root' key =
        some (applyToMap (FlatStateValue.onDisk ⟨fun _ => default, fun _ => default⟩)
          (memtrieMap ⟨[], [], 0⟩ none) [([1], some [2]), ([1, 2], some [3])] key) :=
  updateMemtrie_lookup ⟨fun _ => default, fun _ => default⟩ .empty .refcounts
    [([1], some [2]), ([1, 2], some [3])]

end Nearcore
