import Nearcore.Mem.Lookup
import Nearcore.Trie.Changes

/-! `MemTrieUpdate` (`core/store/src/trie/mem/memtrie_update.rs`): the memtrie's side of the
generic update code. It reads existing nodes through their arena views, stores a value
written for the disk as `FlatStateValue::on_disk`, and, when tracking, counts the hashes of
the nodes and values it dereferences and the values it inserts. As a backend it reads the
arena's trie, always stores and always deletes: the generic refinement theorems apply. -/
namespace Nearcore

/-- `*map.entry(key).or_default() += 1` on a map kept as an association list. -/
def bumpCount {K : Type} [DecidableEq K] (key : K) : List (K × Nat) → List (K × Nat)
  | [] => [(key, 1)]
  | (k, n) :: rest => if k = key then (k, n + 1) :: rest else (k, n) :: bumpCount key rest

/-- `TrieChangesTracker`. The recorder keeps, in order, what `record` hands it: the hash of a
node and the node it hashes (its borsh serialization, in the source). -/
structure TrieChangesTracker where
  refcountDeletedHashes : List (CryptoHash × Nat)
  refcountInsertedValues : List (List UInt8 × Nat)
  recorder : Option (List (CryptoHash × RawTrieNodeWithSize))
  deriving DecidableEq, Repr

/-- `TrackingMode`; the recorder of `RefcountsAndAccesses` is modelled as the log of this
update's records. -/
inductive TrackingMode where
  | none
  | refcounts
  | refcountsAndAccesses
  deriving DecidableEq, Repr

namespace TrackingMode

/-- The tracker `MemTrieUpdate::new` sets up for a mode. -/
def tracker : TrackingMode → Option TrieChangesTracker
  | none => Option.none
  | refcounts => some ⟨[], [], Option.none⟩
  | refcountsAndAccesses => some ⟨[], [], some []⟩

section
attribute [local simp] tracker
end

end TrackingMode

namespace TrieChangesTracker

variable (hashing : Hashing) (arena : Arena)

/-- `TrieChangesTracker::record`: an existing node is dereferenced. -/
def record (view : MemTrieNodeView) (tracker : TrieChangesTracker) : TrieChangesTracker :=
  let nodeHash := view.nodeHash hashing
  { tracker with
    refcountDeletedHashes := bumpCount nodeHash tracker.refcountDeletedHashes
    recorder := tracker.recorder.map fun log => log ++ [(nodeHash, arena.rawNode hashing view)] }

section
attribute [local simp] record
end

/-- The tracker's half of `store_value`. -/
def insertValue (fullValue : List UInt8) (tracker : TrieChangesTracker) : TrieChangesTracker :=
  { tracker with refcountInsertedValues := bumpCount fullValue tracker.refcountInsertedValues }

/-- The tracker's half of `delete_value`. -/
def deleteHash (hash : CryptoHash) (tracker : TrieChangesTracker) : TrieChangesTracker :=
  { tracker with refcountDeletedHashes := bumpCount hash tracker.refcountDeletedHashes }

end TrieChangesTracker

variable (hashing : Hashing) (arena : Arena)

/-- The three operations of `GenericTrieUpdate` that `MemTrieUpdate` implements on its own. The
old half of `ensure_updated` is `convert_existing_to_updated(Some(node))`; an id the arena
does not hold is a panic of the view. -/
def memTrieBackend : Backend (Option TrieChangesTracker) Nat FlatStateValue where
  readOld node tracker :=
    match arena.view node with
    | some view => .ok (view.toNodeWithSize, tracker.map (TrieChangesTracker.record hashing arena view))
    | none => .error .panic
  storeValue value tracker :=
    match value with
    | .memtrieOnly flatValue => .ok (flatValue, tracker)
    | .memtrieAndDisk fullValue =>
      .ok (FlatStateValue.onDisk hashing fullValue,
        tracker.map (TrieChangesTracker.insertValue fullValue))
  deleteValue value tracker :=
    .ok (tracker.map (TrieChangesTracker.deleteHash (value.toValueRef hashing).hash))

section
attribute [local simp] memTrieBackend
end

/-- `convert_existing_to_updated`: a new updated node, a copy of the existing node or, for no
node, the empty root. -/
def convertExistingToUpdated :
    Option Nat → UpdateM (Option TrieChangesTracker) Nat FlatStateValue Nat
  | none => placeNode .empty
  | some node => ensureUpdated (memTrieBackend hashing arena) (.old node)

/-- `MemTrieUpdate::new`: the root is converted into an empty vector of updated nodes, where
the assertion finds it at node 0. -/
def MemTrieUpdate.new (root : Option Nat) (mode : TrackingMode) :
    Except UpdateError (UpdateState (Option TrieChangesTracker) Nat FlatStateValue) :=
  match convertExistingToUpdated hashing arena root ⟨[], mode.tracker⟩ with
  | .ok (0, st) => .ok st
  | .ok _ => .error .panic
  | .error error => .error error

section
attribute [local simp] MemTrieUpdate.new
end

theorem memTrieBackend_reads : (memTrieBackend hashing arena).Reads arena.old where
  sound node tracker stored tracker' read := by
    simp only [memTrieBackend] at read
    split at read
    · next view viewed =>
      cases read
      simp [Arena.old, viewed]
    · cases read
  complete node tracker stored read := by
    obtain ⟨view, viewed, converted⟩ := Arena.view_of_old read
    refine ⟨tracker.map (TrieChangesTracker.record hashing arena view), ?_⟩
    simp [memTrieBackend, viewed, converted]

/-- A value written for the disk is stored as `FlatStateValue::on_disk`. -/
theorem memTrieBackend_stores (fullValue : List UInt8) :
    (memTrieBackend hashing arena).Stores (.memtrieAndDisk fullValue)
      (FlatStateValue.onDisk hashing fullValue) :=
  fun _ => ⟨_, rfl⟩

theorem memTrieBackend_deletes : (memTrieBackend hashing arena).Deletes :=
  fun _ _ => ⟨_, rfl⟩

/-- A new update holds at node 0 the tree its root stands for, the empty root standing for
the empty trie. -/
theorem MemTrieUpdate.new_rootHolds {root : Option Nat} {t : NodeTree FlatStateValue}
    (existing : OldRep arena.old root t) (wellFormed : t.NonemptyExtensions) (mode : TrackingMode) :
    ∃ st, MemTrieUpdate.new hashing arena root mode = .ok st ∧ RootHolds st.nodes arena.old t.orEmpty := by
  cases root with
  | none =>
    rw [existing.eq_none]
    refine ⟨⟨[some .empty], mode.tracker⟩, rfl, ⟨⟨[0], .empty rfl⟩, trivial, .inl ⟨0, rfl⟩⟩⟩
  | some node =>
    obtain ⟨stored, read⟩ := existing.isSome
    obtain ⟨tracker, fetched⟩ := (memTrieBackend_reads hashing arena).complete node mode.tracker stored read
    have converted : convertExistingToUpdated hashing arena (some node) ⟨[], mode.tracker⟩ =
        .ok (0, ⟨[some stored.toUpdated], tracker⟩) :=
      ensureUpdated_old _ _ fetched
    rw [existing.orEmpty_eq]
    refine ⟨⟨[some stored.toUpdated], tracker⟩, by simp only [MemTrieUpdate.new, converted],
      ⟨⟨[0], Rep.ofOld existing read rfl⟩, wellFormed, .inr existing.emptyFree⟩⟩

end Nearcore
