import Nearcore.Mem.Arena
import Nearcore.Trie.Lookup

/-! `memtrie_lookup` (`core/store/src/trie/mem/lookup.rs`): the walk from a root down the
key's nibbles. From a node that stands for a tree it answers the tree's `lookup`: the loop
over arena nodes refines the map the tree stands for. -/
namespace Nearcore

/-- The loop of `memtrie_lookup`, over at most `fuel` nodes; `none` is no answer (out of fuel,
or an id the arena does not hold), `some result` is what the source returns. The source's
loop has no bound: `memtrieLookup_eq` shows the key's length bounds it. -/
def memtrieLookupLoop (arena : Arena) : Nat → Nat → NibbleSlice → Option (Option FlatStateValue)
  | 0, _, _ => none
  | fuel + 1, node, nibbles =>
    match arena.view node with
    | none => none
    | some (.leaf extension value) =>
      some (if nibbles == (NibbleSlice.fromEncoded extension).1 then some value else none)
    | some (.extension _ _ extension child) =>
      let extensionNibbles := (NibbleSlice.fromEncoded extension).1
      if nibbles.startsWith extensionNibbles then
        memtrieLookupLoop arena fuel child (nibbles.mid extensionNibbles.len)
      else some none
    | some (.branch _ _ children) =>
      if nibbles.isEmpty then some none
      else
        match children.get (nibbles.atIndex 0) with
        | some child => memtrieLookupLoop arena fuel child (nibbles.mid 1)
        | none => some none
    | some (.branchWithValue _ _ children value) =>
      if nibbles.isEmpty then some (some value)
      else
        match children.get (nibbles.atIndex 0) with
        | some child => memtrieLookupLoop arena fuel child (nibbles.mid 1)
        | none => some none

section
attribute [local simp] memtrieLookupLoop
end

/-- `memtrie_lookup` from `root`, with one node more than the key has nibbles. -/
def memtrieLookup (arena : Arena) (root : Nat) (key : List UInt8) : Option (Option FlatStateValue) :=
  memtrieLookupLoop arena ((NibbleSlice.new key).len + 1) root (NibbleSlice.new key)

section
attribute [local simp] memtrieLookup
end

theorem OldRep.eq_none {V : Type} {old : Nat → Option (GenericTrieNodeWithSize Nat V)}
    {t : NodeTree V} (rep : OldRep old Option.none t) : t = .none := by
  cases rep
  rfl

/-- The walk from a node standing for `t` answers `t.lookup`, within one node more than the
key has nibbles: by induction on `t`, each extension consuming at least one nibble. -/
theorem memtrieLookupLoop_eq {arena : Arena} (t : NodeTree FlatStateValue)
    (wellFormed : t.NonemptyExtensions) :
    ∀ {root fuel : Nat} {nibbles : NibbleSlice}, OldRep arena.old (some root) t →
      nibbles.len < fuel → memtrieLookupLoop arena fuel root nibbles = some (t.lookup nibbles.nibbles) := by
  induction t with
  | none => intro root fuel nibbles rep; cases rep
  | empty => intro root fuel nibbles rep; cases rep
  | leaf ext value m =>
    intro root fuel nibbles rep enough
    cases rep with
    | leaf read =>
      obtain ⟨view, stored, converted⟩ := Arena.view_of_old read
      cases view <;> simp [MemTrieNodeView.toNodeWithSize] at converted
      obtain ⟨⟨sameExt, sameValue⟩, -⟩ := converted
      rw [sameExt, sameValue] at stored
      obtain ⟨fuel, rfl⟩ : ∃ rest, fuel = rest + 1 := ⟨fuel - 1, by omega⟩
      by_cases same : nibbles.nibbles = (NibbleSlice.fromEncoded ext).1.nibbles
      · simp [memtrieLookupLoop, stored, (NibbleSlice.beq_iff _ _).mpr same, same,
          NodeTree.lookup_leaf, PathMap.single_apply]
      · have other : (nibbles == (NibbleSlice.fromEncoded ext).1) = false :=
          Bool.eq_false_iff.mpr fun equal => same ((NibbleSlice.beq_iff _ _).mp equal)
        simp [memtrieLookupLoop, stored, other, same, NodeTree.lookup_leaf, PathMap.single_apply]
  | extension ext child m ih =>
    intro root fuel nibbles rep enough
    cases rep with
    | extension read below =>
      obtain ⟨view, stored, converted⟩ := Arena.view_of_old read
      cases view <;> simp [MemTrieNodeView.toNodeWithSize] at converted
      obtain ⟨⟨sameExt, sameChild⟩, -⟩ := converted
      rw [sameExt, sameChild] at stored
      obtain ⟨fuel, rfl⟩ : ∃ rest, fuel = rest + 1 := ⟨fuel - 1, by omega⟩
      by_cases front : (NibbleSlice.fromEncoded ext).1.nibbles <+: nibbles.nibbles
      · -- the extension's path is on the key: one step down, at least one nibble consumed
        have starts : nibbles.startsWith (NibbleSlice.fromEncoded ext).1 = true :=
          (NibbleSlice.startsWith_iff _ _).mpr front
        have consumed : (nibbles.mid (NibbleSlice.fromEncoded ext).1.len).len < fuel := by
          have nonempty := wellFormed.1
          have shorter := front.length_le
          simp only [NibbleSlice.len_eq, NibbleSlice.nibbles_mid, List.length_drop] at nonempty enough ⊢
          omega
        simp only [memtrieLookupLoop, stored, starts, if_true]
        rw [ih wellFormed.2 below consumed, NodeTree.lookup_extension, PathMap.under, if_pos front,
          NibbleSlice.nibbles_mid, NibbleSlice.len_eq]
      · have starts : nibbles.startsWith (NibbleSlice.fromEncoded ext).1 = false :=
          Bool.eq_false_iff.mpr fun starts => front ((NibbleSlice.startsWith_iff _ _).mp starts)
        simp [memtrieLookupLoop, stored, starts, NodeTree.lookup_extension,
          PathMap.under_apply_eq_none _ front]
  | branch ts value m ih =>
    intro root fuel nibbles rep enough
    cases rep with
    | @branch _ children _ _ _ read below =>
      obtain ⟨view, stored, converted⟩ := Arena.view_of_old read
      obtain ⟨fuel, rfl⟩ : ∃ rest, fuel = rest + 1 := ⟨fuel - 1, by omega⟩
      -- a branch's value is the branch kind the arena stores it as
      have step : memtrieLookupLoop arena (fuel + 1) root nibbles =
          if nibbles.isEmpty then some value
          else match children.get (nibbles.atIndex 0) with
            | some child => memtrieLookupLoop arena fuel child (nibbles.mid 1)
            | Option.none => some Option.none := by
        cases view <;> simp [MemTrieNodeView.toNodeWithSize] at converted
        · obtain ⟨⟨rfl, rfl⟩, -⟩ := converted
          simp [memtrieLookupLoop, stored]
        · obtain ⟨⟨rfl, rfl⟩, -⟩ := converted
          simp [memtrieLookupLoop, stored]
      rw [step, NodeTree.lookup_branch]
      by_cases atKey : nibbles.isEmpty = true
      · rw [if_pos atKey, (NibbleSlice.isEmpty_iff _).mp atKey, PathMap.node_nil]
      · have descends : nibbles.isEmpty = false := by simpa using atKey
        rw [if_neg atKey, NibbleSlice.nibbles_eq_cons nibbles descends, PathMap.node_cons]
        have consumed : (nibbles.mid 1).len < fuel := by
          have nonempty : nibbles.len ≠ 0 := by simpa [NibbleSlice.isEmpty] using atKey
          simp only [NibbleSlice.len_eq, NibbleSlice.nibbles_mid, List.length_drop] at nonempty enough ⊢
          omega
        have child : OldRep _ (children.get (nibbles.atIndex 0)) _ := below (nibbles.atIndex 0)
        rcases slot : children.get (nibbles.atIndex 0) with _ | next
        · rw [slot] at child
          rw [child.eq_none]
          rfl
        · rw [slot] at child
          exact ih _ (wellFormed _) child consumed

/-- `memtrie_lookup` from a root standing for `t` answers `t.lookup` at the key's nibbles. -/
theorem memtrieLookup_eq {arena : Arena} {root : Nat} {t : NodeTree FlatStateValue}
    (rep : OldRep arena.old (some root) t) (wellFormed : t.NonemptyExtensions) (key : List UInt8) :
    memtrieLookup arena root key = some (t.lookup (bytesToNibbles key)) := by
  rw [memtrieLookup, memtrieLookupLoop_eq t wellFormed rep (Nat.lt_succ_self _),
    NibbleSlice.nibbles_new]

end Nearcore
