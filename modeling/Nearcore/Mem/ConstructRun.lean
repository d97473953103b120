import Nearcore.Mem.Construct

/-! The construction refines the updated nodes. When node 0 stands for a root tree, the
post-order traversal lists exactly the updated ids below it, children first; hashing them in
that order never fails; and `construct_root_from_changes` allocates, in a valid arena, one node
per listed id, so that its last node stands for the same tree up to memory usage (the arena
recomputes each header from the children's views). Nothing the arena held before moves. -/
namespace Nearcore

namespace NodeTree

variable {V : Type}

/-- The tree with every memory usage set to zero: its shape and its map. -/
def eraseMemory : NodeTree V → NodeTree V
  | none => none
  | empty _ => empty 0
  | leaf ext value _ => leaf ext value 0
  | extension ext child _ => extension ext child.eraseMemory 0
  | branch ts value _ => branch (fun j => (ts j).eraseMemory) value 0

section
attribute [local simp] eraseMemory
end

@[simp] theorem lookup_eraseMemory (t : NodeTree V) : t.eraseMemory.lookup = t.lookup := by
  induction t with
  | none => rfl
  | empty => rfl
  | leaf => rfl
  | extension ext child m ih => simp [eraseMemory, ih]
  | branch ts value m ih => simp [eraseMemory, ih]

@[simp] theorem nonemptyExtensions_eraseMemory (t : NodeTree V) :
    t.eraseMemory.NonemptyExtensions ↔ t.NonemptyExtensions := by
  induction t with
  | none => rfl
  | empty => rfl
  | leaf => rfl
  | extension ext child m ih => simp [eraseMemory, NonemptyExtensions, ih]
  | branch ts value m ih => simp [eraseMemory, NonemptyExtensions, ih]

theorem lookup_eq_of_eraseMemory {t t' : NodeTree V} (same : t'.eraseMemory = t.eraseMemory) :
    t'.lookup = t.lookup := by
  rw [← lookup_eraseMemory t', same, lookup_eraseMemory]

theorem nonemptyExtensions_of_eraseMemory {t t' : NodeTree V} (same : t'.eraseMemory = t.eraseMemory)
    (wellFormed : t.NonemptyExtensions) : t'.NonemptyExtensions := by
  rw [← nonemptyExtensions_eraseMemory, same, nonemptyExtensions_eraseMemory]
  exact wellFormed

end NodeTree

section Traverse

variable (nodes : UpdatedNodes Nat FlatStateValue)

/-- What the traversal visits below a child pointer: an updated child's subtree, nothing
else. -/
def visitPointer (visit : Nat → Except UpdateError (List Nat)) :
    Option (GenericNodeOrIndex Nat) → Except UpdateError (List Nat)
  | some (.updated child) => visit child
  | _ => .ok []

section
attribute [local simp] visitPointer
end

theorem postOrderChildren_cons (visit : Nat → Except UpdateError (List Nat))
    (p : Option (GenericNodeOrIndex Nat)) (rest : List (Option (GenericNodeOrIndex Nat))) :
    postOrderChildren visit (p :: rest) = (do
      let below ← visitPointer visit p
      let others ← postOrderChildren visit rest
      pure (below ++ others)) := by
  rcases p with _ | _ | _ <;> simp [postOrderChildren, visitPointer]

variable {nodes} {i m : Nat}

theorem readUpdated_of_read {node : GenericUpdatedTrieNodeWithSize Nat FlatStateValue}
    (read : nodes[i]? = some (some node)) : readUpdated nodes i = .ok node := by
  simp [readUpdated, read]

theorem postOrderTraverse_leaf {ext : List UInt8} {value : FlatStateValue}
    (read : nodes[i]? = some (some ⟨.leaf ext value, m⟩)) (fuel : Nat) :
    postOrderTraverse nodes (fuel + 1) i = .ok [i] := by
  simp [postOrderTraverse, readUpdated_of_read read]

theorem postOrderTraverse_extension {ext : List UInt8} {child : GenericNodeOrIndex Nat}
    (read : nodes[i]? = some (some ⟨.extension ext child, m⟩)) (fuel : Nat) :
    postOrderTraverse nodes (fuel + 1) i = (do
      let below ← visitPointer (postOrderTraverse nodes fuel) (some child)
      pure (below ++ [i])) := by
  cases child <;> simp [postOrderTraverse, readUpdated_of_read read, visitPointer]

theorem postOrderTraverse_branch {children : Vector (Option (GenericNodeOrIndex Nat)) 16}
    {value : Option FlatStateValue} (read : nodes[i]? = some (some ⟨.branch children value, m⟩))
    (fuel : Nat) :
    postOrderTraverse nodes (fuel + 1) i = (do
      let below ← postOrderChildren (postOrderTraverse nodes fuel) children.toList
      pure (below ++ [i])) := by
  simp [postOrderTraverse, readUpdated_of_read read]

end Traverse

/-! Hashing the listed nodes never fails: each is a non-empty node whose updated children are
in range and whose old children are in the arena. -/

section Hashes

variable (hashing : Hashing) (arena : Arena)

/-- A child the hash loop can read. -/
def PointerReadable (n : Nat) : GenericNodeOrIndex Nat → Prop
  | .updated child => child < n
  | .old child => (arena.view child).isSome

section
attribute [local simp] PointerReadable
end

/-- A node the hash loop can hash. -/
def NodeReadable (n : Nat) : GenericUpdatedTrieNode Nat FlatStateValue → Prop
  | .empty => False
  | .leaf .. => True
  | .extension _ child => PointerReadable arena n child
  | .branch children _ => ∀ child, some child ∈ children.toList → PointerReadable arena n child

section
attribute [local simp] NodeReadable
end

variable {arena}

theorem getHash_ok {hashes : List CryptoHash} {child : GenericNodeOrIndex Nat}
    (readable : PointerReadable arena hashes.length child) :
    ∃ hash, getHash hashing arena hashes child = .ok hash := by
  cases child with
  | updated child => exact ⟨hashes[child], by simp [getHash, getElem?_pos hashes child readable]⟩
  | old child =>
    obtain ⟨view, viewed⟩ := Option.isSome_iff_exists.mp readable
    exact ⟨view.nodeHash hashing, by simp [getHash, viewed]⟩

theorem rawUpdatedNode_ok {hashes : List CryptoHash} {node : GenericUpdatedTrieNodeWithSize Nat FlatStateValue}
    (readable : NodeReadable arena hashes.length node.node) :
    ∃ raw, rawUpdatedNode hashing arena hashes node = .ok raw := by
  obtain ⟨node, memoryUsage⟩ := node
  cases node with
  | empty => exact absurd readable id
  | leaf => exact ⟨_, rfl⟩
  | extension ext child =>
    obtain ⟨hash, hashed⟩ := getHash_ok hashing readable
    exact ⟨⟨.extension ext hash, memoryUsage⟩, by simp [rawUpdatedNode, hashed]⟩
  | branch children value =>
    have slots : ∀ slot ∈ children.toList,
        ∃ hashes', Option.mapM (getHash hashing arena hashes) slot = .ok hashes' := by
      intro slot member
      cases slot with
      | none => exact ⟨none, rfl⟩
      | some child =>
        obtain ⟨hash, hashed⟩ := getHash_ok hashing (readable child member)
        exact ⟨some hash, by simp [hashed]⟩
    obtain ⟨childHashes, mapped, -⟩ := Vector.mapM_of_ok slots
    exact ⟨⟨RawTrieNode.branch childHashes (value.map (FlatStateValue.toValueRef hashing)), memoryUsage⟩,
      by simp [rawUpdatedNode, mapped]⟩

/-- The loop hashes every listed node, in order. -/
theorem computeHashes_ok {nodes : UpdatedNodes Nat FlatStateValue} {ordered : List Nat}
    (readable : ∀ i ∈ ordered, ∃ node, nodes[i]? = some (some node) ∧
      NodeReadable arena nodes.length node.node) :
    ∃ computed, computeHashesAndSerializedNodes hashing arena ordered nodes = .ok computed ∧
      computed.map Prod.fst = ordered := by
  -- the hashes keep their length, and the output lists the ids done
  have loop := List.foldlM_of_invariant (hashStep hashing arena nodes)
    (fun i => ∃ node, nodes[i]? = some (some node) ∧ NodeReadable arena nodes.length node.node)
    (fun done (acc : List CryptoHash × List (Nat × CryptoHash × RawTrieNodeWithSize)) =>
      acc.1.length = nodes.length ∧ acc.2.map Prod.fst = done)
    (fun done i acc ⟨node, read, good⟩ ⟨sized, listed⟩ => by
      obtain ⟨raw, hashed⟩ :=
        rawUpdatedNode_ok hashing (by rw [sized]; exact good : NodeReadable arena acc.1.length node.node)
      exact ⟨(acc.1.set i (hashing.node raw), acc.2 ++ [(i, hashing.node raw, raw)]),
        by simp [hashStep, readUpdated_of_read read, hashed], by simp [sized, listed]⟩)
    readable [] (List.replicate nodes.length default, []) (by simp)
  obtain ⟨⟨hashes, computed⟩, run, -, listed⟩ := loop
  exact ⟨computed, by simp [computeHashesAndSerializedNodes, run], listed⟩

variable {nodes : UpdatedNodes Nat FlatStateValue} {old : Nat → Option (GenericTrieNodeWithSize Nat FlatStateValue)}

theorem Rep.pointerReadable {child : GenericNodeOrIndex Nat} {t : NodeTree FlatStateValue}
    {ids : List Nat} (rep : Rep nodes arena.old (some child) t ids) :
    PointerReadable arena nodes.length child := by
  cases child with
  | updated child => exact rep.lt_length rep.head_mem
  | old child =>
    cases rep with
    | old existing =>
      obtain ⟨node, read⟩ := existing.isSome
      obtain ⟨view, viewed, -⟩ := Arena.view_of_old read
      simp [PointerReadable, viewed]

/-- Every updated node of a tree without empty nodes can be hashed. -/
theorem Rep.readable {p : Option (GenericNodeOrIndex Nat)} {t : NodeTree FlatStateValue}
    {ids : List Nat} (rep : Rep nodes arena.old p t ids) (free : t.EmptyFree) :
    ∀ i ∈ ids, ∃ node, nodes[i]? = some (some node) ∧ NodeReadable arena nodes.length node.node := by
  induction rep with
  | none => simp
  | old => simp
  | empty => exact absurd free id
  | leaf read =>
    intro i member
    rw [List.mem_singleton.mp member]
    exact ⟨_, read, trivial⟩
  | extension read below _ ih =>
    intro i member
    rcases List.mem_cons.mp member with rfl | deeper
    · exact ⟨_, read, below.pointerReadable⟩
    · exact ih free i deeper
  | @branch _ _ children _ _ _ read below _ ih =>
    intro i member
    rcases List.mem_cons.mp member with rfl | deeper
    · refine ⟨_, read, fun child slot => ?_⟩
      obtain ⟨j, inside, found⟩ := Vector.mem_iff_getElem.mp (Vector.mem_toList_iff.mp slot)
      have rep := below ⟨j, inside⟩
      simp only [Fin.getElem_fin, found] at rep
      exact rep.pointerReadable
    · obtain ⟨j, deeper⟩ := mem_childIds.mp deeper
      exact ih j (free j) i deeper

end Hashes

/-! The construction loop, node by node. -/

section Construct

variable (hashing : Hashing) (nodes : UpdatedNodes Nat FlatStateValue)

/-- What a child pointer comes to in the arena being built: an old node stands for its own
tree; an updated one has been allocated, standing for its tree up to memory usage. -/
def Built (state : ConstructState) : Option (GenericNodeOrIndex Nat) → NodeTree FlatStateValue → Prop
  | none, t => t = .none
  | some (.old child), t => OldRep state.arena.old (some child) t
  | some (.updated child), t => ∃ r t', state.updatedToNew child = some r ∧
      OldRep state.arena.old (some r) t' ∧ t'.eraseMemory = t.eraseMemory

/-- A run of the loop from `state` to `state'` over the ids `ids`: the arena stays valid and
keeps its nodes, and the map changes at `ids` only. -/
structure Grows (state state' : ConstructState) (ids : List Nat) : Prop where
  valid : state'.arena.Valid
  larger : state.arena.Extends state'.arena
  frame : ∀ k ∉ ids, state'.updatedToNew k = state.updatedToNew k

variable {nodes}

theorem Grows.refl {state : ConstructState} (valid : state.arena.Valid) : Grows state state [] :=
  ⟨valid, Arena.Extends.refl _, fun _ _ => rfl⟩

theorem Grows.trans {s₁ s₂ s₃ : ConstructState} {ids₁ ids₂ : List Nat} (first : Grows s₁ s₂ ids₁)
    (second : Grows s₂ s₃ ids₂) : Grows s₁ s₃ (ids₁ ++ ids₂) := by
  refine ⟨second.valid, first.larger.trans second.larger, fun k outside => ?_⟩
  rw [List.mem_append, not_or] at outside
  rw [second.frame k outside.2, first.frame k outside.1]

theorem Grows.subset {state state' : ConstructState} {ids ids' : List Nat} (grows : Grows state state' ids)
    (sub : ids ⊆ ids') : Grows state state' ids' :=
  ⟨grows.valid, grows.larger, fun k outside => grows.frame k fun member => outside (sub member)⟩

theorem Built.mono {state state' : ConstructState} {p : Option (GenericNodeOrIndex Nat)}
    {t : NodeTree FlatStateValue} (built : Built state p t) (larger : state.arena.Extends state'.arena)
    (kept : ∀ child, p = some (.updated child) → state'.updatedToNew child = state.updatedToNew child) :
    Built state' p t := by
  rcases p with _ | _ | child
  · exact built
  · exact OldRep.mono built fun _ _ read => larger.old read
  · obtain ⟨r, t', mapped, existing, same⟩ := built
    exact ⟨r, t', (kept child rfl).trans mapped, existing.mono fun _ _ read => larger.old read, same⟩

/-- A built child maps to an arena id standing for its tree. -/
theorem Built.mapToNew {state : ConstructState} {child : GenericNodeOrIndex Nat}
    {t : NodeTree FlatStateValue} (built : Built state (some child) t) :
    ∃ r t', mapToNewNodeId state.updatedToNew child = .ok r ∧
      OldRep state.arena.old (some r) t' ∧ t'.eraseMemory = t.eraseMemory := by
  cases child with
  | updated child =>
    obtain ⟨r, t', mapped, existing, same⟩ := built
    exact ⟨r, t', by simp [mapToNewNodeId, mapped], existing, same⟩
  | old child => exact ⟨child, t, rfl, built, rfl⟩

/-- So does a built slot of a branch. -/
theorem Built.mapSlot {state : ConstructState} {slot : Option (GenericNodeOrIndex Nat)}
    {t : NodeTree FlatStateValue} (built : Built state slot t) :
    ∃ q t', slot.mapM (mapToNewNodeId state.updatedToNew) = .ok q ∧
      OldRep state.arena.old q t' ∧ t'.eraseMemory = t.eraseMemory := by
  cases slot with
  | none => exact ⟨none, .none, rfl, .none, by rw [show t = .none from built]⟩
  | some child =>
    obtain ⟨r, t', mapped, existing, same⟩ := built.mapToNew
    exact ⟨some r, t', by simp [mapped], existing, same⟩

section Step

variable {state : ConstructState} (valid : state.arena.Valid) {i m : Nat}
include valid

/-- One iteration allocates the node's input; the new node stands for `t` once the input,
read back from any larger arena, does. -/
theorem constructStep_spec {node : GenericUpdatedTrieNode Nat FlatStateValue}
    (read : nodes[i]? = some (some ⟨node, m⟩)) {input : InputMemTrieNode}
    (converted : toInputNode state.updatedToNew node = .ok input) {t : NodeTree FlatStateValue}
    (tree : ∀ (arena : Arena) r m', state.arena.Extends arena → arena.old r = some ⟨input.toNode, m'⟩ →
      ∃ t', OldRep arena.old (some r) t' ∧ t'.eraseMemory = t.eraseMemory)
    (hash : CryptoHash) :
    ∃ state', constructStep hashing nodes state (i, hash) = .ok state' ∧ Grows state state' [i] ∧
      Built state' (some (.updated i)) t ∧ state'.lastNodeId = state'.updatedToNew i := by
  obtain ⟨valid', larger, m', stored⟩ := Arena.newImpl_spec valid hashing input (some hash)
  obtain ⟨t', existing, same⟩ := tree _ _ _ larger stored
  refine ⟨⟨_, Function.update state.updatedToNew i (some (state.arena.newImpl hashing input (some hash)).1),
    some (state.arena.newImpl hashing input (some hash)).1⟩, ?_, ⟨valid', larger, fun k outside => ?_⟩,
    ⟨_, t', by simp, existing, same⟩, by simp⟩
  · simp [constructStep, readUpdated_of_read read, converted]
  · rw [List.mem_singleton] at outside
    simp [outside]

theorem constructStep_leaf {ext : List UInt8} {value : FlatStateValue}
    (read : nodes[i]? = some (some ⟨.leaf ext value, m⟩)) (hash : CryptoHash) :
    ∃ state', constructStep hashing nodes state (i, hash) = .ok state' ∧ Grows state state' [i] ∧
      Built state' (some (.updated i)) (.leaf ext value m) ∧ state'.lastNodeId = state'.updatedToNew i :=
  constructStep_spec hashing valid read rfl (fun _ _ _ _ stored => ⟨_, .leaf stored, rfl⟩) hash

theorem constructStep_extension {ext : List UInt8} {child : GenericNodeOrIndex Nat}
    (read : nodes[i]? = some (some ⟨.extension ext child, m⟩)) {tc : NodeTree FlatStateValue}
    (built : Built state (some child) tc) (hash : CryptoHash) :
    ∃ state', constructStep hashing nodes state (i, hash) = .ok state' ∧ Grows state state' [i] ∧
      Built state' (some (.updated i)) (.extension ext tc m) ∧
      state'.lastNodeId = state'.updatedToNew i := by
  obtain ⟨r, t', mapped, existing, same⟩ := built.mapToNew
  refine constructStep_spec hashing valid read
    (by simp [toInputNode, mapped] : toInputNode state.updatedToNew (.extension ext child) = .ok (.extension ext r))
    (fun _ _ m' larger stored => ?_) hash
  exact ⟨.extension ext t' m', .extension stored (existing.mono fun _ _ read => larger.old read),
    by simp [NodeTree.eraseMemory, same]⟩

theorem constructStep_branch {children : Vector (Option (GenericNodeOrIndex Nat)) 16}
    {value : Option FlatStateValue} (read : nodes[i]? = some (some ⟨.branch children value, m⟩))
    {ts : Fin 16 → NodeTree FlatStateValue} (built : ∀ j : Fin 16, Built state (children.get j) (ts j))
    (hash : CryptoHash) :
    ∃ state', constructStep hashing nodes state (i, hash) = .ok state' ∧ Grows state state' [i] ∧
      Built state' (some (.updated i)) (.branch ts value m) ∧
      state'.lastNodeId = state'.updatedToNew i := by
  have slots : ∀ slot ∈ children.toList, ∃ q, slot.mapM (mapToNewNodeId state.updatedToNew) = .ok q := by
    intro slot member
    obtain ⟨j, inside, rfl⟩ := Vector.mem_iff_getElem.mp (Vector.mem_toList_iff.mp member)
    obtain ⟨q, -, mapped, -⟩ := (built ⟨j, inside⟩).mapSlot
    exact ⟨q, mapped⟩
  obtain ⟨newChildren, mapped, pointwise⟩ := Vector.mapM_of_ok slots
  -- each new child stands for the old child's tree, up to memory usage
  have below : ∀ j : Fin 16, ∃ t', OldRep state.arena.old newChildren[j] t' ∧
      t'.eraseMemory = (ts j).eraseMemory := by
    intro j
    obtain ⟨q, t', slot, existing, same⟩ := (built j).mapSlot
    have : q = newChildren[j] := Except.ok.inj (slot.symm.trans (pointwise j j.isLt))
    exact ⟨t', this ▸ existing, same⟩
  choose ts' existing same using below
  -- the input is a branch with or without value; either reads back as the branch
  obtain ⟨input, converted, readBack⟩ : ∃ input, toInputNode state.updatedToNew (.branch children value) =
      .ok input ∧ input.toNode = .branch newChildren value := by
    cases value with
    | none => exact ⟨.branch newChildren, by simp [toInputNode, mapped], rfl⟩
    | some value => exact ⟨.branchWithValue newChildren value, by simp [toInputNode, mapped], rfl⟩
  refine constructStep_spec hashing valid read converted (fun _ _ m' larger stored => ?_) hash
  rw [readBack] at stored
  refine ⟨.branch ts' value m', .branch stored fun j => (existing j).mono fun _ _ read => larger.old read, ?_⟩
  simp only [NodeTree.eraseMemory, same]

end Step

/-! The subtree of a pointer: the traversal lists its updated ids, and the loop over them
builds it. -/

variable (nodes) (arena₀ : Arena)

/-- What the traversal and the loop do with the subtree of a pointer standing for `t` through
the updated ids `ids`: the traversal lists `ids`, and the loop over them, with any hashes,
from an arena holding the existing trie, builds the pointer's tree, its root last. -/
def Constructs (fuel : Nat) (p : Option (GenericNodeOrIndex Nat)) (t : NodeTree FlatStateValue)
    (ids : List Nat) : Prop :=
  ∃ ordered, visitPointer (postOrderTraverse nodes fuel) p = .ok ordered ∧ ordered.Perm ids ∧
    ∀ entries : List (Nat × CryptoHash), entries.map Prod.fst = ordered →
      ∀ state : ConstructState, state.arena.Valid → arena₀.Extends state.arena →
        ∃ state', entries.foldlM (constructStep hashing nodes) state = .ok state' ∧
          Grows state state' ids ∧ Built state' p t ∧
          ∀ child, p = some (.updated child) → state'.lastNodeId = state'.updatedToNew child

variable {nodes arena₀}

/-- The loop over the children of a branch, by induction on the slots: each child's subtree
in turn, each built subtree kept by the later ones as their ids are apart. -/
theorem children_constructs {fuel : Nat} {children : Vector (Option (GenericNodeOrIndex Nat)) 16}
    {ts : Fin 16 → NodeTree FlatStateValue} {ids : Fin 16 → List Nat}
    (each : ∀ j, Constructs hashing nodes arena₀ fuel (children.get j) (ts j) (ids j))
    (heads : ∀ j child, children.get j = some (.updated child) → child ∈ ids j) :
    ∀ js : List (Fin 16), (js.flatMap ids).Nodup →
      ∃ ordered, postOrderChildren (postOrderTraverse nodes fuel) (js.map fun j => children.get j) = .ok ordered ∧
        ordered.Perm (js.flatMap ids) ∧
        ∀ entries : List (Nat × CryptoHash), entries.map Prod.fst = ordered →
          ∀ state : ConstructState, state.arena.Valid → arena₀.Extends state.arena →
            ∃ state', entries.foldlM (constructStep hashing nodes) state = .ok state' ∧
              Grows state state' (js.flatMap ids) ∧ ∀ j ∈ js, Built state' (children.get j) (ts j)
  | [], _ => ⟨[], rfl, .nil, fun entries listed state valid _ =>
      ⟨state, by rw [List.map_eq_nil_iff.mp listed]; rfl, Grows.refl valid, by simp⟩⟩
  | j :: js, distinct => by
    rw [List.flatMap_cons] at distinct
    obtain ⟨first, visited₁, perm₁, run₁⟩ := each j
    obtain ⟨others, visited, perm, run⟩ := children_constructs each heads js (List.nodup_append.mp distinct).2.1
    refine ⟨first ++ others, ?_, ?_, fun entries listed state valid holds => ?_⟩
    · rw [List.map_cons, postOrderChildren_cons, visited₁, Except.ok_bind, visited]
      rfl
    · rw [List.flatMap_cons]
      exact perm₁.append perm
    · obtain ⟨entries₁, entries₂, rfl, listed₁, listed₂⟩ := List.map_eq_append_iff.mp listed
      obtain ⟨state₁, steps₁, grows₁, built₁, -⟩ := run₁ entries₁ listed₁ state valid holds
      obtain ⟨state', steps, grows, built⟩ :=
        run entries₂ listed₂ state₁ grows₁.valid (holds.trans grows₁.larger)
      refine ⟨state', by rw [List.foldlM_append, steps₁]; exact steps, ?_, ?_⟩
      · rw [List.flatMap_cons]
        exact grows₁.trans grows
      · intro k member
        rcases List.mem_cons.mp member with rfl | later
        · -- the later children write outside this child's ids
          refine built₁.mono grows.larger fun child slot => grows.frame child fun inside => ?_
          exact (List.nodup_append.mp distinct).2.2 _ (heads k child slot) _ inside rfl
        · exact built k later

/-- By induction on the tree: the traversal of an updated node lists its subtree children
first and itself last, and the loop builds the children before the node. -/
theorem Rep.constructs {p : Option (GenericNodeOrIndex Nat)} {t : NodeTree FlatStateValue}
    {ids : List Nat} (rep : Rep nodes arena₀.old p t ids) (free : t.EmptyFree) :
    ∀ fuel, ids.length < fuel → Constructs hashing nodes arena₀ fuel p t ids := by
  induction rep with
  | none =>
    intro fuel _
    refine ⟨[], rfl, .nil, fun entries listed state valid _ => ⟨state, ?_, Grows.refl valid, rfl, by simp⟩⟩
    rw [List.map_eq_nil_iff.mp listed]
    rfl
  | old existing =>
    intro fuel _
    refine ⟨[], rfl, .nil, fun entries listed state valid holds =>
      ⟨state, ?_, Grows.refl valid, existing.mono fun _ _ read => holds.old read, by simp⟩⟩
    rw [List.map_eq_nil_iff.mp listed]
    rfl
  | empty => exact absurd free id
  | @leaf i m ext value read =>
    intro fuel enough
    obtain ⟨fuel, rfl⟩ : ∃ f, fuel = f + 1 := ⟨fuel - 1, by simp at enough; omega⟩
    refine ⟨[i], postOrderTraverse_leaf read fuel, .refl _, fun entries listed state valid _ => ?_⟩
    obtain ⟨⟨_, hash⟩, rfl, rfl⟩ := List.map_eq_singleton_iff.mp listed
    obtain ⟨state', step, grows, built, last⟩ := constructStep_leaf hashing valid read hash
    exact ⟨state', by simp [step], grows, built, by rintro _ ⟨⟩; exact last⟩
  | @extension i m ext child tc ids read below fresh ih =>
    intro fuel enough
    obtain ⟨fuel, rfl⟩ : ∃ f, fuel = f + 1 := ⟨fuel - 1, by simp at enough; omega⟩
    obtain ⟨below', visited, perm, run⟩ := ih free fuel (by simp at enough; omega)
    refine ⟨below' ++ [i], ?_, ?_, fun entries listed state valid holds => ?_⟩
    · show postOrderTraverse nodes (fuel + 1) i = _
      rw [postOrderTraverse_extension read, visited]
      rfl
    · exact (perm.append_right [i]).trans (List.perm_append_singleton i ids)
    · obtain ⟨entries₁, entries₂, rfl, listed₁, listed₂⟩ := List.map_eq_append_iff.mp listed
      obtain ⟨⟨_, hash⟩, rfl, rfl⟩ := List.map_eq_singleton_iff.mp listed₂
      obtain ⟨state₁, steps₁, grows₁, built₁, -⟩ := run entries₁ listed₁ state valid holds
      obtain ⟨state', step, grows, built, last⟩ :=
        constructStep_extension hashing grows₁.valid read built₁ hash
      refine ⟨state', ?_, (grows₁.trans grows).subset ?_, built, by rintro _ ⟨⟩; exact last⟩
      · rw [List.foldlM_append, steps₁]
        simp [step]
      · intro k member
        simp only [List.mem_append, List.mem_singleton] at member
        rcases member with deeper | rfl
        · exact List.mem_cons_of_mem _ deeper
        · exact List.mem_cons_self
  | @branch i m children value ts ids read below distinct ih =>
    intro fuel enough
    obtain ⟨fuel, rfl⟩ : ∃ f, fuel = f + 1 := ⟨fuel - 1, by simp at enough; omega⟩
    -- each child's ids are among the branch's, fewer than the fuel left
    have each : ∀ j, Constructs hashing nodes arena₀ fuel (children.get j) (ts j) (ids j) := by
      intro j
      have shorter : (ids j).length ≤ (childIds ids).length :=
        (List.sublist_flatten_of_mem (List.mem_map_of_mem (List.mem_finRange j))).length_le
      exact ih j (free j) fuel (by simp at enough; omega)
    have heads : ∀ j child, children.get j = some (.updated child) → child ∈ ids j := by
      intro j child slot
      have rep : Rep _ _ (children.get j) (ts j) (ids j) := below j
      rw [slot] at rep
      exact rep.head_mem
    have listed : (List.finRange 16).map (fun j => children.get j) = children.toList := by
      apply List.ext_getElem <;> simp [Vector.get_eq_getElem]
    obtain ⟨below', visited, perm, run⟩ :=
      children_constructs hashing each heads (List.finRange 16) (List.nodup_cons.mp distinct).2
    rw [listed] at visited
    refine ⟨below' ++ [i], ?_, ?_, fun entries listed state valid holds => ?_⟩
    · show postOrderTraverse nodes (fuel + 1) i = _
      rw [postOrderTraverse_branch read, visited]
      rfl
    · exact (perm.append_right [i]).trans (List.perm_append_singleton i _)
    · obtain ⟨entries₁, entries₂, rfl, listed₁, listed₂⟩ := List.map_eq_append_iff.mp listed
      obtain ⟨⟨_, hash⟩, rfl, rfl⟩ := List.map_eq_singleton_iff.mp listed₂
      obtain ⟨state₁, steps₁, grows₁, built₁⟩ := run entries₁ listed₁ state valid holds
      obtain ⟨state', step, grows, built, last⟩ :=
        constructStep_branch hashing grows₁.valid read (fun j => built₁ j (List.mem_finRange j)) hash
      refine ⟨state', ?_, (grows₁.trans grows).subset ?_, built, by rintro _ ⟨⟩; exact last⟩
      · rw [List.foldlM_append, steps₁]
        simp [step]
      · intro k member
        simp only [List.mem_append, List.mem_singleton] at member
        rcases member with deeper | rfl
        · exact List.mem_cons_of_mem _ deeper
        · exact List.mem_cons_self

end Construct

section Root

variable (hashing : Hashing) {nodes : UpdatedNodes Nat FlatStateValue} {arena₀ : Arena}

theorem Rep.length_lt {p : Option (GenericNodeOrIndex Nat)} {t : NodeTree FlatStateValue} {ids : List Nat}
    (rep : Rep nodes arena₀.old p t ids) : ids.length < nodes.length + 1 := by
  have sub : ids.Subperm (List.range nodes.length) :=
    rep.nodup.subperm fun _ member => List.mem_range.mpr (rep.lt_length member)
  have shorter := sub.length_le
  rw [List.length_range] at shorter
  omega

/-- From updated nodes whose node 0 stands for a root tree, the memtrie changes are computed
and constructed into a valid arena, whose new root has the same lookups; every node the arena
held stays. -/
theorem construct_rootHolds (valid : arena₀.Valid) {t : NodeTree FlatStateValue}
    (holds : RootHolds nodes arena₀.old t) :
    ∃ changes newRoot arena t', toMemtrieChangesOnly hashing arena₀ nodes = .ok changes ∧
      constructRootFromChanges hashing arena₀ changes = .ok (newRoot, arena) ∧
      arena.Valid ∧ arena₀.Extends arena ∧ OldRep arena.old newRoot t' ∧
      t'.lookup = t.lookup ∧ t'.NonemptyExtensions := by
  obtain ⟨ids, rep⟩ := holds.rep
  rcases holds.shape with ⟨m, rfl⟩ | free
  · -- an empty root: the traversal lists nothing, and there is no root to construct
    have read : nodes[0]? = some (some ⟨.empty, m⟩) := by
      cases rep with
      | empty read => exact read
    refine ⟨⟨[], nodes⟩, none, arena₀, .none, ?_, rfl, valid, .refl _, .none, rfl, trivial⟩
    simp [toMemtrieChangesOnly, toMemtrieChangesInternal, postOrderTraverse, readUpdated_of_read read,
      computeHashesAndSerializedNodes]
  · obtain ⟨ordered, traversed, perm, run⟩ := rep.constructs hashing free (nodes.length + 1) rep.length_lt
    obtain ⟨computed, hashed, listed⟩ :=
      computeHashes_ok hashing fun i member => rep.readable free i (perm.subset member)
    let entries := computed.map fun entry => (entry.1, entry.2.1)
    have entriesListed : entries.map Prod.fst = ordered := by
      rw [List.map_map]
      exact listed
    obtain ⟨state, steps, grows, ⟨r, t', mapped, existing, same⟩, last⟩ :=
      run entries entriesListed ⟨arena₀, fun _ => none, none⟩ valid (.refl _)
    have traversed : postOrderTraverse nodes (nodes.length + 1) 0 = .ok ordered := traversed
    refine ⟨⟨entries, nodes⟩, some r, state.arena, t', ?_, ?_, grows.valid, grows.larger, existing,
      NodeTree.lookup_eq_of_eraseMemory same,
      NodeTree.nonemptyExtensions_of_eraseMemory same holds.nonemptyExtensions⟩
    · simp [toMemtrieChangesOnly, toMemtrieChangesInternal, traversed, hashed, entries]
    · simp [constructRootFromChanges, steps, last 0 rfl, mapped]

end Root

end Nearcore
