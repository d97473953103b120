import Nearcore.Trie.Insert
import Nearcore.Trie.Context

/-! One iteration of the insertion loop, case by case: what it computes from the node it
takes out (the execution lemmas), and that the state then still holds the tree being built
(the invariant lemmas). The run lemma chains them over the whole loop. -/
namespace Nearcore

variable {σ N V : Type} [HasValueLength V] {backend : Backend σ N V}

section Execution

variable (backend) (value : GenericTrieValue) {handle : V} (fuel : Nat) {c : Nat} (partialKey : NibbleSlice)
  (path : List Nat) {nodes : UpdatedNodes N V} (inner : σ) {m : Nat}

theorem insertLoop_empty (stores : backend.Stores value handle)
    (read : nodes[c]? = some (some ⟨.empty, m⟩)) :
    ∃ inner', insertLoop backend value (fuel + 1) c partialKey path ⟨nodes, inner⟩ =
      .ok (path ++ [c], ⟨nodes.set c (some ⟨.leaf (partialKey.encoded true) handle,
        leafCost (partialKey.encoded true) handle⟩), inner'⟩) := by
  have inside : c < nodes.length := (List.getElem?_eq_some_iff.mp read).1
  obtain ⟨inner', stored⟩ := stores inner
  refine ⟨inner', ?_⟩
  rw [insertLoop, StateT.bind_apply_of_ok (takeNode_of_read _ _ read)]
  dsimp only
  rw [StateT.bind_apply_of_ok (storeValue_of_ok _ _ stored),
    StateT.bind_apply_of_ok (placeNodeAt_of_lt _ _ _ (by simpa using inside))]
  simp

theorem insertLoop_branch_value (deletes : backend.Deletes) (stores : backend.Stores value handle)
    {children : Vector (Option (GenericNodeOrIndex N)) 16} {oldValue : Option V}
    (read : nodes[c]? = some (some ⟨.branch children oldValue, m⟩))
    (atKey : partialKey.isEmpty = true) :
    ∃ inner', insertLoop backend value (fuel + 1) c partialKey path ⟨nodes, inner⟩ =
      .ok (path ++ [c], ⟨nodes.set c (some ⟨.branch children (some handle),
        m - branchCost oldValue + branchCost (some handle)⟩), inner'⟩) := by
  have inside : c < nodes.length := (List.getElem?_eq_some_iff.mp read).1
  rw [insertLoop, StateT.bind_apply_of_ok (takeNode_of_read _ _ read)]
  dsimp only
  rw [if_pos atKey]
  cases oldValue with
  | none =>
    obtain ⟨inner', stored⟩ := stores inner
    refine ⟨inner', ?_⟩
    dsimp only
    rw [StateT.bind_apply_of_ok (storeValue_of_ok _ _ stored),
      StateT.bind_apply_of_ok (placeNodeAt_of_lt _ _ _ (by simpa using inside))]
    simp
  | some oldValue =>
    obtain ⟨inner₁, deleted⟩ := deletes oldValue inner
    obtain ⟨inner', stored⟩ := stores inner₁
    refine ⟨inner', ?_⟩
    dsimp only
    rw [StateT.bind_apply_of_ok (deleteValue_of_ok _ _ deleted),
      StateT.bind_apply_of_ok (storeValue_of_ok _ _ stored),
      StateT.bind_apply_of_ok (placeNodeAt_of_lt _ _ _ (by simpa using inside))]
    simp

theorem insertLoop_branch_descend {children : Vector (Option (GenericNodeOrIndex N)) 16}
    {oldValue : Option V} {c' : Nat} {nodes₁ : UpdatedNodes N V} {inner₁ : σ}
    {childNode : GenericUpdatedTrieNodeWithSize N V}
    (read : nodes[c]? = some (some ⟨.branch children oldValue, m⟩))
    (descends : partialKey.isEmpty = false)
    (found : (match children.get (partialKey.atIndex 0) with
        | some child => ensureUpdated backend child
        | none => placeNode .empty) ⟨nodes.set c none, inner⟩ = .ok (c', ⟨nodes₁, inner₁⟩))
    (childRead : nodes₁[c']? = some (some childNode)) (inside₁ : c < nodes₁.length) :
    insertLoop backend value (fuel + 1) c partialKey path ⟨nodes, inner⟩ =
      insertLoop backend value fuel c' (partialKey.mid 1) (path ++ [c])
        ⟨nodes₁.set c (some ⟨.branch (children.set (partialKey.atIndex 0) (some (.updated c'))
          (NibbleSlice.index_lt _)) oldValue, saturatingAdd (m - branchCost oldValue) (branchCost oldValue) -
            childNode.memoryUsage⟩), inner₁⟩ := by
  rw [insertLoop, StateT.bind_apply_of_ok (takeNode_of_read _ _ read)]
  dsimp only
  rw [if_neg (by simp [descends])]
  -- the slot decides which operation yields the child's id; both then continue alike
  rcases slot : children.get (partialKey.atIndex 0) with _ | child <;> simp only [slot] at found ⊢ <;>
  · rw [StateT.bind_apply_of_ok found,
      StateT.bind_apply_of_ok (calcMemoryUsageAndStore_some _ _ childRead inside₁)]
    simp

section Leaf

variable {ext : List UInt8} {oldValue : V} {existingKey : NibbleSlice}

theorem insertLoop_leaf_same (deletes : backend.Deletes) (stores : backend.Stores value handle)
    (read : nodes[c]? = some (some ⟨.leaf ext oldValue, m⟩))
    (decoded : (NibbleSlice.fromEncoded ext).1 = existingKey)
    (same : partialKey.commonPrefix existingKey = existingKey.len ∧
      partialKey.commonPrefix existingKey = partialKey.len) :
    ∃ inner', insertLoop backend value (fuel + 1) c partialKey path ⟨nodes, inner⟩ =
      .ok (path ++ [c], ⟨nodes.set c (some ⟨.leaf ext handle, leafCost ext handle⟩), inner'⟩) := by
  subst decoded
  have inside : c < nodes.length := (List.getElem?_eq_some_iff.mp read).1
  obtain ⟨inner₁, deleted⟩ := deletes oldValue inner
  obtain ⟨inner', stored⟩ := stores inner₁
  refine ⟨inner', ?_⟩
  rw [insertLoop, StateT.bind_apply_of_ok (takeNode_of_read _ _ read)]
  dsimp only
  rw [if_pos same, StateT.bind_apply_of_ok (deleteValue_of_ok _ _ deleted),
    StateT.bind_apply_of_ok (storeValue_of_ok _ _ stored),
    StateT.bind_apply_of_ok (placeNodeAt_of_lt _ _ _ (by simpa using inside))]
  simp

theorem insertLoop_leaf_restart_empty (read : nodes[c]? = some (some ⟨.leaf ext oldValue, m⟩))
    (decoded : (NibbleSlice.fromEncoded ext).1 = existingKey)
    (differ : ¬(partialKey.commonPrefix existingKey = existingKey.len ∧
      partialKey.commonPrefix existingKey = partialKey.len))
    (disjoint : partialKey.commonPrefix existingKey = 0) (atKey : existingKey.isEmpty = true) :
    insertLoop backend value (fuel + 1) c partialKey path ⟨nodes, inner⟩ =
      insertLoop backend value fuel c partialKey path
        ⟨nodes.set c (some ⟨.branch noChildren (some oldValue), branchCost (some oldValue)⟩), inner⟩ := by
  subst decoded
  have inside : c < nodes.length := (List.getElem?_eq_some_iff.mp read).1
  rw [insertLoop, StateT.bind_apply_of_ok (takeNode_of_read _ _ read)]
  dsimp only
  rw [if_neg differ, if_pos disjoint, if_pos atKey, StateT.bind_apply_of_ok (StateT.pure_apply _ _)]
  dsimp only
  rw [StateT.bind_apply_of_ok (placeNodeAt_of_lt _ _ _ (by simpa using inside))]
  simp

theorem insertLoop_leaf_restart (read : nodes[c]? = some (some ⟨.leaf ext oldValue, m⟩))
    (decoded : (NibbleSlice.fromEncoded ext).1 = existingKey)
    (differ : ¬(partialKey.commonPrefix existingKey = existingKey.len ∧
      partialKey.commonPrefix existingKey = partialKey.len))
    (disjoint : partialKey.commonPrefix existingKey = 0) (nonempty : existingKey.isEmpty = false) :
    insertLoop backend value (fuel + 1) c partialKey path ⟨nodes, inner⟩ =
      insertLoop backend value fuel c partialKey path
        ⟨nodes.set c (some ⟨.branch (noChildren.set (existingKey.atIndex 0)
            (some (.updated nodes.length))) none,
          branchCost (none : Option V) + leafCost ((existingKey.mid 1).encoded true) oldValue⟩) ++
          [some ⟨.leaf ((existingKey.mid 1).encoded true) oldValue,
            leafCost ((existingKey.mid 1).encoded true) oldValue⟩], inner⟩ := by
  subst decoded
  have inside : c < nodes.length := (List.getElem?_eq_some_iff.mp read).1
  rw [insertLoop, StateT.bind_apply_of_ok (takeNode_of_read _ _ read)]
  dsimp only
  rw [if_neg differ, if_pos disjoint, if_neg (by simp [nonempty])]
  rw [StateT.bind_apply_of_ok (placeNode_apply _ _ _), pure_bind]
  dsimp only
  rw [StateT.bind_apply_of_ok (placeNodeAt_of_lt _ _ _ (by simp; omega)),
    set_none_append_set _ _ (by simpa using inside)]
  simp

theorem insertLoop_leaf_split (read : nodes[c]? = some (some ⟨.leaf ext oldValue, m⟩))
    (decoded : (NibbleSlice.fromEncoded ext).1 = existingKey)
    (differ : ¬(partialKey.commonPrefix existingKey = existingKey.len ∧
      partialKey.commonPrefix existingKey = partialKey.len))
    (shared : partialKey.commonPrefix existingKey ≠ 0) :
    insertLoop backend value (fuel + 1) c partialKey path ⟨nodes, inner⟩ =
      insertLoop backend value fuel nodes.length
        (partialKey.mid (partialKey.commonPrefix existingKey)) (path ++ [c])
        ⟨nodes.set c (some ⟨.extension
            (partialKey.encodedLeftmost (partialKey.commonPrefix existingKey) false)
            (.updated nodes.length),
          extensionCost (partialKey.encodedLeftmost (partialKey.commonPrefix existingKey) false)⟩) ++
          [some ⟨.leaf ((existingKey.mid (partialKey.commonPrefix existingKey)).encoded true) oldValue,
            leafCost ((existingKey.mid (partialKey.commonPrefix existingKey)).encoded true)
              oldValue⟩], inner⟩ := by
  subst decoded
  have inside : c < nodes.length := (List.getElem?_eq_some_iff.mp read).1
  rw [insertLoop, StateT.bind_apply_of_ok (takeNode_of_read _ _ read)]
  dsimp only
  rw [if_neg differ, if_neg shared, StateT.bind_apply_of_ok (placeNode_apply _ _ _),
    StateT.bind_apply_of_ok (placeNodeAt_of_lt _ _ _ (by simp; omega)),
    set_none_append_set _ _ (by simpa using inside)]
  simp

end Leaf

section Extension

variable {ext : List UInt8} {oldChild : GenericNodeOrIndex N} {existingKey : NibbleSlice}

theorem insertLoop_extension_restart_single
    (read : nodes[c]? = some (some ⟨.extension ext oldChild, m⟩))
    (decoded : (NibbleSlice.fromEncoded ext).1 = existingKey)
    (disjoint : partialKey.commonPrefix existingKey = 0) (single : existingKey.len = 1) :
    insertLoop backend value (fuel + 1) c partialKey path ⟨nodes, inner⟩ =
      insertLoop backend value fuel c partialKey path
        ⟨nodes.set c (some ⟨.branch (noChildren.set (existingKey.atIndex 0) (some oldChild)) none,
          branchCost (none : Option V) + (m - extensionCost ext)⟩), inner⟩ := by
  subst decoded
  have inside : c < nodes.length := (List.getElem?_eq_some_iff.mp read).1
  rw [insertLoop, StateT.bind_apply_of_ok (takeNode_of_read _ _ read)]
  dsimp only
  rw [if_pos disjoint, if_pos single, StateT.bind_apply_of_ok (StateT.pure_apply _ _)]
  dsimp only
  rw [StateT.bind_apply_of_ok (placeNodeAt_of_lt _ _ _ (by simpa using inside))]
  simp

theorem insertLoop_extension_restart
    (read : nodes[c]? = some (some ⟨.extension ext oldChild, m⟩))
    (decoded : (NibbleSlice.fromEncoded ext).1 = existingKey)
    (disjoint : partialKey.commonPrefix existingKey = 0) (longer : existingKey.len ≠ 1) :
    insertLoop backend value (fuel + 1) c partialKey path ⟨nodes, inner⟩ =
      insertLoop backend value fuel c partialKey path
        ⟨nodes.set c (some ⟨.branch (noChildren.set (existingKey.atIndex 0)
            (some (.updated nodes.length))) none,
          branchCost (none : Option V) +
            (m - extensionCost ext + extensionCost ((existingKey.mid 1).encoded false))⟩) ++
          [some ⟨.extension ((existingKey.mid 1).encoded false) oldChild,
            m - extensionCost ext + extensionCost ((existingKey.mid 1).encoded false)⟩], inner⟩ := by
  subst decoded
  have inside : c < nodes.length := (List.getElem?_eq_some_iff.mp read).1
  rw [insertLoop, StateT.bind_apply_of_ok (takeNode_of_read _ _ read)]
  dsimp only
  rw [if_pos disjoint, if_neg longer, StateT.bind_apply_of_ok (placeNode_apply _ _ _), pure_bind]
  dsimp only
  rw [StateT.bind_apply_of_ok (placeNodeAt_of_lt _ _ _ (by simp; omega)),
    set_none_append_set _ _ (by simpa using inside)]
  simp

theorem insertLoop_extension_descend {c' : Nat} {nodes₁ : UpdatedNodes N V} {inner₁ : σ}
    (read : nodes[c]? = some (some ⟨.extension ext oldChild, m⟩))
    (decoded : (NibbleSlice.fromEncoded ext).1 = existingKey)
    (shared : partialKey.commonPrefix existingKey ≠ 0)
    (whole : partialKey.commonPrefix existingKey = existingKey.len)
    (found : ensureUpdated backend oldChild ⟨nodes.set c none, inner⟩ = .ok (c', ⟨nodes₁, inner₁⟩))
    (inside₁ : c < nodes₁.length) :
    insertLoop backend value (fuel + 1) c partialKey path ⟨nodes, inner⟩ =
      insertLoop backend value fuel c' (partialKey.mid (partialKey.commonPrefix existingKey))
        (path ++ [c]) ⟨nodes₁.set c (some ⟨.extension ext (.updated c'), extensionCost ext⟩), inner₁⟩ := by
  subst decoded
  rw [insertLoop, StateT.bind_apply_of_ok (takeNode_of_read _ _ read)]
  dsimp only
  rw [if_neg shared, if_pos whole, StateT.bind_apply_of_ok found,
    StateT.bind_apply_of_ok (placeNodeAt_of_lt _ _ _ inside₁)]
  simp

theorem insertLoop_extension_split (read : nodes[c]? = some (some ⟨.extension ext oldChild, m⟩))
    (decoded : (NibbleSlice.fromEncoded ext).1 = existingKey)
    (shared : partialKey.commonPrefix existingKey ≠ 0)
    (part : partialKey.commonPrefix existingKey ≠ existingKey.len) :
    insertLoop backend value (fuel + 1) c partialKey path ⟨nodes, inner⟩ =
      insertLoop backend value fuel nodes.length
        (partialKey.mid (partialKey.commonPrefix existingKey)) (path ++ [c])
        ⟨nodes.set c (some ⟨.extension
            (existingKey.encodedLeftmost (partialKey.commonPrefix existingKey) false)
            (.updated nodes.length),
          extensionCost (existingKey.encodedLeftmost (partialKey.commonPrefix existingKey) false)⟩) ++
          [some ⟨.extension
              ((existingKey.mid (partialKey.commonPrefix existingKey)).encoded false) oldChild,
            m - extensionCost ext +
              extensionCost ((existingKey.mid (partialKey.commonPrefix existingKey)).encoded false)⟩],
          inner⟩ := by
  subst decoded
  have inside : c < nodes.length := (List.getElem?_eq_some_iff.mp read).1
  rw [insertLoop, StateT.bind_apply_of_ok (takeNode_of_read _ _ read)]
  dsimp only
  rw [if_neg shared, if_neg part, StateT.bind_apply_of_ok (placeNode_apply _ _ _),
    StateT.bind_apply_of_ok (placeNodeAt_of_lt _ _ _ (by simp; omega)),
    set_none_append_set _ _ (by simpa using inside)]
  simp

end Extension

end Execution

/-! One iteration preserves `Holds`, and what is left to do plugs back into `NodeTree.insert`. -/

/-- What one iteration of the insertion loop does from a state that holds `t` at the hole
`c`: it stores the value and stops, or it goes on from a smaller measure, and the frames it
pushed plug the rest of the insertion back into `t.insert`. -/
inductive InsertStep (backend : Backend σ N V) (old : N → Option (GenericTrieNodeWithSize N V))
    (root : Nat) (value : GenericTrieValue) (handle : V) (fuel c : Nat) (partialKey : NibbleSlice)
    (frames : List (Nat × Frame V)) (nodes : UpdatedNodes N V) (inner : σ) (t : NodeTree V) : Prop
  | stop {nodes' : UpdatedNodes N V} {inner' : σ}
      (run : insertLoop backend value (fuel + 1) c partialKey (frames.map Prod.fst) ⟨nodes, inner⟩ =
        .ok (frames.map Prod.fst ++ [c], ⟨nodes', inner'⟩))
      (holds : Holds nodes' old root frames c (t.insert handle partialKey))
  | next {frames₁ : List (Nat × Frame V)} {c' : Nat} {partialKey' : NibbleSlice}
      {nodes' : UpdatedNodes N V} {inner' : σ} {t₁ : NodeTree V}
      (run : insertLoop backend value (fuel + 1) c partialKey (frames.map Prod.fst) ⟨nodes, inner⟩ =
        insertLoop backend value fuel c' partialKey' ((frames ++ frames₁).map Prod.fst)
          ⟨nodes', inner'⟩)
      (holds : Holds nodes' old root (frames ++ frames₁) c' t₁)
      (plugs : plug frames₁ (t₁.insert handle partialKey') = t.insert handle partialKey)
      (smaller : 2 * partialKey'.len + t₁.rank < 2 * partialKey.len + t.rank)

section Step

variable {old : N → Option (GenericTrieNodeWithSize N V)} {root : Nat} {value : GenericTrieValue}
  {handle : V} {fuel c m : Nat} {partialKey : NibbleSlice} {frames : List (Nat × Frame V)}
  {nodes : UpdatedNodes N V} {inner : σ} {t : NodeTree V}

/-- A conversion: the loop starts over at the same node, which now holds `t₁`. -/
theorem InsertStep.restart (t₁ : NodeTree V) {nodes' : UpdatedNodes N V} {inner' : σ}
    (run : insertLoop backend value (fuel + 1) c partialKey (frames.map Prod.fst) ⟨nodes, inner⟩ =
      insertLoop backend value fuel c partialKey (frames.map Prod.fst) ⟨nodes', inner'⟩)
    (holds : Holds nodes' old root frames c t₁)
    (plugs : t₁.insert handle partialKey = t.insert handle partialKey) (smaller : t₁.rank < t.rank) :
    InsertStep backend old root value handle fuel c partialKey frames nodes inner t := by
  have holds' : Holds nodes' old root (frames ++ []) c t₁ := by rwa [List.append_nil]
  exact .next (by simpa using run) holds' (by simpa using plugs) (by omega)

/-- A descent: the loop goes on below the node, which becomes the frame `frame`. -/
theorem InsertStep.descend (frame : Frame V) (t₁ : NodeTree V) {c' : Nat}
    {partialKey' : NibbleSlice} {nodes' : UpdatedNodes N V} {inner' : σ}
    (run : insertLoop backend value (fuel + 1) c partialKey (frames.map Prod.fst) ⟨nodes, inner⟩ =
      insertLoop backend value fuel c' partialKey' (frames.map Prod.fst ++ [c]) ⟨nodes', inner'⟩)
    (holds : Holds nodes' old root (frames ++ [(c, frame)]) c' t₁)
    (plugs : frame.fill (t₁.insert handle partialKey') (t₁.insert handle partialKey').memoryUsage =
      t.insert handle partialKey)
    (smaller : 2 * partialKey'.len + t₁.rank < 2 * partialKey.len + t.rank) :
    InsertStep backend old root value handle fuel c partialKey frames nodes inner t :=
  .next (by simpa using run) holds (by simpa using plugs) smaller

theorem insertStep_empty (stores : backend.Stores value handle)
    (holds : Holds nodes old root frames c t) (read : nodes[c]? = some (some ⟨.empty, m⟩)) :
    InsertStep backend old root value handle fuel c partialKey frames nodes inner t := by
  obtain ⟨ctxIds, ids, ctx, rep, distinct⟩ := holds
  have inside : c < nodes.length := (List.getElem?_eq_some_iff.mp read).1
  obtain ⟨rfl, rfl⟩ := rep.inv_empty read
  obtain ⟨inner', run⟩ := insertLoop_empty backend value fuel partialKey (frames.map Prod.fst) inner stores read
  refine .stop run ?_
  rw [NodeTree.insert]
  exact Holds.set_leaf ctx distinct (List.mem_singleton_self c) inside _ _ _

omit [HasValueLength V] in
/-- The child the branch case descends into, fetched or created. -/
theorem fetchChild_rep (reads : backend.Reads old) (inner : σ) {children : Vector (Option (GenericNodeOrIndex N)) 16}
    {slot : Fin 16} {t : NodeTree V} {ids : List Nat} (rep : Rep nodes old (children.get slot) t ids) :
    ∃ c' more inner' ids', (match children.get slot with
        | some child => ensureUpdated backend child
        | none => placeNode .empty) ⟨nodes, inner⟩ = .ok (c', ⟨nodes ++ more, inner'⟩) ∧
      Rep (nodes ++ more) old (some (.updated c')) t.orEmpty ids' ∧
      (ids' = ids ∨ ids = [] ∧ ids' = [nodes.length]) := by
  rcases present : children.get slot with _ | ptr
  · rw [present] at rep
    cases rep
    exact ⟨nodes.length, [some .empty], inner, [nodes.length], placeNode_apply _ _ _,
      .empty (by simp [GenericTrieNodeWithSize.empty]), .inr ⟨rfl, rfl⟩⟩
  · rw [present] at rep
    rw [rep.orEmpty_eq]
    exact ensureUpdated_rep reads rep inner

theorem insertStep_branch (reads : backend.Reads old) (deletes : backend.Deletes)
    (stores : backend.Stores value handle) {children : Vector (Option (GenericNodeOrIndex N)) 16}
    {oldValue : Option V} (holds : Holds nodes old root frames c t)
    (read : nodes[c]? = some (some ⟨.branch children oldValue, m⟩)) :
    InsertStep backend old root value handle fuel c partialKey frames nodes inner t := by
  obtain ⟨ctxIds, ids, ctx, rep, distinct⟩ := holds
  have inside : c < nodes.length := (List.getElem?_eq_some_iff.mp read).1
  have present : ∀ i ∈ ctxIds ++ ids, i < nodes.length := by
    intro i member
    rcases List.mem_append.mp member with inPath | inHole
    · exact ctx.lt_length inPath
    · exact rep.lt_length inHole
  obtain ⟨ts, cids, rfl, rfl, below, pathDistinct⟩ := rep.inv_branch read
  have notBelow : ∀ j, c ∉ cids j := fun j member =>
    (List.nodup_cons.mp pathDistinct).1 (mem_childIds.mpr ⟨j, member⟩)
  by_cases atKey : partialKey.isEmpty = true
  · -- the value goes into this branch
    obtain ⟨inner', run⟩ :=
      insertLoop_branch_value backend value fuel partialKey (frames.map Prod.fst) inner deletes stores read atKey
    refine .stop run ?_
    rw [NodeTree.insert, if_pos atKey]
    have same := ctx.set_append_same distinct List.mem_cons_self
      (some ⟨.branch children (some handle), m - branchCost oldValue + branchCost (some handle)⟩) []
    rw [List.append_nil] at same
    exact Holds.of_within ctx distinct same
      (.branch (by simp [inside]) (fun j => (below j).set (notBelow j) _) pathDistinct)
      (fun i member => .inl member)
  · -- descend into the child at the first nibble, creating it if missing
    have descends : partialKey.isEmpty = false := by simpa using atKey
    obtain ⟨c', more, inner₁, ids', found, childRep, fetched⟩ :=
      fetchChild_rep reads inner ((below (partialKey.atIndex 0)).set (notBelow _) none)
    obtain ⟨childNode, childRead⟩ := childRep.read_updated
    have inside₁ : c < (nodes.set c none ++ more).length := by simp; omega
    rw [List.length_set] at fetched
    set slot := partialKey.atIndex 0
    obtain ⟨m', memory⟩ : ∃ m', m' = saturatingAdd (m - branchCost oldValue) (branchCost oldValue) -
        (ts slot).orEmpty.memoryUsage := ⟨_, rfl⟩
    have run := insertLoop_branch_descend backend value fuel partialKey (frames.map Prod.fst) inner read
      descends found childRead inside₁
    dsimp only at run
    rw [set_none_append_set _ _ (by simpa using inside), ← memory] at run
    have notHole : c ∉ ids' := by
      rcases fetched with rfl | ⟨-, rfl⟩
      · exact notBelow slot
      · simpa using inside.ne
    have holds' : Holds (nodes.set c (some ⟨.branch (children.set slot (some (.updated c')))
        oldValue, m'⟩) ++ more) old root (frames ++ [(c, .branch ts slot oldValue m')]) c'
        (ts slot).orEmpty := by
      have readNew : (nodes.set c (some ⟨.branch (children.set slot (some (.updated c'))) oldValue,
          m'⟩) ++ more)[c]? = some (some ⟨.branch (children.set slot (some (.updated c'))) oldValue,
          m'⟩) := by
        rw [List.getElem?_append_left (by simpa using inside)]
        simp [inside]
      have hole : (children.set slot (some (.updated c'))).get slot = some (.updated c') := by
        simp [Vector.get_eq_getElem]
      refine Holds.push_branch ctx (ctx.set_append_same distinct List.mem_cons_self _ _) readNew
        hole ?_ ?_ (descend_distinct distinct present fetched)
      · intro j other
        have untouched : (children.set slot (some (.updated c'))).get j = children.get j := by
          simp [Vector.get_eq_getElem, Fin.val_eq_val, Ne.symm other]
        rw [untouched]
        exact ((below j).set (notBelow j) _).append more
      · rw [← set_none_append_set _ _ (by simpa using inside)]
        exact childRep.set notHole _
    refine InsertStep.descend _ _ run holds' ?_ ?_
    · rw [NodeTree.insert, if_neg atKey]
      simp [memory, Frame.fill, slot]
    · have nonempty : partialKey.len ≠ 0 := by simpa [NibbleSlice.isEmpty] using atKey
      exact NodeTree.descend_lt _ 1 _ _ Nat.one_ne_zero (Nat.one_le_iff_ne_zero.mpr nonempty)
        (by rw [NodeTree.rank_orEmpty]; exact NodeTree.rank_le_one _)

theorem insertStep_leaf (deletes : backend.Deletes) (stores : backend.Stores value handle)
    {ext : List UInt8} {oldValue : V} (holds : Holds nodes old root frames c t)
    (read : nodes[c]? = some (some ⟨.leaf ext oldValue, m⟩)) :
    InsertStep backend old root value handle fuel c partialKey frames nodes inner t := by
  obtain ⟨ctxIds, ids, ctx, rep, distinct⟩ := holds
  have inside : c < nodes.length := (List.getElem?_eq_some_iff.mp read).1
  obtain ⟨rfl, rfl⟩ := rep.inv_leaf read
  have onPath : c ∈ [c] := List.mem_singleton_self c
  have unfolded : (NodeTree.leaf ext oldValue m).insert handle partialKey =
      let existingKey := (NibbleSlice.fromEncoded ext).1
      let commonPrefix := partialKey.commonPrefix existingKey
      if commonPrefix = existingKey.len ∧ commonPrefix = partialKey.len then
        .leaf ext handle (leafCost ext handle)
      else if commonPrefix = 0 then (NodeTree.leafToBranch ext oldValue).insert handle partialKey
      else
        let leafExt := (existingKey.mid commonPrefix).encoded true
        let newChild := (NodeTree.leaf leafExt oldValue (leafCost leafExt oldValue)).insert handle
          (partialKey.mid commonPrefix)
        let outerExt := partialKey.encodedLeftmost commonPrefix false
        .extension outerExt newChild (extensionCost outerExt + newChild.memoryUsage) := by
    rw [NodeTree.insert]
  by_cases same : partialKey.commonPrefix (NibbleSlice.fromEncoded ext).1 =
      (NibbleSlice.fromEncoded ext).1.len ∧
    partialKey.commonPrefix (NibbleSlice.fromEncoded ext).1 = partialKey.len
  · -- the key is the leaf's: replace its value
    obtain ⟨inner', run⟩ := insertLoop_leaf_same backend value fuel partialKey (frames.map Prod.fst) inner
      deletes stores read rfl same
    refine .stop run ?_
    rw [unfolded]
    dsimp only
    rw [if_pos same]
    exact Holds.set_leaf ctx distinct onPath inside _ _ _
  by_cases disjoint : partialKey.commonPrefix (NibbleSlice.fromEncoded ext).1 = 0
  · -- nothing shared: the leaf becomes a branch and the loop starts over at this node
    have restarted : (NodeTree.leafToBranch ext oldValue).insert handle partialKey =
        (NodeTree.leaf ext oldValue m).insert handle partialKey := by
      rw [unfolded]
      dsimp only
      rw [if_neg same, if_pos disjoint]
    have smaller : (NodeTree.leafToBranch ext oldValue).rank < (NodeTree.leaf ext oldValue m).rank := by
      rw [NodeTree.rank_leafToBranch]
      simp [NodeTree.rank]
    by_cases atKey : (NibbleSlice.fromEncoded ext).1.isEmpty = true
    · have converted : NodeTree.leafToBranch ext oldValue =
          .branch (fun _ => .none) (some oldValue) (branchCost (some oldValue)) := by
        simp [NodeTree.leafToBranch, atKey]
      refine InsertStep.restart _ (insertLoop_leaf_restart_empty backend value fuel partialKey
        (frames.map Prod.fst) inner read rfl same disjoint atKey) ?_ restarted smaller
      rw [converted]
      exact Holds.of_within ctx distinct (ctx.set_same distinct onPath _)
        (Rep.childless (by simp [inside])) (fun i member => .inl member)
    · have nonempty : (NibbleSlice.fromEncoded ext).1.isEmpty = false := by simpa using atKey
      have converted : NodeTree.leafToBranch ext oldValue =
          .branch (Function.update (fun _ => .none) ((NibbleSlice.fromEncoded ext).1.atIndex 0)
            (.leaf (((NibbleSlice.fromEncoded ext).1.mid 1).encoded true) oldValue
              (leafCost (((NibbleSlice.fromEncoded ext).1.mid 1).encoded true) oldValue)))
            none (branchCost (none : Option V) +
              leafCost (((NibbleSlice.fromEncoded ext).1.mid 1).encoded true) oldValue) := by
        simp [NodeTree.leafToBranch, nonempty]
      refine InsertStep.restart _ (insertLoop_leaf_restart backend value fuel partialKey
        (frames.map Prod.fst) inner read rfl same disjoint nonempty) ?_ restarted smaller
      rw [converted]
      refine Holds.of_within ctx distinct (ctx.set_append_same distinct onPath _ _)
        (Rep.single_child ?_ (show Rep _ old (some (.updated nodes.length)) _ _ from .leaf ?_)
          (by simpa using inside.ne)) ?_
      · simp [inside]
      · simp
      intro i member
      rcases List.mem_cons.mp member with rfl | inChild
      · exact .inl onPath
      · exact .inr (List.mem_singleton.mp (mem_childIds_single.mp inChild)).ge
  · -- a shared prefix: an extension over the leaf's rest, and descend into that leaf
    set existingKey := (NibbleSlice.fromEncoded ext).1
    set commonPrefix := partialKey.commonPrefix existingKey
    set outerExt := partialKey.encodedLeftmost commonPrefix false
    set leafExt := (existingKey.mid commonPrefix).encoded true
    refine InsertStep.descend (.extension outerExt (extensionCost outerExt))
      (.leaf leafExt oldValue (leafCost leafExt oldValue))
      (insertLoop_leaf_split backend value fuel partialKey (frames.map Prod.fst) inner
        read rfl same disjoint) ?_ ?_ ?_
    · exact Holds.push_extension ctx distinct onPath inside
        (ctx.set_append_same distinct onPath _ _) (by simp [inside, outerExt, commonPrefix, existingKey])
        (.leaf (by simp [leafExt, commonPrefix, existingKey]))
        (fun i member => .inr (by simp [List.mem_singleton.mp member]))
    · rw [unfolded]
      dsimp only
      rw [if_neg same, if_neg disjoint]
      simp [Frame.fill, outerExt, leafExt, commonPrefix, existingKey]
    · exact NodeTree.descend_lt _ _ _ _ disjoint (NodeTree.commonPrefix_le_len _ _)
        (NodeTree.rank_le_one _)

theorem insertStep_extension (reads : backend.Reads old) {ext : List UInt8}
    {oldChild : GenericNodeOrIndex N} (holds : Holds nodes old root frames c t)
    (read : nodes[c]? = some (some ⟨.extension ext oldChild, m⟩)) :
    InsertStep backend old root value handle fuel c partialKey frames nodes inner t := by
  obtain ⟨ctxIds, ids, ctx, rep, distinct⟩ := holds
  have inside : c < nodes.length := (List.getElem?_eq_some_iff.mp read).1
  have present : ∀ i ∈ ctxIds ++ ids, i < nodes.length := by
    intro i member
    rcases List.mem_append.mp member with inPath | inHole
    · exact ctx.lt_length inPath
    · exact rep.lt_length inHole
  obtain ⟨tc, cids, rfl, rfl, childRep, fresh⟩ := rep.inv_extension read
  have onPath : c ∈ c :: cids := List.mem_cons_self
  have childPresent : ∀ i ∈ cids, i < nodes.length := fun i member =>
    present i (List.mem_append_right _ (List.mem_cons_of_mem _ member))
  set existingKey := (NibbleSlice.fromEncoded ext).1
  set commonPrefix := partialKey.commonPrefix existingKey
  have unfolded : (NodeTree.extension ext tc m).insert handle partialKey =
      if commonPrefix = 0 then (NodeTree.extensionToBranch ext tc m).insert handle partialKey
      else if commonPrefix = existingKey.len then
        let newChild := tc.insert handle (partialKey.mid commonPrefix)
        .extension ext newChild (extensionCost ext + newChild.memoryUsage)
      else
        let innerExt := (existingKey.mid commonPrefix).encoded false
        let newChild := (NodeTree.extension innerExt tc
          (m - extensionCost ext + extensionCost innerExt)).insert handle (partialKey.mid commonPrefix)
        let outerExt := existingKey.encodedLeftmost commonPrefix false
        .extension outerExt newChild (extensionCost outerExt + newChild.memoryUsage) := by
    rw [NodeTree.insert]
  by_cases disjoint : commonPrefix = 0
  · -- nothing shared: the extension becomes a branch and the loop starts over at this node
    have restarted : (NodeTree.extensionToBranch ext tc m).insert handle partialKey =
        (NodeTree.extension ext tc m).insert handle partialKey := by
      rw [unfolded, if_pos disjoint]
    have smaller : (NodeTree.extensionToBranch ext tc m).rank < (NodeTree.extension ext tc m).rank := by
      rw [NodeTree.rank_extensionToBranch]
      simp [NodeTree.rank]
    by_cases single : existingKey.len = 1
    · have converted : NodeTree.extensionToBranch ext tc m =
          .branch (Function.update (fun _ => .none) (existingKey.atIndex 0) tc) none
            (branchCost (none : Option V) + (m - extensionCost ext)) := by
        have singleLen : (NibbleSlice.fromEncoded ext).1.nibbles.length = 1 := by
          simpa [existingKey] using single
        simp [NodeTree.extensionToBranch, singleLen, existingKey]
      refine InsertStep.restart _ (insertLoop_extension_restart_single backend value fuel partialKey
        (frames.map Prod.fst) inner read rfl disjoint single) ?_ restarted smaller
      rw [converted]
      refine Holds.of_within ctx distinct (ctx.set_same distinct onPath _)
        (Rep.single_child (by simp [inside, existingKey]) (childRep.set fresh _) fresh) ?_
      intro i member
      rcases List.mem_cons.mp member with rfl | inChild
      · exact .inl onPath
      · exact .inl (List.mem_cons_of_mem _ (mem_childIds_single.mp inChild))
    · have converted : NodeTree.extensionToBranch ext tc m =
          .branch (Function.update (fun _ => .none) (existingKey.atIndex 0)
            (.extension ((existingKey.mid 1).encoded false) tc
              (m - extensionCost ext + extensionCost ((existingKey.mid 1).encoded false))))
            none (branchCost (none : Option V) +
              (m - extensionCost ext + extensionCost ((existingKey.mid 1).encoded false))) := by
        have longer : (NibbleSlice.fromEncoded ext).1.nibbles.length ≠ 1 := by
          simpa [existingKey] using single
        simp [NodeTree.extensionToBranch, longer, existingKey]
      refine InsertStep.restart _ (insertLoop_extension_restart backend value fuel partialKey
        (frames.map Prod.fst) inner read rfl disjoint single) ?_ restarted smaller
      rw [converted]
      have notFresh : nodes.length ∉ cids := fun member => (childPresent _ member).false
      refine Holds.of_within ctx distinct (ctx.set_append_same distinct onPath _ _)
        (Rep.single_child ?_ (show Rep _ old (some (.updated nodes.length)) _ _ from
          .extension ?_ ((childRep.set fresh _).append _) notFresh) ?_) ?_
      · simp [inside, existingKey]
      · simp [existingKey]
      · simpa [inside.ne] using fresh
      intro i member
      rcases List.mem_cons.mp member with rfl | inChild
      · exact .inl onPath
      · rcases List.mem_cons.mp (mem_childIds_single.mp inChild) with rfl | below
        · exact .inr le_rfl
        · exact .inl (List.mem_cons_of_mem _ below)
  by_cases whole : commonPrefix = existingKey.len
  · -- the whole extension matches: descend into its child
    obtain ⟨c', more, inner₁, ids', found, childRep', fetched⟩ :=
      ensureUpdated_rep reads (childRep.set fresh none) inner
    rw [List.length_set] at fetched
    have inside₁ : c < (nodes.set c none ++ more).length := by simp; omega
    have run := insertLoop_extension_descend backend value fuel partialKey (frames.map Prod.fst)
      inner read rfl disjoint whole found inside₁
    rw [set_none_append_set _ _ (by simpa using inside)] at run
    have notHole : c ∉ ids' := by
      rcases fetched with rfl | ⟨-, rfl⟩
      · exact fresh
      · simpa using inside.ne
    refine InsertStep.descend (.extension ext (extensionCost ext)) tc run ?_ ?_ ?_
    · have childRep'' := childRep'.set notHole (some ⟨.extension ext (.updated c'), extensionCost ext⟩)
      rw [set_none_append_set _ _ (by simpa using inside)] at childRep''
      refine Holds.push_extension ctx distinct onPath inside
        (ctx.set_append_same distinct onPath _ _) (by simp [inside]) childRep'' ?_
      · intro i member
        rcases fetched with rfl | ⟨-, rfl⟩
        · exact .inl ⟨List.mem_cons_of_mem _ member, fun same => fresh (same ▸ member)⟩
        · exact .inr (List.mem_singleton.mp member).ge
    · rw [unfolded, if_neg disjoint, if_pos whole]
      simp [Frame.fill, commonPrefix, existingKey]
    · exact NodeTree.descend_lt _ _ _ _ disjoint (NodeTree.commonPrefix_le_len _ _)
        (NodeTree.rank_le_one _)
  · -- a part matches: a shorter extension over the rest, and descend into the rest
    set innerExt := (existingKey.mid commonPrefix).encoded false
    set outerExt := existingKey.encodedLeftmost commonPrefix false
    have notFresh : nodes.length ∉ cids := fun member => (childPresent _ member).false
    refine InsertStep.descend (.extension outerExt (extensionCost outerExt))
      (.extension innerExt tc (m - extensionCost ext + extensionCost innerExt))
      (insertLoop_extension_split backend value fuel partialKey (frames.map Prod.fst) inner
        read rfl disjoint whole) ?_ ?_ ?_
    · refine Holds.push_extension ctx distinct onPath inside
        (ctx.set_append_same distinct onPath _ _)
        (by simp [inside, outerExt, commonPrefix, existingKey])
        (.extension (by simp [innerExt, commonPrefix, existingKey])
          ((childRep.set fresh _).append _) notFresh) ?_
      intro i member
      rcases List.mem_cons.mp member with rfl | below
      · exact .inr le_rfl
      · exact .inl ⟨List.mem_cons_of_mem _ below, fun same => fresh (same ▸ below)⟩
    · rw [unfolded, if_neg disjoint, if_neg whole]
      simp [Frame.fill, innerExt, outerExt, commonPrefix, existingKey]
    · exact NodeTree.descend_lt _ _ _ _ disjoint (NodeTree.commonPrefix_le_len _ _)
        (NodeTree.rank_le_one _)

/-- One iteration, from any state that holds a tree at the hole. -/
theorem insertStep (reads : backend.Reads old) (deletes : backend.Deletes)
    (stores : backend.Stores value handle) (holds : Holds nodes old root frames c t) :
    InsertStep backend old root value handle fuel c partialKey frames nodes inner t := by
  obtain ⟨node, read⟩ := holds.read_hole
  cases node with
  | empty => exact insertStep_empty stores holds read
  | leaf => exact insertStep_leaf deletes stores holds read
  | extension => exact insertStep_extension reads holds read
  | branch => exact insertStep_branch reads deletes stores holds read

/-- The run lemma: from a state holding `t` at the hole, with more fuel than the measure, the
loop returns the path to the node that took the value, and the frames it pushed plug the
final hole's tree into `t.insert`. -/
theorem insertLoop_run (reads : backend.Reads old) (deletes : backend.Deletes)
    (stores : backend.Stores value handle) (fuel : Nat) :
    ∀ (partialKey : NibbleSlice) {c frames nodes inner t}, Holds nodes old root frames c t →
      2 * partialKey.len + t.rank < fuel →
      ∃ frames' last t' nodes' inner',
        insertLoop backend value fuel c partialKey (frames.map Prod.fst) ⟨nodes, inner⟩ =
          .ok ((frames ++ frames').map Prod.fst ++ [last], ⟨nodes', inner'⟩) ∧
        Holds nodes' old root (frames ++ frames') last t' ∧ plug frames' t' = t.insert handle partialKey := by
  induction fuel with
  | zero => intro _ _ _ _ _ _ _ bound; omega
  | succ fuel ih =>
    intro partialKey c frames nodes inner t holds bound
    have step : InsertStep backend old root value handle fuel c partialKey frames nodes inner t :=
      insertStep reads deletes stores holds
    cases step with
    | stop run holds' => exact ⟨[], c, _, _, _, by simpa using run, by simpa using holds', rfl⟩
    | @next frames₁ _ partialKey' _ _ _ run holds' plugs smaller =>
      obtain ⟨frames', last, t', nodes', inner', run', holds'', plugs'⟩ :=
        ih partialKey' holds' (by omega)
      refine ⟨frames₁ ++ frames', last, t', nodes', inner', ?_, ?_, ?_⟩
      · rw [run, run', List.append_assoc]
      · rwa [← List.append_assoc]
      · rw [plug_append, plugs', plugs]

end Step

/-! The fix-up: bottom-up along the path, each node gets its child's memory usage added. -/

section FixUp

variable {old : N → Option (GenericTrieNodeWithSize N V)} {root : Nat}

omit [HasValueLength V] in
theorem fixMemoryUsages_cons {nodes : UpdatedNodes N V} {inner : σ} {childId nodeId m : Nat}
    {rest : List Nat} {childNode : GenericUpdatedTrieNodeWithSize N V}
    {node : GenericUpdatedTrieNode N V} (childRead : nodes[childId]? = some (some childNode))
    (read : nodes[nodeId]? = some (some ⟨node, m⟩)) :
    fixMemoryUsages (childId :: nodeId :: rest) ⟨nodes, inner⟩ =
      fixMemoryUsages (nodeId :: rest)
        ⟨nodes.set nodeId (some ⟨node, m + childNode.memoryUsage⟩), inner⟩ := by
  have inside : nodeId < nodes.length := (List.getElem?_eq_some_iff.mp read).1
  rw [fixMemoryUsages, StateT.bind_apply_of_ok (getNodeRef_of_read _ _ childRead),
    StateT.bind_apply_of_ok (takeNode_of_read _ _ read),
    StateT.bind_apply_of_ok (placeNodeAt_of_lt _ _ _ (by simpa using inside)), List.set_set]

omit [HasValueLength V] in
/-- The fix-up over the path of a state holding `t` below `frames` leaves the root holding
`plug frames t`. -/
theorem fixMemoryUsages_run (frames : List (Nat × Frame V)) :
    ∀ {nodes : UpdatedNodes N V} {inner : σ} {last : Nat} {t : NodeTree V},
      Holds nodes old root frames last t →
      ∃ nodes', fixMemoryUsages (frames.map Prod.fst ++ [last]).reverse ⟨nodes, inner⟩ =
          .ok ((), ⟨nodes', inner⟩) ∧ Holds nodes' old root [] root (plug frames t) := by
  induction frames using List.reverseRecOn with
  | nil =>
    intro nodes inner last t holds
    obtain ⟨rfl, -⟩ := holds.at_root
    exact ⟨nodes, rfl, holds⟩
  | append_singleton frames frame ih =>
    intro nodes inner last t holds
    obtain ⟨a, f⟩ := frame
    obtain ⟨childNode, childRead⟩ := holds.read_hole
    obtain ⟨node, m, read, holds'⟩ := holds.pop
    obtain ⟨nodes', run, root'⟩ := ih holds'
    refine ⟨nodes', ?_, by simpa [plug_append] using root'⟩
    simp only [List.map_append, List.map_cons, List.map_nil, List.reverse_append,
      List.reverse_cons, List.reverse_nil, List.nil_append, List.cons_append]
    rw [fixMemoryUsages_cons childRead read]
    simpa using run

end FixUp

/-- `generic_insert` refines `NodeTree.insert`: from a root that stands for `t`, it stands for
`t.insert` afterwards, with every memory usage fixed up. -/
theorem genericInsert_rep {old : N → Option (GenericTrieNodeWithSize N V)} {value : GenericTrieValue}
    {handle : V} (reads : backend.Reads old) (deletes : backend.Deletes)
    (stores : backend.Stores value handle) {nodes : UpdatedNodes N V} {root : Nat} {t : NodeTree V}
    {ids : List Nat} (rep : Rep nodes old (some (.updated root)) t ids) (key : List UInt8)
    (inner : σ) :
    ∃ nodes' inner' ids', genericInsert backend root key value ⟨nodes, inner⟩ =
        .ok ((), ⟨nodes', inner'⟩) ∧
      Rep nodes' old (some (.updated root)) (t.insert handle (NibbleSlice.new key)) ids' := by
  have bound : 2 * (NibbleSlice.new key).len + t.rank < 2 * (NibbleSlice.new key).len + 2 := by
    have := NodeTree.rank_le_one t
    omega
  obtain ⟨frames', last, t', nodes', inner', run, holds, plugs⟩ :=
    insertLoop_run reads deletes stores _ _ (Holds.start rep) bound
  obtain ⟨nodes'', fixed, root'⟩ := fixMemoryUsages_run frames' (by simpa using holds)
  obtain ⟨-, ids', rep'⟩ := root'.at_root
  refine ⟨nodes'', inner', ids', ?_, plugs ▸ rep'⟩
  rw [genericInsert, StateT.bind_apply_of_ok (by simpa using run)]
  exact fixed


end Nearcore
