import Nearcore.Trie.DeleteRun

/-! `generic_delete` refines `NodeTree.delete`. One iteration of the loop keeps `Holds` and
leaves a rest of `NodeTree.delete` that the pass back up the path completes: each node on the
path is filled with its child's memory usage and, if the key was deleted, squashed. -/
namespace Nearcore

variable {σ N V : Type} [HasValueLength V] {backend : Backend σ N V}

/-- A node on the path once the pass has reached it: filled with its child's memory usage,
and squashed if the key was deleted. -/
def Frame.squashFill (keyDeleted : Bool) (frame : Frame V) (t : NodeTree V) : NodeTree V :=
  let filled := frame.fill t t.memoryUsage
  if keyDeleted then filled.squash else filled

section
attribute [local simp] Frame.squashFill
end

/-- The tree at the top of `frames` once the pass has gone up through them. -/
def squashUp (keyDeleted : Bool) (frames : List (Nat × Frame V)) (t : NodeTree V) : NodeTree V :=
  frames.foldr (fun frame t => frame.2.squashFill keyDeleted t) t

section
attribute [local simp] squashUp
end

/-- No extension has an empty key, so the deletion loop consumes a nibble at each step. -/
def NodeTree.NonemptyExtensions : NodeTree V → Prop
  | .extension ext child _ => (NibbleSlice.fromEncoded ext).1.len ≠ 0 ∧ child.NonemptyExtensions
  | .branch ts _ _ => ∀ j, (ts j).NonemptyExtensions
  | _ => True

section
attribute [local simp] NodeTree.NonemptyExtensions
end

omit [HasValueLength V] in
theorem Frame.fill_ne_leaf (frame : Frame V) (t : NodeTree V) (extra : Nat) :
    ∀ ext value m, frame.fill t extra ≠ .leaf ext value m := by
  intro ext value m
  cases frame <;> simp [Frame.fill]

@[simp] theorem squashUp_nil (keyDeleted : Bool) (t : NodeTree V) : squashUp keyDeleted [] t = t := rfl

theorem squashUp_append (keyDeleted : Bool) (frames more : List (Nat × Frame V)) (t : NodeTree V) :
    squashUp keyDeleted (frames ++ more) t = squashUp keyDeleted frames (squashUp keyDeleted more t) := by
  simp [squashUp, List.foldr_append]

/-- What one iteration of the deletion loop does from a state that holds `t` at the hole
`c`: it stops with the tree `tb` at the hole, or it descends, pushing one frame. Either way
what is left of `t.delete` is the pass over what was pushed. -/
inductive DeleteStep (backend : Backend σ N V) (old : N → Option (GenericTrieNodeWithSize N V))
    (root fuel c : Nat) (partialKey : NibbleSlice) (frames : List (Nat × Frame V))
    (nodes : UpdatedNodes N V) (inner : σ) (t : NodeTree V) : Prop
  | stop {nodes' : UpdatedNodes N V} {inner' : σ} {keyDeleted : Bool} {tb : NodeTree V}
      (run : deleteLoop backend (fuel + 1) c partialKey (frames.map Prod.fst) ⟨nodes, inner⟩ =
        .ok ((frames.map Prod.fst ++ [c], keyDeleted), ⟨nodes', inner'⟩))
      (holds : Holds nodes' old root frames c tb)
      (squashable : keyDeleted = true → ∀ ext value m, tb ≠ .leaf ext value m)
      (result : t.delete partialKey = (if keyDeleted then tb.squash else tb, keyDeleted))
  | descend (frame : Frame V) (t₁ : NodeTree V) {c' : Nat} {partialKey' : NibbleSlice}
      {nodes' : UpdatedNodes N V} {inner' : σ}
      (run : deleteLoop backend (fuel + 1) c partialKey (frames.map Prod.fst) ⟨nodes, inner⟩ =
        deleteLoop backend fuel c' partialKey' (frames.map Prod.fst ++ [c]) ⟨nodes', inner'⟩)
      (holds : Holds nodes' old root (frames ++ [(c, frame)]) c' t₁)
      (result : t.delete partialKey = (frame.squashFill (t₁.delete partialKey').2
        (t₁.delete partialKey').1, (t₁.delete partialKey').2))
      (smaller : partialKey'.len < partialKey.len)
      (wellFormed : t₁.NonemptyExtensions)

section Step

variable {old : N → Option (GenericTrieNodeWithSize N V)} {root fuel c m : Nat}
  {partialKey : NibbleSlice} {frames : List (Nat × Frame V)} {nodes : UpdatedNodes N V}
  {inner : σ} {t : NodeTree V}

omit [HasValueLength V] in
/-- The node the loop leaves empty. -/
theorem Rep.set_empty (inside : c < nodes.length) :
    Rep (nodes.set c (some .empty)) old (some (.updated c)) (.empty 0) [c] :=
  .empty (by simp [inside])

/-- A step that changes nothing and finds nothing to delete. -/
theorem DeleteStep.unchanged
    (run : deleteLoop backend (fuel + 1) c partialKey (frames.map Prod.fst) ⟨nodes, inner⟩ =
      .ok ((frames.map Prod.fst ++ [c], false), ⟨nodes, inner⟩))
    (holds : Holds nodes old root frames c t) (result : t.delete partialKey = (t, false)) :
    DeleteStep backend old root fuel c partialKey frames nodes inner t :=
  .stop run holds (by simp) (by simpa using result)

theorem deleteStep_empty (holds : Holds nodes old root frames c t)
    (read : nodes[c]? = some (some ⟨.empty, m⟩)) :
    DeleteStep backend old root fuel c partialKey frames nodes inner t := by
  obtain ⟨ctxIds, ids, ctx, rep, distinct⟩ := holds
  have inside : c < nodes.length := (List.getElem?_eq_some_iff.mp read).1
  obtain ⟨rfl, rfl⟩ := rep.inv_empty read
  refine .stop (deleteLoop_empty backend fuel partialKey _ inner read)
    (Holds.of_within ctx distinct (ctx.set_same distinct (List.mem_singleton_self c) _)
      (Rep.set_empty inside) (by simp)) (by simp) ?_
  simp [NodeTree.delete]

theorem deleteStep_leaf (deletes : backend.Deletes) {ext : List UInt8} {value : V}
    (holds : Holds nodes old root frames c t)
    (read : nodes[c]? = some (some ⟨.leaf ext value, m⟩)) :
    DeleteStep backend old root fuel c partialKey frames nodes inner t := by
  obtain ⟨ctxIds, ids, ctx, rep, distinct⟩ := holds
  have inside : c < nodes.length := (List.getElem?_eq_some_iff.mp read).1
  obtain ⟨rfl, rfl⟩ := rep.inv_leaf read
  by_cases found : ((NibbleSlice.fromEncoded ext).1 == partialKey) = true
  · -- the key is the leaf's: the leaf becomes empty
    obtain ⟨inner', run⟩ := deleteLoop_leaf_found backend fuel partialKey (frames.map Prod.fst) inner
      deletes read found
    refine .stop run (Holds.of_within ctx distinct
      (ctx.set_same distinct (List.mem_singleton_self c) _) (Rep.set_empty inside) (by simp))
      (fun _ _ _ _ => by simp at *) ?_
    simp [NodeTree.delete, found, NodeTree.squash]
  · have other : ((NibbleSlice.fromEncoded ext).1 == partialKey) = false := by simpa using found
    exact .unchanged (deleteLoop_leaf_other backend fuel partialKey _ inner read other)
      ⟨ctxIds, _, ctx, rep, distinct⟩ (by simp [NodeTree.delete, other])

theorem deleteStep_branch (reads : backend.Reads old) (deletes : backend.Deletes)
    {children : Vector (Option (GenericNodeOrIndex N)) 16} {value : Option V}
    (holds : Holds nodes old root frames c t) (wellFormed : t.NonemptyExtensions)
    (read : nodes[c]? = some (some ⟨.branch children value, m⟩)) :
    DeleteStep backend old root fuel c partialKey frames nodes inner t := by
  obtain ⟨ctxIds, ids, ctx, rep, distinct⟩ := holds
  have inside : c < nodes.length := (List.getElem?_eq_some_iff.mp read).1
  have present : ∀ i ∈ ctxIds ++ ids, i < nodes.length := by
    intro i member
    rcases List.mem_append.mp member with inPath | inHole
    · exact ctx.lt_length inPath
    · exact rep.lt_length inHole
  have holds : Holds nodes old root frames c t := ⟨ctxIds, ids, ctx, rep, distinct⟩
  obtain ⟨ts, cids, rfl, rfl, below, pathDistinct⟩ := rep.inv_branch read
  have notBelow : ∀ j, c ∉ cids j := fun j member =>
    (List.nodup_cons.mp pathDistinct).1 (mem_childIds.mpr ⟨j, member⟩)
  by_cases atKey : partialKey.isEmpty = true
  · cases value with
    | none =>
      exact .unchanged (deleteLoop_branch_absent backend fuel partialKey _ inner read atKey) holds
        (by simp [NodeTree.delete, atKey])
    | some value =>
      -- the value goes; the pass squashes the branch
      obtain ⟨inner', run⟩ := deleteLoop_branch_value backend fuel partialKey (frames.map Prod.fst)
        inner deletes read atKey
      have rep' : Rep (nodes.set c (some ⟨.branch children none,
          saturatingAdd (m - branchCost (some value)) (branchCost (none : Option V)) - 0⟩)) old
          (some (.updated c)) (.branch ts none
            (saturatingAdd (m - branchCost (some value)) (branchCost (none : Option V)) - 0))
          (c :: childIds cids) :=
        .branch (by simp [inside]) (fun j => (below j).set (notBelow j) _) pathDistinct
      refine .stop run (Holds.of_within ctx distinct
        (ctx.set_same distinct List.mem_cons_self _) rep' (fun i member => .inl member))
        (fun _ _ _ _ => by simp at *) ?_
      simp [NodeTree.delete, atKey, NodeTree.squash]
  have descends : partialKey.isEmpty = false := by simpa using atKey
  have nonempty : partialKey.len ≠ 0 := by simpa [NibbleSlice.isEmpty] using atKey
  rcases slot : children[partialKey.atIndex 0] with _ | ptr
  · -- no child there: nothing to delete
    have missing : (ts (partialKey.atIndex 0)).isNone = true := by
      have absent := (below (partialKey.atIndex 0)).isSome_eq
      rw [slot] at absent
      cases tree : ts (partialKey.atIndex 0) <;> simp_all [NodeTree.toOption, NodeTree.isNone]
    exact .unchanged (deleteLoop_branch_missing backend fuel partialKey _ inner read descends slot)
      holds (by simp [NodeTree.delete, descends, missing])
  · -- descend into the child
    have childRep := (below (partialKey.atIndex 0)).set (notBelow _) none
    rw [slot] at childRep
    obtain ⟨c', more, inner₁, ids', found, childRep', fetched⟩ := ensureUpdated_rep reads childRep inner
    rw [List.length_set] at fetched
    obtain ⟨childNode, childRead⟩ := childRep'.read_updated
    have inside₁ : c < (nodes.set c none ++ more).length := by simp; omega
    have run := deleteLoop_branch_descend backend fuel partialKey (frames.map Prod.fst) inner read
      descends slot found childRead inside₁
    rw [set_none_append_set _ _ (by simpa using inside)] at run
    have notHole : c ∉ ids' := by
      rcases fetched with rfl | ⟨-, rfl⟩
      · exact notBelow _
      · simpa using inside.ne
    set idx := partialKey.atIndex 0
    set mStored := saturatingAdd (m - branchCost value) (branchCost value) - (ts idx).memoryUsage
    refine .descend (.branch ts idx value mStored) (ts idx) run ?_ ?_ ?_ (wellFormed idx)
    · have readNew : (nodes.set c (some ⟨.branch (children.set idx (some (.updated c'))) value,
          mStored⟩) ++ more)[c]? = some (some ⟨.branch (children.set idx (some (.updated c')))
          value, mStored⟩) := by simp [inside]
      have hole : (children.set idx (some (.updated c'))).get idx = some (.updated c') := by
        simp [Vector.get_eq_getElem]
      refine Holds.push_branch ctx (ctx.set_append_same distinct List.mem_cons_self _ _) readNew
        hole ?_ ?_ (descend_distinct distinct present fetched)
      · intro j other
        have untouched : (children.set idx (some (.updated c'))).get j = children.get j := by
          simp [Vector.get_eq_getElem, Fin.val_eq_val, Ne.symm other]
        rw [untouched]
        exact ((below j).set (notBelow j) _).append more
      · rw [← set_none_append_set _ _ (by simpa using inside)]
        exact childRep'.set notHole _
    · have present' : (ts idx).isNone = false := by
        have := childRep.isSome_eq
        cases tree : ts idx <;> simp_all [NodeTree.toOption, NodeTree.isNone]
      simp only [NodeTree.delete, descends, present', Frame.squashFill, Frame.fill, mStored, idx]
      cases (NodeTree.delete (ts (partialKey.atIndex 0)) (partialKey.mid 1)).2 <;> simp [NodeTree.squash]
    · simp only [NibbleSlice.len_eq, NibbleSlice.nibbles_mid, List.length_drop] at nonempty ⊢
      omega

theorem deleteStep_extension (reads : backend.Reads old) {ext : List UInt8}
    {child : GenericNodeOrIndex N} (holds : Holds nodes old root frames c t)
    (wellFormed : t.NonemptyExtensions)
    (read : nodes[c]? = some (some ⟨.extension ext child, m⟩)) :
    DeleteStep backend old root fuel c partialKey frames nodes inner t := by
  obtain ⟨ctxIds, ids, ctx, rep, distinct⟩ := holds
  have inside : c < nodes.length := (List.getElem?_eq_some_iff.mp read).1
  have holds : Holds nodes old root frames c t := ⟨ctxIds, ids, ctx, rep, distinct⟩
  obtain ⟨tc, cids, rfl, rfl, childRep, fresh⟩ := rep.inv_extension read
  obtain ⟨nonemptyKey, childWellFormed⟩ := wellFormed
  have onPath : c ∈ c :: cids := List.mem_cons_self
  by_cases whole : (NibbleSlice.fromEncoded ext).1.commonPrefix partialKey =
      (NibbleSlice.fromEncoded ext).1.len
  · -- the whole extension is on the key: descend into its child
    obtain ⟨c', more, inner₁, ids', found, childRep', fetched⟩ :=
      ensureUpdated_rep reads (childRep.set fresh none) inner
    rw [List.length_set] at fetched
    obtain ⟨childNode, childRead⟩ := childRep'.read_updated
    have inside₁ : c < (nodes.set c none ++ more).length := by simp; omega
    have run := deleteLoop_extension_descend backend fuel partialKey (frames.map Prod.fst) inner
      read whole found childRead inside₁
    rw [set_none_append_set _ _ (by simpa using inside)] at run
    have notHole : c ∉ ids' := by
      rcases fetched with rfl | ⟨-, rfl⟩
      · exact fresh
      · simpa using inside.ne
    set mStored := saturatingAdd (m - extensionCost ext) (extensionCost ext) - tc.memoryUsage
    refine .descend (.extension ext mStored) tc run ?_ ?_ ?_ childWellFormed
    · have childRep'' := childRep'.set notHole (some ⟨.extension ext (.updated c'), mStored⟩)
      rw [set_none_append_set _ _ (by simpa using inside)] at childRep''
      refine Holds.push_extension ctx distinct onPath inside
        (ctx.set_append_same distinct onPath _ _) (by simp [inside]) childRep'' ?_
      intro i member
      rcases fetched with rfl | ⟨-, rfl⟩
      · exact .inl ⟨List.mem_cons_of_mem _ member, fun same => fresh (same ▸ member)⟩
      · exact .inr (List.mem_singleton.mp member).ge
    · simp only [NodeTree.delete, whole, Frame.squashFill, Frame.fill, mStored, if_true]
      cases (NodeTree.delete tc (partialKey.mid (NibbleSlice.fromEncoded ext).1.len)).2 <;>
        simp [NodeTree.squash]
    · have bound := List.commonPrefixLength_le_right (NibbleSlice.fromEncoded ext).1.nibbles
        partialKey.nibbles
      rw [NibbleSlice.commonPrefix_eq] at whole
      simp only [NibbleSlice.len_eq, NibbleSlice.nibbles_mid, List.length_drop] at nonemptyKey whole ⊢
      omega
  · exact .unchanged (deleteLoop_extension_other backend fuel partialKey _ inner read whole) holds
      (by simp only [NodeTree.delete]; rw [if_neg whole])

/-- One iteration, from any state that holds a tree without empty extensions at the hole. -/
theorem deleteStep (reads : backend.Reads old) (deletes : backend.Deletes)
    (holds : Holds nodes old root frames c t) (wellFormed : t.NonemptyExtensions) :
    DeleteStep backend old root fuel c partialKey frames nodes inner t := by
  obtain ⟨node, read⟩ := holds.read_hole
  cases node with
  | empty => exact deleteStep_empty holds read
  | leaf => exact deleteStep_leaf deletes holds read
  | extension => exact deleteStep_extension reads holds wellFormed read
  | branch => exact deleteStep_branch reads deletes holds wellFormed read

end Step

section Run

variable {old : N → Option (GenericTrieNodeWithSize N V)} {root : Nat}

/-- The whole loop, by induction on the fuel: with more fuel than the key has nibbles it
stops at a node `c'` under the frames `more` it pushed, and the pass over them completes
`t.delete`. -/
theorem deleteLoop_run (reads : backend.Reads old) (deletes : backend.Deletes) (fuel : Nat) :
    ∀ (partialKey : NibbleSlice) {c : Nat} {frames : List (Nat × Frame V)}
      {nodes : UpdatedNodes N V} {inner : σ} {t : NodeTree V},
      partialKey.len < fuel → Holds nodes old root frames c t → t.NonemptyExtensions →
      ∃ more c' nodes' inner' keyDeleted tb,
        deleteLoop backend fuel c partialKey (frames.map Prod.fst) ⟨nodes, inner⟩ =
          .ok (((frames ++ more).map Prod.fst ++ [c'], keyDeleted), ⟨nodes', inner'⟩) ∧
        Holds nodes' old root (frames ++ more) c' tb ∧
        (keyDeleted = true → ∀ ext value m, tb ≠ .leaf ext value m) ∧
        t.delete partialKey =
          (squashUp keyDeleted more (if keyDeleted then tb.squash else tb), keyDeleted) := by
  induction fuel with
  | zero => intro partialKey c frames nodes inner t enough; omega
  | succ fuel ih =>
    intro partialKey c frames nodes inner t enough holds wellFormed
    have step : DeleteStep backend old root fuel c partialKey frames nodes inner t :=
      deleteStep reads deletes holds wellFormed
    cases step with
    | stop run holds' squashable result =>
      exact ⟨[], c, _, _, _, _, by simpa using run, by simpa using holds', squashable,
        by simpa using result⟩
    | descend frame t₁ run holds' result smaller wellFormed₁ =>
      obtain ⟨more, c', nodes', inner', keyDeleted, tb, run', holds'', squashable, result'⟩ :=
        ih _ (lt_of_lt_of_le smaller (Nat.lt_succ_iff.mp enough)) holds' wellFormed₁
      refine ⟨(c, frame) :: more, c', nodes', inner', keyDeleted, tb, ?_, ?_, squashable, ?_⟩
      · rw [run]
        simpa using run'
      · simpa using holds''
      · rw [result, result']
        rfl

/-- One node of the pass: it gets `childMemoryUsage` added and is squashed if the key was
deleted, and the pass goes on with its memory usage. -/
theorem squashPath_step (reads : backend.Reads old) (keyDeleted : Bool) {a : Nat}
    {frames : List (Nat × Frame V)} {nodes : UpdatedNodes N V} {node : GenericUpdatedTrieNode N V}
    {m childMemoryUsage : Nat} {t : NodeTree V} (read : nodes[a]? = some (some ⟨node, m⟩))
    (holds : Holds (nodes.set a (some ⟨node, m + childMemoryUsage⟩)) old root frames a t)
    (squashable : keyDeleted = true → ∀ ext value m, t ≠ .leaf ext value m)
    (rest : List Nat) (inner : σ) :
    ∃ nodes' inner', squashPath backend keyDeleted (a :: rest) childMemoryUsage ⟨nodes, inner⟩ =
        squashPath backend keyDeleted rest (if keyDeleted then t.squash else t).memoryUsage
          ⟨nodes', inner'⟩ ∧
      Holds nodes' old root frames a (if keyDeleted then t.squash else t) := by
  have inside : a < nodes.length := (List.getElem?_eq_some_iff.mp read).1
  rw [squashPath, StateT.bind_apply_of_ok (takeNode_of_read _ _ read)]
  dsimp only
  rw [StateT.bind_apply_of_ok (placeNodeAt_of_lt _ _ _ (by simpa using inside)), List.set_set]
  cases keyDeleted with
  | false =>
    obtain ⟨node', read'⟩ := holds.read_hole
    refine ⟨_, inner, ?_, holds⟩
    rw [if_neg (by simp), StateT.bind_apply_of_ok (getNodeRef_of_read _ _ read')]
    rfl
  | true =>
    obtain ⟨nodes', inner', run, holds'⟩ := squashNode_holds reads holds (squashable rfl) inner
    obtain ⟨node', read'⟩ := holds'.read_hole
    refine ⟨nodes', inner', ?_, holds'⟩
    rw [if_pos rfl, StateT.bind_apply_of_ok run, StateT.bind_apply_of_ok (getNodeRef_of_read _ _ read')]
    rfl

/-- The pass over the frames, by induction on them from the bottom: it leaves the root
standing for what the frames make of `t`. -/
theorem squashPath_run (reads : backend.Reads old) (keyDeleted : Bool)
    (frames : List (Nat × Frame V)) :
    ∀ {a : Nat} {nodes : UpdatedNodes N V} {inner : σ} {t : NodeTree V},
      Holds nodes old root frames a t →
      ∃ nodes' inner', squashPath backend keyDeleted (frames.map Prod.fst).reverse t.memoryUsage
          ⟨nodes, inner⟩ = .ok ((), ⟨nodes', inner'⟩) ∧
        Holds nodes' old root [] root (squashUp keyDeleted frames t) := by
  induction frames using List.reverseRecOn with
  | nil =>
    intro a nodes inner t holds
    obtain ⟨rfl, -⟩ := holds.at_root
    exact ⟨nodes, inner, rfl, holds⟩
  | append_singleton frames frame ih =>
    intro a nodes inner t holds
    obtain ⟨b, f⟩ := frame
    obtain ⟨node, m, read, popped⟩ := holds.pop
    -- a node on the path is filled, so never a leaf, and may be squashed
    obtain ⟨nodes₁, inner₁, step, holds₁⟩ := squashPath_step reads keyDeleted read popped
      (fun _ => f.fill_ne_leaf t _) ((frames.map Prod.fst).reverse) inner
    obtain ⟨nodes', inner', rest, holds'⟩ := ih holds₁
    refine ⟨nodes', inner', ?_, ?_⟩
    · simp only [List.map_append, List.map_singleton, List.reverse_append, List.reverse_singleton,
        List.singleton_append]
      rw [step]
      exact rest
    · rw [squashUp_append]
      exact holds'

/-- `generic_delete` refines `NodeTree.delete`: from a root that stands for `t`, in which no
extension has an empty key, it leaves the root standing for `(t.delete key).1`. -/
theorem genericDelete_rep (reads : backend.Reads old) (deletes : backend.Deletes)
    {nodes : UpdatedNodes N V} {t : NodeTree V} {ids : List Nat}
    (rep : Rep nodes old (some (.updated root)) t ids) (wellFormed : t.NonemptyExtensions)
    (key : List UInt8) (inner : σ) :
    ∃ nodes' inner' ids', genericDelete backend root key ⟨nodes, inner⟩ = .ok ((), ⟨nodes', inner'⟩) ∧
      Rep nodes' old (some (.updated root)) (t.delete (NibbleSlice.new key)).1 ids' := by
  obtain ⟨more, c', nodes₁, inner₁, keyDeleted, tb, run, holds, squashable, result⟩ :=
    deleteLoop_run reads deletes _ (NibbleSlice.new key) (Nat.lt_succ_self _) (Holds.start rep)
      wellFormed
  simp only [List.map_nil, List.nil_append] at run holds
  -- the pass starts at the bottom node with nothing to add
  obtain ⟨node, read⟩ := holds.read_hole
  have unchanged : Holds (nodes₁.set c' (some ⟨node, tb.memoryUsage + 0⟩)) old root more c' tb := by
    rwa [Nat.add_zero, set_of_read read]
  obtain ⟨nodes₂, inner₂, bottom, holds₂⟩ := squashPath_step reads keyDeleted read unchanged
    squashable ((more.map Prod.fst).reverse) inner₁
  obtain ⟨nodes', inner', top, holds'⟩ := squashPath_run reads keyDeleted more holds₂
  obtain ⟨-, ids', rep'⟩ := holds'.at_root
  refine ⟨nodes', inner', ids', ?_, by rw [result]; exact rep'⟩
  rw [genericDelete, StateT.bind_apply_of_ok run]
  simp only [List.reverse_append, List.reverse_singleton, List.singleton_append]
  rw [bottom, top]

end Run

end Nearcore
