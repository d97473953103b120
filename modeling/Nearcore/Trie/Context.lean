import Nearcore.Trie.NodeTree

/-! Contexts: the path of updated nodes from the root down to the node the update code is
working on, with what hangs off the path beside it. `Holds nodes old root frames hole t`
says the updated nodes hold the tree `plug frames t`, with `t` at `hole`; the lemmas below
are the moves the update loops make on it: replace the tree at the hole, or step down into
one of its children. -/
namespace Nearcore

section Context

variable {N V : Type} {nodes nodes' : UpdatedNodes N V}
  {old : N → Option (GenericTrieNodeWithSize N V)}

/-! Contexts: the path from the root to the node being worked on. -/

/-- A node on the path, with its hole where the path goes on. -/
inductive Frame (V : Type) where
  | branch (children : Fin 16 → NodeTree V) (slot : Fin 16) (value : Option V) (memoryUsage : Nat)
  | extension (ext : List UInt8) (memoryUsage : Nat)

/-- The frame's node with `t` in the hole and `extra` added to its memory usage. -/
def Frame.fill : Frame V → NodeTree V → Nat → NodeTree V
  | .branch ts slot value memoryUsage, t, extra =>
    .branch (Function.update ts slot t) value (memoryUsage + extra)
  | .extension ext memoryUsage, t, extra => .extension ext t (memoryUsage + extra)

section
attribute [local simp] Frame.fill
end

/-- The tree once each node on the path has the memory usage of its child added. -/
def plug (frames : List (Nat × Frame V)) (t : NodeTree V) : NodeTree V :=
  frames.foldr (fun frame t => frame.2.fill t t.memoryUsage) t

section
attribute [local simp] plug
end

@[simp] theorem plug_nil (t : NodeTree V) : plug [] t = t := rfl

theorem plug_append (frames more : List (Nat × Frame V)) (t : NodeTree V) :
    plug (frames ++ more) t = plug frames (plug more t) := by
  simp [plug, List.foldr_append]

@[simp] theorem plug_cons (frame : Nat × Frame V) (frames : List (Nat × Frame V))
    (t : NodeTree V) :
    plug (frame :: frames) t = frame.2.fill (plug frames t) (plug frames t).memoryUsage := rfl

/-- The path from `root` to the hole `hole` runs through the updated nodes `frames`, whose
other subtrees together with the path use the ids `ids`, each once. -/
inductive CtxRep (nodes : UpdatedNodes N V) (old : N → Option (GenericTrieNodeWithSize N V))
    (root : Nat) : List (Nat × Frame V) → Nat → List Nat → Prop
  | root : CtxRep nodes old root [] root []
  | branch {frames : List (Nat × Frame V)} {a b memoryUsage : Nat} {ids : List Nat}
      {children : Vector (Option (GenericNodeOrIndex N)) 16} {value : Option V}
      {ts : Fin 16 → NodeTree V} {slot : Fin 16} {siblingIds : Fin 16 → List Nat}
      (outer : CtxRep nodes old root frames a ids)
      (read : nodes[a]? = some (some ⟨.branch children value, memoryUsage⟩))
      (hole : children.get slot = some (.updated b))
      (siblings : ∀ j, j ≠ slot → Rep nodes old (children.get j) (ts j) (siblingIds j))
      (distinct : (ids ++ a :: childIds (Function.update siblingIds slot [])).Nodup) :
      CtxRep nodes old root (frames ++ [(a, .branch ts slot value memoryUsage)]) b
        (ids ++ a :: childIds (Function.update siblingIds slot []))
  | extension {frames : List (Nat × Frame V)} {a b memoryUsage : Nat} {ids : List Nat}
      {ext : List UInt8}
      (outer : CtxRep nodes old root frames a ids)
      (read : nodes[a]? = some (some ⟨.extension ext (.updated b), memoryUsage⟩))
      (distinct : (ids ++ [a]).Nodup) :
      CtxRep nodes old root (frames ++ [(a, .extension ext memoryUsage)]) b (ids ++ [a])

theorem CtxRep.nodup {root hole : Nat} {frames : List (Nat × Frame V)} {ids : List Nat}
    (ctx : CtxRep nodes old root frames hole ids) : ids.Nodup := by
  cases ctx with
  | root => exact List.nodup_nil
  | branch _ _ _ _ distinct => exact distinct
  | extension _ _ distinct => exact distinct

/-- Frame rule for contexts. -/
theorem CtxRep.frame {root hole : Nat} {frames : List (Nat × Frame V)} {ids : List Nat}
    (ctx : CtxRep nodes old root frames hole ids) (same : ∀ i ∈ ids, nodes'[i]? = nodes[i]?) :
    CtxRep nodes' old root frames hole ids := by
  induction ctx with
  | root => exact .root
  | @branch frames a b memoryUsage ids children value ts slot siblingIds outer read hole
      siblings distinct ih =>
    have onPath : nodes'[a]? = nodes[a]? := same a (by simp)
    refine .branch (ih fun i member => same i (by simp [member])) (by rw [onPath, read]) hole
      ?_ distinct
    intro j other
    apply (siblings j other).frame
    intro i member
    apply same i
    have inSiblings : i ∈ childIds (Function.update siblingIds slot []) :=
      mem_childIds.mpr ⟨j, by rwa [Function.update_of_ne other]⟩
    simp [inSiblings]
  | extension outer read distinct ih =>
    refine .extension (ih fun i member => same i (by simp [member])) ?_ distinct
    rw [same _ (by simp), read]

theorem CtxRep.isSome {root hole : Nat} {frames : List (Nat × Frame V)} {ids : List Nat}
    (ctx : CtxRep nodes old root frames hole ids) {i : Nat} (member : i ∈ ids) :
    ∃ node, nodes[i]? = some (some node) := by
  induction ctx with
  | root => simp at member
  | @branch frames a b memoryUsage ids children value ts slot siblingIds outer read hole
      siblings distinct ih =>
    rcases List.mem_append.mp member with inOuter | inFrame
    · exact ih inOuter
    · rcases List.mem_cons.mp inFrame with here | inSiblings
      · rw [here]; exact ⟨_, read⟩
      · obtain ⟨j, inChild⟩ := mem_childIds.mp inSiblings
        by_cases atSlot : j = slot
        · subst atSlot; simp at inChild
        · rw [Function.update_of_ne atSlot] at inChild
          exact (siblings j atSlot).isSome inChild
  | extension outer read distinct ih =>
    rcases List.mem_append.mp member with inOuter | here
    · exact ih inOuter
    · rw [List.mem_singleton.mp here]; exact ⟨_, read⟩

theorem CtxRep.lt_length {root hole : Nat} {frames : List (Nat × Frame V)} {ids : List Nat}
    (ctx : CtxRep nodes old root frames hole ids) {i : Nat} (member : i ∈ ids) :
    i < nodes.length := by
  obtain ⟨node, read⟩ := ctx.isSome member
  exact (List.getElem?_eq_some_iff.mp read).1

theorem CtxRep.append {root hole : Nat} {frames : List (Nat × Frame V)} {ids : List Nat}
    (ctx : CtxRep nodes old root frames hole ids) (more : UpdatedNodes N V) :
    CtxRep (nodes ++ more) old root frames hole ids :=
  ctx.frame fun _ member => List.getElem?_append_left (ctx.lt_length member)

theorem CtxRep.set {root hole : Nat} {frames : List (Nat × Frame V)} {ids : List Nat}
    (ctx : CtxRep nodes old root frames hole ids) {k : Nat} (outside : k ∉ ids)
    (node : Option (GenericUpdatedTrieNodeWithSize N V)) :
    CtxRep (nodes.set k node) old root frames hole ids :=
  ctx.frame fun i member => List.getElem?_set_ne (by rintro rfl; exact outside member)

/-- The path's ids are those of its frames, in order. -/
theorem CtxRep.path_subset {root hole : Nat} {frames : List (Nat × Frame V)} {ids : List Nat}
    (ctx : CtxRep nodes old root frames hole ids) : ∀ a ∈ frames.map Prod.fst, a ∈ ids := by
  induction ctx with
  | root => simp
  | branch outer read hole siblings distinct ih =>
    intro x member
    simp only [List.map_append, List.map_cons, List.map_nil, List.mem_append,
      List.mem_singleton] at member
    rcases member with inOuter | here
    · simp [ih x inOuter]
    · simp [here]
  | extension outer read distinct ih =>
    intro x member
    simp only [List.map_append, List.map_cons, List.map_nil, List.mem_append,
      List.mem_singleton] at member
    rcases member with inOuter | here
    · simp [ih x inOuter]
    · simp [here]

/-! Disjointness bookkeeping. -/

/-- A list of ids that come from `shared` or lie at or above `bound` can follow `front`, if
`front ++ shared` has no repetition and `front` lies below `bound`. -/
theorem nodup_append_of_within {front shared more : List Nat} {bound : Nat}
    (distinct : (front ++ shared).Nodup) (moreDistinct : more.Nodup)
    (within : ∀ i ∈ more, i ∈ shared ∨ bound ≤ i) (below : ∀ i ∈ front, i < bound) :
    (front ++ more).Nodup := by
  rw [List.nodup_append] at distinct ⊢
  refine ⟨distinct.1, moreDistinct, ?_⟩
  intro i inFront j inMore same
  subst same
  rcases within i inMore with inShared | above
  · exact distinct.2.2 i inFront i inShared rfl
  · exact absurd (below i inFront) (Nat.not_lt.mpr above)

/-! The state holds a tree with a hole. -/

/-- The updated nodes hold `plug frames t`, with `t` at `hole`. -/
def Holds (nodes : UpdatedNodes N V) (old : N → Option (GenericTrieNodeWithSize N V))
    (root : Nat) (frames : List (Nat × Frame V)) (hole : Nat) (t : NodeTree V) : Prop :=
  ∃ ctxIds ids, CtxRep nodes old root frames hole ctxIds ∧
    Rep nodes old (some (.updated hole)) t ids ∧ (ctxIds ++ ids).Nodup

/-! Moves on `Holds`: what one iteration of a loop does at the hole, and what the fix-up
does to the innermost frame. -/

section Moves

variable {root a b m : Nat} {frames : List (Nat × Frame V)} {ctxIds ids ids' : List Nat}
  {t : NodeTree V}

theorem Holds.start (rep : Rep nodes old (some (.updated root)) t ids) :
    Holds nodes old root [] root t :=
  ⟨[], ids, .root, rep, by simpa using rep.nodup⟩

theorem Holds.at_root (holds : Holds nodes old root [] b t) :
    b = root ∧ ∃ ids, Rep nodes old (some (.updated root)) t ids := by
  obtain ⟨ctxIds, ids, ctx, rep, -⟩ := holds
  generalize top : ([] : List (Nat × Frame V)) = none at ctx
  cases ctx with
  | root => exact ⟨rfl, ids, rep⟩
  | branch => simp at top
  | extension => simp at top

theorem Holds.read_hole (holds : Holds nodes old root frames b t) :
    ∃ node, nodes[b]? = some (some ⟨node, t.memoryUsage⟩) := by
  obtain ⟨ctxIds, ids, ctx, rep, -⟩ := holds
  exact rep.read_updated

/-- The writes keep the path, and the hole's new tree passes through ids of the old one or
through fresh ones. -/
theorem Holds.of_within (ctx : CtxRep nodes old root frames a ctxIds)
    (distinct : (ctxIds ++ ids).Nodup) (same : ∀ i ∈ ctxIds, nodes'[i]? = nodes[i]?)
    (rep : Rep nodes' old (some (.updated a)) t ids')
    (within : ∀ i ∈ ids', i ∈ ids ∨ nodes.length ≤ i) : Holds nodes' old root frames a t :=
  ⟨ctxIds, ids', ctx.frame same, rep,
    nodup_append_of_within distinct rep.nodup within fun _ member => ctx.lt_length member⟩

/-- The hole's node becomes an extension over a new hole. -/
theorem Holds.push_extension {ext : List UInt8} (ctx : CtxRep nodes old root frames a ctxIds)
    (distinct : (ctxIds ++ ids).Nodup) (onPath : a ∈ ids) (inside : a < nodes.length)
    (same : ∀ i ∈ ctxIds, nodes'[i]? = nodes[i]?)
    (read : nodes'[a]? = some (some ⟨.extension ext (.updated b), m⟩))
    (rep : Rep nodes' old (some (.updated b)) t ids')
    (within : ∀ i ∈ ids', (i ∈ ids ∧ i ≠ a) ∨ nodes.length ≤ i) :
    Holds nodes' old root (frames ++ [(a, .extension ext m)]) b t := by
  have notBelow : a ∉ ids' := by
    intro member
    rcases within a member with ⟨_, self⟩ | above
    · exact self rfl
    · omega
  have whole : (ctxIds ++ a :: ids').Nodup := by
    refine nodup_append_of_within distinct (List.nodup_cons.mpr ⟨notBelow, rep.nodup⟩) ?_
      fun _ member => ctx.lt_length member
    intro i member
    rcases List.mem_cons.mp member with rfl | inHole
    · exact .inl onPath
    · exact (within i inHole).imp And.left id
  have path : (ctxIds ++ [a]).Nodup :=
    whole.sublist ((List.singleton_sublist.mpr List.mem_cons_self).append_left _)
  refine ⟨ctxIds ++ [a], ids', .extension (ctx.frame same) read path, rep, ?_⟩
  simpa using whole

/-- The hole's node becomes a branch whose child at `slot` is the new hole. -/
theorem Holds.push_branch {children : Vector (Option (GenericNodeOrIndex N)) 16}
    {value : Option V} {ts : Fin 16 → NodeTree V} {slot : Fin 16} {siblingIds : Fin 16 → List Nat}
    (ctx : CtxRep nodes old root frames a ctxIds) (same : ∀ i ∈ ctxIds, nodes'[i]? = nodes[i]?)
    (read : nodes'[a]? = some (some ⟨.branch children value, m⟩))
    (hole : children.get slot = some (.updated b))
    (siblings : ∀ j, j ≠ slot → Rep nodes' old (children.get j) (ts j) (siblingIds j))
    (rep : Rep nodes' old (some (.updated b)) t ids')
    (distinct : (ctxIds ++ a :: childIds (Function.update siblingIds slot []) ++ ids').Nodup) :
    Holds nodes' old root (frames ++ [(a, .branch ts slot value m)]) b t :=
  ⟨_, ids', .branch (ctx.frame same) read hole siblings
    (distinct.sublist (List.sublist_append_left _ _)), rep, distinct⟩

/-- Putting the hole's ids back into the branch's slot is a permutation. -/
theorem childIds_refill_perm (siblingIds : Fin 16 → List Nat) (slot : Fin 16) (ids : List Nat) :
    (childIds (Function.update siblingIds slot []) ++ ids).Perm
      (childIds (Function.update siblingIds slot ids)) := by
  have perm := childIds_update_perm (Function.update siblingIds slot ids) slot
  rwa [Function.update_idem, Function.update_self] at perm

/-- The fix-up's move: the innermost frame's node gets the hole's memory usage added and
becomes the hole. -/
theorem Holds.pop {f : Frame V} (holds : Holds nodes old root (frames ++ [(a, f)]) b t) :
    ∃ node m, nodes[a]? = some (some ⟨node, m⟩) ∧
      Holds (nodes.set a (some ⟨node, m + t.memoryUsage⟩)) old root frames a
        (f.fill t t.memoryUsage) := by
  obtain ⟨ctxIds, ids, ctx, rep, distinct⟩ := holds
  generalize snoc : frames ++ [(a, f)] = all at ctx
  cases ctx with
  | root => simp at snoc
  | @branch frames₀ a₀ _ m₀ outerIds children value ts slot siblingIds outer read hole siblings _ =>
    obtain ⟨rfl, last⟩ := List.append_inj' snoc.symm rfl
    obtain ⟨rfl, rfl⟩ : a = a₀ ∧ f = .branch ts slot value m₀ := by simpa using last.symm
    have perm := (childIds_refill_perm siblingIds slot ids).cons a
    have whole : (outerIds ++ a :: childIds (Function.update siblingIds slot ids)).Nodup :=
      (perm.append_left outerIds).nodup_iff.mp (by simpa using distinct)
    have fresh : a ∉ outerIds := fun member =>
      (List.nodup_append.mp whole).2.2 a member a List.mem_cons_self rfl
    have below : a ∉ childIds (Function.update siblingIds slot ids) :=
      (List.nodup_cons.mp (List.nodup_append.mp whole).2.1).1
    have inside : a < nodes.length := (List.getElem?_eq_some_iff.mp read).1
    have readNew : (nodes.set a (some ⟨.branch children value, m₀ + t.memoryUsage⟩))[a]? =
        some (some ⟨.branch children value, m₀ + t.memoryUsage⟩) := by simp [inside]
    refine ⟨.branch children value, m₀, read, outerIds, _, outer.set fresh _, .branch readNew ?_
      (List.nodup_append.mp whole).2.1, whole⟩
    intro j
    show Rep _ old (children.get j) _ _
    by_cases atSlot : j = slot
    · subst atSlot
      rw [hole, Function.update_self, Function.update_self]
      exact rep.set (fun member => below (mem_childIds.mpr ⟨j, by simpa using member⟩)) _
    · rw [Function.update_of_ne atSlot, Function.update_of_ne atSlot]
      exact (siblings j atSlot).set (fun member =>
        below (mem_childIds.mpr ⟨j, by simpa [Function.update_of_ne atSlot] using member⟩)) _
  | @extension frames₀ a₀ _ m₀ outerIds ext outer read _ =>
    obtain ⟨rfl, last⟩ := List.append_inj' snoc.symm rfl
    obtain ⟨rfl, rfl⟩ : a = a₀ ∧ f = .extension ext m₀ := by simpa using last.symm
    have whole : (outerIds ++ a :: ids).Nodup := by simpa using distinct
    have fresh : a ∉ outerIds := fun member =>
      (List.nodup_append.mp whole).2.2 a member a List.mem_cons_self rfl
    have below : a ∉ ids := (List.nodup_cons.mp (List.nodup_append.mp whole).2.1).1
    have inside : a < nodes.length := (List.getElem?_eq_some_iff.mp read).1
    exact ⟨.extension ext (.updated b), m₀, read, outerIds, _, outer.set fresh _,
      .extension (by simp [inside]) (rep.set below _) below, whole⟩

/-- The path lies outside the hole's tree and inside the arena. -/
theorem CtxRep.outside_hole (ctx : CtxRep nodes old root frames a ctxIds)
    (distinct : (ctxIds ++ ids).Nodup) (onPath : a ∈ ids) :
    ∀ i ∈ ctxIds, i ≠ a ∧ i < nodes.length := fun i member =>
  ⟨fun same => (List.nodup_append.mp distinct).2.2 i member a onPath same, ctx.lt_length member⟩

/-- Writing the hole and appending nodes leaves the path alone. -/
theorem CtxRep.set_append_same (ctx : CtxRep nodes old root frames a ctxIds)
    (distinct : (ctxIds ++ ids).Nodup) (onPath : a ∈ ids)
    (x : Option (GenericUpdatedTrieNodeWithSize N V)) (more : UpdatedNodes N V) :
    ∀ i ∈ ctxIds, (nodes.set a x ++ more)[i]? = nodes[i]? := by
  intro i member
  obtain ⟨other, inside⟩ := ctx.outside_hole distinct onPath i member
  rw [List.getElem?_append_left (by simpa using inside), List.getElem?_set_ne (Ne.symm other)]

/-- The ids after descending into a branch's child: the child kept its ids, or had none and
got one fresh id. -/
theorem descend_distinct {cids : Fin 16 → List Nat} {slot : Fin 16} {fresh : Nat}
    (distinct : (ctxIds ++ a :: childIds cids).Nodup)
    (present : ∀ i ∈ ctxIds ++ a :: childIds cids, i < fresh)
    (fetched : ids' = cids slot ∨ cids slot = [] ∧ ids' = [fresh]) :
    (ctxIds ++ a :: childIds (Function.update cids slot []) ++ ids').Nodup := by
  rcases fetched with rfl | ⟨empty, rfl⟩
  · have perm := ((childIds_refill_perm cids slot (cids slot)).cons a).append_left ctxIds
    rw [Function.update_eq_self] at perm
    simpa using perm.nodup_iff.mpr distinct
  · rw [show Function.update cids slot [] = cids from by rw [← empty, Function.update_eq_self]]
    have old : (ctxIds ++ a :: childIds cids ++ []).Nodup := by simpa using distinct
    exact nodup_append_of_within old (List.nodup_singleton _)
      (fun i member => .inr (List.mem_singleton.mp member).ge) present

theorem CtxRep.set_same (ctx : CtxRep nodes old root frames a ctxIds)
    (distinct : (ctxIds ++ ids).Nodup) (onPath : a ∈ ids)
    (x : Option (GenericUpdatedTrieNodeWithSize N V)) :
    ∀ i ∈ ctxIds, (nodes.set a x)[i]? = nodes[i]? := by
  simpa using ctx.set_append_same distinct onPath x []

/-- The hole's node becomes a leaf. -/
theorem Holds.set_leaf (ctx : CtxRep nodes old root frames a ctxIds)
    (distinct : (ctxIds ++ ids).Nodup) (onPath : a ∈ ids) (inside : a < nodes.length)
    (ext : List UInt8) (value : V) (m : Nat) :
    Holds (nodes.set a (some ⟨.leaf ext value, m⟩)) old root frames a (.leaf ext value m) :=
  Holds.of_within ctx distinct (ctx.set_same distinct onPath _) (.leaf (by simp [inside]))
    (fun i member => .inl (by rwa [List.mem_singleton.mp member]))

end Moves

end Context

end Nearcore
