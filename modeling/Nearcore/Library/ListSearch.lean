import Mathlib

/-! Searching a list for the first element with a property, tagging the hit with the
element, as `find_map` over `enumerate` does; counting the hits, and summing over them, over the
pieces of a `flatMap` and over a list changed at one position. -/
namespace List

variable {α β γ : Type}

/-- The search tagged with the element, for `f`. -/
theorem findSome?_tagged_eq_some {f : α → Option β} {l : List α} {a : α} {b : β}
    (found : (l.findSome? fun x => (f x).map fun y => (x, y)) = some (a, b)) :
    a ∈ l ∧ f a = some b := by
  obtain ⟨x, member, hit⟩ := List.exists_of_findSome?_eq_some found
  cases fx : f x with
  | none => simp [fx] at hit
  | some y =>
    simp only [fx, Option.map_some, Option.some.injEq, Prod.mk.injEq] at hit
    obtain ⟨rfl, rfl⟩ := hit
    exact ⟨member, fx⟩

/-- Two tagged searches stop at the same element when the same elements are hits. -/
theorem findSome?_tagged_congr (f : α → Option β) (g : α → Option γ) (l : List α)
    (same : ∀ a ∈ l, (f a).isSome = (g a).isSome) :
    (l.findSome? fun a => (f a).map fun b => (a, b)).map Prod.fst =
      (l.findSome? fun a => (g a).map fun c => (a, c)).map Prod.fst := by
  induction l with
  | nil => rfl
  | cons a rest ih =>
    have here := same a List.mem_cons_self
    have later := ih fun x member => same x (List.mem_cons_of_mem _ member)
    cases fa : f a <;> cases ga : g a <;> simp_all

/-- A search finds something exactly when some element is a hit. -/
theorem isSome_findSome?_tagged {f : α → Option β} (l : List α) :
    (l.findSome? fun a => (f a).map fun b => (a, b)).isSome = l.any fun a => (f a).isSome := by
  induction l with
  | nil => rfl
  | cons a rest ih =>
    cases fa : f a <;> simp_all

/-- Two members of a list that satisfy a property satisfied once are the same. -/
theorem eq_of_countP_eq_one {p : α → Bool} {l : List α} (once : l.countP p = 1)
    {a b : α} (memberA : a ∈ l) (memberB : b ∈ l) (holdsA : p a = true) (holdsB : p b = true) :
    a = b := by
  by_contra other
  have within : [a, b] ⊆ l.filter p := by
    intro x member
    simp only [List.mem_cons, List.not_mem_nil, or_false] at member
    rcases member with rfl | rfl
    · exact List.mem_filter.mpr ⟨memberA, holdsA⟩
    · exact List.mem_filter.mpr ⟨memberB, holdsB⟩
  have distinct : [a, b].Nodup := by simp [other]
  have bound := distinct.length_le_of_subset within
  rw [← List.countP_eq_length_filter, once] at bound
  simp at bound

/-- Filtering out elements that count zero does not change a sum. -/
theorem sum_map_filter_of_zero {p : α → Bool} {f : α → Nat} :
    ∀ {l : List α}, (∀ a ∈ l, p a = false → f a = 0) → ((l.filter p).map f).sum = (l.map f).sum
  | [], _ => rfl
  | a :: rest, dropped => by
    have later := sum_map_filter_of_zero fun x member => dropped x (List.mem_cons_of_mem _ member)
    cases kept : p a
    · simp [kept, later, dropped a List.mem_cons_self kept]
    · simp [kept, later]

/-- A sum over a `flatMap` is the sum of the sums of its pieces. -/
theorem sum_map_flatMap (f : α → List β) (g : β → Nat) :
    ∀ l : List α, ((l.flatMap f).map g).sum = (l.map fun a => ((f a).map g).sum).sum
  | [] => rfl
  | a :: rest => by
    rw [List.flatMap_cons, List.map_append, List.sum_append, sum_map_flatMap f g rest, List.map_cons,
      List.sum_cons]

/-- Reading a list at each of its positions gives the list back. -/
theorem map_getD_range (l : List α) (d : α) : (List.range l.length).map (l.getD · d) = l := by
  apply List.ext_getElem (by simp)
  intro i _ valid
  simp [List.getD_eq_getElem?_getD, List.getElem?_eq_getElem valid]

/-- Over the positions below `n`, a value put at position `r` alone sums to that value. -/
theorem sum_range_ite_eq {r n : Nat} (valid : r < n) (c : Nat) :
    ((List.range n).map fun r' => if r' = r then c else 0).sum = c := by
  induction n with
  | zero => omega
  | succ n ih =>
    rw [List.range_succ, List.map_append, List.sum_append, List.map_singleton, List.sum_singleton]
    by_cases last : n = r
    · -- every earlier position is below `r`
      have none : ((List.range n).map fun r' => if r' = r then c else 0).sum = 0 := by
        refine List.sum_eq_zero fun x member => ?_
        obtain ⟨r', below, rfl⟩ := List.mem_map.mp member
        rw [if_neg (by rw [List.mem_range] at below; omega)]
      rw [none, if_pos last, Nat.zero_add]
    · rw [ih (by omega), if_neg last, Nat.add_zero]

/-- Over the positions below `n`, a summand changed at position `i` alone changes the sum by the
change there. -/
theorem sum_range_update {F G : Nat → Nat} {n i : Nat} (valid : i < n) (same : ∀ s, s ≠ i → G s = F s) :
    ((List.range n).map G).sum + F i = ((List.range n).map F).sum + G i := by
  have pointwise : ∀ s ∈ List.range n,
      G s + (if s = i then F i else 0) = F s + (if s = i then G i else 0) := by
    intro s _
    by_cases here : s = i
    · subst here
      simp [Nat.add_comm]
    · simp [here, same s here]
  have summed := congrArg List.sum (List.map_congr_left pointwise)
  rwa [List.sum_map_add, List.sum_map_add, List.sum_range_ite_eq valid, List.sum_range_ite_eq valid] at summed

/-- The same, with the summand changed at two positions. -/
theorem sum_range_update_two {F G : Nat → Nat} {n i j : Nat} (validI : i < n) (validJ : j < n) (distinct : i ≠ j)
    (same : ∀ s, s ≠ i → s ≠ j → G s = F s) :
    ((List.range n).map G).sum + F i + F j = ((List.range n).map F).sum + G i + G j := by
  -- through the summand changed at `i` only
  have first := sum_range_update (F := F) (G := fun s => if s = i then G i else F s) validI
    fun s different => if_neg different
  have second := sum_range_update (F := fun s => if s = i then G i else F s) (G := G) validJ
    fun s different => by
      by_cases atI : s = i
      · subst atI
        rw [if_pos rfl]
      · rw [if_neg atI, same s atI different]
  simp only [ite_true, if_neg (Ne.symm distinct)] at first second
  omega

/-- Summing a value over the copies of `k` in a list counts them. -/
theorem sum_map_ite_eq_count [DecidableEq α] (k : α) (c : Nat) :
    ∀ l : List α, (l.map fun x => if x = k then c else 0).sum = l.count k * c
  | [] => by simp
  | x :: rest => by
    rw [List.map_cons, List.sum_cons, sum_map_ite_eq_count k c rest, List.count_cons]
    by_cases same : x = k <;> simp [same, Nat.add_mul, Nat.add_comm]

/-- Changing one position of a list changes a sum over it by the change at that position. -/
theorem sum_map_modify (g : α → Nat) (f : α → α) : ∀ (l : List α) (i : Nat) (valid : i < l.length),
    ((l.modify i f).map g).sum + g l[i] = (l.map g).sum + g (f l[i])
  | [], i, valid => absurd valid (Nat.not_lt_zero _)
  | a :: rest, 0, _ => by
    rw [List.modify_zero_cons]
    simp only [List.map_cons, List.sum_cons, List.getElem_cons_zero]
    omega
  | a :: rest, i + 1, valid => by
    have later := sum_map_modify g f rest i (by simpa using valid)
    rw [List.modify_succ_cons]
    simp only [List.map_cons, List.sum_cons, List.getElem_cons_succ]
    omega

/-- A list changed at one position, read with a default at a position inside it. -/
theorem getD_modify_of_lt {f : α → α} {l : List α} {j : Nat} (i : Nat) (valid : j < l.length) (d : α) :
    (l.modify i f).getD j d = if i = j then f (l.getD j d) else l.getD j d := by
  rw [List.getD_eq_getElem?_getD, List.getD_eq_getElem?_getD, List.getElem?_modify,
    List.getElem?_eq_getElem valid]
  by_cases same : i = j <;> simp [same]

/-- A list with one position set, read with a default at a position inside it. -/
theorem getD_set_of_lt {l : List α} {i : Nat} (a : α) (valid : i < l.length) (j : Nat) (d : α) :
    (l.set i a).getD j d = if i = j then a else l.getD j d := by
  rw [List.getD_eq_getElem?_getD, List.getD_eq_getElem?_getD, List.getElem?_set, if_pos valid]
  by_cases same : i = j <;> simp [same]

/-- Values each below `c` cannot sum to `c` times their number, unless there are none. -/
theorem eq_nil_of_sum_eq_mul_length {f : α → Nat} {c : Nat} {l : List α} (below : ∀ x ∈ l, f x < c)
    (total : (l.map f).sum = c * l.length) : l = [] := by
  cases l with
  | nil => rfl
  | cons y rest =>
    have restBound := List.sum_le_card_nsmul (rest.map f) c (by
      simpa using fun x member => Nat.le_of_lt (below x (List.mem_cons_of_mem _ member)))
    have first := below y List.mem_cons_self
    simp only [List.map_cons, List.sum_cons, List.length_cons, List.length_map, smul_eq_mul] at total restBound
    rw [Nat.mul_succ, Nat.mul_comm c] at total
    omega

/-- Values each at least `c` that sum to `c` times their number are all `c`. -/
theorem forall_eq_of_sum_eq_mul_length {f : α → Nat} {c : Nat} : ∀ {l : List α}, (∀ x ∈ l, c ≤ f x) →
    (l.map f).sum = c * l.length → ∀ x ∈ l, f x = c
  | [], _, _, _, absent => absurd absent List.not_mem_nil
  | y :: rest, atLeast, total, x, member => by
    have restAtLeast : ∀ z ∈ rest, c ≤ f z := fun z inRest => atLeast z (List.mem_cons_of_mem _ inRest)
    have restBound := List.card_nsmul_le_sum (rest.map f) c (by simpa using restAtLeast)
    have first := atLeast y List.mem_cons_self
    simp only [List.map_cons, List.sum_cons, List.length_cons, List.length_map, smul_eq_mul] at total restBound
    rw [Nat.mul_succ, Nat.mul_comm c] at total
    rcases List.mem_cons.mp member with rfl | later
    · omega
    · exact forall_eq_of_sum_eq_mul_length restAtLeast (by rw [Nat.mul_comm]; omega) x later

/-- Two related lists have the same sum when each pair of related elements adds the same. -/
theorem Forall₂.sum_map_eq {R : α → β → Prop} {f : α → Nat} {g : β → Nat} : ∀ {l : List α} {l' : List β},
    List.Forall₂ R l l' → (∀ a b, R a b → f a = g b) → (l.map f).sum = (l'.map g).sum
  | _, _, .nil, _ => rfl
  | _, _, .cons related rest, same => by
    rw [List.map_cons, List.map_cons, List.sum_cons, List.sum_cons, same _ _ related,
      Forall₂.sum_map_eq rest same]

/-- Every element of the second of two related lists is related to one of the first. -/
theorem Forall₂.exists_of_mem_right {R : α → β → Prop} : ∀ {l : List α} {l' : List β},
    List.Forall₂ R l l' → ∀ b ∈ l', ∃ a ∈ l, R a b
  | _, _, .nil, _, absent => absurd absent List.not_mem_nil
  | _, _, .cons related rest, b, member => by
    rcases List.mem_cons.mp member with rfl | later
    · exact ⟨_, List.mem_cons_self, related⟩
    · obtain ⟨a, found, relatedA⟩ := Forall₂.exists_of_mem_right rest b later
      exact ⟨a, List.mem_cons_of_mem _ found, relatedA⟩

end List
