import Nearcore.Library.Unsigned

/-! Rust's collections as the models use them, with the panics of their methods:
`Option::unwrap` and `Result::unwrap`; a `Vec` as a list, indexed with the bounds check of
`v[i]`, with `swap_remove` and `resize`; a `HashMap` that is iterated as the list of its
entries, in the order of iteration; a `BTreeSet` as a finite set of a linear order, with
`first`, `last`, `pop_first`, `pop_last`, `iter`, `iter().nth` and `split_off`; and
`Rng::gen_range` on `0..high` from a generator whose state is passed along, of which nothing
is known but that its draws are in range. -/
namespace Collections

open Unsigned

variable {α : Type}

/-- `Option::unwrap`. -/
def unwrap : Option α → Except Panic α
  | some a => .ok a
  | none => .error ⟨"called `Option::unwrap()` on a `None` value"⟩

section
attribute [local simp] unwrap
end

@[simp] theorem unwrap_some (a : α) : unwrap (some a) = .ok a := rfl

theorem unwrap_eq_ok {o : Option α} {a : α} : unwrap o = .ok a ↔ o = some a := by
  cases o <;> simp [unwrap]

/-- `Result::unwrap`, whose panic prints the error in its `Debug` format, `debug`. -/
def unwrapResult {ε : Type} (debug : ε → String) : Except ε α → Except Panic α
  | .ok a => .ok a
  | .error e =>
    let shown := debug e
    .error ⟨s!"called `Result::unwrap()` on an `Err` value: {shown}"⟩

@[simp] theorem unwrapResult_ok {ε : Type} (debug : ε → String) (a : α) :
    unwrapResult debug (.ok a : Except ε α) = .ok a := rfl

/-- `Vec::swap_remove`: the element at `index`, and the vector with its last element moved
there. -/
def swapRemove (v : List α) (index : Nat) : Except Panic (α × List α) :=
  match v[index]? with
  | some a => .ok (a, (v.set index (v.getLastD a)).dropLast)
  | none =>
    let len := v.length
    .error ⟨s!"swap_remove index (is {index}) should be < len (is {len})"⟩

section
attribute [local simp] swapRemove
end

theorem swapRemove_of_lt {v : List α} {index : Nat} (valid : index < v.length) :
    ∃ a rest, swapRemove v index = .ok (a, rest) := by
  unfold swapRemove
  rw [List.getElem?_eq_getElem valid]
  exact ⟨_, _, rfl⟩

/-- What `swap_remove` takes out and what it leaves are the vector, in another order. -/
theorem swapRemove_perm {v : List α} {index : Nat} {a : α} {rest : List α}
    (removed : swapRemove v index = .ok (a, rest)) : (a :: rest).Perm v := by
  unfold swapRemove at removed
  split at removed
  · rename_i found
    cases removed
    -- the vector is its front and its last element
    obtain empty | ⟨front, z, rfl⟩ := List.eq_nil_or_concat v
    · simp [empty] at found
    · rw [List.concat_eq_append] at found ⊢
      have valid : index < front.length + 1 := by
        have := (List.getElem?_eq_some_iff.mp found).1
        simpa using this
      rw [List.getLastD_eq_getLast?, List.getLast?_concat, Option.getD_some]
      by_cases inFront : index < front.length
      · -- the last element takes the place of the one removed
        rw [List.set_append, if_pos inFront, List.dropLast_concat]
        rw [List.getElem?_append_left inFront, List.getElem?_eq_getElem inFront] at found
        cases found
        calc List.Perm (front[index] :: front.set index z) (front[index] :: z :: front.eraseIdx index) :=
              .cons _ (List.set_perm_cons_eraseIdx inFront z)
          List.Perm _ (z :: front[index] :: front.eraseIdx index) := .swap _ _ _
          List.Perm _ (z :: front) := .cons _ (List.getElem_cons_eraseIdx_perm inFront)
          List.Perm _ (front ++ [z]) := (List.perm_append_singleton _ _).symm
      · -- the last element itself is removed
        have last : index = front.length := by omega
        subst last
        rw [List.getElem?_concat_length] at found
        cases found
        rw [List.set_append, if_neg (Nat.lt_irrefl _), Nat.sub_self, List.set_cons_zero,
          List.dropLast_concat]
        exact (List.perm_append_singleton _ _).symm
  · simp at removed

/-- The panic of `v[index]` past the end of a vector of length `len`. -/
def outOfBounds (len index : Nat) : Panic :=
  ⟨s!"index out of bounds: the len is {len} but the index is {index}"⟩

/-- `v[index]`, read. -/
def index (v : List α) (index : Nat) : Except Panic α :=
  match v[index]? with
  | some a => .ok a
  | none => .error (outOfBounds v.length index)

section
attribute [local simp] index
end

/-- `v[index]` as a place written through: the element there becomes `f` of it. -/
def indexModify (v : List α) (index : Nat) (f : α → α) : Except Panic (List α) :=
  if index < v.length then .ok (v.modify index f) else .error (outOfBounds v.length index)

section
attribute [local simp] indexModify
end

/-- `v[index] = a`. -/
def indexSet (v : List α) (index : Nat) (a : α) : Except Panic (List α) :=
  indexModify v index fun _ => a

section
attribute [local simp] indexSet
end

theorem index_of_lt {v : List α} {i : Nat} (valid : i < v.length) : index v i = .ok v[i] := by
  rw [index, List.getElem?_eq_getElem valid]

theorem index_of_le {v : List α} {i : Nat} (past : v.length ≤ i) :
    index v i = .error (outOfBounds v.length i) := by
  rw [index, List.getElem?_eq_none past]

theorem index_eq_ok {v : List α} {i : Nat} {a : α} : index v i = .ok a ↔ v[i]? = some a := by
  unfold index
  split <;> simp_all

theorem indexModify_of_lt {v : List α} {i : Nat} (f : α → α) (valid : i < v.length) :
    indexModify v i f = .ok (v.modify i f) := if_pos valid

theorem indexSet_of_lt {v : List α} {i : Nat} (a : α) (valid : i < v.length) :
    indexSet v i a = .ok (v.set i a) := by
  rw [indexSet, indexModify_of_lt _ valid]
  congr 1
  apply List.ext_getElem (by simp)
  intro j _ _
  simp [List.getElem_modify, List.getElem_set]

theorem indexSet_of_le {v : List α} {i : Nat} (a : α) (past : v.length ≤ i) :
    indexSet v i a = .error (outOfBounds v.length i) := if_neg (Nat.not_lt.mpr past)

/-- A write that succeeds keeps the length. -/
theorem length_of_indexModify {v w : List α} {i : Nat} {f : α → α} (written : indexModify v i f = .ok w) :
    w.length = v.length := by
  unfold indexModify at written
  split at written
  · cases written
    exact List.length_modify f v i
  · cases written

/-- `Vec::resize`: the vector cut or padded with `a` to length `n`. -/
def resize (v : List α) (n : Nat) (a : α) : List α := v.take n ++ List.replicate (n - v.length) a

section
attribute [local simp] resize
end

@[simp] theorem length_resize (v : List α) (n : Nat) (a : α) : (resize v n a).length = n := by
  simp only [resize, List.length_append, List.length_take, List.length_replicate]
  omega

theorem getElem?_resize {v : List α} {n i : Nat} (a : α) (inside : i < v.length) (below : i < n) :
    (resize v n a)[i]? = v[i]? := by
  rw [resize, List.getElem?_append_left (by simpa using ⟨below, inside⟩), List.getElem?_take_of_lt below]

section HashMap

variable {κ β : Type} [DecidableEq κ]

/-- `HashMap::remove`. -/
def removeEntry (entries : List (κ × β)) (key : κ) : List (κ × β) := entries.filter fun entry => entry.1 != key

section
attribute [local simp] removeEntry
end

/-- `HashMap::insert`: the entry of the key, if there is one, gives way to the new one, which is
iterated last. -/
def insertEntry (entries : List (κ × β)) (key : κ) (value : β) : List (κ × β) :=
  removeEntry entries key ++ [(key, value)]

section
attribute [local simp] insertEntry
end

theorem lookup_cons_of_ne {k k' : κ} (v : β) (rest : List (κ × β)) (other : k ≠ k') :
    ((k', v) :: rest).lookup k = rest.lookup k := by
  simp [List.lookup_cons, beq_false_of_ne other]

theorem lookup_removeEntry (entries : List (κ × β)) (key k : κ) :
    (removeEntry entries key).lookup k = if k = key then none else entries.lookup k := by
  induction entries with
  | nil => simp [removeEntry]
  | cons entry rest ih =>
    obtain ⟨k', v'⟩ := entry
    unfold removeEntry at ih ⊢
    by_cases here : k' = key
    · -- the entry of the key is dropped
      subst here
      rw [List.filter_cons_of_neg (by simp), ih]
      by_cases same : k = k'
      · rw [if_pos same, if_pos same]
      · rw [if_neg same, if_neg same, lookup_cons_of_ne _ _ same]
    · rw [List.filter_cons_of_pos (by simpa using here)]
      by_cases same : k = k'
      · subst same
        rw [List.lookup_cons_self, if_neg here, List.lookup_cons_self]
      · rw [lookup_cons_of_ne _ _ same, ih, lookup_cons_of_ne _ _ same]

theorem lookup_insertEntry (entries : List (κ × β)) (key k : κ) (value : β) :
    (insertEntry entries key value).lookup k = if k = key then some value else entries.lookup k := by
  rw [insertEntry, List.lookup_append, lookup_removeEntry]
  by_cases same : k = key
  · simp [same]
  · rw [if_neg same, if_neg same, lookup_cons_of_ne _ _ same, List.lookup_nil, Option.or_none]

@[simp] theorem lookup_insertEntry_self (entries : List (κ × β)) (key : κ) (value : β) :
    (insertEntry entries key value).lookup key = some value := by
  simp [lookup_insertEntry]

theorem lookup_insertEntry_of_ne {entries : List (κ × β)} {key k : κ} (value : β) (other : k ≠ key) :
    (insertEntry entries key value).lookup k = entries.lookup k := by
  simp [lookup_insertEntry, other]

@[simp] theorem removeEntry_nil (key : κ) : removeEntry ([] : List (κ × β)) key = [] := rfl

@[simp] theorem insertEntry_nil (key : κ) (value : β) : insertEntry [] key value = [(key, value)] := rfl

/-- A map of one entry takes a new value at its key in place. -/
@[simp] theorem insertEntry_singleton_self (key : κ) (old value : β) :
    insertEntry [(key, old)] key value = [(key, value)] := by
  simp [insertEntry, removeEntry]

end HashMap

section BTreeSet

variable [LinearOrder α]

/-- `BTreeSet::first`. -/
def first (set : Finset α) : Option α := if h : set.Nonempty then some (set.min' h) else none

section
attribute [local simp] first
end

/-- `BTreeSet::last`. -/
def last (set : Finset α) : Option α := if h : set.Nonempty then some (set.max' h) else none

section
attribute [local simp] last
end

/-- `BTreeSet::pop_first`. -/
def popFirst (set : Finset α) : Option (α × Finset α) := (first set).map fun a => (a, set.erase a)

section
attribute [local simp] popFirst
end

/-- `BTreeSet::pop_last`. -/
def popLast (set : Finset α) : Option (α × Finset α) := (last set).map fun a => (a, set.erase a)

section
attribute [local simp] popLast
end

variable {set : Finset α} {a : α}

/-- The first element is a least one. -/
theorem first_eq_some (found : first set = some a) : a ∈ set ∧ ∀ b ∈ set, a ≤ b := by
  unfold first at found
  split at found
  · cases found
    exact ⟨Finset.min'_mem _ _, fun b member => Finset.min'_le _ _ member⟩
  · cases found

/-- The last element is a greatest one. -/
theorem last_eq_some (found : last set = some a) : a ∈ set ∧ ∀ b ∈ set, b ≤ a := by
  unfold last at found
  split at found
  · cases found
    exact ⟨Finset.max'_mem _ _, fun b member => Finset.le_max' _ _ member⟩
  · cases found

theorem first_isSome (member : a ∈ set) : ∃ b, first set = some b :=
  ⟨set.min' ⟨a, member⟩, dif_pos ⟨a, member⟩⟩

theorem last_isSome (member : a ∈ set) : ∃ b, last set = some b :=
  ⟨set.max' ⟨a, member⟩, dif_pos ⟨a, member⟩⟩

theorem popFirst_of_first (found : first set = some a) : popFirst set = some (a, set.erase a) := by
  rw [popFirst, found, Option.map_some]

theorem popLast_of_last (found : last set = some a) : popLast set = some (a, set.erase a) := by
  rw [popLast, found, Option.map_some]

/-- `BTreeSet::iter`: the elements in increasing order. -/
def iter (set : Finset α) : List α :=
  Quot.liftOn set.val (fun l => l.insertionSort (· ≤ ·)) fun _ _ perm =>
    (((List.perm_insertionSort _ _).trans perm).trans (List.perm_insertionSort _ _).symm).eq_of_sortedLE
      List.sortedLE_insertionSort List.sortedLE_insertionSort

section
attribute [local simp] iter
end

/-- The iteration is the sorted list of the set; it is written with an insertion sort, which
evaluates by structural recursion. -/
theorem iter_eq_sort (set : Finset α) : iter set = set.sort := by
  obtain ⟨⟨l⟩, distinct⟩ := set
  have perm : l.Perm (Finset.sort ⟨Quot.mk _ l, distinct⟩) :=
    Multiset.coe_eq_coe.mp (Finset.sort_eq ⟨Quot.mk _ l, distinct⟩ (· ≤ ·)).symm
  exact ((List.perm_insertionSort _ _).trans perm).eq_of_sortedLE List.sortedLE_insertionSort
    (Finset.sortedLT_sort _).sortedLE

@[simp] theorem mem_iter : a ∈ iter set ↔ a ∈ set := by
  rw [iter_eq_sort, Finset.mem_sort]

/-- `set.iter().nth(n)`: the element with `n` smaller ones. -/
def nth (set : Finset α) (n : Nat) : Option α := (iter set)[n]?

section
attribute [local simp] nth
end

/-- `set.split_off(&key)`: the elements below `key`, which stay in the set, and those from `key`
on, which are split off. -/
def splitOff (set : Finset α) (key : α) : Finset α × Finset α := (set.filter (· < key), set.filter (key ≤ ·))

section
attribute [local simp] splitOff
end

@[simp] theorem mem_splitOff_fst {key : α} : a ∈ (splitOff set key).1 ↔ a ∈ set ∧ a < key := Finset.mem_filter

@[simp] theorem mem_splitOff_snd {key : α} : a ∈ (splitOff set key).2 ↔ a ∈ set ∧ key ≤ a := Finset.mem_filter

theorem nth_eq_none {n : Nat} : nth set n = none ↔ set.card ≤ n := by
  rw [nth, iter_eq_sort, List.getElem?_eq_none_iff, Finset.length_sort]

/-- Below the `n`-th element there are `n` elements. -/
theorem card_filter_lt_nth {n : Nat} {key : α} (found : nth set n = some key) :
    (set.filter (· < key)).card = n := by
  rw [nth, iter_eq_sort] at found
  obtain ⟨inside, rfl⟩ := List.getElem?_eq_some_iff.mp found
  have sorted := Finset.sortedLT_sort set
  -- the elements below the `n`-th are the `n` first of the sorted list
  have below : set.filter (· < set.sort[n]) = (set.sort.take n).toFinset := by
    ext b
    rw [Finset.mem_filter, List.mem_toFinset, List.mem_take_iff_getElem, ← Finset.mem_sort fun a b : α => a ≤ b]
    constructor
    · rintro ⟨member, lt⟩
      obtain ⟨j, hj, rfl⟩ := List.getElem_of_mem member
      exact ⟨j, by rw [sorted.getElem_lt_getElem_iff] at lt; omega, rfl⟩
    · rintro ⟨j, hj, rfl⟩
      exact ⟨List.getElem_mem _, sorted.getElem_lt_getElem_iff.mpr (by omega)⟩
  rw [below, List.toFinset_card_of_nodup ((Finset.sort_nodup set _).sublist (List.take_sublist _ _)),
    List.length_take]
  omega

/-- The two parts of a split hold the set between them. -/
theorem card_splitOff (key : α) : (splitOff set key).1.card + (splitOff set key).2.card = set.card := by
  rw [splitOff, ← Finset.card_union_of_disjoint (Finset.disjoint_filter.mpr fun _ _ lt ge => absurd lt (not_lt.mpr ge))]
  congr 1
  ext b
  simp only [Finset.mem_union, Finset.mem_filter]
  constructor
  · rintro (⟨member, -⟩ | ⟨member, -⟩) <;> exact member
  · intro member
    rcases lt_or_ge b key with lt | ge
    · exact .inl ⟨member, lt⟩
    · exact .inr ⟨member, ge⟩

end BTreeSet

/-- A random number generator as `Rng::gen_range` uses it: from its state it draws a number
below a positive bound and moves to a new state. -/
structure RangeSampler (σ : Type) where
  sample : σ → Nat → Nat × σ
  sample_lt : ∀ state high, 0 < high → (sample state high).1 < high

/-- `rng.gen_range(0..high)`, which panics on an empty range. -/
def genRange {σ : Type} (sampler : RangeSampler σ) (state : σ) (high : Nat) : Except Panic (Nat × σ) :=
  if high = 0 then .error ⟨"cannot sample empty range"⟩ else .ok (sampler.sample state high)

theorem genRange_of_pos {σ : Type} (sampler : RangeSampler σ) (state : σ) {high : Nat}
    (positive : 0 < high) : genRange sampler state high = .ok (sampler.sample state high) :=
  if_neg (Nat.pos_iff_ne_zero.mp positive)

end Collections
