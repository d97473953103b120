import Nearcore.Library.Except

/-! Maps written through Rust's entry API, as `AList`s whose entry order is the order of
iteration: `entry(k).and_modify(f).or_insert(v)`, `entry(k).or_insert(v)`, `extend`, and loops
over the entries of another map. Read through lookups a map is a function into `Option`, its
`view`; each write combines the view with a singleton, counters by `Option.merge` and first
values by `Option.or`. A loop over a map writes each of its keys once, the keys being distinct
(`lookup_foldl`). A fold whose every pass combines the view so, from any start, is the start's
view combined with the fold from the empty map (`foldl_translate`, `foldlM_translate`). The
total of a weight over the values follows the writes that add to one key. A `BTreeMap` is
iterated in the order of its keys (`inOrder`). -/
namespace EntryMap

/-- A map with one value per key, its entries in the order it is iterated. -/
abbrev Map (κ β : Type) := AList fun _ : κ => β

section Views

variable {κ β : Type}

/-- Two maps combined key by key, with `f` where both have the key. -/
def mergeWith (f : β → β → β) (x y : κ → Option β) (k : κ) : Option β := Option.merge f (x k) (y k)

section
attribute [local simp] mergeWith
end

/-- Two maps combined key by key, the first one's value where it has the key. -/
def prefer (x y : κ → Option β) (k : κ) : Option β := (x k).or (y k)

section
attribute [local simp] prefer
end

theorem mergeWith_assoc (f : β → β → β) [Std.Associative f] (x y z : κ → Option β) :
    mergeWith f (mergeWith f x y) z = mergeWith f x (mergeWith f y z) := by
  funext k
  exact @Std.Associative.assoc _ (Option.merge f) _ (x k) (y k) (z k)

instance mergeWith_associative (f : β → β → β) [Std.Associative f] :
    Std.Associative (mergeWith (κ := κ) f) := ⟨mergeWith_assoc f⟩

theorem mergeWith_comm (f : β → β → β) [Std.Commutative f] (x y : κ → Option β) :
    mergeWith f x y = mergeWith f y x := by
  funext k
  exact @Std.Commutative.comm _ (Option.merge f) _ (x k) (y k)

instance mergeWith_commutative (f : β → β → β) [Std.Commutative f] :
    Std.Commutative (mergeWith (κ := κ) f) := ⟨mergeWith_comm f⟩

@[simp] theorem mergeWith_none (f : β → β → β) (x : κ → Option β) :
    mergeWith f x (fun _ => none) = x := by
  funext k
  simp [mergeWith]

@[simp] theorem none_mergeWith (f : β → β → β) (x : κ → Option β) :
    mergeWith f (fun _ => none) x = x := by
  funext k
  simp [mergeWith]

theorem prefer_assoc (x y z : κ → Option β) : prefer (prefer x y) z = prefer x (prefer y z) := by
  funext k
  exact Option.or_assoc

@[simp] theorem prefer_none (x : κ → Option β) : prefer x (fun _ => none) = x := by
  funext k
  simp [prefer]

@[simp] theorem none_prefer (x : κ → Option β) : prefer (fun _ => none) x = x := by
  funext k
  simp [prefer]

/-- Every value of the map satisfies `P`. -/
def Every (P : β → Prop) (x : κ → Option β) : Prop := ∀ k v, x k = some v → P v

theorem every_none (P : β → Prop) : Every P (fun _ : κ => none) := fun _ _ none => nomatch none

/-- What `f` keeps, `mergeWith f` keeps at every key. -/
theorem every_mergeWith {P : β → Prop} {f : β → β → β} (closed : ∀ a b, P a → P b → P (f a b))
    {x y : κ → Option β} (left : Every P x) (right : Every P y) : Every P (mergeWith f x y) := by
  intro k v merged
  cases hx : x k <;> cases hy : y k <;> simp only [mergeWith, hx, hy, Option.merge] at merged
  · cases merged
  · cases merged
    exact right k v hy
  · cases merged
    exact left k v hx
  · rename_i a b
    cases merged
    exact closed a b (left k a hx) (right k b hy)

variable [DecidableEq κ]

/-- The map read through lookups. -/
def view (map : Map κ β) (k : κ) : Option β := map.lookup k

section
attribute [local simp] view
end

/-- The map with the one entry `key`, read through lookups. -/
def single (key : κ) (value : β) (k : κ) : Option β := if k = key then some value else none

section
attribute [local simp] single
end

@[simp] theorem view_empty : view (∅ : Map κ β) = fun _ => none := by
  funext k
  exact AList.lookup_empty k

theorem every_single {P : β → Prop} {value : β} (holds : P value) (key : κ) : Every P (single key value) := by
  intro k v found
  by_cases same : k = key
  · simp only [single, same, if_true, Option.some.injEq] at found
    exact found ▸ holds
  · simp [single, same] at found

end Views

section Writes

variable {κ β γ : Type} [DecidableEq κ]

/-- `map.entry(key).and_modify(modify).or_insert(default)`. -/
def andModifyOrInsert (map : Map κ β) (key : κ) (modify : β → β) (default : β) : Map κ β :=
  match map.lookup key with
  | some value => map.insert key (modify value)
  | none => map.insert key default

section
attribute [local simp] andModifyOrInsert
end

/-- `map.entry(key).or_insert(value)`: a key present keeps its value. -/
def orInsert (map : Map κ β) (key : κ) (value : β) : Map κ β :=
  match map.lookup key with
  | some _ => map
  | none => map.insert key value

section
attribute [local simp] orInsert
end

/-- `map.retain(keep)`: the entries whose key and value pass. -/
def retain (keep : κ → β → Bool) (map : Map κ β) : Map κ β :=
  ⟨map.entries.filter fun e => keep e.1 e.2, map.nodupKeys.sublist List.filter_sublist⟩

section
attribute [local simp] retain
end

/-- `map.extend(other)`: the entries of `other` inserted in turn, each replacing the value of
its key. -/
def extend (map other : Map κ β) : Map κ β :=
  other.foldl (fun acc key value => acc.insert key value) map

section
attribute [local simp] extend
end

theorem lookup_andModifyOrInsert (map : Map κ β) (key : κ) (modify : β → β) (default : β) (k : κ) :
    (andModifyOrInsert map key modify default).lookup k =
      if k = key then some (((map.lookup key).map modify).getD default) else map.lookup k := by
  by_cases same : k = key
  · subst same
    cases found : map.lookup k <;> simp [andModifyOrInsert, found, AList.lookup_insert]
  · cases found : map.lookup key <;> simp [andModifyOrInsert, found, AList.lookup_insert_ne same, same]

@[simp] theorem lookup_retain (keep : κ → β → Bool) (map : Map κ β) (k : κ) :
    (retain keep map).lookup k = (map.lookup k).filter (keep k) := by
  ext v
  rw [← Option.mem_def, AList.mem_lookup_iff, Option.filter_eq_some_iff, ← Option.mem_def, AList.mem_lookup_iff]
  simp [retain]

theorem lookup_orInsert (map : Map κ β) (key : κ) (value : β) (k : κ) :
    (orInsert map key value).lookup k = (map.lookup k).or (single key value k) := by
  by_cases same : k = key
  · subst same
    cases found : map.lookup k <;> simp [orInsert, found, single, AList.lookup_insert]
  · cases found : map.lookup key <;> simp [orInsert, found, single, AList.lookup_insert_ne same, same]

/-- Adding `c` where the key is, and starting it at `c` where it is not, merges the singleton. -/
theorem view_andModifyOrInsert_add [Add β] (map : Map κ β) (key : κ) (c : β) :
    view (andModifyOrInsert map key (· + c) c) = mergeWith (· + ·) (view map) (single key c) := by
  funext k
  rw [view, lookup_andModifyOrInsert]
  by_cases same : k = key
  · subst same
    cases found : map.lookup k <;> simp [mergeWith, single, view, found]
  · simp [mergeWith, single, view, same]

theorem view_orInsert (map : Map κ β) (key : κ) (value : β) :
    view (orInsert map key value) = prefer (view map) (single key value) := by
  funext k
  exact lookup_orInsert map key value k

/-- The key by key meaning of a loop over the entries of `other` whose pass for an entry writes
its key only: a key of `other` gets the pass's value, any other key keeps its own. -/
theorem lookup_foldl {step : Map κ β → κ → γ → Map κ β} {g : Option β → γ → Option β}
    (writes : ∀ acc key value k,
      (step acc key value).lookup k = if k = key then g (acc.lookup key) value else acc.lookup k)
    (other : Map κ γ) (k : κ) :
    ∀ map : Map κ β, (other.foldl step map).lookup k = (other.lookup k).elim (map.lookup k) (g (map.lookup k)) := by
  obtain ⟨entries, distinct⟩ := other
  show ∀ map : Map κ β, (entries.foldl (fun r e => step r e.1 e.2) map).lookup k =
    (entries.dlookup k).elim (map.lookup k) (g (map.lookup k))
  -- on the entries, whose keys are distinct, so that a key is written at most once
  induction entries with
  | nil => intro map; rfl
  | cons entry rest ih =>
    obtain ⟨key, value⟩ := entry
    intro map
    have restDistinct : rest.NodupKeys := (List.nodupKeys_cons.mp distinct).2
    have fresh : key ∉ rest.keys := (List.nodupKeys_cons.mp distinct).1
    rw [List.foldl_cons, ih restDistinct]
    by_cases same : k = key
    · subst same
      have absent : rest.dlookup k = none := List.dlookup_eq_none.mpr fresh
      simp [absent, writes, List.dlookup_cons_eq]
    · simp [writes, same, List.dlookup_cons_ne]

theorem view_extend (map other : Map κ β) : view (extend map other) = prefer (view other) (view map) := by
  funext k
  have inserts : ∀ (acc : Map κ β) key value k,
      (acc.insert key value).lookup k = if k = key then (fun _ value => some value) (acc.lookup key) value
        else acc.lookup k := by
    intro acc key value k
    by_cases same : k = key
    · subst same
      simp [AList.lookup_insert]
    · simp [AList.lookup_insert_ne same, same]
  rw [view, extend, lookup_foldl (g := fun _ value => some value) inserts other k map]
  cases found : other.lookup k <;> simp [prefer, view, found]

/-- A loop that adds each entry of `other` into `map` with `f`, starting a missing key at the
entry's value, merges the two maps key by key. -/
theorem lookup_foldl_andModifyOrInsert (f : β → β → β) (other map : Map κ β) (k : κ) :
    (other.foldl (fun acc key value => andModifyOrInsert acc key (fun e => f e value) value) map).lookup k =
      Option.merge f (map.lookup k) (other.lookup k) := by
  have upserts : ∀ (acc : Map κ β) key value k,
      (andModifyOrInsert acc key (fun e => f e value) value).lookup k =
        if k = key then (fun old value => some (((old.map fun e => f e value)).getD value)) (acc.lookup key) value
        else acc.lookup k :=
    fun acc key value k => lookup_andModifyOrInsert acc key _ value k
  rw [lookup_foldl (g := fun old value => some (((old.map fun e => f e value)).getD value)) upserts other k map]
  cases inOther : other.lookup k <;> cases inMap : map.lookup k <;> rfl

/-- A loop that inserts each entry of `other` into `map` where its key is missing prefers the
values of `map`. -/
theorem view_foldl_orInsert (other map : Map κ β) :
    view (other.foldl (fun acc key value => orInsert acc key value) map) = prefer (view map) (view other) := by
  funext k
  have inserts : ∀ (acc : Map κ β) key value k,
      (orInsert acc key value).lookup k =
        if k = key then (fun old value => old.or (some value)) (acc.lookup key) value else acc.lookup k := by
    intro acc key value k
    rw [lookup_orInsert]
    by_cases same : k = key
    · subst same
      simp [single]
    · simp [single, same]
  rw [view, lookup_foldl (g := fun old value => old.or (some value)) inserts other k map]
  cases inOther : other.lookup k <;> simp [prefer, view, inOther]

end Writes

section Translation

variable {σ α W ε : Type} (view : σ → W) (op : W → W → W) (empty : σ)

/-- A fold whose every pass combines the view of the state with the view of the same pass from
`empty` is the start's view combined with the fold from `empty`. -/
theorem foldl_translate (assoc : ∀ x y z, op (op x y) z = op x (op y z)) (unit : ∀ x, op x (view empty) = x)
    {step : σ → α → σ} (translates : ∀ acc a, view (step acc a) = op (view acc) (view (step empty a))) :
    ∀ (l : List α) (acc : σ), view (l.foldl step acc) = op (view acc) (view (l.foldl step empty)) := by
  intro l
  induction l with
  | nil => intro acc; exact (unit (view acc)).symm
  | cons a rest ih =>
    intro acc
    rw [List.foldl_cons, List.foldl_cons, ih (step acc a), ih (step empty a), translates acc a, assoc]

/-- `foldl_translate` for a fallible pass, whose failure does not depend on the state. -/
theorem foldlM_translate (assoc : ∀ x y z, op (op x y) z = op x (op y z)) (unit : ∀ x, op x (view empty) = x)
    {step : σ → α → Except ε σ}
    (translates : ∀ acc a, view <$> step acc a = (fun r => op (view acc) (view r)) <$> step empty a) :
    ∀ (l : List α) (acc : σ),
      view <$> l.foldlM step acc = (fun r => op (view acc) (view r)) <$> l.foldlM step empty := by
  intro l
  induction l with
  | nil =>
    intro acc
    simp only [List.foldlM_nil]
    exact congrArg Except.ok (unit (view acc)).symm
  | cons a rest ih =>
    intro acc
    have first := translates acc a
    simp only [List.foldlM_cons]
    -- the pass fails from both states alike, or gives states whose views are related
    cases fromEmpty : step empty a with
    | error e =>
      cases fromAcc : step acc a with
      | error e' =>
        simp only [fromEmpty, fromAcc, Except.functor_map_error] at first
        rw [Except.error.inj first]
        rfl
      | ok s => simp [fromEmpty, fromAcc] at first
    | ok t =>
      cases fromAcc : step acc a with
      | error e' => simp [fromEmpty, fromAcc] at first
      | ok s =>
        simp only [fromEmpty, fromAcc, Except.functor_map_ok] at first
        have related : view s = op (view acc) (view t) := Except.ok.inj first
        show view <$> rest.foldlM step s = (fun r => op (view acc) (view r)) <$> rest.foldlM step t
        have regroup : (fun r => op (view acc) (view r)) <$> rest.foldlM step t =
            op (view acc) <$> (view <$> rest.foldlM step t) := (Functor.map_map _ _ _).symm
        rw [ih s, related, regroup, ih t, Functor.map_map]
        congr 1
        funext r
        exact assoc _ _ _

/-- Two fallible computations related through views fail together. -/
theorem error_of_map_eq {f g : σ → W} {x y : Except ε σ} (same : f <$> x = g <$> y) {e : ε}
    (failed : y = .error e) : x = .error e := by
  subst failed
  cases x with
  | error e' => simp only [Except.functor_map_error] at same; rw [Except.error.inj same]
  | ok s => simp at same

/-- Two fallible computations related through views succeed together, with related results. -/
theorem ok_of_map_eq {f g : σ → W} {x y : Except ε σ} (same : f <$> x = g <$> y) {t : σ}
    (succeeded : y = .ok t) : ∃ s, x = .ok s ∧ f s = g t := by
  subst succeeded
  cases x with
  | error e => simp at same
  | ok s => exact ⟨s, rfl, Except.ok.inj same⟩

end Translation

section Total

variable {κ β M : Type}

/-- The sum of a weight over the values of a map. -/
def total [AddCommMonoid M] (map : Map κ β) (weight : β → M) : M := (map.entries.map fun e => weight e.2).sum

section
attribute [local simp] total
end

@[simp] theorem total_empty [AddCommMonoid M] (weight : β → M) : total (∅ : Map κ β) weight = 0 := rfl

/-- The weight of one value is at most the total. -/
theorem le_total_of_lookup [DecidableEq κ] {map : Map κ β} {k : κ} {value : β} (found : map.lookup k = some value)
    (weight : β → Nat) : weight value ≤ total map weight := by
  have member : weight value ∈ map.entries.map fun e => weight e.2 :=
    List.mem_map.2 ⟨⟨k, value⟩, AList.mem_lookup_iff.1 found, rfl⟩
  exact List.le_sum_of_mem member

/-- A loop over `other` whose pass adds the weight `gain value` adds the total of `other`. -/
theorem total_foldl [AddCommMonoid M] {γ : Type} {step : Map κ β → κ → γ → Map κ β} {weight : β → M}
    {gain : γ → M} (adds : ∀ acc key value, total (step acc key value) weight = total acc weight + gain value)
    (other : Map κ γ) : ∀ map : Map κ β, total (other.foldl step map) weight = total map weight + total other gain := by
  obtain ⟨entries, distinct⟩ := other
  show ∀ map, total (entries.foldl (fun r e => step r e.1 e.2) map) weight =
    total map weight + (entries.map fun e => gain e.2).sum
  clear distinct
  induction entries with
  | nil => intro map; simp
  | cons entry rest ih =>
    intro map
    rw [List.foldl_cons, ih, adds, List.map_cons, List.sum_cons, add_assoc]

variable [DecidableEq κ]

/-- Removing a key's first entry takes its value out of the sum. -/
theorem sum_kerase [AddCommMonoid M] (weight : β → M) (key : κ) :
    ∀ l : List (Sigma fun _ : κ => β),
      ((l.kerase key).map fun e => weight e.2).sum + ((l.dlookup key).map weight).getD 0 =
        (l.map fun e => weight e.2).sum
  | [] => by simp
  | entry :: rest => by
    by_cases same : key = entry.1
    · rw [List.kerase_cons_eq same, same, List.dlookup_cons_eq]
      simp [add_comm]
    · rw [List.kerase_cons_ne same, List.dlookup_cons_ne _ _ same]
      simp only [List.map_cons, List.sum_cons]
      rw [add_assoc, sum_kerase weight key rest]

theorem total_insert [AddCommMonoid M] (map : Map κ β) (key : κ) (value : β) (weight : β → M) :
    total (map.insert key value) weight + ((map.lookup key).map weight).getD 0 = total map weight + weight value := by
  simp only [total, AList.entries_insert, List.map_cons, List.sum_cons, AList.lookup]
  rw [add_assoc, sum_kerase weight key map.entries, add_comm]

/-- Adding `c` to a key, or starting it at `c`, adds the weight of `c` to the total. -/
theorem total_andModifyOrInsert [AddCancelCommMonoid M] (map : Map κ β) (key : κ) {modify : β → β}
    {default c : β} {weight : β → M} (additive : ∀ b, weight (modify b) = weight b + weight c)
    (starts : weight default = weight c) :
    total (andModifyOrInsert map key modify default) weight = total map weight + weight c := by
  cases found : map.lookup key with
  | none =>
    have inserted := total_insert map key default weight
    simp only [found, Option.map_none, Option.getD_none, add_zero] at inserted
    simp only [andModifyOrInsert, found, inserted, starts]
  | some value =>
    have inserted := total_insert map key (modify value) weight
    simp only [found, Option.map_some, Option.getD_some, additive] at inserted
    simp only [andModifyOrInsert, found]
    rw [← add_assoc, add_right_comm] at inserted
    exact add_right_cancel inserted

/-- The total depends on the map only through its view. -/
theorem total_eq_of_view [AddCommMonoid M] {a b : Map κ β} (same : view a = view b) (weight : β → M) :
    total a weight = total b weight := by
  have perm : a.entries.Perm b.entries := by
    apply List.lookup_ext a.nodupKeys b.nodupKeys
    intro k v
    have atK := congrFun same k
    simp only [view, AList.lookup] at atK
    rw [atK]
  exact (perm.map _).sum_eq

end Total

section Sizes

variable {κ β : Type} [DecidableEq κ]

/-- The keys of a map. -/
def keySet (map : Map κ β) : Finset κ := map.keys.toFinset

section
attribute [local simp] keySet
end

@[simp] theorem mem_keySet {map : Map κ β} {k : κ} : k ∈ keySet map ↔ (map.lookup k).isSome := by
  rw [keySet, List.mem_toFinset, ← AList.mem_keys, AList.lookup_isSome]

theorem length_eq_card_keySet (map : Map κ β) : map.entries.length = (keySet map).card := by
  rw [keySet, List.toFinset_card_of_nodup map.keys_nodup, AList.keys, List.keys, List.length_map]

/-- A map whose keys are all keys of another has at most as many entries. -/
theorem length_le_of_isSome {a b : Map κ β} (within : ∀ k, (a.lookup k).isSome → (b.lookup k).isSome) :
    a.entries.length ≤ b.entries.length := by
  rw [length_eq_card_keySet, length_eq_card_keySet]
  exact Finset.card_le_card fun k member => mem_keySet.2 (within k (mem_keySet.1 member))

/-- A map whose keys are keys of another, which has one more, has fewer entries. -/
theorem length_lt_of_isSome {a b : Map κ β} (within : ∀ k, (a.lookup k).isSome → (b.lookup k).isSome) {k : κ}
    (onlyB : (b.lookup k).isSome) (notA : a.lookup k = none) : a.entries.length < b.entries.length := by
  rw [length_eq_card_keySet, length_eq_card_keySet]
  refine Finset.card_lt_card (Finset.ssubset_iff_subset_ne.mpr ⟨fun k member => mem_keySet.2 (within k (mem_keySet.1 member)),
    fun same => ?_⟩)
  have member : k ∈ keySet a := same ▸ mem_keySet.2 onlyB
  rw [mem_keySet, notA] at member
  cases member

theorem length_eq_of_lookup {a b : Map κ β} (same : ∀ k, a.lookup k = b.lookup k) :
    a.entries.length = b.entries.length :=
  Nat.le_antisymm (length_le_of_isSome fun k => by rw [same k]; exact id)
    (length_le_of_isSome fun k => by rw [same k]; exact id)

theorem length_insert_of_lookup_eq_none {map : Map κ β} {key : κ} (value : β) (fresh : map.lookup key = none) :
    (map.insert key value).entries.length = map.entries.length + 1 := by
  rw [AList.entries_insert_of_notMem (AList.lookup_eq_none.1 fresh), List.length_cons]

theorem lookup_foldl_erase (keys : List κ) :
    ∀ (map : Map κ β) k, (keys.foldl (fun map key => map.erase key) map).lookup k =
      if k ∈ keys then none else map.lookup k := by
  induction keys with
  | nil => intro map k; simp
  | cons key rest ih =>
    intro map k
    rw [List.foldl_cons, ih]
    by_cases same : k = key
    · subst same
      simp [AList.lookup_erase]
    · simp [AList.lookup_erase_ne same, same]

theorem length_erase_add (map : Map κ β) (key : κ) :
    (map.erase key).entries.length + (if (map.lookup key).isSome then 1 else 0) = map.entries.length := by
  have erased : keySet (map.erase key) = (keySet map).erase key := by
    ext k
    by_cases same : k = key
    · subst same
      simp [AList.lookup_erase]
    · simp [AList.lookup_erase_ne same, same]
  rw [length_eq_card_keySet, length_eq_card_keySet, erased]
  split
  · exact Finset.card_erase_add_one (mem_keySet.2 ‹_›)
  · rw [Finset.erase_eq_of_notMem (fun member => ‹¬_› (mem_keySet.1 member)), Nat.add_zero]

end Sizes

section Order

variable {κ β : Type} [LinearOrder κ]

/-- The entries of a `BTreeMap`, in the order of its keys, as its iterators yield them. -/
def inOrder (map : Map κ β) : List (κ × β) :=
  (map.entries.map fun entry => (entry.1, entry.2)).insertionSort fun a b => a.1 ≤ b.1

section
attribute [local simp] inOrder
end

theorem mem_inOrder {map : Map κ β} {entry : κ × β} : entry ∈ inOrder map ↔ map.lookup entry.1 = some entry.2 := by
  rw [inOrder, (List.perm_insertionSort _ _).mem_iff, List.mem_map]
  constructor
  · rintro ⟨⟨k, v⟩, member, rfl⟩
    exact AList.mem_lookup_iff.mpr member
  · intro found
    exact ⟨⟨entry.1, entry.2⟩, AList.mem_lookup_iff.mp found, rfl⟩

/-- Each key comes once. -/
theorem nodup_keys_inOrder (map : Map κ β) : ((inOrder map).map Prod.fst).Nodup := by
  rw [inOrder, ((List.perm_insertionSort _ _).map Prod.fst).nodup_iff, List.map_map]
  exact map.keys_nodup

end Order

end EntryMap
