import Nearcore.Library.Window
import Nearcore.Trie.QueueOps

/-! The trie queues refine a `VecDeque`. A queue object and a `TrieUpdate` represent a list when
the cached indices are the stored ones, the indices span the list, and the item keys hold the
list's items from `first_index` on and nothing else (`List.Window`). Each operation takes a
represented list to the one `VecDeque` gives, with the same return value; a reload from the
trie gives back the same indices. -/
namespace Nearcore

namespace TrieQueue

variable {R Q α : Type} (queue : TrieQueue R Q α)

/-- What the default methods rely on of an implementation: a change through `indices_mut`
reaches the indices and leaves the item keys alone, the item keys are distinct and apart from
where the indices are written, and what is written is what is loaded. -/
structure Lawful : Prop where
  indices_indicesMut : ∀ q change, queue.indices (queue.indicesMut q change) = change (queue.indices q)
  trieKey_indicesMut : ∀ q change, queue.trieKey (queue.indicesMut q change) = queue.trieKey q
  trieKey_injective : ∀ q, Function.Injective (queue.trieKey q)
  writeIndices_trieKey : ∀ q trie index,
    queue.writeIndices q trie (queue.trieKey q index) = trie (queue.trieKey q index)
  loadIndices_writeIndices : ∀ q trie, queue.loadIndices q (queue.writeIndices q trie) = .ok (queue.indices q)
  loadIndices_update : ∀ q trie index value,
    queue.loadIndices q (Function.update trie (queue.trieKey q index) value) = queue.loadIndices q trie

/-- The queue's item keys, by index: what the trie holds under each. -/
def items (q : Q) (trie : TrieUpdate R) (i : Nat) : Option (StateValue R) :=
  if i < UInt64.size then trie (queue.trieKey q (UInt64.ofNat i)) else none

section
attribute [local simp] items
end

/-- The queue object and the trie represent `xs`: the cached indices are the stored ones,
`next_available_index` is `first_index` plus the length, and the trie holds an item exactly at
each index from `first_index` to `next_available_index`. -/
structure Represents (q : Q) (trie : TrieUpdate R) (xs : List α) : Prop where
  loaded : queue.loadIndices q trie = .ok (queue.indices q)
  next : (queue.indices q).firstIndex.toNat + xs.length = (queue.indices q).nextAvailableIndex.toNat
  window : List.Window (queue.items q trie) (queue.indices q).firstIndex.toNat (xs.map queue.item.encode)

/-- `min` of `u64`s in `Nat`. -/
theorem toNat_min (a b : UInt64) : (min a b).toNat = min a.toNat b.toNat := by
  by_cases le : a ≤ b
  · rw [show min a b = a from if_pos le, Nat.min_eq_left (UInt64.le_iff_toNat_le.mp le)]
  · have lt : b.toNat < a.toNat := Nat.lt_of_not_le (mt UInt64.le_iff_toNat_le.mpr le)
    rw [show min a b = b from if_neg le, Nat.min_eq_right (Nat.le_of_lt lt)]

section Frame

variable {β : Type} (key : Q → β) {q q' : Q} {trie trie' : TrieUpdate R}

/-- The default methods change the queue object only through `indices_mut`: what `key` reads
of it and `indices_mut` keeps, they keep. -/
theorem pushBack_keeps (keeps : ∀ q change, key (queue.indicesMut q change) = key q) {item : α}
    (pushed : queue.pushBack item (q, trie) = .ok ((), q', trie')) : key q' = key q := by
  simp only [pushBack] at pushed
  split at pushed
  · cases pushed
    exact keeps _ _
  · cases pushed

/-- `push_back` writes the indices back. -/
theorem pushBack_written {item : α} (pushed : queue.pushBack item (q, trie) = .ok ((), q', trie')) :
    ∃ t, trie' = queue.writeIndices q' t := by
  simp only [pushBack] at pushed
  split at pushed
  · cases pushed
    exact ⟨_, rfl⟩
  · cases pushed

theorem popFront_keeps (keeps : ∀ q change, key (queue.indicesMut q change) = key q) {a : Option α}
    (popped : queue.popFront (q, trie) = .ok (a, q', trie')) : key q' = key q := by
  simp only [popFront] at popped
  split at popped
  · cases popped
    rfl
  · split at popped
    · cases popped
    · cases popped
      exact keeps _ _

/-- `pop_front` of an item writes the indices back. -/
theorem popFront_written {a : α} (popped : queue.popFront (q, trie) = .ok (some a, q', trie')) :
    ∃ t, trie' = queue.writeIndices q' t := by
  simp only [popFront] at popped
  split at popped
  · cases popped
  · split at popped
    · cases popped
    · cases popped
      exact ⟨_, rfl⟩

theorem popBack_keeps (keeps : ∀ q change, key (queue.indicesMut q change) = key q) {a : Option α}
    (popped : queue.popBack (q, trie) = .ok (a, q', trie')) : key q' = key q := by
  simp only [popBack] at popped
  split at popped
  · cases popped
    rfl
  · split at popped
    · cases popped
    · cases popped
      exact keeps _ _

theorem modifyFirst_keeps (keeps : ∀ q change, key (queue.indicesMut q change) = key q)
    {modifyFn : α → Except QueueError (Option α)}
    (modified : queue.modifyFirst modifyFn (q, trie) = .ok ((), q', trie')) : key q' = key q := by
  simp only [modifyFirst] at modified
  split at modified
  · cases modified
  · split at modified
    · cases modified
    · split at modified
      · cases modified
      · cases modified
        rfl
      · -- the item goes: the rest is `pop_front`
        split at modified
        · cases modified
        · cases modified
          exact popFront_keeps queue key keeps (by assumption)

/-- `modify_first` writes the indices back, whether it rewrites the item or removes it. -/
theorem modifyFirst_written {modifyFn : α → Except QueueError (Option α)}
    (modified : queue.modifyFirst modifyFn (q, trie) = .ok ((), q', trie')) :
    ∃ t, trie' = queue.writeIndices q' t := by
  simp only [modifyFirst] at modified
  split at modified
  · cases modified
  · rename_i nonempty
    split at modified
    · cases modified
    · split at modified
      · cases modified
      · cases modified
        exact ⟨_, rfl⟩
      · split at modified
        · cases modified
        · cases modified
          rename_i popped
          simp only [popFront, nonempty, if_false] at popped
          split at popped
          · cases popped
          · cases popped
            exact ⟨_, rfl⟩

end Frame

/-- A `u64` addition that does not wrap. -/
theorem toNat_add_of_lt {a b : UInt64} (fits : a.toNat + b.toNat < UInt64.size) : (a + b).toNat = a.toNat + b.toNat := by
  rw [UInt64.toNat_add, Nat.mod_eq_of_lt fits]

/-- The queue object and trie stand for a deque: they represent its items, its front at
`first_index`. -/
structure Simulates (q : Q) (trie : TrieUpdate R) (deque : Deque α) : Prop where
  represents : queue.Represents q trie deque.items
  front : (queue.indices q).firstIndex.toNat = deque.front

/-- What a reload keeps: from a trie that holds the cached indices, it gives an object with
the same indices, item keys and stored indices. -/
def Reloads (load : Q → TrieUpdate R → Except StorageError Q) : Prop :=
  ∀ q trie, queue.loadIndices q trie = .ok (queue.indices q) →
    ∃ q', load q trie = .ok q' ∧ queue.indices q' = queue.indices q ∧ queue.trieKey q' = queue.trieKey q ∧
      queue.loadIndices q' = queue.loadIndices q

section Lawful

variable {queue} (lawful : queue.Lawful)
include lawful

theorem items_update (q : Q) (trie : TrieUpdate R) (index : UInt64) (value : Option (StateValue R)) :
    queue.items q (Function.update trie (queue.trieKey q index) value) =
      Function.update (queue.items q trie) index.toNat value := by
  funext i
  unfold items
  by_cases at_index : i = index.toNat
  · subst at_index
    simp [UInt64.toNat_lt_size]
  · rw [Function.update_of_ne at_index]
    split_ifs with inside
    · have apart : UInt64.ofNat i ≠ index := fun same => at_index (by
        rw [← same, UInt64.toNat_ofNat_of_lt' inside])
      rw [Function.update_of_ne ((lawful.trieKey_injective q).ne apart)]
    · rfl

theorem items_writeIndices (q : Q) (trie : TrieUpdate R) :
    queue.items q (queue.writeIndices q trie) = queue.items q trie := by
  funext i
  simp [items, lawful.writeIndices_trieKey]

theorem items_indicesMut (q : Q) (change : TrieQueueIndices → TrieQueueIndices) :
    queue.items (queue.indicesMut q change) = queue.items q := by
  funext trie i
  simp [items, lawful.trieKey_indicesMut]

theorem items_after (q : Q) (change : TrieQueueIndices → TrieQueueIndices) (trie : TrieUpdate R) :
    queue.items (queue.indicesMut q change) (queue.writeIndices (queue.indicesMut q change) trie) =
      queue.items q trie := by
  rw [items_writeIndices lawful, items_indicesMut lawful]

/-- The loop of `pop_n` clears the item keys of the `count` indices from `index` on. -/
theorem items_removeFrom (q : Q) (index : UInt64) (count : Nat) (trie : TrieUpdate R)
    (fits : index.toNat + count < UInt64.size) :
    queue.items q (queue.removeFrom q index count trie) =
      fun i => if index.toNat ≤ i ∧ i < index.toNat + count then none else queue.items q trie i := by
  induction count generalizing index trie with
  | zero =>
    funext i
    simp [removeFrom]
  | succ count ih =>
    have next : (index + 1).toNat = index.toNat + 1 := by
      rw [toNat_add_of_lt (by rw [UInt64.toNat_one]; omega), UInt64.toNat_one]
    rw [removeFrom, ih (index + 1) _ (by omega), remove, items_update lawful, next]
    funext i
    by_cases at_index : i = index.toNat
    · simp [at_index]
    · rw [Function.update_of_ne at_index]
      congr 1
      apply propext
      omega

end Lawful

namespace Represents

variable {queue} {q : Q} {trie : TrieUpdate R} {xs : List α} (rep : queue.Represents q trie xs)
include rep

theorem next_lt_size : (queue.indices q).firstIndex.toNat + xs.length < UInt64.size :=
  rep.next ▸ UInt64.toNat_lt_size _

/-- The item at position `j` is stored under index `first_index + j`. -/
theorem stored {j : Nat} (inside : j < xs.length) :
    trie (queue.trieKey q ((queue.indices q).firstIndex + UInt64.ofNat j)) = some (queue.item.encode xs[j]) := by
  have bound := rep.next_lt_size
  have held := rep.window.apply_add j
  have index : UInt64.ofNat ((queue.indices q).firstIndex.toNat + j) =
      (queue.indices q).firstIndex + UInt64.ofNat j := by
    apply UInt64.toNat_inj.mp
    simp [UInt64.toNat_add]
  have small : (queue.indices q).firstIndex.toNat + j < UInt64.size := by omega
  rw [items, if_pos small, index] at held
  simpa [inside] using held

theorem getItem {j : Nat} (inside : j < xs.length) (message : String) :
    queue.getItem trie (queue.trieKey q ((queue.indices q).firstIndex + UInt64.ofNat j)) message = .ok xs[j] := by
  simp only [TrieQueue.getItem, get_of_eq queue.item (rep.stored inside)]

/-- The queue is empty, in its indices, exactly when the list is. -/
theorem empty_iff : (queue.indices q).firstIndex ≥ (queue.indices q).nextAvailableIndex ↔ xs = [] := by
  have next := rep.next
  rw [ge_iff_le, UInt64.le_iff_toNat_le, ← List.length_eq_zero_iff]
  omega

/-- `iter` reads the list front to back. -/
theorem iter : queue.iter q trie = xs.map Except.ok := by
  have length : (queue.indices q).len = xs.length := by
    have next := rep.next
    simp only [TrieQueueIndices.len]
    omega
  apply List.ext_getElem
  · simp [TrieQueue.iter, length]
  · intro j _ inside
    rw [List.length_map] at inside
    simp [TrieQueue.iter, rep.getItem inside]

/-- An object with the same indices, item keys and stored indices represents the same list. -/
theorem congr {q' : Q} (indices : queue.indices q' = queue.indices q) (keys : queue.trieKey q' = queue.trieKey q)
    (loads : queue.loadIndices q' = queue.loadIndices q) : queue.Represents q' trie xs := by
  have items : queue.items q' trie = queue.items q trie := by
    funext i
    simp [TrieQueue.items, keys]
  refine ⟨?_, ?_, ?_⟩
  · rw [loads, indices]
    exact rep.loaded
  · rw [indices]
    exact rep.next
  · rw [items, indices]
    exact rep.window

/-- A reload represents the same list. -/
theorem reload {load : Q → TrieUpdate R → Except StorageError Q} (reloads : queue.Reloads load) :
    ∃ q', load q trie = .ok q' ∧ queue.Represents q' trie xs ∧ queue.indices q' = queue.indices q := by
  obtain ⟨q', loaded, indices, keys, loads⟩ := reloads q trie rep.loaded
  exact ⟨q', loaded, rep.congr indices keys loads, indices⟩

end Represents

section Steps

variable {queue} (lawful : queue.Lawful) {q : Q} {trie : TrieUpdate R} {xs : List α}
include lawful

/-- After the indices are written, the trie represents a list when the indices span it and
the item keys hold it. -/
theorem represents_writeIndices {q' : Q} {trie' : TrieUpdate R} {ys : List α}
    (next : (queue.indices q').firstIndex.toNat + ys.length = (queue.indices q').nextAvailableIndex.toNat)
    (window : List.Window (queue.items q' trie') (queue.indices q').firstIndex.toNat (ys.map queue.item.encode)) :
    queue.Represents q' (queue.writeIndices q' trie') ys :=
  ⟨lawful.loadIndices_writeIndices q' trie', next, by rwa [items_writeIndices lawful]⟩

theorem Represents.popFront (rep : queue.Represents q trie xs) :
    ∃ q' trie', queue.popFront (q, trie) = .ok (xs.head?, q', trie') ∧ queue.Represents q' trie' xs.tail ∧
      (queue.indices q').firstIndex.toNat = (queue.indices q).firstIndex.toNat + min 1 xs.length := by
  cases xs with
  | nil => exact ⟨q, trie, by simp [TrieQueue.popFront, rep.empty_iff.mpr rfl], rep, by simp⟩
  | cons a rest =>
    have nonempty : ¬ (queue.indices q).firstIndex ≥ (queue.indices q).nextAvailableIndex := by
      simp [rep.empty_iff]
    have read := rep.getItem (j := 0) (by simp)
    simp only [show UInt64.ofNat 0 = 0 from rfl, UInt64.add_zero, List.getElem_cons_zero] at read
    have bound := rep.next_lt_size
    have advanced : ((queue.indices q).firstIndex + 1).toNat = (queue.indices q).firstIndex.toNat + 1 := by
      rw [UInt64.toNat_add, UInt64.toNat_one, Nat.mod_eq_of_lt]
      simp only [List.length_cons] at bound
      have size : UInt64.size = 2 ^ 64 := rfl
      omega
    let q' := queue.indicesMut q fun indices => { indices with firstIndex := indices.firstIndex + 1 }
    have first' : (queue.indices q').firstIndex.toNat = (queue.indices q).firstIndex.toNat + 1 := by
      simp [q', lawful.indices_indicesMut, advanced]
    refine ⟨q', queue.writeIndices q' (remove trie (queue.trieKey q (queue.indices q).firstIndex)),
      by simp [TrieQueue.popFront, nonempty, read, q'], ?_, by simp [first']⟩
    apply represents_writeIndices lawful
    · have next := rep.next
      have same : (queue.indices q').nextAvailableIndex = (queue.indices q).nextAvailableIndex := by
        simp [q', lawful.indices_indicesMut]
      simp only [List.length_cons] at next
      rw [first', same, List.tail_cons]
      omega
    · rw [first', remove, items_indicesMut lawful, items_update lawful]
      simpa using rep.window.popFront

theorem Represents.pushBack (rep : queue.Represents q trie xs) (item : α)
    (room : (queue.indices q).firstIndex.toNat + xs.length + 1 < UInt64.size) :
    ∃ q' trie', queue.pushBack item (q, trie) = .ok ((), q', trie') ∧
      queue.Represents q' trie' (xs ++ [item]) ∧ (queue.indices q').firstIndex = (queue.indices q).firstIndex := by
  have next := rep.next
  have fits : (queue.indices q).nextAvailableIndex.toNat + 1 < UInt64.size := by omega
  have advanced : ((queue.indices q).nextAvailableIndex + 1).toNat =
      (queue.indices q).nextAvailableIndex.toNat + 1 := by
    rw [UInt64.toNat_add, UInt64.toNat_one, Nat.mod_eq_of_lt fits]
  let q' := queue.indicesMut q fun indices =>
    { indices with nextAvailableIndex := (queue.indices q).nextAvailableIndex + 1 }
  have first' : (queue.indices q').firstIndex = (queue.indices q).firstIndex := by
    simp [q', lawful.indices_indicesMut]
  have next' : (queue.indices q').nextAvailableIndex.toNat = (queue.indices q).nextAvailableIndex.toNat + 1 := by
    simp [q', lawful.indices_indicesMut, advanced]
  refine ⟨q', queue.writeIndices q' (set queue.item trie (queue.trieKey q (queue.indices q).nextAvailableIndex) item),
    by simp [TrieQueue.pushBack, fits, q'], ?_, first'⟩
  apply represents_writeIndices lawful
  · rw [first', next', List.length_append, List.length_singleton]
    omega
  · rw [first', set, items_indicesMut lawful, items_update lawful, ← next, List.map_append, List.map_singleton]
    simpa using rep.window.push (queue.item.encode item)

omit lawful in
/-- `push_back` fails at the last index, `u64::MAX`. -/
theorem Represents.pushBack_full (rep : queue.Represents q trie xs) (item : α)
    (full : ¬ (queue.indices q).firstIndex.toNat + xs.length + 1 < UInt64.size) :
    queue.pushBack item (q, trie) = .error .integerOverflow := by
  have fits : ¬ (queue.indices q).nextAvailableIndex.toNat + 1 < UInt64.size := by
    rw [← rep.next]
    exact full
  simp [TrieQueue.pushBack, fits]

theorem Represents.popBack (rep : queue.Represents q trie xs) :
    ∃ q' trie', queue.popBack (q, trie) = .ok (xs.getLast?, q', trie') ∧ queue.Represents q' trie' xs.dropLast ∧
      (queue.indices q').firstIndex = (queue.indices q).firstIndex := by
  rcases xs.eq_nil_or_concat with empty | ⟨init, a, rfl⟩
  · subst empty
    exact ⟨q, trie, by simp [TrieQueue.popBack, rep.empty_iff.mpr rfl], rep, rfl⟩
  · simp only [List.concat_eq_append] at rep ⊢
    have nonempty : ¬ (queue.indices q).firstIndex ≥ (queue.indices q).nextAvailableIndex := by
      simp [rep.empty_iff]
    have next := rep.next
    simp only [List.length_append, List.length_singleton] at next
    have bound := UInt64.toNat_lt_size (queue.indices q).nextAvailableIndex
    have small : init.length < UInt64.size := by omega
    have lastIndex : ((queue.indices q).firstIndex + UInt64.ofNat init.length).toNat =
        (queue.indices q).firstIndex.toNat + init.length := by
      rw [toNat_add_of_lt (by rw [UInt64.toNat_ofNat_of_lt' small]; omega), UInt64.toNat_ofNat_of_lt' small]
    -- the last item sits just below `next_available_index`
    have last : (queue.indices q).nextAvailableIndex - 1 = (queue.indices q).firstIndex + UInt64.ofNat init.length := by
      apply UInt64.toNat_inj.mp
      rw [lastIndex, UInt64.toNat_sub_of_le _ _ (UInt64.le_iff_toNat_le.mpr (by simp; omega)), UInt64.toNat_one]
      omega
    have read := rep.getItem (j := init.length) (by simp)
    simp only [List.getElem_append_right (Nat.le_refl _), Nat.sub_self, List.getElem_cons_zero] at read
    rw [← last] at read
    let q' := queue.indicesMut q fun indices =>
      { indices with nextAvailableIndex := (queue.indices q).nextAvailableIndex - 1 }
    have first' : (queue.indices q').firstIndex = (queue.indices q).firstIndex := by
      simp [q', lawful.indices_indicesMut]
    have next' : (queue.indices q').nextAvailableIndex.toNat = (queue.indices q).firstIndex.toNat + init.length := by
      simp [q', lawful.indices_indicesMut, last, lastIndex]
    refine ⟨q', queue.writeIndices q' (remove trie (queue.trieKey q ((queue.indices q).nextAvailableIndex - 1))),
      by simp [TrieQueue.popBack, nonempty, read, q'], ?_, first'⟩
    apply represents_writeIndices lawful
    · rw [first', next']
      simp
    · have window := rep.window
      rw [List.map_append, List.map_singleton] at window
      rw [first', remove, items_indicesMut lawful, items_update lawful, last, lastIndex]
      simpa using window.popBack

theorem Represents.modifyFirst {a : α} {rest : List α} (rep : queue.Represents q trie (a :: rest))
    (modifyFn : α → Except QueueError (Option α)) {result : Option α} (modified : modifyFn a = .ok result) :
    ∃ q' trie', queue.modifyFirst modifyFn (q, trie) = .ok ((), q', trie') ∧
      queue.Represents q' trie' (result.toList ++ rest) ∧
      (queue.indices q').firstIndex.toNat = (queue.indices q).firstIndex.toNat + (if result.isSome then 0 else 1) := by
  have nonempty : ¬ (queue.indices q).firstIndex ≥ (queue.indices q).nextAvailableIndex := by
    simp [rep.empty_iff]
  have read := rep.getItem (j := 0) (by simp)
  simp only [show UInt64.ofNat 0 = 0 from rfl, UInt64.add_zero, List.getElem_cons_zero] at read
  cases result with
  | some item =>
    -- the item is rewritten in place and the unchanged indices written back
    refine ⟨q, queue.writeIndices q (set queue.item trie (queue.trieKey q (queue.indices q).firstIndex) item),
      by simp [TrieQueue.modifyFirst, nonempty, read, modified], ?_, by simp⟩
    apply represents_writeIndices lawful
    · simpa using rep.next
    · rw [set, items_update lawful]
      simpa using rep.window.setFront (queue.item.encode item)
  | none =>
    -- the item goes: the rest is `pop_front`
    obtain ⟨q', trie', popped, rep', first'⟩ := rep.popFront lawful
    refine ⟨q', trie', ?_, by simpa using rep', by simpa using first'⟩
    simp [TrieQueue.modifyFirst, nonempty, read, modified, popped]

/-- `pop_n` drops the first `n` items, or all of them, and returns how many it dropped. -/
theorem Represents.popN (rep : queue.Represents q trie xs) (n : UInt64) :
    ∃ removed q' trie', queue.popN n (q, trie) = .ok (removed, q', trie') ∧
      removed.toNat = min n.toNat xs.length ∧ queue.Represents q' trie' (xs.drop n.toNat) ∧
      (queue.indices q').firstIndex.toNat = (queue.indices q).firstIndex.toNat + min n.toNat xs.length := by
  have next := rep.next
  have bound := rep.next_lt_size
  have ordered : (queue.indices q).firstIndex ≤ (queue.indices q).nextAvailableIndex :=
    UInt64.le_iff_toNat_le.mpr (by omega)
  set toRemove := min n (if (queue.indices q).firstIndex ≤ (queue.indices q).nextAvailableIndex then
    (queue.indices q).nextAvailableIndex - (queue.indices q).firstIndex else 0) with toRemove_def
  have removed : toRemove.toNat = min n.toNat xs.length := by
    rw [toRemove_def, toNat_min, if_pos ordered, UInt64.toNat_sub_of_le _ _ ordered]
    omega
  have fits : (queue.indices q).firstIndex.toNat + toRemove.toNat < UInt64.size := by omega
  -- every item dropped is `n` items or the whole list
  have dropped : xs.drop n.toNat = xs.drop toRemove.toNat := by
    rw [removed]
    rcases Nat.le_total n.toNat xs.length with short | long
    · rw [Nat.min_eq_left short]
    · rw [Nat.min_eq_right long, List.drop_of_length_le long, List.drop_length]
  have window : List.Window (queue.items q (queue.removeFrom q (queue.indices q).firstIndex toRemove.toNat trie))
      ((queue.indices q).firstIndex.toNat + toRemove.toNat) ((xs.drop n.toNat).map queue.item.encode) := by
    rw [items_removeFrom lawful _ _ _ _ fits, dropped, List.map_drop]
    exact rep.window.drop toRemove.toNat
  by_cases some : toRemove > 0
  · let q' := queue.indicesMut q fun current =>
      { current with firstIndex := (queue.indices q).firstIndex + toRemove }
    have first' : (queue.indices q').firstIndex.toNat = (queue.indices q).firstIndex.toNat + toRemove.toNat := by
      simp [q', lawful.indices_indicesMut, toNat_add_of_lt fits]
    refine ⟨toRemove, q', queue.writeIndices q' (queue.removeFrom q (queue.indices q).firstIndex toRemove.toNat trie),
      by simp [TrieQueue.popN, ← toRemove_def, fits, some, q'], removed, ?_, by rw [first', removed]⟩
    apply represents_writeIndices lawful
    · have same : (queue.indices q').nextAvailableIndex = (queue.indices q).nextAvailableIndex := by
        simp [q', lawful.indices_indicesMut]
      rw [first', same, List.length_drop]
      omega
    · rw [first', items_indicesMut lawful]
      exact window
  · -- nothing to drop: the trie and the indices stay as they are
    have none : toRemove.toNat = 0 := by
      simpa [UInt64.lt_iff_toNat_lt] using some
    refine ⟨toRemove, q, trie, by simp [TrieQueue.popN, ← toRemove_def, some, none, removeFrom, UInt64.toNat_lt_size], removed, ?_,
      by rw [← removed, none]; rfl⟩
    rw [dropped, none, List.drop_zero]
    exact rep

end Steps

/-- A queue whose indices are stored, equal and with no item under any index stands for the
empty deque. -/
theorem simulates_empty {q : Q} {trie : TrieUpdate R} (loaded : queue.loadIndices q trie = .ok (queue.indices q))
    (empty : (queue.indices q).firstIndex = (queue.indices q).nextAvailableIndex)
    (noItems : ∀ index, trie (queue.trieKey q index) = none) :
    queue.Simulates q trie ⟨(queue.indices q).firstIndex.toNat, []⟩ :=
  ⟨⟨loaded, by simp [empty], List.Window.nil_iff.mpr fun i => by simp [items, noItems]⟩, rfl⟩

/-- A trie queue refines a `VecDeque`: from any object and trie that stand for a deque, every
run of allowed operations, reloads among them, returns what the deque returns and leaves an
object and trie that stand for the deque after it, whose `iter` yields its items in order. -/
def RefinesVecDeque (load : Q → TrieUpdate R → Except StorageError Q) : Prop :=
  ∀ q trie (deque : Deque α) ops, queue.Simulates q trie deque → deque.Admits ops →
    ∃ q' trie', ops.mapM (QueueOp.apply queue load) (q, trie) = .ok ((deque.run ops).1, q', trie') ∧
      queue.Simulates q' trie' (deque.run ops).2 ∧ queue.iter q' trie' = (deque.run ops).2.items.map .ok

section Run

variable {queue} (lawful : queue.Lawful) {load : Q → TrieUpdate R → Except StorageError Q}
  (reloads : queue.Reloads load)
include lawful reloads

/-- Each allowed operation returns on the trie queue what it returns on the deque it stands
for, and leaves a queue that stands for the deque after it. -/
theorem Simulates.step {q : Q} {trie : TrieUpdate R} {deque : Deque α} (sim : queue.Simulates q trie deque)
    (op : QueueOp α) (allowed : op.Allowed deque) :
    ∃ q' trie', op.apply queue load (q, trie) = .ok ((op.step deque).1, q', trie') ∧
      queue.Simulates q' trie' (op.step deque).2 := by
  obtain ⟨rep, front⟩ := sim
  cases op with
  | pushBack item =>
    obtain ⟨q', trie', pushed, rep', first'⟩ := rep.pushBack lawful item (by rw [front]; exact allowed)
    refine ⟨q', trie', ?_, rep', by simp [QueueOp.step, QueueOp.frontShift, first', front]⟩
    simp [QueueOp.apply, StateT.bind_apply_of_ok pushed, QueueOp.step, QueueOp.vecDeque]
  | popFront =>
    obtain ⟨q', trie', popped, rep', first'⟩ := rep.popFront lawful
    exact ⟨q', trie', StateT.map_apply_of_ok popped, rep', by simp [QueueOp.step, QueueOp.frontShift, first', front]⟩
  | popBack =>
    obtain ⟨q', trie', popped, rep', first'⟩ := rep.popBack lawful
    exact ⟨q', trie', StateT.map_apply_of_ok popped, rep', by simp [QueueOp.step, QueueOp.frontShift, first', front]⟩
  | modifyFirst modifyFn =>
    -- the allowed `modify_first` has an item to modify
    obtain ⟨a, rest, items⟩ := List.exists_cons_of_ne_nil allowed
    rw [items] at rep
    obtain ⟨q', trie', modified, rep', first'⟩ := rep.modifyFirst lawful (fun a => pure (modifyFn a)) rfl
    refine ⟨q', trie', ?_, ⟨by simpa [QueueOp.step, QueueOp.vecDeque, items] using rep', ?_⟩⟩
    · rw [QueueOp.apply, StateT.bind_apply_of_ok modified]
      simp [QueueOp.step, QueueOp.vecDeque, items]
    · simp [QueueOp.step, QueueOp.frontShift, items, first', front]
  | popN n =>
    obtain ⟨removed, q', trie', popped, count, rep', first'⟩ := rep.popN lawful n
    have same : removed = UInt64.ofNat (min n.toNat deque.items.length) := by
      rw [← count, UInt64.ofNat_toNat]
    refine ⟨q', trie', ?_, rep', by simp [QueueOp.step, QueueOp.frontShift, first', front]⟩
    rw [QueueOp.apply, StateT.map_apply_of_ok popped, same]
    rfl
  | reload =>
    obtain ⟨q', loaded, rep', indices⟩ := rep.reload reloads
    refine ⟨q', trie, ?_, rep', by simp [QueueOp.step, QueueOp.frontShift, indices, front]⟩
    simp [QueueOp.apply, loaded, QueueOp.step, QueueOp.vecDeque]

/-- A run of allowed operations returns on the trie queue what it returns on the deque, by
induction on the run from `Simulates.step`. -/
theorem Simulates.run : ∀ {q : Q} {trie : TrieUpdate R} {deque : Deque α} (ops : List (QueueOp α)),
    queue.Simulates q trie deque → deque.Admits ops →
      ∃ q' trie', ops.mapM (QueueOp.apply queue load) (q, trie) = .ok ((deque.run ops).1, q', trie') ∧
        queue.Simulates q' trie' (deque.run ops).2
  | q, trie, deque, [], sim, _ => ⟨q, trie, rfl, sim⟩
  | q, trie, deque, op :: ops, sim, admits => by
    obtain ⟨allowed, rest⟩ := admits
    obtain ⟨q₁, trie₁, first, sim₁⟩ := sim.step lawful reloads op allowed
    obtain ⟨q', trie', others, sim'⟩ := Simulates.run ops sim₁ rest
    refine ⟨q', trie', ?_, sim'⟩
    rw [StateT.mapM_cons_apply_of_ok first, others]
    rfl

theorem refinesVecDeque_of_lawful : queue.RefinesVecDeque load := by
  intro q trie deque ops sim admits
  obtain ⟨q', trie', ran, sim'⟩ := sim.run lawful reloads ops admits
  exact ⟨q', trie', ran, sim', sim'.represents.iter⟩

end Run

end TrieQueue

end Nearcore
