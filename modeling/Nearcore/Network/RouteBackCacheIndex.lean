import Nearcore.Network.RouteBackCache

/-! The invariant of the route back cache: its two indexes agree with `main`. The records of a
target are the entries of `main` for it, every target of `main` has its records, and
`size_per_target` holds, for each target with records, `capacity` minus their number; `main`
holds at most `capacity` entries. Each call keeps it, from any cache that has it, as long as
`remove_frequent_min_size` is positive; so it holds along every run from `new`, no call of such a
run panics, and `check_consistency` holds after each.

Every write of the cache takes records of one target out of the three maps (`remove_frequent`,
a pass of the loop of `remove_evicted`, `remove`) or puts one record in (`insert`). The first
kind is proved once (`Indexed.removeTargetRecords`), each call then only shows its writes are of
that kind. -/
namespace Nearcore.Network

open EntryMap Unsigned Collections

namespace RouteBackCache

variable {η π : Type}

section Records

variable [LinearOrder η] [LinearOrder π]

/-- The hashes of a set of records. -/
def hashes (records : Finset (Nat ×ₗ η)) : Finset η := records.image fun record => (ofLex record).2

section
attribute [local simp] hashes
end

@[simp] theorem mem_hashes {records : Finset (Nat ×ₗ η)} {hash : η} :
    hash ∈ hashes records ↔ ∃ time, toLex (time, hash) ∈ records := by
  simp only [hashes, Finset.mem_image]
  constructor
  · rintro ⟨record, member, rfl⟩
    exact ⟨(ofLex record).1, member⟩
  · rintro ⟨time, member⟩
    exact ⟨_, member, rfl⟩

omit [LinearOrder π] in
theorem lookup_removeRecords (main : Map η (Nat × π)) (records : Finset (Nat ×ₗ η)) (hash : η) :
    (removeRecords main records).lookup hash = if hash ∈ hashes records then none else main.lookup hash := by
  have erased : removeRecords main records =
      ((iter records).map fun record => (ofLex record).2).foldl (fun main hash => main.erase hash) main := by
    rw [removeRecords, List.foldl_map]
  rw [erased, lookup_foldl_erase]
  congr 1
  simp only [List.mem_map, mem_iter, hashes, Finset.mem_image]

/-- A record is older than `remove_until` exactly when it is below the bound `remove_evicted`
splits at. -/
@[simp] theorem toLex_bot_le [OrderBot η] {removeUntil time : Nat} {hash : η} :
    toLex (removeUntil, (⊥ : η)) ≤ toLex (time, hash) ↔ removeUntil ≤ time := by
  rw [Prod.Lex.toLex_le_toLex]
  constructor
  · rintro (lt | ⟨rfl, -⟩)
    · exact lt.le
    · exact le_rfl
  · intro le
    rcases le.lt_or_eq with lt | rfl
    · exact .inl lt
    · exact .inr ⟨rfl, bot_le⟩

@[simp] theorem toLex_lt_toLex_bot [OrderBot η] {removeUntil time : Nat} {hash : η} :
    toLex (time, hash) < toLex (removeUntil, (⊥ : η)) ↔ time < removeUntil := by
  rw [← not_le, toLex_bot_le, not_le]

theorem splitFrequent_fst_subset (records : Finset (Nat ×ₗ η)) (minSize : Nat) :
    (splitFrequent records minSize).1 ⊆ records := by
  unfold splitFrequent
  split
  · exact fun _ member => (mem_splitOff_fst.mp member).1
  · exact subset_rfl

/-- What `remove_frequent` keeps is what it does not take. -/
theorem mem_splitFrequent_snd {records : Finset (Nat ×ₗ η)} {minSize : Nat} {record : Nat ×ₗ η} :
    record ∈ (splitFrequent records minSize).2 ↔ record ∈ records ∧ record ∉ (splitFrequent records minSize).1 := by
  unfold splitFrequent
  split
  · rw [mem_splitOff_snd, mem_splitOff_fst, not_and, not_lt]
    exact ⟨fun ⟨member, ge⟩ => ⟨member, fun _ => ge⟩, fun ⟨member, ge⟩ => ⟨member, ge member⟩⟩
  · simp

/-- `remove_frequent` takes `remove_frequent_min_size` records, or all when there are fewer. -/
theorem card_splitFrequent_fst (records : Finset (Nat ×ₗ η)) (minSize : Nat) :
    (splitFrequent records minSize).1.card = min minSize records.card := by
  unfold splitFrequent
  split
  · rename_i key found
    have above : minSize < records.card := by
      by_contra below
      rw [nth_eq_none.mpr (by omega)] at found
      cases found
    rw [splitOff, card_filter_lt_nth found, min_eq_left above.le]
  · rename_i found
    rw [min_eq_right (nth_eq_none.mp found)]

/-- A record of a target is among those `remove_frequent` takes exactly when fewer than
`remove_frequent_min_size` records of the target are below it: it takes the oldest. -/
theorem mem_splitFrequent_fst_iff {records : Finset (Nat ×ₗ η)} {minSize : Nat} {record : Nat ×ₗ η}
    (member : record ∈ records) :
    record ∈ (splitFrequent records minSize).1 ↔ (records.filter (· < record)).card < minSize := by
  unfold splitFrequent
  split
  · rename_i key found
    rw [mem_splitOff_fst, ← card_filter_lt_nth found]
    constructor
    · -- the records below it are among those below the split, which it is one of
      rintro ⟨-, below⟩
      refine Finset.card_lt_card (Finset.ssubset_iff_subset_ne.mpr ⟨fun other lower => ?_, fun same => ?_⟩)
      · rw [Finset.mem_filter] at lower ⊢
        exact ⟨lower.1, lower.2.trans below⟩
      · have listed : record ∈ records.filter (· < key) := Finset.mem_filter.mpr ⟨member, below⟩
        rw [← same, Finset.mem_filter] at listed
        exact lt_irrefl _ listed.2
    · -- a record from the split on has all those below the split below it
      intro fewer
      refine ⟨member, lt_of_not_ge fun above => Nat.lt_irrefl _ (fewer.trans_le (Finset.card_le_card ?_))⟩
      intro other lower
      rw [Finset.mem_filter] at lower ⊢
      exact ⟨lower.1, lower.2.trans_le above⟩
  · rename_i found
    have within : (records.filter (· < record)).card < records.card :=
      Finset.card_lt_card (Finset.ssubset_iff_subset_ne.mpr ⟨Finset.filter_subset _ _, fun same => by
        have listed := member
        rw [← same, Finset.mem_filter] at listed
        exact lt_irrefl _ listed.2⟩)
    exact iff_of_true member (within.trans_le (nth_eq_none.mp found))

/-- What `remove_frequent` takes and what it keeps hold the target's records between them. -/
theorem card_splitFrequent (records : Finset (Nat ×ₗ η)) (minSize : Nat) :
    (splitFrequent records minSize).1.card + (splitFrequent records minSize).2.card = records.card := by
  have keep : (splitFrequent records minSize).2 = records \ (splitFrequent records minSize).1 := by
    ext record
    rw [mem_splitFrequent_snd, Finset.mem_sdiff]
  rw [keep, Nat.add_comm, Finset.card_sdiff_add_card_eq_card (splitFrequent_fst_subset records minSize)]

end Records

/-- The parameters of a cache, which no call changes. -/
def params (cache : RouteBackCache η π) : Nat × Nat × Nat :=
  (cache.capacity, cache.evictTimeout, cache.removeFrequentMinSize)

section
attribute [local simp] params
end

theorem capacity_eq_of_params {a b : RouteBackCache η π} (same : a.params = b.params) : a.capacity = b.capacity :=
  congrArg Prod.fst same

theorem evictTimeout_eq_of_params {a b : RouteBackCache η π} (same : a.params = b.params) :
    a.evictTimeout = b.evictTimeout :=
  congrArg (fun p => p.2.1) same

theorem removeFrequentMinSize_eq_of_params {a b : RouteBackCache η π} (same : a.params = b.params) :
    a.removeFrequentMinSize = b.removeFrequentMinSize :=
  congrArg (fun p => p.2.2) same

section Invariant

variable [LinearOrder η] [LinearOrder π]

/-- The indexes agree with `main`. A target may be left with an empty set of records, as it is
within the loop of `remove_evicted`. -/
structure Indexed (cache : RouteBackCache η π) : Prop where
  records : ∀ {target records}, cache.recordPerTarget.lookup target = some records →
    ∀ time hash, toLex (time, hash) ∈ records ↔ cache.main.lookup hash = some (time, target)
  listed : ∀ {hash time target}, cache.main.lookup hash = some (time, target) →
    (cache.recordPerTarget.lookup target).isSome
  sizes : ∀ size target, toLex (size, target) ∈ cache.sizePerTarget ↔
    ∃ records, cache.recordPerTarget.lookup target = some records ∧ records.Nonempty ∧
      size = cache.capacity - records.card
  within : cache.main.entries.length ≤ cache.capacity

/-- The invariant between calls: indexed, with no target left without records, and a positive
capacity. -/
structure WellFormed (cache : RouteBackCache η π) : Prop extends cache.Indexed where
  nonempty : ∀ {target records}, cache.recordPerTarget.lookup target = some records → records.Nonempty
  capacity_pos : 0 < cache.capacity

namespace Indexed

variable {cache : RouteBackCache η π} (indexed : cache.Indexed)
include indexed

/-- A hash of `main` is among the records of its target. -/
theorem mem_records {hash : η} {time : Nat} {target : π} (found : cache.main.lookup hash = some (time, target)) :
    ∃ records, cache.recordPerTarget.lookup target = some records ∧ toLex (time, hash) ∈ records := by
  obtain ⟨records, listed⟩ := Option.isSome_iff_exists.mp (indexed.listed found)
  exact ⟨records, listed, (indexed.records listed time hash).mpr found⟩

/-- A target holds one record of a hash at most. -/
theorem injOn_hash {target : π} {records : Finset (Nat ×ₗ η)}
    (found : cache.recordPerTarget.lookup target = some records) :
    Set.InjOn (fun record : Nat ×ₗ η => (ofLex record).2) records := by
  intro first firstMember second secondMember same
  have atFirst := (indexed.records found (ofLex first).1 (ofLex first).2).mp firstMember
  have atSecond := (indexed.records found (ofLex second).1 (ofLex second).2).mp secondMember
  simp only at same
  rw [same, atSecond, Option.some.injEq, Prod.mk.injEq] at atFirst
  exact ofLex.injective (Prod.ext atFirst.1.symm same)

theorem card_hashes {target : π} {records : Finset (Nat ×ₗ η)}
    (found : cache.recordPerTarget.lookup target = some records) : (hashes records).card = records.card :=
  Finset.card_image_of_injOn (indexed.injOn_hash found)

theorem hashes_subset_keySet {target : π} {records : Finset (Nat ×ₗ η)}
    (found : cache.recordPerTarget.lookup target = some records) : hashes records ⊆ keySet cache.main := by
  intro hash member
  obtain ⟨time, record⟩ := mem_hashes.mp member
  rw [mem_keySet, (indexed.records found time hash).mp record]
  rfl

theorem card_le_length {target : π} {records : Finset (Nat ×ₗ η)}
    (found : cache.recordPerTarget.lookup target = some records) : records.card ≤ cache.main.entries.length := by
  rw [← indexed.card_hashes found, length_eq_card_keySet]
  exact Finset.card_le_card (indexed.hashes_subset_keySet found)

theorem card_le_capacity {target : π} {records : Finset (Nat ×ₗ η)}
    (found : cache.recordPerTarget.lookup target = some records) : records.card ≤ cache.capacity :=
  (indexed.card_le_length found).trans indexed.within

/-- A target with records has exactly one entry in `size_per_target`. -/
theorem mem_sizePerTarget_iff {target : π} {records : Finset (Nat ×ₗ η)}
    (found : cache.recordPerTarget.lookup target = some records) (size : Nat) :
    toLex (size, target) ∈ cache.sizePerTarget ↔ records.Nonempty ∧ size = cache.capacity - records.card := by
  rw [indexed.sizes, found]
  simp

/-- Taking the hashes of some records of a target out of `main` takes out the entries of those
records and no other: a hash of a record removed is of that record. -/
theorem lookup_eq_some_of_removed {main' : Map η (Nat × π)} {target : π}
    {records removed : Finset (Nat ×ₗ η)} (found : cache.recordPerTarget.lookup target = some records)
    (sub : removed ⊆ records)
    (main : ∀ hash, main'.lookup hash = if hash ∈ hashes removed then none else cache.main.lookup hash)
    (hash : η) (time : Nat) (other : π) :
    main'.lookup hash = some (time, other) ↔
      cache.main.lookup hash = some (time, other) ∧ toLex (time, hash) ∉ removed := by
  rw [main]
  by_cases gone : hash ∈ hashes removed
  · obtain ⟨time', record⟩ := mem_hashes.mp gone
    have atRecord := (indexed.records found _ _).mp (sub record)
    simp only [gone, if_true, reduceCtorEq, false_iff, not_and, not_not]
    intro atHash
    rw [atHash, Option.some.injEq, Prod.mk.injEq] at atRecord
    rw [atRecord.1]
    exact record
  · have kept : toLex (time, hash) ∉ removed := fun record => gone (mem_hashes.mpr ⟨time, record⟩)
    simp [gone, kept]

/-- Taking a set of records of one target out of the three maps keeps the invariant, however the
write of `size_per_target` is made, as long as it leaves that target's entry at the count kept. -/
theorem removeTargetRecords {cache' : RouteBackCache η π} {target : π}
    {records removed keep : Finset (Nat ×ₗ η)} (found : cache.recordPerTarget.lookup target = some records)
    (sub : removed ⊆ records) (split : ∀ record, record ∈ keep ↔ record ∈ records ∧ record ∉ removed)
    (capacity : cache'.capacity = cache.capacity)
    (main : ∀ hash, cache'.main.lookup hash = if hash ∈ hashes removed then none else cache.main.lookup hash)
    (others : ∀ other, other ≠ target → cache'.recordPerTarget.lookup other = cache.recordPerTarget.lookup other)
    (kept : cache'.recordPerTarget.lookup target = some keep ∨
      keep = ∅ ∧ cache'.recordPerTarget.lookup target = none)
    (sizes : ∀ size other, toLex (size, other) ∈ cache'.sizePerTarget ↔
      other ≠ target ∧ toLex (size, other) ∈ cache.sizePerTarget ∨
        other = target ∧ keep.Nonempty ∧ size = cache.capacity - keep.card) :
    cache'.Indexed := by
  have mainSome := indexed.lookup_eq_some_of_removed found sub main
  refine ⟨?records, ?listed, ?sizes, ?within⟩
  case records =>
    intro other records' found' time hash
    rw [mainSome]
    by_cases same : other = target
    · subst same
      rcases kept with kept | ⟨rfl, kept⟩
      · rw [found', Option.some.injEq] at kept
        subst kept
        rw [split, indexed.records found]
      · rw [found'] at kept
        cases kept
    · rw [others other same] at found'
      rw [← indexed.records found']
      constructor
      · intro record
        refine ⟨record, fun removedRecord => same ?_⟩
        have atHash := (indexed.records found' _ _).mp record
        rw [(indexed.records found _ _).mp (sub removedRecord), Option.some.injEq, Prod.mk.injEq] at atHash
        exact atHash.2.symm
      · exact And.left
  case listed =>
    intro hash time other found'
    obtain ⟨atHash, notRemoved⟩ := (mainSome hash time other).mp found'
    by_cases same : other = target
    · subst same
      have keptRecord : toLex (time, hash) ∈ keep :=
        (split _).mpr ⟨(indexed.records found _ _).mpr atHash, notRemoved⟩
      rcases kept with kept | ⟨rfl, -⟩
      · rw [kept]
        rfl
      · cases keptRecord
    · rw [others other same]
      exact indexed.listed atHash
  case sizes =>
    intro size other
    rw [sizes, capacity]
    by_cases same : other = target
    · subst same
      rcases kept with kept | ⟨rfl, kept⟩
      · simp [kept]
      · simp [kept]
    · rw [others other same, indexed.sizes]
      simp [same]
  case within =>
    rw [capacity]
    refine le_trans (length_le_of_isSome fun hash present => ?_) indexed.within
    rw [main] at present
    split at present
    · cases present
    · exact present

/-- Taking the entry of a target out of `size_per_target` leaves the entries of the others. -/
theorem mem_sizePerTarget_erase {target : π} {records : Finset (Nat ×ₗ η)}
    (found : cache.recordPerTarget.lookup target = some records) (size : Nat) (other : π) :
    toLex (size, other) ∈ cache.sizePerTarget.erase (toLex (cache.capacity - records.card, target)) ↔
      other ≠ target ∧ toLex (size, other) ∈ cache.sizePerTarget := by
  rw [Finset.mem_erase, ne_eq, toLex_inj, Prod.mk.injEq]
  by_cases same : other = target
  · subst same
    rw [indexed.mem_sizePerTarget_iff found]
    constructor
    · rintro ⟨notEntry, -, atSize⟩
      exact absurd ⟨atSize, rfl⟩ notEntry
    · rintro ⟨differs, -⟩
      exact absurd rfl differs
  · simp [same]

/-- The write of `size_per_target` of each call that takes records of a target: its entry is
taken out, and put back at the count it keeps unless it keeps none. -/
theorem sizes_of_moved {target : π} {records keep : Finset (Nat ×ₗ η)} {moved : Finset (Nat ×ₗ π)}
    (found : cache.recordPerTarget.lookup target = some records)
    (moves : moved = if keep.Nonempty then Insert.insert (toLex (cache.capacity - keep.card, target))
        (cache.sizePerTarget.erase (toLex (cache.capacity - records.card, target)))
      else cache.sizePerTarget.erase (toLex (cache.capacity - records.card, target)))
    (size : Nat) (other : π) :
    toLex (size, other) ∈ moved ↔ other ≠ target ∧ toLex (size, other) ∈ cache.sizePerTarget ∨
      other = target ∧ keep.Nonempty ∧ size = cache.capacity - keep.card := by
  subst moves
  split
  · rename_i nonempty
    rw [Finset.mem_insert, toLex_inj, Prod.mk.injEq, indexed.mem_sizePerTarget_erase found]
    constructor
    · rintro (⟨atSize, rfl⟩ | kept)
      · exact .inr ⟨rfl, nonempty, atSize⟩
      · exact .inl kept
    · rintro (kept | ⟨rfl, -, atSize⟩)
      · exact .inr kept
      · exact .inl ⟨atSize, rfl⟩
  · rename_i empty
    rw [indexed.mem_sizePerTarget_erase found]
    simp [empty]

/-- The first entry of `size_per_target` is of a target holding the most records, and the least
such target. -/
theorem first_sizePerTarget {entry : Nat ×ₗ π} (found : first cache.sizePerTarget = some entry) :
    ∃ target records, entry = toLex (cache.capacity - records.card, target) ∧
      cache.recordPerTarget.lookup target = some records ∧ records.Nonempty ∧
      ∀ other others, cache.recordPerTarget.lookup other = some others → others.Nonempty →
        others.card ≤ records.card ∧ (others.card = records.card → target ≤ other) := by
  obtain ⟨member, least⟩ := first_eq_some found
  have named : entry = toLex ((ofLex entry).1, (ofLex entry).2) := rfl
  rw [named] at member least
  obtain ⟨records, atTarget, nonempty, atSize⟩ := (indexed.sizes _ _).mp member
  refine ⟨(ofLex entry).2, records, by rw [← atSize]; exact named, atTarget, nonempty, fun other others atOther some => ?_⟩
  have otherMember := (indexed.mem_sizePerTarget_iff atOther (cache.capacity - others.card)).mpr ⟨some, rfl⟩
  have first := least _ otherMember
  rw [Prod.Lex.toLex_le_toLex] at first
  have within := indexed.card_le_capacity atTarget
  have otherWithin := indexed.card_le_capacity atOther
  rcases first with fewer | ⟨same, le⟩
  · omega
  · exact ⟨by omega, fun _ => le⟩

/-- Putting the record of a new hash in the three maps keeps the invariant, when `main` has room
for it. -/
theorem insertRecord {cache' : RouteBackCache η π} {hash : η} {time : Nat} {target : π}
    (fresh : cache.main.lookup hash = none) (room : cache.main.entries.length < cache.capacity)
    (capacity : cache'.capacity = cache.capacity) (main : cache'.main = cache.main.insert hash (time, target))
    (records : cache'.recordPerTarget = cache.recordPerTarget.insert target
      (Insert.insert (toLex (time, hash)) ((cache.recordPerTarget.lookup target).getD ∅)))
    (sizes : ∀ size other, toLex (size, other) ∈ cache'.sizePerTarget ↔
      other ≠ target ∧ toLex (size, other) ∈ cache.sizePerTarget ∨
        other = target ∧ size = cache.capacity - (((cache.recordPerTarget.lookup target).getD ∅).card + 1)) :
    cache'.Indexed := by
  -- the target's records so far, none when it had no entry
  have before : ∀ t h, toLex (t, h) ∈ (cache.recordPerTarget.lookup target).getD ∅ ↔
      cache.main.lookup h = some (t, target) := by
    intro t h
    cases found : cache.recordPerTarget.lookup target with
    | some records => exact indexed.records found t h
    | none =>
      refine iff_of_false (Finset.notMem_empty _) fun atHash => ?_
      have listed := indexed.listed atHash
      rw [found] at listed
      cases listed
  have notBefore : toLex (time, hash) ∉ (cache.recordPerTarget.lookup target).getD ∅ := by
    rw [before, fresh]
    exact fun none => nomatch none
  have mainAt : ∀ h t other, cache'.main.lookup h = some (t, other) ↔
      h = hash ∧ t = time ∧ other = target ∨ h ≠ hash ∧ cache.main.lookup h = some (t, other) := by
    intro h t other
    rw [main]
    by_cases same : h = hash
    · subst same
      simp [AList.lookup_insert, fresh, eq_comm]
    · simp [AList.lookup_insert_ne same, same]
  refine ⟨fun {other records'} found t h => ?_, fun {h t other} found => ?_, fun size other => ?_, ?_⟩
  · rw [mainAt]
    by_cases same : other = target
    · subst same
      rw [records, AList.lookup_insert, Option.some.injEq] at found
      subst found
      rw [Finset.mem_insert, toLex_inj, Prod.mk.injEq, before]
      by_cases atHash : h = hash
      · subst atHash
        simp [fresh, and_comm]
      · simp [atHash]
    · rw [records, AList.lookup_insert_ne same] at found
      rw [indexed.records found]
      by_cases atHash : h = hash
      · subst atHash
        simp [fresh, same]
      · simp [atHash]
  · rw [records]
    rcases (mainAt h t other).mp found with ⟨-, -, rfl⟩ | ⟨-, atHash⟩
    · rw [AList.lookup_insert]
      rfl
    · by_cases same : other = target
      · subst same
        rw [AList.lookup_insert]
        rfl
      · rw [AList.lookup_insert_ne same]
        exact indexed.listed atHash
  · rw [sizes, capacity]
    by_cases same : other = target
    · subst same
      rw [records, AList.lookup_insert]
      simp [Finset.card_insert_of_notMem notBefore]
    · rw [records, AList.lookup_insert_ne same, indexed.sizes]
      simp [same]
  · rw [capacity, main, length_insert_of_lookup_eq_none _ fresh]
    exact room

/-- Erasing targets left with an empty set of records keeps the invariant. -/
theorem eraseEmpty {removeEmpty : List π}
    (empty : ∀ target ∈ removeEmpty, cache.recordPerTarget.lookup target = some ∅) :
    ({ cache with recordPerTarget := removeEmpty.foldl (fun map key => map.erase key) cache.recordPerTarget } :
      RouteBackCache η π).Indexed where
  records {target records} found := by
    simp only [lookup_foldl_erase] at found
    split at found
    · cases found
    · exact indexed.records found
  listed {hash time target} found := by
    simp only [lookup_foldl_erase]
    split
    · -- an empty target holds no record
      rename_i erased
      obtain ⟨records, listed, member⟩ := indexed.mem_records found
      rw [empty target erased, Option.some.injEq] at listed
      subst listed
      cases member
    · exact indexed.listed found
  sizes size target := by
    simp only [lookup_foldl_erase, indexed.sizes]
    split
    · rename_i erased
      simp [empty target erased]
    · rfl
  within := indexed.within

end Indexed

/-- A full cache has a first entry in `size_per_target`. -/
theorem WellFormed.first_isSome {cache : RouteBackCache η π} (wf : cache.WellFormed) (full : cache.isFull = true) :
    ∃ entry, first cache.sizePerTarget = some entry := by
  have length : cache.capacity = cache.main.entries.length := beq_iff_eq.mp full
  obtain ⟨⟨hash, time, target⟩, member⟩ := List.exists_mem_of_length_pos (length ▸ wf.capacity_pos)
  obtain ⟨records, found, -⟩ := wf.mem_records (AList.mem_lookup_iff.mpr member)
  exact Collections.first_isSome ((wf.mem_sizePerTarget_iff found _).mpr ⟨wf.nonempty found, rfl⟩)

end Invariant

section Calls

variable [LinearOrder η] [OrderBot η] [LinearOrder π] {cache : RouteBackCache η π}

omit [OrderBot η] in
/-- `remove_frequent` on a full cache: the first target of `size_per_target`, which holds the most
records, loses those `splitFrequent` takes, and the invariant holds after. -/
theorem removeFrequent_spec (wf : cache.WellFormed) (full : cache.isFull = true) :
    ∃ target records, cache.recordPerTarget.lookup target = some records ∧
      first cache.sizePerTarget = some (toLex (cache.capacity - records.card, target)) ∧
      ∃ cache', cache.removeFrequent = .ok cache' ∧ cache'.params = cache.params ∧ cache'.WellFormed ∧
        ∀ hash, cache'.main.lookup hash =
          if hash ∈ hashes (splitFrequent records cache.removeFrequentMinSize).1 then none else cache.main.lookup hash := by
  obtain ⟨entry, firstFound⟩ := wf.first_isSome full
  obtain ⟨target, records, rfl, found, nonempty, -⟩ := wf.first_sizePerTarget firstFound
  refine ⟨target, records, found, firstFound, ?_⟩
  have within := wf.card_le_capacity found
  have subset := splitFrequent_fst_subset records cache.removeFrequentMinSize
  have parts := card_splitFrequent records cache.removeFrequentMinSize
  have kept := fun record => @mem_splitFrequent_snd _ _ records cache.removeFrequentMinSize record
  rcases split : splitFrequent records cache.removeFrequentMinSize with ⟨taken, keep⟩
  simp only [split] at subset parts kept
  have fits : cache.capacity - records.card + taken.card ≤ cache.capacity := by omega
  have left : cache.capacity - (cache.capacity - records.card + taken.card) = keep.card := by omega
  let erased := cache.sizePerTarget.erase (toLex (cache.capacity - records.card, target))
  let result : RouteBackCache η π := { cache with
    main := removeRecords cache.main taken
    recordPerTarget :=
      if keep = ∅ then cache.recordPerTarget.erase target else cache.recordPerTarget.insert target keep
    sizePerTarget :=
      if keep.card ≠ 0 then Insert.insert (toLex (cache.capacity - records.card + taken.card, target)) erased
      else erased }
  have others : ∀ other, other ≠ target → result.recordPerTarget.lookup other = cache.recordPerTarget.lookup other :=
    fun other differs => by
      simp only [result]
      split <;> simp [AList.lookup_erase_ne differs, AList.lookup_insert_ne differs]
  have atTarget : result.recordPerTarget.lookup target = some keep ∨
      keep = ∅ ∧ result.recordPerTarget.lookup target = none := by
    simp only [result]
    split
    · exact .inr ⟨‹_›, AList.lookup_erase _ _⟩
    · exact .inl (AList.lookup_insert _)
  have indexed : result.Indexed := wf.removeTargetRecords found subset kept rfl
    (fun hash => lookup_removeRecords _ _ _) others atTarget
    (wf.sizes_of_moved found (by
      have moved : cache.capacity - records.card + taken.card = cache.capacity - keep.card := by omega
      simp only [result, erased, Finset.card_ne_zero, moved]))
  refine ⟨result, ?_, rfl, ⟨indexed, fun {other records'} found' => ?_, wf.capacity_pos⟩,
    fun hash => lookup_removeRecords _ _ _⟩
  · rw [removeFrequent, firstFound, unwrap_some, Except.ok_bind]
    simp only [ofLex_toLex, found, split, sub_of_le fits, Except.ok_bind, left]
    rfl
  · by_cases same : other = target
    · subst same
      rcases atTarget with atTarget | ⟨-, atTarget⟩ <;> rw [atTarget] at found'
      · cases found'
        exact Finset.nonempty_iff_ne_empty.mpr fun empty => by simp [result, empty] at atTarget
      · cases found'
    · exact wf.nonempty (others other same ▸ found')

/-- A pass of the loop of `remove_evicted` over a target of an indexed cache: the target's records
older than `remove_until` leave it and `main`, the invariant holds after, and the targets left
with an empty set of records are those of `remove_empty`. -/
theorem evictPass_spec (indexed : cache.Indexed) {removeUntil : Nat} {removeEmpty : List π} {key : π}
    {value : Finset (Nat ×ₗ η)} (found : cache.recordPerTarget.lookup key = some value)
    (empty : ∀ target, cache.recordPerTarget.lookup target = some ∅ ↔ target ∈ removeEmpty) :
    ∃ cache' removeEmpty', evictPass removeUntil (cache, removeEmpty) (key, value) = .ok (cache', removeEmpty') ∧
      cache'.params = cache.params ∧ cache'.Indexed ∧
      (∀ target, cache'.recordPerTarget.lookup target = some ∅ ↔ target ∈ removeEmpty') ∧
      (∀ target, target ≠ key → cache'.recordPerTarget.lookup target = cache.recordPerTarget.lookup target) ∧
      ∀ hash time target, cache'.main.lookup hash = some (time, target) ↔
        cache.main.lookup hash = some (time, target) ∧ (target = key → removeUntil ≤ time) := by
  have within := indexed.card_le_capacity found
  have parts : (splitOff value (toLex (removeUntil, ⊥))).1.card + (splitOff value (toLex (removeUntil, ⊥))).2.card =
    value.card := card_splitOff _
  have old : ∀ record, record ∈ (splitOff value (toLex (removeUntil, ⊥))).1 ↔
      record ∈ value ∧ record < toLex (removeUntil, ⊥) := fun _ => mem_splitOff_fst
  have kept : ∀ record, record ∈ (splitOff value (toLex (removeUntil, ⊥))).2 ↔
      record ∈ value ∧ record ∉ (splitOff value (toLex (removeUntil, ⊥))).1 := by
    intro record
    rw [mem_splitOff_snd, mem_splitOff_fst, not_and, not_lt]
    exact ⟨fun ⟨member, ge⟩ => ⟨member, fun _ => ge⟩, fun ⟨member, ge⟩ => ⟨member, ge member⟩⟩
  rcases split : splitOff value (toLex (removeUntil, ⊥)) with ⟨evicted, keep⟩
  simp only [split] at parts old kept
  have subset : evicted ⊆ value := fun record member => ((old record).mp member).1
  have keepWithin : keep.card ≤ cache.capacity := by omega
  let erased := cache.sizePerTarget.erase (toLex (cache.capacity - value.card, key))
  let moved : Finset (Nat ×ₗ π) :=
    if value.card ≠ keep.card then
      if 0 < keep.card then Insert.insert (toLex (cache.capacity - keep.card, key)) erased else erased
    else cache.sizePerTarget
  let result : RouteBackCache η π := { cache with
    main := removeRecords cache.main evicted, sizePerTarget := moved,
    recordPerTarget := cache.recordPerTarget.insert key keep }
  have others : ∀ target, target ≠ key → result.recordPerTarget.lookup target = cache.recordPerTarget.lookup target :=
    fun _ differs => AList.lookup_insert_ne differs
  have moves : moved = if keep.Nonempty then Insert.insert (toLex (cache.capacity - keep.card, key)) erased
      else erased := by
    by_cases same : value.card = keep.card
    · -- nothing was old: the entry stays where it is
      have unchanged : keep = value :=
        Finset.eq_of_subset_of_card_le (fun record member => ((kept record).mp member).1) same.le
      subst unchanged
      simp only [moved, erased, ne_eq, not_true_eq_false, if_false]
      split
      · exact (Finset.insert_erase ((indexed.mem_sizePerTarget_iff found _).mpr ⟨‹_›, rfl⟩)).symm
      · exact (Finset.erase_eq_of_notMem fun member => ‹¬_› ((indexed.mem_sizePerTarget_iff found _).mp member).1).symm
    · simp only [moved, same, ne_eq, not_false_eq_true, if_true, Finset.card_pos]
  refine ⟨result, if keep.card = 0 then removeEmpty ++ [key] else removeEmpty, ?_, rfl,
    indexed.removeTargetRecords found subset kept rfl (lookup_removeRecords _ _) others (.inl (AList.lookup_insert _))
      (indexed.sizes_of_moved found moves), fun target => ?_, others, fun hash time target => ?_⟩
  · unfold evictPass
    simp only [split]
    by_cases same : value.card = keep.card
    · simp [same, result, moved]
    · by_cases positive : 0 < keep.card
      · simp [same, positive, sub_of_le within, sub_of_le keepWithin, result, moved, erased]
      · simp [same, positive, sub_of_le within, result, moved, erased]
  · -- the target is empty now exactly when it kept nothing
    by_cases same : target = key
    · subst same
      rw [AList.lookup_insert, Option.some.injEq, ← Finset.card_eq_zero]
      split
      · simp [‹keep.card = 0›]
      · rename_i some
        refine iff_of_false some fun listed => some ?_
        have empty := (empty target).mpr listed
        rw [found, Option.some.injEq] at empty
        subst empty
        exact Finset.card_eq_zero.mpr (Finset.subset_empty.mp fun record member => ((kept record).mp member).1)
    · rw [others target same, empty]
      split <;> simp [same]
  · -- a hash leaves `main` when its record was old
    rw [indexed.lookup_eq_some_of_removed found subset (lookup_removeRecords cache.main evicted), old]
    constructor
    · rintro ⟨atHash, notOld⟩
      refine ⟨atHash, fun same => ?_⟩
      subst same
      by_contra younger
      exact notOld ⟨(indexed.records found _ _).mpr atHash, toLex_lt_toLex_bot.mpr (Nat.lt_of_not_le younger)⟩
    · rintro ⟨atHash, young⟩
      refine ⟨atHash, fun ⟨member, older⟩ => ?_⟩
      have atKey := (indexed.records found _ _).mp member
      rw [atHash, Option.some.injEq, Prod.mk.injEq] at atKey
      exact absurd (young atKey.2) (Nat.not_le_of_lt (toLex_lt_toLex_bot.mp older))

/-- The loop of `remove_evicted` over targets of an indexed cache, each with its records: every
record older than `remove_until` of the targets it passes leaves `main`, and no other. -/
theorem evictLoop_spec {removeUntil : Nat} : ∀ (entries : List (π × Finset (Nat ×ₗ η))) (cache : RouteBackCache η π)
    (removeEmpty : List π), cache.Indexed → (entries.map Prod.fst).Nodup →
    (∀ entry ∈ entries, cache.recordPerTarget.lookup entry.1 = some entry.2) →
    (∀ target, cache.recordPerTarget.lookup target = some ∅ ↔ target ∈ removeEmpty) →
    ∃ cache' removeEmpty', entries.foldlM (evictPass removeUntil) (cache, removeEmpty) = .ok (cache', removeEmpty') ∧
      cache'.params = cache.params ∧ cache'.Indexed ∧
      (∀ target, cache'.recordPerTarget.lookup target = some ∅ ↔ target ∈ removeEmpty') ∧
      ∀ hash time target, cache'.main.lookup hash = some (time, target) ↔
        cache.main.lookup hash = some (time, target) ∧ (target ∈ entries.map Prod.fst → removeUntil ≤ time)
  | [], cache, removeEmpty, indexed, _, _, empty => ⟨cache, removeEmpty, rfl, rfl, indexed, empty, by simp⟩
  | ⟨key, value⟩ :: rest, cache, removeEmpty, indexed, distinct, listed, empty => by
    obtain ⟨next, nextEmpty, pass, params, nextIndexed, nextEmptyIff, others, main⟩ :=
      evictPass_spec indexed (listed _ List.mem_cons_self) empty
    rw [List.map_cons, List.nodup_cons] at distinct
    -- the targets still to come kept their records through the pass
    have restListed : ∀ entry ∈ rest, next.recordPerTarget.lookup entry.1 = some entry.2 := by
      intro entry member
      rw [others entry.1 fun same => distinct.1 (same ▸ List.mem_map_of_mem member)]
      exact listed entry (List.mem_cons_of_mem _ member)
    obtain ⟨final, finalEmpty, loop, finalParams, finalIndexed, finalEmptyIff, finalMain⟩ :=
      evictLoop_spec rest next nextEmpty nextIndexed distinct.2 restListed nextEmptyIff
    refine ⟨final, finalEmpty, by rw [List.foldlM_cons, pass, Except.ok_bind, loop], finalParams.trans params,
      finalIndexed, finalEmptyIff, fun hash time target => ?_⟩
    rw [finalMain, main, List.map_cons, List.mem_cons]
    constructor
    · rintro ⟨⟨atHash, young⟩, youngRest⟩
      exact ⟨atHash, fun | .inl same => young same | .inr member => youngRest member⟩
    · rintro ⟨atHash, young⟩
      exact ⟨⟨atHash, fun same => young (.inl same)⟩, fun member => young (.inr member)⟩

/-- `remove_evicted` of a cache that is not full leaves it as it is. -/
theorem removeEvicted_of_not_full (full : cache.isFull = false) (now : Nat) : cache.removeEvicted now = .ok cache := by
  rw [removeEvicted, if_neg (by simp [full])]
  rfl

/-- `remove_evicted` of a full cache: the first target of `size_per_target` loses the records
`splitFrequent` takes, then every record older than `evict_timeout` leaves, unless `now` is
earlier than that. The invariant holds after. -/
theorem removeEvicted_of_full (wf : cache.WellFormed) (full : cache.isFull = true) (now : Nat) :
    ∃ target records, cache.recordPerTarget.lookup target = some records ∧
      first cache.sizePerTarget = some (toLex (cache.capacity - records.card, target)) ∧
      ∃ cache', cache.removeEvicted now = .ok cache' ∧ cache'.params = cache.params ∧ cache'.WellFormed ∧
        ∀ hash time other, cache'.main.lookup hash = some (time, other) ↔
          cache.main.lookup hash = some (time, other) ∧
            hash ∉ hashes (splitFrequent records cache.removeFrequentMinSize).1 ∧
            (cache.evictTimeout ≤ now → now - cache.evictTimeout ≤ time) := by
  obtain ⟨target, records, found, firstFound, frequent, ran, params, frequentWf, frequentMain⟩ :=
    removeFrequent_spec wf full
  refine ⟨target, records, found, firstFound, ?_⟩
  -- the entries `remove_frequent` leaves are those of the hashes it did not take
  have kept : ∀ hash time other, frequent.main.lookup hash = some (time, other) ↔
      cache.main.lookup hash = some (time, other) ∧ hash ∉ hashes (splitFrequent records cache.removeFrequentMinSize).1 := by
    intro hash time other
    rw [frequentMain]
    split <;> simp [*]
  have timeout := evictTimeout_eq_of_params params
  rw [removeEvicted, if_pos full, ran, Except.ok_bind]
  by_cases early : now < frequent.evictTimeout
  · rw [if_pos early]
    refine ⟨frequent, rfl, params, frequentWf, fun hash time other => ?_⟩
    rw [kept, ← timeout]
    exact ⟨fun ⟨atHash, notTaken⟩ => ⟨atHash, notTaken, fun late => absurd early (Nat.not_lt_of_le late)⟩,
      fun ⟨atHash, notTaken, _⟩ => ⟨atHash, notTaken⟩⟩
  · rw [if_neg early]
    have listed : ∀ entry ∈ inOrder frequent.recordPerTarget, frequent.recordPerTarget.lookup entry.1 = some entry.2 :=
      fun _ member => mem_inOrder.mp member
    have noneEmpty : ∀ target, frequent.recordPerTarget.lookup target = some ∅ ↔ target ∈ ([] : List π) :=
      fun _ => iff_of_false (fun empty => (frequentWf.nonempty empty).ne_empty rfl) List.not_mem_nil
    obtain ⟨swept, removeEmpty, loop, sweptParams, sweptIndexed, sweptEmpty, sweptMain⟩ :=
      @evictLoop_spec η π _ _ _ (now - frequent.evictTimeout) _ frequent [] frequentWf.toIndexed
        (nodup_keys_inOrder _) listed noneEmpty
    rw [loop, Except.ok_bind]
    refine ⟨_, rfl, sweptParams.trans params, ⟨sweptIndexed.eraseEmpty fun target member => (sweptEmpty target).mpr member,
      fun {target records} found' => ?_, (capacity_eq_of_params (sweptParams.trans params)).symm ▸ wf.capacity_pos⟩,
      fun hash time other => ?_⟩
    · -- a target left with no records was erased
      simp only [lookup_foldl_erase] at found'
      split at found'
      · cases found'
      · rename_i kept
        refine Finset.nonempty_iff_ne_empty.mpr fun empty => kept ?_
        rw [← sweptEmpty, found', empty]
    · rw [sweptMain, kept, ← timeout]
      constructor
      · rintro ⟨⟨atHash, notTaken⟩, young⟩
        obtain ⟨others, listedAt⟩ := Option.isSome_iff_exists.mp (frequentWf.listed ((kept _ _ _).mpr ⟨atHash, notTaken⟩))
        exact ⟨atHash, notTaken, fun _ => young (List.mem_map.mpr ⟨(other, others), mem_inOrder.mpr listedAt, rfl⟩)⟩
      · rintro ⟨atHash, notTaken, young⟩
        exact ⟨⟨atHash, notTaken⟩, fun _ => young (Nat.le_of_not_lt early)⟩

/-- `remove_evicted` keeps the invariant and only takes entries out of `main`. -/
theorem removeEvicted_spec (wf : cache.WellFormed) (now : Nat) :
    ∃ evicted, cache.removeEvicted now = .ok evicted ∧ evicted.params = cache.params ∧ evicted.WellFormed ∧
      ∀ hash entry, evicted.main.lookup hash = some entry → cache.main.lookup hash = some entry := by
  cases full : cache.isFull
  · exact ⟨cache, removeEvicted_of_not_full full now, rfl, wf, fun _ _ => id⟩
  · obtain ⟨target, records, -, -, evicted, ran, params, evictedWf, evictedMain⟩ := removeEvicted_of_full wf full now
    exact ⟨evicted, ran, params, evictedWf, fun hash entry found => ((evictedMain hash entry.1 entry.2).mp found).1⟩

/-- With a positive `remove_frequent_min_size`, `remove_evicted` leaves room for one entry: a full
cache loses a record of its most frequent target. -/
theorem removeEvicted_room (wf : cache.WellFormed) (positive : 0 < cache.removeFrequentMinSize) (now : Nat) :
    ∃ evicted, cache.removeEvicted now = .ok evicted ∧ evicted.params = cache.params ∧ evicted.WellFormed ∧
      evicted.main.entries.length < evicted.capacity ∧
      ∀ hash entry, evicted.main.lookup hash = some entry → cache.main.lookup hash = some entry := by
  cases full : cache.isFull
  · refine ⟨cache, removeEvicted_of_not_full full now, rfl, wf, ?_, fun _ _ => id⟩
    have differs : cache.capacity ≠ cache.main.entries.length := by simpa [isFull] using full
    exact Nat.lt_of_le_of_ne wf.within (Ne.symm differs)
  · obtain ⟨target, records, found, -, evicted, ran, params, evictedWf, evictedMain⟩ := removeEvicted_of_full wf full now
    have within : ∀ hash entry, evicted.main.lookup hash = some entry → cache.main.lookup hash = some entry :=
      fun hash entry found => ((evictedMain hash entry.1 entry.2).mp found).1
    refine ⟨evicted, ran, params, evictedWf, ?_, within⟩
    -- one record is taken, since the target has one and at least one is asked for
    have taken : ((splitFrequent records cache.removeFrequentMinSize).1).Nonempty := by
      rw [← Finset.card_pos, card_splitFrequent_fst]
      exact lt_min positive (Finset.card_pos.mpr (wf.nonempty found))
    obtain ⟨record, member⟩ := taken
    have atHash := (wf.records found (ofLex record).1 (ofLex record).2).mp (splitFrequent_fst_subset _ _ member)
    have gone : evicted.main.lookup (ofLex record).2 = none := by
      cases atEvicted : evicted.main.lookup (ofLex record).2 with
      | none => rfl
      | some entry =>
        have kept := ((evictedMain _ entry.1 entry.2).mp atEvicted).2.1
        exact absurd (mem_hashes.mpr ⟨_, member⟩) kept
    have length : cache.main.entries.length = cache.capacity := (beq_iff_eq.mp full).symm
    rw [capacity_eq_of_params params, ← length]
    exact length_lt_of_isSome (fun hash present => by
      obtain ⟨entry, found⟩ := Option.isSome_iff_exists.mp present
      rw [within hash entry found]
      rfl) (by rw [atHash]; rfl) gone

/-- `insert` of a hash the cache holds leaves it as it is. -/
theorem insert_of_isSome {hash : η} (held : (cache.main.lookup hash).isSome) (now : Nat) (target : π) :
    cache.insert now hash target = .ok cache := by
  rw [insert, if_pos held]
  rfl

/-- `insert` of a new hash, after a `remove_evicted` that left room: its record joins the three
maps, and the invariant holds after. -/
theorem insert_of_room {hash : η} (fresh : cache.main.lookup hash = none) {now : Nat} {evicted : RouteBackCache η π}
    (ran : cache.removeEvicted now = .ok evicted) (evictedWf : evicted.WellFormed)
    (room : evicted.main.entries.length < evicted.capacity)
    (within : ∀ hash entry, evicted.main.lookup hash = some entry → cache.main.lookup hash = some entry)
    (target : π) :
    ∃ cache', cache.insert now hash target = .ok cache' ∧ cache'.params = evicted.params ∧ cache'.WellFormed ∧
      cache'.main = evicted.main.insert hash (now, target) := by
  have freshAfter : evicted.main.lookup hash = none := by
    cases atHash : evicted.main.lookup hash with
    | none => rfl
    | some entry => rw [within hash entry atHash] at fresh; cases fresh
  let records := (evicted.recordPerTarget.lookup target).getD ∅
  have fits : records.card + 1 ≤ evicted.capacity := by
    have bound : records.card ≤ evicted.main.entries.length := by
      cases found : evicted.recordPerTarget.lookup target with
      | none => simp [records, found]
      | some records' => simpa [records, found] using evictedWf.card_le_length found
    omega
  let moved : Finset (Nat ×ₗ π) :=
    Insert.insert (toLex (evicted.capacity - (records.card + 1), target))
      (if 0 < records.card then evicted.sizePerTarget.erase (toLex (evicted.capacity - records.card, target))
        else evicted.sizePerTarget)
  let result : RouteBackCache η π := { evicted with
    main := evicted.main.insert hash (now, target)
    recordPerTarget := evicted.recordPerTarget.insert target (Insert.insert (toLex (now, hash)) records)
    sizePerTarget := moved }
  have indexed : result.Indexed := evictedWf.insertRecord freshAfter room rfl rfl rfl fun size other => by
    simp only [result, moved, Finset.mem_insert, toLex_inj, Prod.mk.injEq]
    split
    · -- the target had records: its entry moves up by one
      rename_i had
      obtain ⟨records', found⟩ : ∃ records', evicted.recordPerTarget.lookup target = some records' := by
        cases found : evicted.recordPerTarget.lookup target with
        | none => simp [records, found] at had
        | some records' => exact ⟨records', rfl⟩
      have same : records = records' := by simp [records, found]
      rw [evictedWf.mem_sizePerTarget_erase (same ▸ found)]
      constructor
      · rintro (⟨atSize, rfl⟩ | kept)
        · exact .inr ⟨rfl, atSize⟩
        · exact .inl kept
      · rintro (kept | ⟨rfl, atSize⟩)
        · exact .inr kept
        · exact .inl ⟨atSize, rfl⟩
    · -- the target had no entry
      rename_i hadNone
      have absent : ∀ size, toLex (size, target) ∉ evicted.sizePerTarget := by
        intro size member
        obtain ⟨records', found, nonempty, -⟩ := (evictedWf.sizes _ _).mp member
        have : records = records' := by simp [records, found]
        exact hadNone (this ▸ Finset.card_pos.mpr nonempty)
      constructor
      · rintro (⟨atSize, rfl⟩ | kept)
        · exact .inr ⟨rfl, atSize⟩
        · exact .inl ⟨fun same => absent size (same ▸ kept), kept⟩
      · rintro (⟨-, kept⟩ | ⟨rfl, atSize⟩)
        · exact .inr kept
        · exact .inl ⟨atSize, rfl⟩
  refine ⟨result, ?_, rfl, ⟨indexed, fun {other records'} found => ?_, evictedWf.capacity_pos⟩, rfl⟩
  · have size : ((evicted.recordPerTarget.lookup target).map Finset.card).getD 0 = records.card := by
      cases found : evicted.recordPerTarget.lookup target <;> simp [records, found]
    have within : records.card ≤ evicted.capacity := by omega
    rw [insert, if_neg (by simp [fresh]), ran, Except.ok_bind]
    simp only [size]
    by_cases had : 0 < records.card
    · simp [had, sub_of_le within, sub_of_le fits, result, moved, records]
    · simp [had, sub_of_le fits, result, moved, records]
  · by_cases same : other = target
    · subst same
      simp only [result, AList.lookup_insert, Option.some.injEq] at found
      exact found ▸ Finset.insert_nonempty _ _
    · simp only [result, AList.lookup_insert_ne same] at found
      exact evictedWf.nonempty found

/-- The `main` an insertion of a new hash leaves, whether or not the cache had room: the one of
`remove_evicted`, with the new entry. -/
theorem main_of_insert {hash : η} (fresh : cache.main.lookup hash = none) {now : Nat}
    {evicted : RouteBackCache η π} (ran : cache.removeEvicted now = .ok evicted) {target : π}
    {cache' : RouteBackCache η π} (inserted : cache.insert now hash target = .ok cache') :
    cache'.main = evicted.main.insert hash (now, target) := by
  rw [insert, if_neg (by simp [fresh]), ran, Except.ok_bind] at inserted
  simp only at inserted
  -- whichever way `size_per_target` is written, the result is the `pure` at the end
  split at inserted
  · obtain ⟨prev, -, rest⟩ := Except.bind_eq_ok inserted
    obtain ⟨sizePerTarget, -, rest⟩ := Except.bind_eq_ok rest
    obtain ⟨new, -, done⟩ := Except.bind_eq_ok rest
    cases done
    rfl
  · obtain ⟨sizePerTarget, -, rest⟩ := Except.bind_eq_ok inserted
    obtain ⟨new, -, done⟩ := Except.bind_eq_ok rest
    cases done
    rfl

/-- `remove`: after `remove_evicted`, the entry of the hash leaves, the target `get` read for it
then is returned, and the invariant holds after. -/
theorem remove_spec (wf : cache.WellFormed) (now : Nat) (hash : η) :
    ∃ evicted, cache.removeEvicted now = .ok evicted ∧ evicted.params = cache.params ∧
      ∃ cache', cache.remove now hash = .ok (cache', evicted.get hash) ∧ cache'.params = cache.params ∧
        cache'.WellFormed ∧ ∀ h, cache'.main.lookup h = if h = hash then none else evicted.main.lookup h := by
  obtain ⟨evicted, ran, params, evictedWf, -⟩ := removeEvicted_spec wf now
  refine ⟨evicted, ran, params, ?_⟩
  cases atHash : evicted.main.lookup hash with
  | none =>
    refine ⟨evicted, ?_, params, evictedWf, fun h => ?_⟩
    · rw [remove, ran, Except.ok_bind]
      simp [atHash, get]
    · split
      · subst h
        exact atHash
      · rfl
  | some entry =>
    obtain ⟨time, target⟩ := entry
    obtain ⟨records, found, member⟩ := evictedWf.mem_records atHash
    have within := evictedWf.card_le_capacity found
    have positive : 0 < records.card := Finset.card_pos.mpr ⟨_, member⟩
    let keep := records.erase (toLex (time, hash))
    have keepCard : keep.card = records.card - 1 := Finset.card_erase_of_mem member
    let erased := evicted.sizePerTarget.erase (toLex (evicted.capacity - records.card, target))
    let result : RouteBackCache η π := { evicted with
      main := evicted.main.erase hash
      recordPerTarget := if records.card - 1 = 0 then (evicted.recordPerTarget.insert target keep).erase target
        else evicted.recordPerTarget.insert target keep
      sizePerTarget := if records.card - 1 = 0 then erased
        else Insert.insert (toLex (evicted.capacity - (records.card - 1), target)) erased }
    have others : ∀ other, other ≠ target → result.recordPerTarget.lookup other = evicted.recordPerTarget.lookup other :=
      fun other differs => by
        simp only [result]
        split <;> simp [AList.lookup_erase_ne differs, AList.lookup_insert_ne differs]
    have atTarget : result.recordPerTarget.lookup target = some keep ∨
        keep = ∅ ∧ result.recordPerTarget.lookup target = none := by
      simp only [result]
      split
      · exact .inr ⟨Finset.card_eq_zero.mp (keepCard.trans ‹_›), AList.lookup_erase _ _⟩
      · exact .inl (AList.lookup_insert _)
    have main : ∀ h, result.main.lookup h = if h = hash then none else evicted.main.lookup h := by
      intro h
      split
      · subst h
        exact AList.lookup_erase _ _
      · exact AList.lookup_erase_ne ‹_›
    have indexed : result.Indexed := evictedWf.removeTargetRecords found (Finset.singleton_subset_iff.mpr member)
      (fun record => by rw [Finset.mem_erase, Finset.mem_singleton, and_comm])
      rfl (fun h => by rw [main]; simp [hashes]) others atTarget
      (evictedWf.sizes_of_moved found (by
        simp only [result, erased, ← Finset.card_pos, keepCard]
        split <;> split <;> first | rfl | omega))
    refine ⟨result, ?_, params, ⟨indexed, fun {other records'} found' => ?_, evictedWf.capacity_pos⟩, main⟩
    · rw [remove, ran, Except.ok_bind]
      simp only [atHash, found, Option.map_some, unwrap_some, Except.ok_bind, sub_of_le within,
        sub_of_le (show 1 ≤ records.card from positive), get]
      have lessWithin : records.card - 1 ≤ evicted.capacity := by omega
      split <;> simp [result, erased, keep, *]
    · by_cases same : other = target
      · subst same
        rcases atTarget with atTarget | ⟨-, atTarget⟩ <;> rw [atTarget] at found'
        · cases found'
          refine Finset.card_pos.mp (Nat.pos_of_ne_zero fun empty => ?_)
          -- a target whose last record leaves is erased
          rw [keepCard] at empty
          simp [result, empty] at atTarget
        · cases found'
      · exact evictedWf.nonempty (others other same ▸ found')

end Calls

end RouteBackCache

end Nearcore.Network
