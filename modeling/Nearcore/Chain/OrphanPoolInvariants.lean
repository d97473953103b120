import Nearcore.Chain.OrphanPool

/-! What the orphan pool keeps over every run of `Chain`: each orphan is pooled under its own hash
and listed at its height and under its parent, each hash with a chunk request is pooled, and the
pool never holds more than `MAX_ORPHAN_SIZE` orphans. Only this side of the indexes is kept: an
eviction leaves the hashes it removed in the index entries that keep another one. -/
namespace Nearcore.Chain

open EntryMap Unsigned Collections

namespace OrphanBlockPool

section Listed

variable {κ : Type} [DecidableEq κ]

/-- `hash` is in the list `index` keeps at `key`. -/
def Listed (index : Map κ (List CryptoHash)) (key : κ) (hash : CryptoHash) : Prop :=
  ∃ hashes, index.lookup key = some hashes ∧ hash ∈ hashes

section
attribute [local simp] Listed
end

theorem listed_andModifyOrInsert_self (index : Map κ (List CryptoHash)) (key : κ) (hash : CryptoHash) :
    Listed (EntryMap.andModifyOrInsert index key (· ++ [hash]) [hash]) key hash := by
  cases found : index.lookup key <;> simp [Listed, lookup_andModifyOrInsert, found]

theorem Listed.andModifyOrInsert {index : Map κ (List CryptoHash)} {k : κ} {hash : CryptoHash}
    (listed : Listed index k hash) (key : κ) (added : CryptoHash) :
    Listed (EntryMap.andModifyOrInsert index key (· ++ [added]) [added]) k hash := by
  obtain ⟨hashes, found, member⟩ := listed
  by_cases same : k = key
  · subst same
    exact ⟨hashes ++ [added], by simp [lookup_andModifyOrInsert, found], List.mem_append_left _ member⟩
  · exact ⟨hashes, by simp [lookup_andModifyOrInsert, same, found], member⟩

theorem Listed.keepUnremoved {index : Map κ (List CryptoHash)} {k : κ} {hash : CryptoHash}
    (listed : Listed index k hash) {removed : Finset CryptoHash} (kept : hash ∉ removed) :
    Listed (OrphanBlockPool.keepUnremoved removed index) k hash := by
  obtain ⟨hashes, found, member⟩ := listed
  refine ⟨hashes, ?_, member⟩
  simp only [OrphanBlockPool.keepUnremoved, lookup_retain, found, Option.filter_eq_some_iff, true_and]
  exact List.any_eq_true.2 ⟨hash, member, decide_eq_true kept⟩

theorem Listed.erase {index : Map κ (List CryptoHash)} {k key : κ} {hash : CryptoHash}
    (listed : Listed index k hash) (other : k ≠ key) : Listed (index.erase key) k hash := by
  obtain ⟨hashes, found, member⟩ := listed
  exact ⟨hashes, by rw [AList.lookup_erase_ne other, found], member⟩

theorem Listed.of_andModifyOrInsert {index : Map κ (List CryptoHash)} {k key : κ} {hash added : CryptoHash}
    (listed : Listed (EntryMap.andModifyOrInsert index key (· ++ [added]) [added]) k hash) :
    Listed index k hash ∨ k = key ∧ hash = added := by
  obtain ⟨hashes, found, member⟩ := listed
  rw [lookup_andModifyOrInsert] at found
  split at found
  · rename_i same
    subst same
    cases old : index.lookup k with
    | none =>
      simp only [old, Option.map_none, Option.getD_none, Option.some.injEq] at found
      subst found
      exact .inr ⟨rfl, List.mem_singleton.1 member⟩
    | some hashes' =>
      simp only [old, Option.map_some, Option.getD_some, Option.some.injEq] at found
      subst found
      rcases List.mem_append.1 member with before | last
      · exact .inl ⟨hashes', old, before⟩
      · exact .inr ⟨rfl, List.mem_singleton.1 last⟩
  · exact .inl ⟨hashes, found, member⟩

theorem Listed.of_keepUnremoved {index : Map κ (List CryptoHash)} {k : κ} {hash : CryptoHash} {removed : Finset CryptoHash}
    (listed : Listed (OrphanBlockPool.keepUnremoved removed index) k hash) : Listed index k hash := by
  obtain ⟨hashes, found, member⟩ := listed
  simp only [OrphanBlockPool.keepUnremoved, lookup_retain, Option.filter_eq_some_iff] at found
  exact ⟨hashes, found.1, member⟩

theorem Listed.of_erase {index : Map κ (List CryptoHash)} {k key : κ} {hash : CryptoHash}
    (listed : Listed (index.erase key) k hash) : Listed index k hash := by
  obtain ⟨hashes, found, member⟩ := listed
  by_cases same : k = key
  · subst same
    simp [AList.lookup_erase] at found
  · exact ⟨hashes, by rwa [AList.lookup_erase_ne same] at found, member⟩

end Listed

/-- The orphans' side of the indexes: each orphan is pooled under its own hash and listed at its
height and under its parent, and each hash with a chunk request is pooled. -/
structure Indexed (pool : OrphanBlockPool) : Prop where
  keyed : ∀ hash orphan, pool.orphans.lookup hash = some orphan → orphan.hash = hash
  atHeight : ∀ hash orphan, pool.orphans.lookup hash = some orphan → Listed pool.heightIdx orphan.height hash
  underPrev : ∀ hash orphan, pool.orphans.lookup hash = some orphan → Listed pool.prevHashIdx orphan.prevHash hash
  requested : ∀ hash ∈ pool.orphansRequestedMissingChunks, (pool.orphans.lookup hash).isSome

/-- The invariant of the pool: indexed, and within `MAX_ORPHAN_SIZE`. -/
structure WellFormed (pool : OrphanBlockPool) : Prop extends pool.Indexed where
  capped : pool.len ≤ maxOrphanSize

theorem new_wellFormed : new.WellFormed where
  keyed := by simp [new]
  atHeight := by simp [new]
  underPrev := by simp [new]
  requested := by simp [new]
  capped := by simp [new, len, maxOrphanSize]

variable {pool : OrphanBlockPool}

section Insert

theorem lookup_insertOrphan (pool : OrphanBlockPool) (orphan : Orphan) (requested : Bool) (k : CryptoHash) :
    (pool.insertOrphan orphan requested).orphans.lookup k =
      if k = orphan.hash then some orphan else pool.orphans.lookup k := by
  by_cases same : k = orphan.hash
  · subst same
    simp [insertOrphan, AList.lookup_insert]
  · simp [insertOrphan, AList.lookup_insert_ne same, same]

theorem Indexed.insertOrphan (indexed : pool.Indexed) (orphan : Orphan) (requested : Bool) :
    (pool.insertOrphan orphan requested).Indexed where
  keyed := by
    intro hash pooled found
    rw [lookup_insertOrphan] at found
    split at found
    · cases found
      exact (‹hash = orphan.hash›).symm
    · exact indexed.keyed hash pooled found
  atHeight := by
    intro hash pooled found
    rw [lookup_insertOrphan] at found
    split at found
    · cases found
      subst hash
      exact listed_andModifyOrInsert_self _ _ _
    · exact (indexed.atHeight hash pooled found).andModifyOrInsert _ _
  underPrev := by
    intro hash pooled found
    rw [lookup_insertOrphan] at found
    split at found
    · cases found
      subst hash
      exact listed_andModifyOrInsert_self _ _ _
    · exact (indexed.underPrev hash pooled found).andModifyOrInsert _ _
  requested := by
    intro hash member
    rw [lookup_insertOrphan]
    split
    · rfl
    · rename_i other
      -- a hash newly requested is the orphan's own
      have old : hash ∈ pool.orphansRequestedMissingChunks := by
        cases requested <;> simp_all [OrphanBlockPool.insertOrphan]
      exact indexed.requested hash old

theorem insertOrphan_heightIdx_of_ne {orphan : Orphan} {height : Nat} (other : orphan.height ≠ height) (requested : Bool) :
    (pool.insertOrphan orphan requested).heightIdx.lookup height = pool.heightIdx.lookup height := by
  simp [OrphanBlockPool.insertOrphan, lookup_andModifyOrInsert, other.symm]

theorem insertOrphan_prevHashIdx_self (orphan : Orphan) (requested : Bool) :
    (pool.insertOrphan orphan requested).prevHashIdx.lookup orphan.prevHash =
      some (((pool.prevHashIdx.lookup orphan.prevHash).map (· ++ [orphan.hash])).getD [orphan.hash]) := by
  simp [OrphanBlockPool.insertOrphan, lookup_andModifyOrInsert]

theorem insertOrphan_prevHashIdx_of_ne {orphan : Orphan} {prevHash : CryptoHash} (other : orphan.prevHash ≠ prevHash)
    (requested : Bool) : (pool.insertOrphan orphan requested).prevHashIdx.lookup prevHash = pool.prevHashIdx.lookup prevHash := by
  simp [OrphanBlockPool.insertOrphan, lookup_andModifyOrInsert, other.symm]

theorem len_insertOrphan_of_fresh (orphan : Orphan) (requested : Bool) (fresh : pool.orphans.lookup orphan.hash = none) :
    (pool.insertOrphan orphan requested).len = pool.len + 1 :=
  length_insert_of_lookup_eq_none orphan fresh

end Insert

section Eviction

theorem evict_orphans (pool : OrphanBlockPool) (now : Nat) : (pool.evict now).orphans = (pool.eviction now).orphans := rfl

theorem evict_prevHashIdx (pool : OrphanBlockPool) (now : Nat) :
    (pool.evict now).prevHashIdx = keepUnremoved (pool.eviction now).removed pool.prevHashIdx := rfl

/-- The orphans too old at `now` are those the eviction removes first. -/
theorem mem_oldHashes (indexed : pool.Indexed) (now : Nat) (k : CryptoHash) :
    k ∈ ((pool.orphans.entries.filter fun entry => !young now entry.2).map fun entry => entry.2.hash).toFinset ↔
      ∃ orphan, pool.orphans.lookup k = some orphan ∧ young now orphan = false := by
  simp only [List.mem_toFinset, List.mem_map, List.mem_filter, Bool.not_eq_true']
  constructor
  · rintro ⟨⟨key, orphan⟩, ⟨member, old⟩, rfl⟩
    have found : pool.orphans.lookup key = some orphan := AList.mem_lookup_iff.2 member
    refine ⟨orphan, ?_, old⟩
    rwa [indexed.keyed key orphan found]
  · rintro ⟨orphan, found, old⟩
    exact ⟨⟨k, orphan⟩, ⟨AList.mem_lookup_iff.1 found, old⟩, indexed.keyed k orphan found⟩

/-- The loop over the heights, highest first, passes over a prefix of them. -/
theorem eviction_eq_foldl (pool : OrphanBlockPool) (now : Nat) :
    ∃ pre post, (pool.heightIdx.keys.mergeSort fun a b => decide (a ≤ b)).reverse = pre ++ post ∧
      pool.eviction now = pre.foldl Eviction.evictHeight ⟨pool.heightIdx, retain (fun _ orphan => young now orphan) pool.orphans,
        ((pool.orphans.entries.filter fun entry => !young now entry.2).map fun entry => entry.2.hash).toFinset⟩ ∧
      (post = [] ∨ (pool.eviction now).orphans.entries.length < maxOrphanSize) := by
  obtain ⟨pre, post, split, ran, stopped⟩ := Eviction.evictHeights_eq_foldl
    ((pool.heightIdx.keys.mergeSort fun a b => decide (a ≤ b)).reverse)
    ⟨pool.heightIdx, retain (fun _ orphan => young now orphan) pool.orphans,
      ((pool.orphans.entries.filter fun entry => !young now entry.2).map fun entry => entry.2.hash).toFinset⟩
  exact ⟨pre, post, split, ran, by rw [eviction, ran]; exact stopped⟩

/-- An orphan leaves the pool in the eviction exactly when its hash is recorded as removed. -/
theorem eviction_orphans (indexed : pool.Indexed) (now : Nat) (k : CryptoHash) :
    (pool.eviction now).orphans.lookup k = if k ∈ (pool.eviction now).removed then none else pool.orphans.lookup k := by
  obtain ⟨pre, post, -, ran, -⟩ := eviction_eq_foldl pool now
  rw [ran, Eviction.foldl_evictHeight_orphans, Eviction.foldl_evictHeight_removed]
  simp only [lookup_retain, Finset.mem_union, List.mem_toFinset, mem_oldHashes indexed]
  by_cases listedHere : k ∈ Eviction.listedAt pool.heightIdx pre
  · simp [listedHere]
  · cases found : pool.orphans.lookup k with
    | none => simp [listedHere]
    | some orphan => cases stays : young now orphan <;> simp [listedHere, stays]

theorem eviction_lookup_of_removed (indexed : pool.Indexed) (now : Nat) {k : CryptoHash}
    (removed : k ∈ (pool.eviction now).removed) : (pool.eviction now).orphans.lookup k = none := by
  rw [eviction_orphans indexed, if_pos removed]

theorem lookup_of_eviction_lookup (indexed : pool.Indexed) (now : Nat) {k : CryptoHash} {orphan : Orphan}
    (found : (pool.eviction now).orphans.lookup k = some orphan) :
    pool.orphans.lookup k = some orphan ∧ k ∉ (pool.eviction now).removed := by
  rw [eviction_orphans indexed] at found
  split at found
  · cases found
  · exact ⟨found, ‹_›⟩

/-- A height the loop passed over is gone from `height_idx`, and its orphans are removed; the
others keep their entries. -/
theorem eviction_heightIdx (now : Nat) (k : Nat) :
    (pool.eviction now).heightIdx.lookup k = pool.heightIdx.lookup k ∨
      (pool.eviction now).heightIdx.lookup k = none ∧ ∀ hash ∈ Eviction.listed pool.heightIdx k, hash ∈ (pool.eviction now).removed := by
  obtain ⟨pre, post, -, ran, -⟩ := eviction_eq_foldl pool now
  rw [ran, Eviction.foldl_evictHeight_heightIdx, Eviction.foldl_evictHeight_removed]
  by_cases passed : k ∈ pre
  · refine .inr ⟨if_pos passed, fun hash member => ?_⟩
    simp only [Finset.mem_union, List.mem_toFinset, Eviction.listedAt, List.mem_flatMap]
    exact .inr ⟨k, passed, member⟩
  · exact .inl (if_neg passed)

/-- When the loop passes over every height, every orphan listed at one goes, so the pool ends below
`MAX_ORPHAN_SIZE` either way. -/
theorem len_eviction_lt (indexed : pool.Indexed) (now : Nat) :
    (pool.eviction now).orphans.entries.length < maxOrphanSize := by
  obtain ⟨pre, post, split, ran, stopped⟩ := eviction_eq_foldl pool now
  rcases stopped with rfl | below
  · have empty : ∀ k, ((pool.eviction now).orphans.lookup k).isSome → ((∅ : Map CryptoHash Orphan).lookup k).isSome := by
      intro k pooled
      obtain ⟨orphan, found⟩ := Option.isSome_iff_exists.1 pooled
      obtain ⟨before, kept⟩ := lookup_of_eviction_lookup indexed now found
      obtain ⟨hashes, listedAt, member⟩ := indexed.atHeight k orphan before
      -- the orphan's height is a key of `height_idx`, so the loop passed over it
      have passed : orphan.height ∈ pre := by
        have key : orphan.height ∈ pool.heightIdx.keys := AList.mem_keys.1 (AList.lookup_isSome.1 (by simp [listedAt]))
        rw [← List.append_nil pre, ← split, List.mem_reverse, List.mem_mergeSort]
        exact key
      rw [ran, Eviction.foldl_evictHeight_removed] at kept
      simp only [Finset.mem_union, List.mem_toFinset, Eviction.listedAt, List.mem_flatMap, not_or, not_exists,
        not_and] at kept
      exact absurd (by simp [Eviction.listed, listedAt, member]) (kept.2 orphan.height passed)
    have none := length_le_of_isSome empty
    simp only [AList.empty_entries, List.length_nil, Nat.le_zero] at none
    simp [none, maxOrphanSize]
  · exact below

theorem Indexed.evict (indexed : pool.Indexed) (now : Nat) : (pool.evict now).Indexed where
  keyed := fun hash orphan found => indexed.keyed hash orphan (lookup_of_eviction_lookup indexed now found).1
  atHeight := by
    intro hash orphan found
    obtain ⟨before, kept⟩ := lookup_of_eviction_lookup indexed now found
    obtain ⟨hashes, listedAt, member⟩ := indexed.atHeight hash orphan before
    rcases @eviction_heightIdx pool now orphan.height with same | ⟨-, gone⟩
    · exact Listed.keepUnremoved ⟨hashes, same.trans listedAt, member⟩ kept
    · exact absurd (gone hash (by simp [Eviction.listed, listedAt, member])) kept
  underPrev := by
    intro hash orphan found
    obtain ⟨before, kept⟩ := lookup_of_eviction_lookup indexed now found
    exact (indexed.underPrev hash orphan before).keepUnremoved kept
  requested := by
    intro hash member
    simp only [OrphanBlockPool.evict, Finset.mem_filter] at member
    show ((pool.eviction now).orphans.lookup hash).isSome
    rw [eviction_orphans indexed, if_neg member.2]
    exact indexed.requested hash member.1

theorem len_evict_lt (indexed : pool.Indexed) (now : Nat) : (pool.evict now).len < maxOrphanSize :=
  len_eviction_lt indexed now

end Eviction

theorem Indexed.add (indexed : pool.Indexed) (now : Nat) (orphan : Orphan) (requested : Bool) :
    (pool.add now orphan requested).Indexed := by
  dsimp only [OrphanBlockPool.add]
  split
  · exact (indexed.insertOrphan orphan requested).evict now
  · exact indexed.insertOrphan orphan requested

/-- Whatever the pool held, it holds at most `MAX_ORPHAN_SIZE` orphans after an `add`. -/
theorem len_add_le (indexed : pool.Indexed) (now : Nat) (orphan : Orphan) (requested : Bool) :
    (pool.add now orphan requested).len ≤ maxOrphanSize := by
  dsimp only [OrphanBlockPool.add]
  split
  · exact (len_evict_lt (indexed.insertOrphan orphan requested) now).le
  · exact Nat.not_lt.1 ‹_›

theorem WellFormed.saveOrphan (wellFormed : pool.WellFormed) (now : Nat) (orphan : Orphan) (requested : Bool) :
    (pool.saveOrphan now orphan requested).WellFormed := by
  unfold OrphanBlockPool.saveOrphan
  split
  · exact wellFormed
  · exact ⟨wellFormed.toIndexed.add now orphan requested, len_add_le wellFormed.toIndexed now orphan requested⟩

section Remove

theorem removeByPrevHash_of_found {prevHash : CryptoHash} {hashes : List CryptoHash}
    (found : pool.prevHashIdx.lookup prevHash = some hashes) :
    pool.removeByPrevHash prevHash =
      ({ pool with
          orphans := (takeOrphans pool.orphans pool.orphansRequestedMissingChunks hashes).1
          orphansRequestedMissingChunks := (takeOrphans pool.orphans pool.orphansRequestedMissingChunks hashes).2.1
          prevHashIdx := pool.prevHashIdx.erase prevHash
          heightIdx := keepUnremoved hashes.toFinset pool.heightIdx },
        some (takeOrphans pool.orphans pool.orphansRequestedMissingChunks hashes).2.2) := by
  simp [removeByPrevHash, found]

theorem removeByPrevHash_of_missing {prevHash : CryptoHash} (missing : pool.prevHashIdx.lookup prevHash = none) :
    pool.removeByPrevHash prevHash = ({ pool with heightIdx := keepUnremoved ∅ pool.heightIdx }, none) := by
  simp [removeByPrevHash, missing]

theorem Indexed.removeByPrevHash (indexed : pool.Indexed) (prevHash : CryptoHash) :
    (pool.removeByPrevHash prevHash).1.Indexed := by
  cases found : pool.prevHashIdx.lookup prevHash with
  | none =>
    rw [removeByPrevHash_of_missing found]
    exact { indexed with
      atHeight := fun hash orphan pooled => (indexed.atHeight hash orphan pooled).keepUnremoved (Finset.notMem_empty hash) }
  | some hashes =>
    rw [removeByPrevHash_of_found found]
    -- an orphan still pooled was not among the children taken
    have left : ∀ hash orphan, (takeOrphans pool.orphans pool.orphansRequestedMissingChunks hashes).1.lookup hash = some orphan →
        pool.orphans.lookup hash = some orphan ∧ hash ∉ hashes := by
      intro hash orphan pooled
      rw [takeOrphans_orphans] at pooled
      split at pooled
      · cases pooled
      · exact ⟨pooled, ‹_›⟩
    refine ⟨?keys, ?heights, ?parents, ?requests⟩
    case keys => exact fun hash orphan pooled => indexed.keyed hash orphan (left hash orphan pooled).1
    case heights =>
      intro hash orphan pooled
      obtain ⟨before, kept⟩ := left hash orphan pooled
      exact (indexed.atHeight hash orphan before).keepUnremoved (by simpa using kept)
    case parents =>
      intro hash orphan pooled
      obtain ⟨before, kept⟩ := left hash orphan pooled
      by_cases child : orphan.prevHash = prevHash
      · obtain ⟨listed, listedAt, member⟩ := indexed.underPrev hash orphan before
        rw [child, found] at listedAt
        cases listedAt
        exact absurd member kept
      · exact (indexed.underPrev hash orphan before).erase child
    case requests =>
      intro hash member
      simp only [takeOrphans_requested, Finset.mem_sdiff, List.mem_toFinset] at member
      simp [takeOrphans_orphans, member.2, indexed.requested hash member.1]

/-- Each orphan handed over leaves the pool. -/
theorem len_removeByPrevHash (prevHash : CryptoHash) :
    (pool.removeByPrevHash prevHash).1.len + ((pool.removeByPrevHash prevHash).2.getD []).length = pool.len := by
  cases found : pool.prevHashIdx.lookup prevHash with
  | none => simp [removeByPrevHash_of_missing found, len]
  | some hashes =>
    rw [removeByPrevHash_of_found found]
    exact length_takeOrphans hashes pool.orphans pool.orphansRequestedMissingChunks

theorem removeByPrevHash_evicted (prevHash : CryptoHash) : (pool.removeByPrevHash prevHash).1.evicted = pool.evicted := by
  cases found : pool.prevHashIdx.lookup prevHash with
  | none => rw [removeByPrevHash_of_missing found]
  | some hashes => rw [removeByPrevHash_of_found found]

theorem isSome_of_removeByPrevHash {prevHash k : CryptoHash}
    (pooled : ((pool.removeByPrevHash prevHash).1.orphans.lookup k).isSome) : (pool.orphans.lookup k).isSome := by
  cases found : pool.prevHashIdx.lookup prevHash with
  | none => rwa [removeByPrevHash_of_missing found] at pooled
  | some hashes =>
    rw [removeByPrevHash_of_found found] at pooled
    simp only [takeOrphans_orphans] at pooled
    split at pooled
    · cases pooled
    · exact pooled

theorem Indexed.markMissingChunksRequestedForOrphan (indexed : pool.Indexed) {hash : CryptoHash}
    (pooled : (pool.orphans.lookup hash).isSome) : (pool.markMissingChunksRequestedForOrphan hash).Indexed :=
  { indexed with
    requested := by
      intro marked member
      rcases Finset.mem_insert.1 member with rfl | old
      · exact pooled
      · exact indexed.requested marked old }

end Remove

section Search

variable {prevHashIdx : Map CryptoHash (List CryptoHash)}

/-- Popping hashes one level below the accepted block that have no children in the index finds
nothing more. -/
theorem run_leaves (leaves : List CryptoHash) (childless : ∀ hash ∈ leaves, prevHashIdx.lookup hash = none) :
    ∀ (res : List CryptoHash) bounded, res.length ≤ 100 * numOrphanAncestorsCheck →
      Loop.run (depthPass prevHashIdx numOrphanAncestorsCheck) (depthVariant prevHashIdx numOrphanAncestorsCheck)
        (depthPass_decreases prevHashIdx numOrphanAncestorsCheck) ⟨leaves.map fun hash => (hash, 1), res, bounded⟩ =
        .ok ⟨[], res, by simp⟩ := by
  induction leaves with
  | nil => intro res bounded _; exact Loop.run_of_break rfl
  | cons hash rest ih =>
    intro res bounded few
    have popped : depthPass prevHashIdx numOrphanAncestorsCheck ⟨(hash :: rest).map fun hash => (hash, 1), res, bounded⟩ =
        .ok (some ⟨rest.map fun hash => (hash, 1), res, fun entry member => bounded entry (List.mem_cons_of_mem _ member)⟩) := by
      simp only [List.map_cons, depthPass, numOrphanAncestorsCheck, childless hash List.mem_cons_self]
      simp only [numOrphanAncestorsCheck] at few
      simp [few]
    rw [Loop.run_of_continue popped]
    exact ih (fun hash member => childless hash (List.mem_cons_of_mem _ member)) res _ few

/-- Below a block whose children have no children of their own, the depth search finds exactly
its children. -/
theorem getOrphansWithinDepth_of_leaves {parentHash : CryptoHash} {children : List CryptoHash}
    (found : pool.prevHashIdx.lookup parentHash = some children)
    (childless : ∀ hash ∈ children, pool.prevHashIdx.lookup hash = none)
    (few : children.length ≤ 100 * numOrphanAncestorsCheck) :
    pool.getOrphansWithinDepth parentHash numOrphanAncestorsCheck = .ok children := by
  have oneLevel : ∀ entry ∈ children.reverse.map fun hash => (hash, 1), entry.2 ≤ numOrphanAncestorsCheck := by
    intro entry member
    obtain ⟨hash, -, rfl⟩ := List.mem_map.1 member
    show 1 ≤ numOrphanAncestorsCheck
    decide
  have first : depthPass pool.prevHashIdx numOrphanAncestorsCheck ⟨[(parentHash, 0)], [], by simp⟩ =
      .ok (some ⟨children.reverse.map fun hash => (hash, 1), children, oneLevel⟩) := by
    have within : children.length ≤ 300 := few
    simp [depthPass, numOrphanAncestorsCheck, found, within, List.map_reverse]
  unfold getOrphansWithinDepth
  rw [Loop.run_of_continue first, run_leaves children.reverse (fun hash member => childless hash (List.mem_reverse.1 member))
    children oneLevel few]
  rfl

end Search

section Check

variable {ready : OrphanBlockPool → Orphan → Bool}

/-- What checking one orphan can do: it is pooled, and it is marked or nothing changes. -/
theorem checkOrphan_eq_ok {hash : CryptoHash} {pool' : OrphanBlockPool} (checked : checkOrphan ready pool hash = .ok pool') :
    ∃ orphan, pool.orphans.lookup hash = some orphan ∧
      (pool' = pool ∨ pool.canRequestMissingChunksForOrphan orphan.hash = true ∧
        pool' = pool.markMissingChunksRequestedForOrphan hash) := by
  unfold checkOrphan at checked
  obtain ⟨orphan, found, marked⟩ := Except.bind_eq_ok checked
  refine ⟨orphan, unwrap_eq_ok.1 found, ?_⟩
  split at marked
  · rename_i both
    cases marked
    exact .inr ⟨(Bool.and_eq_true_iff.1 both).1, rfl⟩
  · cases marked
    exact .inl rfl

/-- What `check_orphans` does when it returns: it checks the orphans the search found, then hands
over the children of the accepted block. -/
theorem checkOrphans_eq_ok {prevHash : CryptoHash} {pool' : OrphanBlockPool} {adopted : List Orphan}
    (ran : pool.checkOrphans prevHash ready = .ok (pool', adopted)) :
    ∃ found checked, pool.getOrphansWithinDepth prevHash numOrphanAncestorsCheck = .ok found ∧
      found.foldlM (checkOrphan ready) pool = .ok checked ∧
      pool' = (checked.removeByPrevHash prevHash).1 ∧ adopted = ((checked.removeByPrevHash prevHash).2.getD []) := by
  unfold checkOrphans at ran
  obtain ⟨found, searched, rest⟩ := Except.bind_eq_ok ran
  obtain ⟨checked, looped, handed⟩ := Except.bind_eq_ok rest
  cases handed
  exact ⟨found, checked, searched, looped, rfl, rfl⟩

/-- Checking an orphan leaves the pool's orphans and its count of evictions alone. -/
theorem checkOrphan_keeps {hash : CryptoHash} {pool' : OrphanBlockPool} (checked : checkOrphan ready pool hash = .ok pool') :
    pool'.orphans = pool.orphans ∧ pool'.evicted = pool.evicted := by
  obtain ⟨orphan, -, rfl | ⟨-, rfl⟩⟩ := checkOrphan_eq_ok checked <;> exact ⟨rfl, rfl⟩

/-- ... and its indexes. -/
theorem checkOrphan_keeps_indexes {hash : CryptoHash} {pool' : OrphanBlockPool}
    (checked : checkOrphan ready pool hash = .ok pool') :
    pool'.heightIdx = pool.heightIdx ∧ pool'.prevHashIdx = pool.prevHashIdx := by
  obtain ⟨orphan, -, rfl | ⟨-, rfl⟩⟩ := checkOrphan_eq_ok checked <;> exact ⟨rfl, rfl⟩

theorem Indexed.checkOrphan (indexed : pool.Indexed) {hash : CryptoHash} {pool' : OrphanBlockPool}
    (checked : checkOrphan ready pool hash = .ok pool') : pool'.Indexed := by
  obtain ⟨orphan, found, rfl | ⟨-, rfl⟩⟩ := checkOrphan_eq_ok checked
  · exact indexed
  · exact indexed.markMissingChunksRequestedForOrphan (by simp [found])

/-- The loop of `check_orphans` over the orphans found leaves the orphans and the evictions alone. -/
theorem foldlM_checkOrphan_keeps {found : List CryptoHash} {checked : OrphanBlockPool}
    (looped : found.foldlM (checkOrphan ready) pool = .ok checked) :
    checked.orphans = pool.orphans ∧ checked.evicted = pool.evicted :=
  List.foldlM_keeps_of_ok (fun pool' => pool'.orphans = pool.orphans ∧ pool'.evicted = pool.evicted)
    (fun _ _ _ stepped holds => ⟨(checkOrphan_keeps stepped).1.trans holds.1, (checkOrphan_keeps stepped).2.trans holds.2⟩)
    looped ⟨rfl, rfl⟩

theorem WellFormed.checkOrphans (wellFormed : pool.WellFormed) {prevHash : CryptoHash} {pool' : OrphanBlockPool}
    {adopted : List Orphan} (ran : pool.checkOrphans prevHash ready = .ok (pool', adopted)) : pool'.WellFormed := by
  obtain ⟨found, checked, -, looped, rfl, -⟩ := checkOrphans_eq_ok ran
  -- the marks keep the orphans, so the pool stays indexed and within its bound through the loop
  have marked : checked.WellFormed := by
    refine List.foldlM_keeps_of_ok WellFormed (fun hash pool pool' stepped holds => ?_) looped wellFormed
    have same := (checkOrphan_keeps stepped).1
    exact ⟨holds.toIndexed.checkOrphan stepped, by simpa [len, same] using holds.capped⟩
  have shrinks := @len_removeByPrevHash checked prevHash
  exact ⟨marked.toIndexed.removeByPrevHash prevHash, by have := marked.capped; omega⟩

end Check

/-- `check_orphans` hands over what leaves the pool, and evicts nothing. -/
theorem checkOrphans_accounts {prevHash : CryptoHash} {pool' : OrphanBlockPool} {adopted : List Orphan}
    (ran : pool.checkOrphans prevHash ready = .ok (pool', adopted)) :
    pool'.len + adopted.length = pool.len ∧ pool'.evicted = pool.evicted ∧
      ∀ k, (pool'.orphans.lookup k).isSome → (pool.orphans.lookup k).isSome := by
  obtain ⟨found, checked, -, looped, rfl, rfl⟩ := checkOrphans_eq_ok ran
  obtain ⟨same, sameEvicted⟩ := foldlM_checkOrphan_keeps looped
  refine ⟨?_, by rw [removeByPrevHash_evicted, sameEvicted], fun k pooled => ?_⟩
  · simpa [len, same] using @len_removeByPrevHash checked prevHash
  · simpa [same] using isSome_of_removeByPrevHash pooled

/-- A block and its child, both saved as orphans: the pool the examples below run on. -/
def sampleParent : Orphan := ⟨Vector.replicate 32 7, 5, Vector.replicate 32 6, 0⟩

def sampleChild : Orphan := ⟨Vector.replicate 32 8, 6, sampleParent.hash, 1⟩

def samplePool : OrphanBlockPool := (new.saveOrphan 0 sampleParent false).saveOrphan 1 sampleChild false

theorem samplePool_indexed : samplePool.Indexed :=
  ((new_wellFormed.saveOrphan 0 sampleParent false).saveOrphan 1 sampleChild false).toIndexed

/-- Accepting the parent block checks its child and hands it over. -/
theorem checkOrphans_samplePool :
    ∃ checked, samplePool.checkOrphans sampleParent.hash (fun _ _ => true) = .ok (checked, [sampleChild]) := by
  have found : samplePool.prevHashIdx.lookup sampleParent.hash = some [sampleChild.hash] := by decide
  rw [checkOrphans, getOrphansWithinDepth_of_leaves found (by decide) (by decide)]
  exact ⟨_, rfl⟩

/-- `check_orphans` marks an orphan only while fewer than `MAX_ORPHAN_MISSING_CHUNKS` are marked,
so it never takes their number past that bound. -/
theorem checkOrphans_requested_le {prevHash : CryptoHash} {pool' : OrphanBlockPool} {adopted : List Orphan}
    (ran : pool.checkOrphans prevHash ready = .ok (pool', adopted)) :
    pool'.orphansRequestedMissingChunks.card ≤ max pool.orphansRequestedMissingChunks.card maxOrphanMissingChunks := by
  obtain ⟨found, checked, -, looped, rfl, -⟩ := checkOrphans_eq_ok ran
  have marked : checked.orphansRequestedMissingChunks.card ≤
      max pool.orphansRequestedMissingChunks.card maxOrphanMissingChunks := by
    refine List.foldlM_keeps_of_ok (fun pool' : OrphanBlockPool => pool'.orphansRequestedMissingChunks.card ≤
      max pool.orphansRequestedMissingChunks.card maxOrphanMissingChunks) (fun hash pool₁ pool₂ stepped holds => ?_)
      looped (le_max_left _ _)
    obtain ⟨orphan, -, rfl | ⟨allowed, rfl⟩⟩ := checkOrphan_eq_ok stepped
    · exact holds
    · -- a mark is made only below the bound
      have below : pool₁.orphansRequestedMissingChunks.card < maxOrphanMissingChunks := by
        simpa [canRequestMissingChunksForOrphan] using (Bool.and_eq_true_iff.1 allowed).1
      calc (insert hash pool₁.orphansRequestedMissingChunks).card
          ≤ pool₁.orphansRequestedMissingChunks.card + 1 := Finset.card_insert_le _ _
        _ ≤ maxOrphanMissingChunks := below
        _ ≤ max pool.orphansRequestedMissingChunks.card maxOrphanMissingChunks := le_max_right _ _
  refine le_trans ?_ marked
  cases foundHere : checked.prevHashIdx.lookup prevHash with
  | none => rw [removeByPrevHash_of_missing foundHere]
  | some hashes =>
    rw [removeByPrevHash_of_found foundHere, takeOrphans_requested]
    exact Finset.card_le_card Finset.sdiff_subset

theorem checkOrphans_requested_le_sample : ∃ pool' adopted,
    samplePool.checkOrphans sampleParent.hash (fun _ _ => true) = .ok (pool', adopted) ∧
      pool'.orphansRequestedMissingChunks.card ≤ max samplePool.orphansRequestedMissingChunks.card maxOrphanMissingChunks := by
  obtain ⟨checked, ran⟩ := checkOrphans_samplePool
  exact ⟨checked, [sampleChild], ran, checkOrphans_requested_le ran⟩

section Run

theorem run_save_cons (now : Nat) (orphan : Orphan) (requested : Bool) (rest : List Event) :
    pool.run (.save now orphan requested :: rest) = (pool.saveOrphan now orphan requested).run rest := by
  simp only [run, step, Except.ok_bind, List.nil_append]
  cases (pool.saveOrphan now orphan requested).run rest <;> rfl


theorem run_cons_eq_ok {event : Event} {rest : List Event} {pool' : OrphanBlockPool} {adopted : List Orphan}
    (ran : pool.run (event :: rest) = .ok (pool', adopted)) :
    ∃ mid first later, pool.step event = .ok (mid, first) ∧ mid.run rest = .ok (pool', later) ∧
      adopted = first ++ later := by
  simp only [run] at ran
  obtain ⟨⟨mid, first⟩, stepped, rest⟩ := Except.bind_eq_ok ran
  obtain ⟨⟨last, later⟩, ranRest, handed⟩ := Except.bind_eq_ok rest
  cases handed
  exact ⟨mid, first, later, stepped, ranRest, rfl⟩

theorem WellFormed.step (wellFormed : pool.WellFormed) {event : Event} {pool' : OrphanBlockPool} {adopted : List Orphan}
    (stepped : pool.step event = .ok (pool', adopted)) : pool'.WellFormed := by
  cases event with
  | save now orphan requested =>
    cases stepped
    exact wellFormed.saveOrphan now orphan requested
  | accept prevHash ready => exact wellFormed.checkOrphans stepped

theorem WellFormed.run (wellFormed : pool.WellFormed) {events : List Event} :
    ∀ {pool' : OrphanBlockPool} {adopted : List Orphan}, pool.run events = .ok (pool', adopted) → pool'.WellFormed := by
  induction events generalizing pool with
  | nil =>
    intro pool' adopted ran
    cases ran
    exact wellFormed
  | cons event rest ih =>
    intro pool' adopted ran
    obtain ⟨mid, first, later, stepped, ranRest, -⟩ := run_cons_eq_ok ran
    exact ih (wellFormed.step stepped) ranRest

/-- Saving the block and its child as orphans, then accepting the block. -/
def sampleEvents : List Event :=
  [.save 0 sampleParent false, .save 1 sampleChild false, .accept sampleParent.hash fun _ _ => true]

section
attribute [local simp] sampleEvents
end

theorem run_sampleEvents : ∃ checked, new.run sampleEvents = .ok (checked, [sampleChild]) := by
  obtain ⟨checked, accepted⟩ := checkOrphans_samplePool
  refine ⟨checked, ?_⟩
  rw [sampleEvents, run_save_cons, run_save_cons]
  show samplePool.run [.accept sampleParent.hash fun _ _ => true] = _
  rw [run, step, accepted]
  rfl

/-- Over every run of `Chain` from the empty pool that does not panic, each orphan is pooled under
its own hash and listed at its height and under its parent, each hash with a chunk request is
pooled, and the pool holds at most `MAX_ORPHAN_SIZE` orphans. -/
theorem run_wellFormed {events : List Event} {pool : OrphanBlockPool} {adopted : List Orphan}
    (ran : new.run events = .ok (pool, adopted)) : pool.WellFormed :=
  new_wellFormed.run ran

theorem run_wellFormed_sample : ∃ pool adopted, new.run sampleEvents = .ok (pool, adopted) ∧ pool.WellFormed := by
  obtain ⟨checked, ran⟩ := run_sampleEvents
  exact ⟨checked, [sampleChild], ran, run_wellFormed ran⟩

/-- The hash a save adds to the pool. -/
def Event.savedHash : Event → Option CryptoHash
  | .save _ orphan _ => some orphan.hash
  | .accept _ _ => none

section
attribute [local simp] Event.savedHash
end

theorem len_evict_add_evicted (indexed : pool.Indexed) (now : Nat) :
    (pool.evict now).len + (pool.evict now).evicted = pool.len + pool.evicted := by
  have within : (pool.eviction now).orphans.entries.length ≤ pool.len :=
    length_le_of_isSome fun k pooled => by
      obtain ⟨orphan, found⟩ := Option.isSome_iff_exists.1 pooled
      simp [(lookup_of_eviction_lookup indexed now found).1]
  simp only [OrphanBlockPool.evict, len] at within ⊢
  omega

/-- Adding a new orphan counts it once: in the pool, or as evicted. -/
theorem len_add_add_evicted (indexed : pool.Indexed) (now : Nat) (orphan : Orphan) (requested : Bool)
    (fresh : pool.orphans.lookup orphan.hash = none) :
    (pool.add now orphan requested).len + (pool.add now orphan requested).evicted = pool.len + pool.evicted + 1 := by
  have inserted := len_insertOrphan_of_fresh orphan requested fresh
  have sameEvicted : (pool.insertOrphan orphan requested).evicted = pool.evicted := rfl
  dsimp only [OrphanBlockPool.add]
  split
  · rw [len_evict_add_evicted (indexed.insertOrphan orphan requested) now, inserted, sameEvicted]
    omega
  · rw [inserted, sameEvicted]
    omega

theorem isSome_of_add (indexed : pool.Indexed) {now : Nat} {orphan : Orphan} {requested : Bool} {k : CryptoHash}
    (pooled : ((pool.add now orphan requested).orphans.lookup k).isSome) :
    k = orphan.hash ∨ (pool.orphans.lookup k).isSome := by
  have inserted : ((pool.insertOrphan orphan requested).orphans.lookup k).isSome := by
    revert pooled
    dsimp only [OrphanBlockPool.add]
    split
    · intro pooled
      obtain ⟨kept, found⟩ := Option.isSome_iff_exists.1 pooled
      simp [(lookup_of_eviction_lookup (indexed.insertOrphan orphan requested) now found).1]
    · exact id
  rw [lookup_insertOrphan] at inserted
  split at inserted
  · exact .inl ‹_›
  · exact .inr inserted

theorem WellFormed.run_conserves (wellFormed : pool.WellFormed) {events : List Event}
    (distinct : (events.filterMap Event.savedHash).Nodup)
    (fresh : ∀ hash ∈ events.filterMap Event.savedHash, pool.orphans.lookup hash = none) :
    ∀ {pool' : OrphanBlockPool} {adopted : List Orphan}, pool.run events = .ok (pool', adopted) →
      pool'.len + pool'.evicted + adopted.length = pool.len + pool.evicted + (events.filterMap Event.savedHash).length := by
  induction events generalizing pool with
  | nil =>
    intro pool' adopted ran
    cases ran
    simp
  | cons event rest ih =>
    intro pool' adopted ran
    obtain ⟨mid, first, later, stepped, ranRest, rfl⟩ := run_cons_eq_ok ran
    cases event with
    | save now orphan requested =>
      cases stepped
      simp only [List.filterMap_cons, Event.savedHash, List.nodup_cons, List.mem_cons, forall_eq_or_imp] at distinct fresh
      have added : pool.saveOrphan now orphan requested = pool.add now orphan requested := by
        simp [OrphanBlockPool.saveOrphan, contains, fresh.1]
      have counted := len_add_add_evicted wellFormed.toIndexed now orphan requested fresh.1
      -- the hashes saved later are in neither the pool nor the new orphan
      have restFresh : ∀ hash ∈ rest.filterMap Event.savedHash, (pool.saveOrphan now orphan requested).orphans.lookup hash = none := by
        intro hash member
        rw [added]
        cases pooled : ((pool.add now orphan requested).orphans.lookup hash).isSome with
        | false => simpa using pooled
        | true =>
          rcases isSome_of_add wellFormed.toIndexed pooled with rfl | before
          · exact absurd member distinct.1
          · simp [fresh.2 hash member] at before
      have later := ih (wellFormed.saveOrphan now orphan requested) distinct.2 restFresh ranRest
      rw [added] at later
      simp only [List.filterMap_cons, Event.savedHash, List.length_cons, List.nil_append]
      omega
    | accept prevHash ready =>
      simp only [List.filterMap_cons, Event.savedHash] at distinct fresh ⊢
      obtain ⟨shrinks, sameEvicted, within⟩ := checkOrphans_accounts stepped
      have restFresh : ∀ hash ∈ rest.filterMap Event.savedHash, mid.orphans.lookup hash = none := by
        intro hash member
        cases pooled : (mid.orphans.lookup hash).isSome with
        | false => simpa using pooled
        | true =>
          have before := within hash pooled
          rw [fresh hash member] at before
          cases before
      have later := ih (wellFormed.checkOrphans stepped) distinct restFresh ranRest
      simp only [List.length_append]
      omega

/-- Over every run of `Chain` from the empty pool in which no block is saved twice, each block
saved is in the pool, was evicted, or was handed over for processing, and is counted once. -/
theorem run_accounts {events : List Event} {pool : OrphanBlockPool} {adopted : List Orphan}
    (distinct : (events.filterMap Event.savedHash).Nodup) (ran : new.run events = .ok (pool, adopted)) :
    pool.len + pool.evicted + adopted.length = (events.filterMap Event.savedHash).length := by
  have counted := new_wellFormed.run_conserves distinct (by simp [new]) ran
  simpa [new, len] using counted

theorem run_accounts_sample : ∃ pool adopted, (sampleEvents.filterMap Event.savedHash).Nodup ∧
    new.run sampleEvents = .ok (pool, adopted) ∧
      pool.len + pool.evicted + adopted.length = (sampleEvents.filterMap Event.savedHash).length := by
  obtain ⟨checked, ran⟩ := run_sampleEvents
  have distinct : (sampleEvents.filterMap Event.savedHash).Nodup := by decide
  exact ⟨checked, [sampleChild], distinct, ran, run_accounts distinct ran⟩

end Run

end OrphanBlockPool

end Nearcore.Chain
