import Nearcore.Chain.OrphanPoolHeaders

/-! A panic of `check_orphans` that the pool's own logic reaches. The eviction of `add` keeps an
entry of `prev_hash_idx` as long as one of its hashes was not removed, with the removed ones still
in it. The depth search of `check_orphans` then finds such a hash below the accepted block, and the
`unwrap` of its lookup in the pool panics. The run that shows it saves, from the empty pool, an
orphan at the instant zero and `MAX_ORPHAN_SIZE` more one `MAX_ORPHAN_AGE_SECS` later, the last
of them a sibling of the first, and accepts their parent. -/
namespace Nearcore.Chain

open EntryMap Unsigned Collections

namespace OrphanBlockPool

variable {pool : OrphanBlockPool}

/-- The panic of `Option::unwrap` on a missing value. -/
def unwrapPanic : Panic := ⟨"called `Option::unwrap()` on a `None` value"⟩

section
attribute [local simp] unwrapPanic
end

section Search

/-- When the depth search finds a hash that is not pooled, `check_orphans` panics on its `unwrap`. -/
theorem checkOrphans_of_unpooled {parentHash hash : CryptoHash} {found : List CryptoHash}
    {ready : OrphanBlockPool → Orphan → Bool}
    (searched : pool.getOrphansWithinDepth parentHash numOrphanAncestorsCheck = .ok found) (member : hash ∈ found)
    (gone : pool.orphans.lookup hash = none) : pool.checkOrphans parentHash ready = .error unwrapPanic := by
  -- checking keeps the orphans, so the lookup fails whenever the loop reaches the hash
  have looped : found.foldlM (checkOrphan ready) pool = .error unwrapPanic := by
    refine List.foldlM_eq_error_of_mem (fun pool' : OrphanBlockPool => pool'.orphans = pool.orphans)
      (fun _ _ _ same stepped => (checkOrphan_keeps stepped).1.trans same) (fun pool' same => ?_) ?_ member rfl
    · exact ⟨unwrapPanic, by simp [checkOrphan, same, gone, unwrap, unwrapPanic]⟩
    · intro other _ pool' e _ failed
      unfold checkOrphan at failed
      cases lookedUp : pool'.orphans.lookup other with
      | none =>
        simp only [lookedUp, unwrap] at failed
        cases failed
        rfl
      | some orphan =>
        simp only [lookedUp, unwrap_some, Except.ok_bind] at failed
        split at failed <;> cases failed
  simp [checkOrphans, searched, looped]

end Search

section Fill

/-- A save of a block not pooled into a pool with room evicts nothing. -/
theorem saveOrphan_of_fresh {now : Nat} {orphan : Orphan} {requested : Bool}
    (fresh : pool.orphans.lookup orphan.hash = none) (room : pool.len < maxOrphanSize) :
    pool.saveOrphan now orphan requested = pool.insertOrphan orphan requested := by
  have inserted := @len_insertOrphan_of_fresh pool orphan requested fresh
  have within : ¬ maxOrphanSize < (pool.insertOrphan orphan requested).len := by omega
  simp [saveOrphan, contains, fresh, add, within]

/-- Saving new blocks with room for all of them inserts each. -/
theorem foldl_saveOrphan_of_fresh (now : Nat) (orphans : List Orphan) :
    ∀ pool : OrphanBlockPool, (orphans.map Orphan.hash).Nodup → (∀ orphan ∈ orphans, pool.orphans.lookup orphan.hash = none) →
      pool.len + orphans.length ≤ maxOrphanSize →
      orphans.foldl (fun pool orphan => pool.saveOrphan now orphan false) pool = orphans.foldl (fun pool orphan => pool.insertOrphan orphan false) pool ∧
        (orphans.foldl (fun pool orphan => pool.insertOrphan orphan false) pool).len = pool.len + orphans.length := by
  induction orphans with
  | nil => intro pool _ _ _; simp
  | cons orphan rest ih =>
    intro pool distinct fresh room
    simp only [List.map_cons, List.nodup_cons, List.mem_map, not_exists, not_and] at distinct
    simp only [List.length_cons] at room
    have first := fresh orphan List.mem_cons_self
    -- the later blocks are new to the pool with this one in
    have restFresh : ∀ later ∈ rest, (pool.insertOrphan orphan false).orphans.lookup later.hash = none := by
      intro later member
      rw [lookup_insertOrphan, if_neg (distinct.1 later member)]
      exact fresh later (List.mem_cons_of_mem _ member)
    have inserted := @len_insertOrphan_of_fresh pool orphan false first
    obtain ⟨saved, counted⟩ := ih (pool.insertOrphan orphan false) distinct.2 restFresh (by omega)
    rw [List.foldl_cons, List.foldl_cons, saveOrphan_of_fresh first (by omega), saved, counted, inserted,
      List.length_cons]
    exact ⟨rfl, by omega⟩

section Untouched

variable {orphans : List Orphan}

theorem foldl_insertOrphan_orphans_of_ne {k : CryptoHash} (others : ∀ orphan ∈ orphans, orphan.hash ≠ k) :
    ∀ pool : OrphanBlockPool, (orphans.foldl (fun pool orphan => pool.insertOrphan orphan false) pool).orphans.lookup k =
      pool.orphans.lookup k := by
  induction orphans with
  | nil => intro pool; rfl
  | cons orphan rest ih =>
    intro pool
    rw [List.foldl_cons, ih (fun later member => others later (List.mem_cons_of_mem _ member)), lookup_insertOrphan,
      if_neg (fun same => others orphan List.mem_cons_self same.symm)]

theorem foldl_insertOrphan_heightIdx_of_ne {height : Nat} (others : ∀ orphan ∈ orphans, orphan.height ≠ height) :
    ∀ pool : OrphanBlockPool, (orphans.foldl (fun pool orphan => pool.insertOrphan orphan false) pool).heightIdx.lookup height =
      pool.heightIdx.lookup height := by
  induction orphans with
  | nil => intro pool; rfl
  | cons orphan rest ih =>
    intro pool
    rw [List.foldl_cons, ih (fun later member => others later (List.mem_cons_of_mem _ member)),
      insertOrphan_heightIdx_of_ne (others orphan List.mem_cons_self)]

theorem foldl_insertOrphan_prevHashIdx_of_ne {prevHash : CryptoHash} (others : ∀ orphan ∈ orphans, orphan.prevHash ≠ prevHash) :
    ∀ pool : OrphanBlockPool, (orphans.foldl (fun pool orphan => pool.insertOrphan orphan false) pool).prevHashIdx.lookup prevHash =
      pool.prevHashIdx.lookup prevHash := by
  induction orphans with
  | nil => intro pool; rfl
  | cons orphan rest ih =>
    intro pool
    rw [List.foldl_cons, ih (fun later member => others later (List.mem_cons_of_mem _ member)),
      insertOrphan_prevHashIdx_of_ne (others orphan List.mem_cons_self)]

theorem foldl_insertOrphan_heightIdx_isSome {height : Nat} :
    ∀ pool : OrphanBlockPool, (pool.heightIdx.lookup height).isSome →
      ((orphans.foldl (fun pool orphan => pool.insertOrphan orphan false) pool).heightIdx.lookup height).isSome := by
  induction orphans with
  | nil => intro pool listed; exact listed
  | cons orphan rest ih =>
    intro pool listed
    refine ih _ ?_
    by_cases same : height = orphan.height <;> simp [insertOrphan, lookup_andModifyOrInsert, same, listed]

/-- An orphan pooled after the inserts was pooled before or is one of them. -/
theorem foldl_insertOrphan_orphans_eq_some {k : CryptoHash} {found : Orphan} :
    ∀ pool : OrphanBlockPool, (orphans.foldl (fun pool orphan => pool.insertOrphan orphan false) pool).orphans.lookup k = some found →
      found ∈ orphans ∨ pool.orphans.lookup k = some found := by
  induction orphans with
  | nil => intro pool pooled; exact .inr pooled
  | cons orphan rest ih =>
    intro pool pooled
    rcases ih _ pooled with later | before
    · exact .inl (List.mem_cons_of_mem _ later)
    · rw [lookup_insertOrphan] at before
      split at before
      · cases before
        exact .inl List.mem_cons_self
      · exact .inr before

theorem Indexed.foldl_insertOrphan : ∀ pool : OrphanBlockPool, pool.Indexed →
    (orphans.foldl (fun pool orphan => pool.insertOrphan orphan false) pool).Indexed := by
  induction orphans with
  | nil => intro pool indexed; exact indexed
  | cons orphan rest ih => intro pool indexed; exact ih _ (indexed.insertOrphan orphan false)

end Untouched

end Fill

section Scenario

/-- The instant of a save. -/
def Event.instant : Event → Option Nat
  | .save now _ _ => some now
  | .accept _ _ => none

section
attribute [local simp] Event.instant
end

/-- `MAX_ORPHAN_AGE_SECS` after the instant zero, in nanoseconds. -/
def maxAge : Nat := maxOrphanAgeSecs * 1000000000

/-- The block accepted at the end: the parent of two orphans, on two forks. -/
def acceptedHash : CryptoHash := Vector.replicate 32 1

/-- The parent of the other orphans. -/
def otherParentHash : CryptoHash := Vector.replicate 32 2

def oldSibling : Orphan := ⟨Vector.replicate 32 3, 1, acceptedHash, 0⟩

section
attribute [local simp] oldSibling
end

def newSibling : Orphan := ⟨Vector.replicate 32 4, 1, acceptedHash, maxAge⟩

section
attribute [local simp] newSibling
end

def higherOrphan : Orphan := ⟨Vector.replicate 32 5, 2, otherParentHash, maxAge⟩

section
attribute [local simp] higherOrphan
end

/-- The hash of the `i`-th filler, distinct for each `i` below `2 ^ 16`. -/
def fillerHash (i : Nat) : CryptoHash :=
  Vector.ofFn fun j : Fin 32 =>
    if j.val = 0 then 9 else if j.val = 1 then UInt8.ofNat (i / 256) else if j.val = 2 then UInt8.ofNat i else 0

section
attribute [local simp] fillerHash
end

/-- The orphans that fill the pool up to `MAX_ORPHAN_SIZE`, with the old sibling and the higher
orphan. -/
def fillers : List Orphan := (List.range (maxOrphanSize - 2)).map fun i => ⟨fillerHash i, 1, otherParentHash, maxAge⟩

section
attribute [local simp] fillers
end

theorem fillerHash_ne {i : Nat} {byte : UInt8} (other : byte ≠ 9) : fillerHash i ≠ Vector.replicate 32 byte := by
  intro same
  have first := congrArg (fun hash : CryptoHash => hash[0]) same
  simp only [fillerHash, Vector.getElem_ofFn, Vector.getElem_replicate, if_true] at first
  exact other first.symm

theorem fillerHash_injective {i j : Nat} (small : i < 65536) (small' : j < 65536) (same : fillerHash i = fillerHash j) :
    i = j := by
  have high := congrArg (fun hash : CryptoHash => hash[1].toNat) same
  have low := congrArg (fun hash : CryptoHash => hash[2].toNat) same
  simp [fillerHash] at high low
  omega

theorem mem_fillers {orphan : Orphan} (member : orphan ∈ fillers) :
    (∃ i, orphan.hash = fillerHash i) ∧ orphan.height = 1 ∧ orphan.prevHash = otherParentHash ∧ orphan.added = maxAge := by
  obtain ⟨i, -, rfl⟩ := List.mem_map.1 member
  exact ⟨⟨i, rfl⟩, rfl, rfl, rfl⟩

theorem fillers_hashes_nodup : (fillers.map Orphan.hash).Nodup := by
  rw [fillers, List.map_map]
  refine List.Nodup.map_on (fun i member j member' same => fillerHash_injective ?_ ?_ same) List.nodup_range
  · simp only [List.mem_range, maxOrphanSize] at member
    omega
  · simp only [List.mem_range, maxOrphanSize] at member'
    omega

theorem length_fillers : fillers.length = maxOrphanSize - 2 := by
  simp [fillers]

/-- A filler is none of the three other orphans. -/
theorem filler_hash_ne {orphan : Orphan} (member : orphan ∈ fillers) :
    orphan.hash ≠ oldSibling.hash ∧ orphan.hash ≠ newSibling.hash ∧ orphan.hash ≠ higherOrphan.hash := by
  obtain ⟨⟨i, hashed⟩, -⟩ := mem_fillers member
  rw [hashed]
  exact ⟨fillerHash_ne (by decide), fillerHash_ne (by decide), fillerHash_ne (by decide)⟩

/-- The saves of the run: the old sibling at the instant zero, then at `maxAge` the fillers, the
higher orphan and the new sibling. -/
def saves : List (Nat × Orphan) :=
  (0, oldSibling) :: (fillers.map fun orphan => (maxAge, orphan)) ++ [(maxAge, higherOrphan), (maxAge, newSibling)]

section
attribute [local simp] saves
end

theorem mem_saves {save : Nat × Orphan} (member : save ∈ saves) :
    save = (0, oldSibling) ∨ (∃ orphan ∈ fillers, save = (maxAge, orphan)) ∨ save = (maxAge, higherOrphan) ∨
      save = (maxAge, newSibling) := by
  simp only [saves, List.mem_cons, List.mem_append, List.mem_map, List.not_mem_nil, or_false] at member
  rcases member with (first | ⟨orphan, filler, rfl⟩) | higher | last
  · exact .inl first
  · exact .inr (.inl ⟨orphan, filler, rfl⟩)
  · exact .inr (.inr (.inl higher))
  · exact .inr (.inr (.inr last))

/-- The headers the hashes of the run stand for. -/
def savedHeader (hash : CryptoHash) : Nat × CryptoHash :=
  if hash = oldSibling.hash ∨ hash = newSibling.hash then (1, acceptedHash)
  else if hash = higherOrphan.hash then (2, otherParentHash) else (1, otherParentHash)

section
attribute [local simp] savedHeader
end

/-- The pool after the old sibling and the fillers. -/
def filledPool : OrphanBlockPool :=
  fillers.foldl (fun pool orphan => pool.insertOrphan orphan false) (new.insertOrphan oldSibling false)

section
attribute [local simp] filledPool
end

/-- The pool the last save inserts into before it evicts: one orphan past `MAX_ORPHAN_SIZE`. -/
def overfullPool : OrphanBlockPool := (filledPool.insertOrphan higherOrphan false).insertOrphan newSibling false

section
attribute [local simp] overfullPool
end

section Overfull

theorem overfullPool_indexed : overfullPool.Indexed :=
  (((new_wellFormed.toIndexed.insertOrphan oldSibling false).foldl_insertOrphan _).insertOrphan higherOrphan false).insertOrphan
    newSibling false

theorem filledPool_lookup_higher : filledPool.orphans.lookup higherOrphan.hash = none := by
  rw [filledPool, foldl_insertOrphan_orphans_of_ne (fun orphan member => (filler_hash_ne member).2.2), lookup_insertOrphan,
    if_neg (by decide)]
  rfl

theorem filledPool_lookup_new : filledPool.orphans.lookup newSibling.hash = none := by
  rw [filledPool, foldl_insertOrphan_orphans_of_ne (fun orphan member => (filler_hash_ne member).2.1), lookup_insertOrphan,
    if_neg (by decide)]
  rfl

/-- The saves of the old sibling and the fillers insert each, and fill the pool but one. -/
theorem foldl_save_fillers :
    fillers.foldl (fun pool orphan => pool.saveOrphan maxAge orphan false) (new.insertOrphan oldSibling false) = filledPool ∧
      filledPool.len = maxOrphanSize - 1 := by
  have fresh : ∀ orphan ∈ fillers, (new.insertOrphan oldSibling false).orphans.lookup orphan.hash = none := by
    intro orphan member
    rw [lookup_insertOrphan, if_neg (filler_hash_ne member).1]
    rfl
  have first : (new.insertOrphan oldSibling false).len = 1 := len_insertOrphan_of_fresh oldSibling false rfl
  obtain ⟨saved, counted⟩ := foldl_saveOrphan_of_fresh maxAge fillers _ fillers_hashes_nodup fresh
    (by rw [first, length_fillers]; decide)
  refine ⟨saved, ?_⟩
  rw [filledPool, counted, first, length_fillers]
  decide

theorem len_overfullPool : overfullPool.len = maxOrphanSize + 1 := by
  have higher : (filledPool.insertOrphan higherOrphan false).len = maxOrphanSize :=
    (len_insertOrphan_of_fresh higherOrphan false filledPool_lookup_higher).trans (by rw [foldl_save_fillers.2]; decide)
  have fresh : (filledPool.insertOrphan higherOrphan false).orphans.lookup newSibling.hash = none := by
    rw [lookup_insertOrphan, if_neg (by decide), filledPool_lookup_new]
  rw [overfullPool, len_insertOrphan_of_fresh newSibling false fresh, higher]

/-- Every orphan in the overfull pool but the old sibling was saved at `maxAge`. -/
theorem overfullPool_added {hash : CryptoHash} {orphan : Orphan} (pooled : overfullPool.orphans.lookup hash = some orphan) :
    orphan = oldSibling ∨ orphan.added = maxAge := by
  rw [overfullPool, lookup_insertOrphan] at pooled
  split at pooled
  · cases pooled
    exact .inr rfl
  rw [lookup_insertOrphan] at pooled
  split at pooled
  · cases pooled
    exact .inr rfl
  rcases foldl_insertOrphan_orphans_eq_some _ pooled with filler | first
  · exact .inr (mem_fillers filler).2.2.2
  · rw [lookup_insertOrphan] at first
    split at first
    · cases first
      exact .inl rfl
    · cases first

theorem overfullPool_lookup_old : overfullPool.orphans.lookup oldSibling.hash = some oldSibling := by
  rw [overfullPool, lookup_insertOrphan, if_neg (by decide), lookup_insertOrphan, if_neg (by decide), filledPool,
    foldl_insertOrphan_orphans_of_ne (fun orphan member => (filler_hash_ne member).1), lookup_insertOrphan, if_pos rfl]

theorem overfullPool_lookup_higher : overfullPool.orphans.lookup higherOrphan.hash = some higherOrphan := by
  rw [overfullPool, lookup_insertOrphan, if_neg (by decide), lookup_insertOrphan, if_pos rfl]

theorem overfullPool_lookup_new : overfullPool.orphans.lookup newSibling.hash = some newSibling := by
  rw [overfullPool, lookup_insertOrphan, if_pos rfl]

/-- The only heights are those of the fillers and of the higher orphan, which is alone at its. -/
theorem overfullPool_heightIdx (height : Nat) :
    overfullPool.heightIdx.lookup height = none ∨ height = 1 ∨ height = 2 := by
  by_cases one : height = 1
  · exact .inr (.inl one)
  by_cases two : height = 2
  · exact .inr (.inr two)
  refine .inl ?_
  rw [overfullPool, insertOrphan_heightIdx_of_ne (Ne.symm one), insertOrphan_heightIdx_of_ne (Ne.symm two), filledPool,
    foldl_insertOrphan_heightIdx_of_ne (fun orphan member => (mem_fillers member).2.1 ▸ Ne.symm one),
    insertOrphan_heightIdx_of_ne (Ne.symm one)]
  rfl

theorem overfullPool_heightIdx_two : overfullPool.heightIdx.lookup 2 = some [higherOrphan.hash] := by
  have empty : filledPool.heightIdx.lookup 2 = none := by
    rw [filledPool, foldl_insertOrphan_heightIdx_of_ne (fun orphan member => by rw [(mem_fillers member).2.1]; decide),
      insertOrphan_heightIdx_of_ne (by decide)]
    rfl
  rw [overfullPool, insertOrphan_heightIdx_of_ne (by decide)]
  simp [OrphanBlockPool.insertOrphan, lookup_andModifyOrInsert, higherOrphan, empty]

theorem overfullPool_heightIdx_one : (overfullPool.heightIdx.lookup 1).isSome := by
  simp [overfullPool, OrphanBlockPool.insertOrphan, lookup_andModifyOrInsert, newSibling]

/-- The heights the eviction goes through, highest first. -/
theorem overfullPool_heights : (overfullPool.heightIdx.keys.mergeSort fun a b => decide (a ≤ b)).reverse = [2, 1] := by
  have keys : overfullPool.heightIdx.keys.Perm [2, 1] := by
    refine List.perm_of_nodup_nodup_toFinset_eq overfullPool.heightIdx.keys_nodup (by decide) ?_
    ext height
    simp only [List.mem_toFinset, ← AList.mem_keys, ← AList.lookup_isSome, List.mem_cons, List.not_mem_nil, or_false]
    constructor
    · intro listed
      rcases overfullPool_heightIdx height with none | one | two
      · simp [none] at listed
      · exact .inr one
      · exact .inl two
    · rintro (rfl | rfl)
      · simp [overfullPool_heightIdx_two]
      · exact overfullPool_heightIdx_one
  have heights := (List.reverse_perm _).trans ((List.mergeSort_perm _ fun a b => decide (a ≤ b)).trans keys)
  exact heights.eq_of_pairwise (fun a b _ _ (above : a > b) below => absurd above (Nat.lt_asymm below))
    (pairwise_heights _) (by decide)

theorem overfullPool_prevHashIdx_accepted :
    overfullPool.prevHashIdx.lookup acceptedHash = some [oldSibling.hash, newSibling.hash] := by
  have first : (new.insertOrphan oldSibling false).prevHashIdx.lookup oldSibling.prevHash = some [oldSibling.hash] := by
    rw [insertOrphan_prevHashIdx_self]
    rfl
  have before : (filledPool.insertOrphan higherOrphan false).prevHashIdx.lookup newSibling.prevHash = some [oldSibling.hash] := by
    rw [insertOrphan_prevHashIdx_of_ne (by decide), filledPool,
      foldl_insertOrphan_prevHashIdx_of_ne (fun orphan member => by rw [(mem_fillers member).2.2.1]; decide)]
    exact first
  show overfullPool.prevHashIdx.lookup newSibling.prevHash = _
  rw [overfullPool, insertOrphan_prevHashIdx_self, before]
  rfl

/-- No orphan is a child of either sibling. -/
theorem overfullPool_prevHashIdx_sibling {hash : CryptoHash} (sibling : hash = oldSibling.hash ∨ hash = newSibling.hash) :
    overfullPool.prevHashIdx.lookup hash = none := by
  have accepted : acceptedHash ≠ hash := by rcases sibling with rfl | rfl <;> decide
  have other : otherParentHash ≠ hash := by rcases sibling with rfl | rfl <;> decide
  rw [overfullPool, insertOrphan_prevHashIdx_of_ne accepted, insertOrphan_prevHashIdx_of_ne other, filledPool,
    foldl_insertOrphan_prevHashIdx_of_ne (fun orphan member => by rw [(mem_fillers member).2.2.1]; exact other),
    insertOrphan_prevHashIdx_of_ne accepted]
  rfl

end Overfull

section Eviction

theorem young_oldSibling : young maxAge oldSibling = false := rfl

theorem young_of_added {orphan : Orphan} (saved : orphan.added = maxAge) : young maxAge orphan = true := by
  unfold young
  rw [saved, Nat.sub_self]
  exact decide_eq_true (Nat.mul_pos (by decide) (by decide))

/-- The old sibling is the only orphan too old at `maxAge`. -/
theorem overfullPool_old {hash : CryptoHash} {orphan : Orphan} (pooled : overfullPool.orphans.lookup hash = some orphan) :
    young maxAge orphan = false ↔ hash = oldSibling.hash := by
  rcases overfullPool_added pooled with rfl | saved
  · have own := overfullPool_indexed.keyed hash oldSibling pooled
    rw [young_oldSibling, own]
    exact ⟨fun _ => rfl, fun _ => rfl⟩
  · have notOld : hash ≠ oldSibling.hash := by
      intro same
      rw [same, overfullPool_lookup_old] at pooled
      cases pooled
      exact absurd saved (by decide)
    rw [young_of_added saved]
    exact ⟨fun wrong => Bool.noConfusion wrong, fun same => absurd same notOld⟩

/-- The pass at the highest height, 2, leaves the pool without the old sibling and the higher
orphan. -/
theorem overfullPool_pass (removed : Finset CryptoHash) (k : CryptoHash) :
    (Eviction.evictHeight ⟨overfullPool.heightIdx, retain (fun _ orphan => young maxAge orphan) overfullPool.orphans, removed⟩ 2).orphans.lookup k =
      ((overfullPool.orphans.erase oldSibling.hash).erase higherOrphan.hash).lookup k := by
  rw [Eviction.evictHeight_orphans]
  simp only [Eviction.listed, overfullPool_heightIdx_two, Option.getD_some, List.mem_singleton]
  by_cases higher : k = higherOrphan.hash
  · rw [if_pos higher, higher, AList.lookup_erase]
  rw [if_neg higher, AList.lookup_erase_ne higher, lookup_retain]
  by_cases old : k = oldSibling.hash
  · rw [old, overfullPool_lookup_old, AList.lookup_erase, Option.filter_some, young_oldSibling]
    rfl
  rw [AList.lookup_erase_ne old]
  cases pooled : overfullPool.orphans.lookup k with
  | none => rfl
  | some orphan =>
    have stays : young maxAge orphan = true := by
      cases kept : young maxAge orphan with
      | true => rfl
      | false => exact absurd ((overfullPool_old pooled).1 kept) old
    rw [Option.filter_some, stays]
    rfl

theorem len_overfullPool_pass (removed : Finset CryptoHash) :
    (Eviction.evictHeight ⟨overfullPool.heightIdx, retain (fun _ orphan => young maxAge orphan) overfullPool.orphans, removed⟩ 2).orphans.entries.length =
      maxOrphanSize - 1 := by
  rw [length_eq_of_lookup (overfullPool_pass removed)]
  have erasedOld := length_erase_add overfullPool.orphans oldSibling.hash
  have erasedHigher := length_erase_add (overfullPool.orphans.erase oldSibling.hash) higherOrphan.hash
  rw [overfullPool_lookup_old] at erasedOld
  rw [AList.lookup_erase_ne (by decide), overfullPool_lookup_higher] at erasedHigher
  have full := len_overfullPool
  simp only [len, Option.isSome_some, if_true] at erasedOld erasedHigher full
  omega

/-- The eviction stops after the highest height. -/
theorem overfullPool_eviction : overfullPool.eviction maxAge =
    Eviction.evictHeight ⟨overfullPool.heightIdx, retain (fun _ orphan => young maxAge orphan) overfullPool.orphans,
      ((overfullPool.orphans.entries.filter fun entry => !young maxAge entry.2).map fun entry => entry.2.hash).toFinset⟩ 2 := by
  simp only [eviction, overfullPool_heights]
  exact Eviction.evictHeights_cons_of_lt (by rw [len_overfullPool_pass]; decide)

theorem evicted_lookup_old : (overfullPool.evict maxAge).orphans.lookup oldSibling.hash = none := by
  rw [evict_orphans, overfullPool_eviction, overfullPool_pass, AList.lookup_erase_ne (by decide), AList.lookup_erase]

/-- The entry under the accepted block keeps the old sibling's hash, for the new sibling's sake. -/
theorem evicted_prevHashIdx_accepted :
    (overfullPool.evict maxAge).prevHashIdx.lookup acceptedHash = some [oldSibling.hash, newSibling.hash] := by
  have pooled : (overfullPool.eviction maxAge).orphans.lookup newSibling.hash = some newSibling := by
    rw [overfullPool_eviction, overfullPool_pass, AList.lookup_erase_ne (by decide), AList.lookup_erase_ne (by decide),
      overfullPool_lookup_new]
  have kept := (lookup_of_eviction_lookup overfullPool_indexed maxAge pooled).2
  rw [evict_prevHashIdx]
  simp [keepUnremoved, overfullPool_prevHashIdx_accepted, kept]

theorem evicted_prevHashIdx_sibling {hash : CryptoHash} (sibling : hash = oldSibling.hash ∨ hash = newSibling.hash) :
    (overfullPool.evict maxAge).prevHashIdx.lookup hash = none := by
  rw [evict_prevHashIdx]
  simp [keepUnremoved, overfullPool_prevHashIdx_sibling sibling]

/-- Accepting the siblings' parent after the eviction panics. -/
theorem evicted_checkOrphans (ready : OrphanBlockPool → Orphan → Bool) :
    (overfullPool.evict maxAge).checkOrphans acceptedHash ready = .error unwrapPanic := by
  have childless : ∀ hash ∈ [oldSibling.hash, newSibling.hash], (overfullPool.evict maxAge).prevHashIdx.lookup hash = none := by
    intro hash member
    simp only [List.mem_cons, List.not_mem_nil, or_false] at member
    exact evicted_prevHashIdx_sibling member
  exact checkOrphans_of_unpooled (getOrphansWithinDepth_of_leaves evicted_prevHashIdx_accepted childless (by decide))
    List.mem_cons_self evicted_lookup_old

end Eviction

section Run

theorem run_saves (rest : List Event) :
    ∀ (saves : List (Nat × Orphan)) (pool : OrphanBlockPool),
      pool.run ((saves.map fun save => .save save.1 save.2 false) ++ rest) =
        (saves.foldl (fun pool save => pool.saveOrphan save.1 save.2 false) pool).run rest
  | [], _ => rfl
  | save :: later, pool => by
    rw [List.map_cons, List.cons_append, run_save_cons, List.foldl_cons]
    exact run_saves rest later _

theorem run_accept_of_error {prevHash : CryptoHash} {ready : OrphanBlockPool → Orphan → Bool} {e : Panic}
    (failed : pool.checkOrphans prevHash ready = .error e) (rest : List Event) :
    pool.run (.accept prevHash ready :: rest) = .error e := by
  simp [run, step, failed]

theorem filterMap_savedHash_saves (saves : List (Nat × Orphan)) :
    (saves.map fun save => Event.save save.1 save.2 false).filterMap Event.savedHash = saves.map fun save => save.2.hash := by
  induction saves with
  | nil => rfl
  | cons save rest ih => simp [Event.savedHash, ih]

theorem filterMap_instant_saves (saves : List (Nat × Orphan)) :
    (saves.map fun save => Event.save save.1 save.2 false).filterMap Event.instant = saves.map fun save => save.1 := by
  induction saves with
  | nil => rfl
  | cons save rest ih => simp [Event.instant, ih]

/-- The saves end in the eviction of the overfull pool. -/
theorem foldl_saves : saves.foldl (fun pool save => pool.saveOrphan save.1 save.2 false) new = overfullPool.evict maxAge := by
  have first : new.saveOrphan 0 oldSibling false = new.insertOrphan oldSibling false :=
    saveOrphan_of_fresh rfl (by decide)
  have higher : filledPool.saveOrphan maxAge higherOrphan false = filledPool.insertOrphan higherOrphan false :=
    saveOrphan_of_fresh filledPool_lookup_higher (by rw [foldl_save_fillers.2]; decide)
  have fresh : (filledPool.insertOrphan higherOrphan false).orphans.lookup newSibling.hash = none := by
    rw [lookup_insertOrphan, if_neg (by decide), filledPool_lookup_new]
  -- the last save finds the pool full and evicts
  have last : (filledPool.insertOrphan higherOrphan false).saveOrphan maxAge newSibling false = overfullPool.evict maxAge := by
    have full : maxOrphanSize < overfullPool.len := by rw [len_overfullPool]; decide
    have absent : ¬(filledPool.insertOrphan higherOrphan false).contains newSibling.hash = true := by
      rw [contains, fresh]
      exact Bool.false_ne_true
    rw [saveOrphan, if_neg absent]
    show (if maxOrphanSize < overfullPool.len then overfullPool.evict maxAge else overfullPool) = _
    rw [if_pos full]
  have filled : ((0, oldSibling) :: fillers.map fun orphan => (maxAge, orphan)).foldl
      (fun pool save => pool.saveOrphan save.1 save.2 false) new = filledPool := by
    simp only [List.foldl_cons, List.foldl_map]
    rw [first]
    exact foldl_save_fillers.1
  rw [saves, List.foldl_append, filled]
  rw [List.foldl_cons, List.foldl_cons, List.foldl_nil]
  show (filledPool.saveOrphan maxAge higherOrphan false).saveOrphan maxAge newSibling false = _
  rw [higher, last]

/-- From the empty pool, saving blocks each once, with the headers their hashes stand for, at
instants that do not go back, reaches a pool where `check_orphans` panics when the parent of two
of them is accepted: an eviction removed the older of the two and kept its hash under the parent,
for the sake of the other. -/
theorem run_panics_on_stale_entry : ∃ (header : CryptoHash → Nat × CryptoHash) (events : List Event),
    (∀ event ∈ events, event.Conforms header) ∧ (events.filterMap Event.savedHash).Nodup ∧
      (events.filterMap Event.instant).Pairwise (· ≤ ·) ∧ new.run events = .error unwrapPanic := by
  refine ⟨savedHeader, (saves.map fun save => .save save.1 save.2 false) ++ [.accept acceptedHash fun _ _ => false],
    ?conforms, ?distinct, ?ordered, ?panics⟩
  case panics =>
    rw [run_saves, foldl_saves]
    exact run_accept_of_error (evicted_checkOrphans _) []
  case conforms =>
    intro event member
    simp only [List.mem_append, List.mem_map, List.mem_singleton] at member
    rcases member with ⟨save, saved, rfl⟩ | rfl
    · rcases mem_saves saved with rfl | ⟨orphan, filler, rfl⟩ | rfl | rfl
      · simp [Event.Conforms, Conforms, savedHeader, oldSibling]
      · obtain ⟨old, new, higher⟩ := filler_hash_ne filler
        obtain ⟨-, height, parent, -⟩ := mem_fillers filler
        simp [Event.Conforms, Conforms, savedHeader, old, new, higher, height, parent]
      · simp only [Event.Conforms, Conforms, savedHeader]
        rw [if_neg (by decide), if_pos trivial]
        rfl
      · simp [Event.Conforms, Conforms, savedHeader, newSibling]
    · trivial
  case distinct =>
    rw [List.filterMap_append, filterMap_savedHash_saves, saves]
    simp only [List.map_append, List.map_cons, List.map_map, List.map_nil, List.filterMap_cons, List.filterMap_nil,
      Event.savedHash, List.append_nil, Function.comp_def]
    -- the fillers are distinct, and none of them is one of the three other orphans
    have fillersApart : ∀ hash ∈ fillers.map fun orphan => orphan.hash,
        hash ≠ oldSibling.hash ∧ hash ≠ newSibling.hash ∧ hash ≠ higherOrphan.hash := by
      intro hash member
      obtain ⟨orphan, filler, rfl⟩ := List.mem_map.1 member
      exact filler_hash_ne filler
    rw [List.cons_append, List.nodup_cons, List.nodup_append]
    refine ⟨?_, fillers_hashes_nodup, by decide, ?_⟩
    · simp only [List.mem_append, List.mem_cons, List.not_mem_nil, or_false, not_or]
      exact ⟨fun member => (fillersApart _ member).1 rfl, by decide, by decide⟩
    · intro hash member other last
      simp only [List.mem_cons, List.not_mem_nil, or_false] at last
      rcases last with rfl | rfl
      · exact (fillersApart hash member).2.2
      · exact (fillersApart hash member).2.1
  case ordered =>
    rw [List.filterMap_append, filterMap_instant_saves, saves]
    simp only [List.map_append, List.map_cons, List.map_map, List.map_nil, List.filterMap_cons, List.filterMap_nil,
      Event.instant, List.append_nil, Function.comp_def, List.cons_append]
    -- after the instant zero, every save is at `maxAge`
    have later : (fillers.map fun _ => maxAge) ++ [maxAge, maxAge] = List.replicate (fillers.length + 2) maxAge := by
      rw [List.eq_replicate_iff]
      refine ⟨by simp, fun instant member => ?_⟩
      simp only [List.mem_append, List.mem_map, List.mem_cons, List.not_mem_nil, or_false] at member
      rcases member with ⟨_, _, rfl⟩ | rfl | rfl <;> rfl
    rw [later, List.pairwise_cons]
    exact ⟨fun _ _ => Nat.zero_le _, List.pairwise_replicate.2 (.inr le_rfl)⟩

end Run

end Scenario

end OrphanBlockPool

end Nearcore.Chain
