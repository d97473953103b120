import Nearcore.Chain.OrphanPoolInvariants

/-! The orphan pool against the headers its hashes stand for. A block hash is the hash of its
header, so it fixes the block's height and parent: `header` is that map. Each pooled orphan has the
header of its hash, and each hash an index lists at a height or under a parent has that height or
that parent, whether it is still pooled or not. Then `remove_by_prev_hash` hands over exactly the
pooled children of the accepted block, each once, and the eviction of `add` keeps young orphans
only, removing a young one only when it is higher than every orphan kept. -/
namespace Nearcore.Chain

open EntryMap Unsigned Collections

namespace OrphanBlockPool

variable (header : CryptoHash → Nat × CryptoHash)

/-- The orphan's block has the header its hash stands for. -/
def Conforms (orphan : Orphan) : Prop := header orphan.hash = (orphan.height, orphan.prevHash)

section
attribute [local simp] Conforms
end

/-- The pool agrees with the headers. -/
structure Coherent (pool : OrphanBlockPool) : Prop where
  orphans : ∀ hash orphan, pool.orphans.lookup hash = some orphan → Conforms header orphan
  heights : ∀ height hash, Listed pool.heightIdx height hash → (header hash).1 = height
  parents : ∀ prevHash hash, Listed pool.prevHashIdx prevHash hash → (header hash).2 = prevHash

/-- A save of a block with the header of its hash. -/
def Event.Conforms : Event → Prop
  | .save _ orphan _ => OrphanBlockPool.Conforms header orphan
  | .accept _ _ => True

section
attribute [local simp] Event.Conforms
end

variable {header} {pool : OrphanBlockPool}

theorem new_coherent : new.Coherent header where
  orphans := by simp [new]
  heights := by simp [new, Listed]
  parents := by simp [new, Listed]

section Preservation

theorem Coherent.insertOrphan (coherent : pool.Coherent header) {orphan : Orphan} (conforms : Conforms header orphan)
    (requested : Bool) : (pool.insertOrphan orphan requested).Coherent header where
  orphans := by
    intro hash pooled found
    rw [lookup_insertOrphan] at found
    split at found
    · cases found
      exact conforms
    · exact coherent.orphans hash pooled found
  heights := by
    intro height hash listed
    rcases Listed.of_andModifyOrInsert listed with old | ⟨rfl, rfl⟩
    · exact coherent.heights height hash old
    · exact congrArg Prod.fst conforms
  parents := by
    intro prevHash hash listed
    rcases Listed.of_andModifyOrInsert listed with old | ⟨rfl, rfl⟩
    · exact coherent.parents prevHash hash old
    · exact congrArg Prod.snd conforms

theorem Coherent.evict (indexed : pool.Indexed) (coherent : pool.Coherent header) (now : Nat) :
    (pool.evict now).Coherent header where
  orphans := fun hash orphan found => coherent.orphans hash orphan (lookup_of_eviction_lookup indexed now found).1
  heights := by
    intro height hash listed
    obtain ⟨hashes, found, member⟩ := Listed.of_keepUnremoved listed
    -- the loop only takes heights away from `height_idx`
    rcases @eviction_heightIdx pool now height with same | ⟨gone, -⟩
    · exact coherent.heights height hash ⟨hashes, same ▸ found, member⟩
    · rw [gone] at found
      cases found
  parents := fun prevHash hash listed => coherent.parents prevHash hash (Listed.of_keepUnremoved listed)

theorem Coherent.saveOrphan (indexed : pool.Indexed) (coherent : pool.Coherent header) (now : Nat) {orphan : Orphan}
    (conforms : Conforms header orphan) (requested : Bool) : (pool.saveOrphan now orphan requested).Coherent header := by
  unfold OrphanBlockPool.saveOrphan
  split
  · exact coherent
  · dsimp only [OrphanBlockPool.add]
    split
    · exact (coherent.insertOrphan conforms requested).evict (indexed.insertOrphan orphan requested) now
    · exact coherent.insertOrphan conforms requested

theorem Coherent.removeByPrevHash (coherent : pool.Coherent header) (prevHash : CryptoHash) :
    (pool.removeByPrevHash prevHash).1.Coherent header := by
  cases found : pool.prevHashIdx.lookup prevHash with
  | none =>
    rw [removeByPrevHash_of_missing found]
    exact { coherent with heights := fun height hash listed => coherent.heights height hash (Listed.of_keepUnremoved listed) }
  | some hashes =>
    rw [removeByPrevHash_of_found found]
    refine ⟨fun hash orphan pooled => ?_, fun height hash listed => coherent.heights height hash (Listed.of_keepUnremoved listed),
      fun parent hash listed => coherent.parents parent hash (Listed.of_erase listed)⟩
    rw [takeOrphans_orphans] at pooled
    split at pooled
    · cases pooled
    · exact coherent.orphans hash orphan pooled

theorem Coherent.checkOrphans (coherent : pool.Coherent header) {prevHash : CryptoHash}
    {ready : OrphanBlockPool → Orphan → Bool} {pool' : OrphanBlockPool} {adopted : List Orphan}
    (ran : pool.checkOrphans prevHash ready = .ok (pool', adopted)) : pool'.Coherent header := by
  obtain ⟨found, checked, -, looped, rfl, -⟩ := checkOrphans_eq_ok ran
  -- the marks change the requested set only
  have marked : checked.Coherent header := by
    refine List.foldlM_keeps_of_ok (Coherent header) (fun hash pool₁ pool₂ stepped holds => ?_) looped coherent
    obtain ⟨sameOrphans, -⟩ := checkOrphan_keeps stepped
    obtain ⟨sameHeights, sameParents⟩ := checkOrphan_keeps_indexes stepped
    exact ⟨sameOrphans ▸ holds.orphans, sameHeights ▸ holds.heights, sameParents ▸ holds.parents⟩
  exact marked.removeByPrevHash prevHash

theorem WellFormed.coherent_run {events : List Event} (conforms : ∀ event ∈ events, event.Conforms header) :
    ∀ {pool pool' : OrphanBlockPool} {adopted : List Orphan}, pool.WellFormed → pool.Coherent header →
      pool.run events = .ok (pool', adopted) → pool'.Coherent header := by
  induction events with
  | nil =>
    intro pool pool' adopted _ coherent ran
    cases ran
    exact coherent
  | cons event rest ih =>
    intro pool pool' adopted wellFormed coherent ran
    obtain ⟨mid, first, later, stepped, ranRest, -⟩ := run_cons_eq_ok ran
    have next : mid.Coherent header := by
      cases event with
      | save now orphan requested =>
        cases stepped
        exact coherent.saveOrphan wellFormed.toIndexed now (conforms _ List.mem_cons_self) requested
      | accept prevHash ready => exact coherent.checkOrphans stepped
    exact ih (fun event member => conforms event (List.mem_cons_of_mem _ member)) (wellFormed.step stepped) next ranRest

end Preservation

/-- A pooled orphan is listed under a parent exactly when that is its parent. -/
theorem listed_under_iff (indexed : pool.Indexed) (coherent : pool.Coherent header) {hash : CryptoHash}
    {orphan : Orphan} (found : pool.orphans.lookup hash = some orphan) (prevHash : CryptoHash) :
    Listed pool.prevHashIdx prevHash hash ↔ orphan.prevHash = prevHash := by
  have own : header hash = (orphan.height, orphan.prevHash) := by
    rw [← indexed.keyed hash orphan found]
    exact coherent.orphans hash orphan found
  constructor
  · intro listed
    have parent := coherent.parents prevHash hash listed
    rwa [own] at parent
  · rintro rfl
    exact indexed.underPrev hash orphan found

/-- The headers of the sample blocks: the child's, and the parent's for every other hash. -/
def sampleHeader (hash : CryptoHash) : Nat × CryptoHash :=
  if hash = sampleChild.hash then (sampleChild.height, sampleChild.prevHash)
  else (sampleParent.height, sampleParent.prevHash)

theorem samplePool_coherent : samplePool.Coherent sampleHeader :=
  (new_coherent.saveOrphan new_wellFormed.toIndexed 0 (by unfold Conforms; decide) false).saveOrphan
    (new_wellFormed.saveOrphan 0 sampleParent false).toIndexed 1 (by unfold Conforms; decide) false

/-- `remove_by_prev_hash` hands over exactly the pooled children of the accepted block, each once,
and keeps every other orphan. -/
theorem removeByPrevHash_adopts_children (indexed : pool.Indexed) (coherent : pool.Coherent header)
    (prevHash : CryptoHash) :
    (∀ orphan, orphan ∈ (pool.removeByPrevHash prevHash).2.getD [] ↔
      pool.orphans.lookup orphan.hash = some orphan ∧ orphan.prevHash = prevHash) ∧
    (((pool.removeByPrevHash prevHash).2.getD []).map Orphan.hash).Nodup ∧
    ∀ hash, (pool.removeByPrevHash prevHash).1.orphans.lookup hash =
      (pool.orphans.lookup hash).filter fun orphan => orphan.prevHash != prevHash := by
  cases found : pool.prevHashIdx.lookup prevHash with
  | none =>
    -- no hash is listed under the block, so none of its children is pooled
    have childless : ∀ hash orphan, pool.orphans.lookup hash = some orphan → orphan.prevHash ≠ prevHash := by
      intro hash orphan pooled child
      obtain ⟨hashes, listedAt, -⟩ := (listed_under_iff indexed coherent pooled prevHash).2 child
      rw [found] at listedAt
      cases listedAt
    rw [removeByPrevHash_of_missing found]
    refine ⟨fun orphan => ?_, List.nodup_nil, fun hash => ?_⟩
    · constructor
      · intro member
        cases member
      · rintro ⟨pooled, child⟩
        exact absurd child (childless _ orphan pooled)
    · cases pooled : pool.orphans.lookup hash with
      | none => rfl
      | some orphan => simp [Option.filter, childless hash orphan pooled]
  | some hashes =>
    -- the children pooled are the orphans pooled under the hashes listed there
    have listedIff : ∀ hash orphan, pool.orphans.lookup hash = some orphan → (hash ∈ hashes ↔ orphan.prevHash = prevHash) := by
      intro hash orphan pooled
      rw [← listed_under_iff indexed coherent pooled prevHash]
      exact ⟨fun member => ⟨hashes, found, member⟩, fun ⟨listed, listedAt, member⟩ => by
        rw [found] at listedAt
        cases listedAt
        exact member⟩
    rw [removeByPrevHash_of_found found]
    refine ⟨fun orphan => ?_, takeOrphans_hashes_nodup hashes _ _ indexed.keyed, fun hash => ?_⟩
    · simp only [Option.getD_some, mem_takeOrphans]
      constructor
      · rintro ⟨hash, member, pooled⟩
        rw [indexed.keyed hash orphan pooled]
        exact ⟨pooled, (listedIff hash orphan pooled).1 member⟩
      · rintro ⟨pooled, child⟩
        exact ⟨orphan.hash, (listedIff _ orphan pooled).2 child, pooled⟩
    · rw [takeOrphans_orphans]
      cases pooled : pool.orphans.lookup hash with
      | none => simp
      | some orphan =>
        by_cases member : hash ∈ hashes
        · simp [Option.filter, member, (listedIff hash orphan pooled).1 member]
        · simp [Option.filter, member, (listedIff hash orphan pooled).not.1 member]

theorem removeByPrevHash_adopts_children_sample : samplePool.Indexed ∧ samplePool.Coherent sampleHeader ∧
    (∀ orphan, orphan ∈ (samplePool.removeByPrevHash sampleParent.hash).2.getD [] ↔
      samplePool.orphans.lookup orphan.hash = some orphan ∧ orphan.prevHash = sampleParent.hash) ∧
    (((samplePool.removeByPrevHash sampleParent.hash).2.getD []).map Orphan.hash).Nodup ∧
    ∀ hash, (samplePool.removeByPrevHash sampleParent.hash).1.orphans.lookup hash =
      (samplePool.orphans.lookup hash).filter fun orphan => orphan.prevHash != sampleParent.hash :=
  ⟨samplePool_indexed, samplePool_coherent,
    removeByPrevHash_adopts_children samplePool_indexed samplePool_coherent sampleParent.hash⟩

/-- The keys of a map sorted and reversed, as `add` goes through the heights, fall strictly. -/
theorem pairwise_heights {β : Type} (index : Map Nat β) :
    ((index.keys.mergeSort fun a b => decide (a ≤ b)).reverse).Pairwise (· > ·) := by
  have sorted : (index.keys.mergeSort fun a b => decide (a ≤ b)).Pairwise fun a b => decide (a ≤ b) :=
    List.pairwise_mergeSort (fun a b c ab bc => by simp only [decide_eq_true_eq] at ab bc ⊢; omega)
    (fun a b => by simp only [Bool.or_eq_true, decide_eq_true_eq]; omega) index.keys
  have distinct : (index.keys.mergeSort fun a b => decide (a ≤ b)).Nodup :=
    (List.mergeSort_perm _ _).nodup_iff.2 index.keys_nodup
  have rising : (index.keys.mergeSort fun a b => decide (a ≤ b)).Pairwise (· < ·) :=
    (sorted.and (List.nodup_iff_pairwise_ne.1 distinct)).imp fun both => by
      simp only [decide_eq_true_eq] at both
      omega
  exact List.pairwise_reverse.2 rising

/-- The eviction of `add` keeps young orphans only, and removes a young orphan only when it is
higher than every orphan it keeps. -/
theorem evict_keeps_young_lower (indexed : pool.Indexed) (coherent : pool.Coherent header) (now : Nat) :
    (∀ hash orphan, (pool.evict now).orphans.lookup hash = some orphan → young now orphan = true) ∧
    ∀ hash orphan evictedHash evicted, (pool.evict now).orphans.lookup hash = some orphan →
      pool.orphans.lookup evictedHash = some evicted → young now evicted = true →
      (pool.evict now).orphans.lookup evictedHash = none → orphan.height < evicted.height := by
  obtain ⟨pre, post, split, ran, -⟩ := eviction_eq_foldl pool now
  have removedIff : ∀ k, k ∈ (pool.eviction now).removed ↔
      (∃ orphan, pool.orphans.lookup k = some orphan ∧ young now orphan = false) ∨ k ∈ Eviction.listedAt pool.heightIdx pre := by
    intro k
    rw [ran, Eviction.foldl_evictHeight_removed, Finset.mem_union, mem_oldHashes indexed, List.mem_toFinset]
  refine ⟨fun hash orphan kept => ?_, fun hash orphan evictedHash evicted kept pooled fresh gone => ?_⟩
  · obtain ⟨before, notRemoved⟩ := lookup_of_eviction_lookup indexed now kept
    cases stays : young now orphan with
    | true => rfl
    | false => exact absurd ((removedIff hash).2 (.inl ⟨orphan, before, stays⟩)) notRemoved
  · obtain ⟨before, notRemoved⟩ := lookup_of_eviction_lookup indexed now kept
    -- the kept orphan's height was not passed over, so it lies in the rest of the heights
    obtain ⟨hashes, listedAt, member⟩ := indexed.atHeight hash orphan before
    have notPassed : orphan.height ∉ pre := fun passed =>
      notRemoved ((removedIff hash).2 (.inr (List.mem_flatMap.2 ⟨orphan.height, passed, by simp [Eviction.listed, listedAt, member]⟩)))
    have isKey : orphan.height ∈ pre ++ post := by
      rw [← split, List.mem_reverse, List.mem_mergeSort, ← AList.mem_keys, ← AList.lookup_isSome, listedAt]
      rfl
    have inPost : orphan.height ∈ post := (List.mem_append.1 isKey).resolve_left notPassed
    -- the evicted orphan is young, so it went with a height the loop passed over
    have removed : evictedHash ∈ (pool.eviction now).removed := by
      by_contra notRemoved'
      change (pool.eviction now).orphans.lookup evictedHash = none at gone
      rw [eviction_orphans indexed, if_neg notRemoved', pooled] at gone
      cases gone
    obtain ⟨k, passed, listedThere⟩ : ∃ k ∈ pre, evictedHash ∈ Eviction.listed pool.heightIdx k := by
      rcases (removedIff evictedHash).1 removed with ⟨old, found, stale⟩ | listedPre
      · rw [pooled] at found
        cases found
        rw [fresh] at stale
        cases stale
      · exact List.mem_flatMap.1 listedPre
    have atK : (header evictedHash).1 = k := by
      cases listedK : pool.heightIdx.lookup k with
      | none => simp [Eviction.listed, listedK] at listedThere
      | some hashesK =>
        exact coherent.heights k evictedHash ⟨hashesK, listedK, by simpa [Eviction.listed, listedK] using listedThere⟩
    have own : (header evictedHash).1 = evicted.height := by
      rw [← indexed.keyed evictedHash evicted pooled, coherent.orphans evictedHash evicted pooled]
    have higher := List.pairwise_append.1 (split ▸ pairwise_heights pool.heightIdx) |>.2.2 k passed orphan.height inPost
    omega

theorem evict_keeps_young_lower_sample : samplePool.Indexed ∧ samplePool.Coherent sampleHeader ∧
    (∀ hash orphan, (samplePool.evict 100).orphans.lookup hash = some orphan → young 100 orphan = true) ∧
    ∀ hash orphan evictedHash evicted, (samplePool.evict 100).orphans.lookup hash = some orphan →
      samplePool.orphans.lookup evictedHash = some evicted → young 100 evicted = true →
      (samplePool.evict 100).orphans.lookup evictedHash = none → orphan.height < evicted.height :=
  ⟨samplePool_indexed, samplePool_coherent, evict_keeps_young_lower samplePool_indexed samplePool_coherent 100⟩

end OrphanBlockPool

end Nearcore.Chain
