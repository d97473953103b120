import Nearcore.Library.EntryMap
import Nearcore.Library.Collections
import Nearcore.Library.Loop
import Nearcore.Primitives.TrieKey

/-! The pool of orphan blocks of `Chain` (`chain/chain/src/orphan.rs`): blocks whose parent is not
accepted yet, with an index of their hashes by height and one by parent. When the pool holds more
than `MAX_ORPHAN_SIZE` orphans, `add` evicts the ones older than `MAX_ORPHAN_AGE_SECS`, then whole
heights from the highest down, and prunes the index entries that only held evicted hashes. When a
block is accepted, `check_orphans` looks up the orphans the depth search over the parent index
finds, and `remove_by_prev_hash` hands its children over for processing.

An orphan is read through its block's hash, height and prev hash, and the `Instant` it was added
at, in nanoseconds of a monotone clock. The `HashMap`s are entry maps and the `HashSet` a finite
set: no result here depends on their order. The cache of optimistic blocks, the metrics and the
`debug_assert!` of the depth search are left out. -/
namespace Nearcore.Chain

open EntryMap Unsigned Collections

/-- `MAX_ORPHAN_SIZE`. -/
def maxOrphanSize : Nat := 1024

section
attribute [local simp] maxOrphanSize
end

/-- `MAX_ORPHAN_AGE_SECS`. -/
def maxOrphanAgeSecs : Nat := 300

/-- `MAX_ORPHAN_MISSING_CHUNKS`. -/
def maxOrphanMissingChunks : Nat := 5

/-- `NUM_ORPHAN_ANCESTORS_CHECK`. -/
def numOrphanAncestorsCheck : Nat := 3

section
attribute [local simp] numOrphanAncestorsCheck
end

structure Orphan where
  hash : CryptoHash
  height : Nat
  prevHash : CryptoHash
  added : Nat

structure OrphanBlockPool where
  orphans : Map CryptoHash Orphan
  orphansRequestedMissingChunks : Finset CryptoHash
  heightIdx : Map Nat (List CryptoHash)
  prevHashIdx : Map CryptoHash (List CryptoHash)
  evicted : Nat

namespace OrphanBlockPool

def new : OrphanBlockPool := ⟨∅, ∅, ∅, ∅, 0⟩

section
attribute [local simp] new
end

def len (pool : OrphanBlockPool) : Nat := pool.orphans.entries.length

section
attribute [local simp] len
end

def contains (pool : OrphanBlockPool) (hash : CryptoHash) : Bool := (pool.orphans.lookup hash).isSome

section
attribute [local simp] contains
end

/-- Whether an orphan is younger than `MAX_ORPHAN_AGE_SECS` at `now`; `Instant::elapsed`
saturates at zero. -/
def young (now : Nat) (orphan : Orphan) : Bool := decide (now - orphan.added < maxOrphanAgeSecs * 1000000000)

section
attribute [local simp] young
end

/-- The `retain` of an index after a removal: the entries that hold a hash not removed. -/
def keepUnremoved {κ : Type} [DecidableEq κ] (removed : Finset CryptoHash) (index : Map κ (List CryptoHash)) :
    Map κ (List CryptoHash) :=
  retain (fun _ hashes => hashes.any fun hash => decide (hash ∉ removed)) index

section
attribute [local simp] keepUnremoved
end

/-- The variables the eviction of `add` writes: `height_idx`, `orphans` and `removed_hashes`. -/
structure Eviction where
  heightIdx : Map Nat (List CryptoHash)
  orphans : Map CryptoHash Orphan
  removed : Finset CryptoHash

/-- An orphan of an evicted height leaves the pool and is recorded as removed. -/
def Eviction.removeOrphan (eviction : Eviction) (hash : CryptoHash) : Eviction :=
  { eviction with orphans := eviction.orphans.erase hash, removed := insert hash eviction.removed }

section
attribute [local simp] Eviction.removeOrphan
end

/-- One pass of the loop over the heights: the height leaves `height_idx`, then its orphans the
pool. -/
def Eviction.evictHeight (eviction : Eviction) (height : Nat) : Eviction :=
  match eviction.heightIdx.lookup height with
  | some hashes => hashes.foldl Eviction.removeOrphan { eviction with heightIdx := eviction.heightIdx.erase height }
  | none => eviction

section
attribute [local simp] Eviction.evictHeight
end

/-- The loop of `add` over the heights, highest first, until fewer than `MAX_ORPHAN_SIZE` orphans
are left. -/
def Eviction.evictHeights (eviction : Eviction) : List Nat → Eviction
  | [] => eviction
  | height :: rest =>
    let eviction := eviction.evictHeight height
    if eviction.orphans.entries.length < maxOrphanSize then eviction else eviction.evictHeights rest

section
attribute [local simp] Eviction.evictHeights
end

namespace Eviction

theorem foldl_removeOrphan (hashes : List CryptoHash) :
    ∀ eviction : Eviction, hashes.foldl removeOrphan eviction =
      ⟨eviction.heightIdx, hashes.foldl (fun orphans hash => orphans.erase hash) eviction.orphans,
        eviction.removed ∪ hashes.toFinset⟩ := by
  induction hashes with
  | nil => intro eviction; simp
  | cons hash rest ih =>
    intro eviction
    rw [List.foldl_cons, ih, List.foldl_cons, List.toFinset_cons, Finset.union_insert]
    simp [removeOrphan, Finset.insert_union]

/-- The orphans a pass at `height` evicts: those `height_idx` lists there. -/
def listed (heightIdx : Map Nat (List CryptoHash)) (height : Nat) : List CryptoHash := (heightIdx.lookup height).getD []

section
attribute [local simp] listed
end

theorem evictHeight_heightIdx (eviction : Eviction) (height k : Nat) :
    (eviction.evictHeight height).heightIdx.lookup k = if k = height then none else eviction.heightIdx.lookup k := by
  unfold evictHeight
  cases found : eviction.heightIdx.lookup height with
  | none =>
    by_cases same : k = height
    · subst same
      simp [found]
    · simp [same]
  | some hashes =>
    by_cases same : k = height
    · subst same
      simp [foldl_removeOrphan, AList.lookup_erase]
    · simp [foldl_removeOrphan, same, AList.lookup_erase_ne same]

theorem evictHeight_orphans (eviction : Eviction) (height : Nat) (k : CryptoHash) :
    (eviction.evictHeight height).orphans.lookup k =
      if k ∈ listed eviction.heightIdx height then none else eviction.orphans.lookup k := by
  unfold evictHeight listed
  cases found : eviction.heightIdx.lookup height with
  | none => simp
  | some hashes => simp [foldl_removeOrphan, lookup_foldl_erase]

theorem evictHeight_removed (eviction : Eviction) (height : Nat) :
    (eviction.evictHeight height).removed = eviction.removed ∪ (listed eviction.heightIdx height).toFinset := by
  unfold evictHeight listed
  cases found : eviction.heightIdx.lookup height with
  | none => simp
  | some hashes => simp [foldl_removeOrphan]

/-- The orphans that passes over `heights` evict: those `height_idx` lists at one of them. -/
def listedAt (heightIdx : Map Nat (List CryptoHash)) (heights : List Nat) : List CryptoHash :=
  heights.flatMap (listed heightIdx)

section
attribute [local simp] listedAt
end

/-- What a pass leaves listed at the later heights, with what it evicted itself, is what was listed
at all of them. -/
theorem mem_listedAt_cons {eviction : Eviction} {height : Nat} {rest : List Nat} {k : CryptoHash} :
    k ∈ listedAt eviction.heightIdx (height :: rest) ↔
      k ∈ listed eviction.heightIdx height ∨ k ∈ listedAt (eviction.evictHeight height).heightIdx rest := by
  simp only [listedAt, List.flatMap_cons, List.mem_append, List.mem_flatMap]
  constructor
  · rintro (here | ⟨later, inRest, listedLater⟩)
    · exact .inl here
    · by_cases same : later = height
      · subst same
        exact .inl listedLater
      · refine .inr ⟨later, inRest, ?_⟩
        rwa [listed, evictHeight_heightIdx, if_neg same]
  · rintro (here | ⟨later, inRest, listedLater⟩)
    · exact .inl here
    · by_cases same : later = height
      · simp [listed, evictHeight_heightIdx, same] at listedLater
      · refine .inr ⟨later, inRest, ?_⟩
        rwa [listed, evictHeight_heightIdx, if_neg same] at listedLater

theorem foldl_evictHeight_heightIdx (heights : List Nat) :
    ∀ (eviction : Eviction) k, (heights.foldl evictHeight eviction).heightIdx.lookup k =
      if k ∈ heights then none else eviction.heightIdx.lookup k := by
  induction heights with
  | nil => intro eviction k; simp
  | cons height rest ih =>
    intro eviction k
    rw [List.foldl_cons, ih, evictHeight_heightIdx]
    by_cases same : k = height <;> by_cases later : k ∈ rest <;> simp [same, later]

theorem foldl_evictHeight_orphans (heights : List Nat) :
    ∀ (eviction : Eviction) k, (heights.foldl evictHeight eviction).orphans.lookup k =
      if k ∈ listedAt eviction.heightIdx heights then none else eviction.orphans.lookup k := by
  induction heights with
  | nil => intro eviction k; simp [listedAt]
  | cons height rest ih =>
    intro eviction k
    rw [List.foldl_cons, ih, evictHeight_orphans]
    by_cases here : k ∈ listed eviction.heightIdx height
    · simp [here, mem_listedAt_cons]
    · by_cases later : k ∈ listedAt (eviction.evictHeight height).heightIdx rest
      · simp [here, later, mem_listedAt_cons]
      · simp [here, later, mem_listedAt_cons]

theorem foldl_evictHeight_removed (heights : List Nat) :
    ∀ eviction : Eviction, (heights.foldl evictHeight eviction).removed =
      eviction.removed ∪ (listedAt eviction.heightIdx heights).toFinset := by
  induction heights with
  | nil => intro eviction; simp [listedAt]
  | cons height rest ih =>
    intro eviction
    rw [List.foldl_cons, ih, evictHeight_removed, Finset.union_assoc]
    congr 1
    ext k
    simp only [Finset.mem_union, List.mem_toFinset]
    exact mem_listedAt_cons.symm

theorem evictHeights_cons_of_lt {eviction : Eviction} {height : Nat} {rest : List Nat}
    (below : (eviction.evictHeight height).orphans.entries.length < maxOrphanSize) :
    eviction.evictHeights (height :: rest) = eviction.evictHeight height := by
  simp [evictHeights, below]

/-- The loop of `add` runs its pass over a prefix of the heights: all of them, or as many as it
takes to bring the pool below `MAX_ORPHAN_SIZE`. -/
theorem evictHeights_eq_foldl (heights : List Nat) :
    ∀ eviction : Eviction, ∃ pre post, heights = pre ++ post ∧ eviction.evictHeights heights = pre.foldl evictHeight eviction ∧
      (post = [] ∨ (pre.foldl evictHeight eviction).orphans.entries.length < maxOrphanSize) := by
  induction heights with
  | nil => intro eviction; exact ⟨[], [], rfl, rfl, .inl rfl⟩
  | cons height rest ih =>
    intro eviction
    by_cases below : (eviction.evictHeight height).orphans.entries.length < maxOrphanSize
    · refine ⟨[height], rest, rfl, ?_, .inr below⟩
      simp [evictHeights, below]
    · obtain ⟨pre, post, split, loop, stopped⟩ := ih (eviction.evictHeight height)
      refine ⟨height :: pre, post, by rw [split, List.cons_append], ?_, stopped⟩
      simp [evictHeights, below, loop]

end Eviction

/-- The first part of `OrphanBlockPool::add`: the block is listed at its height and under its
parent, and enters the pool. -/
def insertOrphan (pool : OrphanBlockPool) (orphan : Orphan) (requestedMissingChunks : Bool) : OrphanBlockPool :=
  let blockHash := orphan.hash
  { orphans := pool.orphans.insert blockHash orphan
    orphansRequestedMissingChunks :=
      if requestedMissingChunks then insert blockHash pool.orphansRequestedMissingChunks
      else pool.orphansRequestedMissingChunks
    heightIdx := andModifyOrInsert pool.heightIdx orphan.height (· ++ [blockHash]) [blockHash]
    prevHashIdx := andModifyOrInsert pool.prevHashIdx orphan.prevHash (· ++ [blockHash]) [blockHash]
    evicted := pool.evicted }

section
attribute [local simp] insertOrphan
end

/-- The state the eviction of `add` at the instant `now` ends in: the orphans that are too old
go first, then whole heights from the highest down, as far as the loop goes. -/
def eviction (pool : OrphanBlockPool) (now : Nat) : Eviction :=
  let removed := ((pool.orphans.entries.filter fun entry => !young now entry.2).map fun entry => entry.2.hash).toFinset
  let orphans := retain (fun _ orphan => young now orphan) pool.orphans
  let heights := (pool.heightIdx.keys.mergeSort fun a b => decide (a ≤ b)).reverse
  Eviction.evictHeights ⟨pool.heightIdx, orphans, removed⟩ heights

section
attribute [local simp] eviction
end

/-- The eviction of `OrphanBlockPool::add`, when the pool has grown past `MAX_ORPHAN_SIZE`: the
index entries that hold only removed hashes go too. -/
def evict (pool : OrphanBlockPool) (now : Nat) : OrphanBlockPool :=
  let oldLen := pool.len
  let eviction := pool.eviction now
  { orphans := eviction.orphans
    orphansRequestedMissingChunks := pool.orphansRequestedMissingChunks.filter fun hash => hash ∉ eviction.removed
    heightIdx := keepUnremoved eviction.removed eviction.heightIdx
    prevHashIdx := keepUnremoved eviction.removed pool.prevHashIdx
    evicted := pool.evicted + (oldLen - eviction.orphans.entries.length) }

section
attribute [local simp] evict
end

/-- `OrphanBlockPool::add` at the instant `now`. -/
def add (pool : OrphanBlockPool) (now : Nat) (orphan : Orphan) (requestedMissingChunks : Bool) : OrphanBlockPool :=
  let pool := pool.insertOrphan orphan requestedMissingChunks
  if maxOrphanSize < pool.len then pool.evict now else pool

section
attribute [local simp] add
end

/-- The pool part of `Chain::save_orphan`: a block already in the pool is not added again. -/
def saveOrphan (pool : OrphanBlockPool) (now : Nat) (orphan : Orphan) (requestedMissingChunks : Bool) :
    OrphanBlockPool :=
  if pool.contains orphan.hash then pool else pool.add now orphan requestedMissingChunks

section
attribute [local simp] saveOrphan
end

/-- The `filter_map` of `remove_by_prev_hash`: each hash leaves the requested set and the pool,
and the orphans it finds are returned in order. -/
def takeOrphans (orphans : Map CryptoHash Orphan) (requested : Finset CryptoHash) :
    List CryptoHash → Map CryptoHash Orphan × Finset CryptoHash × List Orphan
  | [] => (orphans, requested, [])
  | hash :: rest =>
    let (orphans', requested', taken) := takeOrphans (orphans.erase hash) (requested.erase hash) rest
    (orphans', requested', (orphans.lookup hash).toList ++ taken)

section
attribute [local simp] takeOrphans
end

section TakeOrphans

variable (hashes : List CryptoHash)

theorem takeOrphans_orphans : ∀ (orphans : Map CryptoHash Orphan) requested k,
    (takeOrphans orphans requested hashes).1.lookup k = if k ∈ hashes then none else orphans.lookup k := by
  induction hashes with
  | nil => intro orphans requested k; simp [takeOrphans]
  | cons hash rest ih =>
    intro orphans requested k
    simp only [takeOrphans, ih, List.mem_cons]
    by_cases same : k = hash
    · subst same
      simp [AList.lookup_erase]
    · simp [same, AList.lookup_erase_ne same]

theorem takeOrphans_requested : ∀ (orphans : Map CryptoHash Orphan) requested,
    (takeOrphans orphans requested hashes).2.1 = requested \ hashes.toFinset := by
  induction hashes with
  | nil => intro orphans requested; simp [takeOrphans]
  | cons hash rest ih =>
    intro orphans requested
    simp only [takeOrphans, ih, List.toFinset_cons]
    ext k
    simp only [Finset.mem_sdiff, Finset.mem_erase, Finset.mem_insert, List.mem_toFinset, not_or]
    tauto

theorem mem_takeOrphans : ∀ (orphans : Map CryptoHash Orphan) requested orphan,
    orphan ∈ (takeOrphans orphans requested hashes).2.2 ↔ ∃ k ∈ hashes, orphans.lookup k = some orphan := by
  induction hashes with
  | nil => intro orphans requested orphan; simp [takeOrphans]
  | cons hash rest ih =>
    intro orphans requested orphan
    simp only [takeOrphans, List.mem_append, Option.mem_toList, ih, List.mem_cons, exists_eq_or_imp]
    constructor
    · rintro (here | ⟨k, later, found⟩)
      · exact .inl (Option.mem_def.1 here)
      · by_cases same : k = hash
        · subst same
          simp [AList.lookup_erase] at found
        · exact .inr ⟨k, later, by rwa [AList.lookup_erase_ne same] at found⟩
    · rintro (here | ⟨k, later, found⟩)
      · exact .inl here
      · by_cases same : k = hash
        · subst same
          exact .inl found
        · exact .inr ⟨k, later, by rwa [AList.lookup_erase_ne same]⟩

/-- Each orphan taken leaves the pool: the orphans left and those taken are as many as before. -/
theorem length_takeOrphans : ∀ (orphans : Map CryptoHash Orphan) requested,
    (takeOrphans orphans requested hashes).1.entries.length + (takeOrphans orphans requested hashes).2.2.length =
      orphans.entries.length := by
  induction hashes with
  | nil => intro orphans requested; simp [takeOrphans]
  | cons hash rest ih =>
    intro orphans requested
    have erased := length_erase_add orphans hash
    have later := ih (orphans.erase hash) (requested.erase hash)
    rw [takeOrphans]
    generalize takeOrphans (orphans.erase hash) (requested.erase hash) rest = after at later ⊢
    obtain ⟨left, requestedLeft, taken⟩ := after
    simp only [List.length_append] at later ⊢
    cases found : orphans.lookup hash with
    | none =>
      simp only [found, Option.isSome_none, Bool.false_eq_true, if_false] at erased
      simp only [Option.toList_none, List.length_nil]
      omega
    | some orphan =>
      simp only [found, Option.isSome_some, if_true] at erased
      simp only [Option.toList_some, List.length_singleton]
      omega

/-- A hash is looked up once: after it the pool no longer has it, so an orphan pooled under its own
hash is taken at most once. -/
theorem takeOrphans_hashes_nodup : ∀ (orphans : Map CryptoHash Orphan) requested,
    (∀ k orphan, orphans.lookup k = some orphan → orphan.hash = k) →
      ((takeOrphans orphans requested hashes).2.2.map Orphan.hash).Nodup := by
  induction hashes with
  | nil => intro orphans requested keyed; simp [takeOrphans]
  | cons hash rest ih =>
    intro orphans requested keyed
    have keyedErased : ∀ k orphan, (orphans.erase hash).lookup k = some orphan → orphan.hash = k := by
      intro k orphan found
      by_cases same : k = hash
      · subst same
        simp [AList.lookup_erase] at found
      · exact keyed k orphan (by rwa [AList.lookup_erase_ne same] at found)
    -- the orphans taken later were looked up in the pool without `hash`
    have later : ∀ orphan ∈ (takeOrphans (orphans.erase hash) (requested.erase hash) rest).2.2, orphan.hash ≠ hash := by
      intro orphan member
      obtain ⟨k, -, found⟩ := (mem_takeOrphans rest _ _ orphan).1 member
      rw [keyedErased k orphan found]
      rintro rfl
      simp [AList.lookup_erase] at found
    simp only [takeOrphans, List.map_append, List.nodup_append]
    refine ⟨?_, ih _ _ keyedErased, ?_⟩
    · cases orphans.lookup hash <;> simp
    · intro first inFirst second inSecond
      cases found : orphans.lookup hash with
      | none => simp [found] at inFirst
      | some taken =>
        simp only [found, Option.toList_some, List.map_cons, List.map_nil, List.mem_singleton] at inFirst
        obtain ⟨orphan, member, rfl⟩ := List.mem_map.1 inSecond
        rw [inFirst, keyed hash taken found]
        exact (later orphan member).symm

end TakeOrphans

/-- `OrphanBlockPool::remove_by_prev_hash`: the pool after, and the children of `prevHash` taken. -/
def removeByPrevHash (pool : OrphanBlockPool) (prevHash : CryptoHash) : OrphanBlockPool × Option (List Orphan) :=
  match pool.prevHashIdx.lookup prevHash with
  | some hashes =>
    let (orphans, requested, taken) := takeOrphans pool.orphans pool.orphansRequestedMissingChunks hashes
    ({ pool with
        orphans
        orphansRequestedMissingChunks := requested
        prevHashIdx := pool.prevHashIdx.erase prevHash
        heightIdx := keepUnremoved hashes.toFinset pool.heightIdx }, some taken)
  | none => ({ pool with heightIdx := keepUnremoved ∅ pool.heightIdx }, none)

section
attribute [local simp] removeByPrevHash
end

def canRequestMissingChunksForOrphan (pool : OrphanBlockPool) (blockHash : CryptoHash) : Bool :=
  decide (pool.orphansRequestedMissingChunks.card < maxOrphanMissingChunks) &&
    decide (blockHash ∉ pool.orphansRequestedMissingChunks)

section
attribute [local simp] canRequestMissingChunksForOrphan
end

def markMissingChunksRequestedForOrphan (pool : OrphanBlockPool) (blockHash : CryptoHash) : OrphanBlockPool :=
  { pool with orphansRequestedMissingChunks := insert blockHash pool.orphansRequestedMissingChunks }

/-- The state of the loop of `get_orphans_within_depth`: the stack of hashes to look under, top
first, each with its depth, which never passes the target; and the hashes found. -/
structure DepthSearch (targetDepth : Nat) where
  queue : List (CryptoHash × Nat)
  res : List CryptoHash
  bounded : ∀ entry ∈ queue, entry.2 ≤ targetDepth

/-- A pass of the `while let` loop of `get_orphans_within_depth`: pop the top, stop at the target
depth, push the hashes indexed under it, the last one on top, and assert that not too many were
found. The `{:?}` of the hashes in the assertion's message is left out. -/
def depthPass (prevHashIdx : Map CryptoHash (List CryptoHash)) (targetDepth : Nat) :
    DepthSearch targetDepth → Except Panic (Option (DepthSearch targetDepth))
  | ⟨[], _, _⟩ => .ok none
  | ⟨(prevHash, depth) :: queue, res, bounded⟩ =>
    if reached : depth = targetDepth then .ok none
    else
      let blockHashes := (prevHashIdx.lookup prevHash).getD []
      let res := res ++ blockHashes
      if res.length ≤ 100 * targetDepth then
        .ok (some ⟨(blockHashes.map fun hash => (hash, depth + 1)).reverse ++ queue, res, by
          intro entry member
          rcases List.mem_append.1 member with pushed | below
          · obtain ⟨hash, -, rfl⟩ := List.mem_map.1 (List.mem_reverse.1 pushed)
            have within := bounded (prevHash, depth) List.mem_cons_self
            exact Nat.succ_le_of_lt (Nat.lt_of_le_of_ne within reached)
          · exact bounded entry (List.mem_cons_of_mem _ below)⟩)
      else .error ⟨"found too many orphans, probably something is wrong with the chain"⟩

section
attribute [local simp] depthPass
end

/-- What the search has left to do: an entry `k` levels above the target weighs `(B + 1) ^ k`,
where `B` bounds the hashes indexed under one parent, so the entries a pass pushes weigh less than
the one it pops. -/
def depthVariant (prevHashIdx : Map CryptoHash (List CryptoHash)) (targetDepth : Nat)
    (search : DepthSearch targetDepth) : Nat :=
  (search.queue.map fun entry => (total prevHashIdx List.length + 1) ^ (targetDepth - entry.2)).sum

section
attribute [local simp] depthVariant
end

theorem depthPass_decreases (prevHashIdx : Map CryptoHash (List CryptoHash)) (targetDepth : Nat) :
    ∀ search next, depthPass prevHashIdx targetDepth search = .ok (some next) →
      depthVariant prevHashIdx targetDepth next < depthVariant prevHashIdx targetDepth search
  | ⟨[], _, _⟩, _, passed => by cases passed
  | ⟨(prevHash, depth) :: queue, res, bounded⟩, next, passed => by
    by_cases reached : depth = targetDepth
    · simp [depthPass, reached] at passed
    by_cases fits : (res ++ (prevHashIdx.lookup prevHash).getD []).length ≤ 100 * targetDepth
    case neg =>
      simp only [depthPass, dif_neg reached, if_neg fits] at passed
      cases passed
    simp only [depthPass, dif_neg reached, if_pos fits, Except.ok.injEq, Option.some.injEq] at passed
    subst passed
    -- the popped entry is below the target, and the entries pushed are one level nearer to it
    have below : depth + 1 ≤ targetDepth :=
      Nat.succ_le_of_lt (Nat.lt_of_le_of_ne (bounded (prevHash, depth) List.mem_cons_self) reached)
    have pushed : ((prevHashIdx.lookup prevHash).getD []).length ≤ total prevHashIdx List.length := by
      cases found : prevHashIdx.lookup prevHash with
      | none => exact Nat.zero_le _
      | some hashes => exact le_total_of_lookup found List.length
    simp only [depthVariant, List.map_append, List.map_reverse, List.map_map, List.sum_append, List.sum_reverse,
      List.map_cons, List.sum_cons, Function.comp_def, List.map_const', List.sum_replicate, smul_eq_mul]
    generalize total prevHashIdx List.length = bound at pushed ⊢
    have levelsUp : targetDepth - depth = targetDepth - (depth + 1) + 1 := by omega
    rw [levelsUp, Nat.pow_succ]
    generalize targetDepth - (depth + 1) = levels
    have weighs : ((prevHashIdx.lookup prevHash).getD []).length * (bound + 1) ^ levels <
        (bound + 1) ^ levels * (bound + 1) :=
      calc ((prevHashIdx.lookup prevHash).getD []).length * (bound + 1) ^ levels
          ≤ bound * (bound + 1) ^ levels := Nat.mul_le_mul_right _ pushed
        _ < (bound + 1) * (bound + 1) ^ levels :=
          Nat.mul_lt_mul_of_pos_right (Nat.lt_succ_self bound) (Nat.pow_pos (Nat.succ_pos bound))
        _ = (bound + 1) ^ levels * (bound + 1) := Nat.mul_comm _ _
    omega

/-- `OrphanBlockPool::get_orphans_within_depth`. -/
def getOrphansWithinDepth (pool : OrphanBlockPool) (parentHash : CryptoHash) (targetDepth : Nat) :
    Except Panic (List CryptoHash) :=
  DepthSearch.res <$> Loop.run (depthPass pool.prevHashIdx targetDepth) (depthVariant pool.prevHashIdx targetDepth)
    (depthPass_decreases pool.prevHashIdx targetDepth) ⟨[(parentHash, 0)], [], by simp⟩

section
attribute [local simp] getOrphansWithinDepth
end

/-- One orphan of the first loop of `Chain::check_orphans`: it is read from the pool with `unwrap`,
and marked as requested when `should_request_chunks_for_orphan` holds: the pool's
`can_request_missing_chunks_for_orphan` and the chain's conditions on the store and the epoch
manager, which are `ready`. -/
def checkOrphan (ready : OrphanBlockPool → Orphan → Bool) (pool : OrphanBlockPool) (orphanHash : CryptoHash) :
    Except Panic OrphanBlockPool := do
  let orphan ← unwrap (pool.orphans.lookup orphanHash)
  if pool.canRequestMissingChunksForOrphan orphan.hash && ready pool orphan then
    pure (pool.markMissingChunksRequestedForOrphan orphanHash)
  else pure pool

section
attribute [local simp] checkOrphan
end

/-- `Chain::check_orphans` as far as the pool goes: the orphans the depth search finds below the
accepted block are checked, then its children leave the pool for processing. -/
def checkOrphans (pool : OrphanBlockPool) (prevHash : CryptoHash) (ready : OrphanBlockPool → Orphan → Bool) :
    Except Panic (OrphanBlockPool × List Orphan) := do
  let orphansToCheck ← pool.getOrphansWithinDepth prevHash numOrphanAncestorsCheck
  let pool ← orphansToCheck.foldlM (checkOrphan ready) pool
  let (pool, orphans) := pool.removeByPrevHash prevHash
  pure (pool, orphans.getD [])

section
attribute [local simp] checkOrphans
end

/-- What `Chain` does with the pool: it saves a block whose parent is missing at the instant `now`,
and it checks the orphans when a block is accepted. -/
inductive Event where
  | save (now : Nat) (orphan : Orphan) (requestedMissingChunks : Bool)
  | accept (prevHash : CryptoHash) (ready : OrphanBlockPool → Orphan → Bool)

/-- One event, with the orphans it hands over for processing. -/
def step (pool : OrphanBlockPool) : Event → Except Panic (OrphanBlockPool × List Orphan)
  | .save now orphan requestedMissingChunks => .ok (pool.saveOrphan now orphan requestedMissingChunks, [])
  | .accept prevHash ready => pool.checkOrphans prevHash ready

section
attribute [local simp] step
end

/-- A run of events, with all the orphans handed over. -/
def run (pool : OrphanBlockPool) : List Event → Except Panic (OrphanBlockPool × List Orphan)
  | [] => .ok (pool, [])
  | event :: rest => do
    let (pool, adopted) ← pool.step event
    let (pool, later) ← pool.run rest
    pure (pool, adopted ++ later)

section
attribute [local simp] run
end

end OrphanBlockPool

end Nearcore.Chain
