import Nearcore.Library.EntryMap
import Nearcore.Library.Collections

/-! The cache of the messages to route back (`network/src/routing/route_back_cache.rs`): for the
hash of each message whose answer is awaited, the peer the answer goes to and the time the
message arrived. Beside the main map the cache indexes the records of each target, ordered by
time, and the targets by how many records they hold, stored as `capacity` minus the count so
that the first of the set is a target holding the most. Once the cache is full, each call first
removes the `remove_frequent_min_size` oldest records of that target, then every record older
than `evict_timeout`.

Hashes are of a linear order whose least element is `CryptoHash::default()`, peers of another.
Instants and durations are natural numbers of milliseconds of the clock, whose
`checked_sub_signed` fails below its origin; negative durations are left out. The `HashMap` is
an entry map read through lookups, the `BTreeSet`s finite sets of their order and the `BTreeMap`
an entry map iterated in the order of its keys. Counts of records, which are held in memory, are
natural numbers; the subtractions from `capacity` are checked, as the node is built with
`overflow-checks`. A run is a sequence of calls of `insert` and `remove`, each with the time the
clock reads. -/
namespace Nearcore.Network

open EntryMap Unsigned Collections

/-- `DEFAULT_CAPACITY`. -/
def defaultCapacity : Nat := 100000

/-- `DEFAULT_CACHE_EVICT_TIMEOUT`, in milliseconds. -/
def defaultCacheEvictTimeout : Nat := 120000

/-- `DEFAULT_REMOVE_BATCH_SIZE`. -/
def defaultRemoveBatchSize : Nat := 100

/-- `RouteBackCache`. A record of a target is the time a message arrived and its hash. -/
structure RouteBackCache (η π : Type) where
  capacity : Nat
  evictTimeout : Nat
  removeFrequentMinSize : Nat
  main : Map η (Nat × π)
  sizePerTarget : Finset (Nat ×ₗ π)
  recordPerTarget : Map π (Finset (Nat ×ₗ η))

namespace RouteBackCache

variable {η π : Type} [LinearOrder η] [OrderBot η] [LinearOrder π]

/-- `RouteBackCache::new`, which asserts a positive capacity. -/
def new (capacity evictTimeout removeFrequentMinSize : Nat) : Except Panic (RouteBackCache η π) :=
  if 0 < capacity then .ok ⟨capacity, evictTimeout, removeFrequentMinSize, ∅, ∅, ∅⟩
  else .error ⟨"assertion failed: capacity > 0"⟩

section
attribute [local simp] new
end

/-- `RouteBackCache::default`. -/
def default : Except Panic (RouteBackCache η π) :=
  new defaultCapacity defaultCacheEvictTimeout defaultRemoveBatchSize

section
attribute [local simp] default
end

/-- `is_full`. -/
def isFull (cache : RouteBackCache η π) : Bool := cache.capacity == cache.main.entries.length

section
attribute [local simp] isFull
end

/-- The loops that remove the hash of each of a set of records from `main`, in the order of the
set. -/
def removeRecords (main : Map η (Nat × π)) (records : Finset (Nat ×ₗ η)) : Map η (Nat × π) :=
  (iter records).foldl (fun main record => main.erase (ofLex record).2) main

section
attribute [local simp] removeRecords
end

/-- The records `remove_frequent` takes from a target and those it keeps: the ones below its
`remove_frequent_min_size`-th record, or all of them when it holds no more. -/
def splitFrequent (records : Finset (Nat ×ₗ η)) (minSize : Nat) : Finset (Nat ×ₗ η) × Finset (Nat ×ₗ η) :=
  match nth records minSize with
  | some key => splitOff records key
  | none => (records, ∅)

section
attribute [local simp] splitFrequent
end

/-- `remove_frequent`: the first target of `size_per_target` loses its oldest records, and its
entry moves by the number removed, or leaves when none are left. -/
def removeFrequent (cache : RouteBackCache η π) : Except Panic (RouteBackCache η π) := do
  let (size, target) := ofLex (← unwrap (first cache.sizePerTarget))
  let (main, recordPerTarget, removed) : Map η (Nat × π) × Map π (Finset (Nat ×ₗ η)) × Nat :=
    match cache.recordPerTarget.lookup target with
    | some records =>
      let (toRemove, keep) := splitFrequent records cache.removeFrequentMinSize
      (removeRecords cache.main toRemove,
        if keep = ∅ then cache.recordPerTarget.erase target else cache.recordPerTarget.insert target keep,
        toRemove.card)
    | none => (cache.main, cache.recordPerTarget, 0)
  let sizePerTarget := cache.sizePerTarget.erase (toLex (size, target))
  let size := size + removed
  let left ← sub cache.capacity size
  pure { cache with
    main := main, recordPerTarget := recordPerTarget,
    sizePerTarget := if left ≠ 0 then insert (toLex (size, target)) sizePerTarget else sizePerTarget }

section
attribute [local simp] removeFrequent
end

/-- One pass of the loop of `remove_evicted` over `record_per_target`: the records of a target
older than `remove_until` leave it and `main`, its entry of `size_per_target` moves when its
size changed, and a target left without records joins `remove_empty`. -/
def evictPass (removeUntil : Nat) (acc : RouteBackCache η π × List π) (entry : π × Finset (Nat ×ₗ η)) :
    Except Panic (RouteBackCache η π × List π) := do
  let (cache, removeEmpty) := acc
  let (key, value) := entry
  let prevSize := value.card
  let (evicted, keep) := splitOff value (toLex (removeUntil, ⊥))
  let newSize := keep.card
  let sizePerTarget ← if prevSize ≠ newSize then do
      let prev ← sub cache.capacity prevSize
      let sizePerTarget := cache.sizePerTarget.erase (toLex (prev, key))
      if 0 < newSize then do
        let new ← sub cache.capacity newSize
        pure (insert (toLex (new, key)) sizePerTarget)
      else pure sizePerTarget
    else pure cache.sizePerTarget
  pure ({ cache with
      main := removeRecords cache.main evicted, sizePerTarget := sizePerTarget,
      recordPerTarget := cache.recordPerTarget.insert key keep },
    if newSize = 0 then removeEmpty ++ [key] else removeEmpty)

section
attribute [local simp] evictPass
end

/-- `remove_evicted`: nothing unless the cache is full; then `remove_frequent`, and the records
older than `evict_timeout` at `now`, unless `now` is earlier than that. -/
def removeEvicted (cache : RouteBackCache η π) (now : Nat) : Except Panic (RouteBackCache η π) :=
  if cache.isFull then do
    let cache ← cache.removeFrequent
    if now < cache.evictTimeout then pure cache
    else
      let (cache, removeEmpty) ←
        (inOrder cache.recordPerTarget).foldlM (evictPass (now - cache.evictTimeout)) (cache, [])
      pure { cache with recordPerTarget := removeEmpty.foldl (fun map key => map.erase key) cache.recordPerTarget }
  else pure cache

section
attribute [local simp] removeEvicted
end

/-- `get`. -/
def get (cache : RouteBackCache η π) (hash : η) : Option π := (cache.main.lookup hash).map (·.2)

section
attribute [local simp] get
end

/-- `remove`: after `remove_evicted`, the record of the hash leaves the three maps, and the
target it was for is returned. -/
def remove (cache : RouteBackCache η π) (now : Nat) (hash : η) : Except Panic (RouteBackCache η π × Option π) := do
  let cache ← cache.removeEvicted now
  match cache.main.lookup hash with
  | none => pure (cache, none)
  | some (time, target) =>
    let main := cache.main.erase hash
    let size ← unwrap ((cache.recordPerTarget.lookup target).map Finset.card)
    let prev ← sub cache.capacity size
    let sizePerTarget := cache.sizePerTarget.erase (toLex (prev, target))
    let recordPerTarget := match cache.recordPerTarget.lookup target with
      | some records => cache.recordPerTarget.insert target (records.erase (toLex (time, hash)))
      | none => cache.recordPerTarget
    let size ← sub size 1
    if size = 0 then
      pure ({ cache with
        main := main, sizePerTarget := sizePerTarget, recordPerTarget := recordPerTarget.erase target },
        some target)
    else
      let new ← sub cache.capacity size
      pure ({ cache with
        main := main, recordPerTarget := recordPerTarget,
        sizePerTarget := insert (toLex (new, target)) sizePerTarget }, some target)

section
attribute [local simp] remove
end

/-- `insert`: a hash already held is left as it is; otherwise, after `remove_evicted`, its
record joins the three maps. -/
def insert (cache : RouteBackCache η π) (now : Nat) (hash : η) (target : π) : Except Panic (RouteBackCache η π) :=
  if (cache.main.lookup hash).isSome then pure cache
  else do
    let cache ← cache.removeEvicted now
    let main := cache.main.insert hash (now, target)
    let size := ((cache.recordPerTarget.lookup target).map Finset.card).getD 0
    let sizePerTarget ← if 0 < size then do
        let prev ← sub cache.capacity size
        pure (cache.sizePerTarget.erase (toLex (prev, target)))
      else pure cache.sizePerTarget
    let recordPerTarget :=
      cache.recordPerTarget.insert target (Insert.insert (toLex (now, hash)) ((cache.recordPerTarget.lookup target).getD ∅))
    let new ← sub cache.capacity (size + 1)
    pure { cache with
      main := main, recordPerTarget := recordPerTarget,
      sizePerTarget := Insert.insert (toLex (new, target)) sizePerTarget }

section
attribute [local simp] insert
end

/-- `check_consistency` of the tests, the cache's own statement of its invariant, with the
subtraction from `capacity` it makes checked. -/
def checkConsistency (cache : RouteBackCache η π) : Bool :=
  decide (cache.main.entries.length ≤ cache.capacity) &&
  decide (cache.sizePerTarget.card = cache.recordPerTarget.entries.length) &&
  decide (∀ entry ∈ cache.sizePerTarget, (ofLex entry).1 ≤ cache.capacity ∧ 0 < cache.capacity - (ofLex entry).1 ∧
    (cache.recordPerTarget.lookup (ofLex entry).2).map Finset.card = some (cache.capacity - (ofLex entry).1)) &&
  decide (∀ entry ∈ cache.recordPerTarget.entries, ∀ record ∈ entry.2,
    cache.main.lookup (ofLex record).2 = some ((ofLex record).1, entry.1)) &&
  decide (cache.main.entries.length = total cache.recordPerTarget Finset.card)

section
attribute [local simp] checkConsistency
end

/-- The calls of a run. -/
inductive Call (η π : Type)
  | insert (now : Nat) (hash : η) (target : π)
  | remove (now : Nat) (hash : η)

/-- One call. -/
def step (cache : RouteBackCache η π) : Call η π → Except Panic (RouteBackCache η π)
  | .insert now hash target => cache.insert now hash target
  | .remove now hash => Prod.fst <$> cache.remove now hash

section
attribute [local simp] step
end

/-- A run of calls, which stops at the first panic. -/
def run (cache : RouteBackCache η π) : List (Call η π) → Except Panic (RouteBackCache η π)
  | [] => .ok cache
  | call :: calls => cache.step call >>= fun cache => cache.run calls

section
attribute [local simp] run
end

end RouteBackCache

end Nearcore.Network
