import Nearcore.Network.RouteBackCacheRuns

/-! What the route back cache keeps and what it drops, read off `main` alone: the messages held
for each target (`heldFor`), their number (`load`), and the target `remove_frequent` picks, one
holding the most messages and the least such (`Frequent`). Under the invariant the indexes are
these views of `main`, so each result below is about the cache as a map from hashes to the
target of their answer.

An insertion into a full cache drops exactly the messages older than `evict_timeout` and the
`remove_frequent_min_size` oldest of the frequent target. Until the cache fills, a run of calls
is a run of the map it stands for: `insert` keeps a hash it holds, `remove` drops one. A peer
that holds more messages than any other, flooding the cache within one timeout, only ever
evicts its own messages when `remove_frequent_min_size` is one; and when that size is zero the
cache overflows its capacity and the next insertion for the same peer panics. -/
namespace Nearcore.Network

open EntryMap Unsigned Collections

namespace RouteBackCache

variable {η π : Type} [LinearOrder η] [OrderBot η] [LinearOrder π]

section View

omit [OrderBot η]

/-- The records of a target read off `main`: the time and hash of each message held for it. -/
def heldFor (cache : RouteBackCache η π) (target : π) : Finset (Nat ×ₗ η) :=
  (cache.main.entries.filterMap fun entry =>
    if entry.2.2 = target then some (toLex (entry.2.1, entry.1)) else none).toFinset

section
attribute [local simp] heldFor
end

/-- The number of messages held for a target. -/
def load (cache : RouteBackCache η π) (target : π) : Nat := (cache.heldFor target).card

section
attribute [local simp] load
end

/-- A target `remove_frequent` picks: one holding the most messages, and the least such. -/
def Frequent (cache : RouteBackCache η π) (target : π) : Prop :=
  0 < cache.load target ∧
    ∀ other, cache.load other ≤ cache.load target ∧ (cache.load other = cache.load target → target ≤ other)

variable {cache : RouteBackCache η π}

@[simp] theorem mem_heldFor {target : π} {record : Nat ×ₗ η} :
    record ∈ cache.heldFor target ↔ cache.main.lookup (ofLex record).2 = some ((ofLex record).1, target) := by
  rw [heldFor, List.mem_toFinset, List.mem_filterMap]
  constructor
  · rintro ⟨⟨hash, time, owner⟩, member, found⟩
    simp only at found
    split at found
    · cases found
      rename_i same
      rw [← same]
      exact AList.mem_lookup_iff.mpr member
    · cases found
  · intro found
    exact ⟨⟨_, _, target⟩, AList.mem_lookup_iff.mp found, by simp⟩

/-- Two targets `remove_frequent` may pick are one. -/
theorem Frequent.unique {first second : π} (isFirst : cache.Frequent first) (isSecond : cache.Frequent second) :
    first = second := by
  have same : cache.load second = cache.load first := le_antisymm (isFirst.2 second).1 (isSecond.2 first).1
  exact le_antisymm ((isFirst.2 second).2 same) ((isSecond.2 first).2 same.symm)

/-- Under the invariant, `record_per_target` is the view of `main` by target. -/
theorem Indexed.heldFor_eq (indexed : cache.Indexed) (target : π) :
    cache.heldFor target = (cache.recordPerTarget.lookup target).getD ∅ := by
  ext record
  rw [mem_heldFor]
  cases found : cache.recordPerTarget.lookup target with
  | none =>
    refine iff_of_false (fun atHash => ?_) (Finset.notMem_empty _)
    have listed := indexed.listed atHash
    rw [found] at listed
    cases listed
  | some records => exact (indexed.records found _ _).symm

/-- The target of the first entry of `size_per_target` is the one `remove_frequent` picks. -/
theorem WellFormed.frequent_of_first (wf : cache.WellFormed) {target : π} {records : Finset (Nat ×ₗ η)}
    (firstFound : first cache.sizePerTarget = some (toLex (cache.capacity - records.card, target)))
    (found : cache.recordPerTarget.lookup target = some records) : cache.Frequent target := by
  obtain ⟨picked, pickedRecords, same, atPicked, nonempty, most⟩ := wf.first_sizePerTarget firstFound
  obtain ⟨-, rfl⟩ := Prod.mk.inj (toLex.injective same)
  rw [found, Option.some.injEq] at atPicked
  subst atPicked
  have loadOf : ∀ other, cache.load other = ((cache.recordPerTarget.lookup other).map Finset.card).getD 0 := by
    intro other
    rw [load, wf.heldFor_eq]
    cases cache.recordPerTarget.lookup other <;> rfl
  refine ⟨by rw [loadOf, found]; exact Finset.card_pos.mpr nonempty, fun other => ?_⟩
  rw [loadOf, loadOf, found]
  cases atOther : cache.recordPerTarget.lookup other with
  | none =>
    have positive := Finset.card_pos.mpr nonempty
    exact ⟨Nat.zero_le _, fun zero => absurd zero (by simp; omega)⟩
  | some others => exact most other others atOther (wf.nonempty atOther)

end View

section Eviction

variable {cache : RouteBackCache η π}

/-- `remove_evicted` on a full cache, read off `main`: a message stays unless it is older than
`evict_timeout`, or of the target `remove_frequent` picks and among its
`remove_frequent_min_size` oldest. -/
theorem removeEvicted_full_lookup (wf : cache.WellFormed) (full : cache.isFull = true) (now : Nat) :
    ∃ evicted, cache.removeEvicted now = .ok evicted ∧ evicted.WellFormed ∧ ∀ hash time owner,
      evicted.main.lookup hash = some (time, owner) ↔ cache.main.lookup hash = some (time, owner) ∧
        (cache.evictTimeout ≤ now → now - cache.evictTimeout ≤ time) ∧
        ¬(cache.Frequent owner ∧
          ((cache.heldFor owner).filter (· < toLex (time, hash))).card < cache.removeFrequentMinSize) := by
  obtain ⟨picked, records, found, firstFound, evicted, ran, -, evictedWf, evictedMain⟩ :=
    removeEvicted_of_full wf full now
  refine ⟨evicted, ran, evictedWf, fun hash time owner => ?_⟩
  have pickedFrequent := wf.frequent_of_first firstFound found
  -- a message is taken by `remove_frequent` exactly when the policy names it
  have taken : cache.main.lookup hash = some (time, owner) →
      (hash ∈ hashes (splitFrequent records cache.removeFrequentMinSize).1 ↔ cache.Frequent owner ∧
        ((cache.heldFor owner).filter (· < toLex (time, hash))).card < cache.removeFrequentMinSize) := by
    intro atHash
    rw [mem_hashes]
    constructor
    · rintro ⟨time', record⟩
      have atPicked := (wf.records found _ _).mp (splitFrequent_fst_subset _ _ record)
      rw [atHash, Option.some.injEq, Prod.mk.injEq] at atPicked
      obtain ⟨rfl, rfl⟩ := atPicked
      refine ⟨pickedFrequent, ?_⟩
      rw [wf.heldFor_eq, found, Option.getD_some]
      exact (mem_splitFrequent_fst_iff (splitFrequent_fst_subset _ _ record)).mp record
    · rintro ⟨ownerFrequent, fewer⟩
      obtain rfl := ownerFrequent.unique pickedFrequent
      rw [wf.heldFor_eq, found, Option.getD_some] at fewer
      exact ⟨time, (mem_splitFrequent_fst_iff ((wf.records found _ _).mpr atHash)).mpr fewer⟩
  rw [evictedMain]
  constructor
  · rintro ⟨atHash, notTaken, young⟩
    exact ⟨atHash, young, fun policy => notTaken ((taken atHash).mpr policy)⟩
  · rintro ⟨atHash, young, notPolicy⟩
    exact ⟨atHash, fun gone => notPolicy ((taken atHash).mp gone), young⟩

/-- `insert` of a new hash into a full cache, read off `main`: another message stays unless
`remove_evicted` takes it, as `removeEvicted_full_lookup` says. -/
theorem insert_of_full (wf : cache.WellFormed) (full : cache.isFull = true) {hash : η}
    (fresh : cache.main.lookup hash = none) {now : Nat} {target : π} {cache' : RouteBackCache η π}
    (inserted : cache.insert now hash target = .ok cache') {h : η} (other : h ≠ hash) (time : Nat) (owner : π) :
    cache'.main.lookup h = some (time, owner) ↔ cache.main.lookup h = some (time, owner) ∧
      (cache.evictTimeout ≤ now → now - cache.evictTimeout ≤ time) ∧
      ¬(cache.Frequent owner ∧
        ((cache.heldFor owner).filter (· < toLex (time, h))).card < cache.removeFrequentMinSize) := by
  obtain ⟨evicted, ran, -, evictedMain⟩ := removeEvicted_full_lookup wf full now
  rw [main_of_insert fresh ran inserted, AList.lookup_insert_ne other, evictedMain]

/-- The cache `sampleCalls` fill, with what the witnesses below read off it. -/
theorem run_sampleCalls : ∃ full, sampleCache.run sampleCalls = .ok full ∧ full.WellFormed ∧
    full.params = sampleCache.params ∧ full.isFull = true ∧ full.main.lookup 9 = none ∧
    full.main.entries.map (·.2.2) = [8, 7, 7] ∧ full.load 7 = 2 ∧ full.load 8 = 1 := by
  obtain ⟨full, ran, params, wf⟩ := run_spec sampleCalls (new_wellFormed new_sampleCache).1 (by decide)
  have read : (sampleCache.run sampleCalls).toOption.map (fun cache =>
      (cache.isFull, cache.main.lookup 9, cache.main.entries.map (·.2.2), cache.load 7, cache.load 8)) =
      some (true, none, [8, 7, 7], 2, 1) := by decide
  rw [ran] at read
  simp only [Except.toOption, Option.map_some, Option.some.injEq, Prod.mk.injEq] at read
  exact ⟨full, ran, wf, params, read.1, read.2.1, read.2.2.1, read.2.2.2.1, read.2.2.2.2⟩

theorem insert_of_full_sample : ∃ full inserted : RouteBackCache Nat Nat,
    sampleCache.run sampleCalls = .ok full ∧ full.insert 11 9 7 = .ok inserted ∧
    (inserted.main.lookup 4 = some (2, 8) ↔ full.main.lookup 4 = some (2, 8) ∧
      (full.evictTimeout ≤ 11 → 11 - full.evictTimeout ≤ 2) ∧
      ¬(full.Frequent 8 ∧ ((full.heldFor 8).filter (· < toLex (2, 4))).card < full.removeFrequentMinSize)) := by
  obtain ⟨full, ran, wf, params, isFull, fresh, -⟩ := run_sampleCalls
  obtain ⟨inserted, insertedOk, -⟩ :=
    step_spec wf (by rw [removeFrequentMinSize_eq_of_params params]; decide) (.insert 11 9 7)
  exact ⟨full, inserted, ran, insertedOk, insert_of_full wf isFull fresh insertedOk (by decide) 2 8⟩

end Eviction

section Map

/-- What the cache is for: a map from hashes to the time and target of their message, in which
`insert` keeps a hash it holds and `remove` drops one. -/
def Call.apply (view : η → Option (Nat × π)) : Call η π → η → Option (Nat × π)
  | .insert now hash target => Function.update view hash ((view hash).or (some (now, target)))
  | .remove _ hash => Function.update view hash none

section
attribute [local simp] Call.apply
end

/-- The cache read as that map. -/
def view (cache : RouteBackCache η π) (hash : η) : Option (Nat × π) := cache.main.lookup hash

section
attribute [local simp] view
end

omit [OrderBot η] [LinearOrder π] in
/-- Inserts of one target at one time, read as the map: each hash inserted is held, with the
entry it had if any. -/
theorem foldl_apply_inserts (now : Nat) (target : π) : ∀ (messages : List η) (view : η → Option (Nat × π)) (hash : η),
    (messages.map fun message => Call.insert now message target).foldl Call.apply view hash =
      if hash ∈ messages then (view hash).or (some (now, target)) else view hash
  | [], view, hash => by simp
  | message :: messages, view, hash => by
    rw [List.map_cons, List.foldl_cons, foldl_apply_inserts now target messages]
    by_cases same : hash = message
    · subst same
      cases held : view hash <;> simp [Call.apply, held]
    · simp [Call.apply, same]

variable {cache : RouteBackCache η π}

omit [LinearOrder η] [OrderBot η] [LinearOrder π] in
theorem isFull_eq_false (room : cache.main.entries.length < cache.capacity) : cache.isFull = false := by
  simp [isFull, Nat.ne_of_gt room]

/-- A call on a cache with room for one more entry is a call on the map it stands for, and adds
one entry at most. -/
theorem step_view_of_room (wf : cache.WellFormed) (room : cache.main.entries.length < cache.capacity)
    (call : Call η π) :
    ∃ cache', cache.step call = .ok cache' ∧ cache'.params = cache.params ∧ cache'.WellFormed ∧
      cache'.main.entries.length ≤ cache.main.entries.length + 1 ∧ cache'.view = call.apply cache.view := by
  have notFull := isFull_eq_false room
  cases call with
  | insert now hash target =>
    cases atHash : cache.main.lookup hash with
    | some entry =>
      -- the hash is held: nothing changes, and the map keeps what it has
      refine ⟨cache, insert_of_isSome (by rw [atHash]; rfl) now target, rfl, wf, Nat.le_succ _, funext fun h => ?_⟩
      by_cases same : h = hash
      · subst same
        simp [Call.apply, view, atHash]
      · simp [Call.apply, same]
    | none =>
      obtain ⟨cache', inserted, params, wf', main⟩ :=
        insert_of_room atHash (removeEvicted_of_not_full notFull now) wf room (fun _ _ => id) target
      refine ⟨cache', inserted, params, wf', by rw [main, length_insert_of_lookup_eq_none _ atHash],
        funext fun h => ?_⟩
      by_cases same : h = hash
      · subst same
        simp [Call.apply, view, main, atHash]
      · simp [Call.apply, view, main, AList.lookup_insert_ne same, same]
  | remove now hash =>
    obtain ⟨evicted, ran, -, cache', removed, params, wf', main⟩ := remove_spec wf now hash
    obtain rfl : evicted = cache := Except.ok.inj (ran.symm.trans (removeEvicted_of_not_full notFull now))
    refine ⟨cache', by rw [step, removed]; rfl, params, wf', ?_, funext fun h => ?_⟩
    · refine Nat.le_succ_of_le (length_le_of_isSome fun h present => ?_)
      rw [main] at present
      split at present
      · cases present
      · exact present
    · by_cases same : h = hash
      · subst same
        simp [Call.apply, view, main]
      · simp [Call.apply, view, main, same]

/-- While a run has room for every call, the cache runs as the map it stands for. -/
theorem run_view_of_room : ∀ (calls : List (Call η π)) {cache : RouteBackCache η π}, cache.WellFormed →
    cache.main.entries.length + calls.length ≤ cache.capacity →
    ∃ cache', cache.run calls = .ok cache' ∧ cache'.params = cache.params ∧ cache'.WellFormed ∧
      cache'.view = calls.foldl Call.apply cache.view
  | [], cache, wf, _ => ⟨cache, rfl, rfl, wf, rfl⟩
  | call :: calls, cache, wf, room => by
    rw [List.length_cons] at room
    obtain ⟨next, stepped, params, nextWf, grown, view⟩ := step_view_of_room wf (by omega) call
    obtain ⟨final, ran, finalParams, finalWf, finalView⟩ :=
      run_view_of_room calls nextWf (by rw [capacity_eq_of_params params]; omega)
    exact ⟨final, by rw [run, stepped, Except.ok_bind, ran], finalParams.trans params, finalWf,
      by rw [finalView, view, List.foldl_cons]⟩

theorem run_view_of_room_sample :
    ∃ cache', sampleCache.run sampleCalls = .ok cache' ∧ cache'.params = sampleCache.params ∧ cache'.WellFormed ∧
      cache'.view = sampleCalls.foldl Call.apply sampleCache.view :=
  run_view_of_room sampleCalls (new_wellFormed new_sampleCache).1 (by decide)

end Map

section Flood

variable {cache : RouteBackCache η π}

/-- One insertion for a peer holding more messages than any other, within one timeout of every
message held, with `remove_frequent_min_size` one: the other targets keep their messages, the
peer keeps its count, and every message stays within the window. -/
theorem insert_heaviest (wf : cache.WellFormed) (single : cache.removeFrequentMinSize = 1) {attacker : π}
    (heaviest : ∀ other, other ≠ attacker → cache.load other < cache.load attacker) {start : Nat}
    (recent : ∀ hash time target, cache.main.lookup hash = some (time, target) → start ≤ time)
    {now : Nat} (window : start ≤ now ∧ now ≤ start + cache.evictTimeout) (hash : η) :
    ∃ cache', cache.insert now hash attacker = .ok cache' ∧ cache'.params = cache.params ∧ cache'.WellFormed ∧
      (∀ other, other ≠ attacker → cache'.heldFor other = cache.heldFor other) ∧
      cache.load attacker ≤ cache'.load attacker ∧
      ∀ hash time target, cache'.main.lookup hash = some (time, target) → start ≤ time := by
  cases atHash : cache.main.lookup hash with
  | some entry =>
    exact ⟨cache, insert_of_isSome (by rw [atHash]; rfl) now attacker, rfl, wf, fun _ _ => rfl, le_rfl, recent⟩
  | none =>
    obtain ⟨evicted, ran, params, evictedWf, room, within⟩ := removeEvicted_room wf (by omega) now
    obtain ⟨cache', inserted, params', wf', main⟩ := insert_of_room atHash ran evictedWf room within attacker
    -- `remove_evicted` keeps the others' messages, and each of the peer's with an older one
    have keeps : ∀ h time owner, cache.main.lookup h = some (time, owner) →
        (owner ≠ attacker ∨ ∃ older ∈ cache.heldFor attacker, older < toLex (time, h)) →
        evicted.main.lookup h = some (time, owner) := by
      intro h time owner atH spared
      cases full : cache.isFull
      · rw [← Except.ok.inj ((removeEvicted_of_not_full full now).symm.trans ran)]
        exact atH
      · obtain ⟨evicted', ran', -, lookup⟩ := removeEvicted_full_lookup wf full now
        obtain rfl : evicted' = evicted := Except.ok.inj (ran'.symm.trans ran)
        have young : now - cache.evictTimeout ≤ time := by
          have := recent h time owner atH
          omega
        refine (lookup h time owner).mpr ⟨atH, fun _ => young, fun ⟨frequent, fewer⟩ => ?_⟩
        by_cases same : owner = attacker
        · subst same
          obtain ⟨older, member, below⟩ := spared.resolve_left fun differs => differs rfl
          have listed : older ∈ (cache.heldFor owner).filter (· < toLex (time, h)) := Finset.mem_filter.mpr ⟨member, below⟩
          rw [single, Nat.lt_one_iff, Finset.card_eq_zero] at fewer
          rw [fewer] at listed
          cases listed
        · exact absurd (frequent.2 attacker).1 (Nat.not_le_of_lt (heaviest owner same))
    have atCache' : ∀ h, h ≠ hash → cache'.main.lookup h = evicted.main.lookup h := fun h differs => by
      rw [main, AList.lookup_insert_ne differs]
    refine ⟨cache', inserted, params'.trans params, wf', fun other differs => ?_, ?_, fun h time target found => ?_⟩
    · -- the others' messages are those they had
      ext record
      rw [mem_heldFor, mem_heldFor]
      by_cases same : (ofLex record).2 = hash
      · rw [same, main, AList.lookup_insert, atHash]
        simp [Ne.symm differs]
      · rw [atCache' _ same]
        exact ⟨fun found => within _ _ found, fun found => keeps _ _ _ found (.inl differs)⟩
    · -- the peer loses its oldest message at most, and gains the new one
      by_cases empty : cache.heldFor attacker = ∅
      · rw [load, empty, Finset.card_empty]
        exact Nat.zero_le _
      · have nonempty := Finset.nonempty_iff_ne_empty.mpr empty
        let oldest := (cache.heldFor attacker).min' nonempty
        have kept : Insert.insert (toLex (now, hash)) ((cache.heldFor attacker).erase oldest) ⊆ cache'.heldFor attacker := by
          intro record member
          rw [Finset.mem_insert, Finset.mem_erase] at member
          rw [mem_heldFor]
          rcases member with rfl | ⟨notOldest, member⟩
          · simp [main, AList.lookup_insert]
          · have atRecord := mem_heldFor.mp member
            have differs : (ofLex record).2 ≠ hash := fun same => by rw [same, atHash] at atRecord; cases atRecord
            rw [atCache' _ differs]
            exact keeps _ _ _ atRecord (.inr ⟨oldest, Finset.min'_mem _ _,
              lt_of_le_of_ne (Finset.min'_le _ _ member) (Ne.symm notOldest)⟩)
        have fresh : toLex (now, hash) ∉ (cache.heldFor attacker).erase oldest := fun member => by
          have atRecord := mem_heldFor.mp (Finset.mem_of_mem_erase member)
          simp only [ofLex_toLex] at atRecord
          rw [atHash] at atRecord
          cases atRecord
        have counted := Finset.card_le_card kept
        rw [Finset.card_insert_of_notMem fresh, Finset.card_erase_of_mem (Finset.min'_mem _ _)] at counted
        have positive := Finset.card_pos.mpr nonempty
        unfold load
        omega
    · -- the new message is at `now`, the others were held before
      by_cases same : h = hash
      · subst same
        rw [main, AList.lookup_insert, Option.some.injEq, Prod.mk.injEq] at found
        exact found.1 ▸ window.1
      · rw [atCache' h same] at found
        exact recent h time target (within h _ found)

/-- Flooding from a peer that holds more messages than any other, within one timeout: by
induction on the insertions, the other targets keep their messages. -/
theorem run_heaviest {attacker : π} {start : Nat} : ∀ (inserts : List (Nat × η)) {cache : RouteBackCache η π},
    cache.WellFormed → cache.removeFrequentMinSize = 1 →
    (∀ other, other ≠ attacker → cache.load other < cache.load attacker) →
    (∀ hash time target, cache.main.lookup hash = some (time, target) → start ≤ time) →
    (∀ call ∈ inserts, start ≤ call.1 ∧ call.1 ≤ start + cache.evictTimeout) →
    ∃ cache', cache.run (inserts.map fun call => .insert call.1 call.2 attacker) = .ok cache' ∧
      ∀ other, other ≠ attacker → cache'.heldFor other = cache.heldFor other
  | [], cache, _, _, _, _, _ => ⟨cache, rfl, fun _ _ => rfl⟩
  | call :: inserts, cache, wf, single, heaviest, recent, window => by
    obtain ⟨next, inserted, params, nextWf, others, grown, nextRecent⟩ :=
      insert_heaviest wf single heaviest recent (window call List.mem_cons_self) call.2
    have nextHeaviest : ∀ other, other ≠ attacker → next.load other < next.load attacker := by
      intro other differs
      have lighter := heaviest other differs
      rw [load, others other differs]
      exact lighter.trans_le grown
    have timeout := evictTimeout_eq_of_params params
    obtain ⟨final, ran, finalOthers⟩ := run_heaviest inserts nextWf
      ((removeFrequentMinSize_eq_of_params params).trans single) nextHeaviest nextRecent
      (fun later member => timeout ▸ window later (List.mem_cons_of_mem _ member))
    refine ⟨final, by rw [List.map_cons, run, step, inserted, Except.ok_bind, ran], fun other differs => ?_⟩
    rw [finalOthers other differs, others other differs]

/-- A peer that holds more messages than any other and floods the cache within one timeout of
every message held, with `remove_frequent_min_size` one, evicts no other target's message. -/
theorem run_keeps_others (wf : cache.WellFormed) (single : cache.removeFrequentMinSize = 1) {attacker : π}
    (heaviest : ∀ other, other ≠ attacker → cache.load other < cache.load attacker) {start : Nat}
    (recent : ∀ hash time target, cache.main.lookup hash = some (time, target) → start ≤ time)
    (inserts : List (Nat × η)) (window : ∀ call ∈ inserts, start ≤ call.1 ∧ call.1 ≤ start + cache.evictTimeout) :
    ∃ cache', cache.run (inserts.map fun call => .insert call.1 call.2 attacker) = .ok cache' ∧
      ∀ hash target, target ≠ attacker → cache.get hash = some target → cache'.get hash = some target := by
  obtain ⟨cache', ran, others⟩ := run_heaviest inserts wf single heaviest recent window
  refine ⟨cache', ran, fun hash target differs found => ?_⟩
  obtain ⟨⟨time, owner⟩, atHash, rfl⟩ := Option.map_eq_some_iff.mp found
  have held : toLex (time, hash) ∈ cache'.heldFor owner := by
    rw [others owner differs, mem_heldFor]
    exact atHash
  have atHash' := mem_heldFor.mp held
  simp only [ofLex_toLex] at atHash'
  rw [get, atHash']
  rfl

theorem run_keeps_others_sample : ∃ full flooded : RouteBackCache Nat Nat,
    sampleCache.run sampleCalls = .ok full ∧
      full.run ([(3, 10), (4, 11), (5, 12)].map fun call => .insert call.1 call.2 7) = .ok flooded ∧
      ∀ hash target, target ≠ 7 → full.get hash = some target → flooded.get hash = some target := by
  obtain ⟨full, ran, wf, params, -, -, targets, load7, load8⟩ := run_sampleCalls
  -- the target `7` holds two messages, `8` one and every other none
  have heaviest : ∀ other, other ≠ 7 → full.load other < full.load 7 := by
    intro other differs
    by_cases eight : other = 8
    · rw [eight, load7, load8]
      decide
    · have empty : full.heldFor other = ∅ := Finset.eq_empty_of_forall_notMem fun record member => by
        have listed := List.mem_map_of_mem (f := fun entry : (_ : Nat) × Nat × Nat => entry.2.2)
          (AList.mem_lookup_iff.mp (mem_heldFor.mp member))
        rw [targets] at listed
        simp only [List.mem_cons, List.not_mem_nil, or_false] at listed
        omega
      rw [load, empty, load7]
      decide
  obtain ⟨flooded, floodRan, kept⟩ :=
    run_keeps_others wf (by rw [removeFrequentMinSize_eq_of_params params]; rfl) heaviest
      (fun _ time _ _ => Nat.zero_le time) [(3, 10), (4, 11), (5, 12)] (by rw [evictTimeout_eq_of_params params]; decide)
  exact ⟨full, flooded, ran, floodRan, kept⟩

end Flood

section Overflow

/-- `insert` of a new hash for a target whose records fill the capacity overflows. -/
theorem insert_of_crowded {cache evicted : RouteBackCache η π} {now : Nat} {hash : η} {target : π}
    (fresh : cache.main.lookup hash = none) (ran : cache.removeEvicted now = .ok evicted)
    {records : Finset (Nat ×ₗ η)} (found : evicted.recordPerTarget.lookup target = some records)
    (crowded : records.card = evicted.capacity) (positive : 0 < records.card) :
    cache.insert now hash target = .error ⟨"attempt to subtract with overflow"⟩ := by
  rw [insert, if_neg (by simp [fresh]), ran, Except.ok_bind]
  have overflow : evicted.capacity < records.card + 1 := by omega
  simp only [found, Option.map_some, Option.getD_some, if_pos positive, sub_of_le crowded.le, Except.ok_bind,
    sub_of_lt overflow]
  rfl

/-- From `new`, distinct inserts for one target at one time, as many as the capacity, fill the
cache with exactly them. -/
theorem run_fill {capacity evictTimeout removeFrequentMinSize : Nat} {cache : RouteBackCache η π}
    (created : new capacity evictTimeout removeFrequentMinSize = .ok cache) (now : Nat) (target : π)
    {messages : List η} (distinct : messages.Nodup) (filling : messages.length = capacity) :
    ∃ filled, cache.run (messages.map fun message => .insert now message target) = .ok filled ∧
      filled.params = (capacity, evictTimeout, removeFrequentMinSize) ∧ filled.WellFormed ∧
      filled.isFull = true ∧ ∀ hash, filled.main.lookup hash = if hash ∈ messages then some (now, target) else none := by
  obtain ⟨wf, params⟩ := new_wellFormed created
  have empty : cache.main = ∅ := by
    unfold new at created
    split at created
    · cases created
      rfl
    · cases created
  have atCapacity : cache.capacity = capacity := congrArg Prod.fst params
  obtain ⟨filled, ran, filledParams, filledWf, filledView⟩ :=
    run_view_of_room (messages.map fun message => .insert now message target) wf (by simp [empty, atCapacity, filling])
  have atFilled : ∀ hash, filled.main.lookup hash = if hash ∈ messages then some (now, target) else none := by
    intro hash
    have read := congrFun filledView hash
    rw [foldl_apply_inserts] at read
    simpa [view, empty] using read
  have keys : keySet filled.main = messages.toFinset := by
    ext hash
    simp [atFilled]
  refine ⟨filled, ran, filledParams.trans params, filledWf, ?_, atFilled⟩
  rw [isFull, length_eq_card_keySet, keys, List.toFinset_card_of_nodup distinct, capacity_eq_of_params filledParams,
    atCapacity, filling]
  simp

/-- With `remove_frequent_min_size` zero, `remove_evicted` on a full cache whose messages are all
within the timeout takes none of them. -/
theorem removeEvicted_of_minSize_zero {cache : RouteBackCache η π} (wf : cache.WellFormed)
    (full : cache.isFull = true) (zero : cache.removeFrequentMinSize = 0) (now : Nat)
    (young : ∀ hash time owner, cache.main.lookup hash = some (time, owner) →
      cache.evictTimeout ≤ now → now - cache.evictTimeout ≤ time) :
    ∃ evicted, cache.removeEvicted now = .ok evicted ∧ evicted.params = cache.params ∧ evicted.WellFormed ∧
      ∀ hash time owner, evicted.main.lookup hash = some (time, owner) ↔ cache.main.lookup hash = some (time, owner) := by
  obtain ⟨evicted, ran, params, evictedWf, -⟩ := removeEvicted_spec wf now
  obtain ⟨evicted', ran', -, kept⟩ := removeEvicted_full_lookup wf full now
  obtain rfl : evicted = evicted' := Except.ok.inj (ran.symm.trans ran')
  refine ⟨evicted, ran, params, evictedWf, fun hash time owner => ?_⟩
  rw [kept, zero]
  exact ⟨fun held => held.1, fun held => ⟨held, young hash time owner held, fun policy => Nat.not_lt_zero _ policy.2⟩⟩

/-- With `remove_frequent_min_size` zero, `remove_frequent` takes nothing: inserting one more
new message than the capacity for one target, all at one time, overflows. -/
theorem run_panics_of_minSize_zero {capacity evictTimeout : Nat} {cache : RouteBackCache η π}
    (created : new capacity evictTimeout 0 = .ok cache) (now : Nat) (target : π) (messages : List η)
    (distinct : messages.Nodup) (crowding : messages.length = capacity + 1) :
    cache.run (messages.map fun message => .insert now message target) = .error ⟨"attempt to subtract with overflow"⟩ := by
  -- the first `capacity` messages fill the cache, the last overflows it
  obtain ⟨first, last, rfl⟩ : ∃ first last, messages = first ++ [last] :=
    ⟨messages.dropLast, messages.getLast (List.ne_nil_of_length_eq_add_one crowding),
      (List.dropLast_append_getLast _).symm⟩
  rw [List.length_append, List.length_singleton, Nat.add_right_cancel_iff] at crowding
  obtain ⟨firstDistinct, apart⟩ : first.Nodup ∧ ∀ hash ∈ first, hash ≠ last := by
    simpa [List.nodup_append] using distinct
  have lastDistinct : last ∉ first := fun member => apart last member rfl
  obtain ⟨filled, ran, params, filledWf, full, atFilled⟩ := run_fill created now target firstDistinct crowding
  rw [List.map_append, run_append, ran, Except.ok_bind]
  -- every message is of `now`, so none is older than the timeout
  obtain ⟨evicted, evictedRan, evictedParams, evictedWf, atEvicted⟩ :=
    removeEvicted_of_minSize_zero filledWf full (congrArg (fun p => p.2.2) params) now fun hash time owner held _ => by
      rw [atFilled] at held
      split at held
      · cases held
        omega
      · cases held
  have held : evicted.heldFor target = first.toFinset.image fun hash => toLex (now, hash) := by
    ext record
    rw [mem_heldFor, atEvicted, atFilled, Finset.mem_image]
    constructor
    · intro found
      split at found
      · rename_i member
        obtain ⟨atNow, -⟩ := Prod.mk.inj (Option.some.inj found)
        exact ⟨(ofLex record).2, List.mem_toFinset.mpr member, by rw [atNow]; rfl⟩
      · cases found
    · rintro ⟨hash, member, rfl⟩
      simp [List.mem_toFinset.mp member]
  have counted : (evicted.heldFor target).card = capacity := by
    rw [held, Finset.card_image_of_injective _ fun a b same => (Prod.mk.inj (toLex.injective same)).2,
      List.toFinset_card_of_nodup firstDistinct, crowding]
  have evictedCapacity : evicted.capacity = capacity :=
    (capacity_eq_of_params evictedParams).trans (congrArg Prod.fst params)
  have positive : 0 < capacity := evictedWf.capacity_pos.trans_eq evictedCapacity
  rw [evictedWf.heldFor_eq] at counted
  cases found : evicted.recordPerTarget.lookup target with
  | none =>
    rw [found, Option.getD_none, Finset.card_empty] at counted
    omega
  | some records =>
    rw [found, Option.getD_some] at counted
    have fresh : filled.main.lookup last = none := by rw [atFilled, if_neg lastDistinct]
    rw [List.map_cons, List.map_nil, run, step, insert_of_crowded fresh evictedRan found
      (counted.trans evictedCapacity.symm) (counted ▸ positive)]
    rfl

/-- A cache of two messages whose `remove_frequent` takes none. -/
def zeroBatchCache : RouteBackCache Nat Nat := ⟨2, 10, 0, ∅, ∅, ∅⟩

theorem new_zeroBatchCache : new 2 10 0 = .ok zeroBatchCache := rfl

theorem run_panics_of_minSize_zero_sample :
    zeroBatchCache.run ([5, 6, 4].map fun message => .insert 0 message 7) =
      .error ⟨"attempt to subtract with overflow"⟩ :=
  run_panics_of_minSize_zero new_zeroBatchCache 0 7 [5, 6, 4] (by decide) rfl

end Overflow

end RouteBackCache

end Nearcore.Network
