import Nearcore.Network.RouteBackCacheIndex
import Nearcore.Library.AListSum

/-! Runs of the route back cache. From `new`, with a positive `remove_frequent_min_size`, every
call keeps the invariant, so no call of a run panics and `check_consistency` of the tests holds
after each. Its two counts are the ones the invariant implies: `size_per_target` has an entry
for each target of `record_per_target`, and `main` one for each record. -/
namespace Nearcore.Network

open EntryMap Unsigned Collections

namespace RouteBackCache

variable {η π : Type} [LinearOrder η] [OrderBot η] [LinearOrder π]

section Counts

omit [OrderBot η]

variable {cache : RouteBackCache η π}

/-- `size_per_target` has one entry for each target with records. -/
theorem WellFormed.card_sizePerTarget (wf : cache.WellFormed) :
    cache.sizePerTarget.card = cache.recordPerTarget.entries.length := by
  have listed : cache.sizePerTarget = (keySet cache.recordPerTarget).image fun target =>
      toLex (cache.capacity - ((cache.recordPerTarget.lookup target).map Finset.card).getD 0, target) := by
    ext entry
    rw [Finset.mem_image]
    constructor
    · intro member
      obtain ⟨records, found, -, atSize⟩ := (wf.sizes (ofLex entry).1 (ofLex entry).2).mp member
      refine ⟨(ofLex entry).2, mem_keySet.mpr (by rw [found]; rfl), ?_⟩
      rw [found, Option.map_some, Option.getD_some, ← atSize]
      rfl
    · rintro ⟨target, member, rfl⟩
      obtain ⟨records, found⟩ := Option.isSome_iff_exists.mp (mem_keySet.mp member)
      rw [found]
      exact (wf.mem_sizePerTarget_iff found _).mpr ⟨wf.nonempty found, rfl⟩
  rw [listed, Finset.card_image_of_injective _ fun a b same => (Prod.mk.inj (toLex.injective same)).2,
    length_eq_card_keySet]

/-- `main` has one entry for each record: the hashes of the targets' records are disjoint and
make up its keys. -/
theorem Indexed.length_eq_total (indexed : cache.Indexed) :
    cache.main.entries.length = total cache.recordPerTarget Finset.card := by
  let recordsOf := fun target => (cache.recordPerTarget.lookup target).getD ∅
  have entryOf : ∀ target time hash, toLex (time, hash) ∈ recordsOf target →
      cache.main.lookup hash = some (time, target) := by
    intro target time hash record
    cases found : cache.recordPerTarget.lookup target with
    | none => simp [recordsOf, found] at record
    | some records =>
      simp only [recordsOf, found, Option.getD_some] at record
      exact (indexed.records found _ _).mp record
  have cardOf : ∀ target, (hashes (recordsOf target)).card = (recordsOf target).card := by
    intro target
    cases found : cache.recordPerTarget.lookup target with
    | none => simp [recordsOf, found, hashes]
    | some records => simpa [recordsOf, found] using indexed.card_hashes found
  have union : keySet cache.main = (keySet cache.recordPerTarget).biUnion fun target => hashes (recordsOf target) := by
    ext hash
    rw [Finset.mem_biUnion, mem_keySet]
    constructor
    · intro present
      obtain ⟨⟨time, target⟩, found⟩ := Option.isSome_iff_exists.mp present
      obtain ⟨records, listed, member⟩ := indexed.mem_records found
      exact ⟨target, mem_keySet.mpr (by rw [listed]; rfl), mem_hashes.mpr ⟨time, by simpa [recordsOf, listed] using member⟩⟩
    · rintro ⟨target, -, member⟩
      obtain ⟨time, record⟩ := mem_hashes.mp member
      rw [entryOf target time hash record]
      rfl
  have disjoint : (keySet cache.recordPerTarget : Set π).PairwiseDisjoint fun target => hashes (recordsOf target) := by
    intro a _ b _ differs
    refine Finset.disjoint_left.mpr fun hash inA inB => differs ?_
    obtain ⟨timeA, recordA⟩ := mem_hashes.mp inA
    obtain ⟨timeB, recordB⟩ := mem_hashes.mp inB
    -- the entry of the hash names one target
    have atA := entryOf a timeA hash recordA
    rw [entryOf b timeB hash recordB, Option.some.injEq, Prod.mk.injEq] at atA
    exact atA.2.symm
  rw [length_eq_card_keySet, union, Finset.card_biUnion disjoint, total,
    AList.sum_entries_eq_sum_keys _ _ ∅, keySet, List.sum_toFinset _ cache.recordPerTarget.keys_nodup]
  exact congrArg List.sum (List.map_congr_left fun target _ => cardOf target)

/-- The invariant gives every assertion of `check_consistency`. -/
theorem WellFormed.checkConsistency (wf : cache.WellFormed) : cache.checkConsistency = true := by
  simp only [RouteBackCache.checkConsistency, Bool.and_eq_true, decide_eq_true_eq]
  refine ⟨⟨⟨⟨wf.within, wf.card_sizePerTarget⟩, fun entry member => ?_⟩, fun entry member record recorded => ?_⟩,
    wf.length_eq_total⟩
  · obtain ⟨records, found, nonempty, atSize⟩ := (wf.sizes (ofLex entry).1 (ofLex entry).2).mp member
    have within := wf.card_le_capacity found
    have positive := Finset.card_pos.mpr nonempty
    rw [found, atSize]
    refine ⟨by omega, by omega, ?_⟩
    rw [Option.map_some, Option.some.injEq]
    omega
  · exact (wf.records (AList.mem_lookup_iff.mpr member) (ofLex record).1 (ofLex record).2).mp recorded

end Counts

omit [OrderBot η] in
/-- `new` builds a well-formed cache with the parameters it is given. -/
theorem new_wellFormed {capacity evictTimeout removeFrequentMinSize : Nat} {cache : RouteBackCache η π}
    (created : new capacity evictTimeout removeFrequentMinSize = .ok cache) :
    cache.WellFormed ∧ cache.params = (capacity, evictTimeout, removeFrequentMinSize) := by
  unfold new at created
  split at created
  · cases created
    exact ⟨⟨⟨by simp, by simp, by simp, by simp⟩, by simp, ‹_›⟩, rfl⟩
  · cases created

/-- One call on a well-formed cache whose `remove_frequent_min_size` is positive succeeds and
keeps the invariant. -/
theorem step_spec {cache : RouteBackCache η π} (wf : cache.WellFormed) (positive : 0 < cache.removeFrequentMinSize) :
    ∀ call : Call η π, ∃ cache', cache.step call = .ok cache' ∧ cache'.params = cache.params ∧ cache'.WellFormed
  | .insert now hash target => by
    cases atHash : cache.main.lookup hash with
    | none =>
      obtain ⟨evicted, ran, params, evictedWf, room, within⟩ := removeEvicted_room wf positive now
      obtain ⟨cache', inserted, params', wf', -⟩ := insert_of_room atHash ran evictedWf room within target
      exact ⟨cache', inserted, params'.trans params, wf'⟩
    | some entry => exact ⟨cache, insert_of_isSome (by rw [atHash]; rfl) now target, rfl, wf⟩
  | .remove now hash => by
    obtain ⟨evicted, -, -, cache', removed, params, wf', -⟩ := remove_spec wf now hash
    exact ⟨cache', by rw [step, removed]; rfl, params, wf'⟩

/-- A run of calls from a well-formed cache whose `remove_frequent_min_size` is positive: by
induction on the calls, each keeps the invariant and the parameters. -/
theorem run_spec : ∀ (calls : List (Call η π)) {cache : RouteBackCache η π}, cache.WellFormed →
    0 < cache.removeFrequentMinSize →
    ∃ cache', cache.run calls = .ok cache' ∧ cache'.params = cache.params ∧ cache'.WellFormed
  | [], cache, wf, _ => ⟨cache, rfl, rfl, wf⟩
  | call :: calls, _, wf, positive => by
    obtain ⟨next, stepped, params, nextWf⟩ := step_spec wf positive call
    obtain ⟨final, ran, finalParams, finalWf⟩ :=
      run_spec calls nextWf (removeFrequentMinSize_eq_of_params params ▸ positive)
    exact ⟨final, by rw [run, stepped, Except.ok_bind, ran], finalParams.trans params, finalWf⟩

/-- A run of two lists of calls is the run of the first, then of the second from where it ends. -/
theorem run_append : ∀ (calls more : List (Call η π)) (cache : RouteBackCache η π),
      cache.run (calls ++ more) = cache.run calls >>= fun cache => cache.run more
  | [], _, _ => rfl
  | call :: calls, more, cache => by
    rw [List.cons_append, run, run]
    cases cache.step call with
    | error e => rfl
    | ok next => exact run_append calls more next

/-- From `new` with a positive `remove_frequent_min_size`, every run of calls succeeds and ends
in a cache whose `check_consistency` holds. -/
theorem run_checkConsistency {capacity evictTimeout removeFrequentMinSize : Nat} {cache : RouteBackCache η π}
    (created : new capacity evictTimeout removeFrequentMinSize = .ok cache) (positive : 0 < removeFrequentMinSize)
    (calls : List (Call η π)) : ∃ cache', cache.run calls = .ok cache' ∧ cache'.checkConsistency = true := by
  obtain ⟨wf, params⟩ := new_wellFormed created
  have minSize : cache.removeFrequentMinSize = removeFrequentMinSize := congrArg (fun p => p.2.2) params
  obtain ⟨cache', ran, -, wf'⟩ := run_spec calls wf (minSize ▸ positive)
  exact ⟨cache', ran, wf'.checkConsistency⟩

/-- A cache of three messages that evicts one at a time. -/
def sampleCache : RouteBackCache Nat Nat := ⟨3, 10, 1, ∅, ∅, ∅⟩

theorem new_sampleCache : new 3 10 1 = .ok sampleCache := rfl

/-- Two messages for the target `7` and one for `8`, which fill the cache. -/
def sampleCalls : List (Call Nat Nat) := [.insert 0 5 7, .insert 1 6 7, .insert 2 4 8]

theorem run_checkConsistency_sample :
    ∃ cache', sampleCache.run (sampleCalls ++ [.insert 11 9 7, .remove 12 6]) = .ok cache' ∧
      cache'.checkConsistency = true :=
  run_checkConsistency new_sampleCache (by decide) _

end RouteBackCache

end Nearcore.Network
