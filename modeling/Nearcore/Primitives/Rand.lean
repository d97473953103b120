import Nearcore.Library.AliasTable
import Nearcore.Library.Unsigned
import Nearcore.Primitives.Action

/-! The alias table of `WeightedIndex` (`core/primitives/src/rand.rs`), from which block and
chunk producers are sampled. `new` scales the weights by their number `n`, so that every column
of the table has height `weight_sum`, and pairs each index whose scaled weight is below that
height with one above it, Vose's way, with `u128` arithmetic that panics on overflow. The stacks
of `Aliases` are lists with their top first. The pairing loop runs at most once per index, since
each iteration takes one index off the stacks for good: it is given that many iterations. -/
namespace Nearcore

open Unsigned

/-- `WeightedIndex`. -/
structure WeightedIndex where
  weightSum : Nat
  aliases : List Nat
  noAliasOdds : List Nat
  deriving DecidableEq

/-- `aliases::Aliases`: the alias of each index, and the stacks of small and big indices. -/
structure Aliases where
  aliases : List Nat
  smalls : List Nat
  bigs : List Nat

/-- `Aliases::new`. -/
def Aliases.new (n : Nat) : Aliases := ⟨List.replicate n 0, [], []⟩

section
attribute [local simp] Aliases.new
end

/-- `Aliases::push_small`. -/
def Aliases.pushSmall (aliases : Aliases) (s : Nat) : Aliases := { aliases with smalls := s :: aliases.smalls }

section
attribute [local simp] Aliases.pushSmall
end

/-- `Aliases::push_big`. -/
def Aliases.pushBig (aliases : Aliases) (b : Nat) : Aliases := { aliases with bigs := b :: aliases.bigs }

section
attribute [local simp] Aliases.pushBig
end

/-- `Aliases::set_alias`. -/
def Aliases.setAlias (aliases : Aliases) (index aliasIndex : Nat) : Aliases :=
  { aliases with aliases := aliases.aliases.set index aliasIndex }

/-- The first loop of `WeightedIndex::new`: the sum of the weights, and each weight times `n`. -/
def scaleWeights (n : Nat) : List Nat → Nat → Except Panic (List Nat × Nat)
  | [], weightSum => pure ([], weightSum)
  | w :: rest, weightSum => do
    let weightSum ← add 128 weightSum w
    let odds ← mul 128 w n
    let (rest, weightSum) ← scaleWeights n rest weightSum
    pure (odds :: rest, weightSum)

section
attribute [local simp] scaleWeights
end

/-- One round of the second loop: an index, with its odds, onto the stack they put it on. -/
def classifyStep (weightSum : Nat) (aliases : Aliases) (entry : Nat × Nat) : Aliases :=
  if entry.1 < weightSum then aliases.pushSmall entry.2 else aliases.pushBig entry.2

section
attribute [local simp] classifyStep
end

/-- The second loop, over the indices in order. -/
def classify (weightSum : Nat) (noAliasOdds : List Nat) (aliases : Aliases) : Aliases :=
  noAliasOdds.zipIdx.foldl (classifyStep weightSum) aliases

section
attribute [local simp] classify
end

/-- One iteration of the pairing loop, with `s` and `b` popped: `s` is aliased to `b`, which
loses what `s` lacks and goes back onto the stack of its new odds. -/
def pairStep (weightSum s b : Nat) (aliases : Aliases) (noAliasOdds : List Nat) :
    Except Panic (Aliases × List Nat) := do
  let aliases := aliases.setAlias s b
  -- `no_alias_odds[b] - weight_sum + no_alias_odds[s]`, from the left
  let reduced ← sub (noAliasOdds.getD b 0) weightSum
  let odds ← add 128 reduced (noAliasOdds.getD s 0)
  let noAliasOdds := noAliasOdds.set b odds
  pure (if odds < weightSum then aliases.pushSmall b else aliases.pushBig b, noAliasOdds)

section
attribute [local simp] pairStep
end

/-- The pairing loop, while neither stack is empty. -/
def pairLoop (weightSum : Nat) : Nat → Aliases → List Nat → Except Panic (Aliases × List Nat)
  | 0, aliases, noAliasOdds => pure (aliases, noAliasOdds)
  | fuel + 1, aliases, noAliasOdds =>
    match aliases.smalls, aliases.bigs with
    | s :: smalls, b :: bigs => do
      let (aliases, noAliasOdds) ← pairStep weightSum s b { aliases with smalls, bigs } noAliasOdds
      pairLoop weightSum fuel aliases noAliasOdds
    | _, _ => pure (aliases, noAliasOdds)

section
attribute [local simp] pairLoop
end

/-- The last two loops: every index popped off a stack gets odds `weight_sum`. -/
def fillOdds (weightSum : Nat) (noAliasOdds stack : List Nat) : List Nat :=
  stack.foldl (fun noAliasOdds index => noAliasOdds.set index weightSum) noAliasOdds

section
attribute [local simp] fillOdds
end

/-- `WeightedIndex::new`. -/
def WeightedIndex.new (weights : List Nat) : Except Panic WeightedIndex := do
  let n := weights.length
  let (noAliasOdds, weightSum) ← scaleWeights n weights 0
  let aliases := classify weightSum noAliasOdds (Aliases.new n)
  let (aliases, noAliasOdds) ← pairLoop weightSum n aliases noAliasOdds
  let noAliasOdds := fillOdds weightSum (fillOdds weightSum noAliasOdds aliases.smalls) aliases.bigs
  pure ⟨weightSum, aliases.aliases, noAliasOdds⟩

section
attribute [local simp] WeightedIndex.new
end

/-- The table of the example in the source's tests. -/
example : WeightedIndex.new [5, 8, 4, 10, 4, 4, 5] = .ok ⟨40, [1, 0, 3, 1, 3, 3, 3], [35, 40, 28, 29, 28, 28, 35]⟩ := by
  rfl

/-- `from_le_bytes`. -/
def fromLeBytes (bytes : List UInt8) : Nat :=
  bytes.foldr (fun byte value => byte.toNat + 256 * value) 0

/-- The choice of `sample` at a uniform index and weight. -/
def WeightedIndex.sampleAt (index : WeightedIndex) (uniformIndex uniformWeight : Nat) : Nat :=
  if uniformWeight < index.noAliasOdds.getD uniformIndex 0 then uniformIndex
  else index.aliases.getD uniformIndex 0

section
attribute [local simp] WeightedIndex.sampleAt
end

/-- `WeightedIndex::sample`. -/
def WeightedIndex.sample (index : WeightedIndex) (seed : Vector UInt8 32) : Except Panic Nat := do
  let uniformIndex ← rem (fromLeBytes (seed.toList.take 8)) index.aliases.length
  let uniformWeight ← rem (fromLeBytes ((seed.toList.drop 8).take 16)) index.weightSum
  pure (index.sampleAt uniformIndex uniformWeight)

section
attribute [local simp] WeightedIndex.sample
end

/-! ### The loops of `new` -/

/-- The first loop, when the sum and the products fit in `u128`. -/
theorem scaleWeights_eq (n : Nat) : ∀ (weights : List Nat) (acc : Nat),
    acc + weights.sum < 2 ^ 128 → (∀ w ∈ weights, w * n < 2 ^ 128) →
    scaleWeights n weights acc = .ok (weights.map (· * n), acc + weights.sum)
  | [], acc, _, _ => rfl
  | w :: rest, acc, fits, scaled => by
    rw [List.sum_cons, ← Nat.add_assoc] at fits
    have first : acc + w < 2 ^ 128 := by omega
    rw [scaleWeights, add_of_lt first, Except.ok_bind, mul_of_lt (scaled w List.mem_cons_self), Except.ok_bind,
      scaleWeights_eq n rest (acc + w) fits fun x member => scaled x (List.mem_cons_of_mem _ member)]
    simp [Nat.add_assoc]

/-- The second loop pushes the indices below the height onto the smalls and the others onto the
bigs, each stack ending with the last index pushed on top. -/
theorem foldl_classifyStep (weightSum : Nat) : ∀ (entries : List (Nat × Nat)) (aliases : Aliases),
    entries.foldl (classifyStep weightSum) aliases =
      ⟨aliases.aliases, ((entries.filter fun entry => entry.1 < weightSum).map Prod.snd).reverse ++ aliases.smalls,
        ((entries.filter fun entry => !decide (entry.1 < weightSum)).map Prod.snd).reverse ++ aliases.bigs⟩
  | [], ⟨_, _, _⟩ => rfl
  | entry :: rest, aliases => by
    rw [List.foldl_cons, foldl_classifyStep weightSum rest]
    by_cases small : entry.1 < weightSum
    · simp [classifyStep, Aliases.pushSmall, small]
    · simp [classifyStep, Aliases.pushBig, small]

/-- An index the second loop pushes was pushed with its own odds. -/
theorem getD_of_mem_pushed {p : Nat × Nat → Bool} {noAliasOdds : List Nat} {index : Nat}
    (member : index ∈ ((noAliasOdds.zipIdx.filter p).map Prod.snd).reverse) :
    p (noAliasOdds.getD index 0, index) = true := by
  obtain ⟨⟨odds, index⟩, kept, rfl⟩ := List.mem_map.mp (List.mem_reverse.mp member)
  obtain ⟨entry, pushed⟩ := List.mem_filter.mp kept
  rw [List.getD_eq_getElem?_getD, List.mem_zipIdx_iff_getElem?.mp entry, Option.getD_some]
  exact pushed

/-- From empty stacks, the second loop puts every index on one stack, by its odds. -/
theorem classify_spec (weightSum : Nat) (noAliasOdds aliases : List Nat) :
    (classify weightSum noAliasOdds ⟨aliases, [], []⟩).aliases = aliases ∧
      ((classify weightSum noAliasOdds ⟨aliases, [], []⟩).smalls ++
        (classify weightSum noAliasOdds ⟨aliases, [], []⟩).bigs).Perm (List.range noAliasOdds.length) ∧
      (∀ s ∈ (classify weightSum noAliasOdds ⟨aliases, [], []⟩).smalls, noAliasOdds.getD s 0 < weightSum) ∧
      ∀ b ∈ (classify weightSum noAliasOdds ⟨aliases, [], []⟩).bigs, weightSum ≤ noAliasOdds.getD b 0 := by
  rw [classify, foldl_classifyStep]
  refine ⟨rfl, ?_, fun s member => ?_, fun b member => ?_⟩
  · simp only [List.append_nil]
    refine ((List.reverse_perm _).append (List.reverse_perm _)).trans ?_
    rw [← List.map_append]
    refine ((List.filter_append_perm _ _).map Prod.snd).trans ?_
    simp [List.range_eq_range']
  · simp only [List.append_nil] at member
    simpa using getD_of_mem_pushed member
  · simp only [List.append_nil] at member
    simpa using getD_of_mem_pushed member

/-- The pairing loop, one iteration: with `b` at least the height and `s` below it, no
arithmetic overflows, `s` is aliased to `b`, and `b` goes back onto the stack of its new odds. -/
theorem pairStep_spec {weightSum s b : Nat} {aliases : Aliases} {noAliasOdds : List Nat}
    (big : weightSum ≤ noAliasOdds.getD b 0) (fits : noAliasOdds.getD b 0 < 2 ^ 128)
    (small : noAliasOdds.getD s 0 < weightSum) :
    ∃ result, pairStep weightSum s b aliases noAliasOdds = .ok result ∧
      result.1.aliases = aliases.aliases.set s b ∧
      result.2 = noAliasOdds.set b (noAliasOdds.getD b 0 - weightSum + noAliasOdds.getD s 0) ∧
      (result.1.smalls ++ result.1.bigs).Perm (b :: (aliases.smalls ++ aliases.bigs)) ∧
      (∀ x ∈ result.1.smalls, x = b ∧ noAliasOdds.getD b 0 - weightSum + noAliasOdds.getD s 0 < weightSum ∨
        x ∈ aliases.smalls) ∧
      (∀ x ∈ result.1.bigs, x = b ∧ weightSum ≤ noAliasOdds.getD b 0 - weightSum + noAliasOdds.getD s 0 ∨
        x ∈ aliases.bigs) := by
  have sumFits : noAliasOdds.getD b 0 - weightSum + noAliasOdds.getD s 0 < 2 ^ 128 := by omega
  unfold pairStep
  rw [sub_of_le big, Except.ok_bind, add_of_lt sumFits, Except.ok_bind]
  refine ⟨_, rfl, ?_⟩
  by_cases smaller : noAliasOdds.getD b 0 - weightSum + noAliasOdds.getD s 0 < weightSum
  · rw [if_pos smaller]
    refine ⟨rfl, rfl, List.Perm.refl _, fun x member => ?_, fun x member => .inr member⟩
    rcases List.mem_cons.mp member with rfl | old
    · exact .inl ⟨rfl, smaller⟩
    · exact .inr old
  · rw [if_neg smaller]
    refine ⟨rfl, rfl, List.perm_middle, fun x member => .inr member, fun x member => ?_⟩
    rcases List.mem_cons.mp member with rfl | old
    · exact .inl ⟨rfl, Nat.not_lt.mp smaller⟩
    · exact .inr old

/-! ### The invariant of the pairing loop -/

section Pairing

variable {weights : List Nat} {weightSum : Nat}

/-- What the pairing loop keeps, at height `weight_sum`. The stacks hold distinct indices, each
on the stack of its odds, and their odds average the height; an index off the stacks is
finished, below the height; every alias is an index; and the odds of each index, with the parts
above the finished indices aliased to it, are its weight times `n`. -/
structure PairInv (weights : List Nat) (weightSum : Nat) (aliases : Aliases) (noAliasOdds : List Nat) : Prop where
  aliasesLength : aliases.aliases.length = weights.length
  oddsLength : noAliasOdds.length = weights.length
  nodup : (aliases.smalls ++ aliases.bigs).Nodup
  stacked : ∀ j ∈ aliases.smalls ++ aliases.bigs, j < weights.length
  small : ∀ s ∈ aliases.smalls, noAliasOdds.getD s 0 < weightSum
  big : ∀ b ∈ aliases.bigs, weightSum ≤ noAliasOdds.getD b 0
  finished : ∀ j < weights.length, j ∉ aliases.smalls ++ aliases.bigs → noAliasOdds.getD j 0 < weightSum
  aliasValid : ∀ j < weights.length, aliases.aliases.getD j 0 < weights.length
  bounded : ∀ j < weights.length, noAliasOdds.getD j 0 ≤ weights.length * weightSum
  stackMass : ((aliases.smalls ++ aliases.bigs).map (noAliasOdds.getD · 0)).sum =
    weightSum * (aliases.smalls ++ aliases.bigs).length
  mass : ∀ i < weights.length, noAliasOdds.getD i 0 + ((List.range weights.length).map fun j =>
    if j ∉ aliases.smalls ++ aliases.bigs ∧ aliases.aliases.getD j 0 = i then weightSum - noAliasOdds.getD j 0
    else 0).sum = weights.length * weights.getD i 0

/-- One iteration keeps the invariant and takes one index off the stacks. -/
theorem PairInv.step {al : List Nat} {s b : Nat} {smalls bigs : List Nat} {noAliasOdds : List Nat}
    (inv : PairInv weights weightSum ⟨al, s :: smalls, b :: bigs⟩ noAliasOdds)
    (fits : weights.length * weightSum < 2 ^ 128) :
    ∃ result, pairStep weightSum s b ⟨al, smalls, bigs⟩ noAliasOdds = .ok result ∧
      PairInv weights weightSum result.1 result.2 ∧
      (result.1.smalls ++ result.1.bigs).length = (smalls ++ bigs).length + 1 := by
  have sSmall := inv.small s List.mem_cons_self
  have bBig := inv.big b List.mem_cons_self
  have sValid := inv.stacked s (by simp)
  have bValid := inv.stacked b (by simp)
  have bBounded := inv.bounded b bValid
  -- the old stacks are `s`, `b` and the rest, all distinct
  have oldPerm : ((s :: smalls) ++ (b :: bigs)).Perm (s :: b :: (smalls ++ bigs)) :=
    List.Perm.cons s List.perm_middle
  have distinct := oldPerm.nodup_iff.mp inv.nodup
  rw [List.nodup_cons, List.mem_cons, not_or, List.nodup_cons] at distinct
  obtain ⟨⟨sNeB, sOff⟩, bOff, restNodup⟩ := distinct
  have oldMem : ∀ x, x ∈ (s :: smalls) ++ (b :: bigs) ↔ x = s ∨ x = b ∨ x ∈ smalls ++ bigs := fun x => by
    rw [oldPerm.mem_iff]
    simp
  obtain ⟨⟨aliases', odds'⟩, stepped, aliased, oddsEq, perm, newSmall, newBig⟩ :=
    @pairStep_spec weightSum s b ⟨al, smalls, bigs⟩ noAliasOdds bBig (by omega) sSmall
  dsimp only at aliased oddsEq perm newSmall newBig
  have newMem : ∀ x, x ∈ aliases'.smalls ++ aliases'.bigs ↔ x = b ∨ x ∈ smalls ++ bigs := fun x => by
    rw [perm.mem_iff, List.mem_cons]
  have oddsLength : noAliasOdds.length = weights.length := inv.oddsLength
  have oddsAt : ∀ j, odds'.getD j 0 =
      if b = j then noAliasOdds.getD b 0 - weightSum + noAliasOdds.getD s 0 else noAliasOdds.getD j 0 := fun j => by
    rw [oddsEq, List.getD_set_of_lt _ (oddsLength ▸ bValid)]
  have aliasAt : ∀ j, aliases'.aliases.getD j 0 = if s = j then b else al.getD j 0 := fun j => by
    rw [aliased, List.getD_set_of_lt _ (inv.aliasesLength ▸ sValid)]
  refine ⟨(aliases', odds'), stepped, ⟨?_, ?_, ?_, ?_, ?_, ?_, ?_, ?_, ?_, ?_, ?_⟩, ?_⟩
  · rw [aliased, List.length_set]
    exact inv.aliasesLength
  · rw [oddsEq, List.length_set]
    exact oddsLength
  · exact perm.nodup_iff.mpr (List.nodup_cons.mpr ⟨bOff, restNodup⟩)
  · intro j member
    exact inv.stacked j ((oldMem j).mpr (Or.inr ((newMem j).mp member)))
  · intro x member
    rcases newSmall x member with ⟨rfl, smaller⟩ | old
    · rw [oddsAt, if_pos rfl]
      exact smaller
    · have different : b ≠ x := fun same => bOff (same ▸ List.mem_append_left _ old)
      rw [oddsAt, if_neg different]
      exact inv.small x (List.mem_cons_of_mem _ old)
  · intro x member
    rcases newBig x member with ⟨rfl, larger⟩ | old
    · rw [oddsAt, if_pos rfl]
      exact larger
    · have different : b ≠ x := fun same => bOff (same ▸ List.mem_append_right _ old)
      rw [oddsAt, if_neg different]
      exact inv.big x (List.mem_cons_of_mem _ old)
  · intro j valid off
    rw [newMem, not_or] at off
    by_cases popped : j = s
    · subst popped
      rw [oddsAt, if_neg (Ne.symm sNeB)]
      exact sSmall
    · rw [oddsAt, if_neg (Ne.symm off.1)]
      refine inv.finished j valid fun member => ?_
      rcases (oldMem j).mp member with same | same | later
      · exact popped same
      · exact off.1 same
      · exact off.2 later
  · intro j valid
    rw [aliasAt]
    split
    · exact bValid
    · exact inv.aliasValid j valid
  · intro j valid
    rw [oddsAt]
    split
    · omega
    · exact inv.bounded j valid
  · -- the stacks lose `s` and the height it lacks
    have oldMass := inv.stackMass
    have unchanged : ((smalls ++ bigs).map (odds'.getD · 0)) = (smalls ++ bigs).map (noAliasOdds.getD · 0) :=
      List.map_congr_left fun x member => by
        rw [oddsAt, if_neg fun same => bOff (by rw [same]; exact member)]
    rw [(oldPerm.map _).sum_eq, oldPerm.length_eq] at oldMass
    rw [(perm.map _).sum_eq, perm.length_eq, List.map_cons, List.sum_cons, unchanged, oddsAt, if_pos rfl]
    simp only [List.map_cons, List.sum_cons, List.length_cons, Nat.mul_succ] at oldMass ⊢
    omega
  · -- `s` is finished with alias `b`: `b` has the part above `s` on top of its new odds
    intro i valid
    have before := inv.mass i valid
    dsimp only at before
    have pointwise : ∀ j ∈ List.range weights.length,
        (if j ∉ aliases'.smalls ++ aliases'.bigs ∧ aliases'.aliases.getD j 0 = i then weightSum - odds'.getD j 0
          else 0) =
        (if j ∉ (s :: smalls) ++ (b :: bigs) ∧ al.getD j 0 = i then weightSum - noAliasOdds.getD j 0 else 0) +
          if j = s then (if b = i then weightSum - noAliasOdds.getD s 0 else 0) else 0 := by
      intro j _
      simp only [aliasAt, oddsAt]
      by_cases popped : j = s
      · -- `s` leaves the stacks, aliased to `b`
        subst popped
        have offNow : j ∉ aliases'.smalls ++ aliases'.bigs := by
          rw [newMem, not_or]
          exact ⟨sNeB, sOff⟩
        simp [offNow, Ne.symm sNeB]
      · have sameOff : j ∉ aliases'.smalls ++ aliases'.bigs ↔ j ∉ (s :: smalls) ++ (b :: bigs) := by
          rw [newMem, oldMem]
          simp [popped]
        by_cases stackedB : j = b
        · -- `b` stays on the stacks
          subst stackedB
          have onNow : j ∈ aliases'.smalls ++ aliases'.bigs := (newMem j).mpr (.inl rfl)
          simp [onNow, popped]
        · simp only [if_neg (Ne.symm popped), if_neg (Ne.symm stackedB), if_neg popped, Nat.add_zero, sameOff]
    rw [List.map_congr_left pointwise, List.sum_map_add, List.sum_range_ite_eq sValid]
    by_cases atB : b = i
    · subst atB
      rw [oddsAt, if_pos rfl, if_pos rfl]
      omega
    · rw [oddsAt, if_neg atB, if_neg atB, Nat.add_zero]
      exact before
  · rw [perm.length_eq, List.length_cons]

/-- The pairing loop keeps the invariant and stops with a stack empty, given one iteration per
index on the stacks. -/
theorem pairLoop_spec (fits : weights.length * weightSum < 2 ^ 128) :
    ∀ (fuel : Nat) (aliases : Aliases) (noAliasOdds : List Nat),
      PairInv weights weightSum aliases noAliasOdds → (aliases.smalls ++ aliases.bigs).length ≤ fuel →
      ∃ result, pairLoop weightSum fuel aliases noAliasOdds = .ok result ∧
        PairInv weights weightSum result.1 result.2 ∧ (result.1.smalls = [] ∨ result.1.bigs = [])
  | 0, aliases, noAliasOdds, inv, empty => by
    refine ⟨(aliases, noAliasOdds), rfl, inv, .inl ?_⟩
    rw [Nat.le_zero, List.length_eq_zero_iff, List.append_eq_nil_iff] at empty
    exact empty.1
  | fuel + 1, ⟨al, smalls, bigs⟩, noAliasOdds, inv, within => by
    cases smalls with
    | nil => exact ⟨_, rfl, inv, .inl rfl⟩
    | cons s smalls =>
      cases bigs with
      | nil => exact ⟨_, rfl, inv, .inr rfl⟩
      | cons b bigs =>
        obtain ⟨⟨aliases', odds'⟩, stepped, inv', shorter⟩ := inv.step fits
        have fewer : (aliases'.smalls ++ aliases'.bigs).length ≤ fuel := by
          dsimp only at within shorter
          simp only [List.length_append, List.length_cons] at within shorter ⊢
          omega
        obtain ⟨final, looped, invFinal, ended⟩ := pairLoop_spec fits fuel aliases' odds' inv' fewer
        refine ⟨final, ?_, invFinal, ended⟩
        simp only [pairLoop, stepped, Except.ok_bind]
        exact looped

end Pairing

/-- The stacks hold distinct indices, so no more than there are indices. -/
theorem PairInv.length_le {weights : List Nat} {weightSum : Nat} {aliases : Aliases} {noAliasOdds : List Nat}
    (inv : PairInv weights weightSum aliases noAliasOdds) :
    (aliases.smalls ++ aliases.bigs).length ≤ weights.length := by
  have within := inv.nodup.length_le_of_subset fun j member => List.mem_range.mpr (inv.stacked j member)
  rwa [List.length_range] at within

/-- When the pairing loop stops, the smalls are empty: their odds are below the height, yet they
average it. So the bigs are at the height exactly. -/
theorem PairInv.exit {weights : List Nat} {weightSum : Nat} {aliases : Aliases} {noAliasOdds : List Nat}
    (inv : PairInv weights weightSum aliases noAliasOdds) (ended : aliases.smalls = [] ∨ aliases.bigs = []) :
    aliases.smalls = [] ∧ ∀ b ∈ aliases.bigs, noAliasOdds.getD b 0 = weightSum := by
  have smallsEmpty : aliases.smalls = [] := by
    rcases ended with empty | empty
    · exact empty
    · have total := inv.stackMass
      rw [empty, List.append_nil] at total
      exact List.eq_nil_of_sum_eq_mul_length inv.small total
  refine ⟨smallsEmpty, ?_⟩
  have total := inv.stackMass
  rw [smallsEmpty, List.nil_append] at total
  exact List.forall_eq_of_sum_eq_mul_length inv.big total

/-! ### `new` and `sample` -/

/-- Setting odds that are already the height changes nothing. -/
theorem fillOdds_of_eq {weightSum : Nat} : ∀ (noAliasOdds stack : List Nat),
    (∀ b ∈ stack, b < noAliasOdds.length ∧ noAliasOdds.getD b 0 = weightSum) →
    fillOdds weightSum noAliasOdds stack = noAliasOdds
  | _, [], _ => rfl
  | noAliasOdds, b :: rest, filled => by
    obtain ⟨valid, already⟩ := filled b List.mem_cons_self
    have same : noAliasOdds.set b weightSum = noAliasOdds := by
      rw [← already, List.getD_eq_getElem?_getD, List.getElem?_eq_getElem valid, Option.getD_some,
        List.set_getElem_self]
    rw [fillOdds, List.foldl_cons, same]
    exact fillOdds_of_eq noAliasOdds rest fun x member => filled x (List.mem_cons_of_mem _ member)

section New

variable {weights : List Nat}

/-- The state the pairing loop starts from keeps its invariant: every index is on a stack,
with its weight times `n` as odds. -/
theorem PairInv.initial (nonempty : weights ≠ []) :
    PairInv weights weights.sum
      (classify weights.sum (weights.map (· * weights.length)) (Aliases.new weights.length))
      (weights.map (· * weights.length)) := by
  have lengthPos := List.length_pos_of_ne_nil nonempty
  have scaledLength : (weights.map (· * weights.length)).length = weights.length := List.length_map ..
  have scaledAt : ∀ j, (weights.map (· * weights.length)).getD j 0 = weights.getD j 0 * weights.length := fun j => by
    rw [List.getD_eq_getElem?_getD, List.getD_eq_getElem?_getD, List.getElem?_map]
    cases weights[j]? <;> simp
  obtain ⟨aliased, perm, small, big⟩ :=
    classify_spec weights.sum (weights.map (· * weights.length)) (List.replicate weights.length 0)
  rw [scaledLength] at perm
  show PairInv weights weights.sum
    (classify weights.sum (weights.map (· * weights.length)) ⟨List.replicate weights.length 0, [], []⟩) _
  generalize classify weights.sum (weights.map (· * weights.length)) ⟨List.replicate weights.length 0, [], []⟩ =
    classified at aliased perm small big ⊢
  have onStack : ∀ j < weights.length, j ∈ classified.smalls ++ classified.bigs := fun j valid =>
    perm.mem_iff.mpr (List.mem_range.mpr valid)
  refine ⟨?_, scaledLength, perm.nodup_iff.mpr List.nodup_range, fun j member => ?_, small, big,
    fun j valid off => absurd (onStack j valid) off, fun j valid => ?_, fun j valid => ?_, ?_, fun i valid => ?_⟩
  · rw [aliased, List.length_replicate]
  · exact List.mem_range.mp (perm.mem_iff.mp member)
  · rw [aliased, List.getD_replicate _ valid]
    exact lengthPos
  · -- a weight is at most the sum
    have atMost : weights.getD j 0 ≤ weights.sum := by
      rw [List.getD_eq_getElem?_getD, List.getElem?_eq_getElem valid, Option.getD_some]
      exact List.le_sum_of_mem (List.getElem_mem valid)
    rw [scaledAt, Nat.mul_comm]
    exact Nat.mul_le_mul_left _ atMost
  · have overRange : List.range weights.length = List.range (weights.map (· * weights.length)).length := by
      rw [scaledLength]
    rw [(perm.map _).sum_eq, perm.length_eq, List.length_range, overRange, List.map_getD_range,
      List.sum_map_mul_right weights (fun w => w), List.map_id']
  · -- no index is finished yet
    have none : ((List.range weights.length).map fun j =>
        if j ∉ classified.smalls ++ classified.bigs ∧ classified.aliases.getD j 0 = i
        then weights.sum - (weights.map (· * weights.length)).getD j 0 else 0).sum = 0 := by
      refine List.sum_eq_zero fun x member => ?_
      obtain ⟨j, inRange, rfl⟩ := List.mem_map.mp member
      rw [if_neg fun off => off.1 (onStack j (List.mem_range.mp inRange))]
    rw [none, Nat.add_zero, scaledAt, Nat.mul_comm]

/-- `WeightedIndex::new`, for weights whose number times their sum fits in `u128`: no arithmetic
overflows; the height is the sum, no odds exceed it, every alias is an index, and each index has
the mass of its weight times `n`. -/
theorem WeightedIndex.new_spec (nonempty : weights ≠ []) (fits : weights.length * weights.sum ≤ Balance.MAX) :
    ∃ index, WeightedIndex.new weights = .ok index ∧ index.weightSum = weights.sum ∧
      index.aliases.length = weights.length ∧ index.noAliasOdds.length = weights.length ∧
      (∀ j < weights.length, index.noAliasOdds.getD j 0 ≤ weights.sum) ∧
      (∀ j < weights.length, index.aliases.getD j 0 < weights.length) ∧
      ∀ i < weights.length, AliasTable.mass (index.noAliasOdds.getD · 0) (index.aliases.getD · 0)
        weights.length weights.sum i = weights.length * weights.getD i 0 := by
  have lengthPos := List.length_pos_of_ne_nil nonempty
  have fitsLt : weights.length * weights.sum < 2 ^ 128 := by
    unfold Balance.MAX at fits
    omega
  have sumFits : 0 + weights.sum < 2 ^ 128 := by
    have := Nat.le_mul_of_pos_left weights.sum lengthPos
    omega
  have scaledFits : ∀ w ∈ weights, w * weights.length < 2 ^ 128 := fun w member => by
    have := Nat.mul_le_mul_right weights.length (List.le_sum_of_mem member)
    rw [Nat.mul_comm weights.sum] at this
    omega
  have initial := PairInv.initial nonempty
  obtain ⟨⟨aliases, noAliasOdds⟩, looped, inv, ended⟩ :=
    pairLoop_spec fitsLt weights.length _ _ initial initial.length_le
  dsimp only at inv ended
  obtain ⟨smallsEmpty, bigsFull⟩ := inv.exit ended
  have filled : fillOdds weights.sum (fillOdds weights.sum noAliasOdds aliases.smalls) aliases.bigs = noAliasOdds := by
    rw [smallsEmpty]
    show fillOdds weights.sum noAliasOdds aliases.bigs = noAliasOdds
    refine fillOdds_of_eq _ _ fun b member => ⟨?_, bigsFull b member⟩
    rw [inv.oddsLength]
    exact inv.stacked b (List.mem_append_right _ member)
  -- off the stacks is exactly below the height
  have finishedIff : ∀ j < weights.length,
      noAliasOdds.getD j 0 < weights.sum ↔ j ∉ aliases.smalls ++ aliases.bigs := fun j valid => by
    constructor
    · intro below onStack
      rw [smallsEmpty, List.nil_append] at onStack
      rw [bigsFull j onStack] at below
      exact Nat.lt_irrefl _ below
    · exact inv.finished j valid
  refine ⟨⟨weights.sum, aliases.aliases, noAliasOdds⟩, ?_, rfl, inv.aliasesLength, inv.oddsLength,
    fun j valid => ?_, inv.aliasValid, fun i valid => ?_⟩
  · simp only [WeightedIndex.new]
    rw [scaleWeights_eq _ _ _ sumFits scaledFits, Nat.zero_add]
    simp only [Except.ok_bind]
    rw [looped]
    simp only [Except.ok_bind, filled]
    rfl
  · by_cases onStack : j ∈ aliases.bigs
    · exact Nat.le_of_eq (bigsFull j onStack)
    · refine Nat.le_of_lt (inv.finished j valid ?_)
      rw [smallsEmpty, List.nil_append]
      exact onStack
  · calc AliasTable.mass (noAliasOdds.getD · 0) (aliases.aliases.getD · 0) weights.length weights.sum i
        = noAliasOdds.getD i 0 + ((List.range weights.length).map fun j =>
            if j ∉ aliases.smalls ++ aliases.bigs ∧ aliases.aliases.getD j 0 = i
            then weights.sum - noAliasOdds.getD j 0 else 0).sum := by
          simp only [AliasTable.mass]
          congr 2
          refine List.map_congr_left fun j member => if_congr ?_ rfl rfl
          rw [finishedIff j (List.mem_range.mp member)]
          exact and_comm
      _ = weights.length * weights.getD i 0 := inv.mass i valid

end New

/-- The alias table samples exactly in proportion to the weights. For nonempty weights of
positive sum `W` whose number `n` times `W` fits in `u128`, `new` does not overflow; no odds
exceed `W`; each index has the mass `n` times its weight, so that as many of the `n * W` pairs
of a uniform index and weight pick it; and `sample` never panics and never returns an index of
weight zero. -/
theorem WeightedIndex.samples_in_proportion {weights : List Nat} (nonempty : weights ≠ [])
    (positive : 0 < weights.sum) (fits : weights.length * weights.sum ≤ Balance.MAX) :
    ∃ index, WeightedIndex.new weights = .ok index ∧
      index.aliases.length = weights.length ∧ index.noAliasOdds.length = weights.length ∧
      (∀ j < weights.length, index.noAliasOdds.getD j 0 ≤ weights.sum) ∧
      (∀ i < weights.length, AliasTable.mass (index.noAliasOdds.getD · 0) (index.aliases.getD · 0)
        weights.length weights.sum i = weights.length * weights.getD i 0) ∧
      (∀ i < weights.length, ((List.range weights.length).map fun u =>
        (List.range weights.sum).countP fun v => index.sampleAt u v = i).sum =
          weights.length * weights.getD i 0) ∧
      ∀ seed, ∃ r, index.sample seed = .ok r ∧ r < weights.length ∧ 0 < weights.getD r 0 := by
  obtain ⟨index, built, sumEq, aliasesLength, oddsLength, within, aliasValid, mass⟩ :=
    WeightedIndex.new_spec nonempty fits
  have lengthPos := List.length_pos_of_ne_nil nonempty
  refine ⟨index, built, aliasesLength, oddsLength, within, mass, fun i valid => ?_, fun seed => ?_⟩
  · show AliasTable.pairsPicking (index.noAliasOdds.getD · 0) (index.aliases.getD · 0)
      weights.length weights.sum i = _
    rw [AliasTable.pairsPicking_eq_mass within valid]
    exact mass i valid
  · have column : fromLeBytes (seed.toList.take 8) % index.aliases.length < weights.length := by
      rw [aliasesLength]
      exact Nat.mod_lt _ lengthPos
    have level : fromLeBytes ((seed.toList.drop 8).take 16) % index.weightSum < weights.sum := by
      rw [sumEq]
      exact Nat.mod_lt _ positive
    unfold WeightedIndex.sample
    rw [rem_of_pos (aliasesLength ▸ lengthPos), Except.ok_bind, rem_of_pos (sumEq ▸ positive), Except.ok_bind]
    have picked : index.sampleAt (fromLeBytes (seed.toList.take 8) % index.aliases.length)
        (fromLeBytes ((seed.toList.drop 8).take 16) % index.weightSum) < weights.length := by
      unfold WeightedIndex.sampleAt
      split
      · exact column
      · exact aliasValid _ column
    refine ⟨_, rfl, picked, ?_⟩
    -- the pair picks an index of positive mass, that is of positive weight
    have massPos := @AliasTable.mass_pick_pos (index.noAliasOdds.getD · 0) (index.aliases.getD · 0)
      weights.length weights.sum _ _ column level
    have sampled : AliasTable.pick (index.noAliasOdds.getD · 0) (index.aliases.getD · 0)
        (fromLeBytes (seed.toList.take 8) % index.aliases.length)
        (fromLeBytes ((seed.toList.drop 8).take 16) % index.weightSum) =
      index.sampleAt (fromLeBytes (seed.toList.take 8) % index.aliases.length)
        (fromLeBytes ((seed.toList.drop 8).take 16) % index.weightSum) := rfl
    rw [sampled, mass _ picked] at massPos
    exact Nat.pos_of_mul_pos_left massPos

theorem WeightedIndex.samples_in_proportion_fiveOneOne :
    ∃ index, WeightedIndex.new [5, 1, 1] = .ok index ∧ ∀ i < 3,
      ((List.range 3).map fun u => (List.range 7).countP fun v => index.sampleAt u v = i).sum =
        3 * [5, 1, 1].getD i 0 :=
  let ⟨index, built, _, _, _, _, counts, _⟩ :=
    @WeightedIndex.samples_in_proportion [5, 1, 1] (by decide) (by decide) (by decide)
  ⟨index, built, counts⟩

end Nearcore
