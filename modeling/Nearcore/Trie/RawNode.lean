import Nearcore.Mem.Arena
import Nearcore.Library.ByteCodec
import Nearcore.Library.Bitmap

/-! The borsh encoding of trie nodes (`core/store/src/trie/raw_node.rs`), the bytes a node's
hash is taken of. Structs and enums are written as borsh derives them: fields in order, and an
enum's variant index as one byte before its fields. `Children` has a codec of its own: a 16-bit
bitmap of the present slots, then the present hashes in slot order, read back by visiting the
bitmap's set bits lowest first. Integers are little endian; a `Vec<u8>` is its length as a
`u32` and then its bytes. -/
namespace Nearcore

open ByteCodec

/-- `[u8; 32]`: its bytes. -/
def serializeHash (hash : CryptoHash) : List UInt8 := hash.toList

def deserializeHash : Reader CryptoHash := readArray 32

def ValueRef.serialize (value : ValueRef) : List UInt8 :=
  writeLE 4 value.length.toNat ++ serializeHash value.hash

section
attribute [local simp] ValueRef.serialize
end

def ValueRef.deserialize : Reader ValueRef := do
  let length ← readUInt 4 UInt32.ofNat
  let hash ← deserializeHash
  pure ⟨length, hash⟩

section
attribute [local simp] ValueRef.deserialize
end

/-- One turn of the loop of `Children::serialize` over the slots. -/
def bitmapStep (state : UInt16 × UInt16) (child : Option CryptoHash) : UInt16 × UInt16 :=
  (if child.isSome then state.1 ||| state.2 else state.1, state.2 <<< 1)

section
attribute [local simp] bitmapStep
end

def childrenBitmap (children : Vector (Option CryptoHash) 16) : UInt16 :=
  (children.toList.foldl bitmapStep (0, 1)).1

def serializeChildren (children : Vector (Option CryptoHash) 16) : List UInt8 :=
  writeLE 2 (childrenBitmap children).toNat ++ children.toList.reduceOption.flatMap serializeHash

section
attribute [local simp] serializeChildren
end

theorem toNat_pos_of_ne_zero {bitmap : UInt16} (nonzero : ¬bitmap = 0) : 0 < bitmap.toNat := by
  rcases Nat.eq_zero_or_pos bitmap.toNat with zero | positive
  · exact absurd (UInt16.toNat_inj.mp (zero.trans UInt16.toNat_zero.symm)) nonzero
  · exact positive

/-- `bitmap - 1` does not wrap when the bitmap has a set bit. -/
theorem toNat_and_sub_one {bitmap : UInt16} (nonzero : ¬bitmap = 0) :
    (bitmap &&& (bitmap - 1)).toNat = bitmap.toNat &&& (bitmap.toNat - 1) := by
  have one : (1 : UInt16) ≤ bitmap :=
    UInt16.le_iff_toNat_le.mpr (by rw [UInt16.toNat_one]; exact toNat_pos_of_ne_zero nonzero)
  rw [UInt16.toNat_and, UInt16.toNat_sub_of_le _ _ one, UInt16.toNat_one]

theorem toNat_and_sub_one_lt {bitmap : UInt16} (nonzero : ¬bitmap = 0) :
    (bitmap &&& (bitmap - 1)).toNat < bitmap.toNat := by
  have positive := toNat_pos_of_ne_zero nonzero
  rw [toNat_and_sub_one nonzero]
  exact Nat.lt_of_le_of_lt Nat.and_le_right (by omega)

/-- The loop of `Children::deserialize_reader`: while the bitmap has a set bit, read the hash
for the slot of its lowest one and clear that bit. The index is below 16 whenever the bitmap is
not zero, so the source's indexing never panics and `setIfInBounds` always writes. -/
def deserializeChildrenLoop (bitmap : UInt16) (children : Vector (Option CryptoHash) 16) :
    Reader (Vector (Option CryptoHash) 16) :=
  if zero : bitmap = 0 then pure children
  else do
    let idx := Bitmap.trailingZeros 16 bitmap.toNat
    let child ← deserializeHash
    deserializeChildrenLoop (bitmap &&& (bitmap - 1)) (children.setIfInBounds idx (some child))
termination_by bitmap.toNat
decreasing_by exact toNat_and_sub_one_lt zero

section
attribute [local simp] deserializeChildrenLoop
end

def deserializeChildren : Reader (Vector (Option CryptoHash) 16) := do
  let bitmap ← readUInt 2 UInt16.ofNat
  deserializeChildrenLoop bitmap noChildren

section
attribute [local simp] deserializeChildren
end

def RawTrieNode.serialize : RawTrieNode → Option (List UInt8)
  | .leaf key value => do
    let key ← writeLengthPrefixed key
    pure (0 :: key ++ value.serialize)
  | .branchNoValue children => pure (1 :: serializeChildren children)
  | .branchWithValue value children => pure (2 :: value.serialize ++ serializeChildren children)
  | .extension key child => do
    let key ← writeLengthPrefixed key
    pure (3 :: key ++ serializeHash child)

section
attribute [local simp] RawTrieNode.serialize
end

/-- The fields of the variant with index `tag`. -/
def RawTrieNode.deserializeFields : Nat → Reader RawTrieNode
  | 0 => do
    let key ← readLengthPrefixed
    let value ← ValueRef.deserialize
    pure (.leaf key value)
  | 1 => do
    let children ← deserializeChildren
    pure (.branchNoValue children)
  | 2 => do
    let value ← ValueRef.deserialize
    let children ← deserializeChildren
    pure (.branchWithValue value children)
  | 3 => do
    let key ← readLengthPrefixed
    let child ← deserializeHash
    pure (.extension key child)
  | _ => failure

section
attribute [local simp] RawTrieNode.deserializeFields
end

def RawTrieNode.deserialize : Reader RawTrieNode := do
  let tag ← readByte
  RawTrieNode.deserializeFields tag.toNat

section
attribute [local simp] RawTrieNode.deserialize
end

/-- `memory_usage` is a `u64`: its eight bytes. -/
def RawTrieNodeWithSize.serialize (node : RawTrieNodeWithSize) : Option (List UInt8) := do
  let body ← node.node.serialize
  pure (body ++ writeLE 8 node.memoryUsage)

section
attribute [local simp] RawTrieNodeWithSize.serialize
end

def RawTrieNodeWithSize.deserialize : Reader RawTrieNodeWithSize := do
  let node ← RawTrieNode.deserialize
  let memoryUsage ← readLE 8
  pure ⟨node, memoryUsage⟩

section
attribute [local simp] RawTrieNodeWithSize.deserialize
end

/-- `RawTrieNodeWithSize::try_from_slice`: the bytes must hold one node and nothing more. -/
def RawTrieNodeWithSize.tryFromSlice (bytes : List UInt8) : Option RawTrieNodeWithSize :=
  readAll RawTrieNodeWithSize.deserialize bytes

/-- The length of the key bytes a node holds, which borsh writes as a `u32`. -/
def RawTrieNode.keyLength : RawTrieNode → Nat
  | .leaf key _ => key.length
  | .extension key _ => key.length
  | _ => 0

/-! The fixed-width fields. -/

theorem deserializeHash_inverts : Inverts (fun hash => some (serializeHash hash)) deserializeHash :=
  readArray_inverts 32

theorem readU16_inverts :
    Inverts (fun x : UInt16 => some (writeLE 2 x.toNat)) (readUInt 2 UInt16.ofNat) :=
  readUInt_inverts 2 (fun x => x.toNat_lt) (fun _ => UInt16.ofNat_toNat)
    (fun n fits => by rw [UInt16.toNat_ofNat']; omega)

theorem readU32_inverts :
    Inverts (fun x : UInt32 => some (writeLE 4 x.toNat)) (readUInt 4 UInt32.ofNat) :=
  readUInt_inverts 4 (fun x => x.toNat_lt) (fun _ => UInt32.ofNat_toNat)
    (fun n fits => by rw [UInt32.toNat_ofNat']; omega)

theorem ValueRef.deserialize_inverts :
    Inverts (fun value : ValueRef => some value.serialize) ValueRef.deserialize where
  read_write := by
    intro value bytes rest written
    cases written
    rw [ValueRef.deserialize, ValueRef.serialize, List.append_assoc,
      readU32_inverts.run_bind rfl, deserializeHash_inverts.run_bind rfl, run_pure]
  write_read := by
    intro input value rest ran
    obtain ⟨length, lengthBytes, mid, lengthWritten, rfl, afterLength⟩ :=
      readU32_inverts.of_run_bind ran
    obtain ⟨hash, hashBytes, last, hashWritten, rfl, afterHash⟩ :=
      deserializeHash_inverts.of_run_bind afterLength
    obtain ⟨rfl, rfl⟩ := run_pure_eq_some.mp afterHash
    cases lengthWritten
    cases hashWritten
    exact ⟨_, rfl, by rw [ValueRef.serialize, List.append_assoc]⟩

/-! The children bitmap. -/

theorem toNat_foldl_bitmapStep (slots : List (Option CryptoHash)) (bitmap pos : UInt16) (k : Nat)
    (fits : k + slots.length ≤ 16) (below : bitmap.toNat < 2 ^ k)
    (power : pos.toNat = 2 ^ k % 2 ^ 16) :
    (slots.foldl bitmapStep (bitmap, pos)).1.toNat =
      bitmap.toNat + 2 ^ k * Bitmap.ofBools (slots.map Option.isSome) := by
  induction slots generalizing bitmap pos k with
  | nil => simp
  | cons child slots ih =>
    have inside : k < 16 := by simp at fits; omega
    have exact : pos.toNat = 2 ^ k :=
      power.trans (Nat.mod_eq_of_lt (Nat.pow_lt_pow_right (by norm_num) inside))
    -- setting bit `k` of a number below `2 ^ k` adds `2 ^ k`
    have marked : (if child.isSome then bitmap ||| pos else bitmap).toNat =
        bitmap.toNat + 2 ^ k * child.isSome.toNat := by
      cases child.isSome with
      | false => simp
      | true =>
        rw [if_pos rfl, UInt16.toNat_or, exact, Nat.or_comm, ← Nat.mul_one (2 ^ k),
          ← Nat.two_pow_add_eq_or_of_lt below 1]
        simp
        omega
    have shifted : (pos <<< 1).toNat = 2 ^ (k + 1) % 2 ^ 16 := by
      simp only [UInt16.toNat_shiftLeft, exact, UInt16.toNat_one, Nat.shiftLeft_eq]
      norm_num [Nat.pow_succ]
    have bounded : (if child.isSome then bitmap ||| pos else bitmap).toNat < 2 ^ (k + 1) := by
      rw [marked, Nat.pow_succ]
      cases child.isSome <;> simp <;> omega
    rw [List.foldl_cons, bitmapStep, ih _ _ (k + 1) (by simp at fits; omega) bounded shifted,
      marked, List.map_cons, Bitmap.ofBools_cons, Nat.bit_val, Nat.pow_succ]
    ring

theorem toNat_childrenBitmap (children : Vector (Option CryptoHash) 16) :
    (childrenBitmap children).toNat = Bitmap.ofBools (children.toList.map Option.isSome) := by
  have folded := toNat_foldl_bitmapStep children.toList 0 1 0 (by simp) (by simp) (by simp)
  rw [UInt16.toNat_zero, Nat.zero_add, Nat.pow_zero, Nat.one_mul] at folded
  exact folded

/-- The slots a bitmap marks present, lowest first. -/
def presentSlots (bitmap : UInt16) : List Bool := Bitmap.bitsOf 16 bitmap.toNat

section
attribute [local simp] presentSlots
end

theorem ofBools_presentSlots (bitmap : UInt16) :
    Bitmap.ofBools (presentSlots bitmap) = bitmap.toNat := by
  rw [presentSlots, Bitmap.ofBools_bitsOf, Nat.mod_eq_of_lt bitmap.toNat_lt]

@[simp] theorem length_presentSlots (bitmap : UInt16) : (presentSlots bitmap).length = 16 :=
  Bitmap.length_bitsOf 16 _

theorem presentSlots_childrenBitmap (children : Vector (Option CryptoHash) 16) :
    presentSlots (childrenBitmap children) = children.toList.map Option.isSome := by
  have decoded := Bitmap.bitsOf_ofBools (children.toList.map Option.isSome)
  rwa [List.length_map, Vector.length_toList, ← toNat_childrenBitmap] at decoded

theorem not_mem_presentSlots_zero : true ∉ presentSlots 0 :=
  (Bitmap.ofBools_eq_zero_iff _).mp ((ofBools_presentSlots 0).trans UInt16.toNat_zero)

theorem mem_presentSlots {bitmap : UInt16} (nonzero : ¬bitmap = 0) :
    true ∈ presentSlots bitmap := by
  by_contra unset
  have zero := (Bitmap.ofBools_eq_zero_iff _).mpr unset
  rw [ofBools_presentSlots] at zero
  exact absurd zero (Nat.pos_iff_ne_zero.mp (toNat_pos_of_ne_zero nonzero))

/-- `trailing_zeros` finds the first present slot. -/
theorem trailingZeros_eq_idxOf {bitmap : UInt16} (nonzero : ¬bitmap = 0) :
    Bitmap.trailingZeros 16 bitmap.toNat = (presentSlots bitmap).idxOf true := by
  conv_lhs => rw [← ofBools_presentSlots bitmap]
  exact Bitmap.trailingZeros_ofBools _ 16 (by simp) (mem_presentSlots nonzero)

/-- `bitmap &= bitmap - 1` clears the first present slot. -/
theorem presentSlots_and_sub_one {bitmap : UInt16} (nonzero : ¬bitmap = 0) :
    presentSlots (bitmap &&& (bitmap - 1)) =
      (presentSlots bitmap).set ((presentSlots bitmap).idxOf true) false := by
  have cleared : (bitmap &&& (bitmap - 1)).toNat =
      Bitmap.ofBools ((presentSlots bitmap).set ((presentSlots bitmap).idxOf true) false) := by
    rw [toNat_and_sub_one nonzero, ← ofBools_presentSlots bitmap, Bitmap.ofBools_and_sub_one]
  have decoded :=
    Bitmap.bitsOf_ofBools ((presentSlots bitmap).set ((presentSlots bitmap).idxOf true) false)
  rwa [List.length_set, length_presentSlots, ← cleared] at decoded

theorem count_presentSlots_and_sub_one {bitmap : UInt16} (nonzero : ¬bitmap = 0) :
    (presentSlots (bitmap &&& (bitmap - 1))).count true + 1 = (presentSlots bitmap).count true := by
  rw [presentSlots_and_sub_one nonzero]
  exact Bitmap.count_set_idxOf _ (mem_presentSlots nonzero)

/-- One turn of the loop fills the first present slot with the hash it reads. -/
theorem fill_presentSlots_step {bitmap : UInt16} (nonzero : ¬bitmap = 0)
    (slots : Vector (Option CryptoHash) 16) (hash : CryptoHash) (hashes : List CryptoHash) :
    Bitmap.fill (presentSlots (bitmap &&& (bitmap - 1))) hashes
        (slots.setIfInBounds (Bitmap.trailingZeros 16 bitmap.toNat) (some hash)).toList =
      Bitmap.fill (presentSlots bitmap) (hash :: hashes) slots.toList := by
  rw [presentSlots_and_sub_one nonzero, Vector.toList_setIfInBounds, trailingZeros_eq_idxOf nonzero,
    Bitmap.fill_set_first _ _ _ _ (mem_presentSlots nonzero) (by simp)]

/-! The children loop, in both directions. The induction follows the loop's recursion; the
present slots of the bitmap carry it. -/

theorem deserializeChildrenLoop_run (bitmap : UInt16) (slots : Vector (Option CryptoHash) 16)
    (hashes : List CryptoHash) (rest : List UInt8)
    (counted : hashes.length = (presentSlots bitmap).count true) :
    ∃ result, (deserializeChildrenLoop bitmap slots).run (hashes.flatMap serializeHash ++ rest) =
        some (result, rest) ∧
      result.toList = Bitmap.fill (presentSlots bitmap) hashes slots.toList := by
  induction bitmap, slots using deserializeChildrenLoop.induct generalizing hashes with
  | case1 slots =>
    have empty : hashes = [] :=
      List.eq_nil_of_length_eq_zero (counted.trans (List.count_eq_zero.mpr not_mem_presentSlots_zero))
    subst empty
    refine ⟨slots, ?_, (Bitmap.fill_of_not_mem _ _ _ not_mem_presentSlots_zero).symm⟩
    rw [deserializeChildrenLoop, dif_pos rfl]
    rfl
  | case2 bitmap slots nonzero idx ih =>
    cases hashes with
    | nil =>
      have := List.count_pos_iff.mpr (mem_presentSlots nonzero)
      simp at counted
      omega
    | cons hash hashes =>
      have remaining : hashes.length = (presentSlots (bitmap &&& (bitmap - 1))).count true := by
        have := count_presentSlots_and_sub_one nonzero
        simp at counted
        omega
      obtain ⟨result, ran, filled⟩ := ih hash hashes remaining
      refine ⟨result, ?_, by rw [filled, fill_presentSlots_step nonzero]⟩
      rw [deserializeChildrenLoop, dif_neg nonzero, List.flatMap_cons, List.append_assoc,
        deserializeHash_inverts.run_bind rfl]
      exact ran

theorem eq_of_deserializeChildrenLoop_run {bitmap : UInt16} {slots : Vector (Option CryptoHash) 16}
    {input rest : List UInt8} {result : Vector (Option CryptoHash) 16}
    (ran : (deserializeChildrenLoop bitmap slots).run input = some (result, rest)) :
    ∃ hashes : List CryptoHash, hashes.length = (presentSlots bitmap).count true ∧
      input = hashes.flatMap serializeHash ++ rest ∧
      result.toList = Bitmap.fill (presentSlots bitmap) hashes slots.toList := by
  induction bitmap, slots using deserializeChildrenLoop.induct generalizing input with
  | case1 slots =>
    rw [deserializeChildrenLoop, dif_pos rfl] at ran
    obtain ⟨rfl, rfl⟩ := run_pure_eq_some.mp ran
    exact ⟨[], (List.count_eq_zero.mpr not_mem_presentSlots_zero).symm, rfl,
      (Bitmap.fill_of_not_mem _ _ _ not_mem_presentSlots_zero).symm⟩
  | case2 bitmap slots nonzero idx =>
    -- the loop's `let idx` takes a binder of its own, so the hypothesis is named after it
    rename_i ih
    rw [deserializeChildrenLoop, dif_neg nonzero] at ran
    obtain ⟨hash, hashBytes, mid, written, rfl, afterHash⟩ := deserializeHash_inverts.of_run_bind ran
    cases written
    obtain ⟨hashes, counted, rfl, filled⟩ := ih hash afterHash
    refine ⟨hash :: hashes, ?_, by rw [List.flatMap_cons, List.append_assoc], ?_⟩
    · have := count_presentSlots_and_sub_one nonzero
      simp only [List.length_cons]
      omega
    · rw [filled, fill_presentSlots_step nonzero]

theorem deserializeChildren_inverts :
    Inverts (fun children => some (serializeChildren children)) deserializeChildren where
  read_write := by
    intro children bytes rest written
    cases written
    obtain ⟨result, ran, filled⟩ := deserializeChildrenLoop_run (childrenBitmap children)
      noChildren children.toList.reduceOption rest
      (by rw [presentSlots_childrenBitmap, Bitmap.count_map_isSome])
    have same : result = children := by
      apply Vector.toList_inj.mp
      have refilled := Bitmap.fill_isSome_reduceOption children.toList
      rw [Vector.length_toList] at refilled
      rw [filled, presentSlots_childrenBitmap, noChildren, Vector.toList_replicate, refilled]
    rw [deserializeChildren, serializeChildren, List.append_assoc, readU16_inverts.run_bind rfl,
      ran, same]
  write_read := by
    intro input result rest ran
    obtain ⟨bitmap, bitmapBytes, mid, written, rfl, loop⟩ := readU16_inverts.of_run_bind ran
    cases written
    obtain ⟨hashes, counted, rfl, filled⟩ := eq_of_deserializeChildrenLoop_run loop
    have empty : (noChildren : Vector (Option CryptoHash) 16).toList =
        List.replicate (presentSlots bitmap).length none := by
      rw [length_presentSlots, noChildren, Vector.toList_replicate]
    rw [empty] at filled
    have present : (childrenBitmap result).toNat = bitmap.toNat := by
      rw [toNat_childrenBitmap, filled, Bitmap.map_isSome_fill _ _ counted, ofBools_presentSlots]
    refine ⟨_, rfl, ?_⟩
    rw [serializeChildren, present, filled, Bitmap.reduceOption_fill _ _ counted, List.append_assoc]

/-! Nodes. -/

theorem RawTrieNode.deserialize_inverts :
    Inverts RawTrieNode.serialize RawTrieNode.deserialize where
  read_write := by
    intro node bytes rest written
    rw [RawTrieNode.deserialize]
    cases node with
    | leaf key value =>
      obtain ⟨keyBytes, keyWritten, packed⟩ := Option.bind_eq_some_iff.mp written
      cases packed
      rw [List.cons_append, List.cons_append, run_bind_of_run (run_readByte_cons _ _)]
      rw [show (0 : UInt8).toNat = 0 from rfl, deserializeFields, List.append_assoc,
        readLengthPrefixed_inverts.run_bind keyWritten, ValueRef.deserialize_inverts.run_bind rfl,
        run_pure]
    | branchNoValue children =>
      cases written
      rw [List.cons_append, run_bind_of_run (run_readByte_cons _ _)]
      rw [show (1 : UInt8).toNat = 1 from rfl, deserializeFields,
        deserializeChildren_inverts.run_bind rfl, run_pure]
    | branchWithValue value children =>
      cases written
      rw [List.cons_append, List.cons_append, run_bind_of_run (run_readByte_cons _ _)]
      rw [show (2 : UInt8).toNat = 2 from rfl, deserializeFields, List.append_assoc,
        ValueRef.deserialize_inverts.run_bind rfl, deserializeChildren_inverts.run_bind rfl,
        run_pure]
    | extension key child =>
      obtain ⟨keyBytes, keyWritten, packed⟩ := Option.bind_eq_some_iff.mp written
      cases packed
      rw [List.cons_append, List.cons_append, run_bind_of_run (run_readByte_cons _ _)]
      rw [show (3 : UInt8).toNat = 3 from rfl, deserializeFields, List.append_assoc,
        readLengthPrefixed_inverts.run_bind keyWritten, deserializeHash_inverts.run_bind rfl,
        run_pure]
  write_read := by
    intro input node rest ran
    obtain ⟨tag, tagBytes, mid, tagWritten, rfl, fields⟩ := readByte_inverts.of_run_bind ran
    cases tagWritten
    -- the variant index is the tag byte; any other byte is refused
    have tagIs : ∀ n : UInt8, tag.toNat = n.toNat → tag = n := fun _ same => UInt8.toNat_inj.mp same
    unfold deserializeFields at fields
    split at fields
    · next isLeaf =>
      obtain ⟨key, keyBytes, afterKey, keyWritten, rfl, afterKeyRun⟩ :=
        readLengthPrefixed_inverts.of_run_bind fields
      obtain ⟨value, valueBytes, last, valueWritten, rfl, finish⟩ :=
        ValueRef.deserialize_inverts.of_run_bind afterKeyRun
      obtain ⟨rfl, rfl⟩ := run_pure_eq_some.mp finish
      cases valueWritten
      obtain rfl := tagIs 0 isLeaf
      exact ⟨0 :: keyBytes ++ value.serialize, by rw [RawTrieNode.serialize, keyWritten]; rfl,
        by simp⟩
    · next isBranch =>
      obtain ⟨children, childrenBytes, last, childrenWritten, rfl, finish⟩ :=
        deserializeChildren_inverts.of_run_bind fields
      obtain ⟨rfl, rfl⟩ := run_pure_eq_some.mp finish
      cases childrenWritten
      refine ⟨_, rfl, ?_⟩
      obtain rfl := tagIs 1 isBranch
      rfl
    · next isBranchWithValue =>
      obtain ⟨value, valueBytes, afterValue, valueWritten, rfl, afterValueRun⟩ :=
        ValueRef.deserialize_inverts.of_run_bind fields
      obtain ⟨children, childrenBytes, last, childrenWritten, rfl, finish⟩ :=
        deserializeChildren_inverts.of_run_bind afterValueRun
      obtain ⟨rfl, rfl⟩ := run_pure_eq_some.mp finish
      cases valueWritten
      cases childrenWritten
      refine ⟨_, rfl, ?_⟩
      obtain rfl := tagIs 2 isBranchWithValue
      simp
    · next isExtension =>
      obtain ⟨key, keyBytes, afterKey, keyWritten, rfl, afterKeyRun⟩ :=
        readLengthPrefixed_inverts.of_run_bind fields
      obtain ⟨child, childBytes, last, childWritten, rfl, finish⟩ :=
        deserializeHash_inverts.of_run_bind afterKeyRun
      obtain ⟨rfl, rfl⟩ := run_pure_eq_some.mp finish
      cases childWritten
      obtain rfl := tagIs 3 isExtension
      exact ⟨3 :: keyBytes ++ serializeHash child, by rw [RawTrieNode.serialize, keyWritten]; rfl,
        by simp⟩
    · cases fields

theorem RawTrieNode.serialize_isSome (node : RawTrieNode) (fits : node.keyLength < 2 ^ 32) :
    ∃ bytes, node.serialize = some bytes := by
  cases node with
  | leaf key value =>
    exact ⟨_, by rw [RawTrieNode.serialize, writeLengthPrefixed, if_pos (show key.length < 2 ^ 32 from fits)]; rfl⟩
  | branchNoValue children => exact ⟨_, rfl⟩
  | branchWithValue value children => exact ⟨_, rfl⟩
  | extension key child =>
    exact ⟨_, by rw [RawTrieNode.serialize, writeLengthPrefixed, if_pos (show key.length < 2 ^ 32 from fits)]; rfl⟩

/-- A node whose memory usage is a `u64` is read back from its bytes, whatever follows. -/
theorem RawTrieNodeWithSize.deserialize_serialize {node : RawTrieNodeWithSize} {bytes : List UInt8}
    (fits : node.memoryUsage < 2 ^ 64) (written : node.serialize = some bytes) (rest : List UInt8) :
    RawTrieNodeWithSize.deserialize.run (bytes ++ rest) = some (node, rest) := by
  obtain ⟨body, bodyWritten, packed⟩ := Option.bind_eq_some_iff.mp written
  cases packed
  rw [RawTrieNodeWithSize.deserialize, List.append_assoc,
    RawTrieNode.deserialize_inverts.run_bind bodyWritten,
    run_bind_of_run (readLE_writeLE 8 _ (by omega) rest), run_pure]

theorem RawTrieNodeWithSize.serialize_of_deserialize {input rest : List UInt8}
    {node : RawTrieNodeWithSize}
    (ran : RawTrieNodeWithSize.deserialize.run input = some (node, rest)) :
    ∃ bytes, node.serialize = some bytes ∧ input = bytes ++ rest := by
  obtain ⟨body, bodyBytes, mid, bodyWritten, rfl, memoryUsage⟩ :=
    RawTrieNode.deserialize_inverts.of_run_bind ran
  rw [StateT.run_bind] at memoryUsage
  obtain ⟨⟨usage, last⟩, usageRead, finish⟩ := Option.bind_eq_some_iff.mp memoryUsage
  obtain ⟨rfl, rfl⟩ := run_pure_eq_some.mp finish
  obtain ⟨-, rfl⟩ := eq_writeLE_of_readLE usageRead
  exact ⟨bodyBytes ++ writeLE 8 usage, by rw [RawTrieNodeWithSize.serialize, bodyWritten]; rfl,
    by rw [List.append_assoc]⟩

/-- The borsh encoding of trie nodes is a bijection onto the bytes `try_from_slice` accepts:
every node (its key lengths within `u32`, its memory usage a `u64`) is written and read back,
and every byte string read as a node is that node's encoding, so the encoding, and with it
the node hash, is canonical. -/
theorem rawTrieNode_borsh_bijective :
    (∀ node : RawTrieNodeWithSize, node.memoryUsage < 2 ^ 64 → node.node.keyLength < 2 ^ 32 →
      ∃ bytes, node.serialize = some bytes ∧ RawTrieNodeWithSize.tryFromSlice bytes = some node) ∧
    (∀ (bytes : List UInt8) (node : RawTrieNodeWithSize),
      RawTrieNodeWithSize.tryFromSlice bytes = some node → node.serialize = some bytes) := by
  constructor
  · intro node usageFits keyFits
    obtain ⟨body, bodyWritten⟩ := node.node.serialize_isSome keyFits
    have written : node.serialize = some (body ++ writeLE 8 node.memoryUsage) := by
      simp [RawTrieNodeWithSize.serialize, bodyWritten]
    refine ⟨_, written, readAll_eq_some_iff.mpr ?_⟩
    have ran := RawTrieNodeWithSize.deserialize_serialize usageFits written []
    rwa [List.append_nil] at ran
  · intro bytes node accepted
    obtain ⟨written, encoded, split⟩ :=
      RawTrieNodeWithSize.serialize_of_deserialize (readAll_eq_some_iff.mp accepted)
    rw [split, List.append_nil]
    exact encoded

/-- A leaf with a two-byte key. -/
def sampleLeaf : RawTrieNodeWithSize := ⟨.leaf [1, 2] ⟨3, Vector.replicate 32 0⟩, 5⟩

theorem rawTrieNode_borsh_bijective_leaf :
    ∃ bytes, sampleLeaf.serialize = some bytes ∧
      RawTrieNodeWithSize.tryFromSlice bytes = some sampleLeaf :=
  rawTrieNode_borsh_bijective.1 sampleLeaf (by decide) (by decide)

end Nearcore
