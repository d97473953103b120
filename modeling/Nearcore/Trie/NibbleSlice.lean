import Nearcore.Library.ListPrefix

/-! Nibble views of byte slices and the hex-prefix encoding of node paths
(`core/store/src/trie/nibble_slice.rs`). A slice is its bytes and a nibble offset, as in
the source; `nibbles` is the sequence it denotes, and every operation the trie code uses
is related to that sequence by one lemma. -/
namespace Nearcore

abbrev Nibble := Fin 16

def highNibble (b : UInt8) : Nibble := ⟨b.toNat / 16, by have := b.toNat_lt; omega⟩

section
attribute [local simp] highNibble
end

def lowNibble (b : UInt8) : Nibble := ⟨b.toNat % 16, Nat.mod_lt _ (by decide)⟩

section
attribute [local simp] lowNibble
end

def bytesToNibbles (data : List UInt8) : List Nibble :=
  data.flatMap fun b => [highNibble b, lowNibble b]

section
attribute [local simp] bytesToNibbles
end

@[simp] theorem bytesToNibbles_nil : bytesToNibbles [] = [] := rfl

@[simp] theorem bytesToNibbles_cons (b : UInt8) (data : List UInt8) :
    bytesToNibbles (b :: data) = highNibble b :: lowNibble b :: bytesToNibbles data := rfl

@[simp] theorem length_bytesToNibbles (data : List UInt8) :
    (bytesToNibbles data).length = 2 * data.length := by
  induction data with
  | nil => rfl
  | cons b data ih => simp [ih]; omega

theorem drop_two_mul_bytesToNibbles (data : List UInt8) (k : Nat) :
    (bytesToNibbles data).drop (2 * k) = bytesToNibbles (data.drop k) := by
  induction data generalizing k with
  | nil => simp
  | cons b data ih =>
    cases k with
    | zero => simp
    | succ k =>
      have shift : 2 * (k + 1) = 2 * k + 2 := by ring
      rw [shift, bytesToNibbles_cons, List.drop_succ_cons, List.drop_succ_cons, ih]
      simp

/-- The nibble at position `j` is the high or low half of byte `j / 2`. -/
theorem getElem_bytesToNibbles (data : List UInt8) (j : Nat)
    (bound : j < (bytesToNibbles data).length) (half : j / 2 < data.length) :
    (bytesToNibbles data)[j] = if j % 2 = 1 then lowNibble data[j / 2] else highNibble data[j / 2] := by
  induction data generalizing j with
  | nil => simp at half
  | cons b data ih =>
    match j with
    | 0 => simp
    | 1 => simp
    | j + 2 =>
      have inner : j < (bytesToNibbles data).length := by simp at bound ⊢; omega
      have innerHalf : j / 2 < data.length := by simp at half; omega
      have shift : (j + 2) / 2 = j / 2 + 1 := by omega
      have parity : (j + 2) % 2 = j % 2 := by omega
      simp only [bytesToNibbles_cons, List.getElem_cons_succ, ih j inner innerHalf, shift, parity]

/-- The two masks `at` applies to a byte. -/
theorem toNat_shiftRight_four_and (b : UInt8) : ((b >>> 4) &&& 15).toNat = b.toNat / 16 := by
  have four : (4 : UInt8).toNat % 8 = 4 := rfl
  have fifteen : (15 : UInt8).toNat = 15 := rfl
  rw [UInt8.toNat_and, UInt8.toNat_shiftRight, four, fifteen,
    Nat.and_two_pow_sub_one_eq_mod _ 4, Nat.shiftRight_eq_div_pow]
  have := b.toNat_lt
  omega

theorem toNat_shiftRight_zero_and (b : UInt8) : ((b >>> 0) &&& 15).toNat = b.toNat % 16 := by
  have zero : (0 : UInt8).toNat % 8 = 0 := rfl
  have fifteen : (15 : UInt8).toNat = 15 := rfl
  rw [UInt8.toNat_and, UInt8.toNat_shiftRight, zero, fifteen, Nat.shiftRight_zero,
    Nat.and_two_pow_sub_one_eq_mod _ 4]

/-! Packing nibble pairs back into bytes. -/

def packNibbles : List Nibble → List UInt8
  | high :: low :: rest => UInt8.ofNat (high.val * 16 + low.val) :: packNibbles rest
  | [high] => [UInt8.ofNat (high.val * 16)]
  | [] => []

section
attribute [local simp] packNibbles
end

theorem ofNat_high_low (b : UInt8) :
    UInt8.ofNat ((highNibble b).val * 16 + (lowNibble b).val) = b := by
  have split : b.toNat / 16 * 16 + b.toNat % 16 = b.toNat := by omega
  simp only [highNibble, lowNibble, split, UInt8.ofNat_toNat]

@[simp] theorem packNibbles_bytesToNibbles (data : List UInt8) :
    packNibbles (bytesToNibbles data) = data := by
  induction data with
  | nil => rfl
  | cons b data ih => simp only [bytesToNibbles_cons, packNibbles, ofNat_high_low, ih]

theorem toNat_ofNat_pair (high low : Nibble) :
    (UInt8.ofNat (high.val * 16 + low.val)).toNat = high.val * 16 + low.val := by
  simp only [UInt8.toNat_ofNat']
  omega

theorem highNibble_ofNat (high low : Nibble) :
    highNibble (UInt8.ofNat (high.val * 16 + low.val)) = high := by
  ext
  simp only [highNibble, toNat_ofNat_pair]
  omega

theorem lowNibble_ofNat (high low : Nibble) :
    lowNibble (UInt8.ofNat (high.val * 16 + low.val)) = low := by
  ext
  simp only [lowNibble, toNat_ofNat_pair]
  omega

theorem bytesToNibbles_packNibbles (nibbles : List Nibble) (even : nibbles.length % 2 = 0) :
    bytesToNibbles (packNibbles nibbles) = nibbles := by
  induction nibbles using packNibbles.induct with
  | case1 high low rest ih =>
    have restEven : rest.length % 2 = 0 := by simp at even; omega
    simp only [packNibbles, bytesToNibbles_cons, highNibble_ofNat, lowNibble_ofNat, ih restEven]
  | case2 high => simp at even
  | case3 => rfl

theorem length_packNibbles (nibbles : List Nibble) (even : nibbles.length % 2 = 0) :
    (packNibbles nibbles).length = nibbles.length / 2 := by
  have := congrArg List.length (bytesToNibbles_packNibbles nibbles even)
  simp only [length_bytesToNibbles] at this
  omega

/-- The hex-prefix encoding of a nibble path: a flag byte that carries the parity, the
odd first nibble and the leaf bit, then the remaining nibbles packed in pairs. -/
def hexPrefix (path : List Nibble) (isLeaf : Bool) : List UInt8 :=
  let leafBit : Nat := if isLeaf then 32 else 0
  match path.length % 2, path with
  | 1, first :: rest => UInt8.ofNat (16 + first.val + leafBit) :: packNibbles rest
  | _, path => UInt8.ofNat leafBit :: packNibbles path

section
attribute [local simp] hexPrefix
end

theorem hexPrefix_odd (first : Nibble) (rest : List Nibble) (isLeaf : Bool)
    (odd : rest.length % 2 = 0) :
    hexPrefix (first :: rest) isLeaf =
      UInt8.ofNat (16 + first.val + if isLeaf then 32 else 0) :: packNibbles rest := by
  have parity : (first :: rest).length % 2 = 1 := by simp; omega
  simp only [hexPrefix, parity]

theorem hexPrefix_even (path : List Nibble) (isLeaf : Bool) (even : path.length % 2 = 0) :
    hexPrefix path isLeaf = UInt8.ofNat (if isLeaf then 32 else 0) :: packNibbles path := by
  simp only [hexPrefix, even]

theorem length_hexPrefix (path : List Nibble) (isLeaf : Bool) :
    (hexPrefix path isLeaf).length = 1 + path.length / 2 := by
  rcases Nat.mod_two_eq_zero_or_one path.length with even | odd
  · rw [hexPrefix_even path isLeaf even, List.length_cons, length_packNibbles path even]
    omega
  · cases path with
    | nil => simp at odd
    | cons first rest =>
      have restEven : rest.length % 2 = 0 := by simp at odd; omega
      rw [hexPrefix_odd first rest isLeaf restEven, List.length_cons,
        length_packNibbles rest restEven]
      simp
      omega

/-! The slice itself. -/

/-- A view of `data` from nibble `offset` on. -/
structure NibbleSlice where
  data : List UInt8
  offset : Nat

namespace NibbleSlice

def newOffset (data : List UInt8) (offset : Nat) : NibbleSlice := ⟨data, offset⟩

section
attribute [local simp] newOffset
end

def new (data : List UInt8) : NibbleSlice := newOffset data 0

section
attribute [local simp] new
end

/-- The nibbles the slice denotes. -/
def nibbles (s : NibbleSlice) : List Nibble := (bytesToNibbles s.data).drop s.offset

section
attribute [local simp] nibbles
end

def len (s : NibbleSlice) : Nat := s.data.length * 2 - s.offset

section
attribute [local simp] len
end

def isEmpty (s : NibbleSlice) : Bool := s.len == 0

section
attribute [local simp] isEmpty
end

/-- `at` of the source. An index past the data panics there and reads byte `0` here. -/
def nibbleAt (s : NibbleSlice) (i : Nat) : UInt8 :=
  let shift : UInt8 := if (s.offset + i) &&& 1 = 1 then 0 else 4
  (s.data.getD ((s.offset + i) / 2) 0 >>> shift) &&& 15

section
attribute [local simp] nibbleAt
end

def mid (s : NibbleSlice) (i : Nat) : NibbleSlice := ⟨s.data, s.offset + i⟩

section
attribute [local simp] mid
end

/-- Whether `at(i)` reads inside the data: the source's indexing panics where it does not. -/
def readsInside (s : NibbleSlice) (i : Nat) : Bool := (s.offset + i) / 2 < s.data.length

/-- `iter().collect()`: the nibbles `at(0), …, at(len - 1)`, one to a byte. -/
def iter (s : NibbleSlice) : List UInt8 := (List.range s.len).map s.nibbleAt

section
attribute [local simp] iter
end

/-- The loop of `common_prefix`: the first index below both lengths where the slices
differ, or that bound. -/
def commonPrefix (s them : NibbleSlice) : Nat :=
  let bound := min s.len them.len
  ((List.range bound).find? fun i => s.nibbleAt i != them.nibbleAt i).getD bound

section
attribute [local simp] commonPrefix
end

def startsWith (s them : NibbleSlice) : Bool := s.commonPrefix them == them.len

section
attribute [local simp] startsWith
end

/-- `PartialEq`: same length, and one starts with the other. -/
instance : BEq NibbleSlice := ⟨fun s them => s.len == them.len && s.startsWith them⟩

/-- `from_encoded`: the flag byte's bit 4 says whether the path has an odd first nibble
in its low half; bit 5 is the leaf flag. Empty data panics in the source and reads as
byte `0` here. -/
def fromEncoded (data : List UInt8) : NibbleSlice × Bool :=
  let first := data.headD 0
  (newOffset data (if first &&& 16 = 16 then 1 else 2), first &&& 32 = 32)

section
attribute [local simp] fromEncoded
end

/-- `while i < l { r.push(pair(i)); i += 2 }`, the packing loop of the encoders. -/
def pairsFrom (pair : Nat → UInt8) (i l : Nat) : List UInt8 :=
  if i < l then pair i :: pairsFrom pair (i + 2) l else []
termination_by l - i

section
attribute [local simp] pairsFrom
end

/-- `encode_nibbles`, over nibbles given one to a byte. The loop reads `nibbles[i + 1]` only
while `i < l` with `l - i` even, so the default of `getD` is never read. -/
def encodeNibbles (nibbles : List UInt8) (isLeaf : Bool) : List UInt8 :=
  let l := nibbles.length
  let i := l % 2
  let firstByte : UInt8 :=
    (if i = 1 then 16 + nibbles.getD 0 0 else 0) + (if isLeaf then 32 else 0)
  firstByte :: pairsFrom (fun i => nibbles.getD i 0 * 16 + nibbles.getD (i + 1) 0) i l

section
attribute [local simp] encodeNibbles
end

def encoded (s : NibbleSlice) (isLeaf : Bool) : List UInt8 :=
  let l := s.len
  let parity := l % 2
  let firstByte : UInt8 := if parity = 1 then 16 + s.nibbleAt 0 else 0
  let firstByte := if isLeaf then firstByte ||| 32 else firstByte
  let fromByte := (s.offset + parity) / 2
  firstByte :: s.data.drop fromByte

section
attribute [local simp] encoded
end

/-- `encode_to`: the bytes of `encoded`, pushed into `to` once `clear` (`truncate(0)`) has
emptied it. -/
def encodeTo (s : NibbleSlice) (isLeaf : Bool) (target : List UInt8) : List UInt8 :=
  let l := s.len
  let parity := l % 2
  let firstByte : UInt8 := if parity = 1 then 16 + s.nibbleAt 0 else 0
  let firstByte := if isLeaf then firstByte ||| 32 else firstByte
  let target := (target.take 0).concat firstByte
  let fromByte := (s.offset + parity) / 2
  target ++ s.data.drop fromByte

section
attribute [local simp] encodeTo
end

def encodedLeftmost (s : NibbleSlice) (n : Nat) (isLeaf : Bool) : List UInt8 :=
  let l := min s.len n
  let i := l % 2
  let firstByte : UInt8 :=
    (if i = 1 then 16 + s.nibbleAt 0 else 0) + (if isLeaf then 32 else 0)
  firstByte :: pairsFrom (fun i => s.nibbleAt i * 16 + s.nibbleAt (i + 1)) i l

section
attribute [local simp] encodedLeftmost
end

/-- `while i < l { to[i / 2 + 1] = pair(i); i += 2 }`, the loop of `encode_leftmost_to`,
which writes the pairs in place. -/
def setPairsFrom (pair : Nat → UInt8) (i l : Nat) (target : List UInt8) : List UInt8 :=
  if i < l then setPairsFrom pair (i + 2) l (target.set (i / 2 + 1) (pair i)) else target
termination_by l - i

/-- `encode_leftmost_to`: `resize` truncates `to` or pads it with `0` to the encoding's
length, and each byte is then written at its index. -/
def encodeLeftmostTo (s : NibbleSlice) (n : Nat) (isLeaf : Bool) (target : List UInt8) :
    List UInt8 :=
  let l := min s.len n
  let target := (target.take (1 + l / 2)).rightpad (1 + l / 2) 0
  let i := l % 2
  let target := target.set 0 ((if i = 1 then 16 + s.nibbleAt 0 else 0) + (if isLeaf then 32 else 0))
  setPairsFrom (fun i => s.nibbleAt i * 16 + s.nibbleAt (i + 1)) i l target

section
attribute [local simp] encodeLeftmostTo
end

def mergeEncoded (s other : NibbleSlice) (isLeaf : Bool) : List UInt8 :=
  let l := s.len + other.len
  let i := l % 2
  let firstByte : UInt8 :=
    (if i = 1 then 16 + s.nibbleAt 0 else 0) + (if isLeaf then 32 else 0)
  let pair := fun i =>
    let bit1 := if i < s.len then s.nibbleAt i else other.nibbleAt (i - s.len)
    let bit2 :=
      if i + 1 < l then
        if i + 1 < s.len then s.nibbleAt (i + 1) else other.nibbleAt (i + 1 - s.len)
      else 0
    bit1 * 16 + bit2
  firstByte :: pairsFrom pair i l

section
attribute [local simp] mergeEncoded
end

/-! Every operation in terms of `nibbles`. -/

@[simp] theorem nibbles_new (data : List UInt8) : (new data).nibbles = bytesToNibbles data := by
  simp [new, newOffset, nibbles]

@[simp] theorem len_eq (s : NibbleSlice) : s.len = s.nibbles.length := by
  simp [len, nibbles]; omega

@[simp] theorem nibbles_mid (s : NibbleSlice) (i : Nat) : (s.mid i).nibbles = s.nibbles.drop i := by
  simp [mid, nibbles, Nat.add_comm]

theorem isEmpty_iff (s : NibbleSlice) : s.isEmpty = true ↔ s.nibbles = [] := by
  simp [isEmpty]

theorem toNat_nibbleAt (s : NibbleSlice) (i : Nat) (inRange : i < s.nibbles.length) :
    (s.nibbleAt i).toNat = s.nibbles[i].val := by
  have bound : s.offset + i < 2 * s.data.length := by
    simp [nibbles] at inRange; omega
  have half : (s.offset + i) / 2 < s.data.length := by omega
  have spec := getElem_bytesToNibbles s.data (s.offset + i) (by simp; omega) half
  have byteAt : s.data.getD ((s.offset + i) / 2) 0 = s.data[(s.offset + i) / 2] := by
    simp [List.getD_eq_getElem?_getD, List.getElem?_eq_getElem (show (s.offset + i) / 2 < s.data.length by omega)]
  simp only [nibbles, List.getElem_drop, spec, nibbleAt, byteAt, Nat.and_one_is_mod]
  split
  · simp only [toNat_shiftRight_zero_and, lowNibble]
  · simp only [toNat_shiftRight_four_and, highNibble]

theorem toNat_nibbleAt_lt (s : NibbleSlice) (i : Nat) : (s.nibbleAt i).toNat < 16 := by
  simp only [nibbleAt]
  split
  · rw [toNat_shiftRight_zero_and]; omega
  · rw [toNat_shiftRight_four_and]; have := (s.data.getD ((s.offset + i) / 2) 0).toNat_lt; omega

/-- `at(i) as usize`: a nibble used as an index into a branch's children. -/
def atIndex (s : NibbleSlice) (i : Nat) : Fin 16 := ⟨(s.nibbleAt i).toNat, s.toNat_nibbleAt_lt i⟩

section
attribute [local simp] atIndex
end

/-- A child index is in bounds of a branch's sixteen slots: `Fin.isLt` with the index as its one
argument, the proof a write into a slot carries. -/
theorem index_lt (index : Fin 16) : index.val < 16 := index.isLt

theorem atIndex_eq (s : NibbleSlice) (i : Nat) (inRange : i < s.nibbles.length) :
    s.atIndex i = s.nibbles[i] := by
  ext
  exact toNat_nibbleAt s i inRange

theorem nibbleAt_eq_iff (s t : NibbleSlice) (i j : Nat) (left : i < s.nibbles.length)
    (right : j < t.nibbles.length) :
    s.nibbleAt i = t.nibbleAt j ↔ s.nibbles[i] = t.nibbles[j] := by
  rw [← UInt8.toNat_inj, toNat_nibbleAt s i left, toNat_nibbleAt t j right, Fin.val_inj]

theorem commonPrefix_eq (s them : NibbleSlice) :
    s.commonPrefix them = List.commonPrefixLength s.nibbles them.nibbles := by
  rw [List.commonPrefixLength_eq_find, commonPrefix, len_eq, len_eq]
  congr 1
  apply List.find?_congr
  intro i member
  have bound := List.mem_range.mp member
  have left : i < s.nibbles.length := by omega
  have right : i < them.nibbles.length := by omega
  rw [List.getElem?_eq_getElem left, List.getElem?_eq_getElem right, Bool.eq_iff_iff,
    bne_iff_ne, bne_iff_ne, ne_eq, ne_eq, Option.some.injEq, nibbleAt_eq_iff s them i i left right]

theorem startsWith_iff (s them : NibbleSlice) :
    s.startsWith them = true ↔ them.nibbles <+: s.nibbles := by
  rw [startsWith, beq_iff_eq, commonPrefix_eq, len_eq, List.commonPrefixLength_eq_length_iff]

theorem beq_iff (s them : NibbleSlice) : (s == them) = true ↔ s.nibbles = them.nibbles := by
  change (s.len == them.len && s.startsWith them) = true ↔ _
  rw [Bool.and_eq_true, beq_iff_eq, startsWith_iff, len_eq, len_eq]
  constructor
  · rintro ⟨sameLength, isPrefix⟩
    exact (isPrefix.eq_of_length sameLength.symm).symm
  · intro same
    rw [same]
    exact ⟨rfl, List.prefix_refl _⟩

/-! The encoders produce `hexPrefix`, and `fromEncoded` inverts it. -/

/-- The flag byte the encoders write, in the arithmetic of `u8`. -/
theorem flagByte_eq (x : UInt8) (isLeaf : Bool) :
    (16 + x) + (if isLeaf then 32 else 0) =
      UInt8.ofNat (16 + x.toNat + if isLeaf then 32 else 0) := by
  rw [← UInt8.toNat_inj]
  cases isLeaf <;> simp [UInt8.toNat_add]

/-- `encoded` sets the leaf bit with `|=`, which adds it to a byte below `32`. -/
theorem orLeafBit_eq (y : UInt8) (small : y.toNat < 32) (isLeaf : Bool) :
    (if isLeaf then y ||| 32 else y) = y + (if isLeaf then 32 else 0) := by
  cases isLeaf with
  | false => simp
  | true =>
    rw [← UInt8.toNat_inj]
    simp only [if_true, UInt8.toNat_or, UInt8.toNat_add]
    generalize y.toNat = n at small ⊢
    interval_cases n <;> rfl

theorem evenFlagByte_eq (isLeaf : Bool) :
    (0 : UInt8) + (if isLeaf then 32 else 0) = UInt8.ofNat (if isLeaf then 32 else 0) := by
  cases isLeaf <;> rfl

theorem pairByte_eq (a b : UInt8) (high low : Nibble) (isHigh : a.toNat = high.val)
    (isLow : b.toNat = low.val) : a * 16 + b = UInt8.ofNat (high.val * 16 + low.val) := by
  rw [← UInt8.toNat_inj]
  have := high.isLt
  have := low.isLt
  simp [UInt8.toNat_add, UInt8.toNat_mul, isHigh, isLow]

theorem pairsFrom_of_lt (pair : Nat → UInt8) {i l : Nat} (below : i < l) :
    pairsFrom pair i l = pair i :: pairsFrom pair (i + 2) l := by
  rw [pairsFrom, if_pos below]

theorem pairsFrom_of_le (pair : Nat → UInt8) {i l : Nat} (above : l ≤ i) :
    pairsFrom pair i l = [] := by
  rw [pairsFrom, if_neg (by omega)]

/-- The packing loop packs the nibbles between `i` and `l`. -/
theorem pairsFrom_eq_pack (ns : List Nibble) (pair : Nat → UInt8) (i l : Nat)
    (even : (l - i) % 2 = 0) (le : l ≤ ns.length)
    (pairAt : ∀ j (inside : j + 1 < l), i ≤ j →
      pair j = UInt8.ofNat (ns[j].val * 16 + ns[j + 1].val)) :
    pairsFrom pair i l = packNibbles ((ns.take l).drop i) := by
  fun_induction pairsFrom pair i l with
  | case1 i below ih =>
    have next : i + 1 < l := by omega
    have lenTake : (ns.take l).length = l := by simp; omega
    rw [List.drop_eq_getElem_cons (by omega), List.drop_eq_getElem_cons (by omega)]
    simp only [packNibbles, List.getElem_take]
    rw [pairAt i next (le_refl i), ih (by omega) (fun j inside above => pairAt j inside (by omega))]
  | case2 i above =>
    have empty : (ns.take l).drop i = [] := by
      apply List.drop_eq_nil_of_le
      simp; omega
    rw [empty, packNibbles]

theorem take_min_len (s : NibbleSlice) (n : Nat) :
    s.nibbles.take (min s.len n) = s.nibbles.take n := by
  rw [len_eq]
  rcases le_total s.nibbles.length n with short | long
  · rw [Nat.min_eq_left short, List.take_of_length_le (le_refl _), List.take_of_length_le short]
  · rw [Nat.min_eq_right long]

theorem encodedLeftmost_eq (s : NibbleSlice) (n : Nat) (isLeaf : Bool) :
    s.encodedLeftmost n isLeaf = hexPrefix (s.nibbles.take n) isLeaf := by
  have lenTake : (s.nibbles.take n).length = min s.len n := by simp; omega
  have pairs : ∀ i, (min s.len n - i) % 2 = 0 →
      pairsFrom (fun i => s.nibbleAt i * 16 + s.nibbleAt (i + 1)) i (min s.len n) =
        packNibbles ((s.nibbles.take n).drop i) := by
    intro i even
    rw [pairsFrom_eq_pack s.nibbles _ i _ even (by simp), take_min_len]
    intro j inside _
    exact pairByte_eq _ _ _ _ (toNat_nibbleAt s j (by simp at inside; omega))
      (toNat_nibbleAt s (j + 1) (by simp at inside; omega))
  rcases Nat.mod_two_eq_zero_or_one (min s.len n) with even | odd
  · rw [hexPrefix_even _ isLeaf (by omega), encodedLeftmost]
    simp only [even, Nat.zero_ne_one, if_false, evenFlagByte_eq]
    rw [pairs 0 (by omega), List.drop_zero]
  · have nonempty : 0 < (s.nibbles.take n).length := by omega
    obtain ⟨first, rest, split⟩ := List.exists_cons_of_length_pos nonempty
    have restEven : rest.length % 2 = 0 := by
      have := congrArg List.length split
      rw [lenTake, List.length_cons] at this
      omega
    have firstIs : (s.nibbleAt 0).toNat = first.val := by
      have atZero : (s.nibbles.take n)[0] = first := by simp [split]
      rw [toNat_nibbleAt s 0 (by simp at nonempty; omega), ← atZero, List.getElem_take]
    rw [split, hexPrefix_odd first rest isLeaf restEven, encodedLeftmost]
    simp only [odd, if_true, flagByte_eq, firstIs]
    rw [pairs 1 (by omega), split, List.drop_one, List.tail_cons]

theorem encoded_eq (s : NibbleSlice) (isLeaf : Bool) :
    s.encoded isLeaf = hexPrefix s.nibbles isLeaf := by
  by_cases inside : s.offset < 2 * s.data.length
  · rcases Nat.mod_two_eq_zero_or_one s.offset with even | odd
    · obtain ⟨k, split⟩ : ∃ k, s.offset = 2 * k := ⟨s.offset / 2, by omega⟩
      have nibblesIs : s.nibbles = bytesToNibbles (s.data.drop k) := by
        rw [nibbles, split, drop_two_mul_bytesToNibbles]
      have parity : s.len % 2 = 0 := by simp only [len]; omega
      have evenLength : (bytesToNibbles (s.data.drop k)).length % 2 = 0 := by simp
      rw [nibblesIs, hexPrefix_even _ isLeaf evenLength, packNibbles_bytesToNibbles, encoded]
      simp only [parity, Nat.zero_ne_one, if_false, Nat.add_zero, split,
        orLeafBit_eq 0 (by decide), evenFlagByte_eq]
      congr 2
      omega
    · obtain ⟨k, split⟩ : ∃ k, s.offset = 2 * k + 1 := ⟨s.offset / 2, by omega⟩
      have below : k < s.data.length := by omega
      have twoK : (bytesToNibbles s.data).drop (2 * k) = highNibble s.data[k] ::
          lowNibble s.data[k] :: bytesToNibbles (s.data.drop (k + 1)) := by
        rw [drop_two_mul_bytesToNibbles, List.drop_eq_getElem_cons below, bytesToNibbles_cons]
      have nibblesIs : s.nibbles =
          lowNibble s.data[k] :: bytesToNibbles (s.data.drop (k + 1)) := by
        rw [nibbles, split, ← List.drop_drop, twoK]
        rfl
      have parity : s.len % 2 = 1 := by simp only [len]; omega
      have firstIs : (s.nibbleAt 0).toNat = (lowNibble s.data[k]).val := by
        have nonempty : 0 < s.nibbles.length := by rw [nibblesIs]; simp
        rw [toNat_nibbleAt s 0 nonempty]
        simp [nibblesIs]
      rw [nibblesIs, hexPrefix_odd _ _ isLeaf (by simp), packNibbles_bytesToNibbles, encoded]
      have small : (16 + s.nibbleAt 0).toNat < 32 := by
        have := toNat_nibbleAt_lt s 0
        simp [UInt8.toNat_add]
        omega
      simp only [parity, if_true, orLeafBit_eq _ small, flagByte_eq, firstIs, split]
      congr 2
      omega
  · have noNibbles : s.nibbles = [] := by
      simp only [nibbles]
      apply List.drop_eq_nil_of_le
      simp; omega
    have parity : s.len % 2 = 0 := by simp only [len]; omega
    have noBytes : s.data.drop ((s.offset + 0) / 2) = [] := by
      apply List.drop_eq_nil_of_le
      omega
    rw [noNibbles, hexPrefix_even [] isLeaf rfl, encoded]
    simp only [parity, Nat.zero_ne_one, if_false, noBytes, orLeafBit_eq 0 (by decide),
      evenFlagByte_eq, packNibbles]

/-- Position `j` of two slices read one after the other, as `merge_encoded` reads it. -/
theorem toNat_concatAt (s other : NibbleSlice) (j : Nat)
    (inside : j < (s.nibbles ++ other.nibbles).length) :
    (if j < s.len then s.nibbleAt j else other.nibbleAt (j - s.len)).toNat =
      (s.nibbles ++ other.nibbles)[j].val := by
  split
  · next left =>
    rw [List.getElem_append_left (by simpa using left)]
    exact toNat_nibbleAt s j (by simpa using left)
  · next right =>
    have leftLength := len_eq s
    have rightLength := len_eq other
    have total : (s.nibbles ++ other.nibbles).length = s.nibbles.length + other.nibbles.length :=
      List.length_append
    rw [List.getElem_append_right (by omega)]
    rw [toNat_nibbleAt other (j - s.len) (by omega)]
    simp only [leftLength]

theorem mergeEncoded_eq (s other : NibbleSlice) (isLeaf : Bool)
    (firstFromLeft : 0 < s.len ∨ (s.len + other.len) % 2 = 0) :
    s.mergeEncoded other isLeaf = hexPrefix (s.nibbles ++ other.nibbles) isLeaf := by
  have lenAll : (s.nibbles ++ other.nibbles).length = s.len + other.len := by simp
  have pairs : ∀ i, (s.len + other.len - i) % 2 = 0 → i ≤ s.len + other.len →
      pairsFrom (fun i =>
        (if i < s.len then s.nibbleAt i else other.nibbleAt (i - s.len)) * 16 +
          (if i + 1 < s.len + other.len then
            (if i + 1 < s.len then s.nibbleAt (i + 1) else other.nibbleAt (i + 1 - s.len))
          else 0)) i (s.len + other.len) =
        packNibbles ((s.nibbles ++ other.nibbles).drop i) := by
    intro i even _
    rw [pairsFrom_eq_pack (s.nibbles ++ other.nibbles) _ i _ even (by simp),
      List.take_of_length_le (by simp)]
    intro j inside _
    simp only [inside, if_true]
    exact pairByte_eq _ _ _ _ (toNat_concatAt s other j (by omega))
      (toNat_concatAt s other (j + 1) (by omega))
  rcases Nat.mod_two_eq_zero_or_one (s.len + other.len) with even | odd
  · rw [hexPrefix_even _ isLeaf (by omega), mergeEncoded]
    simp only [even, Nat.zero_ne_one, if_false, evenFlagByte_eq]
    rw [pairs 0 (by omega) (by omega), List.drop_zero]
  · have nonempty : 0 < s.nibbles.length := by
      rcases firstFromLeft with left | even
      · simpa using left
      · omega
    obtain ⟨first, rest, split⟩ := List.exists_cons_of_length_pos nonempty
    have restEven : (rest ++ other.nibbles).length % 2 = 0 := by
      have := congrArg List.length split
      rw [len_eq, len_eq] at odd
      simp only [List.length_cons] at this
      simp only [List.length_append]
      omega
    have firstIs : (s.nibbleAt 0).toNat = first.val := by
      rw [toNat_nibbleAt s 0 nonempty]
      simp [split]
    have merged : s.nibbles ++ other.nibbles = first :: (rest ++ other.nibbles) := by
      rw [split, List.cons_append]
    rw [merged, hexPrefix_odd first _ isLeaf restEven, mergeEncoded]
    simp only [odd, if_true, flagByte_eq, firstIs]
    rw [pairs 1 (by omega) (by omega), merged, List.drop_one, List.tail_cons]

theorem fromEncoded_hexPrefix (path : List Nibble) (isLeaf : Bool) :
    (fromEncoded (hexPrefix path isLeaf)).1.nibbles = path ∧
      (fromEncoded (hexPrefix path isLeaf)).2 = isLeaf := by
  rcases Nat.mod_two_eq_zero_or_one path.length with even | odd
  · rw [hexPrefix_even path isLeaf even]
    have flags : (UInt8.ofNat (if isLeaf then 32 else 0) &&& 16 = 16) = False ∧
        ((UInt8.ofNat (if isLeaf then 32 else 0) &&& 32 = 32) ↔ isLeaf = true) := by
      cases isLeaf <;> decide
    simp only [fromEncoded, newOffset, nibbles, List.headD_cons, flags.1, if_false,
      bytesToNibbles_cons, List.drop_succ_cons, List.drop_zero, bytesToNibbles_packNibbles path even]
    simp [flags.2]
  · cases path with
    | nil => simp at odd
    | cons first rest =>
      have restEven : rest.length % 2 = 0 := by simp at odd; omega
      rw [hexPrefix_odd first rest isLeaf restEven]
      have table : ∀ f : Fin 16, ∀ b : Bool,
          (UInt8.ofNat (16 + f.val + if b then 32 else 0) &&& 16 = 16) ∧
            ((UInt8.ofNat (16 + f.val + if b then 32 else 0) &&& 32 = 32) = b) := by
        decide
      have low : lowNibble (UInt8.ofNat (16 + first.val + if isLeaf then 32 else 0)) = first := by
        ext
        have := first.isLt
        cases isLeaf
        · simp [lowNibble, UInt8.toNat_ofNat']
        · simp [lowNibble, UInt8.toNat_ofNat']
          omega
      constructor
      · simp only [fromEncoded, newOffset, nibbles, List.headD_cons, (table first isLeaf).1,
          if_true, bytesToNibbles_cons, List.drop_succ_cons, List.drop_zero, low,
          bytesToNibbles_packNibbles rest restEven]
      · simp only [fromEncoded, List.headD_cons, (table first isLeaf).2, Bool.decide_eq_true]

theorem commonPrefix_eq_len_iff (s them : NibbleSlice) :
    s.commonPrefix them = s.len ↔ s.nibbles <+: them.nibbles := by
  rw [commonPrefix_eq, len_eq, List.commonPrefixLength_comm, List.commonPrefixLength_eq_length_iff]

theorem commonPrefix_eq_len_right_iff (s them : NibbleSlice) :
    s.commonPrefix them = them.len ↔ them.nibbles <+: s.nibbles := by
  rw [commonPrefix_eq, len_eq, List.commonPrefixLength_eq_length_iff]

/-- A nonempty slice is its first nibble, as `at(0)` reads it, before the rest. -/
theorem nibbles_eq_cons (s : NibbleSlice) (nonempty : s.isEmpty = false) :
    s.nibbles = s.atIndex 0 :: (s.mid 1).nibbles := by
  cases split : s.nibbles with
  | nil =>
    rw [← Bool.not_eq_true, isEmpty_iff] at nonempty
    exact absurd split nonempty
  | cons first rest =>
    have inRange : 0 < s.nibbles.length := by simp [split]
    rw [atIndex_eq s 0 inRange, nibbles_mid]
    simp [split]

/-! Decoding what the encoders write. -/

@[simp] theorem nibbles_fromEncoded_encoded (s : NibbleSlice) (isLeaf : Bool) :
    (fromEncoded (s.encoded isLeaf)).1.nibbles = s.nibbles := by
  rw [encoded_eq]
  exact (fromEncoded_hexPrefix _ _).1

@[simp] theorem nibbles_fromEncoded_encodedLeftmost (s : NibbleSlice) (n : Nat) (isLeaf : Bool) :
    (fromEncoded (s.encodedLeftmost n isLeaf)).1.nibbles = s.nibbles.take n := by
  rw [encodedLeftmost_eq]
  exact (fromEncoded_hexPrefix _ _).1

theorem nibbles_fromEncoded_mergeEncoded (s other : NibbleSlice) (isLeaf : Bool)
    (firstFromLeft : 0 < s.len ∨ (s.len + other.len) % 2 = 0) :
    (fromEncoded (s.mergeEncoded other isLeaf)).1.nibbles = s.nibbles ++ other.nibbles := by
  rw [mergeEncoded_eq s other isLeaf firstFromLeft]
  exact (fromEncoded_hexPrefix _ _).1

/-- The one-nibble path `squash_node` gives the extension over a branch's only child. -/
theorem nibbles_fromEncoded_slot (idx : Nibble) :
    (fromEncoded ((new [UInt8.ofNat (idx.val <<< 4)]).encodedLeftmost 1 false)).1.nibbles =
      [idx] := by
  rw [nibbles_fromEncoded_encodedLeftmost, nibbles_new]
  revert idx
  decide

/-! The encoders against `encode_nibbles`: each writes `encode_nibbles` of the nibbles it
reads, and `from_encoded` reads back what `encode_nibbles` wrote. -/

/-- A nibble as the one byte `iter` and `encode_nibbles` hold it in. -/
def nibbleByte (n : Nibble) : UInt8 := UInt8.ofNat n.val

section
attribute [local simp] nibbleByte
end

@[simp] theorem toNat_nibbleByte (n : Nibble) : (nibbleByte n).toNat = n.val := by
  have := n.isLt
  simp only [nibbleByte, UInt8.toNat_ofNat']
  omega

theorem iter_eq (s : NibbleSlice) : s.iter = s.nibbles.map nibbleByte := by
  apply List.ext_getElem
  · simp [iter]
  · intro j inside _
    have inRange : j < s.nibbles.length := by simpa [iter] using inside
    simp only [iter, List.getElem_map, List.getElem_range]
    rw [← UInt8.toNat_inj, toNat_nibbleAt s j inRange, toNat_nibbleByte]

theorem encodeNibbles_map (path : List Nibble) (isLeaf : Bool) :
    encodeNibbles (path.map nibbleByte) isLeaf = hexPrefix path isLeaf := by
  have byteAt : ∀ j (inside : j < path.length),
      ((path.map nibbleByte).getD j 0).toNat = path[j].val := by
    intro j inside
    simp [List.getD_eq_getElem?_getD, inside]
  have pairs : ∀ i, (path.length - i) % 2 = 0 →
      pairsFrom (fun i => (path.map nibbleByte).getD i 0 * 16 + (path.map nibbleByte).getD (i + 1) 0)
        i path.length = packNibbles (path.drop i) := by
    intro i even
    rw [pairsFrom_eq_pack path _ i _ even le_rfl, List.take_length]
    intro j inside _
    exact pairByte_eq _ _ _ _ (byteAt j (by omega)) (byteAt (j + 1) inside)
  rcases Nat.mod_two_eq_zero_or_one path.length with even | odd
  · rw [hexPrefix_even path isLeaf even, encodeNibbles]
    simp only [List.length_map, even, Nat.zero_ne_one, if_false, evenFlagByte_eq]
    rw [pairs 0 (by omega), List.drop_zero]
  · cases path with
    | nil => simp at odd
    | cons first rest =>
      have restEven : rest.length % 2 = 0 := by simp at odd; omega
      have firstIs : ((first :: rest).map nibbleByte).getD 0 0 = nibbleByte first := rfl
      rw [hexPrefix_odd first rest isLeaf restEven, encodeNibbles]
      simp only [List.length_map, odd, if_true, firstIs, flagByte_eq, toNat_nibbleByte]
      rw [pairs 1 (by simp; omega), List.drop_one, List.tail_cons]

/-- Nibbles given one to a byte, each below `16`, are the bytes of their low halves. -/
theorem map_nibbleByte_lowNibble (ns : List UInt8) (small : ∀ n ∈ ns, n.toNat < 16) :
    (ns.map lowNibble).map nibbleByte = ns := by
  rw [List.map_map]
  conv_rhs => rw [← List.map_id ns]
  apply List.map_congr_left
  intro n member
  rw [Function.comp_apply, id, ← UInt8.toNat_inj, toNat_nibbleByte]
  exact Nat.mod_eq_of_lt (small n member)

theorem fromEncoded_encodeNibbles (ns : List UInt8) (isLeaf : Bool)
    (small : ∀ n ∈ ns, n.toNat < 16) :
    (fromEncoded (encodeNibbles ns isLeaf)).1.iter = ns ∧
      (fromEncoded (encodeNibbles ns isLeaf)).2 = isLeaf := by
  have bytes := map_nibbleByte_lowNibble ns small
  have decoded := fromEncoded_hexPrefix (ns.map lowNibble) isLeaf
  rw [← encodeNibbles_map, bytes] at decoded
  rw [iter_eq, decoded.1, bytes]
  exact ⟨rfl, decoded.2⟩

theorem encoded_eq_encodeNibbles (s : NibbleSlice) (isLeaf : Bool) :
    s.encoded isLeaf = encodeNibbles s.iter isLeaf := by
  rw [encoded_eq, iter_eq, encodeNibbles_map]

theorem encodeTo_eq (s : NibbleSlice) (isLeaf : Bool) (target : List UInt8) :
    s.encodeTo isLeaf target = s.encoded isLeaf := by
  simp [encodeTo, encoded]

theorem encodedLeftmost_eq_encodeNibbles (s : NibbleSlice) (n : Nat) (isLeaf : Bool) :
    s.encodedLeftmost n isLeaf = encodeNibbles (s.iter.take n) isLeaf := by
  rw [encodedLeftmost_eq, iter_eq, ← List.map_take, encodeNibbles_map]

/-- The in-place loop writes, after the bytes below index `i / 2 + 1`, what the pushing loop
pushes, once `to` has the encoding's length. -/
theorem setPairsFrom_eq (pair : Nat → UInt8) (i l : Nat) (target : List UInt8)
    (even : (l - i) % 2 = 0) (fits : target.length = 1 + l / 2) :
    setPairsFrom pair i l target = target.take (i / 2 + 1) ++ pairsFrom pair i l := by
  fun_induction setPairsFrom pair i l target with
  | case1 i target below ih =>
    have inside : i / 2 + 1 < target.length := by omega
    have next : (i + 2) / 2 + 1 = (i / 2 + 1) + 1 := by omega
    rw [ih (by omega) (by simp [fits]), next, pairsFrom_of_lt pair below,
      List.set_eq_take_append_cons_drop, if_pos inside]
    simp [List.take_append, Nat.min_eq_left (Nat.le_of_lt inside)]
  | case2 i target above =>
    rw [pairsFrom_of_le pair (by omega), List.append_nil, List.take_of_length_le (by omega)]

theorem encodeLeftmostTo_eq (s : NibbleSlice) (n : Nat) (isLeaf : Bool) (target : List UInt8) :
    s.encodeLeftmostTo n isLeaf target = s.encodedLeftmost n isLeaf := by
  generalize firstByte : ((if min s.len n % 2 = 1 then 16 + s.nibbleAt 0 else 0) +
    (if isLeaf then 32 else (0 : UInt8))) = first
  have padded : ((target.take (1 + min s.len n / 2)).rightpad (1 + min s.len n / 2) 0).length =
      1 + min s.len n / 2 := by
    simp
  obtain ⟨head, tail, split⟩ := List.exists_cons_of_length_pos (show 0 <
    ((target.take (1 + min s.len n / 2)).rightpad (1 + min s.len n / 2) 0).length by omega)
  have written : ((target.take (1 + min s.len n / 2)).rightpad (1 + min s.len n / 2) 0).set 0 first =
      first :: tail := by
    rw [split, List.set_cons_zero]
  have fits : (first :: tail).length = 1 + min s.len n / 2 := by
    rw [← written, List.length_set, padded]
  simp only [encodeLeftmostTo, encodedLeftmost, firstByte, written]
  rw [setPairsFrom_eq _ _ _ _ (by omega) fits]
  have start : min s.len n % 2 / 2 + 1 = 1 := by omega
  rw [start, List.take_succ_cons, List.take_zero, List.singleton_append]

theorem mergeEncoded_eq_encodeNibbles (s other : NibbleSlice) (isLeaf : Bool)
    (firstFromLeft : 0 < s.len ∨ (s.len + other.len) % 2 = 0) :
    s.mergeEncoded other isLeaf = encodeNibbles (s.iter ++ other.iter) isLeaf := by
  rw [mergeEncoded_eq s other isLeaf firstFromLeft, iter_eq, iter_eq, ← List.map_append,
    encodeNibbles_map]

end NibbleSlice

end Nearcore
