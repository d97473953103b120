import Mathlib

/-! Readers and writers of byte strings, in the shape binary formats such as borsh give
them: a reader consumes a prefix of its input and fails on input it cannot read, a writer may
refuse a value it cannot represent. `Inverts write read` says the reader reads back exactly
what the writer wrote, whatever follows it, and accepts nothing the writer would not write;
both halves then hold of a read that must consume all its input (`readAll`). -/
namespace ByteCodec

abbrev Reader (α : Type) := StateT (List UInt8) Option α

variable {α β : Type}

def readByte : Reader UInt8 := fun input =>
  match input with
  | b :: rest => some (b, rest)
  | [] => none

/-- Exactly `n` bytes. -/
def readBytes (n : Nat) : Reader (List UInt8) := fun input =>
  if n ≤ input.length then some (input.take n, input.drop n) else none

/-- A fixed-size byte array. -/
def readArray (n : Nat) : Reader (Vector UInt8 n) := fun input =>
  if fits : n ≤ input.length then
    some (⟨(input.take n).toArray, by simp [fits]⟩, input.drop n)
  else none

/-- The `width` little-endian bytes of `n`, its low `8 * width` bits. -/
def writeLE : Nat → Nat → List UInt8
  | 0, _ => []
  | width + 1, n => UInt8.ofNat (n % 256) :: writeLE width (n / 256)

section
attribute [local simp] writeLE
end

def readLE : Nat → Reader Nat
  | 0 => pure 0
  | width + 1 => do
    let low ← readByte
    let high ← readLE width
    pure (low.toNat + 256 * high)

section
attribute [local simp] readLE
end

/-- A fixed-width unsigned integer, written little endian. -/
def readUInt (width : Nat) (ofNat : Nat → β) : Reader β := do
  let n ← readLE width
  pure (ofNat n)

section
attribute [local simp] readUInt
end

/-- A byte string after its length as a `u32`, which the writer refuses to truncate. -/
def writeLengthPrefixed (bytes : List UInt8) : Option (List UInt8) :=
  if bytes.length < 2 ^ 32 then some (writeLE 4 bytes.length ++ bytes) else none

section
attribute [local simp] writeLengthPrefixed
end

def readLengthPrefixed : Reader (List UInt8) := do
  let length ← readLE 4
  readBytes length

section
attribute [local simp] readLengthPrefixed
end

/-- `try_from_slice`: a read that must consume all of its input. -/
def readAll (reader : Reader α) (input : List UInt8) : Option α :=
  match reader.run input with
  | some (value, []) => some value
  | _ => none

section
attribute [local simp] readAll
end

theorem readAll_eq_some_iff {reader : Reader α} {input : List UInt8} {value : α} :
    readAll reader input = some value ↔ reader.run input = some (value, []) := by
  unfold readAll
  split
  · next result ran => simp [ran]
  · next unread => simpa using unread value

/-- The reader reads back what the writer wrote, whatever follows it, and what it accepts is
something the writer wrote. -/
structure Inverts (write : α → Option (List UInt8)) (read : Reader α) : Prop where
  read_write : ∀ {value bytes} (rest : List UInt8), write value = some bytes →
    read.run (bytes ++ rest) = some (value, rest)
  write_read : ∀ {input value rest}, read.run input = some (value, rest) →
    ∃ bytes, write value = some bytes ∧ input = bytes ++ rest

section Inverts

variable {write : α → Option (List UInt8)} {read : Reader α}

theorem Inverts.readAll_write (inv : Inverts write read) {value : α} {bytes : List UInt8}
    (written : write value = some bytes) : readAll read bytes = some value := by
  have ran := inv.read_write [] written
  rw [List.append_nil] at ran
  exact readAll_eq_some_iff.mpr ran

theorem Inverts.write_of_readAll (inv : Inverts write read) {input : List UInt8} {value : α}
    (accepted : readAll read input = some value) : write value = some input := by
  obtain ⟨bytes, written, split⟩ := inv.write_read (readAll_eq_some_iff.mp accepted)
  rw [split, List.append_nil]
  exact written

/-- Two values the writer writes alike are equal. -/
theorem Inverts.injective (inv : Inverts write read) {first second : α} {bytes : List UInt8}
    (writesFirst : write first = some bytes) (writesSecond : write second = some bytes) :
    first = second := by
  have readsFirst := inv.readAll_write writesFirst
  rw [inv.readAll_write writesSecond] at readsFirst
  exact Option.some.inj readsFirst.symm

/-- Reading a field the writer wrote, and then the rest. -/
theorem Inverts.run_bind (inv : Inverts write read) {value : α} {bytes : List UInt8}
    (written : write value = some bytes) (rest : List UInt8) (f : α → Reader β) :
    (read >>= f).run (bytes ++ rest) = (f value).run rest := by
  rw [StateT.run_bind, inv.read_write rest written]
  rfl

/-- A read that succeeds read a field the writer writes, and then the rest. -/
theorem Inverts.of_run_bind (inv : Inverts write read) {f : α → Reader β} {input rest : List UInt8}
    {result : β} (ran : (read >>= f).run input = some (result, rest)) :
    ∃ value bytes mid, write value = some bytes ∧ input = bytes ++ mid ∧
      (f value).run mid = some (result, rest) := by
  rw [StateT.run_bind] at ran
  obtain ⟨⟨value, mid⟩, first, second⟩ := Option.bind_eq_some_iff.mp ran
  obtain ⟨bytes, written, split⟩ := inv.write_read first
  exact ⟨value, bytes, mid, written, split, second⟩

end Inverts

@[simp] theorem run_pure (value : α) (input : List UInt8) :
    (pure value : Reader α).run input = some (value, input) := rfl

theorem run_pure_eq_some {value result : α} {input rest : List UInt8} :
    (pure value : Reader α).run input = some (result, rest) ↔ value = result ∧ input = rest := by
  simp

theorem run_bind_of_run {x : Reader α} {f : α → Reader β} {input mid : List UInt8} {value : α}
    (first : x.run input = some (value, mid)) : (x >>= f).run input = (f value).run mid := by
  rw [StateT.run_bind, first]
  rfl

@[simp] theorem run_readByte_cons (b : UInt8) (rest : List UInt8) :
    readByte.run (b :: rest) = some (b, rest) := rfl

theorem readByte_inverts : Inverts (fun b => some [b]) readByte where
  read_write := by
    intro value bytes rest written
    cases written
    rfl
  write_read := by
    intro input value rest ran
    cases input with
    | nil => cases ran
    | cons b input =>
      obtain ⟨rfl, rfl⟩ := Prod.mk.inj (Option.some.inj ran)
      exact ⟨_, rfl, rfl⟩

theorem readLE_writeLE (width n : Nat) (fits : n < 256 ^ width) (rest : List UInt8) :
    (readLE width).run (writeLE width n ++ rest) = some (n, rest) := by
  induction width generalizing n with
  | zero =>
    have zero : n = 0 := by simpa using fits
    subst zero
    rfl
  | succ width ih =>
    have high : n / 256 < 256 ^ width := by rw [Nat.pow_succ] at fits; omega
    have low : (UInt8.ofNat (n % 256)).toNat = n % 256 := by
      simp only [UInt8.toNat_ofNat']
      omega
    rw [readLE, writeLE, List.cons_append, run_bind_of_run (run_readByte_cons _ _),
      run_bind_of_run (ih (n / 256) high), run_pure, low]
    congr 2
    omega

theorem eq_writeLE_of_readLE {width n : Nat} {input rest : List UInt8}
    (ran : (readLE width).run input = some (n, rest)) :
    n < 256 ^ width ∧ input = writeLE width n ++ rest := by
  induction width generalizing n input rest with
  | zero =>
    cases ran
    exact ⟨by simp, rfl⟩
  | succ width ih =>
    rw [readLE] at ran
    obtain ⟨low, lowBytes, mid, written, split, ran⟩ := readByte_inverts.of_run_bind ran
    rw [StateT.run_bind] at ran
    obtain ⟨⟨high, last⟩, highRead, finish⟩ := Option.bind_eq_some_iff.mp ran
    obtain ⟨bound, highSplit⟩ := ih highRead
    obtain ⟨rfl, rfl⟩ := run_pure_eq_some.mp finish
    cases written
    have lowBound := low.toNat_lt
    have lowDigit : (low.toNat + 256 * high) % 256 = low.toNat := by omega
    have highDigits : (low.toNat + 256 * high) / 256 = high := by omega
    refine ⟨by rw [Nat.pow_succ]; omega, ?_⟩
    rw [split, highSplit, writeLE, lowDigit, highDigits, UInt8.ofNat_toNat]
    rfl

/-! The readers of the format and their writers. -/

theorem readUInt_inverts (width : Nat) {toNat : β → Nat} {ofNat : Nat → β}
    (bounded : ∀ x, toNat x < 256 ^ width) (ofNat_toNat : ∀ x, ofNat (toNat x) = x)
    (toNat_ofNat : ∀ n, n < 256 ^ width → toNat (ofNat n) = n) :
    Inverts (fun x => some (writeLE width (toNat x))) (readUInt width ofNat) where
  read_write := by
    intro value bytes rest written
    cases written
    rw [readUInt, run_bind_of_run (readLE_writeLE width _ (bounded value) rest), run_pure,
      ofNat_toNat]
  write_read := by
    intro input value rest ran
    rw [readUInt, StateT.run_bind] at ran
    obtain ⟨⟨n, mid⟩, read, finish⟩ := Option.bind_eq_some_iff.mp ran
    obtain ⟨rfl, rfl⟩ := run_pure_eq_some.mp finish
    obtain ⟨fits, split⟩ := eq_writeLE_of_readLE read
    exact ⟨_, by rw [toNat_ofNat n fits], split⟩

theorem run_readBytes_append (bytes rest : List UInt8) :
    (readBytes bytes.length).run (bytes ++ rest) = some (bytes, rest) := by
  change (if _ then _ else _) = _
  rw [if_pos (by simp), List.take_left, List.drop_left]

theorem eq_of_run_readBytes {n : Nat} {input bytes rest : List UInt8}
    (ran : (readBytes n).run input = some (bytes, rest)) :
    bytes.length = n ∧ input = bytes ++ rest := by
  change (if _ then _ else _) = _ at ran
  split at ran
  · next fits =>
    obtain ⟨rfl, rfl⟩ := Prod.mk.inj (Option.some.inj ran)
    exact ⟨by simp [fits], (List.take_append_drop n input).symm⟩
  · cases ran

theorem readArray_inverts (n : Nat) : Inverts (fun hash : Vector UInt8 n => some hash.toList)
    (readArray n) where
  read_write := by
    intro value bytes rest written
    cases written
    change (if _ : _ then _ else _) = _
    rw [dif_pos (by simp)]
    have front : (value.toList ++ rest).take n = value.toList :=
      List.take_left' Vector.length_toList
    congr 2
    · apply Vector.toList_inj.mp
      simp only [Vector.toList_mk, front]
    · exact List.drop_left' Vector.length_toList
  write_read := by
    intro input value rest ran
    change (if _ : _ then _ else _) = _ at ran
    split at ran
    · obtain ⟨rfl, rfl⟩ := Prod.mk.inj (Option.some.inj ran)
      exact ⟨_, rfl, by simp⟩
    · cases ran

theorem readLengthPrefixed_inverts : Inverts writeLengthPrefixed readLengthPrefixed where
  read_write := by
    intro value bytes rest written
    unfold writeLengthPrefixed at written
    split at written
    · next fits =>
      cases written
      rw [readLengthPrefixed, List.append_assoc,
        run_bind_of_run (readLE_writeLE 4 _ (by omega) _), run_readBytes_append]
    · cases written
  write_read := by
    intro input value rest ran
    rw [readLengthPrefixed, StateT.run_bind] at ran
    obtain ⟨⟨length, mid⟩, read, body⟩ := Option.bind_eq_some_iff.mp ran
    dsimp only at body
    obtain ⟨fits, split⟩ := eq_writeLE_of_readLE read
    obtain ⟨sized, rfl⟩ := eq_of_run_readBytes body
    refine ⟨writeLE 4 value.length ++ value, ?_, by rw [split, sized, List.append_assoc]⟩
    rw [writeLengthPrefixed, if_pos (by omega)]

end ByteCodec
