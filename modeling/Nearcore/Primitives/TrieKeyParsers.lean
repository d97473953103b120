import Nearcore.Primitives.TrieKey
import Nearcore.Library.ByteCodec
import Nearcore.Library.Except

/-! `TrieKey::len` and `trie_key_parsers` (`core/primitives/src/trie_key.rs`): the length the
encoder reserves, and the parsers that read an account id, a public key or a data key back
out of a raw key. Errors are the `InvalidData` messages of the source. An account id is parsed
with the rules the model's `AccountId` keeps, its characters; these are ASCII, so the UTF-8
check before `parse` passes exactly where they do, and its own message is merged into the
one of `parse`. -/
namespace Nearcore

open ByteCodec

def PublicKey.len : PublicKey → Nat
  | .ed25519 _ => 32 + 1
  | .secp256k1 _ => 65

section
attribute [local simp] PublicKey.len
end

def GlobalContractCodeIdentifier.len (identifier : GlobalContractCodeIdentifier) : Nat :=
  1 + match identifier with
    | .codeHash hash => hash.toList.length
    | .accountId account => 4 + account.bytes.length

section
attribute [local simp] GlobalContractCodeIdentifier.len
end

/-- `TrieKey::len`. A column byte and a separator are one byte each (`col::X.len()` is `1`). -/
def TrieKey.len : TrieKey → Nat
  | .account accountId => 1 + accountId.bytes.length
  | .contractCode accountId => 1 + accountId.bytes.length
  | .accessKey accountId publicKey => 1 * 2 + accountId.bytes.length + publicKey.len
  | .receivedData receiverId dataId => 1 + receiverId.bytes.length + 1 + dataId.toList.length
  | .postponedReceiptId receiverId dataId => 1 + receiverId.bytes.length + 1 + dataId.toList.length
  | .pendingDataCount receiverId receiptId =>
    1 + receiverId.bytes.length + 1 + receiptId.toList.length
  | .postponedReceipt receiverId receiptId =>
    1 + receiverId.bytes.length + 1 + receiptId.toList.length
  | .delayedReceiptIndices => 1
  | .delayedReceipt _ => 1 + 8
  | .promiseYieldIndices => 1
  | .promiseYieldTimeout _ => 1 + 8
  | .promiseYieldReceipt receiverId dataId => 1 + receiverId.bytes.length + 1 + dataId.toList.length
  | .contractData accountId key => 1 + accountId.bytes.length + 1 + key.length
  | .bufferedReceiptIndices => 1
  | .bufferedReceipt _ _ => 1 + 2 + 8
  | .bandwidthSchedulerState => 1
  | .bufferedReceiptGroupsQueueData _ => 1 + 8
  | .bufferedReceiptGroupsQueueItem _ _ => 1 + 8 + 8
  | .globalContractCode identifier => 1 + identifier.len

section
attribute [local simp] TrieKey.len
end

/-- Borsh of `PublicKey`: the key type byte, then the raw key of its length. -/
def PublicKey.deserialize : Reader PublicKey := do
  let keyType ← readByte
  match keyType.toNat with
  | 0 => do
    let key ← readArray 32
    pure (.ed25519 key)
  | 1 => do
    let key ← readArray 64
    pure (.secp256k1 key)
  | _ => failure

section
attribute [local simp] PublicKey.deserialize
end

/-- `AccountId::from_str`, by the rules of the model's account ids. -/
def AccountId.parse (data : List UInt8) : Option AccountId :=
  if valid : ∀ c ∈ data, IsAccountChar c then some ⟨data, valid⟩ else none

section
attribute [local simp] AccountId.parse
end

/-- The receiving shard of a buffered receipt's key fits in the `u16` the key holds it in;
`append_into` asserts it. -/
def TrieKey.receivingShardFits : TrieKey → Bool
  | .bufferedReceipt receivingShard _ => receivingShard.toNat ≤ 65535
  | _ => true

section
attribute [local simp] TrieKey.receivingShardFits
end

namespace TrieKeyParsers

/-- `strip_prefix` by the column byte. -/
def parseAccountIdPrefix (column : UInt8) (rawKey : List UInt8) : Except String (List UInt8) :=
  match rawKey with
  | first :: tail =>
    if first = column then .ok tail
    else .error "raw key is does not start with a proper column marker"
  | [] => .error "raw key is does not start with a proper column marker"

section
attribute [local simp] parseAccountIdPrefix
end

def parseAccountIdFromSlice (data : List UInt8) (trieKey : String) : Except String AccountId :=
  match AccountId.parse data with
  | some accountId => .ok accountId
  | none => .error ("raw key does not have a valid AccountId to be TrieKey::" ++ trieKey)

section
attribute [local simp] parseAccountIdFromSlice
end

/-- `next_token`: the bytes before the first `separator`, if there is one. -/
def nextToken (data : List UInt8) (separator : UInt8) : Option (List UInt8) :=
  (data.findIdx? (· == separator)).map data.take

section
attribute [local simp] nextToken
end

/-- The account id between the column byte and the first `separator`, as
`parse_account_id_from_trie_key_with_separator` and its two copies for the contract-data and
access-key columns read it; `missing` is the message when there is no separator. -/
def parseAccountIdBeforeSeparator (column separator : UInt8) (trieKey missing : String)
    (rawKey : List UInt8) : Except String AccountId := do
  let accountIdPrefix ← parseAccountIdPrefix column rawKey
  match nextToken accountIdPrefix separator with
  | some accountId => parseAccountIdFromSlice accountId trieKey
  | none => .error missing

section
attribute [local simp] parseAccountIdBeforeSeparator
end

def parseAccountIdFromContractDataKey (rawKey : List UInt8) : Except String AccountId :=
  parseAccountIdBeforeSeparator Col.contractData accountDataSeparator "ContractData"
    "raw key does not have ACCOUNT_DATA_SEPARATOR to be TrieKey::ContractData" rawKey

def parseAccountIdFromAccessKeyKey (rawKey : List UInt8) : Except String AccountId :=
  parseAccountIdBeforeSeparator Col.accessKey accessKeySeparator "AccessKey"
    "raw key does not have public key to be TrieKey::AccessKey" rawKey

def parseAccountIdFromTrieKeyWithSeparator (col : UInt8) (rawKey : List UInt8) (colName : String) :
    Except String AccountId :=
  parseAccountIdBeforeSeparator col accountDataSeparator colName
    ("raw key does not have ACCOUNT_DATA_SEPARATOR to be TrieKey::" ++ colName) rawKey

def parseAccountIdFromAccountKey (rawKey : List UInt8) : Except String AccountId := do
  let accountId ← parseAccountIdPrefix Col.account rawKey
  parseAccountIdFromSlice accountId "Account"

def parseAccountIdFromContractCodeKey (rawKey : List UInt8) : Except String AccountId := do
  let accountId ← parseAccountIdPrefix Col.contractCode rawKey
  parseAccountIdFromSlice accountId "ContractCode"

/-- The error `PublicKey::try_from_slice` returns; its text is the borsh crate's. -/
def publicKeyDecodeError : String := "PublicKey::try_from_slice failed"

def parsePublicKeyFromAccessKeyKey (rawKey : List UInt8) (accountId : AccountId) :
    Except String PublicKey :=
  let prefixLen := 1 * 2 + accountId.bytes.length
  if rawKey.length < prefixLen then .error "raw key is too short for TrieKey::AccessKey"
  else
    match readAll PublicKey.deserialize (rawKey.drop prefixLen) with
    | some publicKey => .ok publicKey
    | none => .error publicKeyDecodeError

section
attribute [local simp] parsePublicKeyFromAccessKeyKey
end

def parseDataKeyFromContractDataKey (rawKey : List UInt8) (accountId : AccountId) :
    Except String (List UInt8) :=
  let prefixLen := 1 + accountId.bytes.length + 1
  if rawKey.length < prefixLen then .error "raw key is too short for TrieKey::ContractData"
  else .ok (rawKey.drop prefixLen)

section
attribute [local simp] parseDataKeyFromContractDataKey
end

def parseTrieKeyAccessKeyFromRawKey (rawKey : List UInt8) : Except String TrieKey := do
  let accountId ← parseAccountIdFromAccessKeyKey rawKey
  let publicKey ← parsePublicKeyFromAccessKeyKey rawKey accountId
  pure (.accessKey accountId publicKey)

section
attribute [local simp] parseTrieKeyAccessKeyFromRawKey
end

/-- The parser `parse_account_id_from_raw_key` picks for a column. -/
def accountIdParser (col : UInt8) (colName : String) (rawKey : List UInt8) :
    Except String AccountId :=
  if col = Col.account then parseAccountIdFromAccountKey rawKey
  else if col = Col.contractCode then parseAccountIdFromContractCodeKey rawKey
  else if col = Col.accessKey then parseAccountIdFromAccessKeyKey rawKey
  else parseAccountIdFromTrieKeyWithSeparator col rawKey colName

section
attribute [local simp] accountIdParser
end

/-- The loop of `parse_account_id_from_raw_key` over the account-keyed columns: the first
column whose byte the key starts with decides. -/
def parseAccountIdFromRawKeyLoop (rawKey : List UInt8) :
    List (UInt8 × String) → Except String (Option AccountId)
  | [] => .ok none
  | (col, colName) :: columns =>
    match parseAccountIdPrefix col rawKey with
    | .error _ => parseAccountIdFromRawKeyLoop rawKey columns
    | .ok _ => do
      let accountId ← accountIdParser col colName rawKey
      pure (some accountId)

section
attribute [local simp] parseAccountIdFromRawKeyLoop
end

def parseAccountIdFromRawKey (rawKey : List UInt8) : Except String (Option AccountId) :=
  parseAccountIdFromRawKeyLoop rawKey Col.columnsWithAccountIdInKey

section
attribute [local simp] parseAccountIdFromRawKey
end

/-! Lengths. -/

@[simp] theorem length_leBytes (n width : Nat) : (leBytes n width).length = width := by
  induction width generalizing n with
  | zero => rfl
  | succ width ih => simp [leBytes, ih]

theorem length_borshBytes (publicKey : PublicKey) : publicKey.borshBytes.length = publicKey.len := by
  cases publicKey <;> simp [PublicKey.borshBytes, PublicKey.len]

theorem length_appendInto (identifier : GlobalContractCodeIdentifier) (buf : List UInt8) :
    (identifier.appendInto buf).length = buf.length + identifier.len := by
  cases identifier with
  | codeHash hash => simp [GlobalContractCodeIdentifier.appendInto, GlobalContractCodeIdentifier.len]
  | accountId account =>
    simp [GlobalContractCodeIdentifier.appendInto, GlobalContractCodeIdentifier.len]
    omega

/-- `append_into` writes as many bytes as `len` reserves. -/
theorem length_toVec {key : TrieKey} {bytes : List UInt8} (encoded : key.toVec = some bytes) :
    bytes.length = key.len := by
  cases key <;> simp only [TrieKey.toVec, TrieKey.appendInto, List.nil_append] at encoded
  case bufferedReceipt receivingShard index =>
    split at encoded
    · cases encoded
      simp [TrieKey.len]
    · cases encoded
  case globalContractCode identifier =>
    cases encoded
    rw [length_appendInto, TrieKey.len]
    simp only [List.length_singleton]
  all_goals
    cases encoded
    simp [TrieKey.len, length_borshBytes]
    try omega

theorem toVec_isSome (key : TrieKey) (fits : key.receivingShardFits = true) :
    ∃ bytes, key.toVec = some bytes := by
  cases key
  case bufferedReceipt receivingShard index =>
    have small : receivingShard.toNat ≤ 65535 := by simpa [TrieKey.receivingShardFits] using fits
    exact ⟨_, by simp only [TrieKey.toVec, TrieKey.appendInto, if_pos small]; rfl⟩
  all_goals exact ⟨_, rfl⟩

/-! The public key's borsh. -/

theorem PublicKey.deserialize_inverts :
    Inverts (fun publicKey : PublicKey => some publicKey.borshBytes) PublicKey.deserialize where
  read_write := by
    intro publicKey bytes rest written
    cases written
    rw [PublicKey.deserialize]
    cases publicKey with
    | ed25519 key =>
      rw [PublicKey.borshBytes, List.cons_append, run_bind_of_run (run_readByte_cons _ _),
        show (0 : UInt8).toNat = 0 from rfl]
      exact (readArray_inverts 32).run_bind rfl rest _
    | secp256k1 key =>
      rw [PublicKey.borshBytes, List.cons_append, run_bind_of_run (run_readByte_cons _ _),
        show (1 : UInt8).toNat = 1 from rfl]
      exact (readArray_inverts 64).run_bind rfl rest _
  write_read := by
    intro input publicKey rest ran
    obtain ⟨keyType, keyTypeBytes, mid, keyTypeWritten, rfl, fields⟩ :=
      readByte_inverts.of_run_bind ran
    cases keyTypeWritten
    have keyTypeIs : ∀ n : UInt8, keyType.toNat = n.toNat → keyType = n :=
      fun _ same => UInt8.toNat_inj.mp same
    split at fields
    · next isEd25519 =>
      obtain ⟨key, keyBytes, last, keyWritten, rfl, finish⟩ :=
        (readArray_inverts 32).of_run_bind fields
      obtain ⟨rfl, rfl⟩ := run_pure_eq_some.mp finish
      cases keyWritten
      obtain rfl := keyTypeIs 0 isEd25519
      exact ⟨_, rfl, rfl⟩
    · next isSecp256k1 =>
      obtain ⟨key, keyBytes, last, keyWritten, rfl, finish⟩ :=
        (readArray_inverts 64).of_run_bind fields
      obtain ⟨rfl, rfl⟩ := run_pure_eq_some.mp finish
      cases keyWritten
      obtain rfl := keyTypeIs 1 isSecp256k1
      exact ⟨_, rfl, rfl⟩
    · cases fields

/-! The parsers read back what `append_into` wrote. -/

theorem AccountId.parse_bytes (accountId : AccountId) : AccountId.parse accountId.bytes = some accountId := by
  rw [AccountId.parse, dif_pos accountId.valid]

theorem parseAccountIdFromSlice_bytes (accountId : AccountId) (trieKey : String) :
    parseAccountIdFromSlice accountId.bytes trieKey = .ok accountId := by
  rw [parseAccountIdFromSlice, AccountId.parse_bytes]

/-- Neither separator is an account-id character. -/
theorem IsAccountChar.ne_separator {c : UInt8} (account : IsAccountChar c) :
    c ≠ accountDataSeparator ∧ c ≠ accessKeySeparator := by
  have data := separator_below (s := accountDataSeparator) account (by decide)
  have access := separator_below (s := accessKeySeparator) account (by decide)
  rw [UInt8.lt_iff_toNat_lt] at data access
  exact ⟨fun same => by rw [same] at data; omega, fun same => by rw [same] at access; omega⟩

/-- The token before a separator that the data before it does not hold. -/
theorem nextToken_append_cons (data : List UInt8) (separator : UInt8) (rest : List UInt8)
    (absent : ∀ c ∈ data, c ≠ separator) :
    nextToken (data ++ separator :: rest) separator = some data := by
  have found : (data ++ separator :: rest).findIdx? (· == separator) = some data.length := by
    rw [List.findIdx?_append, List.findIdx?_eq_none_iff.mpr (by simpa using absent)]
    simp [List.findIdx?_cons]
  rw [nextToken, found, Option.map_some, List.take_left]

theorem parseAccountIdPrefix_cons_self (column : UInt8) (tail : List UInt8) :
    parseAccountIdPrefix column (column :: tail) = .ok tail := by
  rw [parseAccountIdPrefix, if_pos rfl]

theorem parseAccountIdBeforeSeparator_eq (column separator : UInt8) (trieKey missing : String)
    (accountId : AccountId) (rest : List UInt8) (absent : ∀ c ∈ accountId.bytes, c ≠ separator) :
    parseAccountIdBeforeSeparator column separator trieKey missing
      (column :: (accountId.bytes ++ separator :: rest)) = .ok accountId := by
  rw [parseAccountIdBeforeSeparator, parseAccountIdPrefix_cons_self, Except.ok_bind,
    nextToken_append_cons _ _ _ absent]
  exact parseAccountIdFromSlice_bytes accountId trieKey

/-- An account id before the data separator, for every column but the two without one. -/
theorem parseAccountIdFromTrieKeyWithSeparator_eq (col : UInt8) (colName : String)
    (accountId : AccountId) (rest : List UInt8) :
    parseAccountIdFromTrieKeyWithSeparator col (col :: (accountId.bytes ++ accountDataSeparator :: rest))
      colName = .ok accountId :=
  parseAccountIdBeforeSeparator_eq _ _ _ _ _ _
    fun _ member => (IsAccountChar.ne_separator (accountId.valid _ member)).1

theorem parseAccountIdFromRawKeyLoop_skip (first : UInt8) (tail : List UInt8) (col : UInt8)
    (colName : String) (columns : List (UInt8 × String)) (other : first ≠ col) :
    parseAccountIdFromRawKeyLoop (first :: tail) ((col, colName) :: columns) =
      parseAccountIdFromRawKeyLoop (first :: tail) columns := by
  rw [parseAccountIdFromRawKeyLoop, parseAccountIdPrefix, if_neg other]

theorem parseAccountIdFromRawKeyLoop_found (col : UInt8) (colName : String) (tail : List UInt8)
    (columns : List (UInt8 × String)) :
    parseAccountIdFromRawKeyLoop (col :: tail) ((col, colName) :: columns) =
      (accountIdParser col colName (col :: tail)).map some := by
  rw [parseAccountIdFromRawKeyLoop, parseAccountIdPrefix_cons_self]
  cases accountIdParser col colName (col :: tail) <;> rfl

/-- A key whose column holds no account id is no account's. -/
theorem parseAccountIdFromRawKeyLoop_unlisted (first : UInt8) (tail : List UInt8)
    (columns : List (UInt8 × String)) (unlisted : ∀ entry ∈ columns, entry.1 ≠ first) :
    parseAccountIdFromRawKeyLoop (first :: tail) columns = .ok none := by
  induction columns with
  | nil => rfl
  | cons entry columns ih =>
    obtain ⟨col, colName⟩ := entry
    rw [parseAccountIdFromRawKeyLoop_skip _ _ _ _ _ (unlisted (col, colName) List.mem_cons_self).symm]
    exact ih (fun entry member => unlisted entry (List.mem_cons_of_mem _ member))

/-- The loop reaches the entry of the key's column, every earlier column byte differing. -/
theorem parseAccountIdFromRawKey_listed (col : UInt8) (colName : String) (tail : List UInt8)
    (listed : (col, colName) ∈ Col.columnsWithAccountIdInKey) :
    parseAccountIdFromRawKey (col :: tail) = (accountIdParser col colName (col :: tail)).map some := by
  simp only [Col.columnsWithAccountIdInKey, List.mem_cons, List.not_mem_nil, or_false] at listed
  rcases listed with entry | entry | entry | entry | entry | entry | entry | entry | entry
  all_goals
    obtain ⟨rfl, rfl⟩ := Prod.mk.inj entry
    rw [parseAccountIdFromRawKey, Col.columnsWithAccountIdInKey]
    simp (disch := decide) only [parseAccountIdFromRawKeyLoop_skip,
      parseAccountIdFromRawKeyLoop_found]

/-- `parse_account_id_from_raw_key` reads from every key the account `get_account_id` names. -/
theorem parseAccountIdFromRawKey_toVec {key : TrieKey} {bytes : List UInt8}
    (encoded : key.toVec = some bytes) : parseAccountIdFromRawKey bytes = .ok key.getAccountId := by
  cases key <;> simp only [TrieKey.toVec, TrieKey.appendInto, List.nil_append] at encoded
  case account accountId =>
    cases encoded
    rw [parseAccountIdFromRawKey_listed _ "Account" _ (by decide), accountIdParser, if_pos rfl,
      parseAccountIdFromAccountKey, parseAccountIdPrefix_cons_self, Except.ok_bind,
      parseAccountIdFromSlice_bytes]
    rfl
  case contractCode accountId =>
    cases encoded
    rw [parseAccountIdFromRawKey_listed _ "ContractCode" _ (by decide), accountIdParser,
      if_neg (by decide), if_pos rfl, parseAccountIdFromContractCodeKey,
      parseAccountIdPrefix_cons_self, Except.ok_bind, parseAccountIdFromSlice_bytes]
    rfl
  case accessKey accountId publicKey =>
    cases encoded
    rw [parseAccountIdFromRawKey_listed _ "AccessKey" _ (by decide), accountIdParser,
      if_neg (by decide), if_neg (by decide), if_pos rfl, parseAccountIdFromAccessKeyKey,
      parseAccountIdBeforeSeparator_eq _ _ _ _ _ _
        fun _ member => (IsAccountChar.ne_separator (accountId.valid _ member)).2]
    rfl
  case bufferedReceipt receivingShard index =>
    split at encoded
    · cases encoded
      exact parseAccountIdFromRawKeyLoop_unlisted _ _ _ (by decide)
    · cases encoded
  case globalContractCode identifier =>
    cases encoded
    cases identifier <;>
      exact parseAccountIdFromRawKeyLoop_unlisted _ _ _ (by decide)
  -- the columns read up to the data separator
  case receivedData receiverId dataId =>
    cases encoded
    rw [parseAccountIdFromRawKey_listed _ "ReceivedData" _ (by decide), accountIdParser,
      if_neg (by decide), if_neg (by decide), if_neg (by decide),
      parseAccountIdFromTrieKeyWithSeparator_eq]
    rfl
  case postponedReceiptId receiverId dataId =>
    cases encoded
    rw [parseAccountIdFromRawKey_listed _ "PostponedReceiptId" _ (by decide), accountIdParser,
      if_neg (by decide), if_neg (by decide), if_neg (by decide),
      parseAccountIdFromTrieKeyWithSeparator_eq]
    rfl
  case pendingDataCount receiverId receiptId =>
    cases encoded
    rw [parseAccountIdFromRawKey_listed _ "PendingDataCount" _ (by decide), accountIdParser,
      if_neg (by decide), if_neg (by decide), if_neg (by decide),
      parseAccountIdFromTrieKeyWithSeparator_eq]
    rfl
  case postponedReceipt receiverId receiptId =>
    cases encoded
    rw [parseAccountIdFromRawKey_listed _ "PostponedReceipt" _ (by decide), accountIdParser,
      if_neg (by decide), if_neg (by decide), if_neg (by decide),
      parseAccountIdFromTrieKeyWithSeparator_eq]
    rfl
  case contractData accountId key =>
    cases encoded
    rw [parseAccountIdFromRawKey_listed _ "ContractData" _ (by decide), accountIdParser,
      if_neg (by decide), if_neg (by decide), if_neg (by decide),
      parseAccountIdFromTrieKeyWithSeparator_eq]
    rfl
  case promiseYieldReceipt receiverId dataId =>
    cases encoded
    rw [parseAccountIdFromRawKey_listed _ "PromiseYieldReceipt" _ (by decide), accountIdParser,
      if_neg (by decide), if_neg (by decide), if_neg (by decide),
      parseAccountIdFromTrieKeyWithSeparator_eq]
    rfl
  -- the columns that hold no account id
  all_goals
    cases encoded
    exact parseAccountIdFromRawKeyLoop_unlisted _ _ _ (by decide)

theorem parseTrieKeyAccessKeyFromRawKey_toVec (accountId : AccountId) (publicKey : PublicKey) :
    parseTrieKeyAccessKeyFromRawKey
      (Col.accessKey :: (accountId.bytes ++ accessKeySeparator :: publicKey.borshBytes)) =
      .ok (.accessKey accountId publicKey) := by
  have readAccount : parseAccountIdFromAccessKeyKey
      (Col.accessKey :: (accountId.bytes ++ accessKeySeparator :: publicKey.borshBytes)) =
      .ok accountId :=
    parseAccountIdBeforeSeparator_eq _ _ _ _ _ _
      fun _ member => (IsAccountChar.ne_separator (accountId.valid _ member)).2
  -- the public key starts after the column byte, the account id and the separator
  have tail : (Col.accessKey :: (accountId.bytes ++ accessKeySeparator :: publicKey.borshBytes)).drop
      (1 * 2 + accountId.bytes.length) = publicKey.borshBytes := by
    have amount : 1 * 2 + accountId.bytes.length = accountId.bytes.length + 1 + 1 := by omega
    rw [amount, List.drop_succ_cons, List.drop_append]
    simp
  have readKey : parsePublicKeyFromAccessKeyKey
      (Col.accessKey :: (accountId.bytes ++ accessKeySeparator :: publicKey.borshBytes)) accountId =
      .ok publicKey := by
    rw [parsePublicKeyFromAccessKeyKey, if_neg (by simp; omega), tail,
      PublicKey.deserialize_inverts.readAll_write rfl]
  rw [parseTrieKeyAccessKeyFromRawKey, readAccount, Except.ok_bind, readKey]
  rfl

theorem parseDataKeyFromContractDataKey_toVec (accountId : AccountId) (key : List UInt8) :
    parseDataKeyFromContractDataKey
      (Col.contractData :: (accountId.bytes ++ accountDataSeparator :: key)) accountId = .ok key := by
  have amount : 1 + accountId.bytes.length + 1 = accountId.bytes.length + 1 + 1 := by omega
  rw [parseDataKeyFromContractDataKey, if_neg (by simp; omega), amount, List.drop_succ_cons,
    List.drop_append]
  simp

/-- The account `a`. -/
def sampleAccount : AccountId := AccountId.ofLetter 97 AccountId.lower_a

end TrieKeyParsers

end Nearcore
