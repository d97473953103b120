import Mathlib

/-! Byte layout of state trie keys (`core/primitives/src/trie_key.rs`). Every key
starts with its column byte; the account-keyed columns continue with the account id
and, for all but two of them, a separator byte that sorts below every account-id
character. -/
namespace Nearcore

-- The column bytes of `trie_key::col`.
namespace Col

def account : UInt8 := 0

section
attribute [local simp] account
end
def contractCode : UInt8 := 1
def accessKey : UInt8 := 2
def receivedData : UInt8 := 3
def postponedReceiptId : UInt8 := 4
def pendingDataCount : UInt8 := 5
def postponedReceipt : UInt8 := 6
def delayedReceiptOrIndices : UInt8 := 7
def contractData : UInt8 := 9
def promiseYieldIndices : UInt8 := 10
def promiseYieldTimeout : UInt8 := 11
def promiseYieldReceipt : UInt8 := 12
def bufferedReceiptIndices : UInt8 := 13
def bufferedReceipt : UInt8 := 14
def bandwidthSchedulerState : UInt8 := 15
def bufferedReceiptGroupsQueueData : UInt8 := 16
def bufferedReceiptGroupsQueueItem : UInt8 := 17
def globalContractCode : UInt8 := 18

def columnsWithAccountIdInKey : List (UInt8 × String) := [
  (account, "Account"),
  (contractCode, "ContractCode"),
  (accessKey, "AccessKey"),
  (receivedData, "ReceivedData"),
  (postponedReceiptId, "PostponedReceiptId"),
  (pendingDataCount, "PendingDataCount"),
  (postponedReceipt, "PostponedReceipt"),
  (contractData, "ContractData"),
  (promiseYieldReceipt, "PromiseYieldReceipt")]

section
attribute [local simp] columnsWithAccountIdInKey
end

def allColumnsWithNames : List (UInt8 × String) := [
  (account, "Account"),
  (contractCode, "ContractCode"),
  (accessKey, "AccessKey"),
  (receivedData, "ReceivedData"),
  (postponedReceiptId, "PostponedReceiptId"),
  (pendingDataCount, "PendingDataCount"),
  (postponedReceipt, "PostponedReceipt"),
  (delayedReceiptOrIndices, "DelayedReceiptOrIndices"),
  (contractData, "ContractData"),
  (promiseYieldIndices, "PromiseYieldIndices"),
  (promiseYieldTimeout, "PromiseYieldTimeout"),
  (promiseYieldReceipt, "PromiseYieldReceipt"),
  (bufferedReceiptIndices, "BufferedReceiptIndices"),
  (bufferedReceipt, "BufferedReceipt"),
  (bandwidthSchedulerState, "BandwidthSchedulerState"),
  (bufferedReceiptGroupsQueueData, "BufferedReceiptGroupsQueueData"),
  (bufferedReceiptGroupsQueueItem, "BufferedReceiptGroupsQueueItem"),
  (globalContractCode, "GlobalContractCode")]

section
attribute [local simp] allColumnsWithNames
end

end Col

/-- `b','`, written between the account id and the rest of most account-keyed keys. -/
def accountDataSeparator : UInt8 := 44

/-- The access-key column byte doubles as the separator after the account id. -/
def accessKeySeparator : UInt8 := Col.accessKey

/-- Account ids come from the `near-account-id` crate, which admits only lowercase
letters, digits and the separators `-`, `_` and `.`. Its length and separator
placement rules are not needed here and are left out. -/
def IsAccountChar (c : UInt8) : Prop :=
  (97 ≤ c ∧ c ≤ 122) ∨ (48 ≤ c ∧ c ≤ 57) ∨ c = 45 ∨ c = 95 ∨ c = 46

section
attribute [local simp] IsAccountChar
end

instance : DecidablePred IsAccountChar := fun c =>
  inferInstanceAs (Decidable ((97 ≤ c ∧ c ≤ 122) ∨ (48 ≤ c ∧ c ≤ 57) ∨ c = 45 ∨ c = 95 ∨ c = 46))

structure AccountId where
  bytes : List UInt8
  valid : ∀ c ∈ bytes, IsAccountChar c

/-- `AccountId` orders as its string, that is byte-lexicographically. -/
instance : LT AccountId := ⟨fun a b => a.bytes < b.bytes⟩
instance : LE AccountId := ⟨fun a b => a.bytes ≤ b.bytes⟩

instance (a b : AccountId) : Decidable (a < b) := inferInstanceAs (Decidable (a.bytes < b.bytes))
instance (a b : AccountId) : Decidable (a ≤ b) := inferInstanceAs (Decidable (a.bytes ≤ b.bytes))

theorem AccountId.lt_def (a b : AccountId) : a < b ↔ a.bytes < b.bytes := Iff.rfl
theorem AccountId.le_def (a b : AccountId) : a ≤ b ↔ a.bytes ≤ b.bytes := Iff.rfl

theorem AccountId.bytes_injective : Function.Injective AccountId.bytes := by
  rintro ⟨bytes, _⟩ ⟨_, _⟩ same
  cases same
  rfl

instance : DecidableEq AccountId := fun a b =>
  decidable_of_iff (a.bytes = b.bytes) AccountId.bytes_injective.eq_iff

/-- The account id of one lowercase letter. -/
def AccountId.ofLetter (c : UInt8) (lower : 97 ≤ c ∧ c ≤ 122) : AccountId where
  bytes := [c]
  valid := by
    intro d member
    rw [List.mem_singleton] at member
    subst member
    exact Or.inl lower

/-- `a` is a lowercase letter. -/
theorem AccountId.lower_a : (97 : UInt8) ≤ 97 ∧ (97 : UInt8) ≤ 122 := by decide

/-- `b` is a lowercase letter. -/
theorem AccountId.lower_b : (97 : UInt8) ≤ 98 ∧ (98 : UInt8) ≤ 122 := by decide

/-- Both separators sort below every account-id character. -/
theorem separator_below {c s : UInt8} (account : IsAccountChar c) (small : s.toNat ≤ 44) : s < c := by
  rw [UInt8.lt_iff_toNat_lt]
  unfold IsAccountChar at account
  simp only [UInt8.le_iff_toNat_le, UInt8.ext_iff] at account
  simp at account
  omega

abbrev CryptoHash := Vector UInt8 32
abbrev ShardId := UInt64

inductive PublicKey where
  | ed25519 (key : Vector UInt8 32)
  | secp256k1 (key : Vector UInt8 64)

/-- Borsh writes the key type as one byte before the raw key. -/
def PublicKey.borshBytes : PublicKey → List UInt8
  | .ed25519 key => 0 :: key.toList
  | .secp256k1 key => 1 :: key.toList

section
attribute [local simp] PublicKey.borshBytes
end

/-- Little-endian bytes of `n` in a field of `width` bytes (`to_le_bytes`). -/
def leBytes (n : Nat) : Nat → List UInt8
  | 0 => []
  | width + 1 => UInt8.ofNat n :: leBytes (n / 256) width

section
attribute [local simp] leBytes
end

inductive GlobalContractCodeIdentifier where
  | codeHash (hash : CryptoHash)
  | accountId (accountId : AccountId)

/-- Borsh of the enum: the variant byte, then the hash or the length-prefixed string. -/
def GlobalContractCodeIdentifier.appendInto : GlobalContractCodeIdentifier → List UInt8 → List UInt8
  | .codeHash hash, buf => buf ++ 0 :: hash.toList
  | .accountId account, buf => buf ++ 1 :: (leBytes account.bytes.length 4 ++ account.bytes)

section
attribute [local simp] GlobalContractCodeIdentifier.appendInto
end

inductive TrieKey where
  | account (accountId : AccountId)
  | contractCode (accountId : AccountId)
  | accessKey (accountId : AccountId) (publicKey : PublicKey)
  | receivedData (receiverId : AccountId) (dataId : CryptoHash)
  | postponedReceiptId (receiverId : AccountId) (dataId : CryptoHash)
  | pendingDataCount (receiverId : AccountId) (receiptId : CryptoHash)
  | postponedReceipt (receiverId : AccountId) (receiptId : CryptoHash)
  | delayedReceiptIndices
  | delayedReceipt (index : UInt64)
  | contractData (accountId : AccountId) (key : List UInt8)
  | promiseYieldIndices
  | promiseYieldTimeout (index : UInt64)
  | promiseYieldReceipt (receiverId : AccountId) (dataId : CryptoHash)
  | bufferedReceiptIndices
  | bufferedReceipt (receivingShard : ShardId) (index : UInt64)
  | bandwidthSchedulerState
  | bufferedReceiptGroupsQueueData (receivingShard : ShardId)
  | bufferedReceiptGroupsQueueItem (receivingShard : ShardId) (index : UInt64)
  | globalContractCode (identifier : GlobalContractCodeIdentifier)

deriving instance DecidableEq for PublicKey, GlobalContractCodeIdentifier, TrieKey

/-- `TrieKey::append_into`; `none` is the panic of the assertion that a buffered
receipt's receiving shard fits in a `u16`. -/
def TrieKey.appendInto (key : TrieKey) (buf : List UInt8) : Option (List UInt8) :=
  match key with
  | .account accountId => some (buf ++ Col.account :: accountId.bytes)
  | .contractCode accountId => some (buf ++ Col.contractCode :: accountId.bytes)
  | .accessKey accountId publicKey =>
    some (buf ++ Col.accessKey :: (accountId.bytes ++ accessKeySeparator :: publicKey.borshBytes))
  | .receivedData receiverId dataId =>
    some (buf ++ Col.receivedData :: (receiverId.bytes ++ accountDataSeparator :: dataId.toList))
  | .postponedReceiptId receiverId dataId =>
    some (buf ++ Col.postponedReceiptId :: (receiverId.bytes ++ accountDataSeparator :: dataId.toList))
  | .pendingDataCount receiverId receiptId =>
    some (buf ++ Col.pendingDataCount :: (receiverId.bytes ++ accountDataSeparator :: receiptId.toList))
  | .postponedReceipt receiverId receiptId =>
    some (buf ++ Col.postponedReceipt :: (receiverId.bytes ++ accountDataSeparator :: receiptId.toList))
  | .delayedReceiptIndices => some (buf ++ [Col.delayedReceiptOrIndices])
  | .delayedReceipt index => some (buf ++ Col.delayedReceiptOrIndices :: leBytes index.toNat 8)
  | .contractData accountId key =>
    some (buf ++ Col.contractData :: (accountId.bytes ++ accountDataSeparator :: key))
  | .promiseYieldIndices => some (buf ++ [Col.promiseYieldIndices])
  | .promiseYieldTimeout index => some (buf ++ Col.promiseYieldTimeout :: leBytes index.toNat 8)
  | .promiseYieldReceipt receiverId dataId =>
    some (buf ++ Col.promiseYieldReceipt :: (receiverId.bytes ++ accountDataSeparator :: dataId.toList))
  | .bufferedReceiptIndices => some (buf ++ [Col.bufferedReceiptIndices])
  | .bufferedReceipt receivingShard index =>
    if receivingShard.toNat ≤ 65535 then
      some (buf ++ Col.bufferedReceipt :: (leBytes receivingShard.toNat 2 ++ leBytes index.toNat 8))
    else none
  | .bandwidthSchedulerState => some (buf ++ [Col.bandwidthSchedulerState])
  | .bufferedReceiptGroupsQueueData receivingShard =>
    some (buf ++ Col.bufferedReceiptGroupsQueueData :: leBytes receivingShard.toNat 8)
  | .bufferedReceiptGroupsQueueItem receivingShard index =>
    some (buf ++ Col.bufferedReceiptGroupsQueueItem :: (leBytes receivingShard.toNat 8 ++ leBytes index.toNat 8))
  | .globalContractCode identifier => some (identifier.appendInto (buf ++ [Col.globalContractCode]))

section
attribute [local simp] TrieKey.appendInto
end

def TrieKey.toVec (key : TrieKey) : Option (List UInt8) := key.appendInto []

section
attribute [local simp] TrieKey.toVec
end

def TrieKey.getAccountId : TrieKey → Option AccountId
  | .account accountId => some accountId
  | .contractCode accountId => some accountId
  | .accessKey accountId _ => some accountId
  | .receivedData receiverId _ => some receiverId
  | .postponedReceiptId receiverId _ => some receiverId
  | .pendingDataCount receiverId _ => some receiverId
  | .postponedReceipt receiverId _ => some receiverId
  | .contractData accountId _ => some accountId
  | .promiseYieldReceipt receiverId _ => some receiverId
  | _ => none

section
attribute [local simp] TrieKey.getAccountId
end

/-- Every key that belongs to an account is its column byte, the account id, and
either nothing or a tail opening with a byte at most `b','`. -/
theorem toVec_of_getAccountId (key : TrieKey) (accountId : AccountId)
    (owner : key.getAccountId = some accountId) :
    ∃ column name rest, key.toVec = some (column :: (accountId.bytes ++ rest)) ∧
      (column, name) ∈ Col.columnsWithAccountIdInKey ∧
      (rest = [] ∨ ∃ s tail, rest = s :: tail ∧ s.toNat ≤ 44) := by
  cases key <;> simp only [TrieKey.getAccountId, Option.some.injEq, reduceCtorEq] at owner <;> subst owner
  case account =>
    exact ⟨Col.account, "Account", [], by simp [TrieKey.toVec, TrieKey.appendInto], by decide, .inl rfl⟩
  case contractCode =>
    exact ⟨Col.contractCode, "ContractCode", [], by simp [TrieKey.toVec, TrieKey.appendInto], by decide,
      .inl rfl⟩
  case accessKey publicKey =>
    exact ⟨Col.accessKey, "AccessKey", _, rfl, by decide, .inr ⟨_, _, rfl, by decide⟩⟩
  case receivedData dataId =>
    exact ⟨Col.receivedData, "ReceivedData", _, rfl, by decide, .inr ⟨_, _, rfl, by decide⟩⟩
  case postponedReceiptId dataId =>
    exact ⟨Col.postponedReceiptId, "PostponedReceiptId", _, rfl, by decide, .inr ⟨_, _, rfl, by decide⟩⟩
  case pendingDataCount receiptId =>
    exact ⟨Col.pendingDataCount, "PendingDataCount", _, rfl, by decide, .inr ⟨_, _, rfl, by decide⟩⟩
  case postponedReceipt receiptId =>
    exact ⟨Col.postponedReceipt, "PostponedReceipt", _, rfl, by decide, .inr ⟨_, _, rfl, by decide⟩⟩
  case contractData key =>
    exact ⟨Col.contractData, "ContractData", _, rfl, by decide, .inr ⟨_, _, rfl, by decide⟩⟩
  case promiseYieldReceipt dataId =>
    exact ⟨Col.promiseYieldReceipt, "PromiseYieldReceipt", _, rfl, by decide, .inr ⟨_, _, rfl, by decide⟩⟩

/-- Every key starts with the byte of one of the columns. -/
theorem toVec_head (key : TrieKey) (bytes : List UInt8) (encoded : key.toVec = some bytes) :
    ∃ column rest, bytes = column :: rest ∧ column ∈ Col.allColumnsWithNames.map Prod.fst := by
  cases key <;> simp only [TrieKey.toVec, TrieKey.appendInto, GlobalContractCodeIdentifier.appendInto,
    List.nil_append, Option.some.injEq] at encoded
  all_goals try (split at encoded <;> simp only [Option.some.injEq, reduceCtorEq] at encoded)
  all_goals try (rename_i identifier; cases identifier <;> simp only at encoded)
  all_goals exact ⟨_, _, encoded.symm, by decide⟩

end Nearcore
