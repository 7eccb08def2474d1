import EvmModel.Accounts
import EvmModel.Gas

/-!
# What is checked before a block is executed

The functions `validateHeaderBeforeTransactions` and `validateTransaction` of
`Conform/TestRunner.lean`, with the headers, transactions and exceptions they
speak of.  Validation reads more of a header and of a transaction than execution
does; what it reads besides is added here.
-/

namespace EvmYul
namespace Conform

/-! ## Exceptions -/

/-- The exceptions of `validateTransaction`, of the blob count and of the
deserialisation of a transaction. -/
inductive TransactionException where
  | IllFormedRLP
  | INVALID_SIGNATURE_VRS
  | NONCE_MISMATCH_TOO_LOW
  | NONCE_MISMATCH_TOO_HIGH
  | SENDER_NOT_EOA
  | INSUFFICIENT_ACCOUNT_FUNDS
  | PRIORITY_GREATER_THAN_MAX_FEE_PER_GAS
  | TYPE_3_TX_ZERO_BLOBS
  | INTRINSIC_GAS_TOO_LOW
  | INSUFFICIENT_MAX_FEE_PER_BLOB_GAS
  | INITCODE_SIZE_EXCEEDED
  | NONCE_IS_MAX
  | TYPE_3_TX_BLOB_COUNT_EXCEEDED
  | GAS_ALLOWANCE_EXCEEDED
  | TYPE_3_TX_MAX_BLOB_GAS_ALLOWANCE_EXCEEDED
  | INSUFFICIENT_MAX_FEE_PER_GAS
  | TYPE_3_TX_INVALID_BLOB_VERSIONED_HASH
  | TYPE_3_TX_CONTRACT_CREATION
  | GASLIMIT_PRICE_PRODUCT_OVERFLOW
  | RLP_INVALID_VALUE

/-- The exceptions of the checks of a header and of a block, and of the
deserialisation of a block. -/
inductive BlockException where
  | INCORRECT_EXCESS_BLOB_GAS
  | INCORRECT_BLOB_GAS_USED
  | INCORRECT_BLOCK_FORMAT
  | BLOB_GAS_USED_ABOVE_LIMIT
  | INVALID_WITHDRAWALS_ROOT
  | IMPORT_IMPOSSIBLE_UNCLES_OVER_PARIS
  | RLP_STRUCTURES_ENCODING
  | IMPORT_IMPOSSIBLE_DIFFICULTY_OVER_PARIS
  | RLP_INVALID_FIELD_OVERFLOW_64
  | RLP_INVALID_ADDRESS
  | GASLIMIT_TOO_BIG
  | INVALID_GAS_USED
  | UNKNOWN_PARENT_ZERO
  | EXTRA_DATA_TOO_BIG
  | INVALID_BLOCK_NUMBER
  | INVALID_BLOCK_TIMESTAMP_OLDER_THAN_PARENT
  | INVALID_GASLIMIT
  | INVALID_BASEFEE_PER_GAS
  | UNKNOWN_PARENT
  | INVALID_STATE_ROOT
  | INVALID_LOG_BLOOM
  | INVALID_TRANSACTIONS_ROOT
  | INVALID_RECEIPTS_ROOT

inductive Exception where
  | ExecutionException (e : EVM.ExecutionException)
  | NotEncodableRLP
  | TransactionException (e : TransactionException)
  | SenderRecoverError (s : String)
  | BlockException (e : BlockException)
  | MissedExpectedException (exception : List String)

/-- `if c then throw e`. -/
def throwIf (c : Prop) [Decidable c] (e : Exception) : Except Exception Unit :=
  if c then .error e else .ok ()

/-! ## Headers -/

/-- A block header: what execution reads, and what validation reads besides. -/
structure BlockHeader extends EvmYul.BlockHeader where
  parentHash : UInt256
  ommersHash : UInt256
  stateRoot : UInt256
  transRoot : ByteArray
  receiptRoot : ByteArray
  logsBloom : ByteArray
  difficulty : ℕ
  gasUsed : ℕ
  extraData : ByteArray
  parentBeaconBlockRoot : ByteArray
  withdrawalsRoot : ByteArray
  blobGasUsed : UInt64
  deriving Inhabited

/-- A processed block: its hash, its header, and the world after it. -/
structure ProcessedBlock extends EvmYul.ProcessedBlock where
  blockHeader : BlockHeader
  σ : AccountMap
  deriving Inhabited

def TARGET_BLOB_GAS_PER_BLOCK : ℕ := 393216

def calcExcessBlobGas (parent : BlockHeader) : Option UInt64 :=
  if parent.excessBlobGas.toNat + parent.blobGasUsed.toNat < TARGET_BLOB_GAS_PER_BLOCK then some 0
  else
    some (.ofNat
      (parent.excessBlobGas.toNat + parent.blobGasUsed.toNat - TARGET_BLOB_GAS_PER_BLOCK))

/-- The base fee a block after `parent` has to have. -/
def expectedBaseFeePerGas (parent : BlockHeader) : ℕ :=
  let ρ := 2
  let τ := parent.gasLimit / ρ
  let ε := 8
  let νStar :=
    if parent.gasUsed < τ then (parent.baseFeePerGas * (τ - parent.gasUsed)) / τ
    else (parent.baseFeePerGas * (parent.gasUsed - τ)) / τ
  let ν := if parent.gasUsed < τ then νStar / ε else max (νStar / ε) 1
  if parent.gasUsed = τ then parent.baseFeePerGas
  else if parent.gasUsed < τ then parent.baseFeePerGas - ν
  else parent.baseFeePerGas + ν

/-- The gas limit is out of bounds. -/
def invalidGasLimit (P_Hₗ : ℕ) (header : BlockHeader) : Prop :=
  header.gasLimit < 5000 ∨ P_Hₗ + P_Hₗ / 1024 ≤ header.gasLimit ∨
    header.gasLimit ≤ P_Hₗ - P_Hₗ / 1024

instance (P_Hₗ : ℕ) (header : BlockHeader) : Decidable (invalidGasLimit P_Hₗ header) :=
  inferInstanceAs (Decidable (_ ∨ _ ∨ _))

/-- Find the parent of a block, the last processed one with its hash, and check
the fields of the header that transactions are validated against. -/
def validateHeaderBeforeTransactions (blocks : Array ProcessedBlock) (header : BlockHeader) :
    Except Exception ProcessedBlock := do
  throwIf (header.parentHash = 0) (.BlockException .UNKNOWN_PARENT_ZERO)
  match blocks.findRev? fun b => b.hash = header.parentHash with
  | none => .error (.BlockException .UNKNOWN_PARENT)
  | some parent => do
    throwIf (invalidGasLimit parent.blockHeader.gasLimit header)
      (.BlockException .INVALID_GASLIMIT)
    throwIf (header.baseFeePerGas ≠ expectedBaseFeePerGas parent.blockHeader)
      (.BlockException .INVALID_BASEFEE_PER_GAS)
    throwIf (calcExcessBlobGas parent.blockHeader ≠ some header.excessBlobGas)
      (.BlockException .INCORRECT_EXCESS_BLOB_GAS)
    .ok parent

/-! ## Transactions -/

/-- A signed transaction: what execution reads, and what validation reads
besides. -/
structure SignedTransaction where
  T : Transaction
  nonce : UInt256
  r : ByteArray
  s : ByteArray
  /-- `w` of a legacy transaction, `yParity` of the others. -/
  w : UInt256
  /-- Of the types 1 to 3. -/
  chainId : UInt256
  /-- Of type 3. -/
  maxFeePerBlobGas : UInt256

def secp256k1n : ℕ :=
  115792089237316195423570985008687907852837564279074904382605163141518161494337

def VERSIONED_HASH_VERSION_KZG : UInt8 := 1

namespace SignedTransaction

variable (T : SignedTransaction)

/-- The recipient as a byte string, empty for a contract creation. -/
def recipientBytes : ByteArray :=
  match T.T.base.recipient with
  | none => .empty
  | some t => t.toByteArray

def accessEntriesRLP (aEs : List (AccountAddress × Array UInt256)) : 𝕋 :=
  .𝕃 (aEs.map fun p => .𝕃 [.𝔹 p.1.toByteArray, .𝕃 (p.2.toList.map fun k => .𝔹 k.toByteArray)])

/-- The transaction is protected against replay on another chain, EIP-155. -/
def isProtected (chainId : ℕ) : Prop :=
  T.w = .ofNat (35 + chainId * 2) ∨ T.w = .ofNat (36 + chainId * 2)

instance (chainId : ℕ) : Decidable (T.isProtected chainId) := inferInstanceAs (Decidable (_ ∨ _))

/-- What is hashed to recover the sender, equation 317. -/
def L_X (chainId : ℕ) : Except Exception 𝕋 :=
  match T.T with
  | .legacy t =>
    let fields :=
      [BE T.nonce.val, BE t.gasPrice.val, BE t.gasLimit.val, T.recipientBytes, BE t.value.val,
        t.data]
    if T.w.val ∈ [27, 28] then .ok (.𝕃 (fields.map .𝔹))
    else if T.isProtected chainId then
      .ok (.𝕃 ((fields ++ [BE chainId, .empty, .empty]).map .𝔹))
    else .error (.TransactionException .IllFormedRLP)
  | .access t =>
    .ok (.𝕃
      [.𝔹 (BE T.chainId.val), .𝔹 (BE T.nonce.val), .𝔹 (BE t.gasPrice.val), .𝔹 (BE t.gasLimit.val),
        .𝔹 T.recipientBytes, .𝔹 (BE t.value.val), .𝔹 t.data, accessEntriesRLP t.accessList])
  | .dynamic t =>
    .ok (.𝕃
      [.𝔹 (BE T.chainId.val), .𝔹 (BE T.nonce.val), .𝔹 (BE t.maxPriorityFeePerGas.val),
        .𝔹 (BE t.maxFeePerGas.val), .𝔹 (BE t.gasLimit.val), .𝔹 T.recipientBytes,
        .𝔹 (BE t.value.val), .𝔹 t.data, accessEntriesRLP t.accessList])
  | .blob t =>
    .ok (.𝕃
      [.𝔹 (BE T.chainId.val), .𝔹 (BE T.nonce.val), .𝔹 (BE t.maxPriorityFeePerGas.val),
        .𝔹 (BE t.maxFeePerGas.val), .𝔹 (BE t.gasLimit.val), .𝔹 T.recipientBytes,
        .𝔹 (BE t.value.val), .𝔹 t.data, accessEntriesRLP t.accessList,
        .𝔹 (BE T.maxFeePerBlobGas.val), .𝕃 (t.blobVersionedHashes.map .𝔹)])

/-- The checks that are about one type of transactions only. -/
def validateType (header : BlockHeader) : Except Exception Unit :=
  match T.T with
  | .dynamic t =>
    throwIf (t.maxFeePerGas < t.maxPriorityFeePerGas)
      (.TransactionException .PRIORITY_GREATER_THAN_MAX_FEE_PER_GAS)
  | .blob bt => do
    throwIf (bt.recipient = none) (.TransactionException .TYPE_3_TX_CONTRACT_CREATION)
    throwIf (T.maxFeePerBlobGas.val < header.getBlobGasprice)
      (.TransactionException .INSUFFICIENT_MAX_FEE_PER_BLOB_GAS)
    throwIf (6 < bt.blobVersionedHashes.length)
      (.TransactionException .TYPE_3_TX_BLOB_COUNT_EXCEEDED)
    throwIf (bt.blobVersionedHashes.length = 0) (.TransactionException .TYPE_3_TX_ZERO_BLOBS)
    throwIf (bt.blobVersionedHashes.any fun h => h.data[0]? ≠ some VERSIONED_HASH_VERSION_KZG)
      (.TransactionException .TYPE_3_TX_INVALID_BLOB_VERSIONED_HASH)
  | _ => .ok ()

/-- The code of a contract creation is not too long. -/
def validateInitCode : Except Exception Unit :=
  match T.T.base.recipient with
  | none =>
    let MAX_CODE_SIZE := 24576
    let MAX_INITCODE_SIZE := 2 * MAX_CODE_SIZE
    throwIf (MAX_INITCODE_SIZE < T.T.base.data.size) (.TransactionException .INITCODE_SIZE_EXCEEDED)
  | some _ => .ok ()

/-- The parity of the signature, equation 324. -/
def v (chainId : ℕ) : ℕ :=
  match T.T with
  | .legacy _ =>
    let w := T.w.val
    if w ∈ [27, 28] then w - 27
    else if w = 35 + chainId * 2 ∨ w = 36 + chainId * 2 then (w - 35) % 2
    else w
  | _ => T.w.val

/-- Check the signature and recover the sender, equations 318 and 323. -/
def recoverSender (E : Externals) (chainId : ℕ) : Except Exception AccountAddress := do
  let tree ← T.L_X chainId
  match RLP tree with
  | none => .error (.TransactionException .IllFormedRLP)
  | some T_RLP => do
    let r := fromByteArrayBigEndian T.r
    let s := fromByteArrayBigEndian T.s
    throwIf (r ≤ 0 ∨ secp256k1n ≤ r) (.TransactionException .INVALID_SIGNATURE_VRS)
    throwIf (s ≤ 0 ∨ secp256k1n / 2 < s) (.TransactionException .INVALID_SIGNATURE_VRS)
    throwIf (T.v chainId ∉ [0, 1]) (.TransactionException .INVALID_SIGNATURE_VRS)
    let h_T :=
      match T.T with
      | .legacy _ => E.KEC T_RLP
      | _ => E.KEC (⟨#[T.T.type]⟩ ++ T_RLP)
    match E.ECDSARECOVER h_T ⟨#[.ofNat (T.v chainId)]⟩ T.r T.s with
    | .ok s => .ok (Fin.ofNat _ (fromByteArrayBigEndian ((E.KEC s).extract 12 32)))
    | .error s => .error (.SenderRecoverError s)

/-- What the sender may have to pay at most, as a word. -/
def v₀ : Except Exception UInt256 :=
  match T.T with
  | .legacy t => do
    throwIf (2 ^ 256 < t.gasLimit.val * t.gasPrice.val)
      (.TransactionException .GASLIMIT_PRICE_PRODUCT_OVERFLOW)
    .ok (t.gasLimit * t.gasPrice + t.value)
  | .access t => do
    throwIf (2 ^ 256 < t.gasLimit.val * t.gasPrice.val)
      (.TransactionException .GASLIMIT_PRICE_PRODUCT_OVERFLOW)
    .ok (t.gasLimit * t.gasPrice + t.value)
  | .dynamic t => .ok (t.gasLimit * t.maxFeePerGas + t.value)
  | .blob t =>
    .ok (t.gasLimit * t.maxFeePerGas + t.value +
      .ofNat (getTotalBlobGas T.T) * T.maxFeePerBlobGas)

/-- The checks of the sender: it has no code, the nonce is its next one, and it
can pay. -/
def validateSender (σ : AccountMap) (S_T : AccountAddress) : Except Exception Unit := do
  let (senderCode, senderNonce, senderBalance) :=
    match σ[S_T]? with
    | some sender => (sender.code, sender.nonce, sender.balance)
    | none => (.empty, 0, 0)
  throwIf (senderCode ≠ .empty) (.TransactionException .SENDER_NOT_EOA)
  throwIf (T.nonce < senderNonce) (.TransactionException .NONCE_MISMATCH_TOO_LOW)
  throwIf (senderNonce < T.nonce) (.TransactionException .NONCE_MISMATCH_TOO_HIGH)
  let v₀ ← T.v₀
  throwIf (senderBalance < v₀) (.TransactionException .INSUFFICIENT_ACCOUNT_FUNDS)

end SignedTransaction

/-- The checks before a transaction is executed; the result is its sender. -/
def validateTransaction (E : Externals) (σ : AccountMap) (chainId : ℕ) (header : BlockHeader)
    (totalGasUsedInBlock : ℕ) (T : SignedTransaction) : Except Exception AccountAddress := do
  throwIf (header.gasLimit < T.T.base.gasLimit.val + totalGasUsedInBlock)
    (.TransactionException .GAS_ALLOWANCE_EXCEEDED)
  throwIf (2 ^ 64 - 1 ≤ T.nonce.val) (.TransactionException .NONCE_IS_MAX)
  throwIf (T.T.maxFeePerGas.val < header.baseFeePerGas)
    (.TransactionException .INSUFFICIENT_MAX_FEE_PER_GAS)
  throwIf (T.T.base.gasLimit.val < EVM.intrinsicGas T.T)
    (.TransactionException .INTRINSIC_GAS_TOO_LOW)
  T.validateType header
  T.validateInitCode
  let S_T ← T.recoverSender E chainId
  T.validateSender σ S_T
  .ok S_T

/-! ## What has been checked -/

theorem throwIf_spec (c : Prop) [Decidable c] (e : Exception) :
    Ensures (throwIf c e) fun _ => ¬c :=
  Ensures.ite (fun _ => Ensures.error) fun h => Ensures.ok_iff.2 h

/-- A check that is passed. -/
theorem Ensures.check {α : Type} {c : Prop} [Decidable c] {e : Exception}
    {f : Unit → Except Exception α} {Q : α → Prop} (h : ¬c → Ensures (f ()) Q) :
    Ensures (throwIf c e >>= f) Q :=
  Ensures.bind (throwIf_spec c e) fun _ hc => h hc

/-- What is known of a header that has been checked against its parent. -/
structure HeaderChecked (blocks : Array ProcessedBlock) (header : BlockHeader)
    (parent : ProcessedBlock) : Prop where
  known : header.parentHash ≠ 0
  mem : parent ∈ blocks
  hash : parent.hash = header.parentHash
  gasLimit : ¬invalidGasLimit parent.blockHeader.gasLimit header
  baseFee : header.baseFeePerGas = expectedBaseFeePerGas parent.blockHeader
  blobGas : calcExcessBlobGas parent.blockHeader = some header.excessBlobGas

theorem validateHeaderBeforeTransactions_spec (blocks : Array ProcessedBlock)
    (header : BlockHeader) :
    Ensures (validateHeaderBeforeTransactions blocks header) (HeaderChecked blocks header) := by
  unfold validateHeaderBeforeTransactions
  refine Ensures.check fun hknown => ?_
  cases hp : blocks.findRev? fun b => b.hash = header.parentHash with
  | none => exact Ensures.error
  | some parent =>
    refine Ensures.check fun hlimit => Ensures.check fun hfee => Ensures.check fun hblob => ?_
    rw [Array.findRev?_eq_find?_reverse] at hp
    refine Ensures.ok_iff.2 ⟨hknown, ?_, ?_, hlimit, not_not.1 hfee, not_not.1 hblob⟩
    · simpa using Array.mem_of_find?_eq_some hp
    · simpa using Array.find?_some hp

/-- What is known of the sender of a transaction. -/
structure SenderChecked (T : SignedTransaction) (σ : AccountMap) (S_T : AccountAddress) : Prop where
  code : (σ.account S_T).code = .empty
  nonce : T.nonce = (σ.account S_T).nonce
  funds : Returns T.v₀ fun v₀ => v₀ ≤ (σ.account S_T).balance

theorem validateSender_spec (T : SignedTransaction) (σ : AccountMap) (S_T : AccountAddress) :
    Ensures (T.validateSender σ S_T) fun _ => SenderChecked T σ S_T := by
  have hread : (match σ[S_T]? with
      | some sender => (sender.code, sender.nonce, sender.balance)
      | none => (.empty, 0, 0)) =
        ((σ.account S_T).code, (σ.account S_T).nonce, (σ.account S_T).balance) := by
    cases h : σ[S_T]? with
    | none => rw [AccountMap.account_of_none h]; rfl
    | some acc => rw [AccountMap.account_of_some h]
  unfold SignedTransaction.validateSender
  rw [hread]
  refine Ensures.check fun hcode => Ensures.check fun hlow => Ensures.check fun hhigh => ?_
  refine Ensures.bind_any fun v hv => (throwIf_spec _ _).mono fun _ hfunds => ?_
  exact ⟨not_not.1 hcode, le_antisymm (not_lt.1 hhigh) (not_lt.1 hlow),
    Returns.of_eq hv (not_lt.1 hfunds)⟩

/-- What is known of a transaction that has been let into a block. -/
structure Admitted (E : Externals) (σ : AccountMap) (chainId : ℕ) (header : BlockHeader)
    (totalGasUsedInBlock : ℕ) (T : SignedTransaction) (S_T : AccountAddress) : Prop where
  allowance : T.T.base.gasLimit.val + totalGasUsedInBlock ≤ header.gasLimit
  nonce_lt : T.nonce.val < 2 ^ 64 - 1
  fee : header.baseFeePerGas ≤ T.T.maxFeePerGas.val
  intrinsic : EVM.intrinsicGas T.T ≤ T.T.base.gasLimit.val
  type : T.validateType header = .ok ()
  recovered : T.recoverSender E chainId = .ok S_T
  sender : SenderChecked T σ S_T

theorem validateTransaction_spec (E : Externals) (σ : AccountMap) (chainId : ℕ)
    (header : BlockHeader) (totalGasUsedInBlock : ℕ) (T : SignedTransaction) :
    Ensures (validateTransaction E σ chainId header totalGasUsedInBlock T)
      (Admitted E σ chainId header totalGasUsedInBlock T) := by
  unfold validateTransaction
  refine Ensures.check fun hallowance => Ensures.check fun hnonce => Ensures.check fun hfee =>
    Ensures.check fun hgas => ?_
  refine Ensures.bind_any fun _ htype => Ensures.bind_any fun _ _ => Ensures.bind_any fun S_T hS => ?_
  refine Ensures.bind (validateSender_spec T σ S_T) fun _ hsender => ?_
  exact Ensures.ok_iff.2 ⟨not_lt.1 hallowance, not_le.1 hnonce, not_lt.1 hfee, not_lt.1 hgas,
    htype, hS, hsender⟩

end Conform
end EvmYul
