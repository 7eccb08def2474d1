import EvmModel.Chain.Validation
import EvmModel.Termination

/-!
# Blocks

The functions of `Conform/TestRunner.lean` that execute a block — the call of
the beacon roots contract, the transactions, the withdrawals — and that process
a list of blocks, each on the world after its parent; with the withdrawals of
`EvmYul/State/Withdrawal.lean`, the receipts of `EvmYul/State/Transaction.lean`
and the bloom filter of `EvmYul/State/Substate.lean`.
-/

namespace EvmYul
namespace Conform

/-! ## Receipts -/

/-- The bits that stand for a byte string in a bloom filter. -/
def bloomFilter.bitIndices (E : Externals) (x : ByteArray) : List ℕ :=
  let kec := E.KEC x
  [readWithPadding kec 0 2, readWithPadding kec 2 2, readWithPadding kec 4 2].map
    fun b => fromByteArrayBigEndian b &&& (1 <<< 11 - 1)

def bloomFilter.setBit (bytes256 : ByteArray) (bitIndex : ℕ) : ByteArray :=
  let byteIndex := 255 - bitIndex / 8
  let mask : UInt8 := .ofNat (1 <<< (bitIndex % 8))
  bytes256.set! byteIndex (bytes256.get! byteIndex ||| mask)

def bloomFilter.set3Bits (E : Externals) (acc b : ByteArray) : ByteArray :=
  (bitIndices E b).foldl setBit acc

/-- The bloom filter of a list of byte strings. -/
def bloomFilter (E : Externals) (a : List ByteArray) : ByteArray :=
  a.foldl (bloomFilter.set3Bits E) (zeroes 256)

/-- The topics and addresses of the log. -/
def Substate.joinLogs (substate : Substate) : List ByteArray :=
  substate.logSeries.toList.flatMap fun l =>
    l.topics.toList.map UInt256.toByteArray ++ [l.address.toByteArray]

structure TransactionReceipt where
  type : UInt8
  statusCode : Bool
  cumulativeGasUsedInBlock : ℕ
  bloomFilter : ByteArray
  logSeries : Array LogEntry

def LogEntry.to𝕋 (l : LogEntry) : 𝕋 :=
  .𝕃 [.𝔹 l.address.toByteArray, .𝕃 (l.topics.toList.map fun t => .𝔹 t.toByteArray), .𝔹 l.data]

def L_R (r : TransactionReceipt) : 𝕋 :=
  .𝕃
    [.𝔹 (if r.statusCode then BE 1 else BE 0), .𝔹 (BE r.cumulativeGasUsedInBlock),
      .𝔹 r.bloomFilter, .𝕃 (r.logSeries.toList.map LogEntry.to𝕋)]

/-- The receipt as it stands in the trie; one that cannot be encoded is a panic
in the source, whose value is the empty byte string. -/
def TransactionReceipt.toTrieValue (r : TransactionReceipt) : ByteArray :=
  let rlp := (RLP (L_R r)).getD .empty
  if r.type = 0 then rlp else ⟨#[r.type]⟩ ++ rlp

/-! ## The state of a block -/

/-- The part of the state that goes from transaction to transaction, and from
block to block. -/
structure BlockState where
  accountMap : AccountMap
  totalGasUsedInBlock : ℕ
  transactionReceipts : Array TransactionReceipt
  substate : Substate
  blocks : Array ProcessedBlock
  genesisBlockHeader : BlockHeader

/-- The blocks as execution sees them. -/
def BlockState.history (s : BlockState) : ProcessedBlocks :=
  s.blocks.map ProcessedBlock.toProcessedBlock

/-- The arguments of `Υ` for a transaction. -/
def toΥ (transaction : SignedTransaction) (sender : AccountAddress) (s : BlockState)
    (header : BlockHeader) : EVM.Υ.Input where
  σ := s.accountMap
  H_f := header.baseFeePerGas
  H := header.toBlockHeader
  genesisBlockHeader := s.genesisBlockHeader.toBlockHeader
  blocks := s.history
  T := transaction.T
  S_T := sender

/-- The state after a transaction with the given outcome. -/
def BlockState.record (E : Externals) (s : BlockState) (type : UInt8) (ypState : AccountMap)
    (substate : Substate) (statusCode : Bool) (totalGasUsed : UInt256) : BlockState :=
  { s with
    accountMap := ypState
    totalGasUsedInBlock := s.totalGasUsedInBlock + totalGasUsed.val
    transactionReceipts := s.transactionReceipts.push
      ⟨type, statusCode, s.totalGasUsedInBlock + totalGasUsed.val,
        bloomFilter E (Substate.joinLogs substate), substate.logSeries⟩
    substate := substate }

/-- Execute a transaction, with the balance of its sender for fuel. -/
def executeTransaction (E : Externals) (transaction : SignedTransaction) (sender : AccountAddress)
    (s : BlockState) (header : BlockHeader) : Except Exception BlockState :=
  let x := toΥ transaction sender s header
  match EVM.Υ E (EVM.executeTransaction.fuel x) x with
  | .error (.ExecutionException e) => .error (.ExecutionException e)
  | .ok (ypState, substate, statusCode, totalGasUsed) =>
    .ok (s.record E transaction.T.type ypState substate statusCode totalGasUsed)

/-! ## Withdrawals -/

/-- A withdrawal; the amount is in Gwei. -/
structure Withdrawal where
  address : AccountAddress
  amount : UInt64

def applyWithdrawal (σ : AccountMap) (w : Withdrawal) : AccountMap :=
  if w.amount ≤ 0 then σ
  else
    match σ[w.address]? with
    | none =>
      σ.insert w.address
        { (default : Account) with balance := .ofNat (w.amount.toNat * 10 ^ 9) }
    | some ac =>
      σ.insert w.address
        { ac with balance := .ofNat (ac.balance.val + w.amount.toNat * 10 ^ 9) }

def applyWithdrawals (σ : AccountMap) (ws : List Withdrawal) : AccountMap :=
  ws.foldl applyWithdrawal σ

/-! ## Blocks -/

/-- A block as it comes out of deserialisation; the roots of the tries are
computed there. -/
structure DeserializedBlock where
  hash : UInt256
  blockHeader : BlockHeader
  transactions : List SignedTransaction
  transactionsTrieRoot : ByteArray
  withdrawals : List Withdrawal
  withdrawalsTrieRoot : ByteArray
  exception : List String

def BEACON_ROOTS_ADDRESS : AccountAddress := 0x000F3df6D732807Ef1319fB7B8bB8522d0Beac02

def SYSTEM_ADDRESS : AccountAddress := 0xfffffffffffffffffffffffffffffffffffffffe

/-- The call of the beacon roots contract, whose code is `roots.code`. -/
def beaconCall (s₀ : BlockState) (block : DeserializedBlock) (roots : Account) : EVM.Θ.Input where
  blobVersionedHashes := []
  createdAccounts := ∅
  genesisBlockHeader := s₀.genesisBlockHeader.toBlockHeader
  blocks := s₀.history
  σ := s₀.accountMap
  σ₀ := s₀.accountMap
  A := default
  s := SYSTEM_ADDRESS
  o := SYSTEM_ADDRESS
  r := BEACON_ROOTS_ADDRESS
  c := .Code roots.code
  g := .ofNat 30000000
  p := .ofNat 0xe8d4a51000
  v := 0
  v' := 0
  d := block.blockHeader.parentBeaconBlockRoot
  e := 0
  H := block.blockHeader.toBlockHeader
  w := true

namespace processBlock

/-- The call of the beacon roots contract, if there is one. -/
def callBeacon (E : Externals) (s₀ : BlockState) (block : DeserializedBlock) :
    Except Exception BlockState :=
  match s₀.accountMap[BEACON_ROOTS_ADDRESS]? with
  | none => .ok s₀
  | some roots =>
    match EVM.Θ E (2 ^ 14) (beaconCall s₀ block roots) with
    | .ok r => .ok { s₀ with accountMap := r.σ' }
    | .error e => .error (.ExecutionException e)

/-- One transaction of the block. -/
def transact (E : Externals) (chainId : ℕ) (block : DeserializedBlock) (s' : BlockState)
    (trans : SignedTransaction) : Except Exception BlockState := do
  let S_T ←
    validateTransaction E s'.accountMap chainId block.blockHeader s'.totalGasUsedInBlock trans
  executeTransaction E trans S_T s' block.blockHeader

end processBlock

/-- Execute a block on the world after its parent. -/
def processBlock (E : Externals) (chainId : ℕ) (s₀ : BlockState) (block : DeserializedBlock) :
    Except Exception BlockState := do
  let s ← processBlock.callBeacon E s₀ block
  let s ← block.transactions.foldlM (processBlock.transact E chainId block)
    { s with totalGasUsedInBlock := 0, transactionReceipts := #[] }
  .ok { s with accountMap := applyWithdrawals s.accountMap block.withdrawals }

/-- The roots of the tries, computed by a Python program. -/
structure Roots where
  stateTrieRoot : AccountMap → Option ByteArray
  receiptsTrieRoot : Array ByteArray → Option ByteArray

def MAX_BLOB_GAS_PER_BLOCK : ℕ := 786432

/-- The blob gas of the transactions. -/
def countBlobGas (transactions : List SignedTransaction) : Except Exception ℕ :=
  transactions.foldlM
    (fun blobSum t => do
      let blobSum := blobSum + getTotalBlobGas t.T
      throwIf (MAX_BLOB_GAS_PER_BLOCK < blobSum)
        (.TransactionException .TYPE_3_TX_MAX_BLOB_GAS_ALLOWANCE_EXCEEDED)
      .ok blobSum) 0

/-- Check the header of a block against its parent and against what executing
the block came to. -/
def validateBlock (E : Externals) (R : Roots) (state : BlockState) (parentHeader : BlockHeader)
    (block : DeserializedBlock) : Except Exception Unit := do
  let H := block.blockHeader
  let blobGasUsed ← countBlobGas block.transactions
  throwIf (state.totalGasUsedInBlock ≠ H.gasUsed) (.BlockException .INVALID_GAS_USED)
  throwIf (H.timestamp ≤ parentHeader.timestamp)
    (.BlockException .INVALID_BLOCK_TIMESTAMP_OLDER_THAN_PARENT)
  throwIf (H.number ≠ parentHeader.number + 1) (.BlockException .INVALID_BLOCK_NUMBER)
  throwIf (32 < H.extraData.size) (.BlockException .EXTRA_DATA_TOO_BIG)
  throwIf (0x7fffffffffffffff < H.gasLimit) (.BlockException .GASLIMIT_TOO_BIG)
  throwIf (H.difficulty ≠ 0) (.BlockException .IMPORT_IMPOSSIBLE_DIFFICULTY_OVER_PARIS)
  throwIf (0x1dcc4de8dec75d7aab85b567b6ccd41ad312451b948a7413f0a142fd40d49347 ≠ H.ommersHash.val)
    (.BlockException .IMPORT_IMPOSSIBLE_UNCLES_OVER_PARIS)
  throwIf (blobGasUsed ≠ H.blobGasUsed.toNat) (.BlockException .INCORRECT_BLOB_GAS_USED)
  throwIf (MAX_BLOB_GAS_PER_BLOCK < blobGasUsed) (.BlockException .BLOB_GAS_USED_ABOVE_LIMIT)
  throwIf (block.withdrawalsTrieRoot ≠ H.withdrawalsRoot)
    (.BlockException .INVALID_WITHDRAWALS_ROOT)
  let computedStateHash : UInt256 :=
    .ofNat (match R.stateTrieRoot state.accountMap with
      | none => 0
      | some root => fromByteArrayBigEndian root)
  throwIf (H.stateRoot ≠ computedStateHash) (.BlockException .INVALID_STATE_ROOT)
  throwIf (H.logsBloom ≠ bloomFilter E (Substate.joinLogs state.substate))
    (.BlockException .INVALID_LOG_BLOOM)
  throwIf (block.transactionsTrieRoot ≠ H.transRoot) (.BlockException .INVALID_TRANSACTIONS_ROOT)
  throwIf (R.receiptsTrieRoot (state.transactionReceipts.map TransactionReceipt.toTrieValue) ≠
      some H.receiptRoot)
    (.BlockException .INVALID_RECEIPTS_ROOT)

/-! ## The texts of the exceptions -/

def ExecutionException.repr : EVM.ExecutionException → String
  | .OutOfFuel => "OutOfFuel"
  | .InvalidInstruction => "InvalidInstruction"
  | .OutOfGass => "OutOfGass"
  | .BadJumpDestination => "BadJumpDestination"
  | .StackOverflow => "StackOverflow"
  | .StackUnderflow => "StackUnderflow"
  | .InvalidMemoryAccess => "InvalidMemoryAccess"
  | .StaticModeViolation => "StaticModeViolation"

def TransactionException.repr : TransactionException → String
  | .IllFormedRLP => "IllFormedRLP"
  | .INVALID_SIGNATURE_VRS => "INVALID_SIGNATURE_VRS"
  | .NONCE_MISMATCH_TOO_LOW => "NONCE_MISMATCH_TOO_LOW"
  | .NONCE_MISMATCH_TOO_HIGH => "NONCE_MISMATCH_TOO_HIGH"
  | .SENDER_NOT_EOA => "SENDER_NOT_EOA"
  | .INSUFFICIENT_ACCOUNT_FUNDS => "INSUFFICIENT_ACCOUNT_FUNDS"
  | .PRIORITY_GREATER_THAN_MAX_FEE_PER_GAS => "PRIORITY_GREATER_THAN_MAX_FEE_PER_GAS"
  | .TYPE_3_TX_ZERO_BLOBS => "TYPE_3_TX_ZERO_BLOBS"
  | .INTRINSIC_GAS_TOO_LOW => "INTRINSIC_GAS_TOO_LOW"
  | .INSUFFICIENT_MAX_FEE_PER_BLOB_GAS => "INSUFFICIENT_MAX_FEE_PER_BLOB_GAS"
  | .INITCODE_SIZE_EXCEEDED => "INITCODE_SIZE_EXCEEDED"
  | .NONCE_IS_MAX => "NONCE_IS_MAX"
  | .TYPE_3_TX_BLOB_COUNT_EXCEEDED => "TYPE_3_TX_BLOB_COUNT_EXCEEDED"
  | .GAS_ALLOWANCE_EXCEEDED => "GAS_ALLOWANCE_EXCEEDED"
  | .TYPE_3_TX_MAX_BLOB_GAS_ALLOWANCE_EXCEEDED => "TYPE_3_TX_MAX_BLOB_GAS_ALLOWANCE_EXCEEDED"
  | .INSUFFICIENT_MAX_FEE_PER_GAS => "INSUFFICIENT_MAX_FEE_PER_GAS"
  | .TYPE_3_TX_INVALID_BLOB_VERSIONED_HASH => "TYPE_3_TX_INVALID_BLOB_VERSIONED_HASH"
  | .TYPE_3_TX_CONTRACT_CREATION => "TYPE_3_TX_CONTRACT_CREATION"
  | .GASLIMIT_PRICE_PRODUCT_OVERFLOW => "GASLIMIT_PRICE_PRODUCT_OVERFLOW"
  | .RLP_INVALID_VALUE => "RLP_INVALID_VALUE"

def BlockException.repr : BlockException → String
  | .INCORRECT_EXCESS_BLOB_GAS => "INCORRECT_EXCESS_BLOB_GAS"
  | .INCORRECT_BLOB_GAS_USED => "INCORRECT_BLOB_GAS_USED"
  | .INCORRECT_BLOCK_FORMAT => "INCORRECT_BLOCK_FORMAT"
  | .BLOB_GAS_USED_ABOVE_LIMIT => "BLOB_GAS_USED_ABOVE_LIMIT"
  | .INVALID_WITHDRAWALS_ROOT => "INVALID_WITHDRAWALS_ROOT"
  | .IMPORT_IMPOSSIBLE_UNCLES_OVER_PARIS => "IMPORT_IMPOSSIBLE_UNCLES_OVER_PARIS"
  | .RLP_STRUCTURES_ENCODING => "RLP_STRUCTURES_ENCODING"
  | .IMPORT_IMPOSSIBLE_DIFFICULTY_OVER_PARIS => "IMPORT_IMPOSSIBLE_DIFFICULTY_OVER_PARIS"
  | .RLP_INVALID_FIELD_OVERFLOW_64 => "RLP_INVALID_FIELD_OVERFLOW_64"
  | .RLP_INVALID_ADDRESS => "RLP_INVALID_ADDRESS"
  | .GASLIMIT_TOO_BIG => "GASLIMIT_TOO_BIG"
  | .INVALID_GAS_USED => "INVALID_GAS_USED"
  | .UNKNOWN_PARENT_ZERO => "UNKNOWN_PARENT_ZERO"
  | .EXTRA_DATA_TOO_BIG => "EXTRA_DATA_TOO_BIG"
  | .INVALID_BLOCK_NUMBER => "INVALID_BLOCK_NUMBER"
  | .INVALID_BLOCK_TIMESTAMP_OLDER_THAN_PARENT => "INVALID_BLOCK_TIMESTAMP_OLDER_THAN_PARENT"
  | .INVALID_GASLIMIT => "INVALID_GASLIMIT"
  | .INVALID_BASEFEE_PER_GAS => "INVALID_BASEFEE_PER_GAS"
  | .UNKNOWN_PARENT => "UNKNOWN_PARENT"
  | .INVALID_STATE_ROOT => "INVALID_STATE_ROOT"
  | .INVALID_LOG_BLOOM => "INVALID_LOG_BLOOM"
  | .INVALID_TRANSACTIONS_ROOT => "INVALID_TRANSACTIONS_ROOT"
  | .INVALID_RECEIPTS_ROOT => "INVALID_RECEIPTS_ROOT"

def Exception.repr : Exception → String
  | .ExecutionException ee => "Execution exception: " ++ ExecutionException.repr ee
  | .NotEncodableRLP => "NotEncodableRLP"
  | .TransactionException e => "TransactionException." ++ e.repr
  | .SenderRecoverError s => "SenderRecoverError." ++ s
  | .BlockException be => "BlockException." ++ be.repr
  | .MissedExpectedException mee => "Missed expected exception: " ++ String.intercalate "|" mee

/-! ## Chains -/

/-- A block as a test gives it: what deserialisation makes of it, and the
exceptions that are expected of it. -/
structure RawBlock where
  block : Except Exception DeserializedBlock
  exception : List String

namespace processBlocks

/-- Process a block on the world after its parent. -/
def accept (E : Externals) (R : Roots) (chainId : ℕ) (accState : BlockState) (rawBlock : RawBlock) :
    Except Exception BlockState := do
  let block ← rawBlock.block
  let parent ← validateHeaderBeforeTransactions accState.blocks block.blockHeader
  let accState ← processBlock E chainId { accState with accountMap := parent.σ } block
  validateBlock E R accState parent.blockHeader block
  throwIf (¬block.exception.isEmpty) (.MissedExpectedException block.exception)
  .ok
    { accState with
      blocks := accState.blocks.push ⟨⟨block.hash⟩, block.blockHeader, accState.accountMap⟩ }

/-- One block of the list: it is accepted, or it fails as expected and is passed
over. -/
def next (E : Externals) (R : Roots) (chainId : ℕ) (accState : BlockState) (rawBlock : RawBlock) :
    Except Exception BlockState :=
  match accept E R chainId accState rawBlock with
  | .ok s => .ok s
  | .error (.MissedExpectedException exception) => .error (.MissedExpectedException exception)
  | .error e => if rawBlock.exception.contains e.repr then .ok accState else .error e

end processBlocks

/-- Process the blocks of a test, from the genesis block on. -/
def processBlocks (E : Externals) (R : Roots) (chainId : ℕ) (genesis : ProcessedBlock)
    (blocks : List RawBlock) : Except Exception BlockState :=
  blocks.foldlM (processBlocks.next E R chainId)
    { accountMap := genesis.σ
      totalGasUsedInBlock := 0
      transactionReceipts := #[]
      substate := default
      blocks := #[genesis]
      genesisBlockHeader := genesis.blockHeader }

/-! ## What the steps of a block do -/

/-- A transaction that was let in, and what came of it. -/
structure Transacted (E : Externals) (chainId : ℕ) (block : DeserializedBlock) (s : BlockState)
    (T : SignedTransaction) (s' : BlockState) where
  S_T : AccountAddress
  σ' : AccountMap
  A : Substate
  z : Bool
  gasUsed : UInt256
  admitted : Admitted E s.accountMap chainId block.blockHeader s.totalGasUsedInBlock T S_T
  executed : EVM.Υ E (EVM.executeTransaction.fuel (toΥ T S_T s block.blockHeader))
    (toΥ T S_T s block.blockHeader) = .ok (σ', A, z, gasUsed)
  state : s' = s.record E T.T.type σ' A z gasUsed

theorem transact_spec (E : Externals) (chainId : ℕ) (block : DeserializedBlock) (s : BlockState)
    (T : SignedTransaction) : Ensures (processBlock.transact E chainId block s T) fun s' =>
      Nonempty (Transacted E chainId block s T s') := by
  unfold processBlock.transact
  refine Ensures.bind (validateTransaction_spec _ _ _ _ _ _) fun S_T hadmitted => ?_
  unfold executeTransaction
  dsimp only
  split
  · exact Ensures.error
  next σ' A z gasUsed hΥ => exact Ensures.ok_iff.2 ⟨⟨S_T, σ', A, z, gasUsed, hadmitted, hΥ, rfl⟩⟩

/-- The beacon roots contract is called, or is not there. -/
theorem callBeacon_spec (E : Externals) (s₀ : BlockState) (block : DeserializedBlock) :
    Ensures (processBlock.callBeacon E s₀ block) fun s => s = s₀ ∨
      ∃ fuel roots r, EVM.Θ E fuel (beaconCall s₀ block roots) = .ok r ∧
        s = { s₀ with accountMap := r.σ' } := by
  unfold processBlock.callBeacon
  split
  · exact Ensures.ok_iff.2 (.inl rfl)
  next roots _ =>
    split
    next r hr => exact Ensures.ok_iff.2 (.inr ⟨_, roots, r, hr, rfl⟩)
    · exact Ensures.error

/-- The world the execution of a transaction leaves. -/
theorem Transacted.accountMap {E : Externals} {chainId : ℕ} {block : DeserializedBlock}
    {s s' : BlockState} {T : SignedTransaction} (h : Transacted E chainId block s T s') :
    s'.accountMap = h.σ' :=
  congrArg BlockState.accountMap h.state

/-- An invariant of the transactions of a block: it holds of the world the
beacon call leaves, and every transaction keeps it. -/
theorem processBlock_spec {E : Externals} {chainId : ℕ} {s₀ : BlockState}
    {block : DeserializedBlock} {P : List SignedTransaction → BlockState → Prop}
    (hbeacon : Ensures (processBlock.callBeacon E s₀ block) fun s =>
      P [] { s with totalGasUsedInBlock := 0, transactionReceipts := #[] })
    (htransact : ∀ done T s s', T ∈ block.transactions → P done s →
      Transacted E chainId block s T s' → P (done ++ [T]) s') :
    Ensures (processBlock E chainId s₀ block) fun s => ∃ s', P block.transactions s' ∧
      s = { s' with accountMap := applyWithdrawals s'.accountMap block.withdrawals } := by
  unfold processBlock
  refine Ensures.bind hbeacon fun s hs => ?_
  refine Ensures.bind (Ensures.foldlM (P := P) ?_ hs) fun s' hs' => Ensures.ok_iff.2 ⟨s', hs', rfl⟩
  intro done T rest s hlist hP
  have hT : T ∈ block.transactions := by simp [hlist]
  refine (transact_spec E chainId block s T).mono ?_
  rintro s' ⟨h⟩
  exact htransact done T s s' hT hP h

/-- Executing a block touches neither the blocks before it nor the genesis header. -/
theorem processBlock_frame (E : Externals) (chainId : ℕ) (s₀ : BlockState)
    (block : DeserializedBlock) : Ensures (processBlock E chainId s₀ block) fun s =>
      s.blocks = s₀.blocks ∧ s.genesisBlockHeader = s₀.genesisBlockHeader := by
  refine (processBlock_spec (P := fun _ s =>
    s.blocks = s₀.blocks ∧ s.genesisBlockHeader = s₀.genesisBlockHeader) ?_ ?_).mono ?_
  · refine (callBeacon_spec E s₀ block).mono ?_
    rintro s (rfl | ⟨_, _, _, _, rfl⟩)
    · exact ⟨rfl, rfl⟩
    · exact ⟨rfl, rfl⟩
  · rintro _ _ _ _ _ ⟨hblocks, hgenesis⟩ hT
    exact ⟨(congrArg BlockState.blocks hT.state).trans hblocks,
      (congrArg BlockState.genesisBlockHeader hT.state).trans hgenesis⟩
  · rintro _ ⟨s, hs, rfl⟩
    exact hs

end Conform
end EvmYul
