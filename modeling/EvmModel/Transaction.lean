import EvmModel.State

/-!
# Transactions

The four transaction types of `EvmYul/State/Transaction.lean`, with the fields
that execution reads, and the helpers of `EvmYul/State/TransactionOps.lean`.
-/

namespace EvmYul

/-- The fields all transaction types share. -/
structure Transaction.Base where
  gasLimit : UInt256
  recipient : Option AccountAddress
  value : UInt256
  data : ByteArray

structure Transaction.WithAccessList where
  accessList : List (AccountAddress × Array UInt256)

structure Transaction.WithGasPrice where
  gasPrice : UInt256

/-- Type 0. -/
structure LegacyTransaction extends Transaction.Base, Transaction.WithGasPrice

/-- Type 1. -/
structure AccessListTransaction
  extends Transaction.Base, Transaction.WithAccessList, Transaction.WithGasPrice

/-- Type 2. -/
structure DynamicFeeTransaction extends Transaction.Base, Transaction.WithAccessList where
  maxFeePerGas : UInt256
  maxPriorityFeePerGas : UInt256

/-- Type 3. -/
structure BlobTransaction extends DynamicFeeTransaction where
  blobVersionedHashes : List ByteArray

inductive Transaction where
  | legacy (t : LegacyTransaction)
  | access (t : AccessListTransaction)
  | dynamic (t : DynamicFeeTransaction)
  | blob (t : BlobTransaction)

namespace Transaction

def base : Transaction → Transaction.Base
  | .legacy t => t.toBase
  | .access t => t.toBase
  | .dynamic t => t.toBase
  | .blob t => t.toBase

def getAccessList : Transaction → List (AccountAddress × Array UInt256)
  | .legacy _ => []
  | .access t => t.accessList
  | .dynamic t => t.accessList
  | .blob t => t.accessList

def blobVersionedHashes : Transaction → List ByteArray
  | .blob t => t.blobVersionedHashes
  | _ => []

def type : Transaction → UInt8
  | .legacy _ => 0
  | .access _ => 1
  | .dynamic _ => 2
  | .blob _ => 3

/-- The most a transaction pays for a unit of gas. -/
def maxFeePerGas : Transaction → UInt256
  | .dynamic t => t.maxFeePerGas
  | .blob t => t.maxFeePerGas
  | .legacy t => t.gasPrice
  | .access t => t.gasPrice

end Transaction

def GAS_PER_BLOB : ℕ := 2 ^ 17

def getTotalBlobGas : Transaction → ℕ
  | .blob t => GAS_PER_BLOB * t.blobVersionedHashes.length
  | _ => 0

def calcBlobFee (header : BlockHeader) (t : Transaction) : ℕ :=
  getTotalBlobGas t * header.getBlobGasprice

end EvmYul
