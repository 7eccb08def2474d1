import EvmModel.Operation

/-!
# The state of the machine

The data model of `EvmYul/State/*.lean`, `EvmYul/Maps/*.lean`,
`EvmYul/MachineState.lean` and `EvmYul/EVM/State.lean`: accounts and the maps
that hold them, the accrued substate, the execution environment, and the state
of one running frame.  Maps and sets are `Std.TreeMap` and `Std.TreeSet`, the
ordered maps that replace the `Batteries.RBMap` of the source.

`Externals` collects the functions the repository calls and does not contain.
-/

namespace EvmYul

/-- The primitives linked in from other repositories or run as another process:
Keccak-256 and SHA-256 (C libraries), and the elliptic-curve and hash programs
the precompiled contracts run in Python. -/
structure Externals where
  KEC : ByteArray → ByteArray
  sha256 : ByteArray → ByteArray
  RIP160 : ByteArray → Except String ByteArray
  ECDSARECOVER : ByteArray → ByteArray → ByteArray → ByteArray → Except String ByteArray
  BN_ADD : ByteArray → ByteArray → ByteArray → ByteArray → Except String ByteArray
  BN_MUL : ByteArray → ByteArray → ByteArray → Except String ByteArray
  SNARKV : ByteArray → Except String ByteArray
  PointEval : ByteArray → Except String ByteArray

/-! ## Accounts -/

abbrev Storage := Std.TreeMap UInt256 UInt256 compare

abbrev AddrSet := Std.TreeSet AccountAddress compare

structure Account where
  nonce : UInt256
  balance : UInt256
  storage : Storage
  code : ByteArray
  tstorage : Storage
  deriving Inhabited

abbrev AccountMap := Std.TreeMap AccountAddress Account compare

namespace Account

def codeHash (E : Externals) (self : Account) : UInt256 :=
  .ofNat (fromByteArrayBigEndian (E.KEC self.code))

def lookupStorage (self : Account) (k : UInt256) : UInt256 := self.storage.getD k 0

def updateStorage (self : Account) (k v : UInt256) : Account :=
  if v = default then { self with storage := self.storage.erase k }
  else { self with storage := self.storage.insert k v }

def lookupTransientStorage (self : Account) (k : UInt256) : UInt256 := self.tstorage.getD k 0

def updateTransientStorage (self : Account) (k v : UInt256) : Account :=
  if v = default then { self with tstorage := self.tstorage.erase k }
  else { self with tstorage := self.tstorage.insert k v }

/-- `EMPTY(σ, a)`, equation 14. -/
def emptyAccount (self : Account) : Bool :=
  self.code.isEmpty ∧ self.nonce = 0 ∧ self.balance = 0

end Account

namespace AccountMap

/-- The balance of an address, zero when there is no account. -/
def balance (σ : AccountMap) (a : AccountAddress) : UInt256 :=
  match σ[a]? with
  | none => 0
  | some acc => acc.balance

def increaseBalance (σ : AccountMap) (addr : AccountAddress) (amount : UInt256) : AccountMap :=
  match σ[addr]? with
  | none => σ.insert addr { (default : Account) with balance := amount }
  | some acc => σ.insert addr { acc with balance := acc.balance + amount }

/-- `DEAD(σ, a)`, equation 15. -/
def dead (σ : AccountMap) (addr : AccountAddress) : Bool :=
  match σ[addr]? with
  | none => true
  | some acc => acc.emptyAccount

end AccountMap

/-! ## Precompiled contracts -/

/-- The addresses of the precompiled contracts, equation 142. -/
def π : AddrSet := Std.TreeSet.ofList ((List.range 11).tail.map AccountAddress.ofNat) compare

/-- What a message call runs: byte code, or one of the precompiled contracts. -/
inductive ToExecute where
  | Code (code : ByteArray)
  | Precompiled (precompiled : AccountAddress)

def toExecute (σ : AccountMap) (t : AccountAddress) : ToExecute :=
  if t ∈ π then .Precompiled t
  else
    match σ[t]? with
    | none => .Code default
    | some tDirect => .Code tDirect.code

/-! ## The accrued substate -/

structure LogEntry where
  address : AccountAddress
  topics : Array UInt256
  data : ByteArray

def storageKeysCmp : AccountAddress × UInt256 → AccountAddress × UInt256 → Ordering :=
  compareLex (compareOn (·.1)) (compareOn (·.2))

/-- The accrued substate `A`, section 6.1. -/
structure Substate where
  selfDestructSet : AddrSet
  touchedAccounts : AddrSet
  refundBalance : UInt256
  accessedAccounts : AddrSet
  accessedStorageKeys : Std.TreeSet (AccountAddress × UInt256) storageKeysCmp
  logSeries : Array LogEntry
  deriving Inhabited

/-- `A0`, equation 63. -/
def A0 : Substate := { (default : Substate) with accessedAccounts := π }

namespace Substate

def addAccessedAccount (self : Substate) (addr : AccountAddress) : Substate :=
  { self with accessedAccounts := self.accessedAccounts.insert addr }

def addAccessedStorageKey (self : Substate) (sk : AccountAddress × UInt256) : Substate :=
  { self with accessedStorageKeys := self.accessedStorageKeys.insert sk }

end Substate

/-! ## Blocks -/

/-- The fields of a block header that execution reads. -/
structure BlockHeader where
  beneficiary : AccountAddress
  number : ℕ
  gasLimit : ℕ
  timestamp : ℕ
  prevRandao : UInt256
  baseFeePerGas : ℕ
  excessBlobGas : UInt64
  deriving Inhabited

/-- The loop of `fakeExponential`: it ends because once `i` has passed the
numerator every term is smaller than the one before. -/
def fakeExponential0 (i output factor numerator denominator numeratorAccum : ℕ) : ℕ :=
  if _h : numeratorAccum = 0 then output / denominator
  else
    fakeExponential0 (i + 1) (output + numeratorAccum) factor numerator denominator
      ((numeratorAccum * numerator) / (denominator * i))
termination_by (numerator + 1 - i, numeratorAccum)
decreasing_by
  by_cases hi : i ≤ numerator
  · exact Prod.Lex.left _ _ (by omega)
  · rw [show numerator + 1 - (i + 1) = numerator + 1 - i by omega]
    refine Prod.Lex.right _ ?_
    rcases Nat.eq_zero_or_pos denominator with rfl | hd
    · simpa using Nat.pos_of_ne_zero _h
    · have hlt : numeratorAccum * numerator < numeratorAccum * (denominator * i) := by
        refine Nat.mul_lt_mul_of_pos_left ?_ (Nat.pos_of_ne_zero _h)
        have : i ≤ denominator * i := Nat.le_mul_of_pos_left i hd
        omega
      exact Nat.div_lt_of_lt_mul (by rwa [Nat.mul_comm (denominator * i)])

def fakeExponential (factor numerator denominator : ℕ) : ℕ :=
  fakeExponential0 1 0 factor numerator denominator (factor * denominator)

def MIN_BASE_FEE_PER_BLOB_GAS : ℕ := 1

def BLOB_BASE_FEE_UPDATE_FRACTION : ℕ := 3338477

def BlockHeader.getBlobGasprice (h : BlockHeader) : ℕ :=
  fakeExponential MIN_BASE_FEE_PER_BLOB_GAS h.excessBlobGas.toNat BLOB_BASE_FEE_UPDATE_FRACTION

/-- A block of the past, of which execution reads the hash. -/
structure ProcessedBlock where
  hash : UInt256
  deriving Inhabited

abbrev ProcessedBlocks := Array ProcessedBlock

/-! ## The execution environment -/

/-- The execution environment `I`, section 9.3. -/
structure ExecutionEnv where
  codeOwner : AccountAddress
  sender : AccountAddress
  source : AccountAddress
  weiValue : UInt256
  calldata : ByteArray
  code : ByteArray
  gasPrice : ℕ
  header : BlockHeader
  depth : ℕ
  perm : Bool
  blobVersionedHashes : List ByteArray
  deriving Inhabited

namespace ExecutionEnv

def prevRandao (e : ExecutionEnv) : UInt256 := e.header.prevRandao

def basefee (e : ExecutionEnv) : UInt256 := .ofNat e.header.baseFeePerGas

def getBlobGasprice (e : ExecutionEnv) : UInt256 := .ofNat e.header.getBlobGasprice

def blobhash (e : ExecutionEnv) (i : UInt256) : UInt256 :=
  match e.blobVersionedHashes[i.val]? with
  | none => 0
  | some h => .ofNat (fromByteArrayBigEndian h)

end ExecutionEnv

/-! ## The state of a frame -/

/-- The state of the world as a frame sees it. -/
structure State where
  accountMap : AccountMap
  σ₀ : AccountMap
  substate : Substate
  executionEnv : ExecutionEnv
  blocks : ProcessedBlocks
  genesisBlockHeader : BlockHeader
  createdAccounts : AddrSet
  deriving Inhabited

/-- The machine state `μ` without the stack and the program counter, section 9.4.1. -/
structure MachineState where
  gasAvailable : UInt256
  activeWords : UInt256
  memory : ByteArray
  returnData : ByteArray
  H_return : ByteArray
  deriving Inhabited

structure SharedState extends State, MachineState
  deriving Inhabited

abbrev Stack := List UInt256

namespace EVM

structure State extends SharedState where
  pc : UInt256
  stack : Stack
  execLength : ℕ
  deriving Inhabited

/-- How code ends when it does not raise an exception. -/
inductive ExecutionResult (S : Type) where
  | success (state : S) (o : ByteArray)
  | revert (g : UInt256) (o : ByteArray)

inductive ExecutionException where
  | OutOfFuel
  | InvalidInstruction
  | OutOfGass
  | BadJumpDestination
  | StackOverflow
  | StackUnderflow
  | InvalidMemoryAccess
  | StaticModeViolation
  deriving DecidableEq

namespace State

def incrPC (I : State) (pcΔ : ℕ) : State := { I with pc := I.pc + .ofNat pcΔ }

def replaceStackAndIncrPC (I : State) (s : Stack) (pcΔ : ℕ := 1) : State :=
  incrPC { I with stack := s } pcΔ

end State
end EVM
end EvmYul
