import EvmModel.State

/-!
# Operations on the state

The state transformers of `EvmYul/StateOps.lean`, `EvmYul/MachineStateOps.lean`
and `EvmYul/SharedStateOps.lean` that the instructions are made of, and the fee
schedule of `EvmYul/EVM/GasConstants.lean` they charge.
-/

namespace EvmYul

/-! ## Fee schedule -/

namespace GasConstants

def Gzero : ℕ := 0
def Gjumpdest : ℕ := 1
def Gbase : ℕ := 2
def Gverylow : ℕ := 3
def Glow : ℕ := 5
def Gmid : ℕ := 8
def Ghigh : ℕ := 10
def Gwarmaccess : ℕ := 100
def Gaccesslistaddress : ℕ := 2400
def Gaccessliststorage : ℕ := 1900
def Gcoldaccountaccess : ℕ := 2600
def Gcoldsload : ℕ := 2100
def Gsset : ℕ := 20000
def Gsreset : ℕ := 2900
def Rsclear : ℕ := 4800
def Gselfdestruct : ℕ := 5000
def Gcreate : ℕ := 32000
def Gcodedeposit : ℕ := 200
def Ginitcodeword : ℕ := 2
def Gcallvalue : ℕ := 9000
def Gcallstipend : ℕ := 2300
def Gnewaccount : ℕ := 25000
def Gexp : ℕ := 10
def Gexpbyte : ℕ := 50
def Gmemory : ℕ := 3
def Gtxcreate : ℕ := 32000
def Gtxdatazero : ℕ := 4
def Gtxdatanonzero : ℕ := 16
def Gtransaction : ℕ := 21000
def Glog : ℕ := 375
def Glogdata : ℕ := 8
def Glogtopic : ℕ := 375
def Gkeccak256 : ℕ := 30
def Gkeccak256word : ℕ := 6
def Gcopy : ℕ := 3
def Gblockhash : ℕ := 20
def HASH_OPCODE_GAS : ℕ := 3

end GasConstants

def chainId : ℕ := 1

/-! ## The world state -/

namespace State

open GasConstants

def addAccessedAccount (self : State) (addr : AccountAddress) : State :=
  { self with substate := self.substate.addAccessedAccount addr }

def addAccessedStorageKey (self : State) (sk : AccountAddress × UInt256) : State :=
  { self with substate := self.substate.addAccessedStorageKey sk }

def lookupAccount (self : State) (addr : AccountAddress) : Option Account := self.accountMap[addr]?

def setAccount (self : State) (addr : AccountAddress) (acc : Account) : State :=
  { self with accountMap := self.accountMap.insert addr acc }

/-- `updateAccount` of the source is `setAccount` with its arguments in another order. -/
def updateAccount (addr : AccountAddress) (act : Account) (self : State) : State :=
  { self with accountMap := self.accountMap.insert addr act }

def balance (self : State) (k : UInt256) : State × UInt256 :=
  let addr := AccountAddress.ofUInt256 k
  (self.addAccessedAccount addr, self.accountMap.balance addr)

def calldataload (self : State) (v : UInt256) : UInt256 :=
  uInt256OfByteArray (readBytes self.executionEnv.calldata v.val 32)

def extCodeSize (self : State) (a : UInt256) : State × UInt256 :=
  let addr := AccountAddress.ofUInt256 a
  let s :=
    match self.lookupAccount addr with
    | none => 0
    | some acc => .ofNat acc.code.size
  (self.addAccessedAccount addr, s)

def extCodeHash (E : Externals) (self : State) (v : UInt256) : State × UInt256 :=
  let addr := AccountAddress.ofUInt256 v
  let newState := self.addAccessedAccount addr
  if self.accountMap.dead addr then (newState, 0)
  else
    match self.lookupAccount addr with
    | none => (newState, 0)
    | some acc => (newState, acc.codeHash E)

def blockHash (self : State) (blockNumber : UInt256) : UInt256 :=
  let v := self.executionEnv.header.number
  if v ≤ blockNumber.val ∨ blockNumber.val + 256 < v then 0
  else (self.blocks.map ProcessedBlock.hash).getD blockNumber.val 0

def coinBase (self : State) : AccountAddress := self.executionEnv.header.beneficiary

def timeStamp (self : State) : UInt256 := .ofNat self.executionEnv.header.timestamp

def number (self : State) : UInt256 := .ofNat self.executionEnv.header.number

def gasLimit (self : State) : UInt256 := .ofNat self.executionEnv.header.gasLimit

def chainId (_ : State) : UInt256 := .ofNat EvmYul.chainId

def selfbalance (self : State) : UInt256 := self.accountMap.balance self.executionEnv.codeOwner

def sload (self : State) (spos : UInt256) : State × UInt256 :=
  let Iₐ := self.executionEnv.codeOwner
  let v :=
    match self.lookupAccount Iₐ with
    | none => 0
    | some acc => acc.lookupStorage spos
  (self.addAccessedStorageKey (Iₐ, spos), v)

/-- The value a storage slot had when the transaction started. -/
def originalValue (σ₀ : AccountMap) (Iₐ : AccountAddress) (spos : UInt256) : UInt256 :=
  match σ₀[Iₐ]? with
  | none => 0
  | some acc => acc.storage.getD spos 0

/-- The change of the refund counter when a slot whose original value is `v₀`
goes from `v` to `v'`. -/
def refundDelta (v₀ v v' : UInt256) : ℤ :=
  let r_dirtyclear : ℤ :=
    if v₀ ≠ 0 ∧ v = 0 then -Rsclear else if v₀ ≠ 0 ∧ v' = 0 then Rsclear else 0
  let r_dirtyreset : ℤ :=
    if v₀ = v' ∧ v₀ = 0 then (Gsset : ℤ) - Gwarmaccess
    else if v₀ = v' ∧ v₀ ≠ 0 then (Gsreset : ℤ) - Gwarmaccess
    else 0
  if v ≠ v' ∧ v₀ = v ∧ v' = 0 then Rsclear
  else if v ≠ v' ∧ v₀ ≠ v then r_dirtyclear + r_dirtyreset
  else 0

def sstore (self : State) (spos sval : UInt256) : State :=
  let Iₐ := self.executionEnv.codeOwner
  let v₀ := originalValue self.σ₀ Iₐ spos
  let v := (self.accountMap[Iₐ]!).storage.getD spos 0
  let newAᵣ :=
    match refundDelta v₀ v sval with
    | .ofNat n => self.substate.refundBalance + .ofNat n
    | .negSucc n => self.substate.refundBalance - .ofNat n - 1
  match self.lookupAccount Iₐ with
  | none => self
  | some acc =>
    let self' :=
      (self.setAccount Iₐ (acc.updateStorage spos sval)).addAccessedStorageKey (Iₐ, spos)
    { self' with substate := { self'.substate with refundBalance := newAᵣ } }

def tload (self : State) (spos : UInt256) : State × UInt256 :=
  match self.lookupAccount self.executionEnv.codeOwner with
  | none => (self, 0)
  | some acc => (self, acc.lookupTransientStorage spos)

def tstore (self : State) (spos sval : UInt256) : State :=
  let Iₐ := self.executionEnv.codeOwner
  match self.lookupAccount Iₐ with
  | none => self
  | some acc => self.updateAccount Iₐ (acc.updateTransientStorage spos sval)

end State

/-! ## The machine state -/

/-- Copy into the memory of a machine state. -/
def writeBytes (source : ByteArray) (sourceAddr : ℕ) (self : MachineState) (destAddr len : ℕ) :
    MachineState :=
  { self with memory := write source sourceAddr self.memory destAddr len }

namespace MachineState

/-- Active words after touching `l` bytes at `f`, equation 320. -/
def M (s f l : ℕ) : ℕ := if l = 0 then s else max s ((f + l + 31) / 32)

/-- Touch `l` bytes of memory at `f`. -/
def expand (self : MachineState) (f l : ℕ) : MachineState :=
  { self with activeWords := .ofNat (M self.activeWords.val f l) }

@[simp] theorem gasAvailable_expand (self : MachineState) (f l : ℕ) :
    (self.expand f l).gasAvailable = self.gasAvailable := rfl

@[simp] theorem gasAvailable_writeBytes (source : ByteArray) (sourceAddr : ℕ)
    (self : MachineState) (destAddr len : ℕ) :
    (writeBytes source sourceAddr self destAddr len).gasAvailable = self.gasAvailable := rfl

def lookupMemory (self : MachineState) (addr : UInt256) : UInt256 :=
  if self.memory.size ≤ addr.val ∨ self.activeWords * 32 ≤ addr then 0
  else .ofNat (fromByteArrayBigEndian (readWithPadding self.memory addr.val 32))

def msize (self : MachineState) : UInt256 := self.activeWords * 32

def mload (self : MachineState) (spos : UInt256) : UInt256 × MachineState :=
  (self.lookupMemory spos, self.expand spos.val 32)

def mstore (self : MachineState) (spos sval : UInt256) : MachineState :=
  (writeBytes sval.toByteArray 0 self spos.val 32).expand spos.val 32

def mstore8 (self : MachineState) (spos sval : UInt256) : MachineState :=
  (writeBytes ⟨#[UInt8.ofNat sval.val]⟩ 0 self spos.val 1).expand spos.val 1

def mcopy (self : MachineState) (writeStart readStart s : UInt256) : MachineState :=
  (writeBytes self.memory readStart.val self writeStart.val s.val).expand
    (max writeStart.val readStart.val) s.val

def gas (self : MachineState) : UInt256 := self.gasAvailable

def setReturnData (self : MachineState) (r : ByteArray) : MachineState :=
  { self with returnData := r }

def returndatasize (self : MachineState) : UInt256 := .ofNat self.returnData.size

def returndatacopy (self : MachineState) (mstart rstart size : UInt256) : MachineState :=
  (writeBytes self.returnData rstart.val self mstart.val size.val).expand mstart.val size.val

def evmReturn (self : MachineState) (mstart s : UInt256) : MachineState :=
  { self.expand mstart.val s.val with
    H_return := readWithPadding self.memory mstart.val s.val }

def evmRevert (self : MachineState) (mstart s : UInt256) : MachineState :=
  (self.evmReturn mstart s).expand mstart.val s.val

def keccak256 (E : Externals) (self : MachineState) (mstart s : UInt256) :
    UInt256 × MachineState :=
  let bytes := readWithPadding self.memory mstart.val s.val
  (.ofNat (fromByteArrayBigEndian (E.KEC bytes)), self.expand mstart.val s.val)

end MachineState

/-! ## Both together -/

namespace SharedState

/-- Copy `size` bytes of `b` from `start` into memory at `mstart`. -/
def copyToMemory (self : SharedState) (b : ByteArray) (mstart start size : ℕ) : SharedState :=
  { self with
    memory := write b start self.memory mstart size
    activeWords := .ofNat (MachineState.M self.activeWords.val mstart size) }

def calldatacopy (self : SharedState) (mstart datastart size : UInt256) : SharedState :=
  self.copyToMemory self.executionEnv.calldata mstart.val datastart.val size.val

def codeCopy (self : SharedState) (mstart cstart size : UInt256) : SharedState :=
  self.copyToMemory self.executionEnv.code mstart.val cstart.val size.val

def extCodeCopy' (self : SharedState) (acc mstart cstart size : UInt256) : SharedState :=
  let addr := AccountAddress.ofUInt256 acc
  let b :=
    match self.toState.lookupAccount addr with
    | none => .empty
    | some acc => acc.code
  { self.copyToMemory b mstart.val cstart.val size.val with
    substate := self.substate.addAccessedAccount addr }

def logOp (μ₀ μ₁ : UInt256) (t : Array UInt256) (sState : SharedState) : SharedState :=
  let Iₐ := sState.executionEnv.codeOwner
  let mem := readWithPadding sState.memory μ₀.val μ₁.val
  { sState with
    substate :=
      { sState.substate with logSeries := sState.substate.logSeries.push ⟨Iₐ, t, mem⟩ }
    activeWords := .ofNat (MachineState.M sState.activeWords.val μ₀.val μ₁.val) }

end SharedState
end EvmYul
