import EvmModel.StateOps
import EvmModel.Transaction

/-!
# Gas

The cost functions of `EvmYul/EVM/Gas.lean`: the cost `C'` of an instruction
without memory, the memory expansion `memoryExpansionCost`, and the intrinsic
gas of a transaction.
-/

namespace EvmYul
namespace EVM

open GasConstants

/-! ## Groups of instructions with one price -/

namespace InstructionGasGroups

def Wzero : List Operation := [.STOP, .RETURN, .REVERT]

def Wbase : List Operation := [
  .ADDRESS, .ORIGIN, .CALLER, .CALLVALUE, .CALLDATASIZE, .CODESIZE, .GASPRICE, .COINBASE,
  .TIMESTAMP, .NUMBER, .PREVRANDAO, .GASLIMIT, .CHAINID, .RETURNDATASIZE, .POP, .PC, .MSIZE, .GAS,
  .BASEFEE, .BLOBBASEFEE, .PUSH0]

def Wverylow : List Operation :=
  let single : List Operation := [
    .ADD, .SUB, .NOT, .LT, .GT, .SLT, .SGT, .EQ, .ISZERO, .AND, .OR, .XOR, .BYTE, .SHL, .SHR, .SAR,
    .CALLDATALOAD, .MLOAD, .MSTORE, .MSTORE8]
  single ++ (List.finRange 32).map (fun n => Operation.Push n.succ)
    ++ (List.finRange 16).map Operation.Dup ++ (List.finRange 16).map Operation.Exchange

def Wlow : List Operation := [.MUL, .DIV, .SDIV, .MOD, .SMOD, .SIGNEXTEND, .SELFBALANCE]

def Wmid : List Operation := [.ADDMOD, .MULMOD, .JUMP]

def Whigh : List Operation := [.JUMPI]

def Wcopy : List Operation := [.CALLDATACOPY, .CODECOPY, .RETURNDATACOPY, .MCOPY]

def Wextaccount : List Operation := [.BALANCE, .EXTCODESIZE, .EXTCODEHASH]

end InstructionGasGroups

open InstructionGasGroups

/-! ## Costs that look at the state -/

/-- The price of `a` active words of memory, equation 328. -/
def Cₘ (a : UInt256) : ℕ := Gmemory * a.val + a.val * a.val / 512

def Csstore (s : State) : ℕ :=
  let Iₐ := s.executionEnv.codeOwner
  let storeAddr := s.stack[0]!
  let v₀ := State.originalValue s.σ₀ Iₐ storeAddr
  let v := (s.accountMap[Iₐ]!).storage.getD storeAddr 0
  let v' := s.stack[1]!
  let loadComponent :=
    if (Iₐ, storeAddr) ∈ s.substate.accessedStorageKeys then 0 else Gcoldsload
  let storeComponent :=
    if v = v' ∨ v₀ ≠ v then Gwarmaccess
    else if v ≠ v' ∧ v₀ = v ∧ v₀ = 0 then Gsset
    else Gsreset
  loadComponent + storeComponent

def Ctstore : ℕ := Gwarmaccess

def Caccess (a : AccountAddress) (A : Substate) : ℕ :=
  if a ∈ A.accessedAccounts then Gwarmaccess else Gcoldaccountaccess

def Cselfdestruct (s : State) : ℕ :=
  let r := AccountAddress.ofUInt256 s.stack[0]!
  let c_cold := if r ∈ s.substate.accessedAccounts then 0 else Gcoldaccountaccess
  let c_new :=
    if s.accountMap.dead r ∧ s.accountMap.balance s.executionEnv.codeOwner ≠ 0 then Gnewaccount
    else 0
  Gselfdestruct + c_cold + c_new

def Csload (μₛ : Stack) (A : Substate) (I : ExecutionEnv) : ℕ :=
  if (I.codeOwner, μₛ[0]!) ∈ A.accessedStorageKeys then Gwarmaccess else Gcoldsload

def Ctload : ℕ := Gwarmaccess

/-- All but one 64th, equation 331. -/
def L (n : ℕ) : ℕ := n - n / 64

def Cnew (t : AccountAddress) (val : UInt256) (σ : AccountMap) : ℕ :=
  if σ.dead t ∧ val ≠ 0 then Gnewaccount else 0

def Cxfer (val : UInt256) : ℕ := if val ≠ 0 then Gcallvalue else 0

def Cextra (t r : AccountAddress) (val : UInt256) (σ : AccountMap) (A : Substate) : ℕ :=
  Caccess t A + Cxfer val + Cnew r val σ

def Cgascap (t r : AccountAddress) (val g : UInt256) (σ : AccountMap) (μ : MachineState)
    (A : Substate) : ℕ :=
  if Cextra t r val σ A ≤ μ.gasAvailable.val then
    min (L (μ.gasAvailable.val - Cextra t r val σ A)) g.val
  else g.val

def Ccallgas (t r : AccountAddress) (val g : UInt256) (σ : AccountMap) (μ : MachineState)
    (A : Substate) : ℕ :=
  if val = 0 then Cgascap t r val g σ μ A else Cgascap t r val g σ μ A + Gcallstipend

def Ccall (t r : AccountAddress) (val g : UInt256) (σ : AccountMap) (μ : MachineState)
    (A : Substate) : ℕ :=
  Cgascap t r val g σ μ A + Cextra t r val σ A

/-- The price of `x` bytes of initialisation code, equation 65. -/
def R (x : ℕ) : ℕ := Ginitcodeword * ((x + 31) / 32)

/-! ## The cost of an instruction -/

/-- The cost of an instruction that belongs to a group. -/
def groupCost (s : State) (w : Operation) : ℕ :=
  if w ∈ Wcopy then Gverylow + Gcopy * ((s.stack[2]!.val + 31) / 32)
  else if w ∈ Wextaccount then Caccess (.ofUInt256 s.stack[0]!) s.substate
  else if w ∈ Wzero then Gzero
  else if w ∈ Wbase then Gbase
  else if w ∈ Wverylow then Gverylow
  else if w ∈ Wlow then Glow
  else if w ∈ Wmid then Gmid
  else if w ∈ Whigh then Ghigh
  else 0

/-- The cost of an instruction, memory apart. -/
def C' (s : State) (instr : Operation) : ℕ :=
  let σ := s.accountMap
  let μₛ := s.stack
  let A := s.substate
  let μ := s.toMachineState
  let I := s.executionEnv
  let addr (i : ℕ) := AccountAddress.ofUInt256 μₛ[i]!
  match instr with
  | .SSTORE => Csstore s
  | .TSTORE => Ctstore
  | .EXP => if μₛ[1]! = 0 then Gexp else Gexp + Gexpbyte * (1 + Nat.log 256 μₛ[1]!.val)
  | .EXTCODECOPY => Caccess (addr 0) A + Gcopy * ((μₛ[3]!.val + 31) / 32)
  | .Log n => Glog + Glogdata * μₛ[1]!.val + n * Glogtopic
  | .SELFDESTRUCT => Cselfdestruct s
  | .CREATE => Gcreate + R μₛ[2]!.val
  | .CREATE2 => Gcreate + Gkeccak256word * ((μₛ[2]!.val + 31) / 32) + R μₛ[2]!.val
  | .KECCAK256 => Gkeccak256 + Gkeccak256word * ((μₛ[1]!.val + 31) / 32)
  | .JUMPDEST => Gjumpdest
  | .SLOAD => Csload μₛ A I
  | .TLOAD => Ctload
  | .BLOCKHASH => Gblockhash
  | .CALL => Ccall (addr 1) (addr 1) μₛ[2]! μₛ[0]! σ μ A
  | .CALLCODE => Ccall (addr 1) I.codeOwner μₛ[2]! μₛ[0]! σ μ A
  | .DELEGATECALL => Ccall (addr 1) I.codeOwner 0 μₛ[0]! σ μ A
  | .STATICCALL => Ccall (addr 1) (addr 1) 0 μₛ[0]! σ μ A
  | .BLOBHASH => HASH_OPCODE_GAS
  | w => groupCost s w

/-- Active words after the instruction. -/
def memoryExpansionCost.μᵢ' (s : State) (instr : Operation) : UInt256 :=
  let i := s.activeWords.val
  let μₛ := s.stack
  match instr with
  | .KECCAK256 | .Log _ | .RETURN | .REVERT => .ofNat (MachineState.M i μₛ[0]!.val μₛ[1]!.val)
  | .CALLDATACOPY | .CODECOPY | .RETURNDATACOPY =>
    .ofNat (MachineState.M i μₛ[0]!.val μₛ[2]!.val)
  | .MCOPY => .ofNat (MachineState.M i (max μₛ[0]!.val μₛ[1]!.val) μₛ[2]!.val)
  | .EXTCODECOPY => .ofNat (MachineState.M i μₛ[1]!.val μₛ[3]!.val)
  | .MLOAD | .MSTORE => .ofNat (MachineState.M i μₛ[0]!.val 32)
  | .MSTORE8 => .ofNat (MachineState.M i μₛ[0]!.val 1)
  | .CREATE | .CREATE2 => .ofNat (MachineState.M i μₛ[1]!.val μₛ[2]!.val)
  | .CALL | .CALLCODE =>
    .ofNat (MachineState.M (MachineState.M i μₛ[3]!.val μₛ[4]!.val) μₛ[5]!.val μₛ[6]!.val)
  | .DELEGATECALL | .STATICCALL =>
    .ofNat (MachineState.M (MachineState.M i μₛ[2]!.val μₛ[3]!.val) μₛ[4]!.val μₛ[5]!.val)
  | _ => s.activeWords

def memoryExpansionCost (s : State) (instr : Operation) : ℕ :=
  Cₘ (memoryExpansionCost.μᵢ' s instr) - Cₘ s.activeWords

/-- The gas a transaction pays before it runs. -/
def intrinsicGas (T : Transaction) : ℕ :=
  let g₀_data :=
    T.base.data.data.toList.foldl
      (fun acc b => acc + if b = 0 then Gtxdatazero else Gtxdatanonzero) 0
  let g₀_create :=
    if T.base.recipient = none then Gtxcreate + R T.base.data.size else 0
  let g₀_accessList :=
    T.getAccessList.foldl
      (fun acc p => acc + Gaccesslistaddress + p.2.size * Gaccessliststorage) 0
  g₀_data + g₀_create + Gtransaction + g₀_accessList

end EVM
end EvmYul
