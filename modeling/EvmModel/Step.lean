import EvmModel.StateOps

/-!
# Instructions that call nobody

`EvmYul.step` of `EvmYul/Semantics.lean` and the combinators of
`EvmYul/EVM/PrimOps.lean` it is built from.  A combinator pops its operands off
the stack, applies an operation to the part of the state it is about, pushes
the result and moves the program counter on; too short a stack is
`StackUnderflow`.

The six instructions that call or create are not handled here: `EVM.step`
intercepts them, and `EvmYul.step` answers them with the default state.
-/

namespace EvmYul
namespace EVM

abbrev Transformer := EVM.State → Except EVM.ExecutionException EVM.State

/-! ## Combinators -/

def execUnOp (f : UInt256 → UInt256) : Transformer := fun s =>
  match s.stack with
  | μ₀ :: stack => .ok (s.replaceStackAndIncrPC (f μ₀ :: stack))
  | _ => .error .StackUnderflow

def execBinOp (f : UInt256 → UInt256 → UInt256) : Transformer := fun s =>
  match s.stack with
  | μ₀ :: μ₁ :: stack => .ok (s.replaceStackAndIncrPC (f μ₀ μ₁ :: stack))
  | _ => .error .StackUnderflow

def execTriOp (f : UInt256 → UInt256 → UInt256 → UInt256) : Transformer := fun s =>
  match s.stack with
  | μ₀ :: μ₁ :: μ₂ :: stack => .ok (s.replaceStackAndIncrPC (f μ₀ μ₁ μ₂ :: stack))
  | _ => .error .StackUnderflow

def executionEnvOp (op : ExecutionEnv → UInt256) : Transformer := fun s =>
  .ok (s.replaceStackAndIncrPC (op s.executionEnv :: s.stack))

def unaryExecutionEnvOp (op : ExecutionEnv → UInt256 → UInt256) : Transformer := fun s =>
  match s.stack with
  | μ₀ :: stack => .ok (s.replaceStackAndIncrPC (op s.executionEnv μ₀ :: stack))
  | _ => .error .StackUnderflow

def machineStateOp (op : MachineState → UInt256) : Transformer := fun s =>
  .ok (s.replaceStackAndIncrPC (op s.toMachineState :: s.stack))

/-- The unary operation on the machine state of `MLOAD`. -/
def unaryMachineStateOp' (op : MachineState → UInt256 → UInt256 × MachineState) : Transformer :=
  fun s =>
    match s.stack with
    | μ₀ :: stack =>
      let (val, mState') := op s.toMachineState μ₀
      let s' : State := { s with toMachineState := mState' }
      .ok (s'.replaceStackAndIncrPC (val :: stack))
    | _ => .error .StackUnderflow

def binaryMachineStateOp (op : MachineState → UInt256 → UInt256 → MachineState) : Transformer :=
  fun s =>
    match s.stack with
    | μ₀ :: μ₁ :: stack =>
      let s' : State := { s with toMachineState := op s.toMachineState μ₀ μ₁ }
      .ok (s'.replaceStackAndIncrPC stack)
    | _ => .error .StackUnderflow

def binaryMachineStateOp' (op : MachineState → UInt256 → UInt256 → UInt256 × MachineState) :
    Transformer :=
  fun s =>
    match s.stack with
    | μ₀ :: μ₁ :: stack =>
      let (val, mState') := op s.toMachineState μ₀ μ₁
      let s' : State := { s with toMachineState := mState' }
      .ok (s'.replaceStackAndIncrPC (val :: stack))
    | _ => .error .StackUnderflow

def ternaryMachineStateOp (op : MachineState → UInt256 → UInt256 → UInt256 → MachineState) :
    Transformer :=
  fun s =>
    match s.stack with
    | μ₀ :: μ₁ :: μ₂ :: stack =>
      let s' : State := { s with toMachineState := op s.toMachineState μ₀ μ₁ μ₂ }
      .ok (s'.replaceStackAndIncrPC stack)
    | _ => .error .StackUnderflow

def binaryStateOp (op : EvmYul.State → UInt256 → UInt256 → EvmYul.State) : Transformer := fun s =>
  match s.stack with
  | μ₀ :: μ₁ :: stack =>
    let s' : State := { s with toState := op s.toState μ₀ μ₁ }
    .ok (s'.replaceStackAndIncrPC stack)
  | _ => .error .StackUnderflow

def stateOp (op : EvmYul.State → UInt256) : Transformer := fun s =>
  .ok (s.replaceStackAndIncrPC (op s.toState :: s.stack))

def unaryStateOp (op : EvmYul.State → UInt256 → EvmYul.State × UInt256) : Transformer := fun s =>
  match s.stack with
  | μ₀ :: stack =>
    let (state', b) := op s.toState μ₀
    let s' : State := { s with toState := state' }
    .ok (s'.replaceStackAndIncrPC (b :: stack))
  | _ => .error .StackUnderflow

def ternaryCopyOp (op : SharedState → UInt256 → UInt256 → UInt256 → SharedState) : Transformer :=
  fun s =>
    match s.stack with
    | μ₀ :: μ₁ :: μ₂ :: stack =>
      let s' : State := { s with toSharedState := op s.toSharedState μ₀ μ₁ μ₂ }
      .ok (s'.replaceStackAndIncrPC stack)
    | _ => .error .StackUnderflow

def quaternaryCopyOp
    (op : SharedState → UInt256 → UInt256 → UInt256 → UInt256 → SharedState) : Transformer :=
  fun s =>
    match s.stack with
    | μ₀ :: μ₁ :: μ₂ :: μ₃ :: stack =>
      let s' : State := { s with toSharedState := op s.toSharedState μ₀ μ₁ μ₂ μ₃ }
      .ok (s'.replaceStackAndIncrPC stack)
    | _ => .error .StackUnderflow

/-- `log0Op` … `log4Op`: a log entry with the next `n` stack items as topics. -/
def logNOp (n : ℕ) : Transformer := fun s =>
  match s.stack with
  | μ₀ :: μ₁ :: stack =>
    if n ≤ stack.length then
      let s' : State :=
        { s with toSharedState := SharedState.logOp μ₀ μ₁ (stack.take n).toArray s.toSharedState }
      .ok (s'.replaceStackAndIncrPC (stack.drop n))
    else .error .StackUnderflow
  | _ => .error .StackUnderflow

/-! ## Stack, control flow and self-destruction -/

def push (arg : Option (UInt256 × ℕ)) : Transformer := fun s =>
  match arg with
  | some (arg, argWidth) => .ok (s.replaceStackAndIncrPC (arg :: s.stack) (argWidth + 1))
  | none => .error .StackUnderflow

def pop : Transformer := fun s =>
  match s.stack with
  | _ :: stack => .ok (s.replaceStackAndIncrPC stack)
  | _ => .error .StackUnderflow

def dup (n : ℕ) : Transformer := fun s =>
  let top := s.stack.take n
  if top.length = n then .ok (s.replaceStackAndIncrPC (top.getLast! :: s.stack))
  else .error .StackUnderflow

def swap (n : ℕ) : Transformer := fun s =>
  let top := s.stack.take (n + 1)
  let bottom := s.stack.drop (n + 1)
  if top.length = n + 1 then
    .ok (s.replaceStackAndIncrPC (top.getLast! :: top.tail!.dropLast ++ [top.head!] ++ bottom))
  else .error .StackUnderflow

def jump : Transformer := fun s =>
  match s.stack with
  | μ₀ :: stack => .ok { s with pc := μ₀, stack := stack }
  | _ => .error .StackUnderflow

def jumpi : Transformer := fun s =>
  match s.stack with
  | μ₀ :: μ₁ :: stack =>
    let newPc := if μ₁ ≠ 0 then μ₀ else s.pc + 1
    .ok { s with pc := newPc, stack := stack }
  | _ => .error .StackUnderflow

/-- The balances after `Iₐ` has sent all it has to `r`.  An account that sends
to itself keeps its balance, unless it was created in this transaction: then
what it has is burnt. -/
def selfdestructAccounts (σ : AccountMap) (Iₐ r : AccountAddress) (createdHere : Bool) :
    AccountMap :=
  match σ[Iₐ]? with
  | none => σ
  | some σ_Iₐ =>
    match σ[r]? with
    | none =>
      if σ_Iₐ.balance = 0 then σ
      else
        (σ.insert r { (default : Account) with balance := σ_Iₐ.balance }).insert Iₐ
          { σ_Iₐ with balance := 0 }
    | some σ_r =>
      if r ≠ Iₐ then
        (σ.insert r { σ_r with balance := σ_r.balance + σ_Iₐ.balance }).insert Iₐ
          { σ_Iₐ with balance := 0 }
      else if createdHere then
        (σ.insert r { σ_r with balance := 0 }).insert Iₐ { σ_Iₐ with balance := 0 }
      else σ

/-- `SELFDESTRUCT`.  Only an account created in this transaction is marked for
removal. -/
def selfdestruct : Transformer := fun s =>
  match s.stack with
  | μ₁ :: stack =>
    let Iₐ := s.executionEnv.codeOwner
    let r := AccountAddress.ofUInt256 μ₁
    let createdHere := s.createdAccounts.contains Iₐ
    let A' : Substate :=
      { s.substate with
        selfDestructSet :=
          if createdHere then s.substate.selfDestructSet.insert Iₐ else s.substate.selfDestructSet
        accessedAccounts := s.substate.accessedAccounts.insert r }
    let s' : State :=
      { s with
        accountMap := selfdestructAccounts s.accountMap Iₐ r createdHere
        substate := A' }
    .ok (s'.replaceStackAndIncrPC stack)
  | _ => .error .StackUnderflow

end EVM

/-! ## The instructions -/

open EVM

/-- `EvmYul.step` at the operation type of the EVM. -/
def step (E : Externals) (op : Operation) (arg : Option (UInt256 × ℕ)) : Transformer :=
  match op with
  | .STOP => fun s => .ok { s with toMachineState := s.toMachineState.setReturnData .empty }
  | .ADD => execBinOp (· + ·)
  | .MUL => execBinOp (· * ·)
  | .SUB => execBinOp (· - ·)
  | .DIV => execBinOp (· / ·)
  | .SDIV => execBinOp UInt256.sdiv
  | .MOD => execBinOp UInt256.mod
  | .SMOD => execBinOp UInt256.smod
  | .ADDMOD => execTriOp UInt256.addMod
  | .MULMOD => execTriOp UInt256.mulMod
  | .EXP => execBinOp UInt256.exp
  | .SIGNEXTEND => execBinOp UInt256.signextend
  | .LT => execBinOp UInt256.lt
  | .GT => execBinOp UInt256.gt
  | .SLT => execBinOp UInt256.slt
  | .SGT => execBinOp UInt256.sgt
  | .EQ => execBinOp UInt256.eq
  | .ISZERO => execUnOp UInt256.isZero
  | .AND => execBinOp (· &&& ·)
  | .OR => execBinOp (· ||| ·)
  | .XOR => execBinOp (· ^^^ ·)
  | .NOT => execUnOp UInt256.lnot
  | .BYTE => execBinOp UInt256.byteAt
  | .SHL => execBinOp (flip UInt256.shiftLeft)
  | .SHR => execBinOp (flip UInt256.shiftRight)
  | .SAR => execBinOp UInt256.sar
  | .KECCAK256 => binaryMachineStateOp' (MachineState.keccak256 E)
  | .ADDRESS => executionEnvOp fun I => .ofNat I.codeOwner.val
  | .BALANCE => unaryStateOp EvmYul.State.balance
  | .ORIGIN => executionEnvOp fun I => .ofNat I.sender.val
  | .CALLER => executionEnvOp fun I => .ofNat I.source.val
  | .CALLVALUE => executionEnvOp ExecutionEnv.weiValue
  | .CALLDATALOAD => unaryStateOp fun s v => (s, s.calldataload v)
  | .CALLDATASIZE => executionEnvOp fun I => .ofNat I.calldata.size
  | .CALLDATACOPY => ternaryCopyOp SharedState.calldatacopy
  | .CODESIZE => executionEnvOp fun I => .ofNat I.code.size
  | .CODECOPY => ternaryCopyOp SharedState.codeCopy
  | .GASPRICE => executionEnvOp fun I => .ofNat I.gasPrice
  | .EXTCODESIZE => unaryStateOp EvmYul.State.extCodeSize
  | .EXTCODECOPY => quaternaryCopyOp SharedState.extCodeCopy'
  | .RETURNDATASIZE => machineStateOp MachineState.returndatasize
  | .RETURNDATACOPY => ternaryMachineStateOp MachineState.returndatacopy
  | .EXTCODEHASH => unaryStateOp (EvmYul.State.extCodeHash E)
  | .BLOCKHASH => unaryStateOp fun s v => (s, s.blockHash v)
  | .COINBASE => stateOp fun s => .ofNat s.coinBase.val
  | .TIMESTAMP => stateOp EvmYul.State.timeStamp
  | .NUMBER => stateOp EvmYul.State.number
  | .PREVRANDAO => executionEnvOp ExecutionEnv.prevRandao
  | .GASLIMIT => stateOp EvmYul.State.gasLimit
  | .CHAINID => stateOp EvmYul.State.chainId
  | .SELFBALANCE => stateOp EvmYul.State.selfbalance
  | .BASEFEE => executionEnvOp ExecutionEnv.basefee
  | .BLOBHASH => unaryExecutionEnvOp ExecutionEnv.blobhash
  | .BLOBBASEFEE => executionEnvOp ExecutionEnv.getBlobGasprice
  | .POP => pop
  | .MLOAD => unaryMachineStateOp' MachineState.mload
  | .MSTORE => binaryMachineStateOp MachineState.mstore
  | .MSTORE8 => binaryMachineStateOp MachineState.mstore8
  | .SLOAD => unaryStateOp EvmYul.State.sload
  | .SSTORE => binaryStateOp EvmYul.State.sstore
  | .TLOAD => unaryStateOp EvmYul.State.tload
  | .TSTORE => binaryStateOp EvmYul.State.tstore
  | .MSIZE => machineStateOp MachineState.msize
  | .GAS => machineStateOp MachineState.gas
  | .MCOPY => ternaryMachineStateOp MachineState.mcopy
  | .Log n => logNOp n
  | .RETURN => binaryMachineStateOp MachineState.evmReturn
  | .REVERT => binaryMachineStateOp MachineState.evmRevert
  | .SELFDESTRUCT => selfdestruct
  | .INVALID => fun _ => .error .InvalidInstruction
  | .Push n =>
    if n.val = 0 then fun s => .ok (s.replaceStackAndIncrPC (0 :: s.stack)) else push arg
  | .JUMP => jump
  | .JUMPI => jumpi
  | .PC => fun s => .ok (s.replaceStackAndIncrPC (s.pc :: s.stack))
  | .JUMPDEST => fun s => .ok (s.incrPC 1)
  | .Dup n => dup (n + 1)
  | .Exchange n => swap (n + 1)
  | .CREATE | .CALL | .CALLCODE | .DELEGATECALL | .CREATE2 | .STATICCALL => fun _ => .ok default

end EvmYul
