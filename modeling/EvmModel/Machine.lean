import EvmModel.Gas
import EvmModel.Precompiles
import EvmModel.Step

/-!
# The machine

The mutual recursion `call` / `step` / `X` / `Ξ` / `Lambda` / `Θ` of
`EvmYul/EVM/Semantics.lean`.

The six functions call one another with one unit of fuel less.  Each of them is
given here as a *body*, which takes the functions it calls as arguments and is
not recursive; the recursion itself is the short mutual block at the end.  The
arguments of a function are a structure with the names of the source, and what
a body passes on is computed by a function of its own (`call.toΘ`,
`create.toΛ`, `Lambda.toΞ`, …), so that one can speak about the frames a run
goes through without repeating the bodies.
-/

namespace EvmYul
namespace EVM

/-! ## Arguments and results -/

/-- The arguments of `Θ`. -/
structure Θ.Input where
  blobVersionedHashes : List ByteArray
  createdAccounts : AddrSet
  genesisBlockHeader : BlockHeader
  blocks : ProcessedBlocks
  σ : AccountMap
  σ₀ : AccountMap
  A : Substate
  s : AccountAddress
  o : AccountAddress
  r : AccountAddress
  c : ToExecute
  g : UInt256
  p : UInt256
  v : UInt256
  v' : UInt256
  d : ByteArray
  e : ℕ
  H : BlockHeader
  w : Bool

structure Θ.Result where
  createdAccounts : AddrSet
  σ' : AccountMap
  g' : UInt256
  A' : Substate
  z : Bool
  o : ByteArray

/-- The arguments of `Lambda`. -/
structure Lambda.Input where
  blobVersionedHashes : List ByteArray
  createdAccounts : AddrSet
  genesisBlockHeader : BlockHeader
  blocks : ProcessedBlocks
  σ : AccountMap
  σ₀ : AccountMap
  A : Substate
  s : AccountAddress
  o : AccountAddress
  g : UInt256
  p : UInt256
  v : UInt256
  i : ByteArray
  e : UInt256
  ζ : Option ByteArray
  H : BlockHeader
  w : Bool

structure Lambda.Result where
  a : AccountAddress
  createdAccounts : AddrSet
  σ' : AccountMap
  g' : UInt256
  A' : Substate
  z : Bool
  o : ByteArray

/-- The arguments of `Ξ`. -/
structure Ξ.Input where
  createdAccounts : AddrSet
  genesisBlockHeader : BlockHeader
  blocks : ProcessedBlocks
  σ : AccountMap
  σ₀ : AccountMap
  g : UInt256
  A : Substate
  I : ExecutionEnv

/-- What `Ξ` leaves behind when the code succeeds. -/
structure Ξ.Outcome where
  createdAccounts : AddrSet
  σ : AccountMap
  g : UInt256
  A : Substate

/-- The arguments of `call`. -/
structure call.Input where
  gasCost : ℕ
  blobVersionedHashes : List ByteArray
  gas : UInt256
  source : UInt256
  recipient : UInt256
  t : UInt256
  value : UInt256
  value' : UInt256
  inOffset : UInt256
  inSize : UInt256
  outOffset : UInt256
  outSize : UInt256
  permission : Bool
  evmState : State

/-! ## `call` -/

namespace call.Input

/-- Enough balance for the value, and not too deep. -/
def allowed (c : call.Input) : Prop :=
  c.value ≤ c.evmState.accountMap.balance c.evmState.executionEnv.codeOwner ∧
    c.evmState.executionEnv.depth < 1024

instance (c : call.Input) : Decidable c.allowed :=
  inferInstanceAs (Decidable (_ ∧ _))

def callgas (c : call.Input) : ℕ :=
  Ccallgas (.ofUInt256 c.t) (.ofUInt256 c.recipient) c.value c.gas c.evmState.accountMap
    c.evmState.toMachineState c.evmState.substate

/-- The caller's state, with the instruction paid for. -/
def paid (c : call.Input) : State :=
  { c.evmState with gasAvailable := c.evmState.gasAvailable - .ofNat c.gasCost }

def A' (c : call.Input) : Substate :=
  c.evmState.substate.addAccessedAccount (.ofUInt256 c.t)

/-- The message call that is made when it is allowed. -/
def toΘ (c : call.Input) : Θ.Input where
  blobVersionedHashes := c.blobVersionedHashes
  createdAccounts := c.evmState.createdAccounts
  genesisBlockHeader := c.evmState.genesisBlockHeader
  blocks := c.evmState.blocks
  σ := c.evmState.accountMap
  σ₀ := c.evmState.σ₀
  A := c.A'
  s := .ofUInt256 c.source
  o := c.evmState.executionEnv.sender
  r := .ofUInt256 c.recipient
  c := toExecute c.evmState.accountMap (.ofUInt256 c.t)
  g := .ofNat c.callgas
  p := .ofNat c.evmState.executionEnv.gasPrice
  v := c.value
  v' := c.value'
  d := readWithPadding c.evmState.memory c.inOffset.val c.inSize.val
  e := c.evmState.executionEnv.depth + 1
  H := c.evmState.executionEnv.header
  w := c.permission

/-- The result when the call is not allowed. -/
def refused (c : call.Input) : Θ.Result :=
  ⟨c.evmState.createdAccounts, c.evmState.accountMap, .ofNat c.callgas, c.A', false, .empty⟩

/-- The item to push and the caller's state after the call has come back. -/
def finish (c : call.Input) (r : Θ.Result) : UInt256 × State :=
  let σ := c.evmState.accountMap
  let evmState := c.paid
  let n : UInt256 := min c.outSize (.ofNat r.o.size)
  let μ'ₘ := writeBytes r.o 0 evmState.toMachineState c.outOffset.val n.val
  let μ'_g := μ'ₘ.gasAvailable + r.g'
  let codeExecutionFailed := ¬r.z
  let notEnoughFunds := σ.balance evmState.executionEnv.codeOwner < c.value
  let callDepthLimitReached := evmState.executionEnv.depth = 1024
  let x : UInt256 :=
    if codeExecutionFailed ∨ notEnoughFunds ∨ callDepthLimitReached then 0 else 1
  let μ' : MachineState :=
    { μ'ₘ with
      returnData := r.o
      gasAvailable := μ'_g
      activeWords :=
        let m := MachineState.M evmState.activeWords.val c.inOffset.val c.inSize.val
        .ofNat (MachineState.M m c.outOffset.val c.outSize.val) }
  (x, { evmState with
        accountMap := r.σ'
        substate := r.A'
        createdAccounts := r.createdAccounts
        toMachineState := μ' })

end call.Input

def call.Input.attempt (runΘ : Θ.Input → Except ExecutionException Θ.Result) (c : call.Input) :
    Except ExecutionException Θ.Result :=
  if c.allowed then runΘ c.toΘ else .ok c.refused

def call.body (runΘ : Θ.Input → Except ExecutionException Θ.Result) (c : call.Input) :
    Except ExecutionException (UInt256 × State) := do
  let r ← c.attempt runΘ
  .ok (c.finish r)

/-! ## `CREATE` and `CREATE2` -/

/-- The operands of a creating instruction, with the state it starts from. -/
structure create.Input where
  evmState : State
  stack : Stack
  μ₀ : UInt256
  μ₁ : UInt256
  μ₂ : UInt256
  ζ : Option ByteArray

namespace create.Input

def i (c : create.Input) : ByteArray := readWithPadding c.evmState.memory c.μ₁.val c.μ₂.val

/-- The creating account. -/
def σ_Iₐ (c : create.Input) : Account :=
  (c.evmState.accountMap[c.evmState.executionEnv.codeOwner]?).getD default

def balance (c : create.Input) : UInt256 :=
  c.evmState.accountMap.balance c.evmState.executionEnv.codeOwner

/-- The world with the nonce of the creator counted up. -/
def σStar (c : create.Input) : AccountMap :=
  c.evmState.accountMap.insert c.evmState.executionEnv.codeOwner
    { c.σ_Iₐ with nonce := c.σ_Iₐ.nonce + 1 }

def allowed (c : create.Input) : Prop :=
  c.μ₀ ≤ c.balance ∧ c.evmState.executionEnv.depth < 1024 ∧ c.i.size ≤ 49152

instance (c : create.Input) : Decidable c.allowed :=
  inferInstanceAs (Decidable (_ ∧ _))

/-- The contract creation that is made when it is allowed. -/
def toΛ (c : create.Input) : Lambda.Input where
  blobVersionedHashes := c.evmState.executionEnv.blobVersionedHashes
  createdAccounts := c.evmState.createdAccounts
  genesisBlockHeader := c.evmState.genesisBlockHeader
  blocks := c.evmState.blocks
  σ := c.σStar
  σ₀ := c.evmState.σ₀
  A := c.evmState.substate
  s := c.evmState.executionEnv.codeOwner
  o := c.evmState.executionEnv.sender
  g := .ofNat (L c.evmState.gasAvailable.val)
  p := .ofNat c.evmState.executionEnv.gasPrice
  v := c.μ₀
  i := c.i
  e := .ofNat (c.evmState.executionEnv.depth + 1)
  ζ := c.ζ
  H := c.evmState.executionEnv.header
  w := c.evmState.executionEnv.perm

/-- The new address, the state, the gas that is left, success and output. -/
def attempt (runΛ : Lambda.Input → Except ExecutionException Lambda.Result) (c : create.Input) :
    AccountAddress × State × UInt256 × Bool × ByteArray :=
  let evmState := c.evmState
  if 2 ^ 64 - 1 ≤ c.σ_Iₐ.nonce.val then
    (default, evmState, .ofNat (L evmState.gasAvailable.val), false, .empty)
  else if c.allowed then
    match runΛ c.toΛ with
    | .ok r =>
      (r.a,
        { evmState with
          accountMap := r.σ'
          substate := r.A'
          createdAccounts := r.createdAccounts },
        r.g', r.z, r.o)
    | .error _ => (0, evmState, 0, false, .empty)
  else (0, evmState, .ofNat (L evmState.gasAvailable.val), false, .empty)

end create.Input

def create.body (runΛ : Lambda.Input → Except ExecutionException Lambda.Result)
    (c : create.Input) : Except ExecutionException State :=
  let evmState := c.evmState
  let (a, evmState', g', z, o) := c.attempt runΛ
  let x : UInt256 :=
    if z = false ∨ evmState.executionEnv.depth = 1024 ∨ c.balance < c.μ₀ ∨ 49152 < c.i.size then 0
    else .ofNat a.val
  let newReturnData := if z then .empty else o
  if (evmState.gasAvailable + g').val < L evmState.gasAvailable.val then .error .OutOfGass
  else
    let evmState' : State :=
      { evmState' with
        activeWords := .ofNat (MachineState.M evmState.activeWords.val c.μ₁.val c.μ₂.val)
        returnData := newReturnData
        gasAvailable :=
          .ofNat (evmState.gasAvailable.val - L evmState.gasAvailable.val + g'.val) }
    .ok (evmState'.replaceStackAndIncrPC (x :: c.stack))

/-! ## `step` -/

def fetchInstr (I : ExecutionEnv) (pc : UInt256) :
    Except ExecutionException (Operation × Option (UInt256 × ℕ)) :=
  match decode I.code pc with
  | none => .error .StackUnderflow
  | some p => .ok p

/-- The call a calling instruction makes, and the stack below its operands. -/
def step.callInput (instr : Operation) (gasCost : ℕ) (s : State) : Option (call.Input × Stack) :=
  let hashes := s.executionEnv.blobVersionedHashes
  let Iₐ : UInt256 := .ofNat s.executionEnv.codeOwner.val
  let Iₛ : UInt256 := .ofNat s.executionEnv.source.val
  let perm := s.executionEnv.perm
  match instr, s.stack with
  | .CALL, μ₀ :: μ₁ :: μ₂ :: μ₃ :: μ₄ :: μ₅ :: μ₆ :: stack =>
    some (⟨gasCost, hashes, μ₀, Iₐ, μ₁, μ₁, μ₂, μ₂, μ₃, μ₄, μ₅, μ₆, perm, s⟩, stack)
  | .CALLCODE, μ₀ :: μ₁ :: μ₂ :: μ₃ :: μ₄ :: μ₅ :: μ₆ :: stack =>
    some (⟨gasCost, hashes, μ₀, Iₐ, Iₐ, μ₁, μ₂, μ₂, μ₃, μ₄, μ₅, μ₆, perm, s⟩, stack)
  | .DELEGATECALL, μ₀ :: μ₁ :: μ₃ :: μ₄ :: μ₅ :: μ₆ :: stack =>
    some (⟨gasCost, hashes, μ₀, Iₛ, Iₐ, μ₁, 0, s.executionEnv.weiValue, μ₃, μ₄, μ₅, μ₆, perm, s⟩,
      stack)
  | .STATICCALL, μ₀ :: μ₁ :: μ₃ :: μ₄ :: μ₅ :: μ₆ :: stack =>
    some (⟨gasCost, hashes, μ₀, Iₐ, μ₁, μ₁, 0, 0, μ₃, μ₄, μ₅, μ₆, false, s⟩, stack)
  | _, _ => none

/-- The creation a creating instruction makes. -/
def step.createInput (instr : Operation) (s : State) : Option create.Input :=
  match instr, s.stack with
  | .CREATE, μ₀ :: μ₁ :: μ₂ :: stack => some ⟨s, stack, μ₀, μ₁, μ₂, none⟩
  | .CREATE2, μ₀ :: μ₁ :: μ₂ :: μ₃ :: stack => some ⟨s, stack, μ₀, μ₁, μ₂, some μ₃.toByteArray⟩
  | _, _ => none

/-- The state in which an instruction that calls nobody runs. -/
def State.charge (s : State) (gasCost : ℕ) : State :=
  { s with gasAvailable := s.gasAvailable - .ofNat gasCost }

/-- One more instruction executed. -/
def State.count (s : State) : State := { s with execLength := s.execLength + 1 }

/-- The instruction to run: the one given, or the one at the program counter. -/
def step.fetch (instr : Option (Operation × Option (UInt256 × ℕ))) (evmState : State) :
    Except ExecutionException (Operation × Option (UInt256 × ℕ)) :=
  match instr with
  | none => fetchInstr evmState.executionEnv evmState.pc
  | some p => .ok p

/-- A creating instruction, if the stack holds its operands. -/
def step.create (runΛ : Lambda.Input → Except ExecutionException Lambda.Result) :
    Option create.Input → Except ExecutionException State
  | some c => create.body runΛ c
  | none => .error .StackUnderflow

/-- A calling instruction, if the stack holds its operands. -/
def step.callAndPush (runCall : call.Input → Except ExecutionException (UInt256 × State)) :
    Option (call.Input × Stack) → Except ExecutionException State
  | some (c, stack) => do
    let r ← runCall c
    .ok (r.2.replaceStackAndIncrPC (r.1 :: stack))
  | none => .error .StackUnderflow

/-- One instruction, in the state where it has been counted. -/
def step.exec (E : Externals) (runCall : call.Input → Except ExecutionException (UInt256 × State))
    (runΛ : Lambda.Input → Except ExecutionException Lambda.Result) (gasCost : ℕ)
    (instr : Operation) (arg : Option (UInt256 × ℕ)) (evmState : State) :
    Except ExecutionException State :=
  match instr with
  | .CREATE | .CREATE2 => step.create runΛ (step.createInput instr (evmState.charge gasCost))
  | .CALL | .CALLCODE | .DELEGATECALL | .STATICCALL =>
    step.callAndPush runCall (step.callInput instr gasCost evmState)
  | _ => EvmYul.step E instr arg (evmState.charge gasCost)

def step.body (E : Externals) (runCall : call.Input → Except ExecutionException (UInt256 × State))
    (runΛ : Lambda.Input → Except ExecutionException Lambda.Result) (gasCost : ℕ)
    (instr : Option (Operation × Option (UInt256 × ℕ))) (evmState : State) :
    Except ExecutionException State := do
  let p ← step.fetch instr evmState
  step.exec E runCall runΛ gasCost p.1 p.2 evmState.count

/-! ## `X` -/

namespace X

/-- Instructions that change the state, equation 159. -/
def W (w : Operation) (s : Stack) : Prop :=
  w ∈ ([.CREATE, .CREATE2, .SSTORE, .SELFDESTRUCT, .Log 0, .Log 1, .Log 2, .Log 3, .Log 4,
    .TSTORE] : List Operation) ∨ (w = .CALL ∧ s[2]? ≠ some 0)

instance (w : Operation) (s : Stack) : Decidable (W w s) := inferInstanceAs (Decidable (_ ∨ _))

def belongs (o : Option UInt256) (l : Array UInt256) : Bool :=
  match o with
  | none => false
  | some n => l.contains n

def notIn (o : Option UInt256) (l : Array UInt256) : Bool := !belongs o l

/-- Exceptional halting, equation 158: the state with the memory paid for, and
the cost of the instruction. -/
def Z (validJumps : Array UInt256) (w : Operation) (evmState : State) :
    Except ExecutionException (State × ℕ) :=
  let cost₁ := memoryExpansionCost evmState w
  if evmState.gasAvailable.val < cost₁ then .error .OutOfGass
  else
    let evmState := evmState.charge cost₁
    let cost₂ := C' evmState w
    let invalidJump := notIn evmState.stack[0]? validJumps
    if evmState.gasAvailable.val < cost₂ then .error .OutOfGass
    else if δ w = none then .error .InvalidInstruction
    else if evmState.stack.length < (δ w).getD 0 then .error .StackUnderflow
    else if w = .JUMP ∧ invalidJump then .error .BadJumpDestination
    else if w = .JUMPI ∧ evmState.stack[1]? ≠ some 0 ∧ invalidJump then .error .BadJumpDestination
    else if w = .RETURNDATACOPY ∧ evmState.returnData.size <
        (evmState.stack.getD 1 0).val + (evmState.stack.getD 2 0).val then
      .error .InvalidMemoryAccess
    else if 1024 < evmState.stack.length - (δ w).getD 0 + (α w).getD 0 then .error .StackOverflow
    else if ¬evmState.executionEnv.perm ∧ W w evmState.stack then .error .StaticModeViolation
    else if w = .SSTORE ∧ evmState.gasAvailable.val ≤ GasConstants.Gcallstipend then
      .error .OutOfGass
    else if w.isCreate ∧ 49152 < evmState.stack.getD 2 0 then .error .OutOfGass
    else .ok (evmState, cost₂)

/-- Normal halting, with the output. -/
def H (μ : MachineState) (w : Operation) : Option ByteArray :=
  if w ∈ ([.RETURN, .REVERT] : List Operation) then some μ.H_return
  else if w ∈ ([.STOP, .SELFDESTRUCT] : List Operation) then some .empty
  else none

/-- The instruction at the program counter; past the end of the code it is `STOP`. -/
def instr (evmState : State) : Operation × Option (UInt256 × ℕ) :=
  (decode evmState.executionEnv.code evmState.pc).getD (.STOP, none)

end X

def X.body
    (runStep : ℕ → Option (Operation × Option (UInt256 × ℕ)) → State →
      Except ExecutionException State)
    (runX : State → Except ExecutionException (ExecutionResult State))
    (validJumps : Array UInt256) (evmState : State) :
    Except ExecutionException (ExecutionResult State) :=
  let w := (X.instr evmState).1
  match X.Z validJumps w evmState with
  | .error e => .error e
  | .ok (evmStateZ, cost₂) => do
    let evmState' ← runStep cost₂ (some (X.instr evmState)) evmStateZ
    match X.H evmState'.toMachineState w with
    | none => runX evmState'
    | some o =>
      if w = .REVERT then .ok (.revert evmState'.gasAvailable o) else .ok (.success evmState' o)

/-! ## `Ξ` -/

/-- The state in which code starts. -/
def Ξ.Input.fresh (x : Ξ.Input) : State :=
  { (default : State) with
    accountMap := x.σ
    σ₀ := x.σ₀
    executionEnv := x.I
    substate := x.A
    createdAccounts := x.createdAccounts
    gasAvailable := x.g
    blocks := x.blocks
    genesisBlockHeader := x.genesisBlockHeader }

def State.outcome (s : State) : Ξ.Outcome :=
  ⟨s.createdAccounts, s.accountMap, s.gasAvailable, s.substate⟩

def Ξ.body
    (runX : Array UInt256 → State → Except ExecutionException (ExecutionResult State))
    (x : Ξ.Input) : Except ExecutionException (ExecutionResult Ξ.Outcome) := do
  let result ← runX (D_J x.I.code 0) x.fresh
  match result with
  | .success evmState' o => .ok (.success evmState'.outcome o)
  | .revert g' o => .ok (.revert g' o)

/-! ## `Lambda` -/

namespace Lambda

/-- What is hashed to find the address of the new account, equation 96. -/
def L_A (E : Externals) (s : AccountAddress) (n : UInt256) (ζ : Option ByteArray) (i : ByteArray) :
    Option ByteArray :=
  match ζ with
  | none => RLP (.𝕃 [.𝔹 s.toByteArray, .𝔹 (BE n.val)])
  | some ζ => some (BE 255 ++ s.toByteArray ++ ζ ++ E.KEC i)

/-- The last 20 bytes of the hash, equations 94 and 95. -/
def address (E : Externals) (lₐ : ByteArray) : AccountAddress :=
  Fin.ofNat _ (fromByteArrayBigEndian ((E.KEC lₐ).extract 12 32))

namespace Input

/-- The nonce the sender had before it was counted up. -/
def n (x : Lambda.Input) : UInt256 :=
  (match x.σ[x.s]? with
    | none => 0
    | some ac => ac.nonce) - 1

def existentAccount (x : Lambda.Input) (a : AccountAddress) : Account := x.σ.getD a default

/-- The address is taken: its account has a nonce, code or storage. -/
def collision (x : Lambda.Input) (a : AccountAddress) : Prop :=
  (x.existentAccount a).nonce ≠ 0 ∨ (x.existentAccount a).code.size ≠ 0 ∨
    ¬(x.existentAccount a).storage.isEmpty

instance (x : Lambda.Input) (a : AccountAddress) : Decidable (x.collision a) :=
  inferInstanceAs (Decidable (_ ∨ _))

/-- The code that runs: an invalid instruction when the address is taken. -/
def initCode (x : Lambda.Input) (a : AccountAddress) : ByteArray :=
  if x.collision a then ⟨#[0xfe]⟩ else x.i

/-- The accounts created so far; an address that is taken is not among them. -/
def created (x : Lambda.Input) (a : AccountAddress) : AddrSet :=
  if x.collision a then x.createdAccounts else x.createdAccounts.insert a

def AStar (x : Lambda.Input) (a : AccountAddress) : Substate := x.A.addAccessedAccount a

def newAccount (x : Lambda.Input) (a : AccountAddress) : Account :=
  { x.existentAccount a with
    nonce := (x.existentAccount a).nonce + 1
    balance := x.v + (x.existentAccount a).balance }

/-- The world with the new account endowed, equation 99. -/
def σStar (x : Lambda.Input) (a : AccountAddress) : AccountMap :=
  match x.σ[x.s]? with
  | none => x.σ
  | some ac =>
    (x.σ.insert x.s { ac with balance := ac.balance - x.v }).insert a (x.newAccount a)

/-- The run of the initialisation code. -/
def toΞ (x : Lambda.Input) (a : AccountAddress) : Ξ.Input where
  createdAccounts := x.created a
  genesisBlockHeader := x.genesisBlockHeader
  blocks := x.blocks
  σ := x.σStar a
  σ₀ := x.σ₀
  g := x.g
  A := x.AStar a
  I :=
    { codeOwner := a
      sender := x.o
      source := x.s
      weiValue := x.v
      calldata := default
      code := x.initCode a
      gasPrice := x.p.val
      header := x.H
      depth := x.e.val
      perm := x.w
      blobVersionedHashes := x.blobVersionedHashes }

/-- The code is not deposited, equation 118. -/
def F (x : Lambda.Input) (a : AccountAddress) (gStarStar : UInt256) (returnedData : ByteArray) :
    Prop :=
  let c := GasConstants.Gcodedeposit * returnedData.size
  let F₀ :=
    match x.σ[a]? with
    | some ac => ac.code ≠ .empty ∨ ac.nonce ≠ 0
    | none => False
  let F₂ := gStarStar.val < c
  let MAX_CODE_SIZE := 24576
  let F₃ := MAX_CODE_SIZE < returnedData.size
  let F₄ := ¬F₃ ∧ returnedData.data[0]? = some 0xef
  F₀ ∨ F₂ ∨ F₃ ∨ F₄

instance (x : Lambda.Input) (a : AccountAddress) (g : UInt256) (d : ByteArray) :
    Decidable (x.F a g d) := by
  unfold F
  cases x.σ[a]? <;> infer_instance

/-- The result when the initialisation code succeeds, equations 113 to 117. -/
def deposit (x : Lambda.Input) (a : AccountAddress) (r : Ξ.Outcome) (returnedData : ByteArray) :
    Lambda.Result :=
  if x.F a r.g returnedData then
    ⟨a, r.createdAccounts, x.σ, .ofNat 0, x.AStar a, false, .empty⟩
  else
    ⟨a, r.createdAccounts, r.σ.insert a { r.σ.getD a default with code := returnedData },
      .ofNat (r.g.val - GasConstants.Gcodedeposit * returnedData.size), r.A, true, .empty⟩

end Input

def body (E : Externals)
    (runΞ : Ξ.Input → Except ExecutionException (ExecutionResult Ξ.Outcome)) (x : Lambda.Input) :
    Except ExecutionException Lambda.Result :=
  match L_A E x.s x.n x.ζ x.i with
  | none => .error .StackUnderflow
  | some lₐ =>
    let a := address E lₐ
    match runΞ (x.toΞ a) with
    | .error e =>
      if e = .OutOfFuel then .error .OutOfFuel
      else .ok ⟨a, x.created a, x.σ, 0, x.AStar a, false, .empty⟩
    | .ok (.revert g' o) => .ok ⟨a, x.created a, x.σ, g', x.AStar a, false, o⟩
    | .ok (.success r returnedData) => .ok (x.deposit a r returnedData)

end Lambda

/-! ## `Θ` -/

namespace Θ.Input

/-- The value is credited, equations 124 to 126. -/
def σ'₁ (x : Θ.Input) : AccountMap :=
  match x.σ[x.r]? with
  | none =>
    if x.v ≠ 0 then x.σ.insert x.r { (default : Account) with balance := x.v } else x.σ
  | some acc => x.σ.insert x.r { acc with balance := acc.balance + x.v }

/-- The value is debited. -/
def σ₁ (x : Θ.Input) : AccountMap :=
  match x.σ'₁[x.s]? with
  | none => x.σ'₁
  | some acc => x.σ'₁.insert x.s { acc with balance := acc.balance - x.v }

def I (x : Θ.Input) : ExecutionEnv where
  codeOwner := x.r
  sender := x.o
  gasPrice := x.p.val
  calldata := x.d
  source := x.s
  weiValue := x.v'
  depth := x.e
  perm := x.w
  code :=
    match x.c with
    | .Precompiled _ => default
    | .Code code => code
  header := x.H
  blobVersionedHashes := x.blobVersionedHashes

/-- The run of the code of the recipient. -/
def toΞ (x : Θ.Input) : Ξ.Input where
  createdAccounts := x.createdAccounts
  genesisBlockHeader := x.genesisBlockHeader
  blocks := x.blocks
  σ := x.σ₁
  σ₀ := x.σ₀
  g := x.g
  A := x.A
  I := x.I

/-- An empty account map stands for a failure, equations 127 and 129. -/
def finish (x : Θ.Input) (createdAccounts : AddrSet) (r : PrecompiledResult) : Θ.Result :=
  let (z, σ'', g', A'', out) := r
  ⟨createdAccounts, if σ''.isEmpty then x.σ else σ'', g', if σ''.isEmpty then x.A else A'', z, out⟩

end Θ.Input

/-- Run the precompiled contract or the code. -/
def Θ.Input.execute (E : Externals)
    (runΞ : Ξ.Input → Except ExecutionException (ExecutionResult Ξ.Outcome)) (x : Θ.Input) :
    Except ExecutionException (AddrSet × PrecompiledResult) :=
  match x.c with
  | .Precompiled p => applyPrecompile E x.σ₁ x.g x.A x.I p
  | .Code _ =>
    match runΞ x.toΞ with
    | .error e =>
      if e = .OutOfFuel then .error .OutOfFuel
      else .ok (x.createdAccounts, false, x.σ, 0, x.A, .empty)
    | .ok (.revert g' o) => .ok (x.createdAccounts, false, x.σ, g', x.A, o)
    | .ok (.success r o) => .ok (r.createdAccounts, true, r.σ, r.g, r.A, o)

def Θ.body (E : Externals)
    (runΞ : Ξ.Input → Except ExecutionException (ExecutionResult Ξ.Outcome)) (x : Θ.Input) :
    Except ExecutionException Θ.Result := do
  let r ← x.execute E runΞ
  .ok (x.finish r.1 r.2)

/-! ## The recursion -/

mutual

def call (E : Externals) : ℕ → call.Input → Except ExecutionException (UInt256 × State)
  | 0, _ => .error .OutOfFuel
  | f + 1, c => call.body (Θ E f) c

def step (E : Externals) :
    ℕ → ℕ → Option (Operation × Option (UInt256 × ℕ)) → State → Except ExecutionException State
  | 0, _, _, _ => .error .OutOfFuel
  | f + 1, gasCost, instr, evmState =>
    step.body E (call E f) (Lambda E f) gasCost instr evmState

/-- Iterated `step`. -/
def X (E : Externals) :
    ℕ → Array UInt256 → State → Except ExecutionException (ExecutionResult State)
  | 0, _, _ => .error .OutOfFuel
  | f + 1, validJumps, evmState => X.body (step E f) (X E f validJumps) validJumps evmState

/-- The code execution function. -/
def Ξ (E : Externals) :
    ℕ → Ξ.Input → Except ExecutionException (ExecutionResult Ξ.Outcome)
  | 0, _ => .error .OutOfFuel
  | f + 1, x => Ξ.body (X E f) x

/-- Contract creation. -/
def Lambda (E : Externals) : ℕ → Lambda.Input → Except ExecutionException Lambda.Result
  | 0, _ => .error .OutOfFuel
  | f + 1, x => Lambda.body E (Ξ E f) x

/-- Message call. -/
def Θ (E : Externals) : ℕ → Θ.Input → Except ExecutionException Θ.Result
  | 0, _ => .error .OutOfFuel
  | f + 1, x => Θ.body E (Ξ E f) x

end

section

variable (E : Externals) (f : ℕ)

theorem call_succ (c : call.Input) : call E (f + 1) c = call.body (Θ E f) c := by rw [call]

theorem step_succ (gasCost : ℕ) (instr : Option (Operation × Option (UInt256 × ℕ))) (s : State) :
    step E (f + 1) gasCost instr s = step.body E (call E f) (Lambda E f) gasCost instr s := by
  rw [step]

theorem X_succ (validJumps : Array UInt256) (s : State) :
    X E (f + 1) validJumps s = X.body (step E f) (X E f validJumps) validJumps s := by rw [X]

theorem Ξ_succ (x : Ξ.Input) : Ξ E (f + 1) x = Ξ.body (X E f) x := by rw [Ξ]

theorem Lambda_succ (x : Lambda.Input) : Lambda E (f + 1) x = Lambda.body E (Ξ E f) x := by
  rw [Lambda]

theorem Θ_succ (x : Θ.Input) : Θ E (f + 1) x = Θ.body E (Ξ E f) x := by rw [Θ]

end

end EVM
end EvmYul
