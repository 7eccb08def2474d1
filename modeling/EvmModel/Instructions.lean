import EvmModel.Lib.Ensures
import EvmModel.Step

/-!
# What an instruction can do

What an instruction that calls nobody may change, said once and for all.  The
part of a state that outlives the frame is its `View`: the environment, the
accounts, the accounts created and those marked for removal in this
transaction, and the log.

* `Reads s s'` — the view is as before;
* `Keeps s s'` — storage and the log apart, the view is as before;
* one lemma for each combinator;
* `step_reads` — the instructions that are not in the table of writing ones;
* `step_keeps` — all instructions but `SELFDESTRUCT`, for which there is
  `selfdestruct_spec`;
* `step_env` — the environment is fixed throughout, and the gas is not touched.
-/

namespace EvmYul

/-! ## Views of a state -/

/-- What a frame sees of the world, and leaves behind. -/
structure View where
  env : ExecutionEnv
  accounts : AccountMap
  created : AddrSet
  doomed : AddrSet
  logs : Array LogEntry

/-- An account without its storage. -/
def Account.core (acc : Account) : UInt256 × UInt256 × ByteArray :=
  (acc.nonce, acc.balance, acc.code)

/-- A view without storage and the log. -/
structure Core where
  env : ExecutionEnv
  accounts : AccountAddress → Option (UInt256 × UInt256 × ByteArray)
  created : AddrSet
  doomed : AddrSet

def AccountMap.core (σ : AccountMap) (a : AccountAddress) :
    Option (UInt256 × UInt256 × ByteArray) :=
  σ[a]?.map Account.core

def View.core (v : View) : Core := ⟨v.env, v.accounts.core, v.created, v.doomed⟩

namespace State

def view (s : State) : View :=
  ⟨s.executionEnv, s.accountMap, s.createdAccounts, s.substate.selfDestructSet,
    s.substate.logSeries⟩

def core (s : State) : Core := s.view.core

end State

/-- Writing an account back with another storage changes nothing else. -/
theorem AccountMap.core_insert {σ : AccountMap} {a : AccountAddress} {acc acc' : Account}
    (h : σ[a]? = some acc) (hcore : acc'.core = acc.core) :
    AccountMap.core (σ.insert a acc') = σ.core := by
  funext b
  unfold AccountMap.core
  rw [Std.TreeMap.getElem?_insert]
  split
  next hab =>
    obtain rfl := Std.LawfulEqCmp.compare_eq_iff_eq.1 hab
    rw [h, Option.map_some, Option.map_some, hcore]
  · rfl

/-! ## Operations on the state -/

namespace State

@[simp] theorem view_extCodeHash (E : Externals) (s : State) (v : UInt256) :
    (s.extCodeHash E v).1.view = s.view := by
  unfold extCodeHash
  dsimp only
  split
  · rfl
  · split <;> rfl

@[simp] theorem view_tload (s : State) (k : UInt256) : (s.tload k).1.view = s.view := by
  unfold tload
  split <;> rfl

@[simp] theorem core_sstore (s : State) (k v : UInt256) : (s.sstore k v).core = s.core := by
  cases h : s.lookupAccount s.executionEnv.codeOwner with
  | none => simp only [sstore, h]
  | some acc =>
    have hcore : (acc.updateStorage k v).core = acc.core := by
      unfold Account.updateStorage
      split <;> rfl
    have hmap := AccountMap.core_insert h hcore
    simp only [sstore, h]
    exact congrArg (Core.mk _ · _ _) hmap

@[simp] theorem core_tstore (s : State) (k v : UInt256) : (s.tstore k v).core = s.core := by
  cases h : s.lookupAccount s.executionEnv.codeOwner with
  | none => simp only [tstore, h]
  | some acc =>
    have hcore : (acc.updateTransientStorage k v).core = acc.core := by
      unfold Account.updateTransientStorage
      split <;> rfl
    have hmap := AccountMap.core_insert h hcore
    simp only [tstore, h]
    exact congrArg (Core.mk _ · _ _) hmap

end State

namespace EVM

/-! ## Reading and keeping -/

/-- `s'` shows the same view as `s`, and has as much gas. -/
def Reads (s s' : State) : Prop := s'.view = s.view ∧ s'.gasAvailable = s.gasAvailable

/-- `s'` shows the same view as `s`, storage and the log apart, and has as much
gas. -/
def Keeps (s s' : State) : Prop := s'.core = s.core ∧ s'.gasAvailable = s.gasAvailable

theorem Reads.keeps {s s' : State} (h : Reads s s') : Keeps s s' :=
  ⟨congrArg View.core h.1, h.2⟩

@[simp] theorem Reads.refl (s : State) : Reads s s := ⟨rfl, rfl⟩

@[simp] theorem reads_replaceStackAndIncrPC (s s' : State) (stack : Stack) (n : ℕ) :
    Reads s (s'.replaceStackAndIncrPC stack n) ↔ Reads s s' := Iff.rfl

/-! ## Combinators -/

variable {s : State}

@[simp] theorem execUnOp_reads (f : UInt256 → UInt256) : Ensures (execUnOp f s) (Reads s) := by
  unfold execUnOp
  split <;> simp

@[simp] theorem execBinOp_reads (f : UInt256 → UInt256 → UInt256) :
    Ensures (execBinOp f s) (Reads s) := by
  unfold execBinOp
  split <;> simp

@[simp] theorem execTriOp_reads (f : UInt256 → UInt256 → UInt256 → UInt256) :
    Ensures (execTriOp f s) (Reads s) := by
  unfold execTriOp
  split <;> simp

@[simp] theorem executionEnvOp_reads (op : ExecutionEnv → UInt256) :
    Ensures (executionEnvOp op s) (Reads s) := by
  simp [executionEnvOp]

@[simp] theorem unaryExecutionEnvOp_reads (op : ExecutionEnv → UInt256 → UInt256) :
    Ensures (unaryExecutionEnvOp op s) (Reads s) := by
  unfold unaryExecutionEnvOp
  split <;> simp

@[simp] theorem machineStateOp_reads (op : MachineState → UInt256) :
    Ensures (machineStateOp op s) (Reads s) := by
  simp [machineStateOp]

theorem unaryMachineStateOp'_reads (op : MachineState → UInt256 → UInt256 × MachineState)
    (h : ∀ μ a, (op μ a).2.gasAvailable = μ.gasAvailable) :
    Ensures (unaryMachineStateOp' op s) (Reads s) := by
  unfold unaryMachineStateOp'
  split
  · exact Ensures.ok_iff.2 ⟨rfl, h _ _⟩
  · exact Ensures.error

theorem binaryMachineStateOp_reads (op : MachineState → UInt256 → UInt256 → MachineState)
    (h : ∀ μ a b, (op μ a b).gasAvailable = μ.gasAvailable) :
    Ensures (binaryMachineStateOp op s) (Reads s) := by
  unfold binaryMachineStateOp
  split
  · exact Ensures.ok_iff.2 ⟨rfl, h _ _ _⟩
  · exact Ensures.error

theorem binaryMachineStateOp'_reads
    (op : MachineState → UInt256 → UInt256 → UInt256 × MachineState)
    (h : ∀ μ a b, (op μ a b).2.gasAvailable = μ.gasAvailable) :
    Ensures (binaryMachineStateOp' op s) (Reads s) := by
  unfold binaryMachineStateOp'
  split
  · exact Ensures.ok_iff.2 ⟨rfl, h _ _ _⟩
  · exact Ensures.error

theorem ternaryMachineStateOp_reads
    (op : MachineState → UInt256 → UInt256 → UInt256 → MachineState)
    (h : ∀ μ a b c, (op μ a b c).gasAvailable = μ.gasAvailable) :
    Ensures (ternaryMachineStateOp op s) (Reads s) := by
  unfold ternaryMachineStateOp
  split
  · exact Ensures.ok_iff.2 ⟨rfl, h _ _ _ _⟩
  · exact Ensures.error

@[simp] theorem stateOp_reads (op : EvmYul.State → UInt256) :
    Ensures (stateOp op s) (Reads s) := by
  simp [stateOp]

@[simp] theorem unaryStateOp_reads (op : EvmYul.State → UInt256 → EvmYul.State × UInt256)
    (h : ∀ s v, (op s v).1.view = s.view) : Ensures (unaryStateOp op s) (Reads s) := by
  unfold unaryStateOp
  split
  · exact Ensures.ok_iff.2 ⟨h _ _, rfl⟩
  · exact Ensures.error

/-- The combinator of `SSTORE` and `TSTORE`. -/
theorem binaryStateOp_keeps (op : EvmYul.State → UInt256 → UInt256 → EvmYul.State)
    (h : ∀ s k v, (op s k v).core = s.core) : Ensures (binaryStateOp op s) (Keeps s) := by
  unfold binaryStateOp
  split
  · exact Ensures.ok_iff.2 ⟨h _ _ _, rfl⟩
  · exact Ensures.error

theorem ternaryCopyOp_reads (op : SharedState → UInt256 → UInt256 → UInt256 → SharedState)
    (h : ∀ s a b c, (op s a b c).toState.view = s.toState.view ∧
      (op s a b c).gasAvailable = s.gasAvailable) :
    Ensures (ternaryCopyOp op s) (Reads s) := by
  unfold ternaryCopyOp
  split
  · exact Ensures.ok_iff.2 (h _ _ _ _)
  · exact Ensures.error

theorem quaternaryCopyOp_reads
    (op : SharedState → UInt256 → UInt256 → UInt256 → UInt256 → SharedState)
    (h : ∀ s a b c d, (op s a b c d).toState.view = s.toState.view ∧
      (op s a b c d).gasAvailable = s.gasAvailable) :
    Ensures (quaternaryCopyOp op s) (Reads s) := by
  unfold quaternaryCopyOp
  split
  · exact Ensures.ok_iff.2 (h _ _ _ _ _)
  · exact Ensures.error

@[simp] theorem logNOp_keeps (n : ℕ) : Ensures (logNOp n s) (Keeps s) := by
  unfold logNOp
  split
  · exact Ensures.ite (fun _ => Ensures.ok_iff.2 ⟨rfl, rfl⟩) fun _ => Ensures.error
  · exact Ensures.error

@[simp] theorem push_reads (arg : Option (UInt256 × ℕ)) : Ensures (push arg s) (Reads s) := by
  unfold push
  split <;> simp

@[simp] theorem pop_reads : Ensures (pop s) (Reads s) := by
  unfold pop
  split <;> simp

@[simp] theorem dup_reads (n : ℕ) : Ensures (dup n s) (Reads s) := by
  unfold dup
  exact Ensures.ite (fun _ => by simp) fun _ => by simp

@[simp] theorem swap_reads (n : ℕ) : Ensures (swap n s) (Reads s) := by
  unfold swap
  exact Ensures.ite (fun _ => by simp) fun _ => by simp

@[simp] theorem jump_reads : Ensures (jump s) (Reads s) := by
  unfold jump
  split
  · exact Ensures.ok_iff.2 ⟨rfl, rfl⟩
  · exact Ensures.error

@[simp] theorem jumpi_reads : Ensures (jumpi s) (Reads s) := by
  unfold jumpi
  split
  · exact Ensures.ok_iff.2 ⟨rfl, rfl⟩
  · exact Ensures.error

/-! ## The instructions -/

/-- What `SELFDESTRUCT` does to the world. -/
theorem selfdestruct_spec : Ensures (selfdestruct s) fun s' =>
    (s'.executionEnv = s.executionEnv ∧ s'.gasAvailable = s.gasAvailable) ∧
    (∃ r b, s'.accountMap =
      selfdestructAccounts s.accountMap s.executionEnv.codeOwner r b) ∧
    s'.createdAccounts = s.createdAccounts ∧
    s'.substate.selfDestructSet =
      if s.createdAccounts.contains s.executionEnv.codeOwner then
        s.substate.selfDestructSet.insert s.executionEnv.codeOwner
      else s.substate.selfDestructSet := by
  unfold selfdestruct
  split
  · exact Ensures.ok_iff.2 ⟨⟨rfl, rfl⟩, ⟨_, _, rfl⟩, rfl, rfl⟩
  · exact Ensures.error

/-- **An instruction that does not write only reads**, calls and creations
apart. -/
theorem step_reads (E : Externals) (op : Operation) (arg : Option (UInt256 × ℕ))
    (hop : op.isWrite = false) (hcall : op.isCallOrCreate = false) :
    Ensures (EvmYul.step E op arg s) (Reads s) := by
  cases op with
  | SSTORE | TSTORE | Log | SELFDESTRUCT => cases hop
  | CREATE | CALL | CALLCODE | DELEGATECALL | CREATE2 | STATICCALL => cases hcall
  | STOP | JUMPDEST => exact Ensures.ok_iff.2 ⟨rfl, rfl⟩
  | INVALID => exact Ensures.error
  | BALANCE => exact unaryStateOp_reads EvmYul.State.balance fun _ _ => rfl
  | EXTCODESIZE => exact unaryStateOp_reads EvmYul.State.extCodeSize fun _ _ => rfl
  | SLOAD => exact unaryStateOp_reads EvmYul.State.sload fun _ _ => rfl
  | CALLDATACOPY => exact ternaryCopyOp_reads SharedState.calldatacopy fun _ _ _ _ => ⟨rfl, rfl⟩
  | CODECOPY => exact ternaryCopyOp_reads SharedState.codeCopy fun _ _ _ _ => ⟨rfl, rfl⟩
  | EXTCODECOPY =>
    exact quaternaryCopyOp_reads SharedState.extCodeCopy' fun _ _ _ _ _ => ⟨rfl, rfl⟩
  | MLOAD => exact unaryMachineStateOp'_reads MachineState.mload (by simp [MachineState.mload])
  | MSTORE => exact binaryMachineStateOp_reads _ (by simp [MachineState.mstore])
  | MSTORE8 => exact binaryMachineStateOp_reads _ (by simp [MachineState.mstore8])
  | RETURN => exact binaryMachineStateOp_reads _ (by simp [MachineState.evmReturn])
  | REVERT =>
    exact binaryMachineStateOp_reads _ (by simp [MachineState.evmRevert, MachineState.evmReturn])
  | KECCAK256 =>
    exact binaryMachineStateOp'_reads (MachineState.keccak256 E) (by simp [MachineState.keccak256])
  | RETURNDATACOPY => exact ternaryMachineStateOp_reads _ (by simp [MachineState.returndatacopy])
  | MCOPY => exact ternaryMachineStateOp_reads _ (by simp [MachineState.mcopy])
  | Push n =>
    by_cases hn : n.val = 0 <;> simp [EvmYul.step, hn]
  | _ => simp [EvmYul.step]

/-- **Every instruction but `SELFDESTRUCT` keeps everything but storage and the
log**, calls and creations apart. -/
theorem step_keeps (E : Externals) (op : Operation) (arg : Option (UInt256 × ℕ))
    (hop : op ≠ .SELFDESTRUCT) (hcall : op.isCallOrCreate = false) :
    Ensures (EvmYul.step E op arg s) (Keeps s) := by
  cases hwrite : op.isWrite with
  | false => exact (step_reads E op arg hwrite hcall).mono fun _ h => h.keeps
  | true =>
    cases op with
    | SELFDESTRUCT => exact absurd rfl hop
    | SSTORE => exact binaryStateOp_keeps _ EvmYul.State.core_sstore
    | TSTORE => exact binaryStateOp_keeps _ EvmYul.State.core_tstore
    | Log n => exact logNOp_keeps n
    | _ => cases hwrite

/-- An instruction leaves the environment as it is, and takes no gas: it has
been paid for before. -/
theorem step_env (E : Externals) (op : Operation) (arg : Option (UInt256 × ℕ))
    (hcall : op.isCallOrCreate = false) :
    Ensures (EvmYul.step E op arg s) fun s' =>
      s'.executionEnv = s.executionEnv ∧ s'.gasAvailable = s.gasAvailable := by
  by_cases hop : op = .SELFDESTRUCT
  · subst hop
    exact selfdestruct_spec.mono fun _ h => h.1
  · exact (step_keeps E op arg hop hcall).mono fun _ h => ⟨congrArg Core.env h.1, h.2⟩

end EVM
end EvmYul
