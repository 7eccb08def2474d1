import EvmModel.BigStep
import EvmModel.Writes

/-!
# What an instruction does to memory

The gas for memory is taken before an instruction runs, from its operands alone;
the memory itself grows when it runs.  The two agree: an instruction leaves as
many active words as it has been charged for, and what it writes lies within
them.

* `copied` — what each instruction writes, and where;
* `copied_le` — this has been charged for;
* `step_touches` — every instruction writes just that, and leaves the active
  words it is charged for;
* `Touches.within`, `Touches.byteAt_memory` — what follows for the memory as an
  array and as a map of bytes.
-/

namespace EvmYul

/-! ## Active words -/

namespace MachineState

theorem le_M (s f l : ℕ) : s ≤ M s f l := by
  unfold M
  split
  · exact le_rfl
  · exact le_max_left _ _

theorem M_lt {s f l : ℕ} (hs : s < 2 ^ 256) (hf : f < 2 ^ 256) (hl : l < 2 ^ 256) :
    M s f l < 2 ^ 256 := by
  unfold M
  split <;> omega

theorem le_ofNat_M {s f l : ℕ} (hs : s < 2 ^ 256) (hf : f < 2 ^ 256) (hl : l < 2 ^ 256) :
    s ≤ (UInt256.ofNat (M s f l)).val := by
  rw [UInt256.val_ofNat_of_lt (M_lt hs hf hl)]
  exact le_M s f l

/-- The words that are touched have room for the bytes that are. -/
theorem end_le_M {s f l n : ℕ} (hs : s < 2 ^ 256) (hf : f < 2 ^ 256) (hl : l < 2 ^ 256)
    (hn : n ≠ 0) (hle : n ≤ l) : f + n ≤ 32 * (UInt256.ofNat (M s f l)).val := by
  rw [UInt256.val_ofNat_of_lt (M_lt hs hf hl)]
  unfold M
  rw [if_neg (by omega)]
  omega

/-- Touching the same bytes again adds nothing. -/
theorem M_M (s f l : ℕ) : M (M s f l) f l = M s f l := by
  unfold M
  split
  · rfl
  · exact max_eq_left (le_max_right _ _)

/-- The memory lies within the active words. -/
def Within (m : MachineState) : Prop := m.memory.size ≤ 32 * m.activeWords.val

/-- Then the shortcuts of a read do not show. -/
theorem Within.lookupMemory_eq {m : MachineState} (h : m.Within)
    (hwords : 32 * m.activeWords.val < 2 ^ 256) (a : UInt256) :
    m.lookupMemory a = wordAt (byteAt m.memory) a.val := by
  unfold lookupMemory
  split
  next hout =>
    have hle : m.memory.size ≤ a.val := by
      rcases hout with hsize | hactive
      · exact hsize
      · have hmul : (m.activeWords * 32).val = m.activeWords.val * 32 := by
          rw [Fin.val_mul]
          exact Nat.mod_eq_of_lt (by rw [Nat.mul_comm] at hwords; exact hwords)
        rw [Fin.le_def, hmul] at hactive
        unfold Within at h
        omega
    have hzero : ((List.range 32).map fun i => byteAt m.memory (a.val + i)) =
        List.replicate 32 0 := by
      refine List.eq_replicate_iff.2 ⟨by simp, fun b hb => ?_⟩
      obtain ⟨i, -, rfl⟩ := List.mem_map.1 hb
      exact byteAt_of_le (by omega)
    rw [wordAt, hzero, List.reverse_replicate, fromBytes'_replicate_zero]
    rfl
  · rw [wordAt, fromByteArrayBigEndian, toList_readWithPadding _ _ (by norm_num)]

end MachineState

open MachineState

namespace EVM

open memoryExpansionCost

/-! ## What is written -/

/-- `len` bytes of `source` from `start` on, written at `dest`. -/
structure Copied where
  source : ByteArray
  start : ℕ
  dest : ℕ
  len : ℕ

namespace Copied

def onto (c : Copied) (m : ByteArray) : ByteArray := write c.source c.start m c.dest c.len

/-- The same for a map of bytes. -/
def update (c : Copied) (m : ℕ → UInt8) (k : ℕ) : UInt8 :=
  if c.dest ≤ k ∧ k < c.dest + c.len then byteAt c.source (c.start + (k - c.dest)) else m k

end Copied

/-- The output of the message call an instruction makes, with `f` units of fuel in
the state `s`; a call that is not allowed, and every other instruction, gets none. -/
def callOutput (E : Externals) (f gasCost : ℕ) (instr : Operation) (s : State) : ByteArray :=
  match step.callInput instr gasCost s.count with
  | none => .empty
  | some (c, _) =>
    -- `step` hands one unit of fuel less to `call`, and `call` one less to `Θ`
    match c.attempt (Θ E (f - 2)) with
    | .error _ => .empty
    | .ok r => r.o

theorem callOutput_eq {E : Externals} {f gasCost : ℕ} {w : Operation} {s : State}
    {c : call.Input} {stack : Stack} {r : Θ.Result}
    (hcall : step.callInput w gasCost s.count = some (c, stack))
    (hr : c.attempt (Θ E (f - 2)) = .ok r) : callOutput E f gasCost w s = r.o := by
  simp only [callOutput, hcall, hr]

/-- What an instruction writes to memory; `o` is the output of the call it makes. -/
def copied (o : ByteArray) (s : State) (instr : Operation) : Copied :=
  let μₛ := s.stack
  match instr with
  | .MSTORE => ⟨μₛ[1]!.toByteArray, 0, μₛ[0]!.val, 32⟩
  | .MSTORE8 => ⟨⟨#[UInt8.ofNat μₛ[1]!.val]⟩, 0, μₛ[0]!.val, 1⟩
  | .MCOPY => ⟨s.memory, μₛ[1]!.val, μₛ[0]!.val, μₛ[2]!.val⟩
  | .CALLDATACOPY => ⟨s.executionEnv.calldata, μₛ[1]!.val, μₛ[0]!.val, μₛ[2]!.val⟩
  | .CODECOPY => ⟨s.executionEnv.code, μₛ[1]!.val, μₛ[0]!.val, μₛ[2]!.val⟩
  | .RETURNDATACOPY => ⟨s.returnData, μₛ[1]!.val, μₛ[0]!.val, μₛ[2]!.val⟩
  | .EXTCODECOPY =>
    let code := (s.lookupAccount (.ofUInt256 μₛ[0]!)).elim .empty (·.code)
    ⟨code, μₛ[2]!.val, μₛ[1]!.val, μₛ[3]!.val⟩
  | .CALL | .CALLCODE => ⟨o, 0, μₛ[5]!.val, (min μₛ[6]! (.ofNat o.size)).val⟩
  | .DELEGATECALL | .STATICCALL => ⟨o, 0, μₛ[4]!.val, (min μₛ[5]! (.ofNat o.size)).val⟩
  | _ => ⟨.empty, 0, 0, 0⟩

/-- **What is written has been charged for.** -/
theorem copied_le (o : ByteArray) (s : State) (instr : Operation)
    (h : (copied o s instr).len ≠ 0) :
    (copied o s instr).dest + (copied o s instr).len ≤ 32 * (μᵢ' s instr).val := by
  have hwords := s.activeWords.isLt
  have h32 : (32 : ℕ) < 2 ^ 256 := by norm_num
  have h1 : (1 : ℕ) < 2 ^ 256 := by norm_num
  cases instr with
  | MSTORE => exact end_le_M hwords (Fin.isLt _) h32 h le_rfl
  | MSTORE8 => exact end_le_M hwords (Fin.isLt _) h1 h le_rfl
  | MCOPY =>
    have hmax := max_lt s.stack[0]!.isLt s.stack[1]!.isLt
    have hend := end_le_M hwords hmax s.stack[2]!.isLt h le_rfl
    exact (Nat.add_le_add_right (le_max_left _ _) _).trans hend
  | CALLDATACOPY | CODECOPY | RETURNDATACOPY | EXTCODECOPY =>
    exact end_le_M hwords (Fin.isLt _) (Fin.isLt _) h le_rfl
  | CALL | CALLCODE | DELEGATECALL | STATICCALL =>
    exact end_le_M (M_lt hwords (Fin.isLt _) (Fin.isLt _)) (Fin.isLt _) (Fin.isLt _) h
      (Fin.le_def.1 (min_le_left _ _))
  | _ => exact absurd rfl h

/-- Memory does not shrink. -/
theorem activeWords_le (s : State) (instr : Operation) :
    s.activeWords.val ≤ (μᵢ' s instr).val := by
  have hwords := s.activeWords.isLt
  have h32 : (32 : ℕ) < 2 ^ 256 := by norm_num
  have h1 : (1 : ℕ) < 2 ^ 256 := by norm_num
  cases instr with
  | MCOPY => exact le_ofNat_M hwords (max_lt s.stack[0]!.isLt s.stack[1]!.isLt) (Fin.isLt _)
  | MLOAD | MSTORE => exact le_ofNat_M hwords (Fin.isLt _) h32
  | MSTORE8 => exact le_ofNat_M hwords (Fin.isLt _) h1
  | KECCAK256 | Log | RETURN | REVERT | CALLDATACOPY | CODECOPY | RETURNDATACOPY | EXTCODECOPY
  | CREATE | CREATE2 => exact le_ofNat_M hwords (Fin.isLt _) (Fin.isLt _)
  | CALL | CALLCODE | DELEGATECALL | STATICCALL =>
    have hin := fun f l : UInt256 => M_lt hwords f.isLt l.isLt
    exact (le_M _ _ _).trans (le_ofNat_M (hin _ _) (Fin.isLt _) (Fin.isLt _))
  | _ => exact le_rfl

/-- The machine state `m` after an instruction: what it writes is written, `o` if
it is a call, and the active words are those it is charged for. -/
structure Touches (o : ByteArray) (instr : Operation) (s : State) (m : MachineState) : Prop where
  words : m.activeWords = μᵢ' s instr
  memory : m.memory = (copied o s instr).onto s.memory

theorem Touches.of_idle {o : ByteArray} {instr : Operation} {s : State} {m : MachineState}
    (hwords : m.activeWords = μᵢ' s instr) (hlen : ∀ o, (copied o s instr).len = 0)
    (hmemory : m.memory = s.memory) : Touches o instr s m := by
  refine ⟨hwords, ?_⟩
  rw [Copied.onto, hlen, write_zero]
  exact hmemory

namespace Touches

variable {o : ByteArray} {instr : Operation} {s : State} {m : MachineState}

theorem within (h : Touches o instr s m) (hs : s.Within) : m.Within := by
  have hle := activeWords_le s instr
  unfold Within at hs ⊢
  rw [h.memory, h.words]
  by_cases hlen : (copied o s instr).len = 0
  · rw [Copied.onto, hlen, write_zero]
    omega
  · have hend := copied_le _ _ _ hlen
    refine (size_write_le _ _ _ _ hlen).trans ?_
    omega

theorem byteAt_memory (h : Touches o instr s m) (hs : s.Within)
    (hwords : 32 * (μᵢ' s instr).val < 2 ^ 64) (k : ℕ) :
    byteAt m.memory k = (copied o s instr).update (byteAt s.memory) k := by
  have hle := activeWords_le s instr
  unfold Within at hs
  rw [h.memory]
  exact byteAt_write _ _ (by omega) (fun hlen => (copied_le _ _ _ hlen).trans_lt hwords) k

end Touches

/-! ## The combinators that do not touch memory -/

/-- Only the stack, the program counter and the world may have changed. -/
def SameMachine (s s' : State) : Prop := s'.toMachineState = s.toMachineState

/-- An instruction that writes nothing and is charged for nothing. -/
theorem touches_of_sameMachine {o : ByteArray} {instr : Operation} {s : State}
    {x : Except ExecutionException State} (hwords : s.activeWords = μᵢ' s instr)
    (hlen : ∀ o, (copied o s instr).len = 0) (h : Ensures x (SameMachine s)) :
    Ensures x fun s' => Touches o instr s s'.toMachineState := by
  refine h.mono fun s' hs' => ?_
  rw [hs']
  exact .of_idle hwords hlen rfl

section

variable {s : State}

theorem execUnOp_sameMachine (f : UInt256 → UInt256) :
    Ensures (execUnOp f s) (SameMachine s) := by
  unfold execUnOp
  split
  · exact Ensures.ok_iff.2 rfl
  · exact Ensures.error

theorem execBinOp_sameMachine (f : UInt256 → UInt256 → UInt256) :
    Ensures (execBinOp f s) (SameMachine s) := by
  unfold execBinOp
  split
  · exact Ensures.ok_iff.2 rfl
  · exact Ensures.error

theorem execTriOp_sameMachine (f : UInt256 → UInt256 → UInt256 → UInt256) :
    Ensures (execTriOp f s) (SameMachine s) := by
  unfold execTriOp
  split
  · exact Ensures.ok_iff.2 rfl
  · exact Ensures.error

theorem executionEnvOp_sameMachine (op : ExecutionEnv → UInt256) :
    Ensures (executionEnvOp op s) (SameMachine s) :=
  Ensures.ok_iff.2 rfl

theorem unaryExecutionEnvOp_sameMachine (op : ExecutionEnv → UInt256 → UInt256) :
    Ensures (unaryExecutionEnvOp op s) (SameMachine s) := by
  unfold unaryExecutionEnvOp
  split
  · exact Ensures.ok_iff.2 rfl
  · exact Ensures.error

theorem machineStateOp_sameMachine (op : MachineState → UInt256) :
    Ensures (machineStateOp op s) (SameMachine s) :=
  Ensures.ok_iff.2 rfl

theorem binaryStateOp_sameMachine (op : EvmYul.State → UInt256 → UInt256 → EvmYul.State) :
    Ensures (binaryStateOp op s) (SameMachine s) := by
  unfold binaryStateOp
  split
  · exact Ensures.ok_iff.2 rfl
  · exact Ensures.error

theorem stateOp_sameMachine (op : EvmYul.State → UInt256) :
    Ensures (stateOp op s) (SameMachine s) :=
  Ensures.ok_iff.2 rfl

theorem unaryStateOp_sameMachine (op : EvmYul.State → UInt256 → EvmYul.State × UInt256) :
    Ensures (unaryStateOp op s) (SameMachine s) := by
  unfold unaryStateOp
  split
  · exact Ensures.ok_iff.2 rfl
  · exact Ensures.error

theorem push_sameMachine (arg : Option (UInt256 × ℕ)) :
    Ensures (push arg s) (SameMachine s) := by
  unfold push
  split
  · exact Ensures.ok_iff.2 rfl
  · exact Ensures.error

theorem pop_sameMachine : Ensures (pop s) (SameMachine s) := by
  unfold pop
  split
  · exact Ensures.ok_iff.2 rfl
  · exact Ensures.error

theorem dup_sameMachine (n : ℕ) : Ensures (dup n s) (SameMachine s) := by
  unfold dup
  exact Ensures.ite (fun _ => Ensures.ok_iff.2 rfl) fun _ => Ensures.error

theorem swap_sameMachine (n : ℕ) : Ensures (swap n s) (SameMachine s) := by
  unfold swap
  exact Ensures.ite (fun _ => Ensures.ok_iff.2 rfl) fun _ => Ensures.error

theorem jump_sameMachine : Ensures (jump s) (SameMachine s) := by
  unfold jump
  split
  · exact Ensures.ok_iff.2 rfl
  · exact Ensures.error

theorem jumpi_sameMachine : Ensures (jumpi s) (SameMachine s) := by
  unfold jumpi
  split
  · exact Ensures.ok_iff.2 rfl
  · exact Ensures.error

theorem selfdestruct_sameMachine : Ensures (selfdestruct s) (SameMachine s) := by
  unfold selfdestruct
  split
  · exact Ensures.ok_iff.2 rfl
  · exact Ensures.error

/-! ## The combinators that touch memory -/

variable {Q : MachineState → Prop} {o : ByteArray}

theorem unaryMachineStateOp'_machine {op : MachineState → UInt256 → UInt256 × MachineState}
    (h : ∀ a t, s.stack = a :: t → Q (op s.toMachineState a).2) :
    Ensures (unaryMachineStateOp' op s) fun s' => Q s'.toMachineState := by
  unfold unaryMachineStateOp'
  split
  next a t hs => exact Ensures.ok_iff.2 (h a t hs)
  · exact Ensures.error

theorem binaryMachineStateOp_machine {op : MachineState → UInt256 → UInt256 → MachineState}
    (h : ∀ a b t, s.stack = a :: b :: t → Q (op s.toMachineState a b)) :
    Ensures (binaryMachineStateOp op s) fun s' => Q s'.toMachineState := by
  unfold binaryMachineStateOp
  split
  next a b t hs => exact Ensures.ok_iff.2 (h a b t hs)
  · exact Ensures.error

theorem binaryMachineStateOp'_machine
    {op : MachineState → UInt256 → UInt256 → UInt256 × MachineState}
    (h : ∀ a b t, s.stack = a :: b :: t → Q (op s.toMachineState a b).2) :
    Ensures (binaryMachineStateOp' op s) fun s' => Q s'.toMachineState := by
  unfold binaryMachineStateOp'
  split
  next a b t hs => exact Ensures.ok_iff.2 (h a b t hs)
  · exact Ensures.error

theorem ternaryMachineStateOp_machine
    {op : MachineState → UInt256 → UInt256 → UInt256 → MachineState}
    (h : ∀ a b c t, s.stack = a :: b :: c :: t → Q (op s.toMachineState a b c)) :
    Ensures (ternaryMachineStateOp op s) fun s' => Q s'.toMachineState := by
  unfold ternaryMachineStateOp
  split
  next a b c t hs => exact Ensures.ok_iff.2 (h a b c t hs)
  · exact Ensures.error

theorem ternaryCopyOp_machine {op : SharedState → UInt256 → UInt256 → UInt256 → SharedState}
    (h : ∀ a b c t, s.stack = a :: b :: c :: t →
      Q (op s.toSharedState a b c).toMachineState) :
    Ensures (ternaryCopyOp op s) fun s' => Q s'.toMachineState := by
  unfold ternaryCopyOp
  split
  next a b c t hs => exact Ensures.ok_iff.2 (h a b c t hs)
  · exact Ensures.error

theorem quaternaryCopyOp_machine
    {op : SharedState → UInt256 → UInt256 → UInt256 → UInt256 → SharedState}
    (h : ∀ a b c d t, s.stack = a :: b :: c :: d :: t →
      Q (op s.toSharedState a b c d).toMachineState) :
    Ensures (quaternaryCopyOp op s) fun s' => Q s'.toMachineState := by
  unfold quaternaryCopyOp
  split
  next a b c d t hs => exact Ensures.ok_iff.2 (h a b c d t hs)
  · exact Ensures.error

theorem logNOp_touches (n : Fin 5) :
    Ensures (logNOp n s) fun s' => Touches o (.Log n) s s'.toMachineState := by
  unfold logNOp
  split
  next a b t hs =>
    refine Ensures.ite (fun _ => Ensures.ok_iff.2 (.of_idle ?_ (fun _ => rfl) rfl))
      fun _ => Ensures.error
    simp only [μᵢ', hs, List.getElem!_cons_zero, List.getElem!_cons_succ]
    rfl
  · exact Ensures.error

/-! ## Instructions -/

/-- `REVERT` counts its output as touched twice. -/
theorem activeWords_evmRevert (μ : MachineState) (a b : UInt256) :
    (μ.evmRevert a b).activeWords = .ofNat (M μ.activeWords.val a.val b.val) := by
  show UInt256.ofNat (M (UInt256.ofNat (M μ.activeWords.val a.val b.val)).val a.val b.val) = _
  rw [UInt256.val_ofNat_of_lt (M_lt μ.activeWords.isLt a.isLt b.isLt), M_M]

/-- **An instruction writes what it is said to**, and leaves the active words it
is charged for; calls and creations apart. -/
theorem step_machine (E : Externals) (op : Operation) (arg : Option (UInt256 × ℕ))
    (o : ByteArray) (hcall : op.isCallOrCreate = false) :
    Ensures (EvmYul.step E op arg s) fun s' => Touches o op s s'.toMachineState := by
  cases op with
  | CREATE | CALL | CALLCODE | DELEGATECALL | CREATE2 | STATICCALL => cases hcall
  | INVALID => exact Ensures.error
  -- nothing is touched
  | STOP => exact Ensures.ok_iff.2 (.of_idle rfl (fun _ => rfl) rfl)
  | JUMPDEST | PC => exact Ensures.ok_iff.2 (.of_idle rfl (fun _ => rfl) rfl)
  | JUMP => exact touches_of_sameMachine rfl (fun _ => rfl) jump_sameMachine
  | JUMPI => exact touches_of_sameMachine rfl (fun _ => rfl) jumpi_sameMachine
  | POP => exact touches_of_sameMachine rfl (fun _ => rfl) pop_sameMachine
  | SELFDESTRUCT => exact touches_of_sameMachine rfl (fun _ => rfl) selfdestruct_sameMachine
  | Dup n => exact touches_of_sameMachine rfl (fun _ => rfl) (dup_sameMachine _)
  | Exchange n => exact touches_of_sameMachine rfl (fun _ => rfl) (swap_sameMachine _)
  | Log n => exact logNOp_touches n
  | Push n =>
    by_cases hn : n.val = 0
    · rw [EvmYul.step, if_pos hn]
      exact Ensures.ok_iff.2 (.of_idle rfl (fun _ => rfl) rfl)
    · rw [EvmYul.step, if_neg hn]
      exact touches_of_sameMachine rfl (fun _ => rfl) (push_sameMachine arg)
  | ISZERO | NOT => exact touches_of_sameMachine rfl (fun _ => rfl) (execUnOp_sameMachine _)
  | ADD | MUL | SUB | DIV | SDIV | MOD | SMOD | EXP | SIGNEXTEND | LT | GT | SLT | SGT | EQ | AND
  | OR | XOR | BYTE | SHL | SHR | SAR =>
    exact touches_of_sameMachine rfl (fun _ => rfl) (execBinOp_sameMachine _)
  | ADDMOD | MULMOD => exact touches_of_sameMachine rfl (fun _ => rfl) (execTriOp_sameMachine _)
  | ADDRESS | ORIGIN | CALLER | CALLVALUE | CALLDATASIZE | CODESIZE | GASPRICE | PREVRANDAO
  | BASEFEE | BLOBBASEFEE =>
    simp only [EvmYul.step]
    exact touches_of_sameMachine rfl (fun _ => rfl) (executionEnvOp_sameMachine _)
  | BLOBHASH =>
    simp only [EvmYul.step]
    exact touches_of_sameMachine rfl (fun _ => rfl) (unaryExecutionEnvOp_sameMachine _)
  | RETURNDATASIZE | MSIZE | GAS =>
    simp only [EvmYul.step]
    exact touches_of_sameMachine rfl (fun _ => rfl) (machineStateOp_sameMachine _)
  | COINBASE | TIMESTAMP | NUMBER | GASLIMIT | CHAINID | SELFBALANCE =>
    simp only [EvmYul.step]
    exact touches_of_sameMachine rfl (fun _ => rfl) (stateOp_sameMachine _)
  | BALANCE | CALLDATALOAD | EXTCODESIZE | EXTCODEHASH | BLOCKHASH | SLOAD | TLOAD =>
    simp only [EvmYul.step]
    exact touches_of_sameMachine rfl (fun _ => rfl) (unaryStateOp_sameMachine _)
  | SSTORE | TSTORE =>
    exact touches_of_sameMachine rfl (fun _ => rfl) (binaryStateOp_sameMachine _)
  -- memory is read
  | KECCAK256 =>
    simp only [EvmYul.step]
    refine binaryMachineStateOp'_machine fun a b t hs => .of_idle ?_ (fun _ => rfl) rfl
    simp only [μᵢ', hs, List.getElem!_cons_zero, List.getElem!_cons_succ]
    rfl
  | MLOAD =>
    simp only [EvmYul.step]
    refine unaryMachineStateOp'_machine fun a t hs => .of_idle ?_ (fun _ => rfl) rfl
    simp only [μᵢ', hs, List.getElem!_cons_zero]
    rfl
  | RETURN =>
    refine binaryMachineStateOp_machine fun a b t hs => .of_idle ?_ (fun _ => rfl) rfl
    simp only [μᵢ', hs, List.getElem!_cons_zero, List.getElem!_cons_succ]
    rfl
  | REVERT =>
    refine binaryMachineStateOp_machine fun a b t hs => .of_idle ?_ (fun _ => rfl) rfl
    simp only [μᵢ', hs, List.getElem!_cons_zero, List.getElem!_cons_succ]
    exact activeWords_evmRevert _ a b
  -- memory is written
  | MSTORE | MSTORE8 =>
    refine binaryMachineStateOp_machine fun a b t hs => ?_
    constructor
    · simp only [μᵢ', hs, List.getElem!_cons_zero]
      rfl
    · simp only [copied, hs, List.getElem!_cons_zero, List.getElem!_cons_succ]
      rfl
  | RETURNDATACOPY | MCOPY =>
    refine ternaryMachineStateOp_machine fun a b c t hs => ?_
    constructor
    · simp only [μᵢ', hs, List.getElem!_cons_zero, List.getElem!_cons_succ]
      rfl
    · simp only [copied, hs, List.getElem!_cons_zero, List.getElem!_cons_succ]
      rfl
  | CALLDATACOPY | CODECOPY =>
    refine ternaryCopyOp_machine fun a b c t hs => ?_
    constructor
    · simp only [μᵢ', hs, List.getElem!_cons_zero, List.getElem!_cons_succ]
      rfl
    · simp only [copied, hs, List.getElem!_cons_zero, List.getElem!_cons_succ]
      rfl
  | EXTCODECOPY =>
    refine quaternaryCopyOp_machine fun a b c d t hs => ?_
    constructor
    · simp only [μᵢ', hs, List.getElem!_cons_zero, List.getElem!_cons_succ]
      rfl
    · simp only [copied, hs, List.getElem!_cons_zero, List.getElem!_cons_succ]
      cases hcode : s.lookupAccount (AccountAddress.ofUInt256 a) with
      | none => simp only [SharedState.extCodeCopy', hcode]; rfl
      | some acc => simp only [SharedState.extCodeCopy', hcode]; rfl

end

/-- The output of a call is written where it is asked for. -/
theorem step.callInput_touches {w : Operation} {gasCost : ℕ} {s : State} {c : call.Input}
    {stack : Stack} (h : step.callInput w gasCost s = some (c, stack)) (r : Θ.Result) :
    Touches r.o w s (c.finish r).2.toMachineState := by
  unfold step.callInput at h
  dsimp only at h
  split at h
  case h_5 => cases h
  all_goals
    next hs =>
      cases h
      constructor
      · simp only [μᵢ', hs, List.getElem!_cons_zero, List.getElem!_cons_succ]
        rfl
      · simp only [copied, hs, List.getElem!_cons_zero, List.getElem!_cons_succ]
        rfl

/-- A creation reads its initialisation code from memory. -/
theorem create.body_machine {runΛ : Lambda.Input → Except ExecutionException Lambda.Result}
    {c : create.Input} {s' : State} (h : create.body runΛ c = .ok s') :
    s'.activeWords = .ofNat (M c.evmState.activeWords.val c.μ₁.val c.μ₂.val) ∧
      s'.memory = c.evmState.memory := by
  have hmemory : (c.attempt runΛ).2.1.memory = c.evmState.memory := by
    unfold create.Input.attempt
    dsimp only
    split
    · rfl
    · split
      · split <;> rfl
      · rfl
  unfold create.body at h
  dsimp only at h
  split at h
  · cases h
  · obtain rfl := Except.ok.inj h
    exact ⟨rfl, hmemory⟩

theorem step.createInput_touches (o : ByteArray) {w : Operation} {s : State} {c : create.Input}
    (h : step.createInput w s = some c) {m : MachineState}
    (hwords : m.activeWords = .ofNat (M s.activeWords.val c.μ₁.val c.μ₂.val))
    (hmemory : m.memory = s.memory) : Touches o w s m := by
  unfold step.createInput at h
  split at h
  case h_3 => cases h
  all_goals
    next hs =>
      cases h
      refine .of_idle ?_ (fun _ => rfl) hmemory
      simp only [μᵢ', hs, List.getElem!_cons_zero, List.getElem!_cons_succ]
      exact hwords

/-- **Every instruction writes what it is said to**, and leaves the active words it
is charged for. -/
theorem step_touches {E : Externals} {f gasCost : ℕ} {p : Operation × Option (UInt256 × ℕ)}
    {s s' : State} (h : step E f gasCost (some p) s = .ok s') :
    Touches (callOutput E f gasCost p.1 s) p.1 s s'.toMachineState := by
  cases f with
  | zero => rw [step] at h; cases h
  | succ f =>
    rw [step_succ] at h
    obtain ⟨q, hq, hbody⟩ := step.body_cases h
    obtain rfl := Except.ok.inj hq
    rcases hbody with ⟨c, hc, hcreate⟩ | ⟨c, stack, r, hc, hr, rfl⟩ | ⟨hop, hstep⟩
    · obtain ⟨hwords, hmemory⟩ := create.body_machine hcreate
      rw [step.createInput_evmState hc] at hwords hmemory
      have htouches := step.createInput_touches (callOutput E (f + 1) gasCost p.1 s) hc hwords hmemory
      exact ⟨htouches.words, htouches.memory⟩
    · cases f with
      | zero => rw [call] at hr; cases hr
      | succ f =>
        rw [call_succ] at hr
        obtain ⟨rΘ, hrΘ, hr⟩ := Except.bind_eq_ok_iff.1 hr
        obtain rfl := Except.ok.inj hr
        have htouches := step.callInput_touches hc rΘ
        rw [callOutput_eq (f := f + 1 + 1) hc hrΘ]
        exact ⟨htouches.words, htouches.memory⟩
    · have htouches := step_machine E p.1 p.2 (callOutput E (f + 1) gasCost p.1 s) hop s' hstep
      exact ⟨htouches.words, htouches.memory⟩

/-- `MLOAD` replaces the address by the word that is looked up there. -/
theorem step_mload {E : Externals} {f gasCost : ℕ} {p : Operation × Option (UInt256 × ℕ)}
    {s s' : State} (hop : p.1 = .MLOAD) (h : step E f gasCost (some p) s = .ok s') :
    s'.stack = s.lookupMemory s.stack[0]! :: s.stack.drop 1 := by
  cases f with
  | zero => rw [step] at h; cases h
  | succ f =>
    have hload : unaryMachineStateOp' MachineState.mload (s.count.charge gasCost) = .ok s' := by
      rw [step_succ] at h
      obtain ⟨op, arg⟩ := p
      obtain rfl : op = .MLOAD := hop
      exact h
    unfold unaryMachineStateOp' at hload
    split at hload
    next a t hs =>
      obtain rfl := Except.ok.inj hload
      have hstack : s.stack = a :: t := hs
      rw [hstack]
      rfl
    · cases hload

end EVM
end EvmYul
