import EvmModel.BigStep
import EvmModel.Permanence

/-!
# Control flow

Where the program counter can be, and how high the stack can get.

The bytes of a contract are code and immediate data of `PUSH` instructions side
by side; an *instruction boundary* is a position that reading instructions one
after the other from the start of the code arrives at.

* **the scan** — `mem_D_J_iff`: `D_J` finds the `JUMPDEST`s at instruction
  boundaries, all of them, and `Boundary.not_inside`: none inside immediate data;
* **one instruction** — `step_returns`: an instruction that has its operands
  succeeds, replaces the stack items `δ` and `α` say and no others, and moves on
  to the next boundary unless it jumps;
* **whole runs** — `Regular.of_invokes` and `frames_are_well_formed`: in every
  frame of a transaction the program counter is on an instruction boundary,
  there are at most 1024 items on the stack, and the frame is inside of at most
  1024 calls and creations.
-/

namespace EvmYul
namespace EVM

/-! ## Instruction boundaries -/

/-- The instruction whose byte is at `pc`. -/
def instrAt (c : ByteArray) (pc : UInt256) : Option Operation :=
  (getByte? c pc.val).bind parseInstr

/-- The instruction at `i` ends where the one at `j` starts. -/
def Next (c : ByteArray) (i j : UInt256) : Prop := ∃ op, instrAt c i = some op ∧ j = N i op

/-- Reading instructions from the start of the code arrives at `pc`. -/
def Boundary (c : ByteArray) (pc : UInt256) : Prop := Relation.ReflTransGen (Next c) 0 pc

theorem Boundary.start (c : ByteArray) : Boundary c 0 := .refl

theorem Boundary.next {c : ByteArray} {pc : UInt256} {op : Operation} (h : Boundary c pc)
    (hop : instrAt c pc = some op) : Boundary c (N pc op) :=
  .tail h ⟨op, hop, rfl⟩

theorem lt_size_of_instrAt {c : ByteArray} {pc : UInt256} {op : Operation}
    (h : instrAt c pc = some op) : pc.val < c.size := by
  by_contra hge
  have hnone : getByte? c pc.val = none := Array.getElem?_eq_none (by simpa using hge)
  simp [instrAt, hnone] at h

theorem argOnNBytesOfInstr_le (op : Operation) : argOnNBytesOfInstr op ≤ 32 := by
  unfold argOnNBytesOfInstr
  split
  · omega
  · exact Nat.zero_le _

/-- Positions inside code that is not of astronomic length do not wrap around. -/
theorem val_N {c : ByteArray} (hc : c.size + 33 < 2 ^ 256) {pc : UInt256} {op : Operation}
    (h : instrAt c pc = some op) : (N pc op).val = pc.val + 1 + argOnNBytesOfInstr op := by
  have hlt := lt_size_of_instrAt h
  have harg := argOnNBytesOfInstr_le op
  simp only [N, UInt256.ofNat, Fin.val_add, Fin.val_ofNat, Fin.val_one]
  omega

/-! ## The scan for jump destinations -/

theorem D_J_aux_succ (c : ByteArray) (fuel : ℕ) (i : UInt256) (result : Array UInt256) :
    D_J_aux c (fuel + 1) i result =
      match instrAt c i with
      | none => result
      | some cᵢ => D_J_aux c fuel (N i cᵢ) (if cᵢ = .JUMPDEST then result.push i else result) :=
  rfl

/-- The scan forgets nothing it has found. -/
theorem mem_D_J_aux_of_mem {c : ByteArray} {d : UInt256} :
    ∀ (fuel : ℕ) (i : UInt256) (result : Array UInt256), d ∈ result →
      d ∈ D_J_aux c fuel i result := by
  intro fuel
  induction fuel with
  | zero => intro i result h; exact h
  | succ fuel ih =>
    intro i result h
    rw [D_J_aux_succ]
    cases hi : instrAt c i with
    | none => exact h
    | some op =>
      apply ih
      split
      · exact Array.mem_push_of_mem i h
      · exact h

/-- What the scan finds is a `JUMPDEST` on a boundary. -/
theorem of_mem_D_J_aux {c : ByteArray} {d : UInt256} :
    ∀ (fuel : ℕ) (i : UInt256) (result : Array UInt256), Boundary c i →
      d ∈ D_J_aux c fuel i result →
      d ∈ result ∨ Boundary c d ∧ instrAt c d = some .JUMPDEST := by
  intro fuel
  induction fuel with
  | zero => intro i result _ h; exact .inl h
  | succ fuel ih =>
    intro i result hi h
    rw [D_J_aux_succ] at h
    cases hop : instrAt c i with
    | none =>
      rw [hop] at h
      exact .inl h
    | some op =>
      rw [hop] at h
      rcases ih _ _ (hi.next hop) h with hd | hd
      · split at hd
        next hdest =>
          rcases Array.mem_push.1 hd with hd | rfl
          · exact .inl hd
          · exact .inr ⟨hi, hdest ▸ hop⟩
        · exact .inl hd
      · exact .inr hd

/-- The scan finds every `JUMPDEST` it can get to before the code ends. -/
theorem mem_D_J_aux {c : ByteArray} (hc : c.size + 33 < 2 ^ 256) {d : UInt256}
    (hd : instrAt c d = some .JUMPDEST) :
    ∀ (fuel : ℕ) (i : UInt256) (result : Array UInt256), c.size ≤ i.val + fuel →
      Relation.ReflTransGen (Next c) i d → d ∈ D_J_aux c fuel i result := by
  intro fuel
  induction fuel with
  | zero =>
    intro i result hi h
    rcases h.cases_head with rfl | ⟨j, ⟨op, hop, -⟩, -⟩
    · have := lt_size_of_instrAt hd
      omega
    · have := lt_size_of_instrAt hop
      omega
  | succ fuel ih =>
    intro i result hi h
    rw [D_J_aux_succ]
    rcases h.cases_head with rfl | ⟨j, ⟨op, hop, rfl⟩, h⟩
    · rw [hd]
      exact mem_D_J_aux_of_mem _ _ _ Array.mem_push_self
    · rw [hop]
      have hN := val_N hc hop
      exact ih _ _ (by omega) h

theorem of_mem_D_J {c : ByteArray} {d : UInt256} (h : d ∈ D_J c 0) :
    Boundary c d ∧ instrAt c d = some .JUMPDEST :=
  (of_mem_D_J_aux _ _ _ (Boundary.start c) h).resolve_left (Array.not_mem_empty d)

/-- **The valid jump destinations are the `JUMPDEST`s at instruction
boundaries.**  A byte `0x5b` inside the immediate data of a `PUSH` is none. -/
theorem mem_D_J_iff {c : ByteArray} (hc : c.size + 33 < 2 ^ 256) (d : UInt256) :
    d ∈ D_J c 0 ↔ Boundary c d ∧ instrAt c d = some .JUMPDEST :=
  ⟨of_mem_D_J, fun h => mem_D_J_aux hc h.2 _ _ _ (by simp) h.1⟩

/-- `PUSH1 0x5b JUMPDEST`: the first `0x5b` is data, the second is a destination. -/
theorem mem_D_J_iff_push :
    (2 : UInt256) ∈ D_J ⟨#[0x60, 0x5b, 0x5b]⟩ 0 ∧
      Boundary ⟨#[0x60, 0x5b, 0x5b]⟩ 2 ∧ ¬Boundary ⟨#[0x60, 0x5b, 0x5b]⟩ 1 := by
  have hiff := fun d => mem_D_J_iff (c := ⟨#[0x60, 0x5b, 0x5b]⟩) (by decide) d
  have hmem : (2 : UInt256) ∈ D_J ⟨#[0x60, 0x5b, 0x5b]⟩ 0 := by decide +kernel
  have hnot : (1 : UInt256) ∉ D_J ⟨#[0x60, 0x5b, 0x5b]⟩ 0 := by decide +kernel
  exact ⟨hmem, ((hiff 2).1 hmem).1, fun h => hnot ((hiff 1).2 ⟨h, rfl⟩)⟩

theorem Next.right_unique (c : ByteArray) : Relator.RightUnique (Next c) := by
  rintro i j k ⟨op, hop, rfl⟩ ⟨op', hop', rfl⟩
  rw [hop] at hop'
  rw [Option.some.inj hop']

/-- Reading goes forward. -/
theorem val_le_of_next {c : ByteArray} (hc : c.size + 33 < 2 ^ 256) {i j : UInt256}
    (h : Relation.ReflTransGen (Next c) i j) : i.val ≤ j.val := by
  induction h with
  | refl => exact le_rfl
  | tail _ hjk ih =>
    obtain ⟨op, hop, rfl⟩ := hjk
    have hN := val_N hc hop
    omega

/-- **Immediate data is not code**: between a boundary and the next one there is
none. -/
theorem Boundary.not_inside {c : ByteArray} (hc : c.size + 33 < 2 ^ 256) {pc d : UInt256}
    {op : Operation} (h : Boundary c pc) (hop : instrAt c pc = some op)
    (hlt : pc.val < d.val) (hlt' : d.val < (N pc op).val) : ¬Boundary c d := by
  intro hd
  rcases Relation.ReflTransGen.total_of_right_unique (Next.right_unique c) h hd with hpd | hdp
  · rcases hpd.cases_head with rfl | ⟨j, hj, hjd⟩
    · exact lt_irrefl _ hlt
    · obtain rfl : j = N pc op := Next.right_unique c hj ⟨op, hop, rfl⟩
      exact absurd (val_le_of_next hc hjd) (not_le.2 hlt')
  · exact absurd (val_le_of_next hc hdp) (not_le.2 hlt)

/-! ## One instruction -/

/-- The stack `t'` is `t` with `a` items in place of the top `d`. -/
structure Replaces (d a : ℕ) (t t' : Stack) : Prop where
  length : t'.length + d = t.length + a
  rest : t'.drop a = t.drop d

/-- One position on; `d` items off the stack and `a` items onto it. -/
def Moves (d a : ℕ) (s s' : State) : Prop := s'.pc = s.pc + 1 ∧ Replaces d a s.stack s'.stack

/-- The state of a frame moves as its stack does. -/
theorem moves_replaceStackAndIncrPC {d a : ℕ} {s s' : State} {stack : Stack} (hpc : s'.pc = s.pc)
    (h : Replaces d a s.stack stack) : Moves d a s (s'.replaceStackAndIncrPC stack) :=
  ⟨congrArg (· + 1) hpc, h⟩

section

variable {s : State}

theorem exists_cons {α : Type} {n : ℕ} {l : List α} (h : n + 1 ≤ l.length) :
    ∃ a t, l = a :: t ∧ n ≤ t.length := by
  cases l with
  | nil => simp at h
  | cons a t => exact ⟨a, t, rfl, by simpa using h⟩

theorem execUnOp_returns (f : UInt256 → UInt256) (h : 1 ≤ s.stack.length) :
    Returns (execUnOp f s) (Moves 1 1 s) := by
  obtain ⟨a, t, hs, -⟩ := exists_cons h
  simp only [execUnOp, hs]
  exact .ok (moves_replaceStackAndIncrPC rfl ⟨by simp [hs], by simp [hs]⟩)

theorem execBinOp_returns (f : UInt256 → UInt256 → UInt256) (h : 2 ≤ s.stack.length) :
    Returns (execBinOp f s) (Moves 2 1 s) := by
  obtain ⟨a, t, hs, h₁⟩ := exists_cons h
  obtain ⟨b, t, rfl, -⟩ := exists_cons h₁
  simp only [execBinOp, hs]
  exact .ok (moves_replaceStackAndIncrPC rfl ⟨by simp [hs], by simp [hs]⟩)

theorem execTriOp_returns (f : UInt256 → UInt256 → UInt256 → UInt256) (h : 3 ≤ s.stack.length) :
    Returns (execTriOp f s) (Moves 3 1 s) := by
  obtain ⟨a, t, hs, h₁⟩ := exists_cons h
  obtain ⟨b, t, rfl, h₂⟩ := exists_cons h₁
  obtain ⟨c, t, rfl, -⟩ := exists_cons h₂
  simp only [execTriOp, hs]
  exact .ok (moves_replaceStackAndIncrPC rfl ⟨by simp [hs], by simp [hs]⟩)

theorem executionEnvOp_returns (op : ExecutionEnv → UInt256) :
    Returns (executionEnvOp op s) (Moves 0 1 s) :=
  .ok (moves_replaceStackAndIncrPC rfl ⟨by simp, rfl⟩)

theorem unaryExecutionEnvOp_returns (op : ExecutionEnv → UInt256 → UInt256)
    (h : 1 ≤ s.stack.length) : Returns (unaryExecutionEnvOp op s) (Moves 1 1 s) := by
  obtain ⟨a, t, hs, -⟩ := exists_cons h
  simp only [unaryExecutionEnvOp, hs]
  exact .ok (moves_replaceStackAndIncrPC rfl ⟨by simp [hs], by simp [hs]⟩)

theorem machineStateOp_returns (op : MachineState → UInt256) :
    Returns (machineStateOp op s) (Moves 0 1 s) :=
  .ok (moves_replaceStackAndIncrPC rfl ⟨by simp, rfl⟩)

theorem unaryMachineStateOp'_returns (op : MachineState → UInt256 → UInt256 × MachineState)
    (h : 1 ≤ s.stack.length) : Returns (unaryMachineStateOp' op s) (Moves 1 1 s) := by
  obtain ⟨a, t, hs, -⟩ := exists_cons h
  simp only [unaryMachineStateOp', hs]
  exact .ok (moves_replaceStackAndIncrPC rfl ⟨by simp [hs], by simp [hs]⟩)

theorem binaryMachineStateOp_returns (op : MachineState → UInt256 → UInt256 → MachineState)
    (h : 2 ≤ s.stack.length) : Returns (binaryMachineStateOp op s) (Moves 2 0 s) := by
  obtain ⟨a, t, hs, h₁⟩ := exists_cons h
  obtain ⟨b, t, rfl, -⟩ := exists_cons h₁
  simp only [binaryMachineStateOp, hs]
  exact .ok (moves_replaceStackAndIncrPC rfl ⟨by simp [hs], by simp [hs]⟩)

theorem binaryMachineStateOp'_returns
    (op : MachineState → UInt256 → UInt256 → UInt256 × MachineState)
    (h : 2 ≤ s.stack.length) : Returns (binaryMachineStateOp' op s) (Moves 2 1 s) := by
  obtain ⟨a, t, hs, h₁⟩ := exists_cons h
  obtain ⟨b, t, rfl, -⟩ := exists_cons h₁
  simp only [binaryMachineStateOp', hs]
  exact .ok (moves_replaceStackAndIncrPC rfl ⟨by simp [hs], by simp [hs]⟩)

theorem ternaryMachineStateOp_returns
    (op : MachineState → UInt256 → UInt256 → UInt256 → MachineState)
    (h : 3 ≤ s.stack.length) : Returns (ternaryMachineStateOp op s) (Moves 3 0 s) := by
  obtain ⟨a, t, hs, h₁⟩ := exists_cons h
  obtain ⟨b, t, rfl, h₂⟩ := exists_cons h₁
  obtain ⟨c, t, rfl, -⟩ := exists_cons h₂
  simp only [ternaryMachineStateOp, hs]
  exact .ok (moves_replaceStackAndIncrPC rfl ⟨by simp [hs], by simp [hs]⟩)

theorem binaryStateOp_returns (op : EvmYul.State → UInt256 → UInt256 → EvmYul.State)
    (h : 2 ≤ s.stack.length) : Returns (binaryStateOp op s) (Moves 2 0 s) := by
  obtain ⟨a, t, hs, h₁⟩ := exists_cons h
  obtain ⟨b, t, rfl, -⟩ := exists_cons h₁
  simp only [binaryStateOp, hs]
  exact .ok (moves_replaceStackAndIncrPC rfl ⟨by simp [hs], by simp [hs]⟩)

theorem stateOp_returns (op : EvmYul.State → UInt256) : Returns (stateOp op s) (Moves 0 1 s) :=
  .ok (moves_replaceStackAndIncrPC rfl ⟨by simp, rfl⟩)

theorem unaryStateOp_returns (op : EvmYul.State → UInt256 → EvmYul.State × UInt256)
    (h : 1 ≤ s.stack.length) : Returns (unaryStateOp op s) (Moves 1 1 s) := by
  obtain ⟨a, t, hs, -⟩ := exists_cons h
  simp only [unaryStateOp, hs]
  exact .ok (moves_replaceStackAndIncrPC rfl ⟨by simp [hs], by simp [hs]⟩)

theorem ternaryCopyOp_returns (op : SharedState → UInt256 → UInt256 → UInt256 → SharedState)
    (h : 3 ≤ s.stack.length) : Returns (ternaryCopyOp op s) (Moves 3 0 s) := by
  obtain ⟨a, t, hs, h₁⟩ := exists_cons h
  obtain ⟨b, t, rfl, h₂⟩ := exists_cons h₁
  obtain ⟨c, t, rfl, -⟩ := exists_cons h₂
  simp only [ternaryCopyOp, hs]
  exact .ok (moves_replaceStackAndIncrPC rfl ⟨by simp [hs], by simp [hs]⟩)

theorem quaternaryCopyOp_returns
    (op : SharedState → UInt256 → UInt256 → UInt256 → UInt256 → SharedState)
    (h : 4 ≤ s.stack.length) : Returns (quaternaryCopyOp op s) (Moves 4 0 s) := by
  obtain ⟨a, t, hs, h₁⟩ := exists_cons h
  obtain ⟨b, t, rfl, h₂⟩ := exists_cons h₁
  obtain ⟨c, t, rfl, h₃⟩ := exists_cons h₂
  obtain ⟨d, t, rfl, -⟩ := exists_cons h₃
  simp only [quaternaryCopyOp, hs]
  exact .ok (moves_replaceStackAndIncrPC rfl ⟨by simp [hs], by simp [hs]⟩)

theorem logNOp_returns {n : ℕ} (h : n + 2 ≤ s.stack.length) :
    Returns (logNOp n s) (Moves (n + 2) 0 s) := by
  obtain ⟨a, t, hs, h₁⟩ := exists_cons h
  obtain ⟨b, t, rfl, h₂⟩ := exists_cons h₁
  simp only [logNOp, hs, if_pos h₂]
  refine .ok (moves_replaceStackAndIncrPC rfl ⟨?_, ?_⟩)
  · simp only [hs, List.length_drop, List.length_cons]
    omega
  · rw [hs]
    rfl

theorem pop_returns (h : 1 ≤ s.stack.length) : Returns (pop s) (Moves 1 0 s) := by
  obtain ⟨a, t, hs, -⟩ := exists_cons h
  simp only [pop, hs]
  exact .ok (moves_replaceStackAndIncrPC rfl ⟨by simp [hs], by simp [hs]⟩)

theorem dup_returns {n : ℕ} (h : n ≤ s.stack.length) : Returns (dup n s) (Moves n (n + 1) s) := by
  have htop : (s.stack.take n).length = n := List.length_take_of_le h
  simp only [dup, if_pos htop]
  refine .ok (moves_replaceStackAndIncrPC rfl ⟨?_, List.drop_succ_cons⟩)
  simp only [List.length_cons]
  omega

theorem swap_returns {n : ℕ} (hn : 0 < n) (h : n + 1 ≤ s.stack.length) :
    Returns (swap n s) (Moves (n + 1) (n + 1) s) := by
  have htop : (s.stack.take (n + 1)).length = n + 1 := List.length_take_of_le h
  simp only [swap, if_pos htop]
  have htail : (s.stack.take (n + 1)).tail!.length = n := by
    obtain ⟨a, t, hs, ht⟩ := exists_cons htop.ge
    rw [hs] at htop ⊢
    simpa using htop
  have hmid : (s.stack.take (n + 1)).tail!.dropLast.length + 1 = n := by
    rw [List.length_dropLast, htail]
    omega
  refine .ok (moves_replaceStackAndIncrPC rfl ⟨?_, ?_⟩)
  · simp only [List.length_cons, List.length_append, List.length_drop, List.length_nil]
    omega
  · refine List.drop_left' ?_
    simp only [List.length_cons, List.length_append, List.length_nil]
    omega

theorem selfdestruct_returns (h : 1 ≤ s.stack.length) :
    Returns (selfdestruct s) (Moves 1 0 s) := by
  obtain ⟨a, t, hs, -⟩ := exists_cons h
  simp only [selfdestruct, hs]
  exact .ok (moves_replaceStackAndIncrPC rfl ⟨by simp [hs], by simp [hs]⟩)

end

/-- Where the program counter is after an instruction.  After `STOP` there is
nothing to move to. -/
def nextPc (op : Operation) (s : State) : UInt256 :=
  match op with
  | .STOP => s.pc
  | .JUMP => s.stack[0]!
  | .JUMPI => if s.stack[1]! = 0 then N s.pc .JUMPI else s.stack[0]!
  | op => N s.pc op

/-- The stack changes as `δ` and `α` say and is as it was below, and the program
counter moves on to the next boundary or along a jump. -/
structure Follows (op : Operation) (s s' : State) : Prop where
  stack : Replaces ((δ op).getD 0) ((α op).getD 0) s.stack s'.stack
  pc : s'.pc = nextPc op s

theorem N_of_no_arg {op : Operation} (harg : argOnNBytesOfInstr op = 0) (pc : UInt256) :
    N pc op = pc + 1 := by
  rw [N, harg]
  exact add_zero _

/-- An instruction without immediate data is one byte long. -/
theorem follows_of_moves {op : Operation} {s : State} {x : Except ExecutionException State}
    (harg : argOnNBytesOfInstr op = 0) (hnext : nextPc op s = N s.pc op)
    (h : Returns x (Moves ((δ op).getD 0) ((α op).getD 0) s)) : Returns x (Follows op s) :=
  h.mono fun _ hs' => ⟨hs'.2, hs'.1.trans ((N_of_no_arg harg s.pc).symm.trans hnext.symm)⟩

theorem push_follows (n : Fin 33) (v : UInt256) (s : State) :
    Returns (push (some (v, n)) s) (Follows (.Push n) s) := by
  refine .ok ⟨⟨rfl, rfl⟩, ?_⟩
  show s.pc + .ofNat (n + 1) = s.pc + 1 + .ofNat n
  rw [add_assoc]
  congr 1
  revert n
  decide

theorem jump_follows {s : State} (h : 1 ≤ s.stack.length) :
    Returns (jump s) (Follows .JUMP s) := by
  obtain ⟨a, t, hs, -⟩ := exists_cons h
  simp only [jump, hs]
  exact .ok ⟨⟨by simp [hs, δ, α], by simp [hs, δ, α]⟩, by simp [hs, nextPc]⟩

theorem jumpi_follows {s : State} (h : 2 ≤ s.stack.length) :
    Returns (jumpi s) (Follows .JUMPI s) := by
  obtain ⟨a, t, hs, h₁⟩ := exists_cons h
  obtain ⟨b, t, rfl, -⟩ := exists_cons h₁
  simp only [jumpi, hs]
  refine .ok ⟨⟨by simp [hs, δ, α], by simp [hs, δ, α]⟩, ?_⟩
  have hN : N s.pc .JUMPI = s.pc + 1 := N_of_no_arg rfl s.pc
  by_cases hb : b = 0
  · simp [hs, hb, nextPc, hN]
  · simp [hs, hb, nextPc]

/-- **An instruction that has its operands succeeds** and follows `δ`, `α` and
the boundaries, calls and creations apart. -/
theorem step_returns (E : Externals) (op : Operation) (arg : Option (UInt256 × ℕ)) (s : State)
    (hop : δ op ≠ none) (hcall : op.isCallOrCreate = false)
    (harg : ∀ n : Fin 33, op = .Push n → n.val ≠ 0 → ∃ v, arg = some (v, n.val))
    (h : (δ op).getD 0 ≤ s.stack.length) :
    Returns (EvmYul.step E op arg s) (Follows op s) := by
  cases op with
  | CREATE | CALL | CALLCODE | DELEGATECALL | CREATE2 | STATICCALL => cases hcall
  | INVALID => exact absurd rfl hop
  | STOP => exact .ok ⟨⟨rfl, rfl⟩, rfl⟩
  | JUMPDEST => exact .ok ⟨⟨rfl, rfl⟩, (N_of_no_arg rfl s.pc).symm⟩
  | JUMP => exact jump_follows h
  | JUMPI => exact jumpi_follows h
  | Push n =>
    by_cases hn : n.val = 0
    · have harg : argOnNBytesOfInstr (.Push n) = 0 := hn
      have hN : N s.pc (.Push n) = s.pc + 1 := N_of_no_arg harg s.pc
      simp only [EvmYul.step, if_pos hn]
      exact .ok ⟨⟨rfl, rfl⟩, hN.symm⟩
    · obtain ⟨v, rfl⟩ := harg n rfl hn
      simp only [EvmYul.step, if_neg hn]
      exact push_follows n v s
  | Dup n => exact follows_of_moves rfl rfl (dup_returns h)
  | Exchange n => exact follows_of_moves rfl rfl (swap_returns (Nat.succ_pos _) h)
  | Log n => exact follows_of_moves rfl rfl (logNOp_returns h)
  | POP => exact follows_of_moves rfl rfl (pop_returns h)
  | SELFDESTRUCT => exact follows_of_moves rfl rfl (selfdestruct_returns h)
  | PC => exact .ok ⟨⟨rfl, rfl⟩, (N_of_no_arg rfl s.pc).symm⟩
  | ISZERO | NOT => exact follows_of_moves rfl rfl (execUnOp_returns _ h)
  | ADD | MUL | SUB | DIV | SDIV | MOD | SMOD | EXP | SIGNEXTEND | LT | GT | SLT | SGT | EQ | AND
  | OR | XOR | BYTE | SHL | SHR | SAR =>
    exact follows_of_moves rfl rfl (execBinOp_returns _ h)
  | ADDMOD | MULMOD => exact follows_of_moves rfl rfl (execTriOp_returns _ h)
  | ADDRESS | ORIGIN | CALLER | CALLVALUE | CALLDATASIZE | CODESIZE | GASPRICE | PREVRANDAO
  | BASEFEE | BLOBBASEFEE =>
    simp only [EvmYul.step]
    exact follows_of_moves rfl rfl (executionEnvOp_returns _)
  | BLOBHASH =>
    simp only [EvmYul.step]
    exact follows_of_moves rfl rfl (unaryExecutionEnvOp_returns _ h)
  | RETURNDATASIZE | MSIZE | GAS =>
    simp only [EvmYul.step]
    exact follows_of_moves rfl rfl (machineStateOp_returns _)
  | MLOAD =>
    simp only [EvmYul.step]
    exact follows_of_moves rfl rfl (unaryMachineStateOp'_returns _ h)
  | MSTORE | MSTORE8 | RETURN | REVERT =>
    exact follows_of_moves rfl rfl (binaryMachineStateOp_returns _ h)
  | KECCAK256 =>
    simp only [EvmYul.step]
    exact follows_of_moves rfl rfl (binaryMachineStateOp'_returns _ h)
  | RETURNDATACOPY | MCOPY =>
    exact follows_of_moves rfl rfl (ternaryMachineStateOp_returns _ h)
  | SSTORE | TSTORE => exact follows_of_moves rfl rfl (binaryStateOp_returns _ h)
  | COINBASE | TIMESTAMP | NUMBER | GASLIMIT | CHAINID | SELFBALANCE =>
    simp only [EvmYul.step]
    exact follows_of_moves rfl rfl (stateOp_returns _)
  | BALANCE | CALLDATALOAD | EXTCODESIZE | EXTCODEHASH | BLOCKHASH | SLOAD | TLOAD =>
    simp only [EvmYul.step]
    exact follows_of_moves rfl rfl (unaryStateOp_returns _ h)
  | CALLDATACOPY | CODECOPY => exact follows_of_moves rfl rfl (ternaryCopyOp_returns _ h)
  | EXTCODECOPY => exact follows_of_moves rfl rfl (quaternaryCopyOp_returns _ h)

/-! ## Calls and creations -/

theorem step.callInput_stack {w : Operation} {gasCost : ℕ} {s : State} {c : call.Input}
    {stack : Stack} (h : step.callInput w gasCost s = some (c, stack)) (x : UInt256) :
    Replaces ((δ w).getD 0) ((α w).getD 0) s.stack (x :: stack) ∧ nextPc w s = s.pc + 1 := by
  unfold step.callInput at h
  dsimp only at h
  split at h <;> cases h <;> rename_i hs <;>
    exact ⟨⟨by simp [hs, δ, α], by simp [hs, δ, α]⟩, N_of_no_arg rfl s.pc⟩

theorem step.createInput_stack {w : Operation} {s : State} {c : create.Input}
    (h : step.createInput w s = some c) (x : UInt256) :
    Replaces ((δ w).getD 0) ((α w).getD 0) s.stack (x :: c.stack) ∧ nextPc w s = s.pc + 1 := by
  unfold step.createInput at h
  split at h <;> cases h <;> rename_i hs <;>
    exact ⟨⟨by simp [hs, δ, α], by simp [hs, δ, α]⟩, N_of_no_arg rfl s.pc⟩

/-- A creation is over where it was begun, with one item on the stack. -/
theorem create.body_moves {runΛ : Lambda.Input → Except ExecutionException Lambda.Result}
    {c : create.Input} {s' : State} (h : create.body runΛ c = .ok s') :
    s'.pc = c.evmState.pc + 1 ∧ ∃ x, s'.stack = x :: c.stack := by
  have hattempt : (c.attempt runΛ).2.1.pc = c.evmState.pc := by
    unfold create.Input.attempt
    dsimp only
    split
    · rfl
    · split
      · cases runΛ c.toΛ <;> rfl
      · rfl
  unfold create.body at h
  dsimp only at h
  split at h
  · cases h
  · cases h
    exact ⟨congrArg (· + 1) hattempt, _, rfl⟩

/-- **Every instruction follows `δ`, `α` and the boundaries**, calls and
creations included. -/
theorem step_follows {E : Externals} {f gasCost : ℕ} {p : Operation × Option (UInt256 × ℕ)}
    {s s' : State} (hvalid : δ p.1 ≠ none) (hoperands : (δ p.1).getD 0 ≤ s.stack.length)
    (harg : ∀ n : Fin 33, p.1 = .Push n → n.val ≠ 0 → ∃ v, p.2 = some (v, n.val))
    (h : step E f gasCost (some p) s = .ok s') : Follows p.1 s s' := by
  cases f with
  | zero => rw [step] at h; cases h
  | succ f =>
    rw [step_succ] at h
    obtain ⟨q, hq, ⟨c, hc, h⟩ | ⟨c, stack, r, hc, hr, rfl⟩ | ⟨hop, h⟩⟩ := step.body_cases h
    · obtain rfl := Except.ok.inj hq
      obtain ⟨hpc, x, hx⟩ := create.body_moves h
      obtain ⟨hstack, hnext⟩ := step.createInput_stack hc x
      rw [step.createInput_evmState hc] at hpc
      refine ⟨?_, hpc.trans hnext.symm⟩
      rw [hx]
      exact hstack
    · obtain rfl := Except.ok.inj hq
      obtain ⟨hstack, hnext⟩ := step.callInput_stack hc r.1
      refine ⟨hstack, Eq.trans ?_ hnext.symm⟩
      cases f with
      | zero => rw [call] at hr; cases hr
      | succ f =>
        rw [call_succ] at hr
        obtain ⟨ρ, -, hr⟩ := Except.bind_eq_ok_iff.1 hr
        obtain rfl := Except.ok.inj hr
        show c.evmState.pc + 1 = s.pc + 1
        rw [step.callInput_evmState hc]
        rfl
    · obtain rfl := Except.ok.inj hq
      have hfollows := step_returns E p.1 p.2 (s.count.charge gasCost) hvalid hop harg hoperands
      exact ⟨(hfollows.ensures s' h).stack, (hfollows.ensures s' h).pc⟩

/-! ## Whole runs -/

/-- Past the end of the code there is only `STOP`. -/
theorem X.instr_cases (s : State) :
    X.instr s = (.STOP, none) ∨ instrAt s.executionEnv.code s.pc = some (X.instr s).1 := by
  unfold X.instr decode
  cases h : (getByte? s.executionEnv.code s.pc.val).bind parseInstr with
  | none => exact .inl rfl
  | some op => exact .inr h

/-- A `PUSH` at the program counter comes with its immediate data. -/
theorem X.instr_arg {s : State} {n : Fin 33} (h : (X.instr s).1 = .Push n) (hn : n.val ≠ 0) :
    ∃ v, (X.instr s).2 = some (v, n.val) := by
  unfold X.instr decode at h ⊢
  cases hop : (getByte? s.executionEnv.code s.pc.val).bind parseInstr with
  | none =>
    rw [hop] at h
    cases h
  | some op =>
    rw [hop] at h
    obtain rfl : op = .Push n := h
    exact ⟨_, if_neg hn⟩

theorem X.of_belongs {target : UInt256} {validJumps : Array UInt256}
    (h : X.belongs (some target) validJumps) : target ∈ validJumps :=
  Array.contains_iff_mem.1 h

/-- A jump that is taken, to `target`. -/
def Jumps (op : Operation) (stack : Stack) (target : UInt256) : Prop :=
  (op = .JUMP ∨ op = .JUMPI ∧ stack[1]? ≠ some 0) ∧ stack[0]? = some target

/-- An instruction that does not halt goes on to the next one, or jumps. -/
theorem nextPc_cases {op : Operation} {s : State} (hstop : op ≠ .STOP)
    (h : (δ op).getD 0 ≤ s.stack.length) :
    nextPc op s = N s.pc op ∨ Jumps op s.stack (nextPc op s) := by
  unfold nextPc
  split
  · exact absurd rfl hstop
  · obtain ⟨a, t, hs, -⟩ := exists_cons (n := 0) h
    exact .inr ⟨.inl rfl, by simp [hs]⟩
  · obtain ⟨a, t, hs, h₁⟩ := exists_cons (n := 1) h
    obtain ⟨b, t, rfl, -⟩ := exists_cons h₁
    split
    · exact .inl rfl
    next hb => exact .inr ⟨.inr ⟨rfl, by simpa [hs] using hb⟩, by simp [hs]⟩
  · exact .inl rfl

/-- **A step from a boundary leads to a boundary**, with no more than 1024 items
on the stack. -/
theorem X.next_boundary {E : Externals} {f cost₂ : ℕ} {s sZ s' : State}
    (hs : Boundary s.executionEnv.code s.pc)
    (hZ : X.Z (D_J s.executionEnv.code 0) (X.instr s).1 s = .ok (sZ, cost₂))
    (hstep : step E f cost₂ (some (X.instr s)) sZ = .ok s')
    (hH : X.H s'.toMachineState (X.instr s).1 = none) :
    Boundary s.executionEnv.code s'.pc ∧ s'.stack.length ≤ 1024 := by
  have hpassed := X.Z_spec _ _ _ _ hZ
  obtain rfl : sZ = s.charge _ := hpassed.state
  have hfollows := step_follows (s := s.charge _) hpassed.valid hpassed.operands
    (fun _ h hn => X.instr_arg h hn) hstep
  have hheight : s'.stack.length + (δ (X.instr s).1).getD 0 =
      s.stack.length + (α (X.instr s).1).getD 0 := hfollows.stack.length
  have hroom := hpassed.room
  have hoperands := hpassed.operands
  refine ⟨?_, by omega⟩
  have hstop : (X.instr s).1 ≠ .STOP := by
    intro hstop
    rw [hstop] at hH
    cases hH
  have hnext : s'.pc = nextPc (X.instr s).1 s := hfollows.pc
  rw [hnext]
  rcases nextPc_cases hstop hoperands with hpc | ⟨hop, htarget⟩
  · rcases X.instr_cases s with hend | hinstr
    · exact absurd (congrArg Prod.fst hend) hstop
    · rw [hpc]
      exact hs.next hinstr
  · have hbelongs : X.belongs s.stack[0]? (D_J s.executionEnv.code 0) := by
      rcases hop with hjump | ⟨hjumpi, hne⟩
      · exact hpassed.jump hjump
      · exact hpassed.jumpi hjumpi hne
    rw [htarget] at hbelongs
    exact (of_mem_D_J (X.of_belongs hbelongs)).1

/-- The instruction at the program counter is valid and has its operands. -/
def State.Ready (s : State) : Prop :=
  δ (X.instr s).1 ≠ none ∧ (δ (X.instr s).1).getD 0 ≤ s.stack.length

/-- A frame that can be met in a run. -/
structure State.WellFormed (s : State) : Prop where
  boundary : Boundary s.executionEnv.code s.pc
  stack : s.stack.length ≤ 1024
  depth : s.executionEnv.depth ≤ 1024

namespace Invocation

/-- What the frames of a run look like. -/
def Regular : Invocation → Prop
  | .call _ c => c.evmState.WellFormed
  | .step _ _ instr s => s.WellFormed ∧ s.Ready ∧ instr = some (X.instr s)
  | .X _ validJumps s => s.WellFormed ∧ validJumps = D_J s.executionEnv.code 0
  | .Ξ _ x => x.I.depth ≤ 1024
  | .Lambda _ x => x.e.val ≤ 1024
  | .Θ _ x => x.e ≤ 1024

theorem Regular.of_invokes {E : Externals} {i j : Invocation} (hi : i.Regular)
    (h : Invokes E i j) : j.Regular := by
  cases h with
  | @call_Θ _ c h => exact Nat.succ_le_of_lt h.2
  | step_call hfetch hcall =>
    obtain ⟨hs, -, rfl⟩ := hi
    show State.WellFormed _
    rw [step.callInput_evmState hcall]
    exact ⟨hs.boundary, hs.stack, hs.depth⟩
  | @step_Lambda _ _ _ s _ c hfetch hcreate hnonce hallowed =>
    refine (UInt256.val_ofNat_le _).trans ?_
    exact Nat.succ_le_of_lt hallowed.2.1
  | X_step hZ =>
    obtain ⟨hs, rfl⟩ := hi
    have hpassed := X.Z_spec _ _ _ _ hZ
    obtain rfl := X.Z_state hZ
    exact ⟨⟨hs.boundary, hs.stack, hs.depth⟩, ⟨hpassed.valid, hpassed.operands⟩, rfl⟩
  | X_X hZ hstep hH =>
    obtain ⟨hs, rfl⟩ := hi
    obtain ⟨hboundary, hstack⟩ := X.next_boundary hs.boundary hZ hstep hH
    obtain rfl := X.Z_state hZ
    have henv := step_executionEnv hstep
    refine ⟨⟨?_, hstack, ?_⟩, ?_⟩
    · rw [henv]
      exact hboundary
    · rw [henv]
      exact hs.depth
    · rw [henv]
      rfl
  | Ξ_X => exact ⟨⟨Boundary.start _, Nat.zero_le _, hi⟩, rfl⟩
  | Lambda_Ξ hlₐ => exact hi
  | Θ_Ξ hc => exact hi

end Invocation

theorem Invocation.Regular.of_reaches {E : Externals} {i j : Invocation} (hi : i.Regular)
    (h : Reaches E i j) : j.Regular := by
  induction h with
  | refl => exact hi
  | tail _ hjk ih => exact ih.of_invokes hjk

theorem Υ.Input.top_regular (x : Υ.Input) (fuel : ℕ) : (x.top fuel).Regular := by
  unfold top
  split
  · exact Nat.zero_le _
  · exact Nat.zero_le _

/-! ## Depth -/

namespace Invocation

/-- How many calls and creations an invocation says it is inside of. -/
def depth : Invocation → ℕ
  | .call _ c => c.evmState.executionEnv.depth
  | .step _ _ _ s => s.executionEnv.depth
  | .X _ _ s => s.executionEnv.depth
  | .Ξ _ x => x.I.depth
  | .Lambda _ x => x.e.val
  | .Θ _ x => x.e

/-- A message call or a creation is entered. -/
def entered : Invocation → ℕ
  | .Θ _ _ => 1
  | .Lambda _ _ => 1
  | _ => 0

end Invocation

/-- The run that starts with `i` goes through `j` after `n` calls and creations
that are still going on. -/
inductive Nested (E : Externals) (i : Invocation) : ℕ → Invocation → Prop
  | top : Nested E i 0 i
  | next {n : ℕ} {j k : Invocation} (h : Nested E i n j) (hjk : Invokes E j k) :
      Nested E i (n + k.entered) k

theorem Reaches.nested {E : Externals} {i j : Invocation} (h : Reaches E i j) :
    ∃ n, Nested E i n j := by
  induction h with
  | refl => exact ⟨0, .top⟩
  | tail _ hjk ih =>
    obtain ⟨n, hn⟩ := ih
    exact ⟨_, hn.next hjk⟩

/-- A call or a creation counts one up, and nothing else does. -/
theorem Invokes.depth_eq {E : Externals} {i j : Invocation} (h : Invokes E i j) :
    j.depth = i.depth + j.entered := by
  cases h with
  | call_Θ | Ξ_X | Lambda_Ξ | Θ_Ξ => rfl
  | @step_call _ _ _ _ _ c _ _ hcall =>
    show c.evmState.executionEnv.depth = _
    rw [step.callInput_evmState hcall]
    rfl
  | @step_Lambda _ _ _ s _ c _ hcreate _ hallowed =>
    have hlt : c.evmState.executionEnv.depth < 1024 := hallowed.2.1
    have hval : (UInt256.ofNat (c.evmState.executionEnv.depth + 1)).val =
        c.evmState.executionEnv.depth + 1 := UInt256.val_ofNat_of_lt (by omega)
    refine hval.trans ?_
    rw [step.createInput_evmState hcreate]
    rfl
  | X_step hZ =>
    obtain rfl := X.Z_state hZ
    rfl
  | X_X hZ hstep hH =>
    obtain rfl := X.Z_state hZ
    have henv := step_executionEnv hstep
    exact congrArg ExecutionEnv.depth henv

theorem Nested.depth_eq {E : Externals} {i j : Invocation} {n : ℕ} (h : Nested E i n j) :
    j.depth = i.depth + n := by
  induction h with
  | top => rfl
  | next _ hjk ih => rw [hjk.depth_eq, ih, Nat.add_assoc]

theorem Invocation.Regular.depth_le {i : Invocation} (h : i.Regular) : i.depth ≤ 1024 := by
  cases i with
  | call => exact State.WellFormed.depth h
  | X | step => exact h.1.depth
  | Ξ | Lambda | Θ => exact h

theorem Υ.Input.top_depth (x : Υ.Input) (fuel : ℕ) : (x.top fuel).depth = 0 := by
  unfold top
  split
  · rfl
  · rfl

/-- **The frames of a transaction are well formed**: in every one the program
counter is on an instruction boundary, jumps can only go to the destinations of
the code that runs, and there are at most 1024 items on the stack.  A frame is
inside of as many calls and creations as its depth says, and of at most 1024. -/
theorem frames_are_well_formed (E : Externals) (x : Υ.Input) (fuel : ℕ) :
    ∀ j, Reaches E (x.top fuel) j → j.Regular ∧ (∃ n, Nested E (x.top fuel) n j) ∧
      ∀ n, Nested E (x.top fuel) n j → n = j.depth ∧ n ≤ 1024 := by
  intro j hj
  have hregular := (x.top_regular fuel).of_reaches hj
  refine ⟨hregular, hj.nested, fun n hn => ?_⟩
  have hdepth : j.depth = n := by rw [hn.depth_eq, x.top_depth, Nat.zero_add]
  exact ⟨hdepth.symm, hdepth ▸ hregular.depth_le⟩

/-- A call of a contract that calls itself: `CALLDATASIZE` four times, `ADDRESS
GAS DELEGATECALL`. -/
def callRecursing : Υ.Input :=
  { callSelfdestructing with
    σ := callSelfdestructing.σ.insert 0xc0de
      { (default : Account) with code := ⟨#[0x36, 0x36, 0x36, 0x36, 0x30, 0x5a, 0xf4]⟩ } }

/-- The call it makes is one call deep. -/
theorem frames_are_well_formed_callRecursing :
    ∃ x : Θ.Input, Reaches (Frame.aimedAt 0) (callRecursing.top 11) (.Θ 0 x) ∧
      (Invocation.Θ 0 x).Regular ∧ Nested (Frame.aimedAt 0) (callRecursing.top 11) 1 (.Θ 0 x) := by
  let s := (callRecursing.toΘ 0xc0de).toΞ.fresh
  have hrun : ((advances (Frame.aimedAt 0) (D_J s.executionEnv.code 0) 6 3 s).bind fun t =>
      (X.Z (D_J s.executionEnv.code 0) (X.instr t).1 t).toOption.bind fun tZ =>
        (step.callInput (X.instr t).1 tZ.2 tZ.1.count).map fun c =>
          (decide c.1.allowed, c.1.toΘ.e)) = some (true, 1) := by decide +kernel
  obtain ⟨t, ht, hrun⟩ := Option.bind_eq_some_iff.1 hrun
  obtain ⟨⟨tZ, cost₂⟩, hZ, hrun⟩ := Option.bind_eq_some_iff.1 hrun
  obtain ⟨⟨c, stack⟩, hcall, hfacts⟩ := Option.map_eq_some_iff.1 hrun
  obtain ⟨hallowed, hdepth⟩ := Prod.mk.inj hfacts
  have hcode : Reaches (Frame.aimedAt 0) (callRecursing.top 11)
      (.X 9 (D_J s.executionEnv.code 0) s) :=
    callRecursing.reaches_code rfl (by decide) _ 9
  have hcalls : Reaches (Frame.aimedAt 0) (.X 3 (D_J s.executionEnv.code 0) t) (.Θ 0 c.toΘ) :=
    .tail (.tail (.tail .refl (.X_step (Except.toOption_eq_some_iff.1 hZ))) (.step_call rfl hcall))
      (.call_Θ (of_decide_eq_true hallowed))
  have hreaches := (hcode.trans (reaches_of_advances ht)).trans hcalls
  obtain ⟨hregular, ⟨n, hn⟩, hcount⟩ :=
    frames_are_well_formed (Frame.aimedAt 0) callRecursing 11 _ hreaches
  obtain rfl : n = 1 := (hcount n hn).1.trans hdepth
  exact ⟨c.toΘ, hreaches, hregular, hn⟩

end EVM
end EvmYul
