import EvmModel.GasBound

/-!
# Gas is fuel enough

Gas bounds the depth of the recursion: an instruction that does not end the code
costs something, and a call or creation costs more than the fuel it takes to get
to the code it runs.  So as many units of fuel as there is gas, and a few more,
are enough, and then no frame runs out of fuel.

* `Invocation.avoids_outOfFuel` — running out of fuel starts where there is none;
* `Invocation.Enough` — enough fuel for the gas, which the invocations a body
  makes have in their turn;
* `Enough.complete` — with enough fuel no frame of the run runs out of it.
-/

namespace EvmYul
namespace EVM

/-! ## Where the exception comes from -/

/-- An instruction that calls nobody does not run out of fuel. -/
theorem step_avoids (E : Externals) (op : Operation) (arg : Option (UInt256 × ℕ)) (s : State) :
    Avoids (EvmYul.step E op arg s) .OutOfFuel := by
  cases op with
  | STOP | INVALID | PC | JUMPDEST | CREATE | CALL | CALLCODE | DELEGATECALL | CREATE2
  | STATICCALL => simp [EvmYul.step]
  -- nothing is popped
  | ADDRESS | ORIGIN | CALLER | CALLVALUE | CALLDATASIZE | CODESIZE | GASPRICE | RETURNDATASIZE
  | COINBASE | TIMESTAMP | NUMBER | PREVRANDAO | GASLIMIT | CHAINID | SELFBALANCE | BASEFEE
  | BLOBBASEFEE | MSIZE | GAS =>
    simp [EvmYul.step, executionEnvOp, machineStateOp, stateOp]
  | Push n =>
    by_cases hn : n.val = 0
    · simp [EvmYul.step, hn]
    · cases arg <;> simp [EvmYul.step, hn, push]
  | Dup n => exact Avoids.ite (fun _ => Avoids.ok) fun _ => by simp
  | Exchange n => exact Avoids.ite (fun _ => Avoids.ok) fun _ => by simp
  | Log n =>
    simp only [EvmYul.step, logNOp]
    split
    · exact Avoids.ite (fun _ => Avoids.ok) fun _ => by simp
    · simp
  -- the operands are there, or the stack is too short
  | _ =>
    simp only [EvmYul.step, execUnOp, execBinOp, execTriOp, unaryExecutionEnvOp,
      unaryMachineStateOp', binaryMachineStateOp, binaryMachineStateOp', ternaryMachineStateOp,
      binaryStateOp, unaryStateOp, ternaryCopyOp, quaternaryCopyOp, pop, jump, jumpi, selfdestruct]
    split <;> simp

theorem X.Z_avoids (validJumps : Array UInt256) (w : Operation) (s : State) :
    Avoids (X.Z validJumps w s) .OutOfFuel := by
  unfold X.Z
  dsimp only
  iterate 11 refine Avoids.ite (fun _ => by simp) fun _ => ?_
  exact Avoids.ok

theorem call.body_avoids {runΘ : Θ.Input → Except ExecutionException Θ.Result} {c : call.Input}
    (hΘ : c.allowed → Avoids (runΘ c.toΘ) .OutOfFuel) :
    Avoids (call.body runΘ c) .OutOfFuel :=
  Avoids.bind (Avoids.ite hΘ fun _ => Avoids.ok) fun _ _ => Avoids.ok

/-- Whatever becomes of the new contract, the creator goes on. -/
theorem create.body_avoids (runΛ : Lambda.Input → Except ExecutionException Lambda.Result)
    (c : create.Input) : Avoids (create.body runΛ c) .OutOfFuel := by
  unfold create.body
  exact Avoids.ite (fun _ => by simp) fun _ => Avoids.ok

theorem step.body_avoids (E : Externals)
    {runCall : call.Input → Except ExecutionException (UInt256 × State)}
    {runΛ : Lambda.Input → Except ExecutionException Lambda.Result} {gasCost : ℕ}
    {instr : Option (Operation × Option (UInt256 × ℕ))} {s : State}
    (hcall : ∀ p c stack, step.fetch instr s = .ok p →
      step.callInput p.1 gasCost s.count = some (c, stack) → Avoids (runCall c) .OutOfFuel) :
    Avoids (step.body E runCall runΛ gasCost instr s) .OutOfFuel := by
  have hfetch : Avoids (step.fetch instr s) .OutOfFuel := by
    unfold step.fetch fetchInstr
    split
    · split <;> simp
    · exact Avoids.ok
  refine Avoids.bind hfetch fun p hp => ?_
  have hcreate : Avoids (step.create runΛ (step.createInput p.1 (s.count.charge gasCost)))
      .OutOfFuel := by
    cases step.createInput p.1 (s.count.charge gasCost) with
    | none => simp [step.create]
    | some c => exact create.body_avoids runΛ c
  have hcalls : Avoids (step.callAndPush runCall (step.callInput p.1 gasCost s.count))
      .OutOfFuel := by
    cases hc : step.callInput p.1 gasCost s.count with
    | none => simp [step.callAndPush]
    | some q => exact Avoids.bind (hcall p q.1 q.2 hp hc) fun _ _ => Avoids.ok
  unfold step.exec
  split
  case h_1 | h_2 => exact hcreate
  case h_3 | h_4 | h_5 | h_6 => exact hcalls
  case h_7 => exact step_avoids E p.1 p.2 _

theorem X.body_avoids
    {runStep : ℕ → Option (Operation × Option (UInt256 × ℕ)) → State →
      Except ExecutionException State}
    {runX : State → Except ExecutionException (ExecutionResult State)}
    {validJumps : Array UInt256} {s : State}
    (hstep : ∀ sZ cost₂, X.Z validJumps (X.instr s).1 s = .ok (sZ, cost₂) →
      Avoids (runStep cost₂ (some (X.instr s)) sZ) .OutOfFuel)
    (hX : ∀ sZ cost₂ s', X.Z validJumps (X.instr s).1 s = .ok (sZ, cost₂) →
      runStep cost₂ (some (X.instr s)) sZ = .ok s' →
      X.H s'.toMachineState (X.instr s).1 = none → Avoids (runX s') .OutOfFuel) :
    Avoids (X.body runStep runX validJumps s) .OutOfFuel := by
  have hcheck := X.Z_avoids validJumps (X.instr s).1 s
  unfold X.body
  dsimp only
  split
  next e hZ =>
    rw [hZ] at hcheck
    exact Avoids.error_iff.2 (Avoids.error_iff.1 hcheck)
  next sZ cost₂ hZ =>
    refine Avoids.bind (hstep sZ cost₂ hZ) fun s' hs' => ?_
    split
    next hH => exact hX sZ cost₂ s' hZ hs' hH
    · exact Avoids.ite (fun _ => Avoids.ok) fun _ => Avoids.ok

theorem Lambda.body_avoids (E : Externals)
    {runΞ : Ξ.Input → Except ExecutionException (ExecutionResult Ξ.Outcome)} {x : Lambda.Input}
    (hΞ : ∀ lₐ, Lambda.L_A E x.s x.n x.ζ x.i = some lₐ →
      Avoids (runΞ (x.toΞ (Lambda.address E lₐ))) .OutOfFuel) :
    Avoids (Lambda.body E runΞ x) .OutOfFuel := by
  unfold Lambda.body
  split
  · simp
  next lₐ hlₐ =>
    have hrun := hΞ lₐ hlₐ
    dsimp only
    split
    next e he =>
      rw [he, Avoids.error_iff] at hrun
      rw [if_neg hrun]
      exact Avoids.ok
    · exact Avoids.ok
    · exact Avoids.ok

theorem Θ.body_avoids (E : Externals)
    {runΞ : Ξ.Input → Except ExecutionException (ExecutionResult Ξ.Outcome)} {x : Θ.Input}
    (hΞ : ∀ code, x.c = .Code code → Avoids (runΞ x.toΞ) .OutOfFuel) :
    Avoids (Θ.body E runΞ x) .OutOfFuel := by
  have hexecute : Avoids (x.execute E runΞ) .OutOfFuel := by
    unfold Θ.Input.execute
    split
    next p hp =>
      obtain ⟨r, hr, -⟩ := applyPrecompile_spec E x.σ₁ x.g x.A x.I p
      rw [hr]
      exact Avoids.ok
    next code hc =>
      have hrun := hΞ code hc
      split
      next e he =>
        rw [he, Avoids.error_iff] at hrun
        rw [if_neg hrun]
        exact Avoids.ok
      · exact Avoids.ok
      · exact Avoids.ok
  exact Avoids.bind hexecute fun _ _ => Avoids.ok

/-- **Running out of fuel starts where there is none**: an invocation that has
fuel runs out of it only if one its body makes does. -/
theorem Invocation.avoids_outOfFuel {E : Externals} {i : Invocation} (hfuel : i.fuel ≠ 0)
    (h : ∀ j, Invokes E i j → Avoids (j.eval E) .OutOfFuel) : Avoids (i.eval E) .OutOfFuel := by
  obtain ⟨f, hf⟩ := Nat.exists_eq_succ_of_ne_zero hfuel
  cases i with
  | call _ c =>
    obtain rfl := hf
    rw [eval, call_succ]
    exact call.body_avoids fun hallowed => h _ (.call_Θ hallowed)
  | step _ gasCost instr s =>
    obtain rfl := hf
    rw [eval, step_succ]
    exact step.body_avoids E fun p c stack hp hc => h _ (.step_call hp hc)
  | X _ validJumps s =>
    obtain rfl := hf
    rw [eval, X_succ]
    exact X.body_avoids (fun sZ cost₂ hZ => h _ (.X_step hZ))
      fun sZ cost₂ s' hZ hs' hH => h _ (.X_X hZ hs' hH)
  | Ξ _ x =>
    obtain rfl := hf
    rw [eval, Ξ_succ]
    refine Avoids.bind (h _ .Ξ_X) fun r _ => ?_
    cases r <;> exact Avoids.ok
  | Lambda _ x =>
    obtain rfl := hf
    rw [eval, Lambda_succ]
    exact Lambda.body_avoids E fun lₐ hlₐ => h _ (.Lambda_Ξ hlₐ)
  | Θ _ x =>
    obtain rfl := hf
    rw [eval, Θ_succ]
    exact Θ.body_avoids E fun code hc => h _ (.Θ_Ξ hc)

/-! ## Enough fuel -/

/-- An instruction after which the code goes on costs something. -/
theorem X.cost_pos {validJumps : Array UInt256} {s sZ : State} {cost₂ : ℕ} {μ : MachineState}
    (hZ : X.Z validJumps (X.instr s).1 s = .ok (sZ, cost₂))
    (hH : X.H μ (X.instr s).1 = none) : 0 < cost₂ := by
  have hpassed := X.Z_spec validJumps (X.instr s).1 s _ hZ
  rw [show cost₂ = C' sZ (X.instr s).1 from hpassed.cost]
  refine C'_pos sZ hpassed.valid ?_ ?_ ?_ <;>
  · intro hw
    rw [hw] at hH
    cases hH

namespace Invocation

/-- Fuel that is enough for the gas. -/
def need : Invocation → ℕ
  | .call _ c => c.callgas + 5
  | .step _ _ _ s => s.gasAvailable.val + 1
  | .X _ _ s => s.gasAvailable.val + 2
  | .Ξ _ x => x.g.val + 3
  | .Lambda _ x => x.g.val + 4
  | .Θ _ x => x.g.val + 4

/-- The charges are covered, and there is fuel enough for the gas. -/
def Enough (i : Invocation) : Prop := i.Covered ∧ i.need ≤ i.fuel

theorem Enough.fuel_ne_zero {i : Invocation} (h : i.Enough) : i.fuel ≠ 0 := by
  have hneed : 0 < i.need := by cases i <;> exact Nat.succ_pos _
  have hle := h.2
  omega

/-- **The invocations a body makes need less fuel.** -/
theorem Covered.need_lt {E : Externals} {i j : Invocation} (h : i.Covered)
    (hij : Invokes E i j) : j.need < i.need := by
  cases hij with
  | @call_Θ f c hallowed =>
    have hg : c.toΘ.g.val ≤ c.callgas := UInt256.val_ofNat_le _
    exact Nat.lt_succ_of_le (Nat.add_le_add_right hg 4)
  | @step_call f gasCost instr s p c stack hfetch hcall =>
    obtain ⟨q, rfl, hcost, hle⟩ := h
    obtain rfl := Except.ok.inj hfetch
    have hadd := step.callgas_add_le hcall
    rw [C'_count, ← hcost] at hadd
    simp only [need]
    omega
  | @step_Lambda f gasCost instr s p c hfetch hcreate hnonce hallowed =>
    obtain ⟨q, rfl, hcost, hle⟩ := h
    obtain rfl := Except.ok.inj hfetch
    have hG : 32000 ≤ gasCost := hcost ▸ C'_create_ge s q.1 (step.createInput_isCreate hcreate)
    have hg : c.toΛ.g.val ≤ s.gasAvailable.val - gasCost := calc
      c.toΛ.g.val ≤ L c.evmState.gasAvailable.val := UInt256.val_ofNat_le _
      _ ≤ c.evmState.gasAvailable.val := Nat.sub_le _ _
      _ = s.gasAvailable.val - gasCost := by
        rw [step.createInput_evmState hcreate]
        exact State.gasAvailable_charge (s := s.count) hle
    simp only [need]
    omega
  | @X_step f validJumps s sZ cost₂ hZ =>
    have hgas := X.Z_gas hZ
    simp only [need]
    omega
  | @X_X f validJumps s sZ s' cost₂ hZ hs' hH =>
    have hgas := X.Z_gas hZ
    have hle : s'.gasAvailable.val ≤ _ := thrifty E _ (X.covered f hZ) s' hs'
    have hlt := (X.covered f hZ).gas_lt (X.cost_pos hZ hH)
    simp only [need]
    omega
  | Ξ_X => exact Nat.lt_succ_self _
  | Lambda_Ξ hlₐ => exact Nat.lt_succ_self _
  | Θ_Ξ hc => exact Nat.lt_succ_self _

/-- The gas of a frame is bounded by the gas of the run. -/
theorem Covered.need_le {E : Externals} {i j : Invocation} (h : i.Covered) (hij : Reaches E i j) :
    j.Covered ∧ j.need ≤ i.need := by
  induction hij with
  | refl => exact ⟨h, le_rfl⟩
  | tail _ hjk ih =>
    exact ⟨(ih.1.of_invokes hjk).1, (ih.1.need_lt hjk).le.trans ih.2⟩

/-- The invocations a body makes have enough fuel in their turn. -/
theorem Enough.of_invokes {E : Externals} {i j : Invocation} (h : i.Enough)
    (hij : Invokes E i j) : j.Enough := by
  have hlt := h.1.need_lt hij
  have hfuel := hij.fuel_succ
  have hneed := h.2
  exact ⟨(h.1.of_invokes hij).1, by omega⟩

/-- With enough fuel no frame of the run runs out of it. -/
theorem Enough.complete {E : Externals} {i : Invocation} (h : i.Enough) : i.Complete E := by
  have heval : ∀ j : Invocation, j.Enough → Avoids (j.eval E) .OutOfFuel := by
    intro j
    induction j using Invokes.induction E with
    | h j ih =>
      intro hj
      exact avoids_outOfFuel hj.fuel_ne_zero fun k hjk => ih k hjk (hj.of_invokes hjk)
  intro j hreach
  have hj : j.Enough := by
    induction hreach with
    | refl => exact h
    | tail _ hjk ih => exact ih.of_invokes hjk
  exact heval j hj

end Invocation

/-! ## Transactions -/

namespace Υ.Input

variable (x : Υ.Input)

/-- The fuel a transaction needs at most. -/
def need : ℕ := x.g.val + 4

theorem top_enough {fuel : ℕ} (h : x.need ≤ fuel) : (x.top fuel).Enough := by
  unfold top
  split
  · exact ⟨trivial, h⟩
  · exact ⟨trivial, h⟩

end Υ.Input

/-! ## The fuel of the test runner -/

/-- `_fuel` of `executeTransaction`: the balance of the sender. -/
def executeTransaction.fuel (x : Υ.Input) : ℕ := (x.σ.balance x.S_T).val

theorem intrinsicGas_ge (T : Transaction) : 21000 ≤ intrinsicGas T := by
  unfold intrinsicGas
  dsimp only [GasConstants.Gtransaction]
  omega

/-- The fuel of the test runner is enough for a transaction that covers its
intrinsic gas and whose sender can pay one wei for each unit of gas. -/
theorem executeTransaction.fuel_suffices {x : Υ.Input}
    (hgas : intrinsicGas x.T ≤ x.T.base.gasLimit.val)
    (hbalance : x.T.base.gasLimit.val ≤ (x.σ.balance x.S_T).val) :
    x.need ≤ executeTransaction.fuel x := by
  have hg : x.g.val ≤ x.T.base.gasLimit.val - intrinsicGas x.T := UInt256.val_ofNat_le _
  have hintrinsic := intrinsicGas_ge x.T
  simp only [Υ.Input.need, executeTransaction.fuel]
  omega

end EVM
end EvmYul
