import EvmModel.Fuel
import EvmModel.Permanence

/-!
# Gas never grows

Gas is spent, handed on and given back, and never made.  Every instruction that
does not end the code costs something, and a call costs at least a hundred more
than the gas it hands on.

* `C'_pos`, `Ccallgas_add_le` — the costs;
* `*.body_gas` — what each of the six bodies leaves of the gas it is given;
* `thrifty` — no invocation leaves more gas than it can;
* `gas_is_never_made` — no frame of a transaction has more gas than the
  transaction, or hands back more.
-/

namespace EvmYul
namespace EVM

open GasConstants InstructionGasGroups

/-! ## Costs -/

/-- Touching an account costs at least a warm access. -/
theorem Caccess_ge (a : AccountAddress) (A : Substate) : 100 ≤ Caccess a A := by
  unfold Caccess
  split <;> decide

/-- A call costs at least a hundred more than the gas it hands on. -/
theorem Ccallgas_add_le (t r : AccountAddress) (val g : UInt256) (σ : AccountMap)
    (μ : MachineState) (A : Substate) : Ccallgas t r val g σ μ A + 100 ≤ Ccall t r val g σ μ A := by
  have haccess := Caccess_ge t A
  unfold Ccallgas Ccall Cextra Cxfer
  by_cases hval : val = 0
  · simp only [hval, ne_eq, not_true_eq_false, if_true, if_false]
    omega
  · simp only [hval, ne_eq, not_false_eq_true, if_true, if_false, Gcallvalue, Gcallstipend]
    omega

/-- The instructions of a group cost something, except those that end the code. -/
theorem groupCost_pos (s : State) {w : Operation} (hzero : w ∉ Wzero)
    (h : w ∈ Wcopy ++ Wextaccount ++ Wbase ++ Wverylow ++ Wlow ++ Wmid ++ Whigh) :
    0 < groupCost s w := by
  simp only [List.mem_append] at h
  unfold groupCost
  split
  · exact Nat.add_pos_left (by decide) _
  split
  · exact Nat.lt_of_lt_of_le (by decide) (Caccess_ge _ _)
  split
  · decide
  split
  · decide
  split
  · decide
  split
  · decide
  split
  · decide
  · exact absurd h (by tauto)

/-- **Every instruction that does not end the code costs something.** -/
theorem C'_pos (s : State) {w : Operation} (hδ : δ w ≠ none) (hstop : w ≠ .STOP)
    (hreturn : w ≠ .RETURN) (hrevert : w ≠ .REVERT) : 0 < C' s w := by
  have hcall := fun t r val g => Ccallgas_add_le t r val g s.accountMap s.toMachineState s.substate
  cases w with
  | STOP => exact absurd rfl hstop
  | RETURN => exact absurd rfl hreturn
  | REVERT => exact absurd rfl hrevert
  | INVALID => exact absurd rfl hδ
  | CALL | CALLCODE | DELEGATECALL | STATICCALL =>
    exact Nat.lt_of_lt_of_le (by omega) (hcall _ _ _ _)
  | SSTORE =>
    show 0 < Csstore s
    unfold Csstore
    dsimp only
    refine Nat.add_pos_right _ ?_
    split
    · decide
    · split <;> decide
  | SLOAD =>
    show 0 < Csload s.stack s.substate s.executionEnv
    unfold Csload
    split <;> decide
  | SELFDESTRUCT =>
    show 0 < Cselfdestruct s
    unfold Cselfdestruct
    simp only [Gselfdestruct]
    omega
  | EXP =>
    simp only [C', Gexp]
    split <;> omega
  | EXTCODECOPY =>
    exact Nat.add_pos_left (Nat.lt_of_lt_of_le (by decide) (Caccess_ge _ _)) _
  | CREATE | CREATE2 | KECCAK256 | Log => simp [C', Gcreate, Gkeccak256, Glog]
  | JUMPDEST | TLOAD | TSTORE | BLOCKHASH | BLOBHASH => exact Nat.zero_lt_succ _
  | Push n | Dup n | Exchange n =>
    exact groupCost_pos s (by simp [Wzero]) (by revert n; decide)
  | _ => exact groupCost_pos s (by decide) (by decide)

theorem C'_create_ge (s : State) (w : Operation) (hw : w.isCreate) : Gcreate ≤ C' s w := by
  cases w with
  | CREATE => exact Nat.le_add_right _ _
  | CREATE2 => exact (Nat.le_add_right _ _).trans (Nat.le_add_right _ _)
  | _ => cases hw

/-- The call an instruction makes is covered by its cost. -/
theorem step.callgas_add_le {w : Operation} {gasCost : ℕ} {s : State} {c : call.Input}
    {stack : Stack} (h : step.callInput w gasCost s = some (c, stack)) :
    c.callgas + 100 ≤ C' s w := by
  unfold step.callInput at h
  dsimp only at h
  split at h
  next μ₀ μ₁ μ₂ μ₃ μ₄ μ₅ μ₆ stk hstack =>
    cases h
    simp only [call.Input.callgas, C', hstack]
    exact Ccallgas_add_le ..
  next μ₀ μ₁ μ₂ μ₃ μ₄ μ₅ μ₆ stk hstack =>
    cases h
    simp only [call.Input.callgas, C', hstack, AccountAddress.ofUInt256_ofNat]
    exact Ccallgas_add_le ..
  next μ₀ μ₁ μ₃ μ₄ μ₅ μ₆ stk hstack =>
    cases h
    simp only [call.Input.callgas, C', hstack, AccountAddress.ofUInt256_ofNat]
    exact Ccallgas_add_le ..
  next μ₀ μ₁ μ₃ μ₄ μ₅ μ₆ stk hstack =>
    cases h
    simp only [call.Input.callgas, C', hstack]
    exact Ccallgas_add_le ..
  · cases h

/-! ## Gas never grows -/

/-- A charge that is covered is a subtraction of numbers. -/
theorem State.gasAvailable_charge {s : State} {n : ℕ} (h : n ≤ s.gasAvailable.val) :
    (s.charge n).gasAvailable.val = s.gasAvailable.val - n :=
  UInt256.val_sub_ofNat h

/-- The gas an instruction hands on, if it is a call. -/
def step.callgas (gasCost : ℕ) (w : Operation) (s : State) : ℕ :=
  match step.callInput w gasCost s with
  | some (c, _) => c.callgas
  | none => 0

namespace Invocation

/-- What is charged for is covered, and the charge covers the gas of a call. -/
def Covered : Invocation → Prop
  | .call _ c => c.callgas ≤ c.gasCost ∧ c.gasCost ≤ c.evmState.gasAvailable.val
  | .step _ gasCost instr s =>
    ∃ p, instr = some p ∧ gasCost = C' s p.1 ∧ gasCost ≤ s.gasAvailable.val
  | _ => True

/-- The gas an invocation can leave at most: what is left once the instruction
is paid for, and what a call is given. -/
def gas : Invocation → ℕ
  | .call _ c => c.evmState.gasAvailable.val - c.gasCost + c.callgas
  | .step _ gasCost instr s =>
    s.gasAvailable.val - gasCost + (instr.map fun p => step.callgas gasCost p.1 s.count).getD 0
  | .X _ _ s => s.gasAvailable.val
  | .Ξ _ x => x.g.val
  | .Lambda _ x => x.g.val
  | .Θ _ x => x.g.val

/-- The gas an invocation leaves. -/
def gasLeft : (i : Invocation) → i.Result → ℕ
  | .call _ _, r => r.2.gasAvailable.val
  | .step _ _ _ _, s' => s'.gasAvailable.val
  | .X _ _ _, .success s' _ => s'.gasAvailable.val
  | .X _ _ _, .revert g' _ => g'.val
  | .Ξ _ _, .success r _ => r.g.val
  | .Ξ _ _, .revert g' _ => g'.val
  | .Lambda _ _, r => r.g'.val
  | .Θ _ _, r => r.g'.val

/-- The invocation leaves no more gas than it can. -/
def Thrifty (E : Externals) (i : Invocation) : Prop :=
  i.Covered → Ensures (i.eval E) fun r => i.gasLeft r ≤ i.gas

end Invocation

/-- A call brings back no more gas than it was given. -/
theorem call.body_gas {runΘ : Θ.Input → Except ExecutionException Θ.Result} {c : call.Input}
    (hcallgas : c.callgas ≤ c.gasCost) (hcost : c.gasCost ≤ c.evmState.gasAvailable.val)
    (hΘ : c.allowed → Ensures (runΘ c.toΘ) fun r => r.g'.val ≤ c.toΘ.g.val) :
    Ensures (call.body runΘ c) fun r =>
      r.2.gasAvailable.val ≤ c.evmState.gasAvailable.val - c.gasCost + c.callgas := by
  have hpaid : c.paid.gasAvailable.val = c.evmState.gasAvailable.val - c.gasCost :=
    UInt256.val_sub_ofNat hcost
  have hattempt : Ensures (c.attempt runΘ) fun r => r.g'.val ≤ c.callgas := by
    have hg := UInt256.val_ofNat_le c.callgas
    refine Ensures.ite (fun hallowed => ?_) fun _ => Ensures.ok_iff.2 hg
    exact (hΘ hallowed).mono fun r hr => hr.trans hg
  refine Ensures.bind hattempt fun r hr => Ensures.ok_iff.2 ?_
  have hfinish : (c.finish r).2.gasAvailable = c.paid.gasAvailable + r.g' := by
    simp [call.Input.finish]
  have hlt := c.evmState.gasAvailable.isLt
  have hadd : (c.paid.gasAvailable + r.g').val = c.paid.gasAvailable.val + r.g'.val :=
    UInt256.val_add_of_lt (by omega)
  rw [hfinish, hadd, hpaid]
  exact Nat.add_le_add_left hr _

/-- No more gas comes back from a creation than was set aside for it. -/
theorem create.attempt_gas {runΛ : Lambda.Input → Except ExecutionException Lambda.Result}
    {c : create.Input} (hΛ : ¬2 ^ 64 - 1 ≤ c.σ_Iₐ.nonce.val → c.allowed →
      Ensures (runΛ c.toΛ) fun r => r.g'.val ≤ c.toΛ.g.val) :
    (c.attempt runΛ).2.2.1.val ≤ L c.evmState.gasAvailable.val := by
  have hg := UInt256.val_ofNat_le (L c.evmState.gasAvailable.val)
  unfold create.Input.attempt
  dsimp only
  split
  · exact hg
  next hnonce =>
    split
    next hallowed =>
      cases hr : runΛ c.toΛ with
      | error e => exact Nat.zero_le _
      | ok r => exact (hΛ hnonce hallowed r hr).trans hg
    · exact hg

/-- A creation leaves no more gas than it starts with. -/
theorem create.body_gas {runΛ : Lambda.Input → Except ExecutionException Lambda.Result}
    {c : create.Input} (hΛ : ¬2 ^ 64 - 1 ≤ c.σ_Iₐ.nonce.val → c.allowed →
      Ensures (runΛ c.toΛ) fun r => r.g'.val ≤ c.toΛ.g.val) :
    Ensures (create.body runΛ c) fun s' =>
      s'.gasAvailable.val ≤ c.evmState.gasAvailable.val := by
  have hL : L c.evmState.gasAvailable.val ≤ c.evmState.gasAvailable.val := Nat.sub_le _ _
  have hattempt := create.attempt_gas hΛ
  unfold create.body
  dsimp only
  refine Ensures.ite (fun _ => Ensures.error) fun _ => Ensures.ok_iff.2 ?_
  exact (UInt256.val_ofNat_le _).trans
    ((Nat.add_le_add_left hattempt _).trans_eq (Nat.sub_add_cancel hL))

/-- An instruction leaves no more gas than what it costs and hands on allows. -/
theorem step.body_gas {E : Externals}
    {runCall : call.Input → Except ExecutionException (UInt256 × State)}
    {runΛ : Lambda.Input → Except ExecutionException Lambda.Result} {gasCost : ℕ}
    {p : Operation × Option (UInt256 × ℕ)} {s : State} (hcost : gasCost ≤ s.gasAvailable.val)
    (hcall : ∀ c stack, step.callInput p.1 gasCost s.count = some (c, stack) →
      Ensures (runCall c) fun r =>
        r.2.gasAvailable.val ≤ s.gasAvailable.val - gasCost + c.callgas)
    (hcreate : ∀ c, step.createInput p.1 (s.count.charge gasCost) = some c →
      Ensures (create.body runΛ c) fun s' =>
        s'.gasAvailable.val ≤ c.evmState.gasAvailable.val) :
    Ensures (step.body E runCall runΛ gasCost (some p) s) fun s' =>
      s'.gasAvailable.val ≤ s.gasAvailable.val - gasCost + step.callgas gasCost p.1 s.count := by
  intro s' h
  have hcharge : (s.count.charge gasCost).gasAvailable.val = s.gasAvailable.val - gasCost :=
    State.gasAvailable_charge hcost
  obtain ⟨p', hp, ⟨c, hc, h⟩ | ⟨c, stack, r, hc, hr, rfl⟩ | ⟨hop, h⟩⟩ := step.body_cases h
  · obtain rfl := Except.ok.inj hp
    have hle := hcreate c hc s' h
    rw [step.createInput_evmState hc, hcharge] at hle
    exact hle.trans (Nat.le_add_right _ _)
  · obtain rfl := Except.ok.inj hp
    simp only [step.callgas, hc]
    exact hcall c stack hc r hr
  · have hgas := (step_env E p'.1 p'.2 hop s' h).2
    rw [hgas, hcharge]
    exact Nat.le_add_right _ _

/-- A precompiled contract leaves no more gas than it was given. -/
theorem runPrecompiled_gas (gᵣ : ℕ) (o : Except String ByteArray) (σ : AccountMap) (g : UInt256)
    (A : Substate) : (runPrecompiled gᵣ o σ g A).2.2.1.val ≤ g.val := by
  unfold runPrecompiled
  split
  · exact Nat.zero_le _
  next hgas =>
    cases o with
    | error e => exact Nat.zero_le _
    | ok o =>
      show (g - UInt256.ofNat gᵣ).val ≤ g.val
      rw [UInt256.val_sub_ofNat (not_lt.1 hgas)]
      exact Nat.sub_le _ _

theorem applyPrecompile_gas (E : Externals) (σ : AccountMap) (g : UInt256) (A : Substate)
    (I : ExecutionEnv) (p : AccountAddress) :
    Ensures (applyPrecompile E σ g A I p) fun r => r.2.2.2.1.val ≤ g.val := by
  unfold applyPrecompile
  iterate 10
    refine Ensures.ite (fun _ => Ensures.ok_iff.2 (runPrecompiled_gas ..)) fun _ => ?_
  exact Ensures.ok_iff.2 (Nat.zero_le _)

/-- A message call leaves no more gas than it was given. -/
theorem Θ.body_gas {E : Externals}
    {runΞ : Ξ.Input → Except ExecutionException (ExecutionResult Ξ.Outcome)} {x : Θ.Input}
    (hΞ : ∀ code, x.c = .Code code → Ensures (runΞ x.toΞ) fun
      | .success r _ => r.g.val ≤ x.g.val
      | .revert g' _ => g'.val ≤ x.g.val) :
    Ensures (Θ.body E runΞ x) fun r => r.g'.val ≤ x.g.val := by
  have hexecute : Ensures (x.execute E runΞ) fun r => r.2.2.2.1.val ≤ x.g.val := by
    unfold Θ.Input.execute
    split
    · exact applyPrecompile_gas E x.σ₁ x.g x.A x.I _
    next code hc =>
      have hrun := hΞ code hc
      split
      · split
        · exact Ensures.error
        · exact Ensures.ok_iff.2 (Nat.zero_le _)
      next g' o hξ => exact Ensures.ok_iff.2 (hrun _ hξ)
      next r o hξ => exact Ensures.ok_iff.2 (hrun _ hξ)
  exact Ensures.bind hexecute fun r hr => Ensures.ok_iff.2 hr

/-- A contract creation leaves no more gas than it was given. -/
theorem Lambda.body_gas {E : Externals}
    {runΞ : Ξ.Input → Except ExecutionException (ExecutionResult Ξ.Outcome)} {x : Lambda.Input}
    (hΞ : ∀ lₐ, Lambda.L_A E x.s x.n x.ζ x.i = some lₐ →
      Ensures (runΞ (x.toΞ (Lambda.address E lₐ))) fun
        | .success r _ => r.g.val ≤ x.g.val
        | .revert g' _ => g'.val ≤ x.g.val) :
    Ensures (Lambda.body E runΞ x) fun r => r.g'.val ≤ x.g.val := by
  unfold Lambda.body
  split
  · exact Ensures.error
  next lₐ hlₐ =>
    have hrun := hΞ lₐ hlₐ
    dsimp only
    split
    · split
      · exact Ensures.error
      · exact Ensures.ok_iff.2 (Nat.zero_le _)
    next g' o hξ => exact Ensures.ok_iff.2 (hrun _ hξ)
    next r o hξ =>
      refine Ensures.ok_iff.2 ?_
      have hle : r.g.val ≤ x.g.val := hrun _ hξ
      unfold Lambda.Input.deposit
      split
      · exact Nat.zero_le _
      · exact ((UInt256.val_ofNat_le _).trans (Nat.sub_le _ _)).trans hle

/-- Code leaves no more gas than it starts with. -/
theorem X.body_gas
    {runStep : ℕ → Option (Operation × Option (UInt256 × ℕ)) → State →
      Except ExecutionException State}
    {runX : State → Except ExecutionException (ExecutionResult State)}
    {validJumps : Array UInt256} {s : State}
    (hstep : ∀ sZ cost₂, X.Z validJumps (X.instr s).1 s = .ok (sZ, cost₂) →
      Ensures (runStep cost₂ (some (X.instr s)) sZ) fun s' =>
        s'.gasAvailable.val ≤ s.gasAvailable.val)
    (hX : ∀ sZ cost₂ s', X.Z validJumps (X.instr s).1 s = .ok (sZ, cost₂) →
      runStep cost₂ (some (X.instr s)) sZ = .ok s' →
      X.H s'.toMachineState (X.instr s).1 = none → Ensures (runX s') fun
        | .success t _ => t.gasAvailable.val ≤ s'.gasAvailable.val
        | .revert g' _ => g'.val ≤ s'.gasAvailable.val) :
    Ensures (X.body runStep runX validJumps s) fun
      | .success t _ => t.gasAvailable.val ≤ s.gasAvailable.val
      | .revert g' _ => g'.val ≤ s.gasAvailable.val := by
  unfold X.body
  dsimp only
  split
  · exact Ensures.error
  next sZ cost₂ hZ =>
    refine Ensures.bind_any fun s' hs' => ?_
    have hle := hstep sZ cost₂ hZ s' hs'
    split
    next hH =>
      refine (hX sZ cost₂ s' hZ hs' hH).mono fun r hr => ?_
      cases r with
      | success t o => exact le_trans hr hle
      | revert g' o => exact le_trans hr hle
    · exact Ensures.ite (fun _ => Ensures.ok_iff.2 hle) fun _ => Ensures.ok_iff.2 hle

/-- Counting an instruction does not change its cost. -/
theorem C'_count (s : State) (w : Operation) : C' s.count w = C' s w := by
  cases w <;> rfl

/-- A call hands on less gas than it costs, and any other instruction none. -/
theorem step.callgas_le (w : Operation) (s : State) :
    step.callgas (C' s w) w s.count ≤ C' s w - 1 := by
  unfold step.callgas
  split
  next c stack hc =>
    have hadd := step.callgas_add_le hc
    rw [C'_count] at hadd
    omega
  · exact Nat.zero_le _

namespace Invocation

/-- An instruction that is covered leaves no more gas than there is. -/
theorem Covered.gas_le {f gasCost : ℕ} {instr : Option (Operation × Option (UInt256 × ℕ))}
    {s : State} (h : (step f gasCost instr s).Covered) :
    (step f gasCost instr s).gas ≤ s.gasAvailable.val := by
  obtain ⟨p, rfl, hcost, hle⟩ := h
  have hcallgas := step.callgas_le p.1 s
  rw [← hcost] at hcallgas
  show s.gasAvailable.val - gasCost + step.callgas gasCost p.1 s.count ≤ _
  omega

/-- One that costs something leaves less. -/
theorem Covered.gas_lt {f gasCost : ℕ} {instr : Option (Operation × Option (UInt256 × ℕ))}
    {s : State} (h : (step f gasCost instr s).Covered) (hpos : 0 < gasCost) :
    (step f gasCost instr s).gas < s.gasAvailable.val := by
  obtain ⟨p, rfl, hcost, hle⟩ := h
  have hcallgas := step.callgas_le p.1 s
  rw [← hcost] at hcallgas
  show s.gasAvailable.val - gasCost + step.callgas gasCost p.1 s.count < _
  omega

/-- The call a covered instruction makes is covered. -/
theorem Covered.call {f gasCost : ℕ} {p : Operation × Option (UInt256 × ℕ)} {s : State}
    {c : call.Input} {stack : Stack} (h : (step (f + 1) gasCost (some p) s).Covered)
    (hc : step.callInput p.1 gasCost s.count = some (c, stack)) :
    (Invocation.call f c).Covered := by
  obtain ⟨q, hq, hcost, hle⟩ := h
  obtain rfl := Option.some.inj hq
  have hadd := step.callgas_add_le hc
  rw [C'_count, ← hcost] at hadd
  refine ⟨?_, ?_⟩
  · rw [step.callInput_gasCost hc]
    exact (Nat.le_add_right _ _).trans hadd
  · rw [step.callInput_gasCost hc, step.callInput_evmState hc]
    exact hle

end Invocation

/-- What a run checks before an instruction covers it. -/
theorem X.covered {validJumps : Array UInt256} {s sZ : State} {cost₂ : ℕ} (f : ℕ)
    (hZ : X.Z validJumps (X.instr s).1 s = .ok (sZ, cost₂)) :
    (Invocation.step f cost₂ (some (X.instr s)) sZ).Covered :=
  have hpassed := X.Z_spec validJumps (X.instr s).1 s _ hZ
  ⟨X.instr s, rfl, hpassed.cost, hpassed.paid⟩

/-- Paying for memory takes gas. -/
theorem X.Z_gas {validJumps : Array UInt256} {w : Operation} {s sZ : State} {cost₂ : ℕ}
    (hZ : X.Z validJumps w s = .ok (sZ, cost₂)) : sZ.gasAvailable.val ≤ s.gasAvailable.val := by
  have hpassed := X.Z_spec validJumps w s _ hZ
  rw [show sZ = s.charge (memoryExpansionCost s w) from hpassed.state,
    State.gasAvailable_charge hpassed.memory_paid]
  exact Nat.sub_le _ _

/-- **Gas never grows**: no invocation that is covered leaves more than it can. -/
theorem thrifty (E : Externals) (i : Invocation) : i.Thrifty E := by
  induction i using Invokes.induction E with
  | h i ih =>
    intro hcovered
    by_cases hfuel : i.fuel = 0
    · rw [Invocation.eval_of_fuel_eq_zero E hfuel]
      exact Ensures.error
    obtain ⟨f, hf⟩ := Nat.exists_eq_succ_of_ne_zero hfuel
    cases i with
    | call _ c =>
      obtain rfl := hf
      show Ensures (EVM.call E (f + 1) c) _
      rw [call_succ]
      exact call.body_gas hcovered.1 hcovered.2 fun hallowed => ih _ (.call_Θ hallowed) trivial
    | step _ gasCost instr s =>
      obtain rfl := hf
      obtain ⟨p, rfl, hcost, hle⟩ := id hcovered
      show Ensures (EVM.step E (f + 1) gasCost (some p) s) _
      rw [step_succ]
      refine step.body_gas hle (fun c stack hc => ?_) fun c hc => ?_
      · have hcall := ih _ (.step_call (p := p) rfl hc) (hcovered.call hc)
        rw [Invocation.gas, step.callInput_evmState hc, step.callInput_gasCost hc] at hcall
        exact hcall
      · exact create.body_gas fun hnonce hallowed =>
          ih _ (.step_Lambda (p := p) rfl hc hnonce hallowed) trivial
    | X _ validJumps s =>
      obtain rfl := hf
      show Ensures (EVM.X E (f + 1) validJumps s) _
      rw [X_succ]
      refine (X.body_gas (s := s) (fun sZ cost₂ hZ => ?_) fun sZ cost₂ s' hZ hs' hH => ?_).mono ?_
      · have hstep := ih _ (.X_step hZ) (X.covered f hZ)
        exact hstep.mono fun s' hs' => hs'.trans ((X.covered f hZ).gas_le.trans (X.Z_gas hZ))
      · refine (ih _ (.X_X hZ hs' hH) trivial).mono fun r hr => ?_
        cases r <;> exact hr
      · intro r hr
        cases r <;> exact hr
    | Ξ _ x =>
      obtain rfl := hf
      show Ensures (EVM.Ξ E (f + 1) x) _
      rw [Ξ_succ]
      refine Ensures.bind (ih _ .Ξ_X trivial) fun r hr => ?_
      cases r with
      | success s' o => exact Ensures.ok_iff.2 hr
      | revert g' o => exact Ensures.ok_iff.2 hr
    | Lambda _ x =>
      obtain rfl := hf
      show Ensures (EVM.Lambda E (f + 1) x) _
      rw [Lambda_succ]
      refine Lambda.body_gas fun lₐ hlₐ => (ih _ (.Lambda_Ξ hlₐ) trivial).mono fun r hr => ?_
      cases r <;> exact hr
    | Θ _ x =>
      obtain rfl := hf
      show Ensures (EVM.Θ E (f + 1) x) _
      rw [Θ_succ]
      refine Θ.body_gas fun code hc => (ih _ (.Θ_Ξ hc) trivial).mono fun r hr => ?_
      cases r <;> exact hr

/-! ## The gas of a run -/

/-- The invocations a body makes are covered, and have no more gas than it has. -/
theorem Invocation.Covered.of_invokes {E : Externals} {i j : Invocation} (h : i.Covered)
    (hij : Invokes E i j) : j.Covered ∧ j.gas ≤ i.gas := by
  cases hij with
  | @call_Θ f c hallowed =>
    have hg : c.toΘ.g.val ≤ c.callgas := UInt256.val_ofNat_le _
    exact ⟨trivial, hg.trans (Nat.le_add_left _ _)⟩
  | @step_call f gasCost instr s p c stack hfetch hcall =>
    obtain ⟨q, rfl, hcost, hle⟩ := id h
    obtain rfl := Except.ok.inj hfetch
    refine ⟨h.call hcall, le_of_eq ?_⟩
    simp only [gas, Option.map_some, Option.getD_some, step.callgas, hcall]
    rw [step.callInput_evmState hcall, step.callInput_gasCost hcall]
    rfl
  | @step_Lambda f gasCost instr s p c hfetch hcreate hnonce hallowed =>
    refine ⟨trivial, ?_⟩
    obtain ⟨q, rfl, hcost, hle⟩ := h
    calc c.toΛ.g.val ≤ L c.evmState.gasAvailable.val := UInt256.val_ofNat_le _
      _ ≤ c.evmState.gasAvailable.val := Nat.sub_le _ _
      _ = s.gasAvailable.val - gasCost := by
        rw [step.createInput_evmState hcreate]
        exact State.gasAvailable_charge (s := s.count) hle
      _ ≤ _ := Nat.le_add_right _ _
  | X_step hZ => exact ⟨X.covered _ hZ, (X.covered _ hZ).gas_le.trans (X.Z_gas hZ)⟩
  | X_X hZ hs' hH =>
    have hgas := thrifty E _ (X.covered _ hZ) _ hs'
    exact ⟨trivial, hgas.trans ((X.covered _ hZ).gas_le.trans (X.Z_gas hZ))⟩
  | Ξ_X => exact ⟨trivial, le_rfl⟩
  | Lambda_Ξ hlₐ => exact ⟨trivial, le_rfl⟩
  | Θ_Ξ hc => exact ⟨trivial, le_rfl⟩

/-- **No frame has more gas than the transaction**, and none hands back more:
in the run of a transaction gas is spent and passed on, and never made. -/
theorem gas_is_never_made (E : Externals) (x : Υ.Input) (fuel : ℕ) :
    ∀ j, Reaches E (x.top fuel) j →
      j.gas ≤ x.g.val ∧ Ensures (j.eval E) fun r => j.gasLeft r ≤ x.g.val := by
  intro j hj
  have htop : (x.top fuel).Covered ∧ (x.top fuel).gas = x.g.val := by
    unfold Υ.Input.top
    split
    · exact ⟨trivial, rfl⟩
    · exact ⟨trivial, rfl⟩
  have hrun : j.Covered ∧ j.gas ≤ x.g.val := by
    induction hj with
    | refl => exact ⟨htop.1, htop.2.le⟩
    | tail _ hjk ih =>
      obtain ⟨hcovered, hle⟩ := ih.1.of_invokes hjk
      exact ⟨hcovered, hle.trans ih.2⟩
  exact ⟨hrun.2, (thrifty E j hrun.1).mono fun r hr => hr.trans hrun.2⟩

/-- The code of a contract that is called returns, with no more gas than it had. -/
theorem gas_is_never_made_callSelfdestructing :
    let s := (callSelfdestructing.toΘ 0xc0de).toΞ.fresh
    let j : Invocation := .X 8 (D_J s.executionEnv.code 0) s
    j.gas ≤ callSelfdestructing.g.val ∧
      Returns (j.eval (Frame.aimedAt 0)) fun r => j.gasLeft r ≤ callSelfdestructing.g.val := by
  intro s j
  obtain ⟨hgas, hleft⟩ := gas_is_never_made (Frame.aimedAt 0) callSelfdestructing 10 j
    (callSelfdestructing.reaches_code rfl (by decide) _ 8)
  exact ⟨hgas, hleft.returns (by decide +kernel)⟩

end EVM
end EvmYul
