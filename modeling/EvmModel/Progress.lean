import EvmModel.ControlFlow
import EvmModel.Preimages
import EvmModel.Termination

/-!
# Progress

The check before an instruction is complete: an instruction that passes it does
not fail.

* `step_failsOnly` — an instruction that has passed can run out of fuel, and in
  no other way go wrong;
* `instructions_never_get_stuck` — in the run of a transaction with enough fuel
  every instruction that is executed succeeds;
* `frames_fail_at_the_check` — code that halts exceptionally does so because the
  check has turned down an instruction it has arrived at;
* `transactions_return` — a transaction with enough fuel returns, whatever the
  code that runs does.
-/

namespace EvmYul

namespace EVM

/-! ## The address of a new contract is found -/

/-- There always is something to hash. -/
theorem Lambda.L_A_isSome (E : Externals) (s : AccountAddress) (n : UInt256)
    (ζ : Option ByteArray) (i : ByteArray) : ∃ lₐ, L_A E s n ζ i = some lₐ := by
  cases ζ with
  | some ζ => exact ⟨_, rfl⟩
  | none =>
    have hs := s.size_toByteArray
    have hn := n.size_BE_val_le
    obtain ⟨b, hb, -⟩ := RLP_of_bound_lt (.𝕃 [.𝔹 s.toByteArray, .𝔹 (BE n.val)]) (by
      simp only [𝕋.bound, 𝕋.bounds]
      omega)
    exact ⟨b, hb⟩

/-! ## Calls and creations -/

/-- A message call can only run out of fuel: an exception of the code it runs is
a failure it reports. -/
theorem Θ_failsOnly (E : Externals) (f : ℕ) (x : Θ.Input) : FailsOnly (Θ E f x) .OutOfFuel := by
  cases f with
  | zero => rw [Θ]; exact FailsOnly.error_iff.2 rfl
  | succ f =>
    rw [Θ_succ]
    have hexecute : FailsOnly (x.execute E (Ξ E f)) .OutOfFuel := by
      unfold Θ.Input.execute
      split
      next p hp =>
        obtain ⟨r, hr, -⟩ := applyPrecompile_spec E x.σ₁ x.g x.A x.I p
        rw [hr]
        exact FailsOnly.ok
      · split
        · exact FailsOnly.ite (fun _ => FailsOnly.error_iff.2 rfl) fun _ => FailsOnly.ok
        · exact FailsOnly.ok
        · exact FailsOnly.ok
    exact FailsOnly.bind hexecute fun _ _ => FailsOnly.ok

theorem Lambda_failsOnly (E : Externals) (f : ℕ) (x : Lambda.Input) :
    FailsOnly (Lambda E f x) .OutOfFuel := by
  cases f with
  | zero => rw [Lambda]; exact FailsOnly.error_iff.2 rfl
  | succ f =>
    obtain ⟨lₐ, hlₐ⟩ := Lambda.L_A_isSome E x.s x.n x.ζ x.i
    rw [Lambda_succ]
    simp only [Lambda.body, hlₐ]
    split
    · exact FailsOnly.ite (fun _ => FailsOnly.error_iff.2 rfl) fun _ => FailsOnly.ok
    · exact FailsOnly.ok
    · exact FailsOnly.ok

theorem call_failsOnly (E : Externals) (f : ℕ) (c : call.Input) :
    FailsOnly (call E f c) .OutOfFuel := by
  cases f with
  | zero => rw [call]; exact FailsOnly.error_iff.2 rfl
  | succ f =>
    rw [call_succ]
    have hattempt : FailsOnly (c.attempt (Θ E f)) .OutOfFuel :=
      FailsOnly.ite (fun _ => Θ_failsOnly E f _) fun _ => FailsOnly.ok
    exact FailsOnly.bind hattempt fun _ _ => FailsOnly.ok

/-- A creation succeeds, whatever becomes of the new contract: the gas that is
left and the gas that comes back are no less than what was set aside.  With an
astronomic amount of gas the sum wraps around. -/
theorem create.body_returns {runΛ : Lambda.Input → Except ExecutionException Lambda.Result}
    {c : create.Input} (hgas : c.evmState.gasAvailable.val < 2 ^ 255)
    (hΛ : ¬2 ^ 64 - 1 ≤ c.σ_Iₐ.nonce.val → c.allowed →
      Ensures (runΛ c.toΛ) fun r => r.g'.val ≤ c.toΛ.g.val) :
    ∃ s', create.body runΛ c = .ok s' := by
  have hL : L c.evmState.gasAvailable.val ≤ c.evmState.gasAvailable.val := Nat.sub_le _ _
  have hback := create.attempt_gas hΛ
  have hsum : (c.evmState.gasAvailable + (c.attempt runΛ).2.2.1).val =
      c.evmState.gasAvailable.val + (c.attempt runΛ).2.2.1.val :=
    UInt256.val_add_of_lt (by omega)
  unfold create.body
  dsimp only
  rw [if_neg (by rw [hsum]; omega)]
  exact ⟨_, rfl⟩

/-! ## Instructions -/

theorem step.callInput_isSome {w : Operation} {gasCost : ℕ} {s : State}
    (hw : w ∈ ([.CALL, .CALLCODE, .DELEGATECALL, .STATICCALL] : List Operation))
    (h : (δ w).getD 0 ≤ s.stack.length) : ∃ c stack, step.callInput w gasCost s = some (c, stack) := by
  simp only [List.mem_cons, List.not_mem_nil, or_false] at hw
  rcases hw with rfl | rfl | rfl | rfl
  all_goals
    obtain ⟨a₁, t, hs, h₁⟩ := exists_cons h
    obtain ⟨a₂, t, rfl, h₂⟩ := exists_cons h₁
    obtain ⟨a₃, t, rfl, h₃⟩ := exists_cons h₂
    obtain ⟨a₄, t, rfl, h₄⟩ := exists_cons h₃
    obtain ⟨a₅, t, rfl, h₅⟩ := exists_cons h₄
    obtain ⟨a₆, t, rfl, h₆⟩ := exists_cons h₅
  case inl | inr.inl =>
    obtain ⟨a₇, t, rfl, -⟩ := exists_cons h₆
    simp only [step.callInput, hs]
    exact ⟨_, _, rfl⟩
  all_goals
    simp only [step.callInput, hs]
    exact ⟨_, _, rfl⟩

theorem step.createInput_isSome {w : Operation} {s : State} (hw : w = .CREATE ∨ w = .CREATE2)
    (h : (δ w).getD 0 ≤ s.stack.length) : ∃ c, step.createInput w s = some c := by
  rcases hw with rfl | rfl
  all_goals
    obtain ⟨a₁, t, hs, h₁⟩ := exists_cons h
    obtain ⟨a₂, t, rfl, h₂⟩ := exists_cons h₁
    obtain ⟨a₃, t, rfl, h₃⟩ := exists_cons h₂
  case inl =>
    simp only [step.createInput, hs]
    exact ⟨_, rfl⟩
  case inr =>
    obtain ⟨a₄, t, rfl, -⟩ := exists_cons h₃
    simp only [step.createInput, hs]
    exact ⟨_, rfl⟩

/-- **An instruction that has passed the check can only run out of fuel.** -/
theorem step_failsOnly {E : Externals} {f gasCost : ℕ} {s : State} (hready : s.Ready)
    (hcovered : (Invocation.step f gasCost (some (X.instr s)) s).Covered)
    (hgas : s.gasAvailable.val < 2 ^ 255) :
    FailsOnly (step E f gasCost (some (X.instr s)) s) .OutOfFuel := by
  obtain ⟨hvalid, hoperands⟩ := hready
  obtain ⟨p, hp, hcost, hle⟩ := hcovered
  obtain rfl := Option.some.inj hp
  cases f with
  | zero => rw [step]; exact FailsOnly.error_iff.2 rfl
  | succ f =>
    have hcharge : (s.count.charge gasCost).gasAvailable.val < 2 ^ 255 := by
      rw [State.gasAvailable_charge (s := s.count) hle]
      exact (Nat.sub_le _ _).trans_lt hgas
    have hcreate : (X.instr s).1 = .CREATE ∨ (X.instr s).1 = .CREATE2 →
        FailsOnly (step.create (Lambda E f)
          (step.createInput (X.instr s).1 (s.count.charge gasCost))) .OutOfFuel := by
      intro hw
      obtain ⟨c, hc⟩ := step.createInput_isSome (s := s.count.charge gasCost) hw hoperands
      rw [← step.createInput_evmState hc] at hcharge
      obtain ⟨s', hs'⟩ : ∃ s', create.body (Lambda E f) c = .ok s' :=
        create.body_returns hcharge fun _ _ => thrifty E (.Lambda f c.toΛ) trivial
      rw [hc, step.create, hs']
      exact FailsOnly.ok
    have hcall : (X.instr s).1 ∈ ([.CALL, .CALLCODE, .DELEGATECALL, .STATICCALL] : List Operation) →
        FailsOnly (step.callAndPush (call E f)
          (step.callInput (X.instr s).1 gasCost s.count)) .OutOfFuel := by
      intro hw
      obtain ⟨c, stack, hc⟩ : ∃ c stack, step.callInput (X.instr s).1 gasCost s.count =
          some (c, stack) := step.callInput_isSome hw hoperands
      rw [hc, step.callAndPush]
      exact FailsOnly.bind (call_failsOnly E f c) fun _ _ => FailsOnly.ok
    rw [step_succ]
    show FailsOnly (step.exec E (call E f) (Lambda E f) gasCost (X.instr s).1 (X.instr s).2 s.count)
      .OutOfFuel
    unfold step.exec
    split
    next hw => exact hw ▸ hcreate (.inl hw)
    next hw => exact hw ▸ hcreate (.inr hw)
    next hw => exact hw ▸ hcall (by simp [hw])
    next hw => exact hw ▸ hcall (by simp [hw])
    next hw => exact hw ▸ hcall (by simp [hw])
    next hw => exact hw ▸ hcall (by simp [hw])
    next h₁ h₂ h₃ h₄ h₅ h₆ =>
      have hop : (X.instr s).1.isCallOrCreate = false := by
        unfold Operation.isCallOrCreate
        split <;> simp_all
      exact FailsOnly.of_returns (step_returns E _ _ (s.count.charge gasCost) hvalid hop
        (fun _ h hn => X.instr_arg h hn) hoperands)

/-! ## Whole runs -/

/-- The code that runs in the frame `s`, with `f` units of fuel, gets to `s'`
with `f'` units. -/
inductive Proceeds (E : Externals) (validJumps : Array UInt256) : ℕ → State → ℕ → State → Prop
  | here (f : ℕ) (s : State) : Proceeds E validJumps f s f s
  | next {f f' cost₂ : ℕ} {s sZ s' t : State}
      (hZ : X.Z validJumps (X.instr s).1 s = .ok (sZ, cost₂))
      (hstep : step E f cost₂ (some (X.instr s)) sZ = .ok s')
      (hH : X.H s'.toMachineState (X.instr s).1 = none)
      (h : Proceeds E validJumps f s' f' t) : Proceeds E validJumps (f + 1) s f' t

/-- Code that fails runs out of fuel, or gets to an instruction that the check
turns down, or to one that fails. -/
theorem X_error {E : Externals} {validJumps : Array UInt256} {e : ExecutionException} :
    ∀ {f : ℕ} {s : State}, X E f validJumps s = .error e →
      e = .OutOfFuel ∨ ∃ f' t, Proceeds E validJumps f s f' t ∧
        (X.Z validJumps (X.instr t).1 t = .error e ∨
          ∃ n tZ cost₂, f' = n + 1 ∧ X.Z validJumps (X.instr t).1 t = .ok (tZ, cost₂) ∧
            step E n cost₂ (some (X.instr t)) tZ = .error e) := by
  intro f
  induction f with
  | zero =>
    intro s h
    rw [X] at h
    exact .inl (Except.error.inj h).symm
  | succ f ih =>
    intro s h
    rw [X_succ, X.body] at h
    cases hZ : X.Z validJumps (X.instr s).1 s with
    | error e' =>
      rw [hZ] at h
      obtain rfl := Except.error.inj h
      exact .inr ⟨_, s, .here _ s, .inl hZ⟩
    | ok r =>
      obtain ⟨sZ, cost₂⟩ := r
      rw [hZ] at h
      dsimp only at h
      cases hstep : step E f cost₂ (some (X.instr s)) sZ with
      | error e' =>
        rw [hstep] at h
        obtain rfl := Except.error.inj h
        exact .inr ⟨_, s, .here _ s, .inr ⟨f, sZ, cost₂, rfl, hZ, hstep⟩⟩
      | ok s' =>
        rw [Except.bind_of_eq_ok hstep] at h
        cases hH : X.H s'.toMachineState (X.instr s).1 with
        | none =>
          rw [hH] at h
          rcases ih h with hfuel | ⟨f', t, hproceeds, hfails⟩
          · exact .inl hfuel
          · exact .inr ⟨f', t, .next hZ hstep hH hproceeds, hfails⟩
        | some o =>
          rw [hH] at h
          dsimp only at h
          split at h <;> cases h

/-- What the code of a frame gets to is part of the run. -/
theorem Proceeds.reaches {E : Externals} {validJumps : Array UInt256} {f f' : ℕ} {s t : State}
    (h : Proceeds E validJumps f s f' t) :
    Reaches E (.X f validJumps s) (.X f' validJumps t) := by
  induction h with
  | here => exact .refl
  | next hZ hstep hH _ ih => exact .head (.X_X hZ hstep hH) ih

/-- A run with little enough gas to count it, and enough fuel for it. -/
structure Supplied (x : Υ.Input) (fuel : ℕ) : Prop where
  gas : x.T.base.gasLimit.val < 2 ^ 254
  fuel : x.need ≤ fuel

section

variable {E : Externals} {x : Υ.Input} {fuel : ℕ}

theorem Supplied.need_le (h : Supplied x fuel) {j : Invocation} (hj : Reaches E (x.top fuel) j) :
    j.Covered ∧ j.need < 2 ^ 255 := by
  have htop := x.top_enough h.fuel
  have hneed : (x.top fuel).need = x.need := by
    unfold Υ.Input.top
    split <;> rfl
  have hg : x.g.val ≤ x.T.base.gasLimit.val :=
    (UInt256.val_ofNat_le _).trans (Nat.sub_le _ _)
  have hgas := h.gas
  obtain ⟨hcovered, hle⟩ := htop.1.need_le hj
  refine ⟨hcovered, ?_⟩
  rw [hneed, Υ.Input.need] at hle
  omega

theorem Supplied.complete (h : Supplied x fuel) : (x.top fuel).Complete E :=
  (x.top_enough h.fuel).complete

/-- An instruction that is executed returns. -/
theorem Supplied.step_returns (h : Supplied x fuel) {f gasCost : ℕ}
    {instr : Option (Operation × Option (UInt256 × ℕ))} {s : State}
    (hj : Reaches E (x.top fuel) (.step f gasCost instr s)) :
    instr = some (X.instr s) ∧
      ∃ s', step E f gasCost instr s = .ok s' ∧ Follows (X.instr s).1 s s' := by
  obtain ⟨-, hready, rfl⟩ := (x.top_regular fuel).of_reaches hj
  obtain ⟨hcovered, hneed⟩ := h.need_le hj
  have hgas : s.gasAvailable.val < 2 ^ 255 := (Nat.lt_succ_self _).trans hneed
  obtain ⟨s', hs'⟩ := (step_failsOnly hready hcovered hgas).returns (h.complete _ hj)
  exact ⟨rfl, s', hs', step_follows hready.1 hready.2 (fun _ h hn => X.instr_arg h hn) hs'⟩

/-- Code that halts exceptionally has been turned down by the check. -/
theorem Supplied.X_error (h : Supplied x fuel) {f : ℕ} {validJumps : Array UInt256} {s : State}
    {e : ExecutionException} (hj : Reaches E (x.top fuel) (.X f validJumps s))
    (he : X E f validJumps s = .error e) :
    ∃ f' t, Proceeds E validJumps f s f' t ∧ X.Z validJumps (X.instr t).1 t = .error e := by
  rcases EVM.X_error he with rfl | ⟨f', t, hproceeds, hfails⟩
  · exact absurd he (h.complete _ hj)
  · rcases hfails with hZ | ⟨n, tZ, cost₂, rfl, hZ, hstep⟩
    · exact ⟨f', t, hproceeds, hZ⟩
    · have ht : Reaches E (x.top fuel) (.step n cost₂ (some (X.instr t)) tZ) :=
        (hj.trans hproceeds.reaches).tail (.X_step hZ)
      obtain ⟨-, t', ht', -⟩ := h.step_returns ht
      rw [ht'] at hstep
      cases hstep

end

/-- **Instructions never get stuck.**  In the run of a transaction with enough
fuel every instruction that is executed is the one at the program counter, and
it succeeds: it takes `δ` items off the stack and puts `α` onto it, leaves those
below, and leads to the next boundary, or to where it jumps. -/
theorem instructions_never_get_stuck (E : Externals) {x : Υ.Input} {fuel : ℕ}
    (h : Supplied x fuel) {f gasCost : ℕ} {instr : Option (Operation × Option (UInt256 × ℕ))}
    {s : State} (hj : Reaches E (x.top fuel) (.step f gasCost instr s)) :
    instr = some (X.instr s) ∧
      ∃ s', step E f gasCost instr s = .ok s' ∧ Follows (X.instr s).1 s s' :=
  h.step_returns hj

/-- A call of a contract that jumps over a byte: `PUSH1 4 JUMP INVALID JUMPDEST`. -/
def callJumping : Υ.Input :=
  { callSelfdestructing with
    σ := callSelfdestructing.σ.insert 0xc0de
      { (default : Account) with code := ⟨#[0x60, 0x04, 0x56, 0xfe, 0x5b]⟩ } }

/-- The jump takes its target off the stack and goes there. -/
theorem instructions_never_get_stuck_callJumping :
    ∃ f gasCost s s',
      Reaches (Frame.aimedAt 0) (callJumping.top 100000) (.step f gasCost (some (.JUMP, none)) s) ∧
      step (Frame.aimedAt 0) f gasCost (some (.JUMP, none)) s = .ok s' ∧
      s.stack = [4] ∧ s'.stack = [] ∧ s'.pc = 4 := by
  let s := (callJumping.toΘ 0xc0de).toΞ.fresh
  let validJumps := D_J s.executionEnv.code 0
  have hrun : (advances (Frame.aimedAt 0) validJumps 1 99997 s).map (fun t =>
      (X.instr t, t.stack, (X.Z validJumps (X.instr t).1 t).isOk)) =
        some ((.JUMP, none), [4], true) := by decide +kernel
  obtain ⟨t, ht, hfacts⟩ := Option.map_eq_some_iff.1 hrun
  obtain ⟨hinstr, hrest⟩ := Prod.mk.inj hfacts
  obtain ⟨hstack, hpasses⟩ := Prod.mk.inj hrest
  have hcode : Reaches (Frame.aimedAt 0) (callJumping.top 100000) (.X 99998 validJumps s) :=
    callJumping.reaches_code rfl (by decide) _ 99998
  cases hZ : X.Z validJumps (X.instr t).1 t with
  | error e => rw [hZ] at hpasses; cases hpasses
  | ok r =>
    have hstep := (hcode.trans (reaches_of_advances ht)).tail (.X_step hZ)
    have hsupplied : Supplied callJumping 100000 := ⟨by decide +kernel, by decide +kernel⟩
    obtain ⟨-, s', hs', hfollows⟩ := instructions_never_get_stuck _ hsupplied hstep
    have hcharged : X.instr r.1 = X.instr t ∧ r.1.stack = t.stack := by
      obtain ⟨tZ, cost₂⟩ := r
      obtain rfl := X.Z_state hZ
      exact ⟨rfl, rfl⟩
    rw [hcharged.1, hinstr] at hfollows
    rw [hinstr] at hs' hstep
    have hrest : s'.stack.drop 0 = r.1.stack.drop 1 := hfollows.stack.rest
    have hpc : s'.pc = r.1.stack[0]! := hfollows.pc
    rw [hcharged.2, hstack] at hrest hpc
    exact ⟨_, _, r.1, s', hstep, hs', hcharged.2.trans hstack, hrest, hpc⟩

/-- **Frames fail at the check.**  In the run of a transaction with enough fuel,
code that halts exceptionally has got to an instruction that the check before it
turns down, with just that exception. -/
theorem frames_fail_at_the_check (E : Externals) {x : Υ.Input} {fuel : ℕ}
    (h : Supplied x fuel) {f : ℕ} {validJumps : Array UInt256} {s : State}
    {e : ExecutionException} (hj : Reaches E (x.top fuel) (.X f validJumps s))
    (he : X E f validJumps s = .error e) :
    ∃ f' t, Proceeds E validJumps f s f' t ∧ X.Z validJumps (X.instr t).1 t = .error e :=
  h.X_error hj he

/-- A call of a contract that pops once too often: `CALLDATASIZE POP POP`. -/
def callPopping : Υ.Input :=
  { callSelfdestructing with
    σ := callSelfdestructing.σ.insert 0xc0de
      { (default : Account) with code := ⟨#[0x36, 0x50, 0x50]⟩ } }

/-- Its first instruction passes the check; the stack underflow is found there
two instructions later. -/
theorem frames_fail_at_the_check_callPopping :
    let s := (callPopping.toΘ 0xc0de).toΞ.fresh
    (X.Z (D_J s.executionEnv.code 0) (X.instr s).1 s).isOk = true ∧
      ∃ f' t, Proceeds (Frame.aimedAt 0) (D_J s.executionEnv.code 0) 99998 s f' t ∧
        X.Z (D_J s.executionEnv.code 0) (X.instr t).1 t = .error .StackUnderflow := by
  intro s
  let validJumps := D_J s.executionEnv.code 0
  have hsupplied : Supplied callPopping 100000 := ⟨by decide +kernel, by decide +kernel⟩
  have hX : Reaches (Frame.aimedAt 0) (callPopping.top 100000) (.X 99998 validJumps s) :=
    callPopping.reaches_code rfl (by decide) _ 99998
  have hrun : (advances (Frame.aimedAt 0) validJumps 2 99996 s).map (fun t =>
      match X.Z validJumps (X.instr t).1 t with
      | .error e => decide (e = .StackUnderflow)
      | .ok _ => false) = some true := by decide +kernel
  obtain ⟨t, ht, hZ⟩ := Option.map_eq_some_iff.1 hrun
  have hfails : X (Frame.aimedAt 0) 99998 validJumps s = .error .StackUnderflow := by
    refine (X_of_advances ht).trans ?_
    rw [X_succ, X.body]
    split at hZ
    next e he =>
      rw [he]
      exact congrArg Except.error (of_decide_eq_true hZ)
    · cases hZ
  exact ⟨by decide +kernel, frames_fail_at_the_check _ hsupplied hX hfails⟩

/-! ## Transactions -/

/-- More fuel than a transaction needs changes nothing. -/
theorem Υ_eq_of_need_le (E : Externals) {x : Υ.Input} {fuel : ℕ} (h : x.need ≤ fuel) :
    Υ E fuel x = Υ E x.need x := by
  obtain ⟨n, rfl⟩ := Nat.exists_eq_add_of_le h
  exact Υ_eq_of_complete (x.top_enough le_rfl).complete n

/-- The fuel it needs is enough. -/
theorem Υ_need_returns (E : Externals) (x : Υ.Input) : ∃ r, Υ E x.need x = .ok r := by
  have htop := (x.top_enough le_rfl).complete (E := E) _ .refl
  have hrun : ∃ r, x.run E x.need = .ok r := by
    unfold Υ.Input.top at htop
    unfold Υ.Input.run
    cases hT : x.T.base.recipient with
    | none =>
      rw [hT] at htop
      obtain ⟨r, hr⟩ := (Lambda_failsOnly E x.need x.toΛ).returns htop
      simp only [hr]
      exact ⟨_, rfl⟩
    | some t =>
      rw [hT] at htop
      obtain ⟨r, hr⟩ := (Θ_failsOnly E x.need (x.toΘ t)).returns htop
      simp only [hr]
      exact ⟨_, rfl⟩
  obtain ⟨r, hr⟩ := hrun
  unfold Υ
  rw [hr]
  exact ⟨_, rfl⟩

/-- **A transaction returns**, whatever the code that runs does: with four units
of fuel more than it has gas, and with any amount more, it has one result. -/
theorem transactions_return (E : Externals) (x : Υ.Input) :
    ∃ r, ∀ n, Υ E (x.need + n) x = .ok r := by
  obtain ⟨r, hr⟩ := Υ_need_returns E x
  exact ⟨r, fun n => (Υ_eq_of_need_le E (Nat.le_add_right _ n)).trans hr⟩

end EVM
end EvmYul
