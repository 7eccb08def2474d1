import EvmModel.Frames

/-!
# The recursion as a relation

`Yields E i w` is a big-step semantics of the machine on worlds: one rule for
each way a body can end, with the invocations the body makes as premises.  It
says what can become of the world, and forgets gas, memory, stack and output.

`Returned.yields` is the link to the functions: every world an invocation hands
on is one it yields.  It is proved once, by the induction over the recursion; an
invariant of runs is then an induction over `Yields`, with one case for each
rule.
-/

namespace EvmYul
namespace EVM

/-- `i` can hand on the world `w`. -/
inductive Yields (E : Externals) : Invocation → World → Prop
  /-- Too little balance, or too deep: no call is made. -/
  | call_refused {f : ℕ} {c : call.Input} (h : ¬c.allowed) :
      Yields E (.call (f + 1) c) c.refused.world
  | call_made {f : ℕ} {c : call.Input} {w : World} (h : c.allowed)
      (hΘ : Yields E (.Θ f c.toΘ) w) : Yields E (.call (f + 1) c) w
  /-- An instruction that calls nobody. -/
  | step_instr {f gasCost : ℕ} {instr : Option (Operation × Option (UInt256 × ℕ))} {s s' : State}
      {p : Operation × Option (UInt256 × ℕ)} (hfetch : step.fetch instr s = .ok p)
      (hop : p.1.isCallOrCreate = false)
      (h : EvmYul.step E p.1 p.2 (s.count.charge gasCost) = .ok s') :
      Yields E (.step (f + 1) gasCost instr s) s'.world
  | step_call {f gasCost : ℕ} {instr : Option (Operation × Option (UInt256 × ℕ))} {s : State}
      {p : Operation × Option (UInt256 × ℕ)} {c : call.Input} {stack : Stack} {w : World}
      (hfetch : step.fetch instr s = .ok p)
      (hcall : step.callInput p.1 gasCost s.count = some (c, stack))
      (h : Yields E (.call f c) w) : Yields E (.step (f + 1) gasCost instr s) w
  /-- A creation that is not made, or that ends in an exception. -/
  | step_not_created {f gasCost : ℕ} {instr : Option (Operation × Option (UInt256 × ℕ))}
      {s : State} {p : Operation × Option (UInt256 × ℕ)} {c : create.Input}
      (hfetch : step.fetch instr s = .ok p)
      (hcreate : step.createInput p.1 (s.count.charge gasCost) = some c) :
      Yields E (.step (f + 1) gasCost instr s) s.world
  | step_created {f gasCost : ℕ} {instr : Option (Operation × Option (UInt256 × ℕ))} {s : State}
      {p : Operation × Option (UInt256 × ℕ)} {c : create.Input} {w : World}
      (hfetch : step.fetch instr s = .ok p)
      (hcreate : step.createInput p.1 (s.count.charge gasCost) = some c)
      (hnonce : ¬2 ^ 64 - 1 ≤ c.σ_Iₐ.nonce.val) (hallowed : c.allowed)
      (h : Yields E (.Lambda f c.toΛ) w) : Yields E (.step (f + 1) gasCost instr s) w
  /-- The last instruction of the code. -/
  | X_halt {f : ℕ} {validJumps : Array UInt256} {s sZ s' : State} {cost₂ : ℕ}
      (hZ : X.Z validJumps (X.instr s).1 s = .ok (sZ, cost₂))
      (hstep : Yields E (.step f cost₂ (some (X.instr s)) sZ) s'.world) :
      Yields E (.X (f + 1) validJumps s) s'.world
  | X_next {f : ℕ} {validJumps : Array UInt256} {s sZ s' : State} {cost₂ : ℕ} {w : World}
      (hZ : X.Z validJumps (X.instr s).1 s = .ok (sZ, cost₂))
      (hs' : step E f cost₂ (some (X.instr s)) sZ = .ok s')
      (hH : X.H s'.toMachineState (X.instr s).1 = none)
      (hstep : Yields E (.step f cost₂ (some (X.instr s)) sZ) s'.world)
      (hX : Yields E (.X f validJumps s') w) : Yields E (.X (f + 1) validJumps s) w
  | Ξ_code {f : ℕ} {x : Ξ.Input} {w : World} (h : Yields E (.X f (D_J x.I.code 0) x.fresh) w) :
      Yields E (.Ξ (f + 1) x) w
  /-- The initialisation code ends in an exception, or reverts. -/
  | Lambda_failed {f : ℕ} {x : Lambda.Input} {lₐ : ByteArray}
      (hlₐ : Lambda.L_A E x.s x.n x.ζ x.i = some lₐ) :
      Yields E (.Lambda (f + 1) x) ⟨x.σ, x.created (Lambda.address E lₐ),
        x.AStar (Lambda.address E lₐ)⟩
  /-- The initialisation code succeeds, and its output is not deposited. -/
  | Lambda_discarded {f : ℕ} {x : Lambda.Input} {lₐ : ByteArray} {w : World}
      (hlₐ : Lambda.L_A E x.s x.n x.ζ x.i = some lₐ)
      (h : Yields E (.Ξ f (x.toΞ (Lambda.address E lₐ))) w) :
      Yields E (.Lambda (f + 1) x) ⟨x.σ, w.createdAccounts, x.AStar (Lambda.address E lₐ)⟩
  | Lambda_deposited {f : ℕ} {x : Lambda.Input} {lₐ : ByteArray} {w : World} {g : UInt256}
      {d : ByteArray} (hlₐ : Lambda.L_A E x.s x.n x.ζ x.i = some lₐ)
      (hF : ¬x.F (Lambda.address E lₐ) g d)
      (h : Yields E (.Ξ f (x.toΞ (Lambda.address E lₐ))) w) :
      Yields E (.Lambda (f + 1) x)
        ⟨w.σ.insert (Lambda.address E lₐ)
          { w.σ.getD (Lambda.address E lₐ) default with code := d }, w.createdAccounts, w.A⟩
  /-- The code ends in an exception, or reverts. -/
  | Θ_failed {f : ℕ} {x : Θ.Input} : Yields E (.Θ (f + 1) x) ⟨x.σ, x.createdAccounts, x.A⟩
  /-- A precompiled contract fails; the created accounts are forgotten. -/
  | Θ_precompiled_failed {f : ℕ} {x : Θ.Input} : Yields E (.Θ (f + 1) x) ⟨x.σ, ∅, x.A⟩
  | Θ_precompiled {f : ℕ} {x : Θ.Input} : Yields E (.Θ (f + 1) x) ⟨x.σ₁, ∅, x.A⟩
  | Θ_code {f : ℕ} {x : Θ.Input} {code : ByteArray} {w : World} (hc : x.c = .Code code)
      (h : Yields E (.Ξ f x.toΞ) w) : Yields E (.Θ (f + 1) x) w
  /-- An empty account map stands for a failure, also after code that succeeds. -/
  | Θ_emptied {f : ℕ} {x : Θ.Input} {code : ByteArray} {w : World} (hc : x.c = .Code code)
      (h : Yields E (.Ξ f x.toΞ) w) : Yields E (.Θ (f + 1) x) ⟨x.σ, w.createdAccounts, x.A⟩

/-! ## How the bodies end -/

theorem step.callInput_evmState {instr : Operation} {gasCost : ℕ} {s : State} {c : call.Input}
    {stack : Stack} (h : step.callInput instr gasCost s = some (c, stack)) : c.evmState = s := by
  unfold step.callInput at h
  split at h <;> cases h <;> rfl

theorem step.callInput_gasCost {instr : Operation} {gasCost : ℕ} {s : State} {c : call.Input}
    {stack : Stack} (h : step.callInput instr gasCost s = some (c, stack)) :
    c.gasCost = gasCost := by
  unfold step.callInput at h
  split at h <;> cases h <;> rfl

theorem step.createInput_evmState {instr : Operation} {s : State} {c : create.Input}
    (h : step.createInput instr s = some c) : c.evmState = s := by
  unfold step.createInput at h
  split at h <;> cases h <;> rfl

theorem step.callInput_world {w : Operation} {gasCost : ℕ} {s : State} {c : call.Input}
    {stack : Stack} (h : step.callInput w gasCost s.count = some (c, stack)) :
    c.evmState.world = s.world := by
  rw [step.callInput_evmState h]
  rfl

theorem step.createInput_world {w : Operation} {gasCost : ℕ} {s : State} {c : create.Input}
    (h : step.createInput w (s.count.charge gasCost) = some c) : c.evmState.world = s.world := by
  rw [step.createInput_evmState h]
  rfl

theorem step.createInput_isCreate {w : Operation} {s : State} {c : create.Input}
    (h : step.createInput w s = some c) : w.isCreate := by
  unfold step.createInput at h
  split at h <;> cases h <;> rfl

/-- A creation leaves the world as it is, or as the new contract leaves it; the
environment is the one of the creator. -/
theorem create.body_cases {runΛ : Lambda.Input → Except ExecutionException Lambda.Result}
    {c : create.Input} {s' : State} (h : create.body runΛ c = .ok s') :
    s'.executionEnv = c.evmState.executionEnv ∧
    (s'.world = c.evmState.world ∨
      ¬2 ^ 64 - 1 ≤ c.σ_Iₐ.nonce.val ∧ c.allowed ∧
        ∃ r, runΛ c.toΛ = .ok r ∧ s'.world = r.world) := by
  have hattempt : (c.attempt runΛ).2.1.executionEnv = c.evmState.executionEnv ∧
      ((c.attempt runΛ).2.1.world = c.evmState.world ∨
        ¬2 ^ 64 - 1 ≤ c.σ_Iₐ.nonce.val ∧ c.allowed ∧
          ∃ r, runΛ c.toΛ = .ok r ∧ (c.attempt runΛ).2.1.world = r.world) := by
    unfold create.Input.attempt
    dsimp only
    split
    · exact ⟨rfl, .inl rfl⟩
    next hnonce =>
      split
      next hallowed =>
        cases hr : runΛ c.toΛ with
        | error e => exact ⟨rfl, .inl rfl⟩
        | ok r => exact ⟨rfl, .inr ⟨hnonce, hallowed, r, rfl, rfl⟩⟩
      · exact ⟨rfl, .inl rfl⟩
  unfold create.body at h
  dsimp only at h
  split at h
  · cases h
  · cases h
    exact hattempt

/-- The three kinds of instructions. -/
theorem step.body_cases {E : Externals}
    {runCall : call.Input → Except ExecutionException (UInt256 × State)}
    {runΛ : Lambda.Input → Except ExecutionException Lambda.Result} {gasCost : ℕ}
    {instr : Option (Operation × Option (UInt256 × ℕ))} {s s' : State}
    (h : step.body E runCall runΛ gasCost instr s = .ok s') :
    ∃ p, step.fetch instr s = .ok p ∧
      ((∃ c, step.createInput p.1 (s.count.charge gasCost) = some c ∧
        create.body runΛ c = .ok s') ∨
      (∃ c stack r, step.callInput p.1 gasCost s.count = some (c, stack) ∧ runCall c = .ok r ∧
        s' = r.2.replaceStackAndIncrPC (r.1 :: stack)) ∨
      (p.1.isCallOrCreate = false ∧
        EvmYul.step E p.1 p.2 (s.count.charge gasCost) = .ok s')) := by
  obtain ⟨p, hp, h⟩ := Except.bind_eq_ok_iff.1 h
  refine ⟨p, hp, ?_⟩
  have hcreate : ∀ o, step.create runΛ o = .ok s' → ∃ c, o = some c ∧ create.body runΛ c = .ok s' := by
    rintro (_ | c) ho
    · cases ho
    · exact ⟨c, rfl, ho⟩
  have hcalls : ∀ o, step.callAndPush runCall o = .ok s' → ∃ c stack r,
      o = some (c, stack) ∧ runCall c = .ok r ∧ s' = r.2.replaceStackAndIncrPC (r.1 :: stack) := by
    rintro (_ | ⟨c, stack⟩) ho
    · cases ho
    · obtain ⟨r, hr, ho⟩ := Except.bind_eq_ok_iff.1 ho
      exact ⟨c, stack, r, rfl, hr, (Except.ok.inj ho).symm⟩
  unfold step.exec at h
  split at h
  case h_1 | h_2 => exact .inl (hcreate _ h)
  case h_3 | h_4 | h_5 | h_6 => exact .inr (.inl (hcalls _ h))
  case h_7 h₁ h₂ h₃ h₄ h₅ h₆ =>
    have hop : p.1.isCallOrCreate = false := by
      unfold Operation.isCallOrCreate
      split <;> simp_all
    exact .inr (.inr ⟨hop, h⟩)

/-- What the check for exceptional halting guarantees of an instruction and
hands on: the state with the memory paid for, and the cost. -/
structure X.Passed (validJumps : Array UInt256) (w : Operation) (s : State) (r : State × ℕ) :
    Prop where
  state : r.1 = s.charge (memoryExpansionCost s w)
  cost : r.2 = C' r.1 w
  memory_paid : memoryExpansionCost s w ≤ s.gasAvailable.val
  paid : r.2 ≤ r.1.gasAvailable.val
  valid : δ w ≠ none
  operands : (δ w).getD 0 ≤ s.stack.length
  jump : w = .JUMP → X.belongs s.stack[0]? validJumps
  jumpi : w = .JUMPI → s.stack[1]? ≠ some 0 → X.belongs s.stack[0]? validJumps
  room : s.stack.length - (δ w).getD 0 + (α w).getD 0 ≤ 1024
  permitted : s.executionEnv.perm = false → ¬X.W w s.stack

theorem X.Z_spec (validJumps : Array UInt256) (w : Operation) (s : State) :
    Ensures (X.Z validJumps w s) (X.Passed validJumps w s) := by
  unfold X.Z
  dsimp only
  refine Ensures.ite (fun _ => Ensures.error) fun hmemory => ?_
  refine Ensures.ite (fun _ => Ensures.error) fun hgas => ?_
  refine Ensures.ite (fun _ => Ensures.error) fun hvalid => ?_
  refine Ensures.ite (fun _ => Ensures.error) fun hoperands => ?_
  refine Ensures.ite (fun _ => Ensures.error) fun hjump => ?_
  refine Ensures.ite (fun _ => Ensures.error) fun hjumpi => ?_
  refine Ensures.ite (fun _ => Ensures.error) fun _ => ?_
  refine Ensures.ite (fun _ => Ensures.error) fun hroom => ?_
  refine Ensures.ite (fun _ => Ensures.error) fun hstatic => ?_
  iterate 2 refine Ensures.ite (fun _ => Ensures.error) fun _ => ?_
  refine Ensures.ok_iff.2 ⟨rfl, rfl, not_lt.1 hmemory, not_lt.1 hgas, hvalid, not_lt.1 hoperands,
    fun hw => ?_, fun hw hne => ?_, not_lt.1 hroom, fun hperm hW => hstatic ⟨?_, hW⟩⟩
  · by_contra hb
    refine hjump ⟨hw, ?_⟩
    show (!X.belongs s.stack[0]? validJumps) = true
    simpa using hb
  · by_contra hb
    refine hjumpi ⟨hw, hne, ?_⟩
    show (!X.belongs s.stack[0]? validJumps) = true
    simpa using hb
  · show ¬s.executionEnv.perm = true
    simp [hperm]

theorem X.Z_state {validJumps : Array UInt256} {w : Operation} {s sZ : State} {cost₂ : ℕ}
    (h : X.Z validJumps w s = .ok (sZ, cost₂)) : sZ = s.charge (memoryExpansionCost s w) :=
  (X.Z_spec validJumps w s _ h).state

/-- The check changes nothing but the gas. -/
theorem X.Z_world {validJumps : Array UInt256} {w : Operation} {s sZ : State} {cost₂ : ℕ}
    (h : X.Z validJumps w s = .ok (sZ, cost₂)) : sZ.world = s.world := by
  rw [X.Z_state h]
  rfl

/-- The code halts after this instruction, or goes on. -/
theorem X.body_cases
    {runStep : ℕ → Option (Operation × Option (UInt256 × ℕ)) → State →
      Except ExecutionException State}
    {runX : State → Except ExecutionException (ExecutionResult State)}
    {validJumps : Array UInt256} {s t : State} {o : ByteArray}
    (h : X.body runStep runX validJumps s = .ok (.success t o)) :
    ∃ sZ cost₂ s', X.Z validJumps (X.instr s).1 s = .ok (sZ, cost₂) ∧
      runStep cost₂ (some (X.instr s)) sZ = .ok s' ∧
      (t = s' ∨ X.H s'.toMachineState (X.instr s).1 = none ∧ runX s' = .ok (.success t o)) := by
  unfold X.body at h
  dsimp only at h
  split at h
  · cases h
  next sZ cost₂ hZ =>
    obtain ⟨s', hs', h⟩ := Except.bind_eq_ok_iff.1 h
    refine ⟨sZ, cost₂, s', hZ, hs', ?_⟩
    split at h
    next hH => exact .inr ⟨hH, h⟩
    · split at h
      · cases h
      · cases h
        exact .inl rfl

/-- The initialisation code fails, is discarded, or is deposited. -/
theorem Lambda.body_cases {E : Externals}
    {runΞ : Ξ.Input → Except ExecutionException (ExecutionResult Ξ.Outcome)} {x : Lambda.Input}
    {r : Lambda.Result} (h : Lambda.body E runΞ x = .ok r) :
    ∃ lₐ, Lambda.L_A E x.s x.n x.ζ x.i = some lₐ ∧
      (r.world = ⟨x.σ, x.created (Lambda.address E lₐ), x.AStar (Lambda.address E lₐ)⟩ ∨
      ∃ ξ d, runΞ (x.toΞ (Lambda.address E lₐ)) = .ok (.success ξ d) ∧
        (r.world = ⟨x.σ, ξ.createdAccounts, x.AStar (Lambda.address E lₐ)⟩ ∨
        ¬x.F (Lambda.address E lₐ) ξ.g d ∧
          r.world = ⟨ξ.σ.insert (Lambda.address E lₐ)
            { ξ.σ.getD (Lambda.address E lₐ) default with code := d }, ξ.createdAccounts, ξ.A⟩)) := by
  unfold Lambda.body at h
  split at h
  · cases h
  next lₐ hlₐ =>
    refine ⟨lₐ, hlₐ, ?_⟩
    dsimp only at h
    split at h
    · split at h
      · cases h
      · cases h
        exact .inl rfl
    · cases h
      exact .inl rfl
    next ξ d hξ =>
      cases h
      refine .inr ⟨ξ, d, hξ, ?_⟩
      unfold Lambda.Input.deposit
      split
      · exact .inl rfl
      next hF => exact .inr ⟨hF, rfl⟩

/-- An empty account map is replaced by the one before the call; any other is
taken over. -/
theorem Θ.Input.finish_cases (x : Θ.Input) (cA : AddrSet) (r : PrecompiledResult) :
    (x.finish cA r).world = ⟨x.σ, cA, x.A⟩ ∨
    r.2.1.isEmpty = false ∧ (x.finish cA r).world = ⟨r.2.1, cA, r.2.2.2.1⟩ := by
  obtain ⟨z, σ'', g', A'', out⟩ := r
  cases h : σ''.isEmpty with
  | true => exact .inl (by simp [Θ.Input.finish, Θ.Result.world, h])
  | false => exact .inr ⟨rfl, by simp [Θ.Input.finish, Θ.Result.world, h]⟩

/-- A precompiled contract runs, or the code of the recipient; a failure
restores the world. -/
theorem Θ.body_cases {E : Externals}
    {runΞ : Ξ.Input → Except ExecutionException (ExecutionResult Ξ.Outcome)} {x : Θ.Input}
    {r : Θ.Result} (h : Θ.body E runΞ x = .ok r) :
    r.world = ⟨x.σ, x.createdAccounts, x.A⟩ ∨ r.world = ⟨x.σ, ∅, x.A⟩ ∨
    r.world = ⟨x.σ₁, ∅, x.A⟩ ∨
    ∃ code ξ o, x.c = .Code code ∧ runΞ x.toΞ = .ok (.success ξ o) ∧
      (r.world = ξ.world ∨ r.world = ⟨x.σ, ξ.createdAccounts, x.A⟩) := by
  obtain ⟨p, hp, hr⟩ := Except.bind_eq_ok_iff.1 h
  obtain rfl := Except.ok.inj hr
  have hfinish := x.finish_cases p.1 p.2
  unfold Θ.Input.execute at hp
  split at hp
  · -- a precompiled contract forgets the created accounts
    obtain ⟨p', hp', hcA, hpure⟩ := applyPrecompile_spec E x.σ₁ x.g x.A x.I _
    obtain rfl := Except.ok.inj (hp'.symm.trans hp)
    rcases hfinish with hw | ⟨hne, hw⟩
    · exact .inr (.inl (hw.trans (by rw [hcA])))
    · rcases hpure with hempty | ⟨hσ, hA⟩
      · rw [hempty] at hne
        cases hne
      · exact .inr (.inr (.inl (hw.trans (by rw [hcA, hσ, hA]))))
  next code hc =>
    -- a failed execution hands `finish` the world before the call
    have hfailed : ∀ {p : AddrSet × PrecompiledResult}, p.1 = x.createdAccounts → p.2.2.1 = x.σ →
        p.2.2.2.2.1 = x.A → (x.finish p.1 p.2).world = ⟨x.σ, x.createdAccounts, x.A⟩ := by
      intro p hcA hσ hA
      rcases x.finish_cases p.1 p.2 with hw | ⟨-, hw⟩
      · exact hw.trans (by rw [hcA])
      · exact hw.trans (by rw [hcA, hσ, hA])
    split at hp
    · split at hp
      · cases hp
      · cases hp
        exact .inl (hfailed rfl rfl rfl)
    · cases hp
      exact .inl (hfailed rfl rfl rfl)
    next ξ o hξ =>
      cases hp
      refine .inr (.inr (.inr ⟨code, ξ, o, hc, hξ, ?_⟩))
      exact hfinish.symm.imp And.right id

/-- A frame keeps its environment: a call or creation gives it back. -/
theorem step_executionEnv {E : Externals} {f gasCost : ℕ}
    {instr : Option (Operation × Option (UInt256 × ℕ))} {s s' : State}
    (h : step E f gasCost instr s = .ok s') : s'.executionEnv = s.executionEnv := by
  cases f with
  | zero => rw [step] at h; cases h
  | succ f =>
    rw [step_succ] at h
    obtain ⟨p, hp, ⟨c, hc, h⟩ | ⟨c, stack, r, hc, hr, rfl⟩ | ⟨hop, h⟩⟩ := step.body_cases h
    · rw [(create.body_cases h).1, step.createInput_evmState hc]
      rfl
    · show r.2.executionEnv = s.executionEnv
      cases f with
      | zero => rw [call] at hr; cases hr
      | succ f =>
        rw [call_succ] at hr
        obtain ⟨ρ, -, hr⟩ := Except.bind_eq_ok_iff.1 hr
        obtain rfl := Except.ok.inj hr
        show c.evmState.executionEnv = s.executionEnv
        rw [step.callInput_evmState hc]
        rfl
    · exact (step_env E p.1 p.2 hop s' h).1

/-! ## The functions refine the relation -/

/-- **Every world an invocation hands on is one it yields.** -/
theorem Returned.yields {E : Externals} {i : Invocation} {w : World} (hw : Returned E i w) :
    Yields E i w := by
  induction i using Invokes.induction E generalizing w with
  | h i ih =>
    cases i with
    | call f c =>
      obtain ⟨r, hr, rfl⟩ := hw
      cases f with
      | zero => rw [EVM.call] at hr; cases hr
      | succ f =>
        rw [call_succ] at hr
        obtain ⟨ρ, hρ, hr⟩ := Except.bind_eq_ok_iff.1 hr
        obtain rfl := Except.ok.inj hr
        unfold call.Input.attempt at hρ
        split at hρ
        next hallowed => exact .call_made hallowed (ih _ (.call_Θ hallowed) ⟨ρ, hρ, rfl⟩)
        next hrefused =>
          obtain rfl := Except.ok.inj hρ
          exact .call_refused hrefused
    | step f gasCost instr s =>
      obtain ⟨s', hs', rfl⟩ := hw
      cases f with
      | zero => rw [EVM.step] at hs'; cases hs'
      | succ f =>
        rw [step_succ] at hs'
        obtain ⟨p, hp, ⟨c, hc, h⟩ | ⟨c, stack, r, hc, hr, rfl⟩ | ⟨hop, h⟩⟩ := step.body_cases hs'
        · rcases (create.body_cases h).2 with hw | ⟨hnonce, hallowed, r, hr, hw⟩
          · rw [hw, step.createInput_evmState hc]
            exact .step_not_created hp hc
          · rw [hw]
            have hinv := Invokes.step_Lambda (E := E) (f := f) hp hc hnonce hallowed
            exact .step_created hp hc hnonce hallowed (ih _ hinv ⟨r, hr, rfl⟩)
        · exact .step_call hp hc (ih _ (.step_call hp hc) ⟨r, hr, rfl⟩)
        · exact .step_instr hp hop h
    | X f validJumps s =>
      obtain ⟨t, o, ht, rfl⟩ := hw
      cases f with
      | zero => rw [EVM.X] at ht; cases ht
      | succ f =>
        rw [X_succ] at ht
        obtain ⟨sZ, cost₂, s', hZ, hs', h⟩ := X.body_cases ht
        have hstep := ih _ (.X_step hZ) ⟨s', hs', rfl⟩
        rcases h with rfl | ⟨hH, hX⟩
        · exact .X_halt hZ hstep
        · exact .X_next hZ hs' hH hstep (ih _ (.X_X hZ hs' hH) ⟨t, o, hX, rfl⟩)
    | Ξ f x =>
      obtain ⟨r, o, hr, rfl⟩ := hw
      cases f with
      | zero => rw [EVM.Ξ] at hr; cases hr
      | succ f =>
        rw [Ξ_succ] at hr
        obtain ⟨result, hX, hr⟩ := Except.bind_eq_ok_iff.1 hr
        cases result with
        | revert g o => cases hr
        | success s' o =>
          cases hr
          exact .Ξ_code (ih _ .Ξ_X ⟨s', o, hX, rfl⟩)
    | Lambda f x =>
      obtain ⟨r, hr, rfl⟩ := hw
      cases f with
      | zero => rw [EVM.Lambda] at hr; cases hr
      | succ f =>
        rw [Lambda_succ] at hr
        obtain ⟨lₐ, hlₐ, hw | ⟨ξ, d, hξ, hw | ⟨hF, hw⟩⟩⟩ := Lambda.body_cases hr
        · exact hw ▸ .Lambda_failed hlₐ
        · exact hw ▸ .Lambda_discarded hlₐ (ih _ (.Lambda_Ξ hlₐ) ⟨ξ, d, hξ, rfl⟩)
        · exact hw ▸ .Lambda_deposited hlₐ hF (ih _ (.Lambda_Ξ hlₐ) ⟨ξ, d, hξ, rfl⟩)
    | Θ f x =>
      obtain ⟨r, hr, rfl⟩ := hw
      cases f with
      | zero => rw [EVM.Θ] at hr; cases hr
      | succ f =>
        rw [Θ_succ] at hr
        obtain hw | hw | hw | ⟨code, ξ, o, hc, hξ, hw⟩ := Θ.body_cases hr
        · exact hw ▸ .Θ_failed
        · exact hw ▸ .Θ_precompiled_failed
        · exact hw ▸ .Θ_precompiled
        · have hyields := ih _ (.Θ_Ξ hc) ⟨ξ, o, hξ, rfl⟩
          rcases hw with hw | hw
          · exact hw ▸ .Θ_code hc hyields
          · exact hw ▸ .Θ_emptied hc hyields

/-! ## Invariants of runs -/

/-- A condition that the invocations a body makes inherit, and an order their
worlds respect, hold throughout the run. -/
theorem Reaches.carries {E : Externals} {P : Invocation → Prop} {R : World → World → Prop}
    (hrefl : ∀ w, R w w) (htrans : ∀ {u v w}, R u v → R v w → R u w)
    (hinvokes : ∀ {i j}, P i → Invokes E i j → P j ∧ R i.world j.world) {i j : Invocation}
    (h : Reaches E i j) (hi : P i) : P j ∧ R i.world j.world := by
  induction h with
  | refl => exact ⟨hi, hrefl _⟩
  | tail _ hjk ih =>
    obtain ⟨hP, hR⟩ := hinvokes ih.1 hjk
    exact ⟨hP, htrans ih.2 hR⟩

end EVM
end EvmYul
