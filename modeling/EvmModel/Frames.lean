import EvmModel.Instructions
import EvmModel.Machine

/-!
# The frames of a run

An `Invocation` is a call of one of the six functions of the machine, with its
fuel and its arguments; `Invokes` relates it to the invocations its body makes.
A run goes through the invocations that can be reached from the one at the top.

* `Invokes.complete` — the relation misses nothing: the value of an invocation
  depends on other invocations only through those it is related to;
* `Invokes.induction` — what holds of an invocation as soon as it holds of those
  its body makes holds of all;
* `Reaches` — the run that starts with one invocation goes through another;
* `advances` — the code of a frame, run for so many instructions;
* `Returned` — an invocation returns, and hands on a world.
-/

namespace EvmYul

/-! ## Worlds -/

/-- The part of the world an execution can change: the accounts, the accounts
created in this transaction, and the substate. -/
structure World where
  σ : AccountMap
  createdAccounts : AddrSet
  A : Substate

/-- The world as a frame sees it. -/
def State.world (s : State) : World := ⟨s.accountMap, s.createdAccounts, s.substate⟩

namespace EVM

def Θ.Input.world (x : Θ.Input) : World := ⟨x.σ, x.createdAccounts, x.A⟩

def Θ.Result.world (r : Θ.Result) : World := ⟨r.σ', r.createdAccounts, r.A'⟩

def Lambda.Input.world (x : Lambda.Input) : World := ⟨x.σ, x.createdAccounts, x.A⟩

def Lambda.Result.world (r : Lambda.Result) : World := ⟨r.σ', r.createdAccounts, r.A'⟩

def Ξ.Input.world (x : Ξ.Input) : World := ⟨x.σ, x.createdAccounts, x.A⟩

def Ξ.Outcome.world (r : Ξ.Outcome) : World := ⟨r.σ, r.createdAccounts, r.A⟩

/-! ## Invocations -/

/-- A call of one of the six functions. -/
inductive Invocation where
  | call (f : ℕ) (c : call.Input)
  | step (f gasCost : ℕ) (instr : Option (Operation × Option (UInt256 × ℕ))) (s : State)
  | X (f : ℕ) (validJumps : Array UInt256) (s : State)
  | Ξ (f : ℕ) (x : Ξ.Input)
  | Lambda (f : ℕ) (x : Lambda.Input)
  | Θ (f : ℕ) (x : Θ.Input)

namespace Invocation

/-- The world an invocation starts in. -/
def world : Invocation → World
  | .call _ c => c.evmState.world
  | .step _ _ _ s => s.world
  | .X _ _ s => s.world
  | .Ξ _ x => x.world
  | .Lambda _ x => x.world
  | .Θ _ x => x.world

/-- The type of what an invocation returns. -/
abbrev Result : Invocation → Type
  | .call _ _ => UInt256 × State
  | .step _ _ _ _ => State
  | .X _ _ _ => ExecutionResult State
  | .Ξ _ _ => ExecutionResult Ξ.Outcome
  | .Lambda _ _ => Lambda.Result
  | .Θ _ _ => Θ.Result

/-- The value of an invocation. -/
def eval (E : Externals) : (i : Invocation) → Except ExecutionException i.Result
  | .call f c => EVM.call E f c
  | .step f gasCost instr s => EVM.step E f gasCost instr s
  | .X f validJumps s => EVM.X E f validJumps s
  | .Ξ f x => EVM.Ξ E f x
  | .Lambda f x => EVM.Lambda E f x
  | .Θ f x => EVM.Θ E f x

/-- The body of an invocation, with `run` in place of the functions it calls. -/
def unfold (E : Externals) (run : (i : Invocation) → Except ExecutionException i.Result) :
    (i : Invocation) → Except ExecutionException i.Result
  | .call (f + 1) c => call.body (fun x => run (.Θ f x)) c
  | .step (f + 1) gasCost instr s =>
    step.body E (fun c => run (.call f c)) (fun x => run (.Lambda f x)) gasCost instr s
  | .X (f + 1) validJumps s =>
    X.body (fun cost instr s => run (.step f cost instr s)) (fun s => run (.X f validJumps s))
      validJumps s
  | .Ξ (f + 1) x => Ξ.body (fun vj s => run (.X f vj s)) x
  | .Lambda (f + 1) x => Lambda.body E (fun x => run (.Ξ f x)) x
  | .Θ (f + 1) x => Θ.body E (fun x => run (.Ξ f x)) x
  | .call 0 _ => .error .OutOfFuel
  | .step 0 _ _ _ => .error .OutOfFuel
  | .X 0 _ _ => .error .OutOfFuel
  | .Ξ 0 _ => .error .OutOfFuel
  | .Lambda 0 _ => .error .OutOfFuel
  | .Θ 0 _ => .error .OutOfFuel

/-- The machine is its own unfolding. -/
theorem unfold_eval (E : Externals) (i : Invocation) : i.unfold E (eval E) = i.eval E := by
  cases i with
  | call f c => cases f with
    | zero => exact (EVM.call.eq_1 E c).symm
    | succ f => exact (call_succ E f c).symm
  | step f gasCost instr s => cases f with
    | zero => exact (EVM.step.eq_1 E gasCost instr s).symm
    | succ f => exact (step_succ E f gasCost instr s).symm
  | X f validJumps s => cases f with
    | zero => exact (EVM.X.eq_1 E validJumps s).symm
    | succ f => exact (X_succ E f validJumps s).symm
  | Ξ f x => cases f with
    | zero => exact (EVM.Ξ.eq_1 E x).symm
    | succ f => exact (Ξ_succ E f x).symm
  | Lambda f x => cases f with
    | zero => exact (EVM.Lambda.eq_1 E x).symm
    | succ f => exact (Lambda_succ E f x).symm
  | Θ f x => cases f with
    | zero => exact (EVM.Θ.eq_1 E x).symm
    | succ f => exact (Θ_succ E f x).symm

end Invocation

/-- `Invokes E i j`: the body of `i` makes the invocation `j`. -/
inductive Invokes (E : Externals) : Invocation → Invocation → Prop
  | call_Θ {f : ℕ} {c : call.Input} (h : c.allowed) : Invokes E (.call (f + 1) c) (.Θ f c.toΘ)
  | step_call {f gasCost : ℕ} {instr : Option (Operation × Option (UInt256 × ℕ))} {s : State}
      {p : Operation × Option (UInt256 × ℕ)} {c : call.Input} {stack : Stack}
      (hfetch : step.fetch instr s = .ok p)
      (hcall : step.callInput p.1 gasCost s.count = some (c, stack)) :
      Invokes E (.step (f + 1) gasCost instr s) (.call f c)
  | step_Lambda {f gasCost : ℕ} {instr : Option (Operation × Option (UInt256 × ℕ))} {s : State}
      {p : Operation × Option (UInt256 × ℕ)} {c : create.Input}
      (hfetch : step.fetch instr s = .ok p)
      (hcreate : step.createInput p.1 (s.count.charge gasCost) = some c)
      (hnonce : ¬2 ^ 64 - 1 ≤ c.σ_Iₐ.nonce.val) (hallowed : c.allowed) :
      Invokes E (.step (f + 1) gasCost instr s) (.Lambda f c.toΛ)
  | X_step {f : ℕ} {validJumps : Array UInt256} {s sZ : State} {cost₂ : ℕ}
      (hZ : X.Z validJumps (X.instr s).1 s = .ok (sZ, cost₂)) :
      Invokes E (.X (f + 1) validJumps s) (.step f cost₂ (some (X.instr s)) sZ)
  | X_X {f : ℕ} {validJumps : Array UInt256} {s sZ s' : State} {cost₂ : ℕ}
      (hZ : X.Z validJumps (X.instr s).1 s = .ok (sZ, cost₂))
      (hstep : step E f cost₂ (some (X.instr s)) sZ = .ok s')
      (hH : X.H s'.toMachineState (X.instr s).1 = none) :
      Invokes E (.X (f + 1) validJumps s) (.X f validJumps s')
  | Ξ_X {f : ℕ} {x : Ξ.Input} : Invokes E (.Ξ (f + 1) x) (.X f (D_J x.I.code 0) x.fresh)
  | Lambda_Ξ {f : ℕ} {x : Lambda.Input} {lₐ : ByteArray}
      (hlₐ : Lambda.L_A E x.s x.n x.ζ x.i = some lₐ) :
      Invokes E (.Lambda (f + 1) x) (.Ξ f (x.toΞ (Lambda.address E lₐ)))
  | Θ_Ξ {f : ℕ} {x : Θ.Input} {code : ByteArray} (hc : x.c = .Code code) :
      Invokes E (.Θ (f + 1) x) (.Ξ f x.toΞ)

/-! ## The relation misses nothing -/

theorem call.body_congr {runΘ runΘ' : Θ.Input → Except ExecutionException Θ.Result}
    {c : call.Input} (h : c.allowed → runΘ c.toΘ = runΘ' c.toΘ) :
    call.body runΘ c = call.body runΘ' c := by
  have hattempt : c.attempt runΘ = c.attempt runΘ' := by
    unfold call.Input.attempt
    split
    · exact h ‹_›
    · rfl
  rw [call.body, call.body, hattempt]

theorem create.body_congr
    {runΛ runΛ' : Lambda.Input → Except ExecutionException Lambda.Result} {c : create.Input}
    (h : ¬2 ^ 64 - 1 ≤ c.σ_Iₐ.nonce.val → c.allowed → runΛ c.toΛ = runΛ' c.toΛ) :
    create.body runΛ c = create.body runΛ' c := by
  have hattempt : c.attempt runΛ = c.attempt runΛ' := by
    unfold create.Input.attempt
    dsimp only
    split
    · rfl
    next hnonce =>
      split
      next hallowed => rw [h hnonce hallowed]
      · rfl
  rw [create.body, create.body, hattempt]

theorem step.exec_congr (E : Externals)
    {runCall runCall' : call.Input → Except ExecutionException (UInt256 × State)}
    {runΛ runΛ' : Lambda.Input → Except ExecutionException Lambda.Result}
    {gasCost : ℕ} {op : Operation} {s : State} (arg : Option (UInt256 × ℕ))
    (hcall : ∀ c stack, step.callInput op gasCost s = some (c, stack) → runCall c = runCall' c)
    (hΛ : ∀ c, step.createInput op (s.charge gasCost) = some c →
      create.body runΛ c = create.body runΛ' c) :
    step.exec E runCall runΛ gasCost op arg s = step.exec E runCall' runΛ' gasCost op arg s := by
  have hcreate : step.create runΛ (step.createInput op (s.charge gasCost)) =
      step.create runΛ' (step.createInput op (s.charge gasCost)) := by
    cases hc : step.createInput op (s.charge gasCost) with
    | none => rfl
    | some c => exact hΛ c hc
  have hcalls : step.callAndPush runCall (step.callInput op gasCost s) =
      step.callAndPush runCall' (step.callInput op gasCost s) := by
    cases hc : step.callInput op gasCost s with
    | none => rfl
    | some p =>
      obtain ⟨c, stack⟩ := p
      rw [step.callAndPush, step.callAndPush, hcall c stack hc]
  unfold step.exec
  split
  case h_1 | h_2 => exact hcreate
  case h_3 | h_4 | h_5 | h_6 => exact hcalls
  case h_7 => rfl

theorem X.body_congr
    {runStep runStep' : ℕ → Option (Operation × Option (UInt256 × ℕ)) → State →
      Except ExecutionException State}
    {runX runX' : State → Except ExecutionException (ExecutionResult State)}
    {validJumps : Array UInt256} {s : State}
    (hstep : ∀ sZ cost₂, X.Z validJumps (X.instr s).1 s = .ok (sZ, cost₂) →
      runStep cost₂ (some (X.instr s)) sZ = runStep' cost₂ (some (X.instr s)) sZ)
    (hX : ∀ sZ cost₂ s', X.Z validJumps (X.instr s).1 s = .ok (sZ, cost₂) →
      runStep' cost₂ (some (X.instr s)) sZ = .ok s' →
      X.H s'.toMachineState (X.instr s).1 = none → runX s' = runX' s') :
    X.body runStep runX validJumps s = X.body runStep' runX' validJumps s := by
  simp only [X.body]
  cases hZ : X.Z validJumps (X.instr s).1 s with
  | error e => rfl
  | ok r =>
    obtain ⟨sZ, cost₂⟩ := r
    dsimp only
    rw [hstep sZ cost₂ hZ]
    cases hs : runStep' cost₂ (some (X.instr s)) sZ with
    | error e => rfl
    | ok s' =>
      rw [Except.bind_of_eq_ok rfl, Except.bind_of_eq_ok rfl]
      cases hH : X.H s'.toMachineState (X.instr s).1 with
      | none => exact hX sZ cost₂ s' hZ hs hH
      | some o => rfl

theorem Lambda.body_congr (E : Externals)
    {runΞ runΞ' : Ξ.Input → Except ExecutionException (ExecutionResult Ξ.Outcome)}
    {x : Lambda.Input}
    (h : ∀ lₐ, Lambda.L_A E x.s x.n x.ζ x.i = some lₐ →
      runΞ (x.toΞ (Lambda.address E lₐ)) = runΞ' (x.toΞ (Lambda.address E lₐ))) :
    Lambda.body E runΞ x = Lambda.body E runΞ' x := by
  unfold Lambda.body
  cases hlₐ : Lambda.L_A E x.s x.n x.ζ x.i with
  | none => rfl
  | some lₐ =>
    dsimp only
    rw [h lₐ hlₐ]

theorem Θ.body_congr (E : Externals)
    {runΞ runΞ' : Ξ.Input → Except ExecutionException (ExecutionResult Ξ.Outcome)} {x : Θ.Input}
    (h : ∀ code, x.c = .Code code → runΞ x.toΞ = runΞ' x.toΞ) :
    Θ.body E runΞ x = Θ.body E runΞ' x := by
  have hexec : x.execute E runΞ = x.execute E runΞ' := by
    unfold Θ.Input.execute
    split
    · rfl
    next code hc => rw [h code hc]
  rw [Θ.body, Θ.body, hexec]

/-- **The relation misses nothing.**  Functions that agree with the machine on
the invocations a body makes give the body the value it has in the machine. -/
theorem Invokes.complete (E : Externals)
    (run : (i : Invocation) → Except ExecutionException i.Result) (i : Invocation)
    (h : ∀ j, Invokes E i j → run j = j.eval E) : i.unfold E run = i.eval E := by
  rw [← i.unfold_eval E]
  cases i with
  | call f c => cases f with
    | zero => rfl
    | succ f => exact call.body_congr fun ha => h _ (.call_Θ ha)
  | step f gasCost instr s => cases f with
    | zero => rfl
    | succ f =>
      show step.body E (fun c => run (.call f c)) (fun x => run (.Lambda f x)) gasCost instr s =
        step.body E (EVM.call E f) (EVM.Lambda E f) gasCost instr s
      unfold step.body
      cases hfetch : step.fetch instr s with
      | error e => rfl
      | ok p =>
        refine step.exec_congr E p.2 (fun c stack hc => h _ (.step_call hfetch hc)) fun c hc => ?_
        exact create.body_congr fun hn ha => h _ (.step_Lambda hfetch hc hn ha)
  | X f validJumps s => cases f with
    | zero => rfl
    | succ f =>
      show X.body (fun cost instr s => run (.step f cost instr s))
        (fun s => run (.X f validJumps s)) validJumps s =
          X.body (EVM.step E f) (EVM.X E f validJumps) validJumps s
      exact X.body_congr (fun sZ cost₂ hZ => h _ (.X_step hZ))
        fun sZ cost₂ s' hZ hs hH => h _ (.X_X hZ hs hH)
  | Ξ f x => cases f with
    | zero => rfl
    | succ f =>
      show Ξ.body (fun vj s => run (.X f vj s)) x = Ξ.body (EVM.X E f) x
      rw [Ξ.body, Ξ.body, h _ .Ξ_X]
      rfl
  | Lambda f x => cases f with
    | zero => rfl
    | succ f =>
      show Lambda.body E (fun x => run (.Ξ f x)) x = Lambda.body E (EVM.Ξ E f) x
      exact Lambda.body_congr E fun lₐ hlₐ => h _ (.Lambda_Ξ hlₐ)
  | Θ f x => cases f with
    | zero => rfl
    | succ f => exact Θ.body_congr E fun code hc => h _ (.Θ_Ξ hc)

/-! ## The order of invocations -/

/-- The fuel an invocation starts with. -/
def Invocation.fuel : Invocation → ℕ
  | .call f _ => f
  | .step f _ _ _ => f
  | .X f _ _ => f
  | .Ξ f _ => f
  | .Lambda f _ => f
  | .Θ f _ => f

/-- A body spends one unit of fuel. -/
theorem Invokes.fuel_succ {E : Externals} {i j : Invocation} (h : Invokes E i j) :
    j.fuel + 1 = i.fuel := by
  cases h <;> rfl

/-- The induction over the recursion of the machine. -/
theorem Invokes.induction (E : Externals) {motive : Invocation → Prop}
    (h : ∀ i, (∀ j, Invokes E i j → motive j) → motive i) (i : Invocation) : motive i := by
  induction hf : i.fuel generalizing i with
  | zero =>
    refine h i fun j hj => ?_
    have := hj.fuel_succ
    omega
  | succ f ih =>
    refine h i fun j hj => ih j ?_
    have := hj.fuel_succ
    omega

/-! ## Runs -/

/-- The run that starts with `i` goes through `j`. -/
def Reaches (E : Externals) : Invocation → Invocation → Prop := Relation.ReflTransGen (Invokes E)

/-- The state after the next instruction, if the code goes on after it. -/
def advance (E : Externals) (f : ℕ) (validJumps : Array UInt256) (s : State) : Option State :=
  match X.Z validJumps (X.instr s).1 s with
  | .error _ => none
  | .ok (sZ, cost₂) =>
    match step E f cost₂ (some (X.instr s)) sZ with
    | .error _ => none
    | .ok s' => if X.H s'.toMachineState (X.instr s).1 = none then some s' else none

theorem advance_spec {E : Externals} {f : ℕ} {validJumps : Array UInt256} {s s' : State}
    (h : advance E f validJumps s = some s') :
    ∃ sZ cost₂, X.Z validJumps (X.instr s).1 s = .ok (sZ, cost₂) ∧
      step E f cost₂ (some (X.instr s)) sZ = .ok s' ∧
        X.H s'.toMachineState (X.instr s).1 = none := by
  unfold advance at h
  split at h
  · cases h
  next sZ cost₂ hZ =>
    split at h
    · cases h
    next t hstep =>
      split at h
      next hH =>
        obtain rfl := Option.some.inj h
        exact ⟨sZ, cost₂, hZ, hstep, hH⟩
      · cases h

/-- Then the value of the code is that of the rest of it. -/
theorem X_of_advance {E : Externals} {f : ℕ} {validJumps : Array UInt256} {s s' : State}
    (h : advance E f validJumps s = some s') : X E (f + 1) validJumps s = X E f validJumps s' := by
  obtain ⟨sZ, cost₂, hZ, hstep, hH⟩ := advance_spec h
  rw [X_succ, X.body, hZ]
  dsimp only
  rw [Except.bind_of_eq_ok hstep, hH]

theorem reaches_of_advance {E : Externals} {f : ℕ} {validJumps : Array UInt256} {s s' : State}
    (h : advance E f validJumps s = some s') :
    Reaches E (.X (f + 1) validJumps s) (.X f validJumps s') := by
  obtain ⟨sZ, cost₂, hZ, hstep, hH⟩ := advance_spec h
  exact .tail .refl (.X_X hZ hstep hH)

/-- The state after the next `n` instructions, with `f` units of fuel left. -/
def advances (E : Externals) (validJumps : Array UInt256) : ℕ → ℕ → State → Option State
  | 0, _, s => some s
  | n + 1, f, s => (advance E (f + n) validJumps s).bind (advances E validJumps n f)

theorem reaches_of_advances {E : Externals} {validJumps : Array UInt256} {f : ℕ} {t : State} :
    ∀ {n : ℕ} {s : State}, advances E validJumps n f s = some t →
      Reaches E (.X (f + n) validJumps s) (.X f validJumps t) := by
  intro n
  induction n with
  | zero =>
    intro s h
    obtain rfl := Option.some.inj h
    exact .refl
  | succ n ih =>
    intro s h
    obtain ⟨s', hs', h⟩ := Option.bind_eq_some_iff.1 h
    exact (reaches_of_advance hs').trans (ih h)

theorem X_of_advances {E : Externals} {validJumps : Array UInt256} {f : ℕ} {t : State} :
    ∀ {n : ℕ} {s : State}, advances E validJumps n f s = some t →
      X E (f + n) validJumps s = X E f validJumps t := by
  intro n
  induction n with
  | zero =>
    intro s h
    obtain rfl := Option.some.inj h
    rfl
  | succ n ih =>
    intro s h
    obtain ⟨s', hs', h⟩ := Option.bind_eq_some_iff.1 h
    exact (X_of_advance hs').trans (ih h)

/-- The invocation returns, and hands on the world `w`.  A reverted execution
hands no world on. -/
def Returned (E : Externals) : Invocation → World → Prop
  | .call f c, w => ∃ r, EVM.call E f c = .ok r ∧ r.2.world = w
  | .step f gasCost instr s, w => ∃ s', EVM.step E f gasCost instr s = .ok s' ∧ s'.world = w
  | .X f validJumps s, w => ∃ s' o, EVM.X E f validJumps s = .ok (.success s' o) ∧ s'.world = w
  | .Ξ f x, w => ∃ r o, EVM.Ξ E f x = .ok (.success r o) ∧ r.world = w
  | .Lambda f x, w => ∃ r, EVM.Lambda E f x = .ok r ∧ r.world = w
  | .Θ f x, w => ∃ r, EVM.Θ E f x = .ok r ∧ r.world = w

end EVM
end EvmYul
