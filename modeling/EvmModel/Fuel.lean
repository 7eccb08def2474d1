import EvmModel.Upsilon

/-!
# Fuel

Fuel makes the recursion of the machine structural; it is not part of what the
machine computes.  A run is *complete* when none of its frames runs out of fuel,
and the value of a complete run does not change when there is more fuel.

It is not enough that the run itself returns a value: a creation that runs out
of fuel is taken for one that failed (`create.body_of_outOfFuel`), so a
transaction may return, with too little fuel, what it would not return with
more.
-/

namespace EvmYul
namespace EVM

namespace Invocation

/-- The value of an invocation with `n` more units of fuel. -/
def evalWith (E : Externals) (n : ℕ) : (i : Invocation) → Except ExecutionException i.Result
  | .call f c => EVM.call E (f + n) c
  | .step f gasCost instr s => EVM.step E (f + n) gasCost instr s
  | .X f validJumps s => EVM.X E (f + n) validJumps s
  | .Ξ f x => EVM.Ξ E (f + n) x
  | .Lambda f x => EVM.Lambda E (f + n) x
  | .Θ f x => EVM.Θ E (f + n) x

/-- Without fuel there is no value. -/
theorem eval_of_fuel_eq_zero (E : Externals) {i : Invocation} (hi : i.fuel = 0) :
    i.eval E = .error .OutOfFuel := by
  rw [← i.unfold_eval E]
  cases i <;> obtain rfl := hi <;> rfl

/-- A body that has fuel hands the additional fuel on. -/
theorem unfold_evalWith (E : Externals) (n : ℕ) {i : Invocation} (hi : i.fuel ≠ 0) :
    i.unfold E (evalWith E n) = i.evalWith E n := by
  cases i with
  | call f c =>
    obtain ⟨f, rfl⟩ := Nat.exists_eq_succ_of_ne_zero hi
    rw [evalWith, Nat.succ_add, call_succ]
    rfl
  | step f gasCost instr s =>
    obtain ⟨f, rfl⟩ := Nat.exists_eq_succ_of_ne_zero hi
    rw [evalWith, Nat.succ_add, step_succ]
    rfl
  | X f validJumps s =>
    obtain ⟨f, rfl⟩ := Nat.exists_eq_succ_of_ne_zero hi
    rw [evalWith, Nat.succ_add, X_succ]
    rfl
  | Ξ f x =>
    obtain ⟨f, rfl⟩ := Nat.exists_eq_succ_of_ne_zero hi
    rw [evalWith, Nat.succ_add, Ξ_succ]
    rfl
  | Lambda f x =>
    obtain ⟨f, rfl⟩ := Nat.exists_eq_succ_of_ne_zero hi
    rw [evalWith, Nat.succ_add, Lambda_succ]
    rfl
  | Θ f x =>
    obtain ⟨f, rfl⟩ := Nat.exists_eq_succ_of_ne_zero hi
    rw [evalWith, Nat.succ_add, Θ_succ]
    rfl

/-- No frame of the run that starts with `i` runs out of fuel. -/
def Complete (E : Externals) (i : Invocation) : Prop :=
  ∀ j, Reaches E i j → j.eval E ≠ .error .OutOfFuel

theorem Complete.of_invokes {E : Externals} {i j : Invocation} (h : i.Complete E)
    (hij : Invokes E i j) : j.Complete E :=
  fun k hk => h k (.head hij hk)

/-- **The value of a complete run does not depend on the fuel.** -/
theorem Complete.evalWith_eq {E : Externals} {i : Invocation} (h : i.Complete E) (n : ℕ) :
    i.evalWith E n = i.eval E := by
  induction i using Invokes.induction E with
  | h i ih =>
    have hfuel : i.fuel ≠ 0 := fun hzero => h i .refl (eval_of_fuel_eq_zero E hzero)
    rw [← unfold_evalWith E n hfuel]
    exact Invokes.complete E _ i fun j hij => ih j hij (h.of_invokes hij)

end Invocation

/-- A complete transaction returns the same with more fuel. -/
theorem Υ_eq_of_complete {E : Externals} {fuel : ℕ} {x : Υ.Input}
    (h : (x.top fuel).Complete E) (n : ℕ) : Υ E (fuel + n) x = Υ E fuel x := by
  have hrun : x.run E (fuel + n) = x.run E fuel := by
    have htop := h.evalWith_eq n
    unfold Υ.Input.top at htop
    unfold Υ.Input.run
    cases hT : x.T.base.recipient with
    | none =>
      rw [hT] at htop
      simp only [show Lambda E (fuel + n) x.toΛ = Lambda E fuel x.toΛ from htop]
    | some t =>
      rw [hT] at htop
      simp only [show Θ E (fuel + n) (x.toΘ t) = Θ E fuel (x.toΘ t) from htop]
  unfold Υ
  rw [hrun]

/-- A creation that runs out of fuel ends as one that raises any other exception. -/
theorem create.body_of_outOfFuel {runΛ : Lambda.Input → Except ExecutionException Lambda.Result}
    {c : create.Input} (h : runΛ c.toΛ = .error .OutOfFuel) (e : ExecutionException) :
    create.body runΛ c = create.body (fun _ => .error e) c := by
  have hattempt : c.attempt runΛ = c.attempt fun _ => .error e := by
    simp only [create.Input.attempt, h]
  rw [create.body, create.body, hattempt]

end EVM
end EvmYul
