import EvmModel.Ownership
import EvmModel.Supply

/-!
# Only its own code spends an account's ether

An account in whose name no frame of a run executes, and which does not itself
send the message at the top, has at least as much ether after the run as before:
others can only send to it.

* `Invocation.Bystander` — the account neither runs nor pays;
* `bystander_is_not_charged` — its balance does not go down.
-/

namespace EvmYul
namespace EVM

open AccountMap

/-! ## Bystanders -/

namespace Invocation

/-- The invocation sends nothing from `C`. -/
def SparesBalance (C : AccountAddress) : Invocation → Prop
  | .Θ _ x => x.v = 0 ∨ x.s ≠ C
  | .Lambda _ x => x.s ≠ C
  | _ => True

/-- `C` does not run and does not pay, those who pay have what they send, and
all the ether there is fits into a word. -/
structure Bystander (E : Externals) (C : AccountAddress) (i : Invocation) : Prop where
  spared : i.Spares E C
  unpaid : i.SparesBalance C
  solvent : i.Solvent
  fits : i.world.σ.total < 2 ^ 256

end Invocation

/-! ## What others do to a balance -/

/-- A message credits everybody but its sender. -/
theorem Θ.Input.bal_le_bal_σ₁ {x : Θ.Input} {C : AccountAddress} (hC : x.v = 0 ∨ x.s ≠ C)
    (hv : x.v.val ≤ x.σ.bal x.s) (htotal : x.σ.total < 2 ^ 256) : x.σ.bal C ≤ x.σ₁.bal C := by
  by_cases hsr : x.s = x.r
  · refine (bal_congr (x.account_σ₁_of_inward (.inr ⟨hsr, ?_⟩) C)).ge
    rw [balance_eq, ← hsr]
    exact hv
  rw [x.bal_σ₁ hv htotal hsr]
  split
  next h =>
    have hzero : x.v = 0 := hC.resolve_right (not_not.2 h)
    rw [hzero, ← h]
    exact le_rfl
  · split
    next h => rw [← h]; exact Nat.le_add_right _ _
    · exact le_rfl

/-- A self-destruction credits everybody but the running account. -/
theorem bal_le_bal_selfdestructAccounts {σ : AccountMap} (htotal : σ.total < 2 ^ 256)
    {Iₐ C : AccountAddress} (hC : Iₐ ≠ C) (r : AccountAddress) (createdHere : Bool) :
    σ.bal C ≤ (selfdestructAccounts σ Iₐ r createdHere).bal C := by
  have hacc := account_selfdestructAccounts σ Iₐ r createdHere C
  by_cases hr : r = Iₐ
  · refine (bal_congr (hacc.trans ?_)).ge
    have hrC : r ≠ C := hr ▸ hC
    rw [if_neg hC, if_neg hrC, ite_self]
  · have hfits : σ.bal r + σ.bal Iₐ < 2 ^ 256 :=
      lt_of_le_of_lt (σ.bal_add_bal_le_total hr) htotal
    rw [if_neg fun h => hr h.1, if_neg hC] at hacc
    split at hacc
    next h =>
      unfold bal at hfits ⊢
      rw [hacc, UInt256.val_add_of_lt hfits, h]
      exact Nat.le_add_right _ _
    · exact (bal_congr hacc).ge

/-- An instruction spends from the running account only. -/
theorem step_bal (E : Externals) (op : Operation) (arg : Option (UInt256 × ℕ)) (s : State)
    (hcall : op.isCallOrCreate = false) (htotal : s.accountMap.total < 2 ^ 256)
    {C : AccountAddress} (hC : s.executionEnv.codeOwner ≠ C) :
    Ensures (EvmYul.step E op arg s) fun s' => s.accountMap.bal C ≤ s'.accountMap.bal C := by
  by_cases hop : op = .SELFDESTRUCT
  · subst hop
    refine selfdestruct_spec.mono ?_
    rintro s' ⟨-, ⟨r, b, hσ⟩, -⟩
    rw [hσ]
    exact bal_le_bal_selfdestructAccounts htotal hC r b
  · refine (step_keeps E op arg hop hcall).mono fun s' h => ?_
    exact (bal_of_core (congrArg Core.accounts h.1) C).ge

/-- The endowment of a new account touches it and its creator. -/
theorem Lambda.Input.bal_σStar_of_ne (x : Lambda.Input) {a C : AccountAddress} (hs : x.s ≠ C)
    (ha : a ≠ C) : (x.σStar a).bal C = x.σ.bal C := by
  refine bal_congr ?_
  unfold σStar
  split
  · rfl
  · rw [account_insert_ne ha, account_insert_ne hs]

/-! ## Runs -/

variable {E : Externals} {C : AccountAddress} {i : Invocation}

/-- What an invocation hands on has no less ether at a bystander. -/
theorem Yields.bal_le {w : World} (h : Yields E i w) (hi : i.Bystander E C) :
    i.world.σ.bal C ≤ w.σ.bal C := by
  induction h with
  | call_refused | step_not_created | Lambda_failed | Lambda_discarded | Θ_failed
  | Θ_precompiled_failed | Θ_emptied => exact le_rfl
  | @call_made _ c _ h _ ih =>
    have hΘ := hi.spared.of_invokes (.call_Θ h)
    have hunpaid : c.toΘ.v = 0 ∨ c.toΘ.s ≠ C := by
      obtain hv | hs := hi.solvent
      · exact .inl hv
      · exact .inr (hs.trans_ne (hi.spared.ne rfl))
    exact ih ⟨hΘ, hunpaid, call.Input.funded hi.solvent h, hi.fits⟩
  | @step_instr _ gasCost _ s _ p _ hop h =>
    exact step_bal E p.1 p.2 (s.count.charge gasCost) hop hi.fits (hi.spared.ne rfl) _ h
  | step_call hfetch hcall _ ih =>
    have hw := step.callInput_world hcall
    rw [Invocation.world, hw] at ih
    refine ih ⟨hi.spared.of_invokes (.step_call hfetch hcall), trivial,
      step.callInput_solvent hcall, ?_⟩
    rw [Invocation.world, hw]
    exact hi.fits
  | @step_created _ _ _ s _ c _ hfetch hcreate hnonce hallowed _ ih =>
    have hσ : c.evmState.accountMap = s.accountMap :=
      congrArg World.σ (step.createInput_world hcreate)
    have hne : c.toΛ.s ≠ C := by
      show c.evmState.executionEnv.codeOwner ≠ C
      rw [step.createInput_evmState hcreate]
      exact hi.spared.ne rfl
    have hcount : c.toΛ.σ.bal C = s.accountMap.bal C := by
      rw [← hσ]
      exact c.bal_σStar C
    have hle := ih ⟨hi.spared.of_invokes (.step_Lambda hfetch hcreate hnonce hallowed), hne,
      create.Input.funded hnonce hallowed,
      lt_of_eq_of_lt (create.Input.total_toΛ hcreate) hi.fits⟩
    exact hcount.symm.trans_le hle
  | X_halt hZ _ ih =>
    have hw := X.Z_world hZ
    rw [Invocation.world, hw] at ih
    refine ih ⟨hi.spared.of_invokes (.X_step hZ), trivial, trivial, ?_⟩
    rw [Invocation.world, hw]
    exact hi.fits
  | X_next hZ hs' hH hstep _ ihstep ihX =>
    have hw := X.Z_world hZ
    have hfits := hi.fits
    rw [Invocation.world, ← hw] at hfits
    have hle := ihstep ⟨hi.spared.of_invokes (.X_step hZ), trivial, trivial, hfits⟩
    rw [Invocation.world, hw] at hle
    have htotal := hstep.total_le trivial hfits
    exact hle.trans (ihX ⟨hi.spared.of_invokes (.X_X hZ hs' hH), trivial, trivial,
      lt_of_le_of_lt htotal hfits⟩)
  | Ξ_code _ ih => exact ih ⟨hi.spared.of_invokes .Ξ_X, trivial, trivial, hi.fits⟩
  | @Lambda_deposited _ x _ _ _ _ hlₐ _ hΞ ih =>
    have hspared := hi.spared.of_invokes (.Lambda_Ξ hlₐ)
    have hsa := x.ne_of_not_collision hi.solvent.2 (x.not_collision_of_yields hΞ)
    have hendow := x.total_σStar hi.solvent.1 hi.fits hsa
    have hle := ih ⟨hspared, trivial, trivial, lt_of_eq_of_lt hendow hi.fits⟩
    have hsame := x.bal_σStar_of_ne hi.unpaid (hspared.ne rfl)
    exact (hsame.symm.trans_le hle).trans_eq (bal_deposit _ _ _ C).symm
  | @Θ_precompiled _ x => exact x.bal_le_bal_σ₁ hi.unpaid hi.solvent hi.fits
  | @Θ_code _ x _ _ hc _ ih =>
    have hmove := x.total_σ₁ hi.solvent hi.fits
    have hle := ih ⟨hi.spared.of_invokes (.Θ_Ξ hc), trivial, trivial,
      lt_of_eq_of_lt hmove hi.fits⟩
    exact (x.bal_le_bal_σ₁ hi.unpaid hi.solvent hi.fits).trans hle

/-- **Only its own code spends an account's ether.**  What a run hands on has at
least as much ether at a bystander as the run started with: at an account that
neither runs nor pays, in a run that is solvent and whose ether fits into a word. -/
theorem bystander_is_not_charged (hi : i.Bystander E C) {w : World} (hw : Returned E i w) :
    i.world.σ.bal C ≤ w.σ.bal C :=
  hw.yields.bal_le hi

/-- `0xc0de` has its seven wei and more after a contract has run that gives its
ether away. -/
theorem bystander_is_not_charged_payDonating :
    ∃ w, Returned (Frame.aimedAt 0) (.Θ 10 payDonating) w ∧
      (w.σ.account 0xbeef).storage[(0 : UInt256)]? = some 1 ∧
      payDonating.σ.bal 0xc0de ≤ w.σ.bal 0xc0de := by
  obtain ⟨w, hw, hstored⟩ := payDonating_returned
  refine ⟨w, hw, hstored, bystander_is_not_charged (i := .Θ 10 payDonating) ?_ hw⟩
  exact ⟨payDonating_spares _ 10, .inr (by decide), payDonating_solvent 10, payDonating_fits⟩

end EVM
end EvmYul
