import EvmModel.BigStep
import EvmModel.Lib.Registry
import EvmModel.Lib.TreeFold

/-!
# The ledger of deployed code

What a world says about deployed contracts is a write-once registry: the entry
of an address is its code, if it has any; the open addresses are those created
in the current transaction; the doomed ones are those marked by `SELFDESTRUCT`.

The moves of the registry appear where the source makes them: `SELFDESTRUCT`
dooms open addresses only (`le_doom`); `Lambda` opens the address it derives
only if nobody lives there (`le_openAt`), and deposits code only where there was
none (`le_deposit`); a failed call or creation restores the accounts and the
marks, but not the set of created accounts (`le_rollback`).

* `AccountMap.codeAt` — the code at an address, and what the updates of an
  account map do to it: everything but a deposit writes an account back with
  the code it had;
* `World.ledger` — the registry, and `World.Intact.of_le`, what its order says about
  one contract;
* `step_le` — the instructions;
* `Yields.ledger_le` — every run is a legal future of the world it starts in.
-/

namespace EvmYul

/-! ## Code in an account map -/

/-- The code of an account, if it has any. -/
def Account.deployed (acc : Account) : Option ByteArray :=
  if acc.code.size = 0 then none else some acc.code

@[simp] theorem Account.deployed_default : (default : Account).deployed = none := rfl

namespace AccountMap

variable {σ : AccountMap} {a b : AccountAddress} {acc : Account}

/-- The code at an address, if there is any. -/
def codeAt (σ : AccountMap) (a : AccountAddress) : Option ByteArray :=
  σ[a]?.bind Account.deployed

theorem codeAt_of_some (h : σ[a]? = some acc) : σ.codeAt a = acc.deployed := by
  rw [codeAt, h]
  rfl

theorem codeAt_of_none (h : σ[a]? = none) : σ.codeAt a = none := by
  rw [codeAt, h]
  rfl

/-- An address has code exactly when its account has. -/
theorem codeAt_eq_some_iff {c : ByteArray} :
    σ.codeAt a = some c ↔ ∃ acc, σ[a]? = some acc ∧ acc.code = c ∧ c.size ≠ 0 := by
  unfold codeAt Account.deployed
  cases σ[a]? with
  | none => simp
  | some acc =>
    by_cases hc : acc.code.size = 0
    · simp only [Option.bind_some, if_pos hc, reduceCtorEq, Option.some.injEq, false_iff]
      rintro ⟨_, rfl, rfl, hne⟩
      exact hne hc
    · simp only [Option.bind_some, if_neg hc, Option.some.injEq]
      constructor
      · rintro rfl
        exact ⟨acc, rfl, rfl, hc⟩
      · rintro ⟨_, rfl, h, _⟩
        exact h

theorem codeAt_getD (σ : AccountMap) (a : AccountAddress) :
    (σ[a]?.getD default).deployed = σ.codeAt a := by
  cases h : σ[a]? with
  | none => rw [codeAt_of_none h]; rfl
  | some acc => rw [codeAt_of_some h]; rfl

theorem codeAt_insert_ne (h : a ≠ b) : codeAt (σ.insert a acc) b = σ.codeAt b := by
  rw [codeAt, codeAt, TreeFold.getElem?_insert_ne σ h]

theorem codeAt_insert_self : codeAt (σ.insert a acc) a = acc.deployed :=
  codeAt_of_some Std.TreeMap.getElem?_insert_self

/-- Writing an account back with the code it had changes no code. -/
theorem codeAt_insert (h : acc.deployed = σ.codeAt a) : codeAt (σ.insert a acc) = σ.codeAt := by
  funext b
  by_cases hab : a = b
  · rw [← hab, codeAt_insert_self, h]
  · exact codeAt_insert_ne hab

/-- A new account with a balance and nothing else has no code. -/
theorem codeAt_insert_fresh (h : σ[a]? = none) (v : UInt256) :
    codeAt (σ.insert a { (default : Account) with balance := v }) = σ.codeAt := by
  refine codeAt_insert ?_
  rw [codeAt_of_none h]
  rfl

theorem codeAt_increaseBalance (σ : AccountMap) (a : AccountAddress) (v : UInt256) :
    (σ.increaseBalance a v).codeAt = σ.codeAt := by
  unfold increaseBalance
  cases h : σ[a]? with
  | none => exact codeAt_insert_fresh h v
  | some acc => exact codeAt_insert (codeAt_of_some h).symm

/-- Two accounts written back, one after the other. -/
theorem codeAt_insert_insert {acc' : Account} (h : acc.deployed = σ.codeAt a)
    (h' : acc'.deployed = σ.codeAt b) : codeAt ((σ.insert a acc).insert b acc') = σ.codeAt := by
  rw [codeAt_insert, codeAt_insert h]
  rw [codeAt_insert h, h']

/-- The code at an address can be read off the core. -/
theorem codeAt_of_core {σ' : AccountMap} (h : σ'.core = σ.core) : σ'.codeAt = σ.codeAt := by
  have hcode : ∀ σ : AccountMap, σ.codeAt = fun a =>
      (σ.core a).bind fun c => if c.2.2.size = 0 then none else some c.2.2 := by
    intro σ
    funext a
    rw [codeAt, core, Option.bind_map]
    rfl
  rw [hcode, hcode, h]

/-- A self-destruction moves balances and nothing else. -/
theorem codeAt_selfdestructAccounts (σ : AccountMap) (Iₐ r : AccountAddress) (b : Bool) :
    (EVM.selfdestructAccounts σ Iₐ r b).codeAt = σ.codeAt := by
  unfold EVM.selfdestructAccounts
  cases hI : σ[Iₐ]? with
  | none => rfl
  | some σ_Iₐ =>
    have hcodeI := (codeAt_of_some hI).symm
    cases hr : σ[r]? with
    | none =>
      dsimp only
      split
      · rfl
      · have hfresh := codeAt_insert_fresh hr σ_Iₐ.balance
        rw [codeAt_insert, hfresh]
        rw [hfresh, ← hcodeI]
        rfl
    | some σ_r =>
      have hcoder := (codeAt_of_some hr).symm
      dsimp only
      split
      · exact codeAt_insert_insert hcoder hcodeI
      · split
        · exact codeAt_insert_insert hcoder hcodeI
        · rfl

end AccountMap

/-! ## The ledger -/

namespace World

/-- The registry of deployed code. -/
def ledger (w : World) : Registry AccountAddress ByteArray where
  entry := w.σ.codeAt
  opened := {a | a ∈ w.createdAccounts}
  doomed := {a | a ∈ w.A.selfDestructSet}

/-- Two worlds with the same code and the same marks. -/
theorem ledger_congr {w w' : World} (hσ : w'.σ.codeAt = w.σ.codeAt)
    (hc : w'.createdAccounts = w.createdAccounts)
    (hA : w'.A.selfDestructSet = w.A.selfDestructSet) : w'.ledger = w.ledger := by
  rw [ledger, ledger, hσ, hc, hA]

/-- The contract at `C` has the code `c`, was not created in this transaction
and is not marked for removal. -/
structure Intact (w : World) (C : AccountAddress) (c : ByteArray) : Prop where
  code : ∃ acc, w.σ[C]? = some acc ∧ acc.code = c
  not_created : C ∉ w.createdAccounts
  not_doomed : C ∉ w.A.selfDestructSet

/-- An intact contract is intact in every legal future. -/
theorem Intact.of_le {w w' : World} {C : AccountAddress} {c : ByteArray} (h : w.Intact C c)
    (hc : c.size ≠ 0) (hle : w.ledger ≤ w'.ledger) : w'.Intact C c := by
  obtain ⟨acc, hacc, hcode⟩ := h.code
  have hentry : w.ledger.entry C = some c := AccountMap.codeAt_eq_some_iff.2 ⟨acc, hacc, hcode, hc⟩
  obtain ⟨hkept, ho, hd⟩ := Registry.permanent hle hentry h.not_created h.not_doomed
  obtain ⟨acc', hacc', hcode', -⟩ := AccountMap.codeAt_eq_some_iff.1 hkept
  exact ⟨⟨acc', hacc', hcode'⟩, ho, hd⟩

end World

/-- The registry as a frame sees it. -/
def State.ledger (s : State) : Registry AccountAddress ByteArray := s.world.ledger

namespace EVM

/-! ## The instructions -/

variable {s : State}

/-- What keeps the core of the view keeps the ledger. -/
theorem Keeps.ledger {s s' : State} (h : Keeps s s') : s'.ledger = s.ledger := by
  refine World.ledger_congr ?_ (congrArg Core.created h.1) (congrArg Core.doomed h.1)
  exact AccountMap.codeAt_of_core (congrArg Core.accounts h.1)

/-- `SELFDESTRUCT` moves balances, and dooms the running account only if it is
open, that is, was created in this transaction. -/
theorem selfdestruct_le : Ensures (selfdestruct s) fun s' => s.ledger ≤ s'.ledger := by
  refine selfdestruct_spec.mono ?_
  rintro s' ⟨-, ⟨r, b, hσ⟩, hcreated, hdoomed⟩
  have hentry : ∀ a, s.ledger.entry a = s'.ledger.entry a := by
    intro a
    show s.accountMap.codeAt a = s'.accountMap.codeAt a
    rw [hσ, AccountMap.codeAt_selfdestructAccounts]
  have hopened : s'.ledger.opened = s.ledger.opened := by
    show {a | a ∈ s'.createdAccounts} = {a | a ∈ s.createdAccounts}
    rw [hcreated]
  by_cases hopen : s.createdAccounts.contains s.executionEnv.codeOwner
  · -- the running account is open: the move is `le_doom`
    refine (Registry.le_doom (r := s.ledger) (a := s.executionEnv.codeOwner) hopen).trans ?_
    refine Registry.le_of_same hentry hopened.le fun a ha => ?_
    have hins : a ∈ s'.substate.selfDestructSet := ha
    rw [hdoomed, if_pos hopen] at hins
    exact TreeFold.mem_insert_iff.1 hins
  · refine Registry.le_of_same hentry hopened.le fun a ha => ?_
    have hsame : a ∈ s'.substate.selfDestructSet := ha
    rw [hdoomed, if_neg hopen] at hsame
    exact hsame

/-- An instruction that calls nobody takes the ledger to a legal future. -/
theorem step_le (E : Externals) (op : Operation) (arg : Option (UInt256 × ℕ))
    (hcall : op.isCallOrCreate = false) :
    Ensures (EvmYul.step E op arg s) fun s' => s.ledger ≤ s'.ledger := by
  by_cases hop : op = .SELFDESTRUCT
  · subst hop
    exact selfdestruct_le
  · exact (step_keeps E op arg hop hcall).mono fun _ h => h.ledger.ge

/-- The check for exceptional halting changes the gas only. -/
theorem X.Z_ledger {validJumps : Array UInt256} {w : Operation} {s : State} {r : State × ℕ}
    (h : X.Z validJumps w s = .ok r) : r.1.ledger = s.ledger := by
  rw [(X.Z_spec validJumps w s r h).state]
  rfl

/-! ## `CREATE` and `CREATE2` -/

/-- Counting up the nonce of the creator changes no code. -/
theorem create.Input.toΛ_ledger (c : create.Input) : c.toΛ.world.ledger = c.evmState.ledger := by
  refine World.ledger_congr (AccountMap.codeAt_insert ?_) rfl rfl
  exact AccountMap.codeAt_getD _ _

/-! ## `Lambda` -/

namespace Lambda.Input

variable (x : Lambda.Input) (a : AccountAddress)

theorem deployed_existentAccount : (x.existentAccount a).deployed = x.σ.codeAt a := by
  rw [existentAccount, Std.TreeMap.getD_eq_getD_getElem?]
  exact AccountMap.codeAt_getD _ _

/-- Where there is no collision there is no code. -/
theorem codeAt_of_not_collision (h : ¬x.collision a) : x.σ.codeAt a = none := by
  have hcode : (x.existentAccount a).code.size = 0 := by
    by_contra hne
    exact h (.inr (.inl hne))
  rw [← x.deployed_existentAccount a, Account.deployed, if_pos hcode]

/-- The endowment changes no code. -/
theorem codeAt_σStar : (x.σStar a).codeAt = x.σ.codeAt := by
  unfold σStar
  cases hs : x.σ[x.s]? with
  | none => rfl
  | some ac =>
    refine AccountMap.codeAt_insert_insert (AccountMap.codeAt_of_some hs).symm ?_
    exact x.deployed_existentAccount a

/-- The address is opened only if nobody lives there. -/
theorem le_created (σ' : AccountMap) (A' : Substate) (hσ : σ'.codeAt = x.σ.codeAt)
    (hA : A'.selfDestructSet = x.A.selfDestructSet) :
    x.world.ledger ≤ (World.mk σ' (x.created a) A').ledger := by
  by_cases h : x.collision a
  · have hc : x.created a = x.createdAccounts := if_pos h
    exact (World.ledger_congr (w := x.world) hσ hc hA).ge
  · have hc : x.created a = x.createdAccounts.insert a := if_neg h
    refine (Registry.le_openAt (r := x.world.ledger) (x.codeAt_of_not_collision a h)).trans ?_
    refine Registry.le_of_same (fun b => (congrFun hσ b).symm) (fun b hb => ?_) fun b hb => ?_
    · have hins : b ∈ x.created a := hb
      rw [hc] at hins
      exact TreeFold.mem_insert_iff.1 hins
    · have hdoomed : b ∈ A'.selfDestructSet := hb
      rw [hA] at hdoomed
      exact hdoomed

/-- The initialisation code runs in a legal future. -/
theorem le_toΞ : x.world.ledger ≤ (x.toΞ a).world.ledger :=
  x.le_created a _ _ (x.codeAt_σStar a) rfl

/-- Code is deposited only where there was none. -/
theorem codeAt_of_not_F {g : UInt256} {d : ByteArray} (h : ¬x.F a g d) : x.σ.codeAt a = none := by
  cases ha : x.σ[a]? with
  | none => exact AccountMap.codeAt_of_none ha
  | some ac =>
    have hempty : ac.code = .empty := by
      by_contra hne
      refine h (.inl ?_)
      rw [ha]
      exact .inl hne
    rw [AccountMap.codeAt_of_some ha, Account.deployed, hempty]
    rfl

/-- The result of an initialisation code that succeeds. -/
theorem le_deposit {r : Ξ.Outcome} (hr : (x.toΞ a).world.ledger ≤ r.world.ledger) (d : ByteArray) :
    x.world.ledger ≤ (x.deposit a r d).world.ledger := by
  have hle : x.world.ledger ≤ r.world.ledger := (x.le_toΞ a).trans hr
  unfold deposit
  split
  · -- rolled back, but the accounts created on the way stay marked
    exact Registry.le_rollback hle
  next hF =>
    refine Registry.le_deposit hle (x.codeAt_of_not_F a hF) fun b hb => ?_
    exact AccountMap.codeAt_insert_ne (Ne.symm hb)

end Lambda.Input

/-! ## `Θ` -/

namespace Θ.Input

variable (x : Θ.Input)

theorem codeAt_σ'₁ : x.σ'₁.codeAt = x.σ.codeAt := by
  unfold σ'₁
  cases hr : x.σ[x.r]? with
  | none =>
    dsimp only
    split
    · exact AccountMap.codeAt_insert_fresh hr _
    · rfl
  | some acc => exact AccountMap.codeAt_insert (AccountMap.codeAt_of_some hr).symm

/-- The transfer of the value changes no code. -/
theorem codeAt_σ₁ : x.σ₁.codeAt = x.σ.codeAt := by
  unfold σ₁
  cases hs : x.σ'₁[x.s]? with
  | none => exact x.codeAt_σ'₁
  | some acc =>
    rw [← x.codeAt_σ'₁]
    exact AccountMap.codeAt_insert (AccountMap.codeAt_of_some hs).symm

theorem toΞ_ledger : x.toΞ.world.ledger = x.world.ledger :=
  World.ledger_congr (w := x.world) x.codeAt_σ₁ rfl rfl

end Θ.Input

/-- A result with the accounts and marks of before, and no more created accounts. -/
theorem World.ledger_le_of_forget {w : World} {σ' : AccountMap} {cA : AddrSet}
    (hσ : σ'.codeAt = w.σ.codeAt) (hcA : ∀ b ∈ cA, b ∈ w.createdAccounts) :
    w.ledger ≤ (World.mk σ' cA w.A).ledger :=
  Registry.le_of_same (fun b => (congrFun hσ b).symm) (fun b hb => hcA b hb) fun _ hb => hb

/-! ## Runs -/

/-- **Every run is a legal future** of the world it starts in. -/
theorem Yields.ledger_le {E : Externals} {i : Invocation} {w : World} (h : Yields E i w) :
    i.world.ledger ≤ w.ledger := by
  induction h with
  | call_refused | step_not_created => exact le_rfl
  | call_made _ _ ih | Ξ_code _ ih => exact ih
  | @step_instr _ gasCost _ s _ p _ hop h =>
    exact step_le (s := s.count.charge gasCost) E p.1 p.2 hop _ h
  | @step_call _ _ _ s _ c _ _ _ hcall _ ih =>
    have hs : c.evmState.ledger = s.ledger := by rw [step.callInput_evmState hcall]; rfl
    exact hs.ge.trans ih
  | @step_created _ _ _ s _ c _ _ hcreate _ _ _ ih =>
    have hs : c.evmState.ledger = s.ledger := by rw [step.createInput_evmState hcreate]; rfl
    exact (c.toΛ_ledger.trans hs).ge.trans ih
  | X_halt hZ _ ih => exact (X.Z_ledger hZ).ge.trans ih
  | X_next hZ _ _ _ _ ihstep ihX => exact (X.Z_ledger hZ).ge.trans (ihstep.trans ihX)
  | @Lambda_failed _ x _ _ => exact x.le_created _ x.σ (x.AStar _) rfl rfl
  | @Lambda_discarded _ x _ _ _ _ ih => exact Registry.le_rollback ((x.le_toΞ _).trans ih)
  | @Lambda_deposited _ x _ _ _ _ _ hF _ ih =>
    refine Registry.le_deposit ((x.le_toΞ _).trans ih) (x.codeAt_of_not_F _ hF) fun b hb => ?_
    exact AccountMap.codeAt_insert_ne (Ne.symm hb)
  | Θ_failed => exact le_rfl
  | @Θ_precompiled_failed _ x =>
    exact World.ledger_le_of_forget (w := x.world) rfl fun _ hb =>
      absurd hb Std.TreeSet.not_mem_emptyc
  | @Θ_precompiled _ x =>
    exact World.ledger_le_of_forget (w := x.world) x.codeAt_σ₁ fun _ hb =>
      absurd hb Std.TreeSet.not_mem_emptyc
  | @Θ_code _ x _ _ _ _ ih => exact x.toΞ_ledger.ge.trans ih
  | @Θ_emptied _ x _ _ _ _ ih => exact Registry.le_rollback (x.toΞ_ledger.ge.trans ih)

/-- What an invocation hands on is a legal future of what it started with. -/
theorem Returned.ledger_le {E : Externals} {i : Invocation} {w : World} (h : Returned E i w) :
    i.world.ledger ≤ w.ledger :=
  h.yields.ledger_le

/-- The frames invoked see a legal future. -/
theorem Invokes.ledger_le {E : Externals} {i j : Invocation} (h : Invokes E i j) :
    i.world.ledger ≤ j.world.ledger := by
  cases h with
  | call_Θ _ => exact le_rfl
  | @step_call _ _ _ s _ c _ _ hcall =>
    have hs : c.evmState.ledger = s.ledger := by rw [step.callInput_evmState hcall]; rfl
    exact hs.ge
  | @step_Lambda _ _ _ s _ c _ hcreate _ _ =>
    have hs : c.evmState.ledger = s.ledger := by rw [step.createInput_evmState hcreate]; rfl
    exact (c.toΛ_ledger.trans hs).ge
  | X_step hZ => exact (X.Z_ledger hZ).ge
  | @X_X f _ _ _ s' _ hZ hstep _ =>
    exact (X.Z_ledger hZ).ge.trans (Returned.ledger_le (i := .step f _ _ _) ⟨s', hstep, rfl⟩)
  | Ξ_X => exact le_rfl
  | @Lambda_Ξ _ x _ _ => exact x.le_toΞ _
  | @Θ_Ξ _ x _ _ => exact x.toΞ_ledger.ge

/-- So do all frames of a run. -/
theorem Reaches.ledger_le {E : Externals} {i j : Invocation} (h : Reaches E i j) :
    i.world.ledger ≤ j.world.ledger := by
  induction h with
  | refl => exact le_rfl
  | tail _ hjk ih => exact ih.trans hjk.ledger_le

end EVM
end EvmYul
