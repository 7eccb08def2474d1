import EvmModel.Accounts
import EvmModel.Lib.Holders
import EvmModel.Ownership
import EvmModel.Static

/-!
# No run makes ether

The total balance of all accounts never grows along a run: messages and
endowments move what the sender has, self-destructions move or burn, and
nothing else touches a balance.  The one step that would make ether, the
endowment of a new account at the address of its creator, is followed by code
that raises an exception, and is rolled back.

All balances together have to fit into a word, or a credit could wrap around.

* `AccountMap.total` — the total balance;
* `Invocation.Solvent` — the sender of a message has what it sends, a creator has
  a nonce, and a call sends from the account that runs;
* `total_le` — the total after a run is at most the one before it.
-/

namespace EvmYul

namespace AccountMap

/-- The balance at an address, as a number. -/
def bal (σ : AccountMap) (a : AccountAddress) : ℕ := (σ.account a).balance.val

/-- The balances of all accounts together. -/
noncomputable def total (σ : AccountMap) : ℕ := ∑ a, σ.bal a

variable {σ σ' : AccountMap} {a b : AccountAddress} {acc : Account}

theorem bal_lt (σ : AccountMap) (a : AccountAddress) : σ.bal a < 2 ^ 256 :=
  (σ.account a).balance.isLt

theorem bal_add_bal_le_total (σ : AccountMap) (h : a ≠ b) : σ.bal a + σ.bal b ≤ σ.total :=
  Holders.add_le_total σ.bal h

theorem bal_congr (h : σ'.account a = σ.account a) : σ'.bal a = σ.bal a := by rw [bal, bal, h]

theorem total_congr (h : ∀ a, σ'.bal a = σ.bal a) : σ'.total = σ.total :=
  Finset.sum_congr rfl fun a _ => h a

/-- Writing an account back with its balance changes no balance. -/
theorem bal_insert (h : acc.balance = (σ.account a).balance) (b : AccountAddress) :
    bal (σ.insert a acc) b = σ.bal b := by
  unfold bal
  rw [account_insert]
  split
  next hab => rw [h, hab]
  · rfl

theorem total_empty : total ∅ = 0 :=
  Finset.sum_eq_zero fun a _ => by
    rw [bal, account_of_none Std.TreeMap.getElem?_emptyc]
    rfl

/-- Writing an account with at most `v` more than was there adds at most `v`. -/
theorem total_insert_le {v : ℕ} (h : acc.balance.val ≤ σ.bal a + v) :
    total (σ.insert a acc) ≤ σ.total + v := by
  have hchange := Holders.total_change (f := σ.bal) (g := bal (σ.insert a acc)) (a := a)
    fun b hb => by rw [bal, bal, account_insert_ne hb.symm]
  have hself : bal (σ.insert a acc) a = acc.balance.val := by rw [bal, account_insert_self]
  rw [hself] at hchange
  show ∑ b, bal (σ.insert a acc) b ≤ ∑ b, σ.bal b + v
  omega

theorem total_insert_lt {n : ℕ} (h : σ.total < n - acc.balance.val) :
    total (σ.insert a acc) < n :=
  lt_of_le_of_lt (total_insert_le (Nat.le_add_left _ _)) (Nat.add_lt_of_lt_sub h)

/-- A move of `v` from `s` to `r` keeps the total. -/
theorem total_transfer {s r : AccountAddress} {v : ℕ} (hsr : s ≠ r) (hs : σ'.bal s = σ.bal s - v)
    (hr : σ'.bal r = σ.bal r + v) (h : ∀ a, a ≠ s → a ≠ r → σ'.bal a = σ.bal a)
    (hv : v ≤ σ.bal s) : σ'.total = σ.total :=
  Holders.total_move hsr h (by omega)

end AccountMap

namespace EVM

open AccountMap

/-! ## Messages -/

namespace Θ.Input

variable {x : Θ.Input}

theorem account_σ₁_of_inward (h : x.Inward) (a : AccountAddress) :
    x.σ₁.account a = x.σ.account a := by
  rw [account, account, x.getElem?_σ₁ h]

/-- A sender that has something is there when the value is debited. -/
theorem getElem?_σ'₁_ne_none (h : x.σ.bal x.s ≠ 0) : x.σ'₁[x.s]? ≠ none := by
  intro hnone
  refine h ?_
  by_cases hsr : x.r = x.s
  · -- the recipient is there once it has been credited, or nobody was there
    cases hr : x.σ[x.r]? with
    | none => rw [bal, ← hsr, account_of_none hr]; rfl
    | some acc =>
      simp only [σ'₁, hr, ← hsr, Std.TreeMap.getElem?_insert_self, reduceCtorEq] at hnone
  · have hacc := account_of_none hnone
    rw [account_σ'₁, if_neg hsr] at hacc
    rw [bal, hacc]
    rfl

/-- What a message leaves at an address: the sender has sent, and the recipient
has received. -/
theorem bal_σ₁ (hv : x.v.val ≤ x.σ.bal x.s) (htotal : x.σ.total < 2 ^ 256) (hsr : x.s ≠ x.r)
    (a : AccountAddress) : x.σ₁.bal a =
      if x.s = a then x.σ.bal x.s - x.v.val
      else if x.r = a then x.σ.bal x.r + x.v.val
      else x.σ.bal a := by
  by_cases hzero : x.v = 0
  · rw [bal_congr (x.account_σ₁_of_inward (.inl hzero) a), hzero, Fin.val_zero]
    split
    next h => rw [← h]; rfl
    · split
      next h => rw [← h]; rfl
      · rfl
  have hpos : x.σ.bal x.s ≠ 0 := by
    have hne : x.v.val ≠ 0 := fun h => hzero (Fin.ext h)
    omega
  have hfits : x.σ.bal x.r + x.v.val < 2 ^ 256 := by
    have hsum := x.σ.bal_add_bal_le_total hsr
    omega
  unfold bal at hv hpos hfits ⊢
  rw [account_σ₁, account_σ'₁, account_σ'₁, if_neg hsr.symm]
  by_cases hsa : x.s = a
  · rw [if_pos ⟨hsa, getElem?_σ'₁_ne_none hpos⟩, if_pos hsa]
    exact Fin.sub_val_of_le hv
  · rw [if_neg fun h => hsa h.1, if_neg hsa]
    split
    next hra => exact UInt256.val_add_of_lt hfits
    · rfl

/-- A message that is funded keeps the total. -/
theorem total_σ₁ (hv : x.v.val ≤ x.σ.bal x.s) (htotal : x.σ.total < 2 ^ 256) :
    x.σ₁.total = x.σ.total := by
  by_cases hsr : x.s = x.r
  · refine total_congr fun a => bal_congr (x.account_σ₁_of_inward (.inr ⟨hsr, ?_⟩) a)
    rw [balance_eq, ← hsr]
    exact hv
  · have hbal := x.bal_σ₁ hv htotal hsr
    refine total_transfer hsr ?_ ?_ (fun a hs hr => ?_) hv
    · rw [hbal, if_pos rfl]
    · rw [hbal, if_neg hsr, if_pos rfl]
    · rw [hbal, if_neg hs.symm, if_neg hr.symm]

end Θ.Input

/-! ## Self-destruction -/

/-- A self-destruction moves what the running account has, or burns it. -/
theorem total_selfdestructAccounts_le {σ : AccountMap} (htotal : σ.total < 2 ^ 256)
    (Iₐ r : AccountAddress) (createdHere : Bool) :
    (selfdestructAccounts σ Iₐ r createdHere).total ≤ σ.total := by
  have hacc := account_selfdestructAccounts σ Iₐ r createdHere
  by_cases hr : r = Iₐ
  · refine Holders.total_le fun a => ?_
    unfold bal
    rw [hacc]
    split
    · rfl
    · split
      · exact Nat.zero_le _
      next h₁ => rw [if_neg (hr ▸ h₁)]
  · have hkeep : ¬(r = Iₐ ∧ createdHere = false) := fun h => hr h.1
    have hfits : σ.bal r + σ.bal Iₐ < 2 ^ 256 :=
      lt_of_le_of_lt (σ.bal_add_bal_le_total hr) htotal
    refine (total_transfer (s := Iₐ) (r := r) (v := σ.bal Iₐ) (Ne.symm hr) ?_ ?_ ?_ le_rfl).le
    · unfold bal
      rw [hacc, if_neg hkeep, if_pos rfl, Nat.sub_self]
      rfl
    · unfold bal at hfits ⊢
      rw [hacc, if_neg hkeep, if_neg (Ne.symm hr), if_pos rfl]
      exact UInt256.val_add_of_lt hfits
    · intro a hI ha
      unfold bal
      rw [hacc, if_neg hkeep, if_neg hI.symm, if_neg ha.symm]

/-! ## The instructions -/

/-- Balances can be read off the core. -/
theorem bal_of_core {σ σ' : AccountMap} (h : σ'.core = σ.core) (a : AccountAddress) :
    σ'.bal a = σ.bal a := by
  have hbal : ∀ σ : AccountMap, σ.bal a = ((σ.core a).map fun c => c.2.1.val).getD 0 := by
    intro σ
    rw [bal, account, core, Option.map_map]
    cases σ[a]? <;> rfl
  rw [hbal, hbal, h]

/-- An instruction that calls nobody makes no ether. -/
theorem step_total_le (E : Externals) (op : Operation) (arg : Option (UInt256 × ℕ)) (s : State)
    (hcall : op.isCallOrCreate = false) (htotal : s.accountMap.total < 2 ^ 256) :
    Ensures (EvmYul.step E op arg s) fun s' => s'.accountMap.total ≤ s.accountMap.total := by
  by_cases hop : op = .SELFDESTRUCT
  · subst hop
    refine selfdestruct_spec.mono ?_
    rintro s' ⟨-, ⟨r, b, hσ⟩, -⟩
    rw [hσ]
    exact total_selfdestructAccounts_le htotal _ r b
  · refine (step_keeps E op arg hop hcall).mono fun s' h => ?_
    exact (total_congr (bal_of_core (congrArg Core.accounts h.1))).le

/-! ## Creations -/

/-- The byte that stands for no instruction. -/
theorem X.instr_invalid {s : State} (hcode : s.executionEnv.code = ⟨#[0xfe]⟩) (hpc : s.pc = 0) :
    (X.instr s).1 = .INVALID := by
  rw [X.instr, hcode, hpc]
  rfl

/-- Code that starts with it hands nothing on. -/
theorem Yields.ne_invalid {E : Externals} {f : ℕ} {x : Ξ.Input} {w : World}
    (h : Yields E (.Ξ f x) w) : x.I.code ≠ ⟨#[0xfe]⟩ := by
  intro hcode
  have hinvalid : (X.instr x.fresh).1 = .INVALID := X.instr_invalid hcode rfl
  cases h with
  | Ξ_code hX =>
    cases hX with
    | X_halt hZ | X_next hZ =>
      refine (X.Z_spec _ _ _ _ hZ).valid ?_
      rw [hinvalid]
      rfl

namespace Lambda.Input

variable {x : Lambda.Input} {a : AccountAddress}

/-- No initialisation code succeeds at an address that is taken. -/
theorem not_collision_of_yields {E : Externals} {f : ℕ} {w : World}
    (h : Yields E (.Ξ f (x.toΞ a)) w) : ¬x.collision a :=
  fun hcollision => h.ne_invalid (if_pos hcollision)

theorem existentAccount_eq (x : Lambda.Input) (a : AccountAddress) :
    x.existentAccount a = x.σ.account a := by
  rw [existentAccount, Std.TreeMap.getD_eq_getD_getElem?, account]

/-- The creator is not the new account: it has a nonce. -/
theorem ne_of_not_collision (hnonce : (x.σ.account x.s).nonce ≠ 0) (h : ¬x.collision a) :
    x.s ≠ a := by
  rintro rfl
  refine h (.inl ?_)
  rw [existentAccount_eq]
  exact hnonce

/-- What the endowment of the new account leaves at an address. -/
theorem bal_σStar (hv : x.v.val ≤ x.σ.bal x.s) (htotal : x.σ.total < 2 ^ 256) (hsa : x.s ≠ a)
    (b : AccountAddress) : (x.σStar a).bal b =
      if x.s = b then x.σ.bal x.s - x.v.val
      else if a = b then x.σ.bal a + x.v.val
      else x.σ.bal b := by
  have hfits : x.v.val + x.σ.bal a < 2 ^ 256 := by
    have hsum := x.σ.bal_add_bal_le_total hsa
    omega
  unfold σStar
  cases hs : x.σ[x.s]? with
  | none =>
    -- nobody is there to pay, so nothing is paid
    have hzero : x.v.val = 0 := by
      rw [bal, account_of_none hs] at hv
      exact Nat.le_zero.1 hv
    dsimp only
    rw [hzero]
    split
    next h => rw [← h]; rfl
    · split
      next h => rw [← h]; rfl
      · rfl
  | some ac =>
    unfold bal at hv hfits ⊢
    rw [account_of_some hs] at hv ⊢
    dsimp only
    rw [account_insert, account_insert]
    by_cases hsb : x.s = b
    · rw [if_neg (fun h => hsa (hsb.trans h.symm)), if_pos hsb, if_pos hsb]
      exact Fin.sub_val_of_le hv
    · rw [if_neg hsb, if_neg hsb]
      split
      · rw [Nat.add_comm]
        simp only [newAccount, existentAccount_eq]
        exact UInt256.val_add_of_lt hfits
      · rfl

/-- The endowment of a new account keeps the total. -/
theorem total_σStar (hv : x.v.val ≤ x.σ.bal x.s) (htotal : x.σ.total < 2 ^ 256)
    (hsa : x.s ≠ a) : (x.σStar a).total = x.σ.total := by
  have hbal := x.bal_σStar hv htotal hsa
  refine total_transfer hsa ?_ ?_ (fun b hs ha => ?_) hv
  · rw [hbal, if_pos rfl]
  · rw [hbal, if_neg hsa, if_pos rfl]
  · rw [hbal, if_neg hs.symm, if_neg ha.symm]

end Lambda.Input

/-- Depositing code changes no balance. -/
theorem bal_deposit (σ : AccountMap) (a : AccountAddress) (d : ByteArray) (b : AccountAddress) :
    bal (σ.insert a { σ.getD a default with code := d }) b = σ.bal b := by
  refine bal_insert ?_ b
  rw [Std.TreeMap.getD_eq_getD_getElem?, account]

/-- Counting up the nonce of the creator changes no balance. -/
theorem create.Input.bal_σStar (c : create.Input) (b : AccountAddress) :
    c.σStar.bal b = c.evmState.accountMap.bal b := by
  unfold σStar
  refine bal_insert ?_ b
  rfl

/-! ## Senders that have what they send -/

namespace Invocation

/-- The sender of a message or a creation has what it sends, a creator has a nonce
other than zero, and a call sends from the account that runs or sends nothing. -/
def Solvent : Invocation → Prop
  | .call _ c =>
    c.value = 0 ∨ AccountAddress.ofUInt256 c.source = c.evmState.executionEnv.codeOwner
  | .Θ _ x => x.v.val ≤ x.σ.bal x.s
  | .Lambda _ x => x.v.val ≤ x.σ.bal x.s ∧ (x.σ.account x.s).nonce ≠ 0
  | _ => True

end Invocation

/-- A call sends from the running account, or sends nothing. -/
theorem step.callInput_solvent {w : Operation} {gasCost f : ℕ} {s : State} {c : call.Input}
    {stack : Stack} (h : step.callInput w gasCost s = some (c, stack)) :
    (Invocation.call f c).Solvent := by
  unfold step.callInput at h
  dsimp only at h
  split at h
  · cases h
    exact .inr (AccountAddress.ofUInt256_ofNat _)
  · cases h
    exact .inr (AccountAddress.ofUInt256_ofNat _)
  · cases h
    exact .inl rfl
  · cases h
    exact .inl rfl
  · cases h

/-- A call that is allowed is funded. -/
theorem call.Input.funded {f : ℕ} {c : call.Input} (h : (Invocation.call f c).Solvent)
    (hallowed : c.allowed) : c.toΘ.v.val ≤ c.toΘ.σ.bal c.toΘ.s := by
  show c.value.val ≤ c.evmState.accountMap.bal (.ofUInt256 c.source)
  obtain hv | hs := h
  · rw [hv]
    exact Nat.zero_le _
  · rw [hs, bal, ← balance_eq]
    exact hallowed.1

/-- A creation that is allowed is funded, and its creator has a nonce. -/
theorem create.Input.funded {c : create.Input} (hnonce : ¬2 ^ 64 - 1 ≤ c.σ_Iₐ.nonce.val)
    (hallowed : c.allowed) :
    c.toΛ.v.val ≤ c.toΛ.σ.bal c.toΛ.s ∧ (c.toΛ.σ.account c.toΛ.s).nonce ≠ 0 := by
  refine ⟨?_, ?_⟩
  · show c.μ₀.val ≤ c.σStar.bal c.evmState.executionEnv.codeOwner
    rw [c.bal_σStar, bal, ← balance_eq]
    exact hallowed.1
  · have hself : (c.toΛ.σ.account c.toΛ.s).nonce = c.σ_Iₐ.nonce + 1 :=
      congrArg Account.nonce account_insert_self
    have hone : (1 : UInt256).val = 1 := rfl
    have hval : (c.σ_Iₐ.nonce + 1).val = c.σ_Iₐ.nonce.val + (1 : UInt256).val :=
      UInt256.val_add_of_lt (by omega)
    rw [hself]
    intro hzero
    rw [hzero, hone] at hval
    cases hval

/-- The invocations made are solvent. -/
theorem Invocation.Solvent.of_invokes {E : Externals} {i j : Invocation} (hi : i.Solvent)
    (h : Invokes E i j) : j.Solvent := by
  cases h with
  | call_Θ hallowed => exact call.Input.funded hi hallowed
  | step_call _ hcall => exact step.callInput_solvent hcall
  | step_Lambda _ _ hnonce hallowed => exact create.Input.funded hnonce hallowed
  | X_step | X_X | Ξ_X | Lambda_Ξ | Θ_Ξ => trivial

/-! ## Runs -/

/-- The counting up of the nonce keeps the total. -/
theorem create.Input.total_toΛ {w : Operation} {gasCost : ℕ} {s : State} {c : create.Input}
    (h : step.createInput w (s.count.charge gasCost) = some c) :
    c.toΛ.σ.total = s.accountMap.total := by
  have hσ : c.evmState.accountMap = s.accountMap := congrArg World.σ (step.createInput_world h)
  rw [← hσ]
  exact total_congr c.bal_σStar

/-- What an invocation hands on has no more ether than it started with. -/
theorem Yields.total_le {E : Externals} {i : Invocation} {w : World} (h : Yields E i w)
    (hi : i.Solvent) (htotal : i.world.σ.total < 2 ^ 256) : w.σ.total ≤ i.world.σ.total := by
  induction h with
  | call_refused | step_not_created | Lambda_failed | Lambda_discarded | Θ_failed
  | Θ_precompiled_failed | Θ_emptied => exact le_rfl
  | call_made h _ ih => exact ih (call.Input.funded hi h) htotal
  | @step_instr _ gasCost _ s _ p _ hop h =>
    exact step_total_le E p.1 p.2 (s.count.charge gasCost) hop htotal _ h
  | step_call _ hcall _ ih =>
    rw [Invocation.world, step.callInput_world hcall] at ih
    exact ih (step.callInput_solvent hcall) htotal
  | step_created _ hcreate hnonce hallowed _ ih =>
    have hcount := create.Input.total_toΛ hcreate
    have hle := ih (create.Input.funded hnonce hallowed) (lt_of_eq_of_lt hcount htotal)
    exact hle.trans_eq hcount
  | X_halt hZ _ ih =>
    rw [Invocation.world, X.Z_world hZ] at ih
    exact ih trivial htotal
  | X_next hZ _ _ _ _ ihstep ihX =>
    rw [Invocation.world, X.Z_world hZ] at ihstep
    have hle := ihstep trivial htotal
    exact (ihX trivial (lt_of_le_of_lt hle htotal)).trans hle
  | Ξ_code _ ih => exact ih trivial htotal
  | @Lambda_deposited _ x _ _ _ _ _ _ hΞ ih =>
    -- the code has succeeded, so the address is not the one of the creator
    have hsa := x.ne_of_not_collision hi.2 (x.not_collision_of_yields hΞ)
    have hendow := x.total_σStar hi.1 htotal hsa
    have hle := (ih trivial (lt_of_eq_of_lt hendow htotal)).trans_eq hendow
    exact (total_congr (bal_deposit _ _ _)).trans_le hle
  | @Θ_precompiled _ x => exact (x.total_σ₁ hi htotal).le
  | @Θ_code _ x _ _ hc _ ih =>
    have hmove := x.total_σ₁ hi htotal
    exact (ih trivial (lt_of_eq_of_lt hmove htotal)).trans_eq hmove

/-- **No run makes ether.**  When the invocation at the top is solvent, and all the
ether there is fits into a word, the world it hands on has no more of it. -/
theorem no_run_makes_ether (E : Externals) {i : Invocation} (hi : i.Solvent)
    (htotal : i.world.σ.total < 2 ^ 256) {w : World} (hw : Returned E i w) :
    w.σ.total ≤ i.world.σ.total :=
  hw.yields.total_le hi htotal

/-- `0xfeed` has the five wei it sends. -/
theorem payDonating_solvent (f : ℕ) : (Invocation.Θ f payDonating).Solvent := by
  show payDonating.v.val ≤ payDonating.σ.bal payDonating.s
  decide +kernel

theorem payDonating_fits : payDonating.σ.total < 2 ^ 256 := by
  refine total_insert_lt (total_insert_lt (total_insert_lt ?_))
  rw [total_empty]
  decide

/-- The contract has run and given its ether away, and there is no more than before. -/
theorem no_run_makes_ether_payDonating :
    ∃ w, Returned (Frame.aimedAt 0) (.Θ 10 payDonating) w ∧
      (w.σ.account 0xbeef).storage[(0 : UInt256)]? = some 1 ∧
      w.σ.total ≤ payDonating.σ.total := by
  obtain ⟨w, hw, hstored⟩ := payDonating_returned
  exact ⟨w, hw, hstored, no_run_makes_ether _ (payDonating_solvent 10) payDonating_fits hw⟩

end EVM
end EvmYul
