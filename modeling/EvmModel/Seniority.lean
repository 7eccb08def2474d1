import EvmModel.Lib.Registry
import EvmModel.Permanence
import EvmModel.Supply
import EvmModel.Warm

/-!
# Nonces only count up

An account whose nonce has reached `k` keeps it there: creations count the nonce
of their creator up, a new account is made only where there is no nonce, and an
account is removed only if it was created in the same transaction.

For every `k` the accounts with a nonce of at least `k` are the entries of a
registry, and every run takes it to a legal future.

* `World.senior` — the registry;
* `Yields.senior_le` — every run is a legal future;
* `Υ_nonces` — a transaction takes no nonce back, and counts up the one of its
  sender.
-/

namespace EvmYul

/-- The nonce at an address, as a number. -/
def AccountMap.nonce (σ : AccountMap) (a : AccountAddress) : ℕ := (σ.account a).nonce.val

namespace AccountMap

variable {σ σ' : AccountMap} {a b : AccountAddress} {acc : Account}

theorem nonce_congr (h : (σ'.account a).holdings = (σ.account a).holdings) :
    σ'.nonce a = σ.nonce a :=
  congrArg (fun h : UInt256 × Storage × ByteArray × Storage => h.1.val) h

/-- Writing an account back with its nonce changes no nonce. -/
theorem nonce_insert (h : acc.nonce = (σ.account a).nonce) (b : AccountAddress) :
    nonce (σ.insert a acc) b = σ.nonce b := by
  unfold nonce
  rw [account_insert]
  split
  next hab => rw [h, hab]
  · rfl

/-- Writing an account back with a higher nonce. -/
theorem le_nonce_insert (h : (σ.account a).nonce.val ≤ acc.nonce.val) (b : AccountAddress) :
    σ.nonce b ≤ nonce (σ.insert a acc) b := by
  unfold nonce
  rw [account_insert]
  split
  next hab => rw [← hab]; exact h
  · exact le_rfl

/-- Nonces can be read off the core. -/
theorem nonce_of_core (h : σ'.core = σ.core) (a : AccountAddress) : σ'.nonce a = σ.nonce a := by
  have hnonce : ∀ σ : AccountMap, σ.nonce a = ((σ.core a).map fun c => c.1.val).getD 0 := by
    intro σ
    rw [nonce, account, core, Option.map_map]
    cases σ[a]? <;> rfl
  rw [hnonce, hnonce, h]

/-- A nonce that is not the last one can be counted up. -/
theorem val_nonce_add_one {n : UInt256} (h : n.val < 2 ^ 64 - 1) : (n + 1).val = n.val + 1 := by
  have hone : (1 : UInt256).val = 1 := rfl
  rw [UInt256.val_add_of_lt (by omega), hone]

end AccountMap

open AccountMap

/-! ## The registry -/

namespace World

/-- The accounts with a nonce of at least `k`. -/
def senior (k : ℕ) (w : World) : Registry AccountAddress Unit where
  entry a := if k ≤ w.σ.nonce a then some () else none
  opened := {a | a ∈ w.createdAccounts}
  doomed := {a | a ∈ w.A.selfDestructSet}

variable {k : ℕ} {w w' : World} {a : AccountAddress}

theorem senior_entry : (w.senior k).entry a = some () ↔ k ≤ w.σ.nonce a := by
  simp [senior]

theorem senior_entry_eq_none (h : w.σ.nonce a < k) : (w.senior k).entry a = none := by
  simp [senior, h]

/-- Nonces that have not gone down, with the same marks. -/
theorem senior_le_of_nonces (hσ : ∀ a, w.σ.nonce a ≤ w'.σ.nonce a)
    (hc : ∀ a ∈ w'.createdAccounts, a ∈ w.createdAccounts)
    (hA : w'.A.selfDestructSet = w.A.selfDestructSet) : w.senior k ≤ w'.senior k := by
  refine Registry.le_of_extends (fun a _ h => ?_) (fun a h => hc a h) (fun a h => ?_)
  · exact senior_entry.2 ((senior_entry.1 h).trans (hσ a))
  · have hdoomed : a ∈ w'.A.selfDestructSet := h
    rw [hA] at hdoomed
    exact hdoomed

end World

namespace EVM

/-! ## The instructions -/

/-- `SELFDESTRUCT` changes no nonce, and marks a new account only. -/
theorem selfdestruct_senior_le {s : State} (k : ℕ) :
    Ensures (selfdestruct s) fun s' => s.world.senior k ≤ s'.world.senior k := by
  refine selfdestruct_spec.mono ?_
  rintro s' ⟨-, ⟨r, b, hσ⟩, hcreated, hdoomed⟩
  have hnonce : ∀ a, s'.accountMap.nonce a = s.accountMap.nonce a := by
    intro a
    rw [hσ]
    exact nonce_congr (holdings_selfdestructAccounts _ _ _ _ _)
  have hentry : ∀ a, (s.world.senior k).entry a = (s'.world.senior k).entry a := by
    intro a
    show (if k ≤ s.accountMap.nonce a then some () else none) =
      if k ≤ s'.accountMap.nonce a then some () else none
    rw [hnonce]
  have hopened : (s'.world.senior k).opened = (s.world.senior k).opened := by
    show {a | a ∈ s'.createdAccounts} = {a | a ∈ s.createdAccounts}
    rw [hcreated]
  by_cases hopen : s.createdAccounts.contains s.executionEnv.codeOwner
  · refine (Registry.le_doom (r := s.world.senior k) (a := s.executionEnv.codeOwner) hopen).trans ?_
    refine Registry.le_of_same hentry hopened.le fun a ha => ?_
    have hins : a ∈ s'.substate.selfDestructSet := ha
    rw [hdoomed, if_pos hopen] at hins
    exact TreeFold.mem_insert_iff.1 hins
  · refine Registry.le_of_same hentry hopened.le fun a ha => ?_
    have hsame : a ∈ s'.substate.selfDestructSet := ha
    rw [hdoomed, if_neg hopen] at hsame
    exact hsame

theorem step_senior_le (E : Externals) (op : Operation) (arg : Option (UInt256 × ℕ)) (s : State)
    (hcall : op.isCallOrCreate = false) (k : ℕ) :
    Ensures (EvmYul.step E op arg s) fun s' => s.world.senior k ≤ s'.world.senior k := by
  by_cases hop : op = .SELFDESTRUCT
  · subst hop
    exact selfdestruct_senior_le k
  · refine (step_keeps E op arg hop hcall).mono fun s' h => ?_
    refine World.senior_le_of_nonces (fun a => ?_) (fun a ha => ?_) ?_
    · exact (nonce_of_core (congrArg Core.accounts h.1) a).ge
    · have hcreated : s'.createdAccounts = s.createdAccounts := congrArg Core.created h.1
      show a ∈ s.createdAccounts
      rw [← hcreated]
      exact ha
    · exact congrArg Core.doomed h.1

/-! ## Creations -/

/-- The creator counts its nonce up. -/
theorem create.Input.le_nonce_σStar {c : create.Input} (h : ¬2 ^ 64 - 1 ≤ c.σ_Iₐ.nonce.val)
    (a : AccountAddress) : c.evmState.accountMap.nonce a ≤ c.σStar.nonce a := by
  refine le_nonce_insert ?_ a
  show c.σ_Iₐ.nonce.val ≤ (c.σ_Iₐ.nonce + 1).val
  rw [val_nonce_add_one (not_le.1 h)]
  exact Nat.le_succ _

namespace Lambda.Input

variable {x : Lambda.Input} {a : AccountAddress} {k : ℕ}

theorem nonce_eq_zero_of_not_collision (h : ¬x.collision a) : x.σ.nonce a = 0 := by
  have hnonce : (x.existentAccount a).nonce = 0 := by
    by_contra hne
    exact h (.inl hne)
  rw [existentAccount_eq] at hnonce
  rw [nonce, hnonce]
  rfl

/-- The address is opened only if it has no nonce. -/
theorem senior_le_created (hk : 0 < k) {σ' : AccountMap} {A' : Substate}
    (hσ : ∀ b, x.σ.nonce b ≤ σ'.nonce b) (hA : A'.selfDestructSet = x.A.selfDestructSet) :
    x.world.senior k ≤ (World.mk σ' (x.created a) A').senior k := by
  by_cases h : x.collision a
  · have hc : x.created a = x.createdAccounts := if_pos h
    rw [hc]
    exact World.senior_le_of_nonces (w := x.world) hσ (fun _ hb => hb) hA
  · have hc : x.created a = x.createdAccounts.insert a := if_neg h
    have hnone : (x.world.senior k).entry a = none :=
      World.senior_entry_eq_none ((nonce_eq_zero_of_not_collision h).trans_lt hk)
    refine (Registry.le_openAt hnone).trans ?_
    refine Registry.le_of_extends (fun b _ hb => ?_) (fun b hb => ?_) fun b hb => ?_
    · exact World.senior_entry.2 ((World.senior_entry.1 hb).trans (hσ b))
    · have hins : b ∈ x.created a := hb
      rw [hc] at hins
      exact TreeFold.mem_insert_iff.1 hins
    · have hdoomed : b ∈ A'.selfDestructSet := hb
      rw [hA] at hdoomed
      exact hdoomed

/-- The endowment of a new account takes no nonce back. -/
theorem le_nonce_σStar (h : ¬x.collision a) (b : AccountAddress) :
    x.σ.nonce b ≤ (x.σStar a).nonce b := by
  have hzero := nonce_eq_zero_of_not_collision h
  unfold σStar
  cases hs : x.σ[x.s]? with
  | none => exact le_rfl
  | some ac =>
    have hsender : ∀ b, nonce (x.σ.insert x.s { ac with balance := ac.balance - x.v }) b =
        x.σ.nonce b := nonce_insert (by rw [account_of_some hs])
    refine (hsender b).ge.trans (le_nonce_insert ?_ b)
    have hfrom := hsender a
    unfold nonce at hfrom hzero
    rw [hfrom, hzero]
    exact Nat.zero_le _

/-- The initialisation code runs in a legal future, unless the address is taken. -/
theorem senior_le_toΞ (hk : 0 < k) (h : ¬x.collision a) :
    x.world.senior k ≤ (x.toΞ a).world.senior k :=
  senior_le_created hk (le_nonce_σStar h) rfl

end Lambda.Input

/-! ## Runs -/

/-- The world after the transfer of a message, with no more created accounts. -/
theorem Θ.Input.senior_le {x : Θ.Input} {cA : AddrSet} {k : ℕ}
    (hcA : ∀ a ∈ cA, a ∈ x.createdAccounts) :
    x.world.senior k ≤ (World.mk x.σ₁ cA x.A).senior k :=
  World.senior_le_of_nonces (w := x.world) (fun a => (nonce_congr (x.holdings_σ₁ a)).ge) hcA rfl

/-- **Every run is a legal future**: no nonce is taken back, accounts are
created only where there is no nonce, and marked only if they are new. -/
theorem Yields.senior_le {E : Externals} {i : Invocation} {w : World} (h : Yields E i w) {k : ℕ}
    (hk : 0 < k) : i.world.senior k ≤ w.senior k := by
  induction h with
  | call_refused | step_not_created | Θ_failed => exact le_rfl
  | call_made _ _ ih | Ξ_code _ ih => exact ih
  | @step_instr _ gasCost _ s _ p _ hop h =>
    exact step_senior_le E p.1 p.2 (s.count.charge gasCost) hop k _ h
  | step_call _ hcall _ ih =>
    rw [Invocation.world, step.callInput_world hcall] at ih
    exact ih
  | @step_created _ _ _ s _ c _ _ hcreate hnonce _ _ ih =>
    have hw := step.createInput_world hcreate
    have hcount : c.evmState.world.senior k ≤ c.toΛ.world.senior k :=
      World.senior_le_of_nonces (create.Input.le_nonce_σStar hnonce) (fun _ h => h) rfl
    rw [hw] at hcount
    exact hcount.trans ih
  | X_halt hZ _ ih =>
    rw [Invocation.world, X.Z_world hZ] at ih
    exact ih
  | X_next hZ _ _ _ _ ihstep ihX =>
    rw [Invocation.world, X.Z_world hZ] at ihstep
    exact ihstep.trans ihX
  | Lambda_failed => exact Lambda.Input.senior_le_created hk (fun _ => le_rfl) rfl
  | @Lambda_discarded _ x _ _ _ hΞ ih =>
    have hfree := x.not_collision_of_yields hΞ
    exact Registry.le_rollback ((Lambda.Input.senior_le_toΞ hk hfree).trans ih)
  | @Lambda_deposited _ x _ w _ _ _ _ hΞ ih =>
    have hfree := x.not_collision_of_yields hΞ
    refine ((Lambda.Input.senior_le_toΞ hk hfree).trans ih).trans ?_
    refine World.senior_le_of_nonces (fun a => (nonce_insert ?_ a).ge) (fun _ h => h) rfl
    rw [Std.TreeMap.getD_eq_getD_getElem?, account]
  | Θ_precompiled_failed =>
    refine World.senior_le_of_nonces (fun _ => le_rfl) (fun a ha => ?_) rfl
    exact absurd ha Std.TreeSet.not_mem_emptyc
  | Θ_precompiled =>
    exact Θ.Input.senior_le fun a ha => absurd ha Std.TreeSet.not_mem_emptyc
  | Θ_code _ _ ih => exact (Θ.Input.senior_le fun _ h => h).trans ih
  | Θ_emptied _ _ ih => exact Registry.le_rollback ((Θ.Input.senior_le fun _ h => h).trans ih)

/-- A nonce that is there when nothing has been created or marked stays, and its
account is not marked. -/
theorem Yields.nonce_le {E : Externals} {i : Invocation} {w : World} (h : Yields E i w)
    {a : AccountAddress} (hcreated : a ∉ i.world.createdAccounts)
    (hdoomed : a ∉ i.world.A.selfDestructSet) (hpos : 0 < i.world.σ.nonce a) :
    i.world.σ.nonce a ≤ w.σ.nonce a ∧ a ∉ w.A.selfDestructSet := by
  obtain ⟨hentry, -, hmark⟩ := Registry.permanent (h.senior_le hpos)
    (World.senior_entry.2 le_rfl) hcreated hdoomed
  exact ⟨World.senior_entry.1 hentry, hmark⟩

/-! ## Transactions -/

theorem nonce_increaseBalance (σ : AccountMap) (a : AccountAddress) (v : UInt256)
    (b : AccountAddress) : (σ.increaseBalance a v).nonce b = σ.nonce b := by
  unfold increaseBalance
  cases ha : σ[a]? with
  | none => exact nonce_insert (by rw [account_of_none ha]) b
  | some acc => exact nonce_insert (by rw [account_of_some ha]) b

/-- The sweeps spare an account that is neither marked nor touched. -/
theorem nonce_swept {σ : AccountMap} {A : Substate} {a : AccountAddress}
    (hmark : a ∉ A.selfDestructSet) (htouched : a ∉ A.touchedAccounts) :
    (Υ.swept σ A).nonce a = σ.nonce a := by
  have halive : a ∉ A.touchedAccounts.filter σ.dead := by
    rw [TreeFold.mem_filter_iff]
    exact fun h => htouched h.1
  unfold Υ.swept nonce account
  rw [Std.TreeMap.getElem?_map, TreeFold.getElem?_foldl_erase _ _ halive,
    TreeFold.getElem?_foldl_erase _ _ hmark]
  cases σ[a]? <;> rfl

namespace Υ.Input

variable {x : Υ.Input}

theorem nonce_paidOut (σ_P : AccountMap) (g' : UInt256) (A : Substate) (a : AccountAddress) :
    (x.paidOut σ_P g' A).nonce a = σ_P.nonce a := by
  unfold paidOut
  dsimp only
  split
  · rw [nonce_increaseBalance, nonce_increaseBalance]
  · rw [nonce_increaseBalance]

/-- The sender counts its nonce up. -/
theorem nonce_σ₀ (h : x.σ.nonce x.S_T < 2 ^ 64 - 1) (a : AccountAddress) :
    x.σ₀.nonce a = x.σ.nonce a + if x.S_T = a then 1 else 0 := by
  unfold σ₀ nonce
  rw [account_insert]
  split
  next ha =>
    rw [← ha]
    exact val_nonce_add_one h
  · rfl

/-- Nobody is ever touched. -/
theorem touched_of_run {E : Externals} {fuel : ℕ} {w : World} (h : Yields E (x.top fuel) w)
    (a : AccountAddress) : a ∉ w.A.touchedAccounts := by
  have hsame := h.grows.touched
  rw [x.top_world] at hsame
  rw [hsame]
  exact Std.TreeSet.not_mem_emptyc

end Υ.Input

/-- **A transaction takes no nonce back**, and counts up the one of its sender. -/
theorem Υ_nonces (E : Externals) (fuel : ℕ) {x : Υ.Input}
    (hnonce : x.σ.nonce x.S_T < 2 ^ 64 - 1) :
    Ensures (Υ E fuel x) fun (σ', _, _, _) =>
      ∀ a, (x.σ.nonce a + if x.S_T = a then 1 else 0) ≤ σ'.nonce a := by
  intro r hr a
  rw [← Υ.Input.nonce_σ₀ hnonce a]
  unfold Υ at hr
  cases hrun : x.run E fuel with
  | error e => rw [hrun] at hr; cases hr
  | ok r =>
    obtain ⟨σ_P, g', A, z⟩ := r
    rw [hrun] at hr
    cases hr
    obtain ⟨w, hw, rfl, rfl⟩ := x.returned_of_run hrun
    by_cases hpos : x.σ₀.nonce a = 0
    · rw [hpos]
      exact Nat.zero_le _
    · have hkept := hw.yields.nonce_le (a := a)
      rw [x.top_world] at hkept
      obtain ⟨hle, hmark⟩ := hkept Std.TreeSet.not_mem_emptyc Std.TreeSet.not_mem_emptyc
        (Nat.pos_of_ne_zero hpos)
      refine hle.trans_eq ?_
      show w.σ.nonce a = (Υ.swept (x.paidOut w.σ g' w.A) w.A).nonce a
      rw [nonce_swept hmark (Υ.Input.touched_of_run hw.yields a), Υ.Input.nonce_paidOut]

end EVM
end EvmYul
