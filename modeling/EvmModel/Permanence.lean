import EvmModel.Ledger
import EvmModel.TrustedBase
import EvmModel.Upsilon

/-!
# A deployed contract survives every transaction

A contract that has code before a transaction has the same code after it, and
at no moment of the run is it among the accounts created in the transaction or
among those marked for removal — whatever the transaction does, whichever
contracts it runs, whatever addresses its creations are aimed at, and whichever
hash function derives these addresses.

Inside the run this is the order of the ledger (`EvmModel.Ledger`).  What is
left is what `Υ` does before and after: the up-front payment and the payments
at the end change balances only, and the two sweeps spare an account with code
that is not marked.
-/

namespace EvmYul
namespace EVM

/-! ## Runs from an intact contract -/

/-- In the run that starts with `i`, the contract at `C` with code `c` is intact
in every frame and in everything a frame hands on. -/
structure Survives (E : Externals) (i : Invocation) (C : AccountAddress) (c : ByteArray) :
    Prop where
  returned : ∀ w, Returned E i w → w.Intact C c
  throughout : ∀ j, Reaches E i j → j.world.Intact C c ∧ ∀ w, Returned E j w → w.Intact C c

/-- An intact contract survives every run. -/
theorem survives {E : Externals} {i : Invocation} {C : AccountAddress} {c : ByteArray}
    (hc : c.size ≠ 0) (h : i.world.Intact C c) : Survives E i C c where
  returned _ hw := h.of_le hc hw.ledger_le
  throughout _ hj :=
    have hjC := h.of_le hc hj.ledger_le
    ⟨hjC, fun _ hw => hjC.of_le hc hw.ledger_le⟩

/-! ## Before the execution -/

namespace Υ.Input

variable (x : Υ.Input)

/-- The up-front payment changes no code. -/
theorem codeAt_σ₀ : x.σ₀.codeAt = x.σ.codeAt :=
  AccountMap.codeAt_insert (AccountMap.codeAt_getD x.σ x.S_T)

/-- A contract that has code before the transaction is intact when the execution
starts: nothing has been created yet and nothing is marked. -/
theorem intact_top {C : AccountAddress} {c : ByteArray} (hc : c.size ≠ 0) (fuel : ℕ)
    (h : ∃ acc, x.σ[C]? = some acc ∧ acc.code = c) : (x.top fuel).world.Intact C c := by
  rw [x.top_world]
  obtain ⟨acc, hacc, hcode⟩ := h
  refine ⟨?_, Std.TreeSet.not_mem_emptyc, Std.TreeSet.not_mem_emptyc⟩
  have hentry : x.σ₀.codeAt C = some c := by
    rw [x.codeAt_σ₀, AccountMap.codeAt_eq_some_iff]
    exact ⟨acc, hacc, hcode, hc⟩
  obtain ⟨acc', hacc', hcode', -⟩ := AccountMap.codeAt_eq_some_iff.1 hentry
  exact ⟨acc', hacc', hcode'⟩

/-! ## After the execution -/

/-- The payments at the end change no code. -/
theorem codeAt_paidOut (σ_P : AccountMap) (g' : UInt256) (A : Substate) :
    (x.paidOut σ_P g' A).codeAt = σ_P.codeAt := by
  unfold paidOut
  dsimp only
  split
  · rw [AccountMap.codeAt_increaseBalance, AccountMap.codeAt_increaseBalance]
  · rw [AccountMap.codeAt_increaseBalance]

end Υ.Input

/-- An account with code is not dead. -/
theorem dead_eq_false_of_codeAt {σ : AccountMap} {C : AccountAddress} {c : ByteArray}
    (h : σ.codeAt C = some c) : σ.dead C = false := by
  obtain ⟨acc, hacc, rfl, hne⟩ := AccountMap.codeAt_eq_some_iff.1 h
  have hsome : acc.code.isEmpty = false := by
    rw [ByteArray.isEmpty]
    exact decide_eq_false hne
  simp [AccountMap.dead, hacc, Account.emptyAccount, hsome]

/-- The sweeps at the end spare an account that is neither marked nor dead, and
clear its transient storage. -/
theorem getElem?_swept {σStar' : AccountMap} {A : Substate} {C : AccountAddress}
    (hsd : C ∉ A.selfDestructSet) (hdead : σStar'.dead C = false) :
    (Υ.swept σStar' A)[C]? = σStar'[C]?.map fun acc => { acc with tstorage := ∅ } := by
  have halive : C ∉ A.touchedAccounts.filter σStar'.dead := by
    rw [TreeFold.mem_filter_iff]
    rintro ⟨-, h⟩
    rw [hdead] at h
    cases h
  unfold Υ.swept
  rw [Std.TreeMap.getElem?_map, TreeFold.getElem?_foldl_erase _ _ halive,
    TreeFold.getElem?_foldl_erase _ _ hsd]

/-- The world after the transaction, at a contract that came through the run. -/
theorem Υ.Input.code_swept (x : Υ.Input) {w : World} {C : AccountAddress} {c : ByteArray}
    (hc : c.size ≠ 0) (h : w.Intact C c) (g' : UInt256) :
    ∃ acc, (Υ.swept (x.paidOut w.σ g' w.A) w.A)[C]? = some acc ∧ acc.code = c := by
  obtain ⟨acc, hacc, hcode⟩ := h.code
  have hentry : (x.paidOut w.σ g' w.A).codeAt C = some c := by
    rw [x.codeAt_paidOut, AccountMap.codeAt_eq_some_iff]
    exact ⟨acc, hacc, hcode, hc⟩
  obtain ⟨acc', hacc', hcode', -⟩ := AccountMap.codeAt_eq_some_iff.1 hentry
  rw [getElem?_swept h.not_doomed (dead_eq_false_of_codeAt hentry), hacc']
  exact ⟨_, rfl, hcode'⟩

/-! ## The theorem -/

/-- **A deployed contract is permanent.**  For every hash function, every fuel
and every contract with code `c` at an address `C`: a transaction that returns
leaves the same code at `C` and does not mark `C` for removal, and at no moment
of its run is `C` among the created accounts.  Likewise the contract survives
every run of `Ξ`, `Θ` and `Lambda` that starts with `C` neither created in this
transaction nor marked. -/
theorem deployed_contract_is_permanent (E : Externals) (fuel : ℕ) (C : AccountAddress)
    (c : ByteArray) (hc : c.size ≠ 0) :
    (∀ x : Υ.Input, (∃ acc, x.σ[C]? = some acc ∧ acc.code = c) →
      (∀ σ' A z g, Υ E fuel x = .ok (σ', A, z, g) →
        (∃ acc, σ'[C]? = some acc ∧ acc.code = c) ∧ C ∉ A.selfDestructSet) ∧
      ∀ j, Reaches E (x.top fuel) j →
        C ∉ j.world.createdAccounts ∧ ∀ w, Returned E j w → C ∉ w.createdAccounts) ∧
    (∀ x : Ξ.Input, x.world.Intact C c → Survives E (.Ξ fuel x) C c) ∧
    (∀ x : Θ.Input, x.world.Intact C c → Survives E (.Θ fuel x) C c) ∧
    ∀ x : Lambda.Input, x.world.Intact C c → Survives E (.Lambda fuel x) C c := by
  refine ⟨fun x hx => ?_, fun x h => survives hc h, fun x h => survives hc h,
    fun x h => survives hc h⟩
  have htop := survives (E := E) hc (x.intact_top hc fuel hx)
  refine ⟨fun σ' A z g hΥ => ?_, fun j hj => ?_⟩
  · unfold Υ at hΥ
    cases hr : x.run E fuel with
    | error e => rw [hr] at hΥ; cases hΥ
    | ok r =>
      obtain ⟨σ_P, g', A', z'⟩ := r
      rw [hr] at hΥ
      cases hΥ
      obtain ⟨w, hw, rfl, rfl⟩ := x.returned_of_run hr
      have hint := htop.returned w hw
      exact ⟨x.code_swept hc hint g', hint.not_doomed⟩
  · obtain ⟨hjC, hret⟩ := htop.throughout j hj
    exact ⟨hjC.not_created, fun w hw => (hret w hw).not_created⟩

/-- `ADDRESS SELFDESTRUCT`: the code of a contract that asks to be removed. -/
def selfdestructing : ByteArray := ⟨#[0x30, 0xff]⟩

/-- A call of a contract that asks to be removed. -/
def callSelfdestructing : Υ.Input where
  σ :=
    ((∅ : AccountMap).insert 0xfeed { (default : Account) with balance := .ofNat 1000000 }).insert
      0xc0de { (default : Account) with code := selfdestructing }
  H_f := 0
  H := default
  genesisBlockHeader := default
  blocks := #[]
  T := .legacy
    { gasLimit := .ofNat 100000
      recipient := some 0xc0de
      value := 0
      data := .empty
      gasPrice := .ofNat 1 }
  S_T := 0xfeed

/-- The contract is still there after the call, although every creation is aimed
at it. -/
theorem deployed_contract_is_permanent_selfdestructing :
    (∃ σ' A z g, Υ (Frame.aimedAt 0xc0de) 10 callSelfdestructing = .ok (σ', A, z, g) ∧
      (∃ acc, σ'[(0xc0de : AccountAddress)]? = some acc ∧ acc.code = selfdestructing) ∧
      0xc0de ∉ A.selfDestructSet) ∧
    0xc0de ∉ (callSelfdestructing.top 10).world.createdAccounts ∧
    Survives (Frame.aimedAt 0xc0de) (.Ξ 10 (callSelfdestructing.toΘ 0xc0de).toΞ) 0xc0de
      selfdestructing ∧
    Survives (Frame.aimedAt 0xc0de) (.Θ 10 (callSelfdestructing.toΘ 0xc0de)) 0xc0de
      selfdestructing ∧
    Survives (Frame.aimedAt 0xc0de) (.Lambda 10 callSelfdestructing.toΛ) 0xc0de
      selfdestructing := by
  obtain ⟨hΥ, hΞ, hΘ, hΛ⟩ := deployed_contract_is_permanent (Frame.aimedAt 0xc0de) 10 0xc0de
    selfdestructing (by decide)
  have hcode : ∃ acc, callSelfdestructing.σ[(0xc0de : AccountAddress)]? = some acc ∧
      acc.code = selfdestructing := Option.map_eq_some_iff.1 (by decide +kernel)
  have hcode₀ : ∃ acc, callSelfdestructing.σ₀[(0xc0de : AccountAddress)]? = some acc ∧
      acc.code = selfdestructing := Option.map_eq_some_iff.1 (by decide +kernel)
  have hcode₁ : ∃ acc, (callSelfdestructing.toΘ 0xc0de).σ₁[(0xc0de : AccountAddress)]? = some acc ∧
      acc.code = selfdestructing := Option.map_eq_some_iff.1 (by decide +kernel)
  have hempty : (0xc0de : AccountAddress) ∉ (∅ : AddrSet) := Std.TreeSet.not_mem_emptyc
  obtain ⟨hafter, hduring⟩ := hΥ callSelfdestructing hcode
  refine ⟨?_, (hduring _ .refl).1, hΞ _ ⟨hcode₁, hempty, hempty⟩, hΘ _ ⟨hcode₀, hempty, hempty⟩,
    hΛ _ ⟨hcode₀, hempty, hempty⟩⟩
  have hok : (Υ (Frame.aimedAt 0xc0de) 10 callSelfdestructing).isOk = true := by decide +kernel
  obtain ⟨⟨σ', A, z, g⟩, hr⟩ := Except.exists_eq_ok_of_isOk hok
  exact ⟨σ', A, z, g, hr, hafter _ _ _ _ hr⟩

end EVM
end EvmYul
