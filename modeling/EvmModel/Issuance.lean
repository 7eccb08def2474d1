import EvmModel.GasBound
import EvmModel.Permanence
import EvmModel.Supply

/-!
# No transaction makes ether

What a valid transaction takes from its sender before the execution pays for
everything that is given back or handed on after it: the gas that is left and
the refund go back to the sender at the price that was paid, the beneficiary
gets the priority fee for the gas used, and the base fee for the gas used and
the blob fee are burnt.

* `Υ.Input.Valid` — the sender can pay, and the fee covers the base fee;
* `Υ_gasUsed` — no more gas is used than was bought, and no less than four fifths
  of the intrinsic gas;
* `transaction_burns_fees` — after the transaction there is less ether than
  before, by the base fee of the gas used and the blob fee at least.
-/

namespace EvmYul

/-- A product of words is at most the product of the numbers. -/
theorem UInt256.val_mul_le (a b : UInt256) : (a * b).val ≤ a.val * b.val := by
  rw [Fin.val_mul]
  exact Nat.mod_le _ _

namespace EVM

open AccountMap

/-! ## Balances under the operations of a transaction -/

/-- A credit adds no more than what is credited. -/
theorem total_increaseBalance_le (σ : AccountMap) (a : AccountAddress) (v : UInt256) :
    (σ.increaseBalance a v).total ≤ σ.total + v.val := by
  unfold increaseBalance
  cases ha : σ[a]? with
  | none => exact total_insert_le (Nat.le_add_left _ _)
  | some acc =>
    refine total_insert_le ?_
    rw [bal, account_of_some ha]
    exact Nat.mod_le _ _

/-- The sweeps at the end of a transaction give nobody anything. -/
theorem bal_swept_le (σ : AccountMap) (A : Substate) (a : AccountAddress) :
    (Υ.swept σ A).bal a ≤ σ.bal a := by
  have hnone : ∀ m : AccountMap, m[a]? = none → m.bal a = 0 := fun m hm => by
    rw [bal, account_of_none hm]
    rfl
  have hmap : ∀ m : AccountMap,
      bal (m.map fun _ acc => { acc with tstorage := ∅ }) a = m.bal a := by
    intro m
    rw [bal, bal, account, account, Std.TreeMap.getElem?_map]
    cases m[a]? <;> rfl
  have herase : ∀ (s : AddrSet) (m : AccountMap),
      bal (s.foldl (fun m a => m.erase a) m) a ≤ m.bal a := by
    intro s m
    obtain h | h := TreeFold.getElem?_foldl_erase_or a s m
    · refine (bal_congr ?_).le
      rw [account, account, h]
    · exact (hnone _ h).trans_le (Nat.zero_le _)
  unfold Υ.swept
  rw [hmap]
  exact (herase _ _).trans (herase _ _)

/-! ## Fees -/

namespace Υ.Input

variable {x : Υ.Input}

/-- What is checked of a transaction before it is executed: the fee covers the
base fee, the sender has what it may have to pay, and its nonce can be counted
up. -/
structure Valid (x : Υ.Input) : Prop where
  fee : x.H_f ≤ x.T.maxFeePerGas.val
  funds : x.T.base.gasLimit.val * x.p.val + calcBlobFee x.H x.T + x.T.base.value.val ≤
    x.σ.bal x.S_T
  nonce : (x.σ.account x.S_T).nonce.val < 2 ^ 64 - 1

/-- The price of gas is the priority fee and the base fee, and not more than the
most the transaction pays. -/
theorem p_eq (hfee : x.H_f ≤ x.T.maxFeePerGas.val) :
    x.p.val = x.f.val + x.H_f ∧ x.p.val ≤ x.T.maxFeePerGas.val := by
  unfold p f
  unfold Transaction.maxFeePerGas at hfee ⊢
  have hmin : ∀ a b : UInt256, x.H_f ≤ b.val →
      (min a (b - .ofNat x.H_f) + .ofNat x.H_f).val =
          (min a (b - .ofNat x.H_f)).val + x.H_f ∧
        (min a (b - .ofNat x.H_f) + .ofNat x.H_f).val ≤ b.val := by
    intro a b hb
    have hlt := b.isLt
    have hle : (min a (b - .ofNat x.H_f)).val ≤ b.val - x.H_f := by
      rw [← UInt256.val_sub_ofNat hb]
      exact Fin.le_def.1 (min_le_right _ _)
    have hval : (UInt256.ofNat x.H_f).val = x.H_f := UInt256.val_ofNat_of_lt (by omega)
    rw [UInt256.val_add_of_lt (by omega), hval]
    omega
  cases hT : x.T with
  | legacy t | access t =>
    simp only [hT] at hfee ⊢
    rw [UInt256.val_sub_ofNat hfee]
    omega
  | dynamic t | blob t =>
    simp only [hT] at hfee ⊢
    exact hmin _ _ hfee

/-- What is taken from the sender before the execution. -/
def upFront (x : Υ.Input) : ℕ := x.T.base.gasLimit.val * x.p.val + calcBlobFee x.H x.T

theorem Valid.bal_σ₀ (h : x.Valid) (a : AccountAddress) :
    x.σ₀.bal a = if x.S_T = a then x.σ.bal x.S_T - x.upFront else x.σ.bal a := by
  have hfunds := h.funds
  have hlt := x.σ.bal_lt x.S_T
  have hprod : x.T.base.gasLimit.val * x.p.val < 2 ^ 256 := by omega
  have hgas : (x.T.base.gasLimit * x.p).val = x.T.base.gasLimit.val * x.p.val := by
    rw [Fin.val_mul, Nat.mod_eq_of_lt hprod]
  unfold σ₀ upFront
  unfold bal at hfunds hlt ⊢
  rw [account_insert]
  split
  · have hbal : x.senderAccount.balance = (x.σ.account x.S_T).balance -
        x.T.base.gasLimit * x.p - .ofNat (calcBlobFee x.H x.T) := rfl
    have hsub : ((x.σ.account x.S_T).balance - x.T.base.gasLimit * x.p).val =
        (x.σ.account x.S_T).balance.val - x.T.base.gasLimit.val * x.p.val := by
      rw [Fin.sub_val_of_le, hgas]
      rw [Fin.le_def, hgas]
      omega
    rw [hbal, UInt256.val_sub_ofNat, hsub, Nat.sub_sub]
    rw [hsub]
    omega
  · rfl

/-- The up-front payment leaves the total by as much. -/
theorem Valid.total_σ₀ (h : x.Valid) : x.σ₀.total + x.upFront = x.σ.total := by
  have hfunds := h.funds
  have hchange := Holders.total_change (f := x.σ.bal) (g := x.σ₀.bal) (a := x.S_T) fun a ha => by
    rw [h.bal_σ₀, if_neg (Ne.symm ha)]
  have hle : x.upFront ≤ x.σ.bal x.S_T := (Nat.le_add_right _ _).trans hfunds
  rw [h.bal_σ₀, if_pos rfl] at hchange
  show ∑ a, x.σ₀.bal a + x.upFront = ∑ a, x.σ.bal a
  omega

/-- The message or creation at the top is funded. -/
theorem Valid.top_solvent (h : x.Valid) (fuel : ℕ) : (x.top fuel).Solvent := by
  have hfunds := h.funds
  have hnonce := h.nonce
  have hv : x.T.base.value.val ≤ x.σ₀.bal x.S_T := by
    rw [h.bal_σ₀, if_pos rfl, upFront]
    omega
  unfold top
  split
  · refine ⟨hv, ?_⟩
    show (x.σ₀.account x.S_T).nonce ≠ 0
    have hself : (x.σ₀.account x.S_T).nonce = (x.σ.account x.S_T).nonce + 1 :=
      congrArg Account.nonce account_insert_self
    have hone : (1 : UInt256).val = 1 := rfl
    have hval : ((x.σ.account x.S_T).nonce + 1).val =
        (x.σ.account x.S_T).nonce.val + (1 : UInt256).val := UInt256.val_add_of_lt (by omega)
    rw [hself]
    intro hzero
    rw [hzero, hone] at hval
    cases hval
  · exact hv

end Υ.Input

/-! ## Gas given back -/

namespace Υ.Input

variable {x : Υ.Input}

/-- The execution leaves no more gas than it was given. -/
theorem run_gas {E : Externals} {fuel : ℕ} {σ_P : AccountMap} {g' : UInt256} {A : Substate}
    {z : Bool} (h : x.run E fuel = .ok (σ_P, g', A, z)) :
    g'.val ≤ x.T.base.gasLimit.val - intrinsicGas x.T := by
  refine le_trans ?_ (UInt256.val_ofNat_le _)
  unfold run at h
  cases hT : x.T.base.recipient with
  | none =>
    rw [hT] at h
    dsimp only at h
    cases hr : Lambda E fuel x.toΛ with
    | error e => rw [hr] at h; cases h
    | ok r =>
      rw [hr] at h
      cases h
      exact thrifty E (.Lambda fuel x.toΛ) trivial r hr
  | some t =>
    rw [hT] at h
    dsimp only at h
    cases hr : Θ E fuel (x.toΘ t) with
    | error e => rw [hr] at h; cases h
    | ok r =>
      rw [hr] at h
      cases h
      exact thrifty E (.Θ fuel (x.toΘ t)) trivial r hr

/-- The refund is at most a fifth of the gas used, so no more gas is given back
than was bought. -/
theorem gStar_le {g' : UInt256} (hg : g'.val ≤ x.T.base.gasLimit.val) (A : Substate) :
    (x.gStar g' A).val ≤ x.T.base.gasLimit.val ∧
      5 * (x.gStar g' A).val ≤ 4 * g'.val + x.T.base.gasLimit.val := by
  have hlt := x.T.base.gasLimit.isLt
  have hused : (x.T.base.gasLimit - g').val = x.T.base.gasLimit.val - g'.val :=
    Fin.sub_val_of_le hg
  have hrefund : (min ((x.T.base.gasLimit - g') / 5) A.refundBalance).val ≤
      (x.T.base.gasLimit.val - g'.val) / 5 := by
    rw [← hused]
    exact Fin.le_def.1 (min_le_left _ _)
  have hsum : (x.gStar g' A).val =
      g'.val + (min ((x.T.base.gasLimit - g') / 5) A.refundBalance).val :=
    UInt256.val_add_of_lt (by omega)
  omega

end Υ.Input

/-- A transaction uses no more gas than it has bought, and no less than four
fifths of its intrinsic gas: a refund is a fifth of the gas used at most. -/
theorem Υ_gasUsed (E : Externals) (fuel : ℕ) (x : Υ.Input) :
    Ensures (Υ E fuel x) fun (_, _, _, gasUsed) =>
      gasUsed.val ≤ x.T.base.gasLimit.val ∧
      (intrinsicGas x.T ≤ x.T.base.gasLimit.val →
        4 * intrinsicGas x.T ≤ 5 * gasUsed.val) := by
  intro r hr
  unfold Υ at hr
  cases hrun : x.run E fuel with
  | error e => rw [hrun] at hr; cases hr
  | ok r =>
    obtain ⟨σ_P, g', A, z⟩ := r
    rw [hrun] at hr
    cases hr
    have hleft := Υ.Input.run_gas hrun
    obtain ⟨hback, hrefund⟩ := x.gStar_le (hleft.trans (Nat.sub_le _ _)) A
    have hused : (x.T.base.gasLimit - x.gStar g' A).val =
        x.T.base.gasLimit.val - (x.gStar g' A).val := Fin.sub_val_of_le hback
    refine ⟨hused.trans_le (Nat.sub_le _ _), fun hintrinsic => ?_⟩
    show 4 * intrinsicGas x.T ≤ 5 * (x.T.base.gasLimit - x.gStar g' A).val
    omega

/-! ## Transactions -/

namespace Υ.Input

variable {x : Υ.Input}

/-- What is left in the world after the payments and the sweeps. -/
theorem total_swept_paidOut_le (σ_P : AccountMap) (g' : UInt256) (A : Substate) :
    (Υ.swept (x.paidOut σ_P g' A) A).total ≤ σ_P.total + (x.gStar g' A).val * x.p.val +
      (x.T.base.gasLimit - x.gStar g' A).val * x.f.val := by
  have hsender := (total_increaseBalance_le σ_P x.S_T (x.gStar g' A * x.p)).trans
    (Nat.add_le_add_left (UInt256.val_mul_le _ _) _)
  have hfee := UInt256.val_mul_le (x.T.base.gasLimit - x.gStar g' A) x.f
  have hpaid : (x.paidOut σ_P g' A).total ≤ σ_P.total + (x.gStar g' A).val * x.p.val +
      (x.T.base.gasLimit - x.gStar g' A).val * x.f.val := by
    unfold paidOut
    dsimp only
    split
    · exact (total_increaseBalance_le _ _ _).trans (Nat.add_le_add hsender hfee)
    · exact hsender.trans (Nat.le_add_right _ _)
  exact (Holders.total_le (bal_swept_le _ A)).trans hpaid

/-- The execution makes no ether. -/
theorem Valid.total_run_le (hx : x.Valid) (htotal : x.σ.total < 2 ^ 256) {E : Externals}
    {fuel : ℕ} {σ_P : AccountMap} {g' : UInt256} {A : Substate} {z : Bool}
    (h : x.run E fuel = .ok (σ_P, g', A, z)) : σ_P.total + x.upFront ≤ x.σ.total := by
  have hpaid := hx.total_σ₀
  obtain ⟨w, hw, rfl, -⟩ := x.returned_of_run h
  have hworld : (x.top fuel).world.σ = x.σ₀ := congrArg World.σ (x.top_world fuel)
  have hle := hw.yields.total_le (hx.top_solvent fuel) (by rw [hworld]; omega)
  rw [hworld] at hle
  omega

end Υ.Input

/-- What is taken from the sender pays for what is given back to it, for what the
beneficiary is given, and for what is burnt. -/
theorem Υ.Input.Valid.total_le (E : Externals) (fuel : ℕ) {x : Υ.Input} (hx : x.Valid)
    (htotal : x.σ.total < 2 ^ 256) :
    Ensures (Υ E fuel x) fun (σ', _, _, gasUsed) =>
      σ'.total + calcBlobFee x.H x.T + gasUsed.val * x.H_f ≤ x.σ.total := by
  intro r hr
  unfold Υ at hr
  cases hrun : x.run E fuel with
  | error e => rw [hrun] at hr; cases hr
  | ok r =>
    obtain ⟨σ_P, g', A, z⟩ := r
    rw [hrun] at hr
    cases hr
    obtain ⟨hback, -⟩ := x.gStar_le ((Υ.Input.run_gas hrun).trans (Nat.sub_le _ _)) A
    have hused : (x.T.base.gasLimit - x.gStar g' A).val =
        x.T.base.gasLimit.val - (x.gStar g' A).val := Fin.sub_val_of_le hback
    have hle := x.total_swept_paidOut_le σ_P g' A
    have hexec := hx.total_run_le htotal hrun
    -- what has been bought is given back or used
    have hsplit : x.T.base.gasLimit.val * x.p.val =
        (x.gStar g' A).val * x.p.val +
          ((x.T.base.gasLimit - x.gStar g' A).val * x.f.val +
            (x.T.base.gasLimit - x.gStar g' A).val * x.H_f) := by
      rw [← Nat.mul_add, ← (Υ.Input.p_eq hx.fee).1, ← Nat.add_mul, hused, Nat.add_sub_cancel' hback]
    unfold Υ.Input.upFront at hexec
    show (Υ.swept (x.paidOut σ_P g' A) A).total + calcBlobFee x.H x.T +
      (x.T.base.gasLimit - x.gStar g' A).val * x.H_f ≤ x.σ.total
    omega

/-- **No transaction makes ether.**  A valid transaction uses no more gas than it
has bought and no less than four fifths of its intrinsic gas; after it there is
less ether than before, by the blob fee and the base fee of the gas used at
least. -/
theorem transaction_burns_fees (E : Externals) (fuel : ℕ) {x : Υ.Input} (hx : x.Valid)
    (htotal : x.σ.total < 2 ^ 256) :
    Ensures (Υ E fuel x) fun (σ', _, _, gasUsed) =>
      gasUsed.val ≤ x.T.base.gasLimit.val ∧
      (intrinsicGas x.T ≤ x.T.base.gasLimit.val → 4 * intrinsicGas x.T ≤ 5 * gasUsed.val) ∧
      σ'.total + calcBlobFee x.H x.T + gasUsed.val * x.H_f ≤ x.σ.total := by
  intro r hr
  obtain ⟨hle, hge⟩ := Υ_gasUsed E fuel x r hr
  exact ⟨hle, hge, hx.total_le E fuel htotal r hr⟩

/-- A call with a gas price of ten, of which seven are burnt. -/
def payingCall : Υ.Input :=
  { callSelfdestructing with
    H_f := 7
    T := .legacy
      { gasLimit := .ofNat 100000
        recipient := some 0xc0de
        value := 0
        data := .empty
        gasPrice := .ofNat 10 } }

theorem payingCall_valid : payingCall.Valid := by
  have hblob : calcBlobFee payingCall.H payingCall.T = 0 := Nat.zero_mul _
  refine ⟨by decide +kernel, ?_, by decide +kernel⟩
  rw [hblob]
  decide +kernel

/-- It returns, and what it has burnt is missing. -/
theorem transaction_burns_fees_payingCall :
    ∃ σ' A z gasUsed, Υ (Frame.aimedAt 0) 10 payingCall = .ok (σ', A, z, gasUsed) ∧
      gasUsed.val ≤ payingCall.T.base.gasLimit.val ∧
      4 * intrinsicGas payingCall.T ≤ 5 * gasUsed.val ∧
      σ'.total + calcBlobFee payingCall.H payingCall.T + gasUsed.val * payingCall.H_f ≤
        payingCall.σ.total := by
  have htotal : payingCall.σ.total < 2 ^ 256 := by
    refine total_insert_lt (total_insert_lt ?_)
    rw [total_empty]
    decide
  have hok : (Υ (Frame.aimedAt 0) 10 payingCall).isOk = true := by decide +kernel
  obtain ⟨⟨σ', A, z, gasUsed⟩, hr⟩ := Except.exists_eq_ok_of_isOk hok
  obtain ⟨hle, hge, hburnt⟩ := transaction_burns_fees _ 10 payingCall_valid htotal _ hr
  exact ⟨_, _, _, _, hr, hle, hge (by decide +kernel), hburnt⟩

end EVM
end EvmYul
