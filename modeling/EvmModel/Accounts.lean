import EvmModel.Lib.TreeFold
import EvmModel.BigStep

/-!
# Accounts by address

The account map as a total function: an address without an account stands for
the empty account, which is what every reader of the map takes it for.  What the
writers of the map do is said once, as an update of that function; the messages
and self-destructions move balances, and leave everything else an account holds
as it is.
-/

namespace EvmYul

/-- What an account holds besides its balance. -/
def Account.holdings (acc : Account) : UInt256 × Storage × ByteArray × Storage :=
  (acc.nonce, acc.storage, acc.code, acc.tstorage)

namespace AccountMap

variable {σ : AccountMap} {a b : AccountAddress} {acc : Account}

/-- The account at an address. -/
def account (σ : AccountMap) (a : AccountAddress) : Account := σ[a]?.getD default

theorem account_of_some (h : σ[a]? = some acc) : σ.account a = acc := by rw [account, h]; rfl

theorem account_of_none (h : σ[a]? = none) : σ.account a = default := by rw [account, h]; rfl

theorem account_insert_self : account (σ.insert a acc) a = acc :=
  account_of_some Std.TreeMap.getElem?_insert_self

theorem account_insert_ne (h : a ≠ b) : account (σ.insert a acc) b = σ.account b := by
  rw [account, account, TreeFold.getElem?_insert_ne σ h]

theorem account_insert : account (σ.insert a acc) b = if a = b then acc else σ.account b := by
  split
  next h => rw [← h, account_insert_self]
  next h => exact account_insert_ne h

theorem balance_eq (σ : AccountMap) (a : AccountAddress) :
    σ.balance a = (σ.account a).balance := by
  cases h : σ[a]? with
  | none => rw [account_of_none h, balance, h]; rfl
  | some acc => rw [account_of_some h, balance, h]

/-- Writing an account back with what it held changes no holdings. -/
theorem holdings_insert (h : acc.holdings = (σ.account a).holdings) (b : AccountAddress) :
    (account (σ.insert a acc) b).holdings = (σ.account b).holdings := by
  rw [account_insert]
  split
  next hab => rw [h, hab]
  · rfl

end AccountMap

namespace EVM

open AccountMap

/-! ## Messages -/

namespace Θ.Input

variable (x : Θ.Input)

/-- The credit of a message. -/
theorem account_σ'₁ (a : AccountAddress) : x.σ'₁.account a =
    if x.r = a then { x.σ.account x.r with balance := (x.σ.account x.r).balance + x.v }
    else x.σ.account a := by
  unfold σ'₁
  cases hr : x.σ[x.r]? with
  | none =>
    rw [account_of_none hr]
    dsimp only
    by_cases hv : x.v = 0
    · rw [if_neg (not_not.2 hv), hv]
      split
      next ha => rw [← ha, account_of_none hr]; rfl
      · rfl
    · rw [if_pos hv, account_insert]
      have hzero : (default : Account).balance + x.v = x.v := zero_add x.v
      rw [hzero]
  | some acc => rw [account_insert, account_of_some hr]

/-- The debit of a message. -/
theorem account_σ₁ (a : AccountAddress) : x.σ₁.account a =
    if x.s = a ∧ x.σ'₁[x.s]? ≠ none then
      { x.σ'₁.account x.s with balance := (x.σ'₁.account x.s).balance - x.v }
    else x.σ'₁.account a := by
  unfold σ₁
  cases hs : x.σ'₁[x.s]? with
  | none => simp
  | some acc =>
    rw [account_insert, account_of_some hs]
    simp

theorem holdings_σ₁ (a : AccountAddress) :
    (x.σ₁.account a).holdings = (x.σ.account a).holdings := by
  have hcredit : ∀ b, (x.σ'₁.account b).holdings = (x.σ.account b).holdings := by
    intro b
    rw [account_σ'₁]
    split
    next hb => rw [← hb]; rfl
    · rfl
  rw [account_σ₁, ← hcredit a]
  split
  next h => rw [← h.1]; rfl
  · rfl

end Θ.Input

/-! ## Self-destruction -/

/-- What a self-destruction does, address by address. -/
theorem account_selfdestructAccounts (σ : AccountMap) (Iₐ r : AccountAddress) (createdHere : Bool)
    (a : AccountAddress) : (selfdestructAccounts σ Iₐ r createdHere).account a =
      if r = Iₐ ∧ createdHere = false then σ.account a
      else if Iₐ = a then { σ.account Iₐ with balance := 0 }
      else if r = a then
        { σ.account r with balance := (σ.account r).balance + (σ.account Iₐ).balance }
      else σ.account a := by
  unfold selfdestructAccounts
  cases hI : σ[Iₐ]? with
  | none =>
    -- nobody is there to send anything
    have hzero : (default : Account).balance = 0 := rfl
    rw [account_of_none hI]
    dsimp only
    split
    · rfl
    · split
      next ha => rw [← ha, account_of_none hI]; rfl
      · split
        next ha => rw [← ha, hzero, add_zero]
        · rfl
  | some σ_Iₐ =>
    rw [account_of_some hI]
    cases hr : σ[r]? with
    | none =>
      have hne : ¬(r = Iₐ ∧ createdHere = false) := by
        rintro ⟨rfl, -⟩
        rw [hr] at hI
        cases hI
      rw [account_of_none hr]
      dsimp only
      rw [if_neg hne]
      have hzero : (default : Account).balance + σ_Iₐ.balance = σ_Iₐ.balance := zero_add _
      split
      next hbalance =>
        rw [hzero, hbalance]
        split
        next ha => rw [← ha, account_of_some hI, ← hbalance]
        · split
          next ha => rw [← ha, account_of_none hr]; rfl
          · rfl
      · rw [account_insert, account_insert, hzero]
    | some σ_r =>
      rw [account_of_some hr]
      dsimp only
      by_cases hrI : r = Iₐ
      · rw [if_neg (not_not.2 hrI)]
        cases createdHere with
        | false => simp [hrI]
        | true =>
          simp only [if_true, hrI, Bool.true_eq_false, and_false, if_false]
          rw [account_insert, account_insert]
          split
          · rfl
          · rfl
      · rw [if_pos hrI, if_neg (fun h => hrI h.1), account_insert, account_insert]

theorem holdings_selfdestructAccounts (σ : AccountMap) (Iₐ r : AccountAddress)
    (createdHere : Bool) (a : AccountAddress) :
    ((selfdestructAccounts σ Iₐ r createdHere).account a).holdings = (σ.account a).holdings := by
  rw [account_selfdestructAccounts]
  split
  · rfl
  · split
    next ha => rw [← ha]; rfl
    · split
      next ha => rw [← ha]; rfl
      · rfl

end EVM
end EvmYul
