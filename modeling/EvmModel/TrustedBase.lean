import EvmModel.Machine

/-!
# The trusted base of the frame library

`EvmYul/Frame/MutualFrame.lean` declares two axioms, on which the frame library
builds its theorems on balances and storage.  Here they are propositions about
the model, at the arguments they range over:

* `precompile_preserves_accountMap` — T2, a precompiled contract hands the
  account map on or drops it;
* `lambda_derived_address_ne_C` — T5, a creation is not aimed at `C`.

What they are meant to say is true.  T2 is about the ten bodies
(`precompile_preserves_accountMap_of_mem`), T5 about an address that is not
obtained from the hashed bytes.  As declared they range over every function of
the type of a precompiled contract and over every address, and neither holds:
`minting` changes an account, and the derived address is an address.
-/

namespace EvmYul
namespace Frame

/-! ## The axioms -/

/-- The statement of T2 at its arguments. -/
def precompile_preserves_accountMap (σ : AccountMap) (g : UInt256) (A : Substate)
    (I : ExecutionEnv)
    (f : AccountMap → UInt256 → Substate → ExecutionEnv → PrecompiledResult) : Prop :=
  let result := f σ g A I
  result.2.1 = σ ∨ result.2.1 = ∅

/-- The address `Lambda` derives. -/
def derivedAddress (E : Externals) (s : AccountAddress) (n : UInt256) (ζ : Option ByteArray)
    (i : ByteArray) : AccountAddress :=
  EVM.Lambda.address E ((EVM.Lambda.L_A E s n ζ i).getD default)

/-- The statement of T5 at its arguments. -/
def lambda_derived_address_ne_C (E : Externals) (s : AccountAddress) (n : UInt256)
    (ζ : Option ByteArray) (i : ByteArray) (C : AccountAddress) : Prop :=
  derivedAddress E s n ζ i ≠ C

/-- The two axioms, over everything they range over. -/
structure TrustedBase (E : Externals) : Prop where
  precompile_preserves_accountMap : ∀ σ g A I f, precompile_preserves_accountMap σ g A I f
  lambda_derived_address_ne_C : ∀ s n ζ i C, lambda_derived_address_ne_C E s n ζ i C

/-! ## What the axioms are meant to say -/

/-- T2 holds of the ten bodies. -/
theorem precompile_preserves_accountMap_of_mem {E : Externals}
    {f : AccountMap → UInt256 → Substate → ExecutionEnv → PrecompiledResult}
    (hf : f ∈ precompiles E) (σ : AccountMap) (g : UInt256) (A : Substate) (I : ExecutionEnv) :
    precompile_preserves_accountMap σ g A I f :=
  (precompiles_pure E σ g A I f hf).1

/-- A creation that returns reports the derived address. -/
theorem lambda_reports_derivedAddress (E : Externals) (fuel : ℕ) (x : EVM.Lambda.Input) :
    Ensures (EVM.Lambda E fuel x) fun r => r.a = derivedAddress E x.s x.n x.ζ x.i := by
  intro r hr
  cases fuel with
  | zero =>
    rw [EVM.Lambda] at hr
    cases hr
  | succ f =>
    rw [EVM.Lambda_succ, EVM.Lambda.body] at hr
    unfold derivedAddress
    split at hr
    · cases hr
    next lₐ hlₐ =>
      rw [hlₐ]
      dsimp only at hr
      split at hr
      · split at hr
        · cases hr
        · cases hr; rfl
      · cases hr; rfl
      · cases hr
        unfold EVM.Lambda.Input.deposit
        split <;> rfl

/-! ## A function with the type of a precompiled contract -/

/-- Credits one wei to the account that runs. -/
def minting (σ : AccountMap) (g : UInt256) (A : Substate) (I : ExecutionEnv) : PrecompiledResult :=
  (true, σ.increaseBalance I.codeOwner 1, g, A, .empty)

theorem getElem?_increaseBalance (σ : AccountMap) (a : AccountAddress) (v : UInt256) :
    (σ.increaseBalance a v)[a]? =
      some { (σ[a]?).getD default with balance := σ.balance a + v } := by
  unfold AccountMap.increaseBalance AccountMap.balance
  cases h : σ[a]? with
  | none => simp
  | some acc => simp

/-- The account map after `minting` is neither the one before nor empty. -/
theorem minting_changes (σ : AccountMap) (g : UInt256) (A : Substate) (I : ExecutionEnv) :
    ¬precompile_preserves_accountMap σ g A I minting := by
  have hget := getElem?_increaseBalance σ I.codeOwner 1
  intro hT2
  change σ.increaseBalance I.codeOwner 1 = σ ∨ σ.increaseBalance I.codeOwner 1 = ∅ at hT2
  rcases hT2 with h | h
  · rw [h] at hget
    have hbalance : σ.balance I.codeOwner = σ.balance I.codeOwner + 1 := by
      conv_lhs => rw [AccountMap.balance, hget]
    exact one_ne_zero (left_eq_add.1 hbalance)
  · rw [h] at hget
    simp at hget

/-! ## A hash function with a target -/

/-- The hash of everything ends in the bytes of `C`. -/
def aimedAt (C : AccountAddress) : Externals where
  KEC _ := zeroes 12 ++ C.toByteArray
  sha256 _ := .empty
  RIP160 _ := .error ""
  ECDSARECOVER _ _ _ _ := .error ""
  BN_ADD _ _ _ _ := .error ""
  BN_MUL _ _ _ := .error ""
  SNARKV _ := .error ""
  PointEval _ := .error ""

/-- Every creation is aimed at the target. -/
theorem derivedAddress_aimedAt (C s : AccountAddress) (n : UInt256) (ζ : Option ByteArray)
    (i : ByteArray) : derivedAddress (aimedAt C) s n ζ i = C := by
  have hbytes : (zeroes 12 ++ C.toByteArray).extract 12 32 = C.toByteArray := by
    rw [ByteArray.extract_append_eq_right (size_zeroes (by decide)).symm]
    rw [size_zeroes (by decide), C.size_toByteArray]
  rw [derivedAddress, EVM.Lambda.address]
  show Fin.ofNat _ (fromByteArrayBigEndian ((zeroes 12 ++ C.toByteArray).extract 12 32)) = C
  rw [hbytes, C.fromByteArrayBigEndian_toByteArray]
  exact Fin.ofNat_val_eq_self C

/-! ## The axioms as declared -/

/-- No address is safe from every hash function. -/
theorem no_safe_address (C s : AccountAddress) (n : UInt256) (ζ : Option ByteArray)
    (i : ByteArray) : ∃ E, ¬lambda_derived_address_ne_C E s n ζ i C :=
  ⟨aimedAt C, fun h => h (derivedAddress_aimedAt C s n ζ i)⟩

/-- **The two axioms are false of the model**, together and each on its own,
whatever the hash function: at all arguments of T2 but the function there is a
function that breaks it, and at all arguments of T5 but the address there is
exactly one address that breaks it. -/
theorem trusted_base_is_false (E : Externals) :
    ¬TrustedBase E ∧
    (∀ σ g A I, ∃ f, ¬precompile_preserves_accountMap σ g A I f) ∧
    ∀ s n ζ i, ∃! C, ¬lambda_derived_address_ne_C E s n ζ i C := by
  refine ⟨fun h => ?_, fun σ g A I => ⟨minting, minting_changes σ g A I⟩, fun s n ζ i => ?_⟩
  · exact h.lambda_derived_address_ne_C 0 0 none .empty _ rfl
  · refine ⟨derivedAddress E s n ζ i, fun h => h rfl, fun C hC => ?_⟩
    exact (not_not.1 hC).symm

/-- The axioms at a fixed input: `minting` run by the first address on the empty
account map, and a salted creation by the first address. -/
theorem trusted_base_fails_at_first_address :
    ¬precompile_preserves_accountMap ∅ 0 default default minting ∧
    ¬lambda_derived_address_ne_C (aimedAt 0xc0de) 0 0 (some (zeroes 32)) .empty 0xc0de ∧
    ¬TrustedBase (aimedAt 0xc0de) :=
  have hT2 := minting_changes ∅ 0 default default
  ⟨hT2, fun h => h (derivedAddress_aimedAt 0xc0de 0 0 (some (zeroes 32)) .empty),
    fun h => hT2 (h.precompile_preserves_accountMap ∅ 0 default default minting)⟩

end Frame
end EvmYul
