import EvmModel.Lib.Ensures
import EvmModel.Blake2.Native
import EvmModel.StateOps

/-!
# The precompiled contracts

The ten bodies of `EvmYul/EVM/PrecompiledContracts.lean` and the dispatcher
`applyPrecompile` of `EvmYul/EVM/Semantics.lean`.  All ten are one function,
`runPrecompiled`, of a price and an output: too little gas, or no output, is a
failure with an empty account map, and anything else hands the account map on.

* `precompiles_pure` — no body changes an account;
* `applyPrecompile_spec` — the dispatcher always returns, creates no account,
  and drops the account map or hands it on.
-/

namespace EvmYul

/-- Success, account map, remaining gas, substate and output. -/
abbrev PrecompiledResult := Bool × AccountMap × UInt256 × Substate × ByteArray

/-- The shape of every precompiled contract: the price `gᵣ` is paid, and the
output `o` may be an error of the program that computes it. -/
def runPrecompiled (gᵣ : ℕ) (o : Except String ByteArray) (σ : AccountMap) (g : UInt256)
    (A : Substate) : PrecompiledResult :=
  if g.val < gᵣ then (false, ∅, 0, A, .empty)
  else
    match o with
    | .ok o => (true, σ, g - .ofNat gᵣ, A, o)
    | .error _ => (false, ∅, 0, A, .empty)

/-- An output whose error is taken for the empty one. -/
def orEmpty (o : Except String ByteArray) : ByteArray :=
  match o with
  | .ok s => s
  | .error _ => .empty

def secp256k1n : ℕ :=
  115792089237316195423570985008687907852837564279074904382605163141518161494337

def ffi.SHA256 (E : Externals) (d : ByteArray) : Except String ByteArray := pure (E.sha256 d)

/-! ## The ten bodies -/

section

variable (E : Externals) (σ : AccountMap) (g : UInt256) (A : Substate) (I : ExecutionEnv)

def Ξ_ECREC : PrecompiledResult :=
  let d := I.calldata
  let h := readBytes d 0 32
  let v := readBytes d 32 32
  let r := readBytes d 64 32
  let s := readBytes d 96 32
  let v' := fromByteArrayBigEndian v
  let r' := fromByteArrayBigEndian r
  let s' := fromByteArrayBigEndian s
  let o :=
    if v' < 27 ∨ 28 < v' ∨ r' = 0 ∨ secp256k1n ≤ r' ∨ s' = 0 ∨ secp256k1n ≤ s' then .empty
    else
      match E.ECDSARECOVER h ⟨#[.ofNat v' - 27]⟩ r s with
      | .ok s => zeroes 12 ++ (E.KEC s).extract 12 32
      | .error _ => .empty
  runPrecompiled 3000 (.ok o) σ g A

def Ξ_SHA256 : PrecompiledResult :=
  let gᵣ := 60 + 12 * ((I.calldata.size + 31) / 32)
  runPrecompiled gᵣ (.ok (orEmpty (ffi.SHA256 E I.calldata))) σ g A

def Ξ_RIP160 : PrecompiledResult :=
  let gᵣ := 600 + 120 * ((I.calldata.size + 31) / 32)
  runPrecompiled gᵣ (.ok (orEmpty (E.RIP160 I.calldata))) σ g A

def Ξ_ID : PrecompiledResult :=
  let gᵣ := 15 + 3 * ((I.calldata.size + 31) / 32)
  runPrecompiled gᵣ (.ok I.calldata) σ g A

def nat_of_slice (B : ByteArray) (start width : ℕ) : ℕ :=
  let slice := readWithoutPadding B start width
  let padding := width - slice.size
  fromByteArrayBigEndian slice <<< (8 * padding)

def expModAux (m a c n : ℕ) : ℕ :=
  if n = 0 then a % m
  else if n % 2 = 1 then expModAux m (a * c % m) (c * c % m) (n / 2)
  else expModAux m (a % m) (c * c % m) (n / 2)
termination_by n

def expMod (m : ℕ) (b : UInt256) (n : ℕ) : ℕ := expModAux m 1 b.val n

/-- The price of a modular exponentiation with operands of the given lengths. -/
def expModGas (data : ByteArray) (base_length exp_length modulus_length : ℕ) : ℕ :=
  let exp := nat_of_slice data (96 + base_length) exp_length
  let multiplication_complexity := ((max base_length modulus_length + 7) / 8) ^ 2
  let adjusted_exp_length :=
    if exp_length ≤ 32 ∧ exp = 0 then 0
    else if exp_length ≤ 32 then Nat.log 2 exp
    else
      let length_part := 8 * (exp_length - 32)
      let exp_head := nat_of_slice data (96 + base_length) 32
      let bits_part := if 32 < exp_length ∧ exp_head ≠ 0 then Nat.log 2 exp_head else 0
      length_part + bits_part
  let iterations := max adjusted_exp_length 1
  let G_quaddivisor := 3
  max 200 (multiplication_complexity * iterations / G_quaddivisor)

def Ξ_EXPMOD : PrecompiledResult :=
  let data := I.calldata
  let base_length := nat_of_slice data 0 32
  let exp_length := nat_of_slice data 32 32
  let modulus_length := nat_of_slice data 64 32
  let modulus := nat_of_slice data (96 + base_length + exp_length) modulus_length
  let o :=
    if modulus_length = 0 ∨ modulus = 0 then zeroes modulus_length
    else
      let base := nat_of_slice data 96 base_length
      let exp := nat_of_slice data (96 + base_length) exp_length
      let expmod_base := BE (expMod modulus (.ofNat base) exp)
      let expmod_zeroes :=
        if expmod_base.size ≤ modulus_length then zeroes (modulus_length - expmod_base.size)
        else .empty
      expmod_zeroes ++ expmod_base
  runPrecompiled (expModGas data base_length exp_length modulus_length) (.ok o) σ g A

def Ξ_BN_ADD : PrecompiledResult :=
  let d := I.calldata
  runPrecompiled 150
    (E.BN_ADD (readBytes d 0 32) (readBytes d 32 32) (readBytes d 64 32) (readBytes d 96 32)) σ g A

def Ξ_BN_MUL : PrecompiledResult :=
  let d := I.calldata
  runPrecompiled 6000 (E.BN_MUL (readBytes d 0 32) (readBytes d 32 32) (readBytes d 64 32)) σ g A

def Ξ_SNARKV : PrecompiledResult :=
  let d := I.calldata
  let k := d.size / 192
  runPrecompiled (34000 * k + 45000) (E.SNARKV d) σ g A

def Ξ_BLAKE2_F : PrecompiledResult :=
  let d := I.calldata
  runPrecompiled (fromByteArrayBigEndian (d.extract 0 4)) (ffi.BLAKE2 d) σ g A

def Ξ_PointEval : PrecompiledResult := runPrecompiled 50000 (E.PointEval I.calldata) σ g A

/-! ## The dispatcher -/

/-- What `Θ` runs for the precompiled contract `p`.  The last branch is the
`default` of the source: exceptions have no default value, so the one of
`Except` is a successful result, with a failed call and an empty account map. -/
def EVM.applyPrecompile (p : AccountAddress) :
    Except EVM.ExecutionException (AddrSet × PrecompiledResult) :=
  if p = 1 then .ok (∅, Ξ_ECREC E σ g A I)
  else if p = 2 then .ok (∅, Ξ_SHA256 E σ g A I)
  else if p = 3 then .ok (∅, Ξ_RIP160 E σ g A I)
  else if p = 4 then .ok (∅, Ξ_ID σ g A I)
  else if p = 5 then .ok (∅, Ξ_EXPMOD σ g A I)
  else if p = 6 then .ok (∅, Ξ_BN_ADD E σ g A I)
  else if p = 7 then .ok (∅, Ξ_BN_MUL E σ g A I)
  else if p = 8 then .ok (∅, Ξ_SNARKV E σ g A I)
  else if p = 9 then .ok (∅, Ξ_BLAKE2_F σ g A I)
  else if p = 10 then .ok (∅, Ξ_PointEval E σ g A I)
  else .ok default

end

/-! ## No precompiled contract changes an account -/

/-- The account map is handed on or dropped, and the substate is handed on. -/
def PrecompiledResult.Pure (σ : AccountMap) (A : Substate) (r : PrecompiledResult) : Prop :=
  (r.2.1 = σ ∨ r.2.1 = ∅) ∧ r.2.2.2.1 = A

theorem runPrecompiled_pure (gᵣ : ℕ) (o : Except String ByteArray) (σ : AccountMap) (g : UInt256)
    (A : Substate) : (runPrecompiled gᵣ o σ g A).Pure σ A := by
  unfold runPrecompiled
  split
  · exact ⟨.inr rfl, rfl⟩
  · cases o with
    | ok o => exact ⟨.inl rfl, rfl⟩
    | error e => exact ⟨.inr rfl, rfl⟩

/-- The ten bodies, in the order of their addresses. -/
def precompiles (E : Externals) :
    List (AccountMap → UInt256 → Substate → ExecutionEnv → PrecompiledResult) :=
  [Ξ_ECREC E, Ξ_SHA256 E, Ξ_RIP160 E, Ξ_ID, Ξ_EXPMOD, Ξ_BN_ADD E, Ξ_BN_MUL E, Ξ_SNARKV E,
    Ξ_BLAKE2_F, Ξ_PointEval E]

/-- **The ten precompiled contracts are pure.** -/
theorem precompiles_pure (E : Externals) (σ : AccountMap) (g : UInt256) (A : Substate)
    (I : ExecutionEnv) : ∀ f ∈ precompiles E, (f σ g A I).Pure σ A := by
  simp only [precompiles, List.forall_mem_cons, List.not_mem_nil, false_implies, implies_true,
    and_true]
  exact ⟨runPrecompiled_pure .., runPrecompiled_pure .., runPrecompiled_pure ..,
    runPrecompiled_pure .., runPrecompiled_pure .., runPrecompiled_pure ..,
    runPrecompiled_pure .., runPrecompiled_pure .., runPrecompiled_pure .., runPrecompiled_pure ..⟩

/-- The dispatcher always returns, with no account created, and either drops the
account map or hands it on together with the substate. -/
theorem applyPrecompile_spec (E : Externals) (σ : AccountMap) (g : UInt256) (A : Substate)
    (I : ExecutionEnv) (p : AccountAddress) :
    Returns (EVM.applyPrecompile E σ g A I p) fun r =>
      r.1 = ∅ ∧ (r.2.2.1 = ∅ ∨ r.2.2.1 = σ ∧ r.2.2.2.2.1 = A) := by
  have hbody : ∀ r : PrecompiledResult, r.Pure σ A →
      Returns (.ok (∅, r) : Except EVM.ExecutionException (AddrSet × PrecompiledResult)) fun r =>
        r.1 = ∅ ∧ (r.2.2.1 = ∅ ∨ r.2.2.1 = σ ∧ r.2.2.2.2.1 = A) := by
    rintro r ⟨hσ | hσ, hA⟩
    · exact Returns.ok ⟨rfl, .inr ⟨hσ, hA⟩⟩
    · exact Returns.ok ⟨rfl, .inl hσ⟩
  unfold EVM.applyPrecompile
  iterate 10 refine Returns.ite (fun _ => hbody _ (runPrecompiled_pure ..)) fun _ => ?_
  -- the index is not one of the ten
  exact Returns.ok ⟨rfl, .inl rfl⟩

end EvmYul
