import EvmModel.Frames

/-!
# Transactions as state transitions

The function `Υ` of `EvmYul/EVM/Semantics.lean`: the checkpoint state, the
message call or contract creation at the top, and what is done when it has come
back — the refund, the fee of the beneficiary, the removal of the accounts
marked by `SELFDESTRUCT` and of the dead ones among the touched, and the
clearing of transient storage.
-/

namespace EvmYul
namespace EVM

/-- The exceptions of `Υ`: an exception of the execution. -/
inductive Exception where
  | ExecutionException (e : ExecutionException)

/-- The arguments of `Υ`, without the fuel. -/
structure Υ.Input where
  σ : AccountMap
  H_f : ℕ
  H : BlockHeader
  genesisBlockHeader : BlockHeader
  blocks : ProcessedBlocks
  T : Transaction
  S_T : AccountAddress

namespace Υ.Input

variable (x : Υ.Input)

/-! ## Before the execution -/

/-- The priority fee, equation 67. -/
def f : UInt256 :=
  match x.T with
  | .legacy t => t.gasPrice - .ofNat x.H_f
  | .access t => t.gasPrice - .ofNat x.H_f
  | .dynamic t => min t.maxPriorityFeePerGas (t.maxFeePerGas - .ofNat x.H_f)
  | .blob t => min t.maxPriorityFeePerGas (t.maxFeePerGas - .ofNat x.H_f)

/-- The effective gas price, equation 66. -/
def p : UInt256 :=
  match x.T with
  | .legacy t => t.gasPrice
  | .access t => t.gasPrice
  | .dynamic _ => x.f + .ofNat x.H_f
  | .blob _ => x.f + .ofNat x.H_f

/-- The sender after the up-front cost, equations 74 and 75.  A sender that does
not exist is a panic in the source, whose value is the default account. -/
def senderAccount : Account :=
  let senderAccount := (x.σ[x.S_T]?).getD default
  { senderAccount with
    balance :=
      senderAccount.balance - x.T.base.gasLimit * x.p - .ofNat (calcBlobFee x.H x.T)
    nonce := senderAccount.nonce + 1 }

/-- The checkpoint state, equation 73. -/
def σ₀ : AccountMap := x.σ.insert x.S_T x.senderAccount

/-- The storage keys of the access list, equation 78. -/
def AStar_K : List (AccountAddress × UInt256) :=
  x.T.getAccessList.flatMap fun (Eₐ, Eₛ) => Eₛ.toList.map fun eₛ => (Eₐ, eₛ)

/-- The gas available to the execution, equation 81. -/
def g : UInt256 := .ofNat (x.T.base.gasLimit.val - intrinsicGas x.T)

/-- The substate the execution starts with, equations 77 to 80. -/
def AStar : Substate :=
  let a := ((A0.accessedAccounts.insert x.S_T).insert x.H.beneficiary).insertMany
    (x.T.getAccessList.map Prod.fst)
  let AStarₐ :=
    match x.T.base.recipient with
    | some t => a.insert t
    | none => a
  { A0 with
    accessedAccounts := AStarₐ
    accessedStorageKeys := .ofList x.AStar_K storageKeysCmp }

/-- The contract creation of a transaction without a recipient. -/
def toΛ : Lambda.Input where
  blobVersionedHashes := x.T.blobVersionedHashes
  createdAccounts := ∅
  genesisBlockHeader := x.genesisBlockHeader
  blocks := x.blocks
  σ := x.σ₀
  σ₀ := x.σ₀
  A := x.AStar
  s := x.S_T
  o := x.S_T
  g := x.g
  p := x.p
  v := x.T.base.value
  i := x.T.base.data
  e := 0
  ζ := none
  H := x.H
  w := true

/-- The message call of a transaction to `t`. -/
def toΘ (t : AccountAddress) : Θ.Input where
  blobVersionedHashes := x.T.blobVersionedHashes
  createdAccounts := ∅
  genesisBlockHeader := x.genesisBlockHeader
  blocks := x.blocks
  σ := x.σ₀
  σ₀ := x.σ₀
  A := x.AStar
  s := x.S_T
  o := x.S_T
  r := t
  c := toExecute x.σ₀ t
  g := x.g
  p := x.p
  v := x.T.base.value
  v' := x.T.base.value
  d := x.T.base.data
  e := 0
  H := x.H
  w := true

/-! ## After the execution -/

/-- The gas given back, with the refund, equation 82. -/
def gStar (g' : UInt256) (A : Substate) : UInt256 :=
  g' + min ((x.T.base.gasLimit - g') / 5) A.refundBalance

/-- The world with the sender refunded and the beneficiary paid, equation 83. -/
def paidOut (σ_P : AccountMap) (g' : UInt256) (A : Substate) : AccountMap :=
  let σStar := σ_P.increaseBalance x.S_T (x.gStar g' A * x.p)
  let beneficiaryFee := (x.T.base.gasLimit - x.gStar g' A) * x.f
  if beneficiaryFee ≠ 0 then σStar.increaseBalance x.H.beneficiary beneficiaryFee else σStar

/-- The provisional state, the gas left, the substate and success, equation 76. -/
def run (E : Externals) (fuel : ℕ) :
    Except ExecutionException (AccountMap × UInt256 × Substate × Bool) :=
  match x.T.base.recipient with
  | none =>
    match Lambda E fuel x.toΛ with
    | .ok r => .ok (r.σ', r.g', r.A', r.z)
    | .error e => .error e
  | some t =>
    match Θ E fuel (x.toΘ t) with
    | .ok r => .ok (r.σ', r.g', r.A', r.z)
    | .error e => .error e

end Υ.Input

/-- The world without the accounts to be removed, equations 87 and 88, and
without transient storage. -/
def Υ.swept (σStar' : AccountMap) (A : Substate) : AccountMap :=
  let σ' := A.selfDestructSet.foldl (fun σ a => σ.erase a) σStar'
  let deadAccounts := A.touchedAccounts.filter σStar'.dead
  let σ' := deadAccounts.foldl (fun σ a => σ.erase a) σ'
  σ'.map fun _ acc => { acc with tstorage := ∅ }

/-- The transaction-level state transition: final world, substate, success and
gas used. -/
def Υ (E : Externals) (fuel : ℕ) (x : Υ.Input) :
    Except Exception (AccountMap × Substate × Bool × UInt256) :=
  match x.run E fuel with
  | .error e => .error (.ExecutionException e)
  | .ok (σ_P, g', A, z) =>
    .ok (Υ.swept (x.paidOut σ_P g' A) A, A, z, x.T.base.gasLimit - x.gStar g' A)

/-! ## The run of a transaction -/

namespace Υ.Input

variable (x : Υ.Input)

/-- The invocation at the top of a transaction. -/
def top (fuel : ℕ) : Invocation :=
  match x.T.base.recipient with
  | none => .Lambda fuel x.toΛ
  | some t => .Θ fuel (x.toΘ t)

theorem top_world (fuel : ℕ) : (x.top fuel).world = ⟨x.σ₀, ∅, x.AStar⟩ := by
  unfold top
  split <;> rfl

/-- The provisional state is what the invocation at the top hands on. -/
theorem returned_of_run {E : Externals} {fuel : ℕ} {σ_P : AccountMap} {g' : UInt256}
    {A : Substate} {z : Bool} (h : x.run E fuel = .ok (σ_P, g', A, z)) :
    ∃ w, Returned E (x.top fuel) w ∧ w.σ = σ_P ∧ w.A = A := by
  unfold run at h
  unfold top
  cases hT : x.T.base.recipient with
  | none =>
    rw [hT] at h
    dsimp only at h
    cases hr : Lambda E fuel x.toΛ with
    | error e => rw [hr] at h; cases h
    | ok r =>
      rw [hr] at h
      cases h
      exact ⟨r.world, ⟨r, hr, rfl⟩, rfl, rfl⟩
  | some t =>
    rw [hT] at h
    dsimp only at h
    cases hr : Θ E fuel (x.toΘ t) with
    | error e => rw [hr] at h; cases h
    | ok r =>
      rw [hr] at h
      cases h
      exact ⟨r.world, ⟨r, hr, rfl⟩, rfl, rfl⟩

end Υ.Input

/-- An account that is no precompiled contract has code that runs. -/
theorem toExecute_of_notMem {t : AccountAddress} (h : t ∉ π) (σ : AccountMap) :
    ∃ code, toExecute σ t = .Code code := by
  unfold toExecute
  rw [if_neg h]
  split
  · exact ⟨_, rfl⟩
  · exact ⟨_, rfl⟩

/-- The run of a transaction to such an account gets to its code. -/
theorem Υ.Input.reaches_code (x : Υ.Input) {t : AccountAddress} (hx : x.T.base.recipient = some t)
    (ht : t ∉ π) (E : Externals) (fuel : ℕ) :
    Reaches E (x.top (fuel + 2))
      (.X fuel (D_J (x.toΘ t).I.code 0) (x.toΘ t).toΞ.fresh) := by
  obtain ⟨code, hcode⟩ := toExecute_of_notMem ht x.σ₀
  have htop : x.top (fuel + 2) = .Θ (fuel + 2) (x.toΘ t) := by
    unfold top
    rw [hx]
  rw [htop]
  exact .tail (.tail .refl (.Θ_Ξ hcode)) .Ξ_X

end EVM
end EvmYul
