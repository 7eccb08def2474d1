import EvmModel.Chain.Block
import EvmModel.Issuance
import EvmModel.TrustedBase

/-!
# The ether of a block

Validation compares the balance of a sender with what it may have to pay at
most, computed in words.  Where that computation does not wrap around, a
transaction that is let in is funded, and so a block makes no ether: the world
after it has at most what the world before had and the withdrawals bring, less
the base fees of the gas used.

* `SignedTransaction.Fits` — what the sender may have to pay is a word;
* `Admitted.valid` — a transaction that is let in and fits is valid;
* `block_makes_no_ether` — the balance sheet of a block.
-/

namespace EvmYul
namespace Conform

open AccountMap

/-! ## Funds -/

namespace SignedTransaction

variable {T : SignedTransaction}

/-- What the sender may have to pay at most, as a number. -/
def cost (T : SignedTransaction) : ℕ :=
  T.T.base.gasLimit.val * T.T.maxFeePerGas.val + T.T.base.value.val +
    getTotalBlobGas T.T * T.maxFeePerBlobGas.val

/-- The computation of the cost does not wrap around. -/
def Fits (T : SignedTransaction) : Prop := T.cost < 2 ^ 256

/-- The words of a sum of two products. -/
theorem val_mul_add_of_lt {a b c : UInt256} (h : a.val * b.val + c.val < 2 ^ 256) :
    (a * b + c).val = a.val * b.val + c.val := by
  have hprod : (a * b).val = a.val * b.val := by
    rw [Fin.val_mul, Nat.mod_eq_of_lt]
    omega
  rw [UInt256.val_add_of_lt (by omega), hprod]

/-- There are six blobs at most. -/
theorem blobs_le {header : BlockHeader} {t : BlobTransaction} (hT : T.T = .blob t)
    (h : T.validateType header = .ok ()) :
    t.blobVersionedHashes.length ≤ 6 ∧ header.getBlobGasprice ≤ T.maxFeePerBlobGas.val := by
  have hspec : Ensures (T.validateType header) fun _ => t.blobVersionedHashes.length ≤ 6 ∧
      header.getBlobGasprice ≤ T.maxFeePerBlobGas.val := by
    unfold validateType
    rw [hT]
    refine Ensures.check fun _ => Ensures.check fun hprice => Ensures.check fun hcount => ?_
    intro _ _
    exact ⟨not_lt.1 hcount, not_lt.1 hprice⟩
  exact hspec () h

/-- The word that is compared with the balance is the cost. -/
theorem v₀_eq_cost {header : BlockHeader} (hfits : T.Fits)
    (htype : T.validateType header = .ok ()) :
    Ensures T.v₀ fun v₀ => v₀.val = T.cost := by
  unfold Fits cost at hfits
  unfold v₀ cost
  cases hT : T.T with
  | legacy t | access t =>
    simp only [hT, getTotalBlobGas, Nat.zero_mul, Nat.add_zero] at hfits ⊢
    exact Ensures.check fun _ => Ensures.ok_iff.2 (val_mul_add_of_lt hfits)
  | dynamic t =>
    simp only [hT, getTotalBlobGas, Nat.zero_mul, Nat.add_zero] at hfits ⊢
    exact Ensures.ok_iff.2 (val_mul_add_of_lt hfits)
  | blob t =>
    obtain ⟨hcount, -⟩ := blobs_le hT htype
    have hgas : (UInt256.ofNat (getTotalBlobGas (.blob t))).val = getTotalBlobGas (.blob t) := by
      refine UInt256.val_ofNat_of_lt ?_
      simp only [getTotalBlobGas, GAS_PER_BLOB]
      omega
    simp only [hT] at hfits ⊢
    refine Ensures.ok_iff.2 ?_
    have hfirst := val_mul_add_of_lt (a := t.gasLimit) (b := t.maxFeePerGas) (c := t.value)
      (lt_of_le_of_lt (Nat.le_add_right _ _) hfits)
    have hsecond : (UInt256.ofNat (getTotalBlobGas (.blob t)) * T.maxFeePerBlobGas).val =
        getTotalBlobGas (.blob t) * T.maxFeePerBlobGas.val := by
      rw [Fin.val_mul, hgas, Nat.mod_eq_of_lt]
      exact lt_of_le_of_lt (Nat.le_add_left _ _) hfits
    rw [UInt256.val_add_of_lt, hfirst, hsecond]
    · rfl
    · rw [hfirst, hsecond]
      exact hfits

/-- The blob fee is covered. -/
theorem calcBlobFee_le {header : BlockHeader} (htype : T.validateType header = .ok ()) :
    calcBlobFee header.toBlockHeader T.T ≤ getTotalBlobGas T.T * T.maxFeePerBlobGas.val := by
  unfold calcBlobFee
  cases hT : T.T with
  | blob t => exact Nat.mul_le_mul_left _ (blobs_le hT htype).2
  | legacy t | access t | dynamic t => simp [getTotalBlobGas]

end SignedTransaction

/-- A transaction that is let in, and whose cost does not wrap around, is valid. -/
theorem Admitted.valid {E : Externals} {chainId : ℕ} {header : BlockHeader} {s : BlockState}
    {T : SignedTransaction} {S_T : AccountAddress}
    (h : Admitted E s.accountMap chainId header s.totalGasUsedInBlock T S_T) (hfits : T.Fits) :
    (toΥ T S_T s header).Valid where
  fee := h.fee
  funds := by
    obtain ⟨-, hprice⟩ := EVM.Υ.Input.p_eq (x := toΥ T S_T s header) h.fee
    have hblob := T.calcBlobFee_le h.type
    have hcost : T.cost ≤ s.accountMap.bal S_T := by
      obtain ⟨v₀, hv, hle⟩ := h.sender.funds
      rw [← SignedTransaction.v₀_eq_cost hfits h.type v₀ hv]
      exact hle
    have hgas := Nat.mul_le_mul_left T.T.base.gasLimit.val hprice
    unfold SignedTransaction.cost at hcost
    simp only [toΥ] at *
    omega
  nonce := by
    show (s.accountMap.account S_T).nonce.val < 2 ^ 64 - 1
    rw [← h.sender.nonce]
    exact h.nonce_lt

/-! ## The steps of a block -/

/-- A withdrawal brings its amount in Gwei. -/
def Withdrawal.wei (w : Withdrawal) : ℕ := w.amount.toNat * 10 ^ 9

theorem total_applyWithdrawal_le (σ : AccountMap) (w : Withdrawal) :
    (applyWithdrawal σ w).total ≤ σ.total + w.wei := by
  have hle : ∀ n, (UInt256.ofNat n).val ≤ n := UInt256.val_ofNat_le
  unfold applyWithdrawal Withdrawal.wei
  generalize w.amount.toNat * 10 ^ 9 = wei
  split
  · exact Nat.le_add_right _ _
  · cases ha : σ[w.address]? with
    | none => exact total_insert_le ((hle wei).trans (Nat.le_add_left _ _))
    | some ac =>
      refine total_insert_le ((hle _).trans_eq ?_)
      rw [bal, account_of_some ha]

theorem total_applyWithdrawals_le (ws : List Withdrawal) (σ : AccountMap) :
    (applyWithdrawals σ ws).total ≤ σ.total + (ws.map Withdrawal.wei).sum := by
  induction ws generalizing σ with
  | nil => simp [applyWithdrawals]
  | cons w ws ih =>
    have hfirst := total_applyWithdrawal_le σ w
    have hrest := ih (applyWithdrawal σ w)
    simp only [applyWithdrawals, List.foldl_cons, List.map_cons, List.sum_cons] at hrest ⊢
    omega

/-- The call of the beacon roots contract sends nothing. -/
theorem total_callBeacon_le (E : Externals) (s₀ : BlockState) (block : DeserializedBlock)
    (htotal : s₀.accountMap.total < 2 ^ 256) :
    Ensures (processBlock.callBeacon E s₀ block) fun s =>
      s.accountMap.total ≤ s₀.accountMap.total := by
  refine (callBeacon_spec E s₀ block).mono ?_
  rintro s (rfl | ⟨fuel, roots, r, hr, rfl⟩)
  · exact le_rfl
  · have hreturned : EVM.Returned E (.Θ fuel (beaconCall s₀ block roots)) r.world := ⟨r, hr, rfl⟩
    exact hreturned.yields.total_le (Nat.zero_le _) htotal

/-- What a block burns with some of its transactions: the base fee of the gas
used, and the blob fees. -/
def burnt (header : BlockHeader) (done : List SignedTransaction) (s : BlockState) : ℕ :=
  s.totalGasUsedInBlock * header.baseFeePerGas +
    (done.map fun T => calcBlobFee header.toBlockHeader T.T).sum

/-- A transaction takes from the total what it burns. -/
theorem Transacted.total_le {E : Externals} {chainId : ℕ} {block : DeserializedBlock}
    {done : List SignedTransaction} {T : SignedTransaction} {s s' : BlockState}
    (h : Transacted E chainId block s T s') (hfits : T.Fits)
    (htotal : s.accountMap.total < 2 ^ 256) :
    s'.accountMap.total + burnt block.blockHeader (done ++ [T]) s' ≤
      s.accountMap.total + burnt block.blockHeader done s := by
  have hfees := (h.admitted.valid hfits).total_le E _ htotal _ h.executed
  rw [h.state]
  simp only [toΥ] at hfees
  simp only [burnt, BlockState.record, List.map_append, List.sum_append, List.map_cons,
    List.map_nil, List.sum_cons, List.sum_nil, Nat.add_zero, Nat.add_mul]
  omega

/-- **No block makes ether.**  When the costs of its transactions do not wrap
around, the world after a block has at most what the world before it had and its
withdrawals bring, less what is burnt: the base fee of all the gas the block has
used, and the blob fees. -/
theorem block_makes_no_ether (E : Externals) (chainId : ℕ) (s₀ : BlockState)
    (block : DeserializedBlock) (hfits : ∀ T ∈ block.transactions, T.Fits)
    (htotal : s₀.accountMap.total < 2 ^ 256) :
    Ensures (processBlock E chainId s₀ block) fun s =>
      s.accountMap.total + burnt block.blockHeader block.transactions s ≤
        s₀.accountMap.total + (block.withdrawals.map Withdrawal.wei).sum := by
  have hstart : Ensures (processBlock.callBeacon E s₀ block) fun s =>
      s.accountMap.total + burnt block.blockHeader []
        { s with totalGasUsedInBlock := 0, transactionReceipts := #[] } ≤
          s₀.accountMap.total := by
    refine (total_callBeacon_le E s₀ block htotal).mono fun s hs => ?_
    simpa [burnt] using hs
  refine (processBlock_spec (P := fun done s => s.accountMap.total +
    burnt block.blockHeader done s ≤ s₀.accountMap.total) hstart ?_).mono ?_
  · intro done T s s' hT hle h
    refine (h.total_le (hfits T hT) ?_).trans hle
    exact lt_of_le_of_lt ((Nat.le_add_right _ _).trans hle) htotal
  · rintro _ ⟨s, hle, rfl⟩
    have hws := total_applyWithdrawals_le block.withdrawals s.accountMap
    simp only [burnt] at hle ⊢
    omega

/-- Every signature is one of `S`. -/
def sealedBy (S : AccountAddress) : Externals :=
  { Frame.aimedAt S with ECDSARECOVER := fun _ _ _ _ => .ok .empty }

/-- Five wei from `0xfeed` to `0xbeef`, at ten wei for a unit of gas. -/
def payment : SignedTransaction where
  T := .legacy
    { gasLimit := .ofNat 21000
      recipient := some 0xbeef
      value := .ofNat 5
      data := .empty
      gasPrice := .ofNat 10 }
  nonce := 0
  r := ⟨#[1]⟩
  s := ⟨#[1]⟩
  w := .ofNat 27
  chainId := 0
  maxFeePerBlobGas := 0

/-- A block with the payment and a withdrawal. -/
def paymentBlock : DeserializedBlock where
  hash := 2
  blockHeader := { (default : BlockHeader) with gasLimit := 30000, baseFeePerGas := 7 }
  transactions := [payment]
  transactionsTrieRoot := .empty
  withdrawals := [⟨0xfeed, 3⟩]
  withdrawalsTrieRoot := .empty
  exception := []

/-- A world in which `0xfeed` can pay. -/
def beforePayment : BlockState where
  accountMap := (∅ : AccountMap).insert 0xfeed { (default : Account) with balance := .ofNat 1000000 }
  totalGasUsedInBlock := 0
  transactionReceipts := #[]
  substate := default
  blocks := #[]
  genesisBlockHeader := default

/-- The block is executed, and what it burns is missing. -/
theorem block_makes_no_ether_payment :
    ∃ s, processBlock (sealedBy 0xfeed) 1 beforePayment paymentBlock = .ok s ∧
      s.accountMap.total + burnt paymentBlock.blockHeader paymentBlock.transactions s ≤
        beforePayment.accountMap.total + (paymentBlock.withdrawals.map Withdrawal.wei).sum := by
  have hfits : ∀ T ∈ paymentBlock.transactions, T.Fits := by
    intro T hT
    rw [List.mem_singleton.1 hT]
    show payment.cost < 2 ^ 256
    decide +kernel
  have htotal : beforePayment.accountMap.total < 2 ^ 256 := by
    refine total_insert_lt ?_
    rw [total_empty]
    decide
  have hok : (processBlock (sealedBy 0xfeed) 1 beforePayment paymentBlock).isOk = true := by
    decide +kernel
  exact (block_makes_no_ether _ 1 _ _ hfits htotal).returns hok

end Conform
end EvmYul
