import EvmModel.Chain.History
import EvmModel.Progress

/-!
# Fees and fuel

The base fee of a block is computed from its parent, and in a chain that starts
with a positive one it stays positive; then a unit of gas costs a wei at least,
and the balance of a sender, which is the fuel a transaction is executed with,
is enough for the gas it has bought.

* `expectedBaseFeePerGas_ge` — one block takes an eighth of the base fee at most;
* `base_fee_never_collapses` — what is left of it after any number of blocks;
* `admitted_transactions_are_executed` — a transaction that passes the checks is
  executed, whatever the code that runs does.
-/

namespace EvmYul
namespace Conform

/-! ## The base fee -/

/-- **An eighth of the base fee goes at most**: from one block to the next. -/
theorem expectedBaseFeePerGas_ge (parent : BlockHeader) :
    parent.baseFeePerGas - parent.baseFeePerGas / 8 ≤ expectedBaseFeePerGas parent := by
  unfold expectedBaseFeePerGas
  dsimp only
  split
  · exact Nat.sub_le _ _
  · split
    next hlt =>
      -- the gas that is missing to the target is no more than the target
      have hquot : parent.baseFeePerGas * (parent.gasLimit / 2 - parent.gasUsed) /
          (parent.gasLimit / 2) ≤ parent.baseFeePerGas :=
        Nat.div_le_of_le_mul (by
          rw [Nat.mul_comm]
          exact Nat.mul_le_mul_right _ (Nat.sub_le _ _))
      have hν := Nat.div_le_div_right (c := 8) hquot
      omega
    · exact (Nat.sub_le _ _).trans (Nat.le_add_right _ _)

variable {E : Externals} {R : Roots} {chainId : ℕ} {genesis b : ProcessedBlock}
  {processed : Array ProcessedBlock}

/-- The base fees of the blocks that go back to the genesis block. -/
theorem Descends.baseFee_ge (h : Descends E R chainId genesis processed b) :
    min 7 genesis.blockHeader.baseFeePerGas ≤ b.blockHeader.baseFeePerGas ∧
      ∃ n, b.blockHeader.number = genesis.blockHeader.number + n ∧
        7 ^ n * genesis.blockHeader.baseFeePerGas ≤ 8 ^ n * b.blockHeader.baseFeePerGas := by
  induction h with
  | genesis => exact ⟨min_le_right _ _, 0, rfl, le_rfl⟩
  | @follows parent child _ _ h' ih =>
    obtain ⟨hmin, n, hn, hpow⟩ := ih
    have hstep := expectedBaseFeePerGas_ge parent.blockHeader
    rw [← h'.baseFee] at hstep
    refine ⟨by omega, n + 1, ?_, ?_⟩
    · rw [h'.number, hn]
      rfl
    · have heighth : 7 * parent.blockHeader.baseFeePerGas ≤ 8 * child.blockHeader.baseFeePerGas := by
        omega
      calc 7 ^ (n + 1) * genesis.blockHeader.baseFeePerGas
          = 7 * (7 ^ n * genesis.blockHeader.baseFeePerGas) := by ring
        _ ≤ 7 * (8 ^ n * parent.blockHeader.baseFeePerGas) := Nat.mul_le_mul_left _ hpow
        _ = 8 ^ n * (7 * parent.blockHeader.baseFeePerGas) := by ring
        _ ≤ 8 ^ n * (8 * child.blockHeader.baseFeePerGas) := Nat.mul_le_mul_left _ heighth
        _ = 8 ^ (n + 1) * child.blockHeader.baseFeePerGas := by ring

/-- **The base fee never collapses.**  In every block that is accepted it is at
least the lesser of seven wei and the base fee of the genesis block, and at least
seven eighths of that of the genesis block for each block in between. -/
theorem base_fee_never_collapses (E : Externals) (R : Roots) (chainId : ℕ)
    (genesis : ProcessedBlock) (blocks : List RawBlock) :
    Ensures (processBlocks E R chainId genesis blocks) fun s => ∀ b ∈ s.blocks,
      min 7 genesis.blockHeader.baseFeePerGas ≤ b.blockHeader.baseFeePerGas ∧
        ∃ n, b.blockHeader.number = genesis.blockHeader.number + n ∧
          7 ^ n * genesis.blockHeader.baseFeePerGas ≤ 8 ^ n * b.blockHeader.baseFeePerGas :=
  (processBlocks_tree E R chainId genesis blocks).mono fun _ h b hb =>
    (h.2.descends b hb).baseFee_ge

/-- It is seven wei in both blocks. -/
theorem base_fee_never_collapses_firstBlock :
    ∃ s, processBlocks (sealedBy 0xfeed) noRoots 1 Conform.genesis [firstBlock] = .ok s ∧
      s.blocks.size = 2 ∧ ∀ b ∈ s.blocks, 7 ≤ b.blockHeader.baseFeePerGas := by
  obtain ⟨s, hs, hnonces⟩ := firstBlock_processed
  have hsize : s.blocks.size = 2 := by
    have hlength := congrArg List.length hnonces
    rwa [List.length_map, Array.length_toList] at hlength
  exact ⟨s, hs, hsize, fun b hb => (base_fee_never_collapses _ _ 1 _ _ s hs b hb).1⟩

/-! ## Execution -/

/-- The balance of the sender of a transaction that is let in is fuel enough. -/
theorem Admitted.need_le {header : BlockHeader} {s : BlockState} {T : SignedTransaction}
    {S_T : AccountAddress}
    (h : Admitted E s.accountMap chainId header s.totalGasUsedInBlock T S_T) (hfits : T.Fits)
    (hfee : 0 < header.baseFeePerGas) :
    (toΥ T S_T s header).need ≤ EVM.executeTransaction.fuel (toΥ T S_T s header) := by
  have hcost : T.cost ≤ s.accountMap.bal S_T := by
    obtain ⟨v₀, hv, hle⟩ := h.sender.funds
    rw [← SignedTransaction.v₀_eq_cost hfits h.type v₀ hv]
    exact hle
  have hprice : 1 ≤ T.T.maxFeePerGas.val := hfee.trans_le h.fee
  have hgas : T.T.base.gasLimit.val ≤ T.T.base.gasLimit.val * T.T.maxFeePerGas.val :=
    Nat.le_mul_of_pos_right _ hprice
  have hle : T.T.base.gasLimit.val ≤ s.accountMap.bal S_T := by
    unfold SignedTransaction.cost at hcost
    omega
  refine EVM.executeTransaction.fuel_suffices h.intrinsic ?_
  show T.T.base.gasLimit.val ≤ (s.accountMap.balance S_T).val
  rw [AccountMap.balance_eq]
  exact hle

/-- **Transactions that are let in are executed.**  When the base fee is positive,
a transaction that passes the checks, and whose cost does not wrap around, is
executed, whatever the code that runs does: `Υ` returns, with the fuel it is
given and with any more, and what it has returned is recorded. -/
theorem admitted_transactions_are_executed {block : DeserializedBlock} {s : BlockState}
    {T : SignedTransaction} {S_T : AccountAddress} (hfits : T.Fits)
    (hfee : 0 < block.blockHeader.baseFeePerGas)
    (h : validateTransaction E s.accountMap chainId block.blockHeader s.totalGasUsedInBlock T =
      .ok S_T) :
    ∃ σ' A z gasUsed,
      (∀ n, EVM.Υ E (EVM.executeTransaction.fuel (toΥ T S_T s block.blockHeader) + n)
        (toΥ T S_T s block.blockHeader) = .ok (σ', A, z, gasUsed)) ∧
      processBlock.transact E chainId block s T = .ok (s.record E T.T.type σ' A z gasUsed) := by
  have hadmitted := validateTransaction_spec _ _ _ _ _ _ S_T h
  obtain ⟨⟨σ', A, z, gasUsed⟩, hr⟩ := EVM.Υ_need_returns E (toΥ T S_T s block.blockHeader)
  have hneed := hadmitted.need_le hfits hfee
  refine ⟨σ', A, z, gasUsed, fun n => ?_, ?_⟩
  · rw [EVM.Υ_eq_of_need_le E (hneed.trans (Nat.le_add_right _ n)), hr]
  · rw [← EVM.Υ_eq_of_need_le E hneed] at hr
    rw [processBlock.transact, Except.bind_of_eq_ok h]
    simp only [executeTransaction, hr]

/-- The payment is executed. -/
theorem admitted_transactions_are_executed_payment :
    ∃ σ' A z gasUsed, processBlock.transact (sealedBy 0xfeed) 1 paymentBlock beforePayment payment =
      .ok (beforePayment.record (sealedBy 0xfeed) 0 σ' A z gasUsed) := by
  have hvalid : (validateTransaction (sealedBy 0xfeed) beforePayment.accountMap 1
      paymentBlock.blockHeader beforePayment.totalGasUsedInBlock payment).isOk = true := by
    decide +kernel
  obtain ⟨S_T, h⟩ := Except.exists_eq_ok_of_isOk hvalid
  have hfits : payment.cost < 2 ^ 256 := by decide +kernel
  obtain ⟨σ', A, z, gasUsed, -, hr⟩ := admitted_transactions_are_executed hfits (by decide) h
  exact ⟨σ', A, z, gasUsed, hr⟩

end Conform
end EvmYul
