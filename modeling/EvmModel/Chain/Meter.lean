import EvmModel.Chain.Treasury

/-!
# The gas of a block

A transaction is let into a block only if its gas limit fits into what is left
of the limit of the block, and it uses no more than its own limit; so a block
never uses more gas than its header allows.  It uses at least four fifths of its
intrinsic gas, so the receipts count up by 16800 at least, and a block has no
more transactions than its gas limit has room for.

* `Executed` — transactions executed one after the other, with the gas that `Υ`
  returned for each;
* `CountsUp` — each receipt exceeds the one before by the gas of its transaction;
* `block_gas_is_metered` — every block that is executed is metered, within its
  limit.
-/

namespace EvmYul
namespace Conform

/-- The least gas a transaction can use, with the highest refund. -/
def minGasUsed : ℕ := 16800

/-! ## Receipts -/

/-- The receipts count up from `before`, each by the gas its transaction used. -/
def CountsUp : ℕ → List TransactionReceipt → List ℕ → Prop
  | _, [], [] => True
  | before, r :: receipts, g :: used =>
    r.cumulativeGasUsedInBlock = before + g ∧ CountsUp (before + g) receipts used
  | _, _, _ => False

/-- One more transaction. -/
theorem CountsUp.concat {r : TransactionReceipt} {g : ℕ} :
    ∀ {receipts : List TransactionReceipt} {used : List ℕ} {before : ℕ},
      CountsUp before receipts used → r.cumulativeGasUsedInBlock = before + used.sum + g →
        CountsUp before (receipts ++ [r]) (used ++ [g])
  | [], [], before, _, hr => ⟨by simpa using hr, trivial⟩
  | r' :: receipts, g' :: used, before, h, hr => by
    refine ⟨h.1, h.2.concat ?_⟩
    rw [hr, List.sum_cons, Nat.add_assoc before g']
  | [], _ :: _, _, h, _ => h.elim
  | _ :: _, [], _, h, _ => h.elim

theorem CountsUp.length_eq :
    ∀ {receipts : List TransactionReceipt} {used : List ℕ} {before : ℕ},
      CountsUp before receipts used → receipts.length = used.length
  | [], [], _, _ => rfl
  | _ :: _, _ :: _, _, h => congrArg (· + 1) h.2.length_eq
  | [], _ :: _, _, h => h.elim
  | _ :: _, [], _, h => h.elim

/-! ## Blocks -/

/-- The transactions were executed one after the other, on the way from `s` to
`s'`, and used so much gas. -/
inductive Executed (E : Externals) (chainId : ℕ) (block : DeserializedBlock) (s : BlockState) :
    List SignedTransaction → List ℕ → BlockState → Prop
  | nil : Executed E chainId block s [] [] s
  | concat {done : List SignedTransaction} {used : List ℕ} {t t' : BlockState}
      {T : SignedTransaction} (h : Executed E chainId block s done used t)
      (hT : Transacted E chainId block t T t') :
      Executed E chainId block s (done ++ [T]) (used ++ [hT.gasUsed.val]) t'

/-- What holds after some of the transactions of a block, when they were executed
from `s₁` on. -/
structure MeteredState (E : Externals) (chainId : ℕ) (block : DeserializedBlock)
    (s₁ : BlockState) (done : List SignedTransaction) (used : List ℕ) (s : BlockState) :
    Prop where
  executed : Executed E chainId block s₁ done used s
  counts : CountsUp 0 s.transactionReceipts.toList used
  total : s.totalGasUsedInBlock = used.sum
  least : ∀ g ∈ used, minGasUsed ≤ g
  within : s.totalGasUsedInBlock ≤ block.blockHeader.gasLimit

variable {E : Externals} {chainId : ℕ} {block : DeserializedBlock} {s₁ s s' : BlockState}
  {done : List SignedTransaction} {used : List ℕ} {T : SignedTransaction}

theorem Executed.length_eq (h : Executed E chainId block s₁ done used s) :
    used.length = done.length := by
  induction h with
  | nil => rfl
  | concat _ _ ih => simp [ih]

/-- A transaction that is let in keeps the block within its limit. -/
theorem MeteredState.transacted (h : MeteredState E chainId block s₁ done used s)
    (hT : Transacted E chainId block s T s') :
    MeteredState E chainId block s₁ (done ++ [T]) (used ++ [hT.gasUsed.val]) s' := by
  have hallowance := hT.admitted.allowance
  have hintrinsic := hT.admitted.intrinsic
  have hgas := EVM.intrinsicGas_ge T.T
  obtain ⟨hle, hge⟩ := EVM.Υ_gasUsed E _ (toΥ T hT.S_T s block.blockHeader) _ hT.executed
  have hlimit : hT.gasUsed.val ≤ T.T.base.gasLimit.val := hle
  have hmin : minGasUsed ≤ hT.gasUsed.val := by
    have hfourfifths := hge hintrinsic
    simp only [toΥ, minGasUsed] at *
    omega
  have hreceipts : s'.transactionReceipts.toList = s.transactionReceipts.toList ++
      [⟨T.T.type, hT.z, s.totalGasUsedInBlock + hT.gasUsed.val,
        bloomFilter E (Substate.joinLogs hT.A), hT.A.logSeries⟩] := by
    rw [congrArg BlockState.transactionReceipts hT.state]
    exact Array.toList_push
  have htotal : s'.totalGasUsedInBlock = s.totalGasUsedInBlock + hT.gasUsed.val :=
    congrArg BlockState.totalGasUsedInBlock hT.state
  constructor
  case executed => exact h.executed.concat hT
  case counts =>
    rw [hreceipts]
    exact h.counts.concat (by rw [Nat.zero_add, h.total])
  case total => simp [htotal, h.total]
  case least =>
    intro g hg
    rcases List.mem_append.1 hg with hg | hg
    · exact h.least g hg
    · rw [List.mem_singleton.1 hg]
      exact hmin
  case within =>
    rw [htotal]
    omega

/-- What is known of a block that has been executed on `s₀`: its transactions were
executed after the beacon call, the receipts say what gas `Υ` returned for them,
and it is within its limit. -/
structure Metered (E : Externals) (chainId : ℕ) (s₀ : BlockState) (block : DeserializedBlock)
    (used : List ℕ) (s : BlockState) : Prop where
  executed : ∃ s₁ s₂, processBlock.callBeacon E s₀ block = .ok s₁ ∧
    Executed E chainId block { s₁ with totalGasUsedInBlock := 0, transactionReceipts := #[] }
      block.transactions used s₂ ∧
    s = { s₂ with accountMap := applyWithdrawals s₂.accountMap block.withdrawals }
  counts : CountsUp 0 s.transactionReceipts.toList used
  receipts : s.transactionReceipts.size = block.transactions.length
  total : s.totalGasUsedInBlock = used.sum
  least : ∀ g ∈ used, minGasUsed ≤ g
  within : s.totalGasUsedInBlock ≤ block.blockHeader.gasLimit
  room : minGasUsed * block.transactions.length ≤ block.blockHeader.gasLimit

theorem processBlock_metered (E : Externals) (chainId : ℕ) (s₀ : BlockState)
    (block : DeserializedBlock) : Ensures (processBlock E chainId s₀ block) fun s =>
      ∃ used, Metered E chainId s₀ block used s := by
  have hstart : Ensures (processBlock.callBeacon E s₀ block) fun s =>
      ∃ s₁ used, processBlock.callBeacon E s₀ block = .ok s₁ ∧ MeteredState E chainId block
        { s₁ with totalGasUsedInBlock := 0, transactionReceipts := #[] } [] used
        { s with totalGasUsedInBlock := 0, transactionReceipts := #[] } :=
    fun s hs => ⟨s, [], hs, ⟨.nil, trivial, rfl, by simp, Nat.zero_le _⟩⟩
  refine (processBlock_spec (P := fun done s => ∃ s₁ used,
    processBlock.callBeacon E s₀ block = .ok s₁ ∧ MeteredState E chainId block
      { s₁ with totalGasUsedInBlock := 0, transactionReceipts := #[] } done used s) hstart ?_).mono
    ?_
  · rintro done T s s' - ⟨s₁, used, hs₁, h⟩ hT
    exact ⟨s₁, _, hs₁, h.transacted hT⟩
  · rintro _ ⟨s, ⟨s₁, used, hs₁, h⟩, rfl⟩
    have hlength := h.executed.length_eq
    have hsize : s.transactionReceipts.size = block.transactions.length := by
      rw [← Array.length_toList, h.counts.length_eq, hlength]
    have hroom : used.length * minGasUsed ≤ used.sum := by
      rw [← smul_eq_mul]
      exact List.card_nsmul_le_sum used minGasUsed h.least
    refine ⟨used, ⟨s₁, s, hs₁, h.executed, rfl⟩, h.counts, hsize, h.total, h.least, h.within, ?_⟩
    rw [← hlength, Nat.mul_comm]
    exact hroom.trans (h.total ▸ h.within)

/-- **The gas of a block is metered.**  Whatever its transactions do, a block
that is executed has one receipt for each transaction, and each receipt exceeds
the one before by the gas that `Υ` has returned for the transaction, which is
16800 at least; the last one is the gas of the block, which stays within the
limit of its header, and the limit has room for all the transactions. -/
theorem block_gas_is_metered (E : Externals) (chainId : ℕ) (s₀ : BlockState)
    (block : DeserializedBlock) :
    Ensures (processBlock E chainId s₀ block) fun s =>
      ∃ used, Metered E chainId s₀ block used s :=
  processBlock_metered E chainId s₀ block

/-- The block with the payment is executed, and its receipt says 21000. -/
theorem block_gas_is_metered_payment :
    ∃ s used, processBlock (sealedBy 0xfeed) 1 beforePayment paymentBlock = .ok s ∧
      s.transactionReceipts.toList.map TransactionReceipt.cumulativeGasUsedInBlock = [21000] ∧
      Metered (sealedBy 0xfeed) 1 beforePayment paymentBlock used s := by
  obtain ⟨s, hs, hgas⟩ : Returns (processBlock (sealedBy 0xfeed) 1 beforePayment paymentBlock)
      fun s => s.transactionReceipts.toList.map TransactionReceipt.cumulativeGasUsedInBlock =
        [21000] :=
    .of_toOption_map (by decide +kernel)
  obtain ⟨used, hused⟩ := block_gas_is_metered _ _ _ _ s hs
  exact ⟨s, used, hs, hgas, hused⟩

end Conform
end EvmYul
