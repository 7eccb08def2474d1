import EvmModel.Chain.Meter
import EvmModel.Chain.Treasury
import EvmModel.Seniority

/-!
# The history of a chain

What happens to the world from block to block is a sequence of events: calls of
the beacon roots contract, transactions, withdrawals.  No event takes a nonce or
deployed code back, so none does along a whole history, and a transaction that
has been executed once is never let in again.

Every block that is processed descends from the genesis block, and each one is
what comes of executing it on the world of its parent.

* `Event`, `Later` — one event, and any number of them;
* `processBlock_later` — a block is a sequence of events;
* `Follows`, `Descends` — a block on top of another one, and of the genesis block;
* `every_block_descends` — the blocks that have been processed form a tree;
* `no_transaction_is_replayed`, `deployed_code_outlives_every_block`.
-/

namespace EvmYul

namespace EVM

/-- A transaction takes no code back. -/
theorem Υ_codeAt (E : Externals) (fuel : ℕ) {x : Υ.Input} {C : AccountAddress} {c : ByteArray}
    (hC : x.σ.codeAt C = some c) :
    Ensures (Υ E fuel x) fun (σ', _, _, _) => σ'.codeAt C = some c := by
  intro r hr
  unfold Υ at hr
  cases hrun : x.run E fuel with
  | error e => rw [hrun] at hr; cases hr
  | ok r =>
    obtain ⟨σ_P, g', A, z⟩ := r
    rw [hrun] at hr
    cases hr
    obtain ⟨w, hw, rfl, rfl⟩ := x.returned_of_run hrun
    obtain ⟨acc, hacc, hcode, hne⟩ := AccountMap.codeAt_eq_some_iff.1 hC
    have hint := (survives hne (x.intact_top hne fuel ⟨acc, hacc, hcode⟩)).returned w hw
    obtain ⟨acc', hacc', hcode'⟩ := x.code_swept hne hint g'
    exact AccountMap.codeAt_eq_some_iff.2 ⟨acc', hacc', hcode', hne⟩

end EVM

namespace Conform

/-! ## Events -/

section

variable (E : Externals) (chainId : ℕ)

/-- One thing that happens to the world. -/
inductive Event : AccountMap → AccountMap → Prop
  | beacon {s₀ s : BlockState} {block : DeserializedBlock}
      (h : processBlock.callBeacon E s₀ block = .ok s) : Event s₀.accountMap s.accountMap
  | transaction {s s' : BlockState} {block : DeserializedBlock} {T : SignedTransaction}
      (h : processBlock.transact E chainId block s T = .ok s') :
      Event s.accountMap s'.accountMap
  | withdrawal (σ : AccountMap) (w : Withdrawal) : Event σ (applyWithdrawal σ w)

/-- What the world may have become later. -/
def Later : AccountMap → AccountMap → Prop := Relation.ReflTransGen (Event E chainId)

end

variable {E : Externals} {chainId : ℕ} {σ σ' : AccountMap}

theorem applyWithdrawals_later (ws : List Withdrawal) (σ : AccountMap) :
    Later E chainId σ (applyWithdrawals σ ws) := by
  induction ws generalizing σ with
  | nil => exact .refl
  | cons w ws ih => exact .head (.withdrawal σ w) (ih (applyWithdrawal σ w))

/-- A block is a sequence of events. -/
theorem processBlock_later (E : Externals) (chainId : ℕ) (s₀ : BlockState)
    (block : DeserializedBlock) : Ensures (processBlock E chainId s₀ block) fun s =>
      Later E chainId s₀.accountMap s.accountMap := by
  unfold processBlock
  refine Ensures.bind_any fun s₁ hs₁ => ?_
  refine Ensures.bind (Ensures.foldlM
    (P := fun _ s => Later E chainId s₀.accountMap s.accountMap) ?_ ?_) ?_
  · intro done T rest s _ hs s' hs'
    exact hs.tail (.transaction hs')
  · have hbeacon : Event E chainId s₀.accountMap s₁.accountMap := .beacon hs₁
    exact .single hbeacon
  · intro s hs
    exact Ensures.ok_iff.2 (hs.trans (applyWithdrawals_later _ _))

/-- What every event keeps is kept. -/
theorem Later.keeps {P : AccountMap → Prop} (h : Later E chainId σ σ')
    (hevent : ∀ {σ σ'}, Event E chainId σ σ' → P σ → P σ') (hσ : P σ) : P σ' := by
  induction h with
  | refl => exact hσ
  | tail _ hstep ih => exact hevent hstep ih

/-! ## Nonces -/

/-- The nonce of the sender is the one of the transaction. -/
theorem Transacted.nonce_eq {block : DeserializedBlock} {T : SignedTransaction} {s s' : BlockState}
    (h : Transacted E chainId block s T s') : s.accountMap.nonce h.S_T = T.nonce.val := by
  rw [h.admitted.sender.nonce]
  rfl

/-- A transaction takes no nonce back, and counts up the one of its sender. -/
theorem Transacted.nonce_le {block : DeserializedBlock} {T : SignedTransaction} {s s' : BlockState}
    (h : Transacted E chainId block s T s') (a : AccountAddress) :
    (s.accountMap.nonce a + if h.S_T = a then 1 else 0) ≤ s'.accountMap.nonce a := by
  have hlast : (toΥ T h.S_T s block.blockHeader).σ.nonce h.S_T < 2 ^ 64 - 1 := by
    show s.accountMap.nonce h.S_T < 2 ^ 64 - 1
    rw [h.nonce_eq]
    exact h.admitted.nonce_lt
  have hle := EVM.Υ_nonces E _ hlast _ h.executed a
  rw [h.accountMap]
  exact hle

theorem nonce_applyWithdrawal (σ : AccountMap) (w : Withdrawal) (a : AccountAddress) :
    (applyWithdrawal σ w).nonce a = σ.nonce a := by
  unfold applyWithdrawal
  split
  · rfl
  · cases hw : σ[w.address]? with
    | none => exact AccountMap.nonce_insert (by rw [AccountMap.account_of_none hw]) a
    | some ac => exact AccountMap.nonce_insert (by rw [AccountMap.account_of_some hw]) a

/-- No event takes a nonce back. -/
theorem Event.nonce_le (h : Event E chainId σ σ') (a : AccountAddress) :
    σ.nonce a ≤ σ'.nonce a := by
  cases h with
  | @beacon s₀ s block h =>
    rcases callBeacon_spec E s₀ block s h with rfl | ⟨fuel, roots, r, hr, rfl⟩
    · exact le_rfl
    · have hreturned : EVM.Returned E (.Θ fuel (beaconCall s₀ block roots)) r.world := ⟨r, hr, rfl⟩
      by_cases hpos : s₀.accountMap.nonce a = 0
      · rw [hpos]
        exact Nat.zero_le _
      · exact (hreturned.yields.nonce_le Std.TreeSet.not_mem_emptyc Std.TreeSet.not_mem_emptyc
          (Nat.pos_of_ne_zero hpos)).1
  | transaction h =>
    obtain ⟨hT⟩ := transact_spec E chainId _ _ _ _ h
    exact (Nat.le_add_right _ _).trans (hT.nonce_le a)
  | withdrawal _ w => exact (nonce_applyWithdrawal σ w a).ge

theorem Later.nonce_le (h : Later E chainId σ σ') (a : AccountAddress) :
    σ.nonce a ≤ σ'.nonce a :=
  h.keeps (P := fun σ'' => σ.nonce a ≤ σ''.nonce a) (fun hstep hle => hle.trans (hstep.nonce_le a))
    le_rfl

/-- **No transaction is replayed.**  A signed transaction that has been executed
is not let into any later block, nor into the same block again: whatever has
happened since, the nonce of its sender has passed the one it was signed with,
and the checks before its execution fail. -/
theorem no_transaction_is_replayed {block block' : DeserializedBlock} {T : SignedTransaction}
    {s s' t : BlockState} (h : processBlock.transact E chainId block s T = .ok s')
    (hlater : Later E chainId s'.accountMap t.accountMap) :
    ∃ e, validateTransaction E t.accountMap chainId block'.blockHeader t.totalGasUsedInBlock T =
        .error e ∧ processBlock.transact E chainId block' t T = .error e := by
  obtain ⟨hT⟩ := transact_spec E chainId block s T s' h
  cases hvalid : validateTransaction E t.accountMap chainId block'.blockHeader
      t.totalGasUsedInBlock T with
  | error e =>
    refine ⟨e, rfl, ?_⟩
    rw [processBlock.transact, hvalid]
    rfl
  | ok S_T =>
    have hadmitted := validateTransaction_spec _ _ _ _ _ _ S_T hvalid
    -- the sender depends on the transaction alone
    obtain rfl : S_T = hT.S_T := Except.ok.inj (hadmitted.recovered.symm.trans hT.admitted.recovered)
    have hup := hT.nonce_le hT.S_T
    rw [if_pos rfl, hT.nonce_eq] at hup
    have hnow : t.accountMap.nonce hT.S_T = T.nonce.val := by
      rw [hadmitted.sender.nonce]
      rfl
    have hsince := hlater.nonce_le hT.S_T
    omega

/-- The payment is executed, and not again after a withdrawal. -/
theorem no_transaction_is_replayed_payment :
    ∃ s, processBlock.transact (sealedBy 0xfeed) 1 paymentBlock beforePayment payment = .ok s ∧
      ∃ e, validateTransaction (sealedBy 0xfeed) (applyWithdrawal s.accountMap ⟨0xfeed, 3⟩) 1
          paymentBlock.blockHeader s.totalGasUsedInBlock payment = .error e ∧
        processBlock.transact (sealedBy 0xfeed) 1 paymentBlock
          { s with accountMap := applyWithdrawal s.accountMap ⟨0xfeed, 3⟩ } payment = .error e := by
  have hok : (processBlock.transact (sealedBy 0xfeed) 1 paymentBlock beforePayment payment).isOk =
      true := by
    decide +kernel
  obtain ⟨s, hs⟩ := Except.exists_eq_ok_of_isOk hok
  have hlater : Later (sealedBy 0xfeed) 1 s.accountMap (applyWithdrawal s.accountMap ⟨0xfeed, 3⟩) :=
    .single (.withdrawal _ _)
  exact ⟨s, hs, no_transaction_is_replayed
    (t := { s with accountMap := applyWithdrawal s.accountMap ⟨0xfeed, 3⟩ }) hs hlater⟩

/-! ## Code -/

theorem deployed_balance (ac : Account) (v : UInt256) :
    ({ ac with balance := v } : Account).deployed = ac.deployed := rfl

theorem codeAt_applyWithdrawal (σ : AccountMap) (w : Withdrawal) :
    (applyWithdrawal σ w).codeAt = σ.codeAt := by
  unfold applyWithdrawal
  split
  · rfl
  · split
    next hw => rw [AccountMap.codeAt_insert_fresh hw]
    next ac hw =>
      refine AccountMap.codeAt_insert ?_
      rw [deployed_balance, AccountMap.codeAt_of_some hw]

theorem Transacted.codeAt {block : DeserializedBlock} {T : SignedTransaction} {s s' : BlockState}
    (h : Transacted E chainId block s T s') {C : AccountAddress} {c : ByteArray}
    (hC : s.accountMap.codeAt C = some c) : s'.accountMap.codeAt C = some c := by
  have hkept := EVM.Υ_codeAt E _ hC _ h.executed
  rw [h.accountMap]
  exact hkept

/-- No event takes code back. -/
theorem Event.codeAt (h : Event E chainId σ σ') {C : AccountAddress} {c : ByteArray}
    (hC : σ.codeAt C = some c) : σ'.codeAt C = some c := by
  cases h with
  | @beacon s₀ s block h =>
    rcases callBeacon_spec E s₀ block s h with rfl | ⟨fuel, roots, r, hr, rfl⟩
    · exact hC
    · obtain ⟨acc, hacc, hcode, hne⟩ := AccountMap.codeAt_eq_some_iff.1 hC
      have hint : (beaconCall s₀ block roots).world.Intact C c :=
        ⟨⟨acc, hacc, hcode⟩, Std.TreeSet.not_mem_emptyc, Std.TreeSet.not_mem_emptyc⟩
      have hsurvives := EVM.survives (E := E) (i := .Θ fuel (beaconCall s₀ block roots)) hne hint
      obtain ⟨acc', hacc', hcode'⟩ := (hsurvives.returned r.world ⟨r, hr, rfl⟩).code
      exact AccountMap.codeAt_eq_some_iff.2 ⟨acc', hacc', hcode', hne⟩
  | @transaction s s' block T h =>
    obtain ⟨hT⟩ := transact_spec E chainId _ _ _ _ h
    exact hT.codeAt hC
  | withdrawal _ w =>
    rw [codeAt_applyWithdrawal]
    exact hC

theorem Later.codeAt (h : Later E chainId σ σ') {C : AccountAddress} {c : ByteArray}
    (hC : σ.codeAt C = some c) : σ'.codeAt C = some c :=
  h.keeps (P := fun σ => σ.codeAt C = some c) (fun hstep hσ => hstep.codeAt hσ) hC

/-! ## The tree of blocks -/

/-- What is known of a block that has been checked against its parent and its
execution. -/
structure BlockChecked (E : Externals) (R : Roots) (state : BlockState)
    (parentHeader : BlockHeader) (block : DeserializedBlock) : Prop where
  blobGas : countBlobGas block.transactions = .ok block.blockHeader.blobGasUsed.toNat
  gasUsed : state.totalGasUsedInBlock = block.blockHeader.gasUsed
  timestamp : parentHeader.timestamp < block.blockHeader.timestamp
  number : block.blockHeader.number = parentHeader.number + 1
  extraData : block.blockHeader.extraData.size ≤ 32
  gasLimit : block.blockHeader.gasLimit ≤ 0x7fffffffffffffff
  difficulty : block.blockHeader.difficulty = 0
  ommersHash : block.blockHeader.ommersHash.val =
    0x1dcc4de8dec75d7aab85b567b6ccd41ad312451b948a7413f0a142fd40d49347
  blobLimit : block.blockHeader.blobGasUsed.toNat ≤ MAX_BLOB_GAS_PER_BLOCK
  withdrawalsRoot : block.withdrawalsTrieRoot = block.blockHeader.withdrawalsRoot
  stateRoot : block.blockHeader.stateRoot = .ofNat (match R.stateTrieRoot state.accountMap with
    | none => 0
    | some root => fromByteArrayBigEndian root)
  logsBloom : block.blockHeader.logsBloom = bloomFilter E (Substate.joinLogs state.substate)
  transactionsRoot : block.transactionsTrieRoot = block.blockHeader.transRoot
  receiptsRoot : R.receiptsTrieRoot
    (state.transactionReceipts.map TransactionReceipt.toTrieValue) =
      some block.blockHeader.receiptRoot

theorem validateBlock_spec (E : Externals) (R : Roots) (state : BlockState)
    (parentHeader : BlockHeader) (block : DeserializedBlock) :
    Ensures (validateBlock E R state parentHeader block) fun _ =>
      BlockChecked E R state parentHeader block := by
  unfold validateBlock
  refine Ensures.bind_any fun blobGasUsed hblob => ?_
  refine Ensures.check fun hgas => Ensures.check fun htime => Ensures.check fun hnumber =>
    Ensures.check fun hextra => Ensures.check fun hlimit => Ensures.check fun hdifficulty =>
    Ensures.check fun hommers => Ensures.check fun hblobGas => Ensures.check fun hblobLimit =>
    Ensures.check fun hwithdrawals => Ensures.check fun hstate => Ensures.check fun hbloom =>
    Ensures.check fun htransactions => (throwIf_spec _ _).mono fun _ hreceipts => ?_
  obtain rfl := not_not.1 hblobGas
  exact ⟨hblob, not_not.1 hgas, not_le.1 htime, not_not.1 hnumber, not_lt.1 hextra,
    not_lt.1 hlimit, not_not.1 hdifficulty, (not_not.1 hommers).symm, not_lt.1 hblobLimit,
    not_not.1 hwithdrawals, not_not.1 hstate, not_not.1 hbloom, not_not.1 htransactions,
    not_not.1 hreceipts⟩

/-- `Follows genesis processed parent block child`: the header of `block` refers to
`parent` and passes the checks against it; executing `block` on the world of
`parent`, in view of blocks that have been processed by then, comes to what the
header says; and `child` is what is kept of it. -/
inductive Follows (E : Externals) (R : Roots) (chainId : ℕ) (genesis : ProcessedBlock)
    (processed : Array ProcessedBlock) (parent : ProcessedBlock) (block : DeserializedBlock) :
    ProcessedBlock → Prop
  | intro {s₀ s : BlockState} (hworld : s₀.accountMap = parent.σ)
      (hgenesis : s₀.genesisBlockHeader = genesis.blockHeader)
      (hseen : s₀.blocks.toList <+: processed.toList)
      (hheader : HeaderChecked s₀.blocks block.blockHeader parent)
      (hexecuted : processBlock E chainId s₀ block = .ok s)
      (hchecked : BlockChecked E R s parent.blockHeader block) :
      Follows E R chainId genesis processed parent block
        ⟨⟨block.hash⟩, block.blockHeader, s.accountMap⟩

/-- The blocks that go back to the genesis block. -/
inductive Descends (E : Externals) (R : Roots) (chainId : ℕ) (genesis : ProcessedBlock)
    (processed : Array ProcessedBlock) : ProcessedBlock → Prop
  | genesis : Descends E R chainId genesis processed genesis
  | follows {parent child : ProcessedBlock} {block : DeserializedBlock}
      (h : Descends E R chainId genesis processed parent)
      (h' : Follows E R chainId genesis processed parent block child) :
      Descends E R chainId genesis processed child

section

variable {R : Roots} {parent child genesis b : ProcessedBlock} {block : DeserializedBlock}
  {processed processed' : Array ProcessedBlock}

/-- More blocks that are processed change nothing. -/
theorem Follows.mono (h : Follows E R chainId genesis processed parent block child)
    (hle : processed.toList <+: processed'.toList) :
    Follows E R chainId genesis processed' parent block child := by
  cases h with
  | intro hworld hgenesis hseen hheader hexecuted hchecked =>
    exact .intro hworld hgenesis (hseen.trans hle) hheader hexecuted hchecked

theorem Descends.mono (h : Descends E R chainId genesis processed b)
    (hle : processed.toList <+: processed'.toList) :
    Descends E R chainId genesis processed' b := by
  induction h with
  | genesis => exact .genesis
  | follows _ h' ih => exact .follows ih (h'.mono hle)

theorem Follows.baseFee (h : Follows E R chainId genesis processed parent block child) :
    child.blockHeader.baseFeePerGas = expectedBaseFeePerGas parent.blockHeader := by
  cases h with
  | intro _ _ _ hheader => exact hheader.baseFee

theorem Follows.number (h : Follows E R chainId genesis processed parent block child) :
    child.blockHeader.number = parent.blockHeader.number + 1 := by
  cases h with
  | intro _ _ _ _ _ hchecked => exact hchecked.number

/-- A block says what gas it has used, and stays within its limit. -/
theorem Follows.gasUsed_le (h : Follows E R chainId genesis processed parent block child) :
    child.blockHeader.gasUsed ≤ child.blockHeader.gasLimit := by
  cases h with
  | intro _ _ _ _ hexecuted hchecked =>
    obtain ⟨used, hmetered⟩ := processBlock_metered E chainId _ block _ hexecuted
    exact hchecked.gasUsed.symm.trans_le hmetered.within

/-- The world of a block comes later than that of its parent. -/
theorem Follows.later (h : Follows E R chainId genesis processed parent block child) :
    Later E chainId parent.σ child.σ := by
  cases h with
  | intro hworld _ _ _ hexecuted =>
    rw [← hworld]
    exact processBlock_later E chainId _ block _ hexecuted

theorem Descends.later (h : Descends E R chainId genesis processed b) :
    Later E chainId genesis.σ b.σ := by
  induction h with
  | genesis => exact .refl
  | follows _ h' ih => exact ih.trans h'.later

end

/-- A block that is accepted follows one that has been processed. -/
theorem accept_spec (E : Externals) (R : Roots) (chainId : ℕ) {genesis : ProcessedBlock}
    {accState : BlockState} (hgenesis : accState.genesisBlockHeader = genesis.blockHeader)
    (rawBlock : RawBlock) : Ensures (processBlocks.accept E R chainId accState rawBlock) fun s =>
      s.genesisBlockHeader = genesis.blockHeader ∧
        ∃ parent ∈ accState.blocks, ∃ block, rawBlock.block = .ok block ∧ ∃ child,
          Follows E R chainId genesis accState.blocks parent block child ∧
            s.blocks = accState.blocks.push child := by
  unfold processBlocks.accept
  refine Ensures.bind_any fun block hblock => ?_
  refine Ensures.bind (validateHeaderBeforeTransactions_spec _ _) fun parent hparent => ?_
  refine Ensures.bind_any fun s hs => ?_
  refine Ensures.bind (validateBlock_spec E R s parent.blockHeader block) fun _ hchecked => ?_
  refine Ensures.check fun _ => Ensures.ok_iff.2 ?_
  obtain ⟨hblocks, hheader⟩ := processBlock_frame _ _ _ _ s hs
  refine ⟨hheader.trans hgenesis, parent, hparent.mem, block, hblock, _,
    .intro ?_ ?_ ?_ ?_ hs hchecked, ?_⟩
  · rfl
  · exact hgenesis
  · exact List.prefix_rfl
  · exact hparent
  · show s.blocks.push _ = _
    rw [hblocks]

/-- The blocks that have been processed form a tree with the genesis block for its
root, and each of the others is one of `blocks`, on top of its parent. -/
structure Tree (E : Externals) (R : Roots) (chainId : ℕ) (genesis : ProcessedBlock)
    (blocks : List RawBlock) (processed : Array ProcessedBlock) : Prop where
  root : genesis ∈ processed
  descends : ∀ b ∈ processed, Descends E R chainId genesis processed b
  follows : ∀ b ∈ processed, b = genesis ∨ ∃ p ∈ processed, ∃ rawBlock ∈ blocks, ∃ block,
    rawBlock.block = .ok block ∧ Follows E R chainId genesis processed p block b

theorem Tree.push {R : Roots} {genesis parent child : ProcessedBlock} {blocks : List RawBlock}
    {processed : Array ProcessedBlock} {rawBlock : RawBlock} {block : DeserializedBlock}
    (h : Tree E R chainId genesis blocks processed) (hparent : parent ∈ processed)
    (hraw : rawBlock ∈ blocks) (hblock : rawBlock.block = .ok block)
    (hfollows : Follows E R chainId genesis processed parent block child) :
    Tree E R chainId genesis blocks (processed.push child) := by
  have hle : processed.toList <+: (processed.push child).toList := by
    rw [Array.toList_push]
    exact List.prefix_append _ _
  constructor
  case root => exact Array.mem_push_of_mem child h.root
  case descends =>
    intro b hb
    rcases Array.mem_push.1 hb with hb | rfl
    · exact (h.descends b hb).mono hle
    · exact .follows ((h.descends parent hparent).mono hle) (hfollows.mono hle)
  case follows =>
    intro b hb
    rcases Array.mem_push.1 hb with hb | rfl
    · refine (h.follows b hb).imp_right ?_
      rintro ⟨p, hp, rawBlock, hraw, block, hblock, hfollows⟩
      exact ⟨p, Array.mem_push_of_mem child hp, rawBlock, hraw, block, hblock, hfollows.mono hle⟩
    · exact .inr ⟨parent, Array.mem_push_of_mem _ hparent, rawBlock, hraw, block, hblock,
        hfollows.mono hle⟩

theorem processBlocks_tree (E : Externals) (R : Roots) (chainId : ℕ) (genesis : ProcessedBlock)
    (blocks : List RawBlock) : Ensures (processBlocks E R chainId genesis blocks) fun s =>
      s.genesisBlockHeader = genesis.blockHeader ∧ Tree E R chainId genesis blocks s.blocks := by
  unfold processBlocks
  refine Ensures.foldlM (P := fun _ (s : BlockState) =>
    s.genesisBlockHeader = genesis.blockHeader ∧ Tree E R chainId genesis blocks s.blocks) ?_ ?_
  · rintro done rawBlock rest accState hlist ⟨hgenesis, htree⟩
    have hraw : rawBlock ∈ blocks := by simp [hlist]
    unfold processBlocks.next
    split
    next s hs =>
      obtain ⟨hgenesis', parent, hparent, block, hblock, child, hfollows, hblocks⟩ :=
        accept_spec E R chainId hgenesis _ s hs
      rw [Ensures.ok_iff, hblocks]
      exact ⟨hgenesis', htree.push hparent hraw hblock hfollows⟩
    · exact Ensures.error
    · exact Ensures.ite (fun _ => Ensures.ok_iff.2 ⟨hgenesis, htree⟩) fun _ => Ensures.error
  · have hsingle : ∀ b, b ∈ #[genesis] → b = genesis := fun b hb => by simpa using hb
    refine ⟨rfl, ?_⟩
    constructor
    case root => simp
    case descends =>
      intro b hb
      rw [hsingle b hb]
      exact .genesis
    case follows => exact fun b hb => .inl (hsingle b hb)

/-- **Every block that is processed descends from the genesis block.**  In the
run over any list of blocks, whichever of them are passed over as expected
failures, each block that has been processed, the genesis block apart, is one of
the list on top of another one that has been processed: its header passes all
the checks against the header of its parent, its world is what comes of executing
it on the world of its parent, in view of blocks that have been processed only,
this is what its header says, and it is within its gas limit. -/
theorem every_block_descends (E : Externals) (R : Roots) (chainId : ℕ) (genesis : ProcessedBlock)
    (blocks : List RawBlock) : Ensures (processBlocks E R chainId genesis blocks) fun s =>
      ∀ b ∈ s.blocks, Descends E R chainId genesis s.blocks b ∧
        (b = genesis ∨ ∃ p ∈ s.blocks, ∃ rawBlock ∈ blocks, ∃ block,
          rawBlock.block = .ok block ∧ Follows E R chainId genesis s.blocks p block b ∧
            b.blockHeader.gasUsed ≤ b.blockHeader.gasLimit) := by
  refine (processBlocks_tree E R chainId genesis blocks).mono fun s ⟨_, h⟩ b hb => ?_
  refine ⟨h.descends b hb, (h.follows b hb).imp_right ?_⟩
  rintro ⟨p, hp, rawBlock, hraw, block, hblock, hfollows⟩
  exact ⟨p, hp, rawBlock, hraw, block, hblock, hfollows, hfollows.gasUsed_le⟩

/-- A world with one contract, in which `0xfeed` can pay. -/
def genesis : ProcessedBlock where
  hash := 1
  blockHeader := { (default : BlockHeader) with gasLimit := 30000, baseFeePerGas := 7 }
  σ :=
    ((∅ : AccountMap).insert 0xc0de { (default : Account) with code := EVM.selfdestructing }).insert
      0xfeed { (default : Account) with balance := .ofNat 1000000 }

/-- The roots are not computed. -/
def noRoots : Roots where
  stateTrieRoot _ := none
  receiptsTrieRoot _ := some .empty

/-- The block with the payment and a withdrawal, on top of the genesis block. -/
def firstBlock : RawBlock where
  block := .ok
    { paymentBlock with
      blockHeader :=
        { paymentBlock.blockHeader with
          parentHash := 1
          number := 1
          timestamp := 1
          gasUsed := 21000
          ommersHash :=
            .ofNat 0x1dcc4de8dec75d7aab85b567b6ccd41ad312451b948a7413f0a142fd40d49347
          logsBloom := zeroes 256 } }
  exception := []

/-- It is processed, and the nonce of `0xfeed` is counted up. -/
theorem firstBlock_processed :
    Returns (processBlocks (sealedBy 0xfeed) noRoots 1 genesis [firstBlock]) fun s =>
      s.blocks.toList.map (fun b => b.σ.nonce 0xfeed) = [0, 1] :=
  .of_toOption_map (by decide +kernel)

/-- One of the two blocks is on top of the other. -/
theorem every_block_descends_firstBlock :
    ∃ s, processBlocks (sealedBy 0xfeed) noRoots 1 genesis [firstBlock] = .ok s ∧
      s.blocks.toList.map (fun b => b.σ.nonce 0xfeed) = [0, 1] ∧
      ∀ b ∈ s.blocks, b = genesis ∨ ∃ p ∈ s.blocks, ∃ rawBlock ∈ [firstBlock], ∃ block,
        rawBlock.block = .ok block ∧ Follows (sealedBy 0xfeed) noRoots 1 genesis s.blocks p block b ∧
          b.blockHeader.gasUsed ≤ b.blockHeader.gasLimit := by
  obtain ⟨s, hs, hnonces⟩ := firstBlock_processed
  exact ⟨s, hs, hnonces, fun b hb => (every_block_descends _ _ 1 _ _ s hs b hb).2⟩

/-- **Deployed code outlives every block.**  A contract of the genesis world
keeps its code in the world after every block that is processed, whichever
blocks come; and no account of the genesis world loses a nonce. -/
theorem deployed_code_outlives_every_block (E : Externals) (R : Roots) (chainId : ℕ)
    (genesis : ProcessedBlock) (blocks : List RawBlock) :
    Ensures (processBlocks E R chainId genesis blocks) fun s => ∀ b ∈ s.blocks,
      (∀ C c, genesis.σ.codeAt C = some c → b.σ.codeAt C = some c) ∧
        ∀ a, genesis.σ.nonce a ≤ b.σ.nonce a := by
  refine (processBlocks_tree E R chainId genesis blocks).mono fun s ⟨_, hs⟩ b hb => ?_
  have hlater := (hs.descends b hb).later
  exact ⟨fun _ _ hC => hlater.codeAt hC, hlater.nonce_le⟩

/-- The contract is still there, and the nonce of `0xfeed` is at least what it was. -/
theorem deployed_code_outlives_every_block_firstBlock :
    ∃ s, processBlocks (sealedBy 0xfeed) noRoots 1 genesis [firstBlock] = .ok s ∧
      s.blocks.toList.map (fun b => b.σ.nonce 0xfeed) = [0, 1] ∧
      ∀ b ∈ s.blocks, b.σ.codeAt 0xc0de = some EVM.selfdestructing ∧
        ∀ a, genesis.σ.nonce a ≤ b.σ.nonce a := by
  obtain ⟨s, hs, hnonces⟩ := firstBlock_processed
  have hC : genesis.σ.codeAt 0xc0de = some EVM.selfdestructing := by decide +kernel
  refine ⟨s, hs, hnonces, fun b hb => ?_⟩
  obtain ⟨hcode, hnonce⟩ := deployed_code_outlives_every_block _ _ 1 _ _ s hs b hb
  exact ⟨hcode _ _ hC, hnonce⟩

end Conform
end EvmYul
