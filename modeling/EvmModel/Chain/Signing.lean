import EvmModel.Chain.Treasury
import EvmModel.Preimages

/-!
# What a signature covers

The sender of a transaction is recovered from its signature and from the hash of
its payload.  The payload says everything there is to say about the transaction
besides the signature: two transactions with one payload are one transaction, of
one type, for one chain.

* `SignedTransaction.payload`, `SignedTransaction.signed` — the bytes that are
  signed, and what they stand for;
* `recoverSender_payload` — the sender depends on the payload and the signature
  only;
* `payload_says_everything` — the payload determines what is signed.
-/

namespace EvmYul
namespace Conform
namespace SignedTransaction

/-! ## The payload -/

/-- The bytes that are hashed and signed. -/
def payload (T : SignedTransaction) (chainId : ℕ) : Option ByteArray :=
  (T.L_X chainId).toOption.bind fun tree => (RLP tree).map fun T_RLP =>
    match T.T with
    | .legacy _ => T_RLP
    | _ => ⟨#[T.T.type]⟩ ++ T_RLP

/-- What a signature is a signature of. -/
structure Signed where
  T : Transaction
  nonce : UInt256
  /-- The chain; a transaction of the first type may be for every chain. -/
  chainId : Option ℕ
  maxFeePerBlobGas : Option UInt256

def signed (T : SignedTransaction) (chainId : ℕ) : Signed where
  T := T.T
  nonce := T.nonce
  chainId :=
    match T.T with
    | .legacy _ => if T.w.val ∈ [27, 28] then none else some chainId
    | _ => some T.chainId.val
  maxFeePerBlobGas :=
    match T.T with
    | .blob _ => some T.maxFeePerBlobGas
    | _ => none

/-- The sender is recovered from the hash of the payload and the signature. -/
theorem recoverSender_payload (E : Externals) (T : SignedTransaction) (chainId : ℕ) :
    Ensures (T.recoverSender E chainId) fun S_T => ∃ p k, T.payload chainId = some p ∧
      E.ECDSARECOVER (E.KEC p) ⟨#[.ofNat (T.v chainId)]⟩ T.r T.s = .ok k ∧
      S_T = Fin.ofNat _ (fromByteArrayBigEndian ((E.KEC k).extract 12 32)) := by
  unfold recoverSender
  refine Ensures.bind_any fun tree htree => ?_
  cases hb : RLP tree with
  | none => exact Ensures.error
  | some T_RLP =>
    refine Ensures.check fun _ => Ensures.check fun _ => Ensures.check fun _ => ?_
    have hp : T.payload chainId = some (match T.T with
        | .legacy _ => T_RLP
        | _ => ⟨#[T.T.type]⟩ ++ T_RLP) := by
      rw [payload, htree]
      simp only [Except.toOption, Option.bind_some, hb, Option.map_some]
    dsimp only
    split
    next k hk =>
      refine Ensures.ok_iff.2 ⟨_, k, hp, ?_, rfl⟩
      rw [← hk]
      cases T.T <;> rfl
    · exact Ensures.error

/-! ## The fields of the payload -/

theorem recipientBytes_inj {T T' : SignedTransaction} (h : T.recipientBytes = T'.recipientBytes) :
    T.T.base.recipient = T'.T.base.recipient := by
  unfold recipientBytes at h
  cases hT : T.T.base.recipient with
  | none =>
    cases hT' : T'.T.base.recipient with
    | none => rfl
    | some t' =>
      have hsize := congrArg ByteArray.size h
      rw [hT, hT'] at hsize
      exact absurd (hsize.trans t'.size_toByteArray) (by decide)
  | some t =>
    cases hT' : T'.T.base.recipient with
    | none =>
      have hsize := congrArg ByteArray.size h
      rw [hT, hT'] at hsize
      exact absurd (hsize.symm.trans t.size_toByteArray) (by decide)
    | some t' =>
      rw [hT, hT'] at h
      rw [AccountAddress.toByteArray_inj h]

theorem accessEntriesRLP_inj {aEs aEs' : List (AccountAddress × Array UInt256)}
    (h : accessEntriesRLP aEs = accessEntriesRLP aEs') : aEs = aEs' := by
  have hlists := 𝕋.𝕃.inj h
  refine List.map_injective_iff.2 ?_ hlists
  rintro ⟨a, ks⟩ ⟨a', ks'⟩ hentry
  simp only [𝕋.𝕃.injEq, List.cons.injEq, 𝕋.𝔹.injEq, and_true] at hentry
  obtain ⟨ha, hks⟩ := hentry
  have hkeys : ks.toList = ks'.toList := by
    refine List.map_injective_iff.2 (fun k k' hk => ?_) hks
    exact UInt256.toByteArray_inj (𝕋.𝔹.inj hk)
  rw [AccountAddress.toByteArray_inj ha, Array.toList_inj.1 hkeys]

/-- What is encoded is a list. -/
theorem L_X_list (T : SignedTransaction) (chainId : ℕ) :
    Ensures (T.L_X chainId) fun tree => ∃ l, tree = .𝕃 l := by
  unfold L_X
  split
  · refine Ensures.ite (fun _ => Ensures.ok_iff.2 ⟨_, rfl⟩) fun _ => ?_
    exact Ensures.ite (fun _ => Ensures.ok_iff.2 ⟨_, rfl⟩) fun _ => Ensures.error
  all_goals exact Ensures.ok_iff.2 ⟨_, rfl⟩

/-- A payload is the encoding of a list, after the type of the transaction. -/
theorem payload_eq_some {T : SignedTransaction} {chainId : ℕ} {p : ByteArray}
    (h : T.payload chainId = some p) : ∃ l b, T.L_X chainId = .ok (.𝕃 l) ∧ RLP (.𝕃 l) = some b ∧
      p = if T.T.type = 0 then b else ⟨#[T.T.type]⟩ ++ b := by
  unfold payload at h
  obtain ⟨tree, htree, h⟩ := Option.bind_eq_some_iff.1 h
  obtain ⟨b, hb, rfl⟩ := Option.map_eq_some_iff.1 h
  have hok : T.L_X chainId = .ok tree := by
    cases hL : T.L_X chainId with
    | error e => rw [hL] at htree; cases htree
    | ok t => rw [hL] at htree; cases htree; rfl
  obtain ⟨l, rfl⟩ := L_X_list T chainId tree hok
  refine ⟨l, b, hok, hb, ?_⟩
  cases T.T <;> rfl

/-- The first byte of a payload is the type, or the first byte of a list. -/
theorem head_payload {T : SignedTransaction} {b : ByteArray} {l : List 𝕋}
    (hb : RLP (.𝕃 l) = some b) :
    if T.T.type = 0 then 192 ≤ ((if T.T.type = 0 then b else ⟨#[T.T.type]⟩ ++ b).get! 0).toNat
    else (if T.T.type = 0 then b else ⟨#[T.T.type]⟩ ++ b).get! 0 = T.T.type := by
  split
  · exact head_RLP_list hb
  · exact get!_append_zero (a := ⟨#[T.T.type]⟩) Nat.one_ne_zero b

theorem type_lt (t : Transaction) : t.type.toNat < 4 := by
  cases t <;> simp [Transaction.type]

/-- The type of a transaction can be read off the payload. -/
theorem type_of_payload {T T' : SignedTransaction} {chainId chainId' : ℕ} {p : ByteArray}
    (h : T.payload chainId = some p) (h' : T'.payload chainId' = some p) :
    T.T.type = T'.T.type ∧ ∃ l, T.L_X chainId = .ok (.𝕃 l) ∧ T'.L_X chainId' = .ok (.𝕃 l) := by
  obtain ⟨l, b, hl, hb, hp⟩ := payload_eq_some h
  obtain ⟨l', b', hl', hb', hp'⟩ := payload_eq_some h'
  have hhead := head_payload (T := T) hb
  have hhead' := head_payload (T := T') hb'
  rw [← hp] at hhead
  rw [← hp'] at hhead'
  have hlt := type_lt T.T
  have hlt' := type_lt T'.T
  have htype : T.T.type = T'.T.type := by
    by_cases hT : T.T.type = 0
    · rw [if_pos hT] at hhead
      by_cases hT' : T'.T.type = 0
      · rw [hT, hT']
      · rw [if_neg hT'] at hhead'
        rw [hhead'] at hhead
        omega
    · rw [if_neg hT] at hhead
      by_cases hT' : T'.T.type = 0
      · rw [if_pos hT', hhead] at hhead'
        omega
      · rw [if_neg hT'] at hhead'
        rw [← hhead, hhead']
  refine ⟨htype, l, hl, ?_⟩
  have hbytes : b = b' := by
    rw [hp, htype] at hp'
    split at hp'
    · exact hp'
    · exact (ByteArray.append_right_inj _).1 hp'
  subst hbytes
  rw [hl', RLP_inj hb hb']

theorem base_inj {T T' : SignedTransaction}
    (hgas : BE T.T.base.gasLimit.val = BE T'.T.base.gasLimit.val)
    (hrecipient : T.recipientBytes = T'.recipientBytes)
    (hvalue : BE T.T.base.value.val = BE T'.T.base.value.val)
    (hdata : T.T.base.data = T'.T.base.data) : T.T.base = T'.T.base := by
  have hto := recipientBytes_inj hrecipient
  generalize T.T.base = t at *
  generalize T'.T.base = t' at *
  obtain ⟨gas, dest, value, data⟩ := t
  obtain ⟨gas', dest', value', data'⟩ := t'
  cases BE_val_inj hgas
  cases hto
  cases BE_val_inj hvalue
  cases hdata
  rfl

/-- A transaction of the first type is protected by the chain it is for, or it
is for every chain. -/
theorem L_X_legacy {T : SignedTransaction} {t : LegacyTransaction} {chainId : ℕ} {l : List 𝕋}
    (hT : T.T = .legacy t) (h : T.L_X chainId = .ok (.𝕃 l)) :
    l = [.𝔹 (BE T.nonce.val), .𝔹 (BE t.gasPrice.val), .𝔹 (BE t.gasLimit.val), .𝔹 T.recipientBytes,
        .𝔹 (BE t.value.val), .𝔹 t.data] ++
      match (T.signed chainId).chainId with
      | none => []
      | some c => [.𝔹 (BE c), .𝔹 .empty, .𝔹 .empty] := by
  unfold L_X at h
  unfold signed
  rw [hT] at h
  rw [hT]
  dsimp only at h ⊢
  split at h
  next hw =>
    cases h
    rw [if_pos hw]
    rfl
  next hw =>
    split at h
    · cases h
      rw [if_neg hw]
      rfl
    · cases h

/-! ## One lemma for each type -/

section

variable {T T' : SignedTransaction} {chainId chainId' : ℕ} {l : List 𝕋}

theorem signed_eq_of_legacy {t t' : LegacyTransaction} (hT : T.T = .legacy t)
    (hT' : T'.T = .legacy t') (hl : T.L_X chainId = .ok (.𝕃 l))
    (hl' : T'.L_X chainId' = .ok (.𝕃 l)) : T.signed chainId = T'.signed chainId' := by
  have hfields := (L_X_legacy hT hl).symm.trans (L_X_legacy hT' hl')
  simp only [List.cons_append, List.nil_append, List.cons.injEq, 𝕋.𝔹.injEq] at hfields
  obtain ⟨hnonce, hprice, hgas, hto, hvalue, hdata, hchain⟩ := hfields
  have hchainId : (T.signed chainId).chainId = (T'.signed chainId').chainId := by
    split at hchain
    next h1 =>
      split at hchain
      next h2 => rw [h1, h2]
      · cases hchain
    next c h1 =>
      split at hchain
      · cases hchain
      next c' h2 =>
        simp only [List.cons.injEq, 𝕋.𝔹.injEq, and_true] at hchain
        rw [h1, h2, BE_inj hchain]
  have hbase := @base_inj T T'
  obtain ⟨_, nonce, r, s, w, cid, blobFee⟩ := T
  obtain ⟨_, nonce', r', s', w', cid', blobFee'⟩ := T'
  cases hT
  cases hT'
  have hsame := hbase hgas hto hvalue hdata
  obtain ⟨base, ⟨price⟩⟩ := t
  obtain ⟨base', ⟨price'⟩⟩ := t'
  cases hsame
  cases BE_val_inj hnonce
  cases BE_val_inj hprice
  simp only [signed, Signed.mk.injEq, true_and, and_true]
  exact hchainId

theorem signed_eq_of_access {t t' : AccessListTransaction} (hT : T.T = .access t)
    (hT' : T'.T = .access t') (hl : T.L_X chainId = .ok (.𝕃 l))
    (hl' : T'.L_X chainId' = .ok (.𝕃 l)) : T.signed chainId = T'.signed chainId' := by
  have hbase := @base_inj T T'
  obtain ⟨_, nonce, r, s, w, cid, blobFee⟩ := T
  obtain ⟨_, nonce', r', s', w', cid', blobFee'⟩ := T'
  cases hT
  cases hT'
  have hfields := 𝕋.𝕃.inj ((Except.ok.inj hl).trans (Except.ok.inj hl').symm)
  simp only [List.cons.injEq, 𝕋.𝔹.injEq, and_true] at hfields
  obtain ⟨hcid, hnonce, hprice, hgas, hto, hvalue, hdata, haccess⟩ := hfields
  have hsame := hbase hgas hto hvalue hdata
  obtain ⟨base, ⟨aEs⟩, ⟨price⟩⟩ := t
  obtain ⟨base', ⟨aEs'⟩, ⟨price'⟩⟩ := t'
  cases hsame
  cases BE_val_inj hcid
  cases BE_val_inj hnonce
  cases BE_val_inj hprice
  cases accessEntriesRLP_inj haccess
  rfl

theorem signed_eq_of_dynamic {t t' : DynamicFeeTransaction} (hT : T.T = .dynamic t)
    (hT' : T'.T = .dynamic t') (hl : T.L_X chainId = .ok (.𝕃 l))
    (hl' : T'.L_X chainId' = .ok (.𝕃 l)) : T.signed chainId = T'.signed chainId' := by
  have hbase := @base_inj T T'
  obtain ⟨_, nonce, r, s, w, cid, blobFee⟩ := T
  obtain ⟨_, nonce', r', s', w', cid', blobFee'⟩ := T'
  cases hT
  cases hT'
  have hfields := 𝕋.𝕃.inj ((Except.ok.inj hl).trans (Except.ok.inj hl').symm)
  simp only [List.cons.injEq, 𝕋.𝔹.injEq, and_true] at hfields
  obtain ⟨hcid, hnonce, hpriority, hfee, hgas, hto, hvalue, hdata, haccess⟩ := hfields
  have hsame := hbase hgas hto hvalue hdata
  obtain ⟨base, ⟨aEs⟩, fee, priority⟩ := t
  obtain ⟨base', ⟨aEs'⟩, fee', priority'⟩ := t'
  cases hsame
  cases BE_val_inj hcid
  cases BE_val_inj hnonce
  cases BE_val_inj hpriority
  cases BE_val_inj hfee
  cases accessEntriesRLP_inj haccess
  rfl

theorem signed_eq_of_blob {t t' : BlobTransaction} (hT : T.T = .blob t)
    (hT' : T'.T = .blob t') (hl : T.L_X chainId = .ok (.𝕃 l))
    (hl' : T'.L_X chainId' = .ok (.𝕃 l)) : T.signed chainId = T'.signed chainId' := by
  have hbase := @base_inj T T'
  obtain ⟨_, nonce, r, s, w, cid, blobFee⟩ := T
  obtain ⟨_, nonce', r', s', w', cid', blobFee'⟩ := T'
  cases hT
  cases hT'
  have hfields := 𝕋.𝕃.inj ((Except.ok.inj hl).trans (Except.ok.inj hl').symm)
  simp only [List.cons.injEq, 𝕋.𝔹.injEq, 𝕋.𝕃.injEq, and_true] at hfields
  obtain ⟨hcid, hnonce, hpriority, hfee, hgas, hto, hvalue, hdata, haccess, hblobFee, hblobs⟩ :=
    hfields
  have hsame := hbase hgas hto hvalue hdata
  obtain ⟨⟨base, ⟨aEs⟩, fee, priority⟩, blobs⟩ := t
  obtain ⟨⟨base', ⟨aEs'⟩, fee', priority'⟩, blobs'⟩ := t'
  cases hsame
  cases BE_val_inj hcid
  cases BE_val_inj hnonce
  cases BE_val_inj hpriority
  cases BE_val_inj hfee
  cases BE_val_inj hblobFee
  cases accessEntriesRLP_inj haccess
  cases List.map_injective_iff.2 (fun _ _ => 𝕋.𝔹.inj) hblobs
  rfl

end

/-- **The payload says everything.**  Two transactions, possibly on two chains,
with one payload agree in all that a signature is a signature of: the type, the
nonce, the gas and its prices, the recipient, the value, the data, the access
list, the blobs, and the chain the transaction is for, if it is for one. -/
theorem payload_says_everything {T T' : SignedTransaction} {chainId chainId' : ℕ} {p : ByteArray}
    (h : T.payload chainId = some p) (h' : T'.payload chainId' = some p) :
    T.signed chainId = T'.signed chainId' := by
  obtain ⟨htype, l, hl, hl'⟩ := type_of_payload h h'
  cases hT : T.T with
  | legacy t =>
    cases hT' : T'.T with
    | legacy t' => exact signed_eq_of_legacy hT hT' hl hl'
    | _ => rw [hT, hT'] at htype; cases htype
  | access t =>
    cases hT' : T'.T with
    | access t' => exact signed_eq_of_access hT hT' hl hl'
    | _ => rw [hT, hT'] at htype; cases htype
  | dynamic t =>
    cases hT' : T'.T with
    | dynamic t' => exact signed_eq_of_dynamic hT hT' hl hl'
    | _ => rw [hT, hT'] at htype; cases htype
  | blob t =>
    cases hT' : T'.T with
    | blob t' => exact signed_eq_of_blob hT hT' hl hl'
    | _ => rw [hT, hT'] at htype; cases htype

/-- The payment with another signature. -/
def forgery : SignedTransaction :=
  { payment with r := ⟨#[2]⟩, s := ⟨#[3]⟩, w := .ofNat 28 }

/-- The payment and the forgery have one payload. -/
theorem payload_says_everything_forgery :
    ∃ p, payment.payload 1 = some p ∧ forgery.payload 1 = some p ∧
      payment.signed 1 = forgery.signed 1 := by
  have hsome : (payment.payload 1).isSome = true := by decide +kernel
  have hsame : forgery.payload 1 = payment.payload 1 := by decide +kernel
  obtain ⟨p, hp⟩ := Option.isSome_iff_exists.1 hsome
  exact ⟨p, hp, hsame.trans hp, payload_says_everything hp (hsame.trans hp)⟩

end SignedTransaction
end Conform
end EvmYul
