import EvmModel.Rlp
import EvmModel.TrustedBase

/-!
# What is hashed for a new address

The bytes that `Lambda` hashes to find the address of a new contract say which
contract is meant: those of `CREATE` the creator and its nonce, those of
`CREATE2` the creator, the salt and the hash of the initialisation code, and no
`CREATE` hashes what some `CREATE2` does.
-/

namespace EvmYul

/-! ## Numbers, words and addresses as bytes -/

theorem BE_inj {m n : ℕ} (h : BE m = BE n) : m = n := by
  rw [← fromByteArrayBigEndian_BE m, h, fromByteArrayBigEndian_BE]

theorem BE_val_inj {v w : UInt256} (h : BE v.val = BE w.val) : v = w := Fin.ext (BE_inj h)

theorem AccountAddress.toByteArray_inj {a b : AccountAddress} (h : a.toByteArray = b.toByteArray) :
    a = b := by
  refine Fin.ext ?_
  rw [← fromByteArrayBigEndian_toByteArray a, h, fromByteArrayBigEndian_toByteArray]

namespace UInt256

theorem size_BE_val_le (v : UInt256) : (BE v.val).size ≤ 32 := by
  rw [size_BE]
  exact length_toBytes'_le v.isLt

/-- The bytes of a word spell it. -/
theorem fromByteArrayBigEndian_toByteArray (v : UInt256) :
    fromByteArrayBigEndian v.toByteArray = v.val := by
  have hsub : 32 - (BE v.val).size < 2 ^ 64 := by omega
  rw [fromByteArrayBigEndian, toByteArray, ByteArray.data_append, Array.toList_append,
    List.reverse_append, toList_BE, toList_zeroes hsub, List.reverse_reverse,
    List.reverse_replicate, fromBytes'_append, fromBytes'_toBytes', fromBytes'_replicate_zero,
    Nat.mul_zero, Nat.add_zero]

theorem size_toByteArray (v : UInt256) : v.toByteArray.size = 32 := by
  have hle := size_BE_val_le v
  rw [toByteArray, ByteArray.size_append, size_zeroes (by omega)]
  omega

theorem toByteArray_inj {v w : UInt256} (h : v.toByteArray = w.toByteArray) : v = w := by
  refine Fin.ext ?_
  rw [← fromByteArrayBigEndian_toByteArray v, h, fromByteArrayBigEndian_toByteArray]

end UInt256

/-! ## The first byte of an encoding -/

/-- The frame of a short string is one byte longer at most. -/
theorem size_R_b_le {x b : ByteArray} (hx : x.size < 56) (h : R_b x = some b) :
    b.size ≤ 1 + x.size := by
  have hframed := R_b_framed h
  cases hframed with
  | single => exact Nat.le_add_left _ _
  | string => rw [ByteArray.size_append, size_byte]
  | longString hle => omega

/-- Two short strings, one after the other. -/
theorem size_RLP_s_pair_le {x y s : ByteArray} (hx : x.size < 56) (hy : y.size < 56)
    (h : RLP.s [.𝔹 x, .𝔹 y] = some s) : s.size ≤ 2 + x.size + y.size := by
  simp only [RLP.s, RLP] at h
  cases hbx : R_b x with
  | none => simp [hbx] at h
  | some bx =>
    cases hby : R_b y with
    | none => simp [hby] at h
    | some b =>
      have hlex := size_R_b_le hx hbx
      have hley := size_R_b_le hy hby
      simp only [hbx, hby, ByteArray.append_empty, Option.some.injEq] at h
      rw [← h, ByteArray.size_append]
      omega

/-- The first byte of a list. -/
theorem head_RLP_list {l : List 𝕋} {b : ByteArray} (h : RLP (.𝕃 l) = some b) :
    192 ≤ (b.get! 0).toNat := by
  rw [RLP] at h
  obtain ⟨s, -, hs⟩ := Option.bind_eq_some_iff.1 h
  have hframed := R_l_framed hs
  cases hframed with
  | list hlt =>
    rw [head_byte (by omega)]
    exact Nat.le_add_right _ _
  | longList hle hlt =>
    obtain ⟨-, height, -⟩ := size_BE_long hle hlt
    rw [ByteArray.append_assoc, head_byte (by omega)]
    omega

/-- The first byte of a short list. -/
theorem head_RLP_short {l : List 𝕋} {s b : ByteArray} (hs : RLP.s l = some s) (hlt : s.size < 56)
    (h : RLP (.𝕃 l) = some b) : (b.get! 0).toNat < 248 := by
  rw [RLP, hs, Option.bind_some, R_l, if_pos hlt] at h
  cases h
  rw [head_byte (by omega)]
  omega

/-! ## The address of a new contract -/

namespace EVM
namespace Lambda

variable {E : Externals} {s s' : AccountAddress} {n n' : UInt256} {i i' p : ByteArray}

/-- What `CREATE` hashes is a short list. -/
theorem L_A_create (h : L_A E s n none i = some p) :
    RLP (.𝕃 [.𝔹 s.toByteArray, .𝔹 (BE n.val)]) = some p ∧ (p.get! 0).toNat < 248 := by
  have hp : RLP (.𝕃 [.𝔹 s.toByteArray, .𝔹 (BE n.val)]) = some p := h
  have hbind := hp
  rw [RLP] at hbind
  obtain ⟨items, hitems, -⟩ := Option.bind_eq_some_iff.1 hbind
  have hs := s.size_toByteArray
  have hn := n.size_BE_val_le
  have hle := size_RLP_s_pair_le (by omega) (by omega) hitems
  exact ⟨hp, head_RLP_short hitems (by omega) hp⟩

/-- What `CREATE2` hashes starts with `0xff`. -/
theorem L_A_create2 {ζ : ByteArray} (h : L_A E s n (some ζ) i = some p) :
    p = byte 255 ++ (s.toByteArray ++ (ζ ++ E.KEC i)) ∧ (p.get! 0).toNat = 255 := by
  have hp : p = byte 255 ++ (s.toByteArray ++ (ζ ++ E.KEC i)) := by
    have h255 : BE 255 = byte 255 := by decide +kernel
    rw [L_A, Option.some.injEq] at h
    rw [← h, h255, ByteArray.append_assoc, ByteArray.append_assoc]
  refine ⟨hp, ?_⟩
  rw [hp, head_byte (by decide)]

/-- **What is hashed for a new address says which creation is meant.**  Creations
that hash the same bytes are of one kind and have one creator; of two `CREATE`
the nonces are equal too, and of two `CREATE2` the salts and the hashes of the
initialisation codes. -/
theorem address_preimage_says_which_creation {ζ ζ' : Option UInt256}
    (h : L_A E s n (ζ.map UInt256.toByteArray) i = some p)
    (h' : L_A E s' n' (ζ'.map UInt256.toByteArray) i' = some p) :
    s = s' ∧ ζ = ζ' ∧ if ζ = none then n = n' else E.KEC i = E.KEC i' := by
  cases ζ with
  | none =>
    obtain ⟨hp, hhead⟩ := L_A_create h
    cases ζ' with
    | none =>
      obtain ⟨hp', -⟩ := L_A_create h'
      have htree := RLP_inj hp hp'
      simp only [𝕋.𝕃.injEq, List.cons.injEq, 𝕋.𝔹.injEq, and_true] at htree
      exact ⟨AccountAddress.toByteArray_inj htree.1, rfl, by rw [if_pos rfl]; exact BE_val_inj htree.2⟩
    | some z' =>
      obtain ⟨-, hhead'⟩ := L_A_create2 h'
      omega
  | some z =>
    obtain ⟨hp, hhead⟩ := L_A_create2 h
    cases ζ' with
    | none =>
      obtain ⟨-, hhead'⟩ := L_A_create h'
      omega
    | some z' =>
      obtain ⟨hp', -⟩ := L_A_create2 h'
      rw [hp, ByteArray.append_right_inj] at hp'
      -- the parts before the hash have fixed lengths
      rw [ByteArray.append_eq_append_iff_of_size_eq_left
        (s.size_toByteArray.trans s'.size_toByteArray.symm),
        ByteArray.append_eq_append_iff_of_size_eq_left
        (z.size_toByteArray.trans z'.size_toByteArray.symm)] at hp'
      obtain ⟨hs, hz, hKEC⟩ := hp'
      refine ⟨AccountAddress.toByteArray_inj hs, ?_, ?_⟩
      · rw [UInt256.toByteArray_inj hz]
      · rw [if_neg (by simp)]
        exact hKEC

/-- `CREATE2` with one salt and, to this hash function, one code. -/
theorem address_preimage_says_which_creation_salt :
    ∃ p, L_A (Frame.aimedAt 0xc0de) 0xfeed 0 (some (UInt256.toByteArray 7)) ⟨#[1]⟩ = some p ∧
      L_A (Frame.aimedAt 0xc0de) 0xfeed 1 (some (UInt256.toByteArray 7)) ⟨#[2]⟩ = some p ∧
      (0xfeed : AccountAddress) = 0xfeed ∧ (some 7 : Option UInt256) = some 7 ∧
      if (some 7 : Option UInt256) = none then (0 : UInt256) = 1
      else (Frame.aimedAt 0xc0de).KEC ⟨#[1]⟩ = (Frame.aimedAt 0xc0de).KEC ⟨#[2]⟩ :=
  let salt : Option UInt256 := some 7
  let p := byte 255 ++ ((0xfeed : AccountAddress).toByteArray ++
    (UInt256.toByteArray 7 ++ (Frame.aimedAt 0xc0de).KEC ⟨#[1]⟩))
  have h : L_A (Frame.aimedAt 0xc0de) 0xfeed 0 (salt.map UInt256.toByteArray) ⟨#[1]⟩ = some p := by
    decide +kernel
  have h' : L_A (Frame.aimedAt 0xc0de) 0xfeed 1 (salt.map UInt256.toByteArray) ⟨#[2]⟩ = some p := by
    decide +kernel
  ⟨p, h, h', address_preimage_says_which_creation h h'⟩

end Lambda
end EVM
end EvmYul
