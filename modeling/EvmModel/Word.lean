import Mathlib

/-!
# Words, addresses and their bytes

The 256-bit words of `EvmYul/UInt256.lean`, the 160-bit addresses of
`EvmYul/Wheels.lean`, and the conversions between numbers and bytes that both
files share.  A word is an element of `Fin (2 ^ 256)`, so `+`, `-`, `*`, `/`,
`<<<`, `&&&` and the rest are the modular operations of `Fin`; the functions
below are the ones the source defines on top of them.
-/

namespace EvmYul

/-- A 256-bit machine word. -/
abbrev UInt256 := Fin (2 ^ 256)

/-- A 160-bit account address. -/
abbrev AccountAddress := Fin (2 ^ 160)

instance UInt256.neZero_size : NeZero (2 ^ 256) := ⟨by decide⟩

instance AccountAddress.neZero_size : NeZero (2 ^ 160) := ⟨by decide⟩

def AccountAddress.ofNat (n : ℕ) : AccountAddress := Fin.ofNat _ n

def AccountAddress.ofUInt256 (v : UInt256) : AccountAddress := Fin.ofNat _ (v.val % 2 ^ 160)

namespace UInt256

def ofNat (n : ℕ) : UInt256 := Fin.ofNat _ n

/-- `1` for true and `0` for false. -/
def fromBool (b : Bool) : UInt256 := if b then 1 else 0

/-! ## Arithmetic -/

def mod (a b : UInt256) : UInt256 := if b = 0 then 0 else a % b

/-- The absolute value of a word read in two's complement. -/
def abs (a : UInt256) : UInt256 := if 2 ^ 255 ≤ a.val then a * (-1) else a

def sgn (a : UInt256) : ℤ := if 2 ^ 255 ≤ a.val then -1 else if a = 0 then 0 else 1

def toSigned : ℤ → UInt256
  | .ofNat n => ofNat n
  | .negSucc n => ofNat (2 ^ 256 - 1 - n)

def sdiv (a b : UInt256) : UInt256 :=
  if 2 ^ 255 ≤ a.val then
    if 2 ^ 255 ≤ b.val then abs a / abs b else (abs a / b) * (-1)
  else if 2 ^ 255 ≤ b.val then (a / abs b) * (-1) else a / b

def smod (a b : UInt256) : UInt256 :=
  if b.val = 0 then 0 else toSigned (sgn a * (abs a % abs b).val)

def addMod (a b c : UInt256) : UInt256 := if c = 0 then 0 else ofNat ((a.val + b.val) % c.val)

def mulMod (a b c : UInt256) : UInt256 := if c = 0 then 0 else ofNat ((a.val * b.val) % c.val)

def powAux (a c : UInt256) (n : ℕ) : UInt256 :=
  if n = 0 then a
  else if n % 2 = 1 then powAux (a * c) (c * c) (n / 2)
  else powAux a (c * c) (n / 2)
termination_by n

def exp (a b : UInt256) : UInt256 := powAux 1 a b.val

/-! ## Bits -/

def lnot (a : UInt256) : UInt256 := ofNat (2 ^ 256 - 1) - a

def complement (a : UInt256) : UInt256 := 0 - (a + 1)

def shiftLeft (a b : UInt256) : UInt256 := if 256 ≤ b.val then 0 else a <<< b

def shiftRight (a b : UInt256) : UInt256 := if 256 ≤ b.val then 0 else a >>> b

def byteAt (a b : UInt256) : UInt256 :=
  if 31 < a then 0 else shiftRight b (ofNat ((31 - a.val) * 8)) &&& 0xFF

def signextend (a b : UInt256) : UInt256 :=
  if a.val ≤ 31 then
    let test_bit := a * 8 + 7
    let sign_bit := shiftLeft 1 test_bit
    if b &&& sign_bit ≠ 0 then b ||| (ofNat (2 ^ 256) - sign_bit) else b &&& (sign_bit - 1)
  else b

/-! ## Comparisons -/

def sltBool (a b : UInt256) : Bool :=
  if 2 ^ 255 ≤ a.val then
    if 2 ^ 255 ≤ b.val then a < b else true
  else if 2 ^ 255 ≤ b.val then false else a < b

def sgtBool (a b : UInt256) : Bool :=
  if 2 ^ 255 ≤ a.val then
    if 2 ^ 255 ≤ b.val then b < a else false
  else if 2 ^ 255 ≤ b.val then true else b < a

def lt (a b : UInt256) : UInt256 := fromBool (a < b)

def gt (a b : UInt256) : UInt256 := fromBool (b < a)

def slt (a b : UInt256) : UInt256 := fromBool (sltBool a b)

def sgt (a b : UInt256) : UInt256 := fromBool (sgtBool a b)

def eq (a b : UInt256) : UInt256 := fromBool (a = b)

def isZero (a : UInt256) : UInt256 := fromBool (a = 0)

/-- Arithmetic shift of `b` to the right by `a`. -/
def sar (a b : UInt256) : UInt256 :=
  if sltBool b 0 then complement (shiftRight (complement b) a) else shiftRight b a

/-! ## Words that do not wrap -/

theorem val_ofNat_le (n : ℕ) : (ofNat n).val ≤ n := Nat.mod_le n _

theorem val_ofNat_of_lt {n : ℕ} (h : n < 2 ^ 256) : (ofNat n).val = n := Nat.mod_eq_of_lt h

/-- A payment that is covered is a subtraction of numbers. -/
theorem val_sub_ofNat {a : UInt256} {n : ℕ} (h : n ≤ a.val) : (a - ofNat n).val = a.val - n := by
  have hn : (ofNat n).val = n := val_ofNat_of_lt (lt_of_le_of_lt h a.isLt)
  have hle : ofNat n ≤ a := by
    rw [Fin.le_def, hn]
    exact h
  rw [Fin.sub_val_of_le hle, hn]

/-- A sum that fits is a sum of numbers. -/
theorem val_add_of_lt {a b : UInt256} (h : a.val + b.val < 2 ^ 256) :
    (a + b).val = a.val + b.val := by
  rw [Fin.val_add, Nat.mod_eq_of_lt h]

end UInt256

/-! ## Numbers as bytes -/

/-- The number a little-endian list of bytes spells. -/
def fromBytes' : List UInt8 → ℕ
  | [] => 0
  | b :: bs => b.toNat + 2 ^ 8 * fromBytes' bs

def fromByteArrayBigEndian (b : ByteArray) : ℕ := fromBytes' b.data.toList.reverse

/-- The shortest little-endian list of bytes that spells `n`. -/
def toBytes' (n : ℕ) : List UInt8 :=
  if n = 0 then [] else UInt8.ofNat (n % 2 ^ 8) :: toBytes' (n / 2 ^ 8)
termination_by n

/-- The big-endian bytes of a number, with no leading zero. -/
def BE (n : ℕ) : ByteArray := (toBytes' n).reverse.toByteArray

def uInt256OfByteArray (arr : ByteArray) : UInt256 := .ofNat (fromByteArrayBigEndian arr)

/-- `memset_zero`: `n` zero bytes, where the length is a 64-bit `size_t`. -/
def zeroes (n : ℕ) : ByteArray := ⟨Array.replicate (n % 2 ^ 64) 0⟩

def UInt256.toByteArray (val : UInt256) : ByteArray := zeroes (32 - (BE val).size) ++ BE val

def AccountAddress.toByteArray (a : AccountAddress) : ByteArray := zeroes (20 - (BE a).size) ++ BE a

/-- A byte string is spelled by a number below the power of 256 of its length. -/
theorem fromBytes'_lt (bs : List UInt8) : fromBytes' bs < 2 ^ (8 * bs.length) := by
  induction bs with
  | nil => simp [fromBytes']
  | cons b bs ih =>
    have hb := b.toNat_lt
    rw [fromBytes', List.length_cons, Nat.mul_succ, Nat.pow_add]
    omega

theorem fromBytes'_append (bs cs : List UInt8) :
    fromBytes' (bs ++ cs) = fromBytes' bs + 2 ^ (8 * bs.length) * fromBytes' cs := by
  induction bs with
  | nil => simp [fromBytes']
  | cons b bs ih =>
    rw [List.cons_append, fromBytes', fromBytes', ih, List.length_cons, Nat.mul_succ, Nat.pow_add]
    ring

/-- Writing a number down and reading it back gives the number. -/
theorem fromBytes'_toBytes' (n : ℕ) : fromBytes' (toBytes' n) = n := by
  induction n using toBytes'.induct with
  | case1 => simp [toBytes', fromBytes']
  | case2 n hn ih =>
    have hbyte : (UInt8.ofNat (n % 2 ^ 8)).toNat = n % 2 ^ 8 :=
      UInt8.toNat_ofNat_of_lt' (Nat.mod_lt _ (by decide))
    rw [toBytes', if_neg hn, fromBytes', ih, hbyte]
    omega

/-- A number below a power of 256 needs no more bytes than its exponent. -/
theorem length_toBytes'_le {k : ℕ} : ∀ {n : ℕ}, n < 2 ^ (8 * k) → (toBytes' n).length ≤ k := by
  induction k with
  | zero =>
    intro n hn
    have hzero : n = 0 := by omega
    rw [hzero, toBytes', if_pos rfl]
    exact le_rfl
  | succ k ih =>
    intro n hn
    rw [toBytes']
    split
    · exact Nat.zero_le _
    · rw [List.length_cons]
      have hdiv : n / 2 ^ 8 < 2 ^ (8 * k) := by
        rw [Nat.div_lt_iff_lt_mul (by decide), ← Nat.pow_add]
        exact hn
      exact Nat.succ_le_succ (ih hdiv)

theorem fromBytes'_replicate_zero (k : ℕ) : fromBytes' (List.replicate k 0) = 0 := by
  induction k with
  | zero => rfl
  | succ k ih => rw [List.replicate_succ, fromBytes', ih]; rfl

theorem toList_BE (n : ℕ) : (BE n).data.toList = (toBytes' n).reverse := by
  simp [BE]

theorem size_zeroes {n : ℕ} (hn : n < 2 ^ 64) : (zeroes n).size = n := by
  rw [← ByteArray.size_data, zeroes, Array.size_replicate, Nat.mod_eq_of_lt hn]

theorem toList_zeroes {n : ℕ} (hn : n < 2 ^ 64) : (zeroes n).data.toList = List.replicate n 0 := by
  rw [zeroes, Array.toList_replicate, Nat.mod_eq_of_lt hn]

namespace AccountAddress

/-- An address survives being put on the stack. -/
theorem ofUInt256_ofNat (a : AccountAddress) : ofUInt256 (.ofNat a.val) = a := by
  have hlt : a.val < 2 ^ 256 := a.isLt.trans (by decide)
  rw [ofUInt256, UInt256.val_ofNat_of_lt hlt, Nat.mod_eq_of_lt a.isLt]
  exact Fin.ofNat_val_eq_self a

/-- The bytes of an address spell it. -/
theorem fromByteArrayBigEndian_toByteArray (a : AccountAddress) :
    fromByteArrayBigEndian a.toByteArray = a.val := by
  have hsub : 20 - (BE a.val).size < 2 ^ 64 := by omega
  rw [fromByteArrayBigEndian, toByteArray, ByteArray.data_append, Array.toList_append,
    List.reverse_append, toList_BE, toList_zeroes hsub, List.reverse_reverse,
    List.reverse_replicate, fromBytes'_append, fromBytes'_toBytes', fromBytes'_replicate_zero,
    Nat.mul_zero, Nat.add_zero]

theorem size_toByteArray (a : AccountAddress) : a.toByteArray.size = 20 := by
  have hlen : (BE a.val).size ≤ 20 := by
    rw [← ByteArray.size_data, ← Array.length_toList, toList_BE, List.length_reverse]
    exact length_toBytes'_le a.isLt
  have hsub : 20 - (BE a.val).size < 2 ^ 64 := by omega
  rw [toByteArray, ByteArray.size_append, size_zeroes hsub]
  omega

end AccountAddress

end EvmYul
