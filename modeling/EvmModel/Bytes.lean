import EvmModel.Word

/-!
# Byte arrays and RLP

The reads and writes of `EvmYul/Wheels.lean` that the interpreter performs on
memory, code, call data and return data, and the recursive length prefix
encoding that `Lambda` hashes to derive the address of a new contract.
-/

namespace EvmYul

/-- The byte at position `n`, if there is one. -/
def getByte? (self : ByteArray) (n : ℕ) : Option UInt8 := self.data[n]?

/-- `ByteArray.extract'`: the bytes of `a` from `b` to `e`, at any size. -/
def extract' (a : ByteArray) (b e : ℕ) : ByteArray :=
  if b < 2 ^ 64 ∧ e < 2 ^ 64 then a.extract b e else ⟨⟨(a.data.toList.drop b).take (e - b)⟩⟩

/-- Read `size` bytes from `start`, padding with zeroes on the right. -/
def readBytes (source : ByteArray) (start size : ℕ) : ByteArray :=
  let read :=
    if start < 2 ^ 64 ∧ size < 2 ^ 64 then source.copySlice start .empty 0 size
    else ⟨⟨(source.data.toList.drop start).take size⟩⟩
  read ++ zeroes (size - read.size)

def readWithoutPadding (source : ByteArray) (addr len : ℕ) : ByteArray :=
  if source.size ≤ addr then .empty
  else source.extract addr (addr + min len source.size)

/-- Read `len` bytes of memory; a read of `2 ^ 64` bytes or more is a panic in
the source, whose value is the default one. -/
def readWithPadding (source : ByteArray) (addr len : ℕ) : ByteArray :=
  if 2 ^ 64 ≤ len then default
  else
    let read := readWithoutPadding source addr len
    read ++ zeroes (len - read.size)

/-- Copy `len` bytes of `source` over `dest`, with zeroes where the source has
run out and as padding up to the place the copy starts at. -/
def write (source : ByteArray) (sourceAddr : ℕ) (dest : ByteArray) (destAddr len : ℕ) :
    ByteArray :=
  if len = 0 then dest
  else if source.size ≤ sourceAddr then
    let len := min len (dest.size - destAddr)
    let destAddr := min destAddr dest.size
    (zeroes len).copySlice 0 dest destAddr len
  else
    let practicalLen := min len (source.size - sourceAddr)
    let endPaddingAddr := min dest.size (destAddr + len)
    let sourcePaddingLength := endPaddingAddr - (destAddr + practicalLen)
    let sourcePadding := zeroes sourcePaddingLength
    let destPadding := zeroes (destAddr - dest.size)
    (source ++ sourcePadding).copySlice sourceAddr (dest ++ destPadding) destAddr
      (practicalLen + sourcePaddingLength)

/-! ## Recursive length prefix -/

/-- A tree of byte strings. -/
inductive 𝕋 where
  | 𝔹 (bytes : ByteArray)
  | 𝕃 (items : List 𝕋)

/-- A one-byte array, truncating as `UInt8` does. -/
def byte (n : ℕ) : ByteArray := ⟨#[UInt8.ofNat n]⟩

def R_b (x : ByteArray) : Option ByteArray :=
  if x.size = 1 ∧ x.get! 0 < 128 then some x
  else if x.size < 56 then some (byte (128 + x.size) ++ x)
  else if x.size < 2 ^ 64 then some (byte (183 + (BE x.size).size) ++ BE x.size ++ x)
  else none

/-- The prefix of a list whose items encode to `s_x`. -/
def R_l (s_x : ByteArray) : Option ByteArray :=
  if s_x.size < 56 then some (byte (192 + s_x.size) ++ s_x)
  else if s_x.size < 2 ^ 64 then some (byte (247 + (BE s_x.size).size) ++ BE s_x.size ++ s_x)
  else none

mutual

def RLP : 𝕋 → Option ByteArray
  | .𝔹 ba => R_b ba
  | .𝕃 l => (RLP.s l).bind R_l

/-- The concatenated encodings of the items of a list. -/
def RLP.s : List 𝕋 → Option ByteArray
  | [] => some .empty
  | t :: ts =>
    match RLP t, RLP.s ts with
    | some l, some r => some (l ++ r)
    | _, _ => none

end

end EvmYul
