import EvmModel.Word

/-!
# The native BLAKE2 compression function

`EvmYul/FFI/ffi.c` in its own types: `uint64_t` words, fixed-size arrays, the
integer promotions of C where bytes are shifted and joined, and a round counter
of type `unsigned int`.  `blake2compressb64` reads its argument through a raw
pointer; `ffi.BLAKE2` is the guard the interpreter calls it through.
-/

namespace EvmYul
namespace Native

/-- Rotate right; the shift `64 - c` is computed in `unsigned int`. -/
def rotr64 (w : UInt64) (c : UInt32) : UInt64 :=
  (w >>> c.toUInt64) ||| (w <<< (64 - c).toUInt64)

/-- The mixing macro `G`. -/
def G (v : Vector UInt64 16) (a b c d : Fin 16) (e f : UInt64) : Vector UInt64 16 :=
  let v := v.set a (v[a] + v[b] + e)
  let v := v.set d (rotr64 (v[d] ^^^ v[a]) 32)
  let v := v.set c (v[c] + v[d])
  let v := v.set b (rotr64 (v[b] ^^^ v[c]) 24)
  let v := v.set a (v[a] + v[b] + f)
  let v := v.set d (rotr64 (v[d] ^^^ v[a]) 16)
  let v := v.set c (v[c] + v[d])
  v.set b (rotr64 (v[b] ^^^ v[c]) 63)

def blake2b_IV : Vector UInt64 8 := #v[
  0x6A09E667F3BCC908, 0xBB67AE8584CAA73B,
  0x3C6EF372FE94F82B, 0xA54FF53A5F1D36F1,
  0x510E527FADE682D1, 0x9B05688C2B3E6C1F,
  0x1F83D9ABFB41BD6B, 0x5BE0CD19137E2179]

/-- The message schedule; the entries are positions in the message block. -/
def blake2b_sigma : Vector (Vector (Fin 16) 16) 10 := #v[
  #v[0, 1, 2, 3, 4, 5, 6, 7, 8, 9, 10, 11, 12, 13, 14, 15],
  #v[14, 10, 4, 8, 9, 15, 13, 6, 1, 12, 0, 2, 11, 7, 5, 3],
  #v[11, 8, 12, 0, 5, 2, 15, 13, 10, 14, 3, 6, 7, 1, 9, 4],
  #v[7, 9, 3, 1, 13, 12, 11, 14, 2, 6, 5, 10, 4, 0, 15, 8],
  #v[9, 0, 5, 7, 2, 4, 10, 15, 14, 1, 11, 12, 6, 8, 3, 13],
  #v[2, 12, 6, 10, 0, 11, 8, 3, 4, 13, 7, 5, 15, 14, 1, 9],
  #v[12, 5, 1, 15, 14, 13, 4, 10, 0, 7, 6, 3, 9, 2, 8, 11],
  #v[13, 11, 7, 14, 12, 1, 3, 9, 5, 0, 15, 4, 8, 6, 2, 10],
  #v[6, 15, 14, 9, 11, 3, 0, 8, 12, 2, 13, 7, 1, 4, 10, 5],
  #v[10, 2, 8, 4, 7, 6, 1, 5, 15, 11, 9, 14, 3, 12, 13, 0]]

/-- The body of the loop over the rounds. -/
def round (m v : Vector UInt64 16) (i : ℕ) : Vector UInt64 16 :=
  let s := blake2b_sigma[i % 10]
  let v := G v 0 4 8 12 m[s[0]] m[s[1]]
  let v := G v 1 5 9 13 m[s[2]] m[s[3]]
  let v := G v 2 6 10 14 m[s[4]] m[s[5]]
  let v := G v 3 7 11 15 m[s[6]] m[s[7]]
  let v := G v 0 5 10 15 m[s[8]] m[s[9]]
  let v := G v 1 6 11 12 m[s[10]] m[s[11]]
  let v := G v 2 7 8 13 m[s[12]] m[s[13]]
  G v 3 4 9 14 m[s[14]] m[s[15]]

/-- The working vector before the first round. -/
def workVector (h : Vector UInt64 8) (t : Vector UInt64 2) (f : Bool) : Vector UInt64 16 :=
  let v := h ++ blake2b_IV
  let v := v.set 12 (v[12] ^^^ t[0])
  let v := v.set 13 (v[13] ^^^ t[1])
  if f then v.set 14 (~~~v[14]) else v

def blake2b_compress_any (rounds : UInt32) (h : Vector UInt64 8) (m : Vector UInt64 16)
    (t : Vector UInt64 2) (f : Bool) : Vector UInt64 8 :=
  let v := (List.range rounds.toNat).foldl (round m) (workVector h t f)
  Vector.ofFn fun i => h[i] ^^^ (v[i.val] ^^^ v[i.val + 8])

/-! ## Input and output -/

/-- A byte promoted to `int`. -/
def promote (b : UInt8) : Int32 := b.toUInt32.toInt32

/-- The round count.  The last three bytes are shifted and joined as `int`; the
first one is converted to `uint32_t` before it is shifted, and the conversion
takes the rest along. -/
def readRounds (inp : ℕ → UInt8) : UInt32 :=
  ((promote (inp 3) <<< (0 * 8)) ||| (promote (inp 2) <<< (1 * 8)) |||
    (promote (inp 1) <<< (2 * 8))).toUInt32 ||| ((inp 0).toUInt32 <<< (3 * 8))

/-- A little-endian 64-bit word, joined by shifts. -/
def readWord (inp : ℕ → UInt8) : UInt64 :=
  ((inp 0).toUInt64 <<< (0 * 8)) ||| ((inp 1).toUInt64 <<< (1 * 8)) |||
  ((inp 2).toUInt64 <<< (2 * 8)) ||| ((inp 3).toUInt64 <<< (3 * 8)) |||
  ((inp 4).toUInt64 <<< (4 * 8)) ||| ((inp 5).toUInt64 <<< (5 * 8)) |||
  ((inp 6).toUInt64 <<< (6 * 8)) ||| ((inp 7).toUInt64 <<< (7 * 8))

/-- `n` words from position `start` on. -/
def readWords (inp : ℕ → UInt8) (start n : ℕ) : Vector UInt64 n :=
  Vector.ofFn fun i => readWord fun j => inp (start + i * 8 + j)

/-- Byte `i` of an array of words in the memory of a little-endian host. -/
def hostByte (h : Vector UInt64 8) (i : Fin 64) : UInt8 :=
  (h[i.val / 8] >>> (8 * (i.val % 8)).toUInt64).toUInt8

def blake2compressb64 (input : ByteArray) : ByteArray :=
  let inp (i : ℕ) : UInt8 := input.get! i
  let rounds := readRounds inp
  let h := readWords inp 4 8
  let m := readWords inp 68 16
  let t := readWords inp 196 2
  let f := inp 212 ≠ 0
  let h := blake2b_compress_any rounds h m t f
  ⟨Array.ofFn (hostByte h)⟩

end Native

/-- `ffi.BLAKE2`: the native function behind its two checks. -/
def ffi.BLAKE2 (d : ByteArray) : Except String ByteArray := do
  if d.size ≠ 213 then throw "error"
  if d.get! 212 ∉ [0, 1].map Nat.toUInt8 then throw "error"
  return Native.blake2compressb64 d

end EvmYul
