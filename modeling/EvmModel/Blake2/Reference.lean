import EvmModel.Word

/-!
# The reference BLAKE2 compression function

`EvmYul/EllipticCurvesPy/blake2.py` and the script `blake2_f.py` around it:
unbounded integers reduced modulo `2 ^ 64` where the program says so, lists
that are read and written at an index (an index outside the list raises), and
an output packed by `struct.pack`, which raises when a word does not fit.
-/

namespace EvmYul
namespace Reference

/-- What the Python program can end with instead of an output. -/
inductive PyError where
  /-- The script prints `error` and exits. -/
  | error
  | IndexError
  | structError

/-- `v[i]`. -/
def load {α : Type} (v : List α) (i : ℕ) : Except PyError α :=
  match v[i]? with
  | some x => .ok x
  | none => .error .IndexError

/-- `v[i] = x`. -/
def store (v : List ℕ) (i x : ℕ) : Except PyError (List ℕ) :=
  if i < v.length then .ok (v.set i x) else .error .IndexError

/-- `data[a:b]`. -/
def slice (data : List UInt8) (a b : ℕ) : List UInt8 := (data.drop a).take (b - a)

/-! ## The parameters of `Blake2b` -/

def w : ℕ := 64
def mask_bits : ℕ := 0xFFFFFFFFFFFFFFFF
def R1 : ℕ := 32
def R2 : ℕ := 24
def R3 : ℕ := 16
def R4 : ℕ := 63
def max_word : ℕ := 2 ^ w

def IV : List ℕ := [
  0x6A09E667F3BCC908,
  0xBB67AE8584CAA73B,
  0x3C6EF372FE94F82B,
  0xA54FF53A5F1D36F1,
  0x510E527FADE682D1,
  0x9B05688C2B3E6C1F,
  0x1F83D9ABFB41BD6B,
  0x5BE0CD19137E2179]

def sigma : List (List ℕ) := [
  [0, 1, 2, 3, 4, 5, 6, 7, 8, 9, 10, 11, 12, 13, 14, 15],
  [14, 10, 4, 8, 9, 15, 13, 6, 1, 12, 0, 2, 11, 7, 5, 3],
  [11, 8, 12, 0, 5, 2, 15, 13, 10, 14, 3, 6, 7, 1, 9, 4],
  [7, 9, 3, 1, 13, 12, 11, 14, 2, 6, 5, 10, 4, 0, 15, 8],
  [9, 0, 5, 7, 2, 4, 10, 15, 14, 1, 11, 12, 6, 8, 3, 13],
  [2, 12, 6, 10, 0, 11, 8, 3, 4, 13, 7, 5, 15, 14, 1, 9],
  [12, 5, 1, 15, 14, 13, 4, 10, 0, 7, 6, 3, 9, 2, 8, 11],
  [13, 11, 7, 14, 12, 1, 3, 9, 5, 0, 15, 4, 8, 6, 2, 10],
  [6, 15, 14, 9, 11, 3, 0, 8, 12, 2, 13, 7, 1, 4, 10, 5],
  [10, 2, 8, 4, 7, 6, 1, 5, 15, 11, 9, 14, 3, 12, 13, 0]]

def sigma_len : ℕ := sigma.length

/-! ## Mixing -/

/-- `(z >> R) ^ (z << w_R) % max_word`, where `%` binds tighter than `^`. -/
def rotate (z R : ℕ) : ℕ := (z >>> R) ^^^ ((z <<< (w - R)) % max_word)

/-- The mixing function `G`. -/
def G (v : List ℕ) (a b c d x y : ℕ) : Except PyError (List ℕ) := do
  let v ← store v a (((← load v a) + (← load v b) + x) % max_word)
  let v ← store v d (rotate ((← load v d) ^^^ (← load v a)) R1)
  let v ← store v c (((← load v c) + (← load v d)) % max_word)
  let v ← store v b (rotate ((← load v b) ^^^ (← load v c)) R2)
  let v ← store v a (((← load v a) + (← load v b) + y) % max_word)
  let v ← store v d (rotate ((← load v d) ^^^ (← load v a)) R3)
  let v ← store v c (((← load v c) + (← load v d)) % max_word)
  store v b (rotate ((← load v b) ^^^ (← load v c)) R4)

/-- `self.G(v, a, b, c, d, m[s[i]], m[s[j]])`. -/
def mix (m s v : List ℕ) (a b c d i j : ℕ) : Except PyError (List ℕ) := do
  G v a b c d (← load m (← load s i)) (← load m (← load s j))

/-- The body of the loop over the rounds. -/
def round (m v : List ℕ) (r : ℕ) : Except PyError (List ℕ) := do
  let s ← load sigma (r % sigma_len)
  let v ← mix m s v 0 4 8 12 0 1
  let v ← mix m s v 1 5 9 13 2 3
  let v ← mix m s v 2 6 10 14 4 5
  let v ← mix m s v 3 7 11 15 6 7
  let v ← mix m s v 0 5 10 15 8 9
  let v ← mix m s v 1 6 11 12 10 11
  let v ← mix m s v 2 7 8 13 12 13
  mix m s v 3 4 9 14 14 15

/-- The working vector before the first round.  `v[8:15] = self.IV` replaces
seven of the sixteen zeroes by eight words, so the list ends with a zero that
no index reaches. -/
def workVector (h : List ℕ) (t_0 t_1 f : ℕ) : Except PyError (List ℕ) := do
  let v := List.replicate 16 0
  let v := h ++ v.drop 8
  let v := v.take 8 ++ IV ++ v.drop 15
  let v ← store v 12 (t_0 ^^^ (← load IV 4))
  let v ← store v 13 (t_1 ^^^ (← load IV 5))
  if f ≠ 0 then store v 14 ((← load v 14) ^^^ mask_bits) else return v

/-- `struct.pack("<Q", x)`. -/
def packWord (x : ℕ) : Except PyError (List UInt8) :=
  if x < 2 ^ 64 then .ok ((List.range 8).map fun j => UInt8.ofNat (x >>> (8 * j)))
  else .error .structError

def compress (num_rounds : ℕ) (h m : List ℕ) (t_0 t_1 f : ℕ) : Except PyError (List UInt8) := do
  let v ← workVector h t_0 t_1 f
  let v ← (List.range num_rounds).foldlM (round m) v
  let words ← (List.range 8).mapM fun i => do
    return (← load h i) ^^^ (← load v i) ^^^ (← load v (i + 8))
  return (← words.mapM packWord).flatten

/-! ## The script -/

/-- `num_words` little-endian words of eight bytes, from `start` on. -/
def spit_le_to_uint (data : List UInt8) (start num_words : ℕ) : List ℕ :=
  (List.range num_words).map fun i =>
    let start_position := start + i * 8
    fromBytes' (slice data start_position (start_position + 8))

/-- `blake2_f.py` on the bytes of its argument. -/
def blake2_f (data : List UInt8) : Except PyError (List UInt8) := do
  if data.length ≠ 213 then throw .error
  let rounds := fromBytes' (data.take 4).reverse
  let h := spit_le_to_uint data 4 8
  let m := spit_le_to_uint data 68 16
  let t := spit_le_to_uint data 196 2
  let f := fromBytes' (data.drop 212).reverse
  if f ∉ [0, 1] then throw .error
  compress rounds h m (← load t 0) (← load t 1) f

end Reference
end EvmYul
