import EvmModel.Lib.Ensures
import EvmModel.Blake2.Native
import EvmModel.Blake2.Reference

/-!
# The native and the reference BLAKE2 agree

The two programs differ in everything but the algorithm: fixed arrays of
wrapping words against growing lists of unbounded integers, `or` against `xor`
in the rotation, shifts and promotions against slices, a raw view of memory
against `struct.pack`.  The relation `Agrees` ties a list to an array; every
statement of `G` keeps it, so a round does, so any number of rounds do.

* `rotr64_toNat` — the two rotations;
* `readRounds_toNat`, `readWord_toNat` — the two ways to read a number;
* `Agrees.G`, `Agrees.round`, `Agrees.compress` — mixing, a round, all rounds;
* `blake2compressb64_agrees` — the two functions on 213 bytes.
-/

namespace EvmYul
namespace Blake2

open Reference (PyError)

/-! ## Words -/

/-- The rotation of C joins with `or`, the one of Python with `xor`. -/
theorem rotr64_toNat (z : UInt64) (c : UInt32) (h0 : 0 < c.toNat) (h64 : c.toNat < 64) :
    (Native.rotr64 z c).toNat = Reference.rotate z.toNat c.toNat := by
  have hc : (c.toUInt64).toNat % 64 = c.toNat := by simp; omega
  have hc' : ((64 - c).toUInt64).toNat % 64 = 64 - c.toNat := by
    rw [UInt32.toNat_toUInt64, UInt32.toNat_sub_of_le _ _ (by simp [UInt32.le_iff_toNat_le]; omega)]
    simp
    omega
  rw [Native.rotr64, UInt64.toNat_or, UInt64.toNat_shiftRight, UInt64.toNat_shiftLeft, hc, hc']
  refine Nat.eq_of_testBit_eq fun i => ?_
  simp only [Reference.rotate, Reference.w, Reference.max_word, Nat.testBit_or, Nat.testBit_xor,
    Nat.testBit_shiftRight, Nat.testBit_mod_two_pow, Nat.testBit_shiftLeft]
  by_cases hi : 64 - c.toNat ≤ i
  · have hz : z.toNat.testBit (c.toNat + i) = false :=
      Nat.testBit_lt_two_pow (z.toNat_lt.trans_le (Nat.pow_le_pow_right (by decide) (by omega)))
    simp [hz]
  · simp [hi]

/-! ## Reading numbers -/

/-- Joining one more byte by shift and `or` is appending it to a little-endian
number, as long as the register is wide enough. -/
theorem or_shiftLeft_byte (l : List UInt8) (b : UInt8) {k n : ℕ} (hk : k = 8 * l.length)
    (hn : k + 8 ≤ n) :
    fromBytes' l ||| ((b.toNat <<< k) % 2 ^ n) = fromBytes' (l ++ [b]) := by
  have hl : fromBytes' l < 2 ^ k := hk ▸ fromBytes'_lt l
  have hfit : b.toNat <<< k < 2 ^ n := by
    rw [Nat.shiftLeft_eq]
    calc b.toNat * 2 ^ k < 2 ^ 8 * 2 ^ k := Nat.mul_lt_mul_of_pos_right b.toNat_lt (by positivity)
      _ = 2 ^ (k + 8) := by ring
      _ ≤ 2 ^ n := Nat.pow_le_pow_right (by decide) hn
  rw [Nat.mod_eq_of_lt hfit, Nat.or_comm, ← Nat.shiftLeft_add_eq_or_of_lt hl, Nat.shiftLeft_eq,
    fromBytes'_append, ← hk]
  simp [fromBytes']
  ring

/-- Eight bytes joined by shifts are the little-endian number they spell. -/
theorem readWord_toNat (inp : ℕ → UInt8) :
    (Native.readWord inp).toNat = fromBytes' ((List.range 8).map inp) := by
  have h0 : (inp 0).toNat <<< 0 % 2 ^ 64 = fromBytes' [inp 0] := by simp [fromBytes']
  simp only [Native.readWord, UInt64.toNat_or, UInt64.toNat_shiftLeft, UInt8.toNat_toUInt64,
    show ((0 * 8 : UInt64).toNat % 64) = 0 from rfl,
    show ((1 * 8 : UInt64).toNat % 64) = 8 from rfl,
    show ((2 * 8 : UInt64).toNat % 64) = 16 from rfl,
    show ((3 * 8 : UInt64).toNat % 64) = 24 from rfl,
    show ((4 * 8 : UInt64).toNat % 64) = 32 from rfl,
    show ((5 * 8 : UInt64).toNat % 64) = 40 from rfl,
    show ((6 * 8 : UInt64).toNat % 64) = 48 from rfl,
    show ((7 * 8 : UInt64).toNat % 64) = 56 from rfl]
  simp (disch := simp) only [h0, or_shiftLeft_byte]
  rfl

/-- The round count is read big-endian; the promotions to `int` lose nothing. -/
theorem readRounds_toNat (inp : ℕ → UInt8) :
    (Native.readRounds inp).toNat = fromBytes' ((List.range 4).map inp).reverse := by
  have h0 : (inp 3).toNat <<< 0 % 2 ^ 32 = fromBytes' [inp 3] := by simp [fromBytes']
  have p0 (b : UInt8) : (Native.promote b <<< (0 * 8 : Int32)).toUInt32 = b.toUInt32 <<< 0 := rfl
  have p1 (b : UInt8) : (Native.promote b <<< (1 * 8 : Int32)).toUInt32 = b.toUInt32 <<< 8 := rfl
  have p2 (b : UInt8) : (Native.promote b <<< (2 * 8 : Int32)).toUInt32 = b.toUInt32 <<< 16 := rfl
  simp only [Native.readRounds, Int32.toUInt32_or, p0, p1, p2, UInt32.toNat_or,
    UInt32.toNat_shiftLeft, UInt8.toNat_toUInt32, show ((0 : UInt32).toNat % 32) = 0 from rfl,
    show ((8 : UInt32).toNat % 32) = 8 from rfl, show ((16 : UInt32).toNat % 32) = 16 from rfl,
    show ((3 * 8 : UInt32).toNat % 32) = 24 from rfl]
  simp (disch := simp) only [h0, or_shiftLeft_byte]
  rfl

/-! ## The working vector -/

/-- The list holds the words of the array at the indexes of the array. -/
def Agrees {n : ℕ} (l : List ℕ) (v : Vector UInt64 n) : Prop :=
  ∀ i (hi : i < n), l[i]? = some v[i].toNat

namespace Agrees

variable {n : ℕ} {l : List ℕ} {v : Vector UInt64 n}

theorem lt_length (h : Agrees l v) (i : Fin n) : i.val < l.length :=
  (List.getElem?_eq_some_iff.1 (h i i.isLt)).1

/-- Reading at an index of the array succeeds, with the word of the array. -/
theorem load (h : Agrees l v) (i : Fin n) : Reference.load l i = .ok v[i].toNat := by
  rw [Reference.load, h i i.isLt]
  rfl

/-- Writing the same word at the same index keeps the relation. -/
theorem set (h : Agrees l v) (i : Fin n) (x : UInt64) :
    Agrees (l.set i x.toNat) (v.set i x) := by
  intro j hj
  rw [List.getElem?_set, Vector.getElem_set]
  by_cases hij : i.val = j
  · simp [hij, hij ▸ h.lt_length i]
  · simp [hij, h j hj]

theorem store (h : Agrees l v) (i : Fin n) {x : UInt64} {y : ℕ} (hy : y = x.toNat) :
    Returns (Reference.store l i y) (Agrees · (v.set i x)) := by
  refine Returns.of_eq (a := l.set i y) ?_ (hy ▸ h.set i x)
  rw [Reference.store, if_pos (h.lt_length i)]

/-- A read followed by the rest of a program. -/
theorem bind_load {β : Type} {f : ℕ → Except PyError β} {Q : β → Prop} (h : Agrees l v)
    (i : Fin n) (hf : Returns (f v[i].toNat) Q) : Returns (Reference.load l i >>= f) Q :=
  Returns.bind_eq (h.load i) hf

/-- A write followed by the rest of a program. -/
theorem bind_store {β : Type} {f : List ℕ → Except PyError β} {Q : β → Prop} (h : Agrees l v)
    (i : Fin n) {x : UInt64} {y : ℕ} (hy : y = x.toNat)
    (hf : ∀ l', Agrees l' (v.set i x) → Returns (f l') Q) :
    Returns (Reference.store l i y >>= f) Q :=
  Returns.bind (h.store i hy) hf

/-! ## Mixing -/

theorem add_toNat (x y : UInt64) : (x.toNat + y.toNat) % Reference.max_word = (x + y).toNat := by
  simp [Reference.max_word, Reference.w]

theorem add₃_toNat (x y z : UInt64) :
    (x.toNat + y.toNat + z.toNat) % Reference.max_word = (x + y + z).toNat := by
  simp [Reference.max_word, Reference.w]

theorem rotate_toNat (x y : UInt64) (c : UInt32) (h0 : 0 < c.toNat) (h64 : c.toNat < 64) :
    Reference.rotate (x.toNat ^^^ y.toNat) c.toNat = (Native.rotr64 (x ^^^ y) c).toNat := by
  rw [rotr64_toNat _ _ h0 h64, UInt64.toNat_xor]

/-- One call of `G`, statement by statement. -/
theorem G {v : Vector UInt64 16} (h : Agrees l v) (a b c d : Fin 16) (x y : UInt64) :
    Returns (Reference.G l a b c d x.toNat y.toNat) (Agrees · (Native.G v a b c d x y)) := by
  unfold Reference.G Native.G
  refine h.bind_load a (h.bind_load b (h.bind_store a (add₃_toNat _ _ _) fun l h => ?_))
  refine h.bind_load d (h.bind_load a (h.bind_store d
    (rotate_toNat _ _ 32 (by decide) (by decide)) fun l h => ?_))
  refine h.bind_load c (h.bind_load d (h.bind_store c (add_toNat _ _) fun l h => ?_))
  refine h.bind_load b (h.bind_load c (h.bind_store b
    (rotate_toNat _ _ 24 (by decide) (by decide)) fun l h => ?_))
  refine h.bind_load a (h.bind_load b (h.bind_store a (add₃_toNat _ _ _) fun l h => ?_))
  refine h.bind_load d (h.bind_load a (h.bind_store d
    (rotate_toNat _ _ 16 (by decide) (by decide)) fun l h => ?_))
  refine h.bind_load c (h.bind_load d (h.bind_store c (add_toNat _ _) fun l h => ?_))
  exact h.bind_load b (h.bind_load c (h.store b (rotate_toNat _ _ 63 (by decide) (by decide))))

/-! ## Rounds -/

/-- The two message schedules have the same entries. -/
theorem sigma_agree : ∀ (r : Fin 10) (j : Fin 16),
    (Reference.sigma[r.val]?.bind (·[j.val]?)) = some ((Native.blake2b_sigma.get r).get j).val := by
  decide

/-- Row `r` of the schedule is read, and holds the positions the array holds. -/
theorem schedule (r : ℕ) : ∃ s, Reference.load Reference.sigma (r % Reference.sigma_len) = .ok s ∧
    ∀ j : Fin 16, Reference.load s j = .ok ((Native.blake2b_sigma.get (Fin.ofNat 10 r)).get j).val := by
  have hr : r % 10 < 10 := Nat.mod_lt _ (by decide)
  obtain ⟨s, hs⟩ : ∃ s, Reference.sigma[r % 10]? = some s :=
    ⟨_, List.getElem?_eq_getElem (by exact hr)⟩
  refine ⟨s, ?_, fun j => ?_⟩
  · show Reference.load _ (r % 10) = _
    rw [Reference.load, hs]
  · have hj := sigma_agree ⟨r % 10, hr⟩ j
    rw [hs, Option.bind_some] at hj
    rw [Reference.load, hj]
    rfl

theorem IV_agree : Agrees Reference.IV Native.blake2b_IV := by
  have h : ∀ i : Fin 8, Reference.IV[i.val]? = some Native.blake2b_IV[i].toNat := by decide
  exact fun i hi => h ⟨i, hi⟩

/-- One line of a round. -/
theorem mix {m : List ℕ} {mv v : Vector UInt64 16} {s : List ℕ} {row : Vector (Fin 16) 16}
    (hm : Agrees m mv) (hs : ∀ j : Fin 16, Reference.load s j = .ok (row.get j).val) (h : Agrees l v)
    (a b c d i j : Fin 16) :
    Returns (Reference.mix m s l a b c d i j)
      (Agrees · (Native.G v a b c d (mv.get (row.get i)) (mv.get (row.get j)))) := by
  refine Returns.bind_eq (hs i) (hm.bind_load (row.get i) ?_)
  exact Returns.bind_eq (hs j) (hm.bind_load (row.get j) (h.G a b c d _ _))

theorem round {m : List ℕ} {mv v : Vector UInt64 16} (hm : Agrees m mv) (h : Agrees l v) (r : ℕ) :
    Returns (Reference.round m l r) (Agrees · (Native.round mv v r)) := by
  obtain ⟨s, hr, hs⟩ := schedule r
  refine Returns.bind_eq hr ?_
  refine Returns.bind (hm.mix hs h 0 4 8 12 0 1) fun l h => ?_
  refine Returns.bind (hm.mix hs h 1 5 9 13 2 3) fun l h => ?_
  refine Returns.bind (hm.mix hs h 2 6 10 14 4 5) fun l h => ?_
  refine Returns.bind (hm.mix hs h 3 7 11 15 6 7) fun l h => ?_
  refine Returns.bind (hm.mix hs h 0 5 10 15 8 9) fun l h => ?_
  refine Returns.bind (hm.mix hs h 1 6 11 12 10 11) fun l h => ?_
  refine Returns.bind (hm.mix hs h 2 7 8 13 12 13) fun l h => ?_
  exact hm.mix hs h 3 4 9 14 14 15

/-! ## Compression -/

/-- Two arrays one after the other, whatever follows them in the list. -/
theorem append {k : ℕ} {l' r : List ℕ} {v' : Vector UInt64 k} (h : Agrees l v)
    (hlen : l.length = n) (h' : Agrees l' v') : Agrees (l ++ l' ++ r) (v ++ v') := by
  intro i hi
  rw [List.append_assoc, List.getElem?_append, Vector.getElem_append, hlen]
  by_cases hin : i < n
  · simp [hin, h i hin]
  · have hk : i - n < k := by omega
    have hl' : i - n < l'.length := h'.lt_length ⟨i - n, hk⟩
    simp [hin, List.getElem?_append_left hl', h' (i - n) hk]

/-- Flipping every bit is `xor` with the mask of the reference. -/
theorem not_toNat (x : UInt64) : x.toNat ^^^ Reference.mask_bits = (~~~x).toNat := by
  rw [← UInt64.xor_neg_one, UInt64.toNat_xor]
  rfl

/-- Before the first round.  The list of the reference has a seventeenth word. -/
theorem workVector {h : List ℕ} {hv : Vector UInt64 8} (hh : Agrees h hv) (hlen : h.length = 8)
    (t : Vector UInt64 2) (f : ℕ) :
    Returns (Reference.workVector h t[0].toNat t[1].toNat f)
      (Agrees · (Native.workVector hv t (f ≠ 0))) := by
  have hstart : (h ++ (List.replicate 16 0).drop 8).take 8 ++ Reference.IV ++
      (h ++ (List.replicate 16 0).drop 8).drop 15 = h ++ Reference.IV ++ [0] := by
    rw [← hlen, List.take_left, List.drop_append, List.drop_eq_nil_of_le (by omega)]
    simp [hlen]
  have h₀ : Agrees (h ++ Reference.IV ++ [0]) (hv ++ Native.blake2b_IV) := hh.append hlen IV_agree
  have hxor (x y z : UInt64) (hz : z = y) : x.toNat ^^^ y.toNat = (z ^^^ x).toNat := by
    rw [hz, UInt64.toNat_xor, Nat.xor_comm]
  have hright (i : ℕ) (h : i < 8 + 8) (hi : 8 ≤ i) :
      (hv ++ Native.blake2b_IV)[i] = Native.blake2b_IV[i - 8] := Vector.getElem_append_right h hi
  have h12 : (hv ++ Native.blake2b_IV)[12] = Native.blake2b_IV[4] :=
    hright 12 (by decide) (by decide)
  have h13 (x : UInt64) :
      ((hv ++ Native.blake2b_IV : Vector UInt64 16).set 12 x)[13] = Native.blake2b_IV[5] := by
    rw [Vector.getElem_set_ne _ _ (by decide)]
    exact hright 13 (by decide) (by decide)
  unfold Reference.workVector Native.workVector
  simp only [hstart]
  refine IV_agree.bind_load 4 (h₀.bind_store (x := (hv ++ Native.blake2b_IV)[12] ^^^ t[0]) 12
    (hxor _ _ _ h12) fun l₁ h₁ => ?_)
  refine IV_agree.bind_load 5 (h₁.bind_store
    (x := ((hv ++ Native.blake2b_IV).set 12 ((hv ++ Native.blake2b_IV)[12] ^^^ t[0]))[13] ^^^ t[1])
    13 (hxor _ _ _ (h13 _)) fun l₂ h₂ => ?_)
  by_cases hf : f = 0
  · simp only [hf, ne_eq, not_true_eq_false, if_false, decide_false, Bool.false_eq_true]
    exact Returns.ok h₂
  · simp only [hf, ne_eq, not_false_eq_true, if_true, decide_true]
    exact h₂.bind_load 14 (h₂.store 14 (not_toNat _))

theorem getD_of_lt (out : Vector UInt64 8) {i : ℕ} (hi : i < 8) : out.getD i 0 = out[i] := by
  simp [Vector.getD, hi]

/-- The output words, read at the first eight indexes. -/
theorem output {h l : List ℕ} {hv : Vector UInt64 8} {v : Vector UInt64 16} (hh : Agrees h hv)
    (hl : Agrees l v) (out : Vector UInt64 8)
    (hout : ∀ i (hi : i < 8), out[i] = hv[i] ^^^ (v[i] ^^^ v[i + 8])) :
    ∀ i ∈ List.range 8,
      (do return (← Reference.load h i) ^^^ (← Reference.load l i) ^^^ (← Reference.load l (i + 8)) :
        Except PyError ℕ) = .ok (out.getD i 0).toNat := by
  intro i hi
  have hi8 : i < 8 := List.mem_range.1 hi
  have e₁ := hh.load ⟨i, hi8⟩
  have e₂ := hl.load ⟨i, by omega⟩
  have e₃ := hl.load ⟨i + 8, by omega⟩
  rw [Except.bind_of_eq_ok e₁, Except.bind_of_eq_ok e₂, Except.bind_of_eq_ok e₃,
    getD_of_lt out hi8, hout i hi8, UInt64.toNat_xor, UInt64.toNat_xor, ← Nat.xor_assoc]
  rfl

end Agrees

/-- The eight bytes of a word, as `struct.pack` writes them. -/
def bytesOf (x : ℕ) : List UInt8 := (List.range 8).map fun j => UInt8.ofNat (x >>> (8 * j))

theorem packWord_toNat (x : UInt64) : Reference.packWord x.toNat = .ok (bytesOf x.toNat) := by
  rw [Reference.packWord, if_pos x.toNat_lt]
  rfl

theorem range_map_eq_ofFn {α : Type} (n : ℕ) (f : ℕ → α) :
    (List.range n).map f = List.ofFn fun i : Fin n => f i := by
  rw [← List.map_coe_finRange_eq_range, List.map_map, List.ofFn_eq_map]
  rfl

/-- Byte `j` of word `i`, found in the memory of the host. -/
theorem hostByte_eq (out : Vector UInt64 8) (i j : Fin 8) (h : i.val * 8 + j.val < 64) :
    Native.hostByte out ⟨i * 8 + j, h⟩ = UInt8.ofNat ((out.getD i 0).toNat >>> (8 * j.val)) := by
  have hdiv : (i.val * 8 + j.val) / 8 = i := by omega
  have hmod : (i.val * 8 + j.val) % 8 = j := by omega
  have hj : (8 * j.val).toUInt64.toNat % 64 = 8 * j.val := by simp; omega
  simp only [Native.hostByte, hdiv, hmod]
  rw [← UInt8.toNat_inj, UInt64.toNat_toUInt8, UInt64.toNat_shiftRight, hj,
    Agrees.getD_of_lt out i.isLt]
  simp

/-- The memory of the host holds the packed words one after the other. -/
theorem ofFn_hostByte (out : Vector UInt64 8) :
    List.ofFn (Native.hostByte out) =
      ((List.range 8).map fun i => bytesOf (out.getD i 0).toNat).flatten := by
  rw [range_map_eq_ofFn]
  refine (List.ofFn_mul (m := 8) (n := 8) (Native.hostByte out)).trans ?_
  refine congrArg List.flatten (congrArg List.ofFn (funext fun i => ?_))
  rw [bytesOf, range_map_eq_ofFn]
  exact congrArg List.ofFn (funext fun j => hostByte_eq out i j _)

/-- Any number of rounds, from any chaining values, message and counters. -/
theorem compress_agrees {h m : List ℕ} {hv : Vector UInt64 8} {mv : Vector UInt64 16}
    (hh : Agrees h hv) (hlen : h.length = 8) (hm : Agrees m mv) (rounds : UInt32)
    (t : Vector UInt64 2) (f : ℕ) :
    Reference.compress rounds.toNat h m t[0].toNat t[1].toNat f =
      .ok (List.ofFn (Native.hostByte (Native.blake2b_compress_any rounds hv mv t (f ≠ 0)))) := by
  obtain ⟨l₁, h₁, hl₁⟩ := hh.workVector hlen t f
  obtain ⟨l₂, h₂, hl₂⟩ := Returns.foldlM (V := fun l v => Agrees l v) (g := Native.round mv)
    (fun _ _ r h => hm.round h r) (List.range rounds.toNat) hl₁
  let out := Native.blake2b_compress_any rounds hv mv t (f ≠ 0)
  have hwords := Except.mapM_eq_ok
    (hh.output hl₂ out fun i hi => by simp [out, Native.blake2b_compress_any])
  have hpack : ((List.range 8).map fun i => (out.getD i 0).toNat).mapM Reference.packWord =
      .ok (((List.range 8).map fun i => (out.getD i 0).toNat).map bytesOf) := by
    refine Except.mapM_eq_ok fun x hx => ?_
    obtain ⟨i, -, rfl⟩ := List.mem_map.1 hx
    exact packWord_toNat _
  rw [Reference.compress, Except.bind_of_eq_ok h₁, Except.bind_of_eq_ok h₂,
    Except.bind_of_eq_ok hwords, Except.bind_of_eq_ok hpack, List.map_map, ofFn_hostByte]
  rfl

/-! ## The whole function -/

/-- The bytes `ffi.c` reads through its pointer are those of the slice. -/
theorem slice_eq_map (d : ByteArray) (start n : ℕ) (h : start + n ≤ d.size) :
    Reference.slice d.data.toList start (start + n) =
      (List.range n).map fun j => d.get! (start + j) := by
  have hlen : d.data.toList.length = d.size := rfl
  refine List.ext_getElem ?_ fun j h₁ h₂ => ?_
  · simp only [Reference.slice, List.length_take, List.length_drop, List.length_map,
      List.length_range, hlen]
    omega
  · have hj : start + j < d.data.size := by
      have hj' : j < n := by simpa using h₂
      exact lt_of_lt_of_le (by omega) h
    have hget : d.get! (start + j) = d.data[start + j] := getElem!_pos d.data _ hj
    simp [Reference.slice, hget]

/-- Both sides read the same words. -/
theorem readWords_agrees (d : ByteArray) (start n : ℕ) (h : start + n * 8 ≤ d.size) :
    Agrees (Reference.spit_le_to_uint d.data.toList start n)
      (Native.readWords (fun i => d.get! i) start n) := by
  intro i hi
  have hs : start + i * 8 + 8 ≤ d.size := by nlinarith
  simp only [Reference.spit_le_to_uint, List.getElem?_map, List.getElem?_range hi, Option.map_some,
    Native.readWords, Vector.getElem_ofFn, readWord_toNat, slice_eq_map d _ _ hs]

/-- The last byte, as the reference reads it. -/
theorem flag_eq (d : ByteArray) (hsize : d.size = 213) :
    fromBytes' (d.data.toList.drop 212).reverse = (d.get! 212).toNat := by
  have hslice := slice_eq_map d 212 1 (by omega)
  have hdrop : d.data.toList.drop 212 = Reference.slice d.data.toList 212 213 := by
    have hlen : d.data.toList.length = 213 := hsize
    rw [Reference.slice, List.take_of_length_le]
    simp only [List.length_drop, hlen]
    omega
  rw [hdrop, hslice]
  simp [fromBytes']

theorem size_blake2compressb64 (d : ByteArray) : (Native.blake2compressb64 d).size = 64 :=
  Array.size_ofFn

/-- The flags the two programs accept. -/
theorem flag_mem_iff (b : UInt8) : b ∈ [0, 1].map Nat.toUInt8 ↔ b.toNat ∈ [0, 1] := by
  simp [← UInt8.toNat_inj]

/-- The guard lets an input of the right size and flag through. -/
theorem BLAKE2_eq_ok (d : ByteArray) (hsize : d.size = 213) (hflag : (d.get! 212).toNat ∈ [0, 1]) :
    ffi.BLAKE2 d = .ok (Native.blake2compressb64 d) := by
  rw [← flag_mem_iff] at hflag
  simp only [ffi.BLAKE2, hsize, hflag, ne_eq, not_true_eq_false, if_false]
  rfl

/-- The reference program, on an input of the right size and flag. -/
theorem blake2_f_eq_ok (d : ByteArray) (hsize : d.size = 213)
    (hflag : (d.get! 212).toNat ∈ [0, 1]) :
    Reference.blake2_f d.data.toList = .ok (Native.blake2compressb64 d).data.toList := by
  have hlen : d.data.toList.length = 213 := hsize
  have hh := readWords_agrees d 4 8 (by omega)
  have hm := readWords_agrees d 68 16 (by omega)
  have ht := readWords_agrees d 196 2 (by omega)
  have hrounds : fromBytes' (d.data.toList.take 4).reverse =
      (Native.readRounds fun i => d.get! i).toNat := by
    have htake := slice_eq_map d 0 4 (by omega)
    simp only [Nat.zero_add] at htake
    rw [readRounds_toNat, ← htake]
    rfl
  have hf : decide ((d.get! 212).toNat ≠ 0) = decide (d.get! 212 ≠ 0) := by
    simp [← UInt8.toNat_inj]
  simp only [Reference.blake2_f, hlen, flag_eq d hsize, hflag, hrounds, ne_eq, not_true_eq_false,
    if_false]
  refine (Except.bind_of_eq_ok (ht.load 0) _).trans ?_
  refine (Except.bind_of_eq_ok (ht.load 1) _).trans ?_
  refine (compress_agrees hh (by simp [Reference.spit_le_to_uint]) hm _ _ _).trans ?_
  rw [hf, Native.blake2compressb64, Array.toList_ofFn]

/-- **The native BLAKE2 is the specified one.**  On 213 bytes that end in `0` or
`1`, whatever the round count, the chaining values, the message and the
counters, the native function returns 64 bytes, and the reference program
returns the same 64. -/
theorem blake2compressb64_agrees (d : ByteArray) (hsize : d.size = 213)
    (hflag : d.get! 212 = 0 ∨ d.get! 212 = 1) :
    ffi.BLAKE2 d = .ok (Native.blake2compressb64 d) ∧
      (Native.blake2compressb64 d).size = 64 ∧
      Reference.blake2_f d.data.toList = .ok (Native.blake2compressb64 d).data.toList := by
  have hmem : (d.get! 212).toNat ∈ [0, 1] := by rcases hflag with h | h <;> simp [h]
  exact ⟨BLAKE2_eq_ok d hsize hmem, size_blake2compressb64 d, blake2_f_eq_ok d hsize hmem⟩

/-- Twelve rounds on the bytes `1`, `2`, …, `208`, with the final flag set: no two
words of the chaining value, the message and the counters are the same. -/
def countingBlock : ByteArray :=
  ⟨#[0, 0, 0, 12] ++ ((Array.range 208).map fun i => UInt8.ofNat (i + 1)).push 1⟩

theorem blake2compressb64_agrees_countingBlock :
    ffi.BLAKE2 countingBlock = .ok (Native.blake2compressb64 countingBlock) ∧
      (Native.blake2compressb64 countingBlock).size = 64 ∧
      Reference.blake2_f countingBlock.data.toList =
        .ok (Native.blake2compressb64 countingBlock).data.toList :=
  blake2compressb64_agrees countingBlock (by decide +kernel) (.inr (by decide +kernel))

end Blake2
end EvmYul
