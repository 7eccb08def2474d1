import EvmModel.Rlp

/-!
# Byte arrays as maps

A byte array stands for a map from positions to bytes that is zero beyond its
end.  What the reads and writes of `EvmYul/Wheels.lean` do is said here in terms
of that map: the zeroes they pad with, and the bytes they leave out, cannot be
told from it.

* `byteAt` — the map;
* `size_write_le` — how far a write reaches;
* `byteAt_write` — a write changes the bytes it is about, and no others;
* `toList_readWithPadding` — a read gives the bytes that are there.
-/

namespace EvmYul

/-! ## How far a write reaches -/

theorem size_zeroes_le (n : ℕ) : (zeroes n).size ≤ n := by
  rw [← ByteArray.size_data, zeroes, Array.size_replicate]
  exact Nat.mod_le n _

theorem size_copySlice_le (src : ByteArray) (srcOff : ℕ) (dest : ByteArray) (destOff len : ℕ) :
    (src.copySlice srcOff dest destOff len).size ≤ max dest.size (destOff + len) := by
  simp only [← ByteArray.size_data, ByteArray.copySlice, Array.size_append, Array.size_extract]
  omega

theorem write_zero (source : ByteArray) (sourceAddr : ℕ) (dest : ByteArray) (destAddr : ℕ) :
    write source sourceAddr dest destAddr 0 = dest := if_pos rfl

/-- A write reaches no further than its end. -/
theorem size_write_le (source : ByteArray) (sourceAddr : ℕ) (dest : ByteArray) (destAddr : ℕ)
    {len : ℕ} (hlen : len ≠ 0) :
    (write source sourceAddr dest destAddr len).size ≤ max dest.size (destAddr + len) := by
  unfold write
  rw [if_neg hlen]
  split
  · refine (size_copySlice_le _ _ _ _ _).trans ?_
    omega
  · refine (size_copySlice_le _ _ _ _ _).trans ?_
    have hpadding := size_zeroes_le (destAddr - dest.size)
    rw [ByteArray.size_append]
    omega

/-! ## Bytes -/

/-- The byte at `k`; beyond its end an array is zero. -/
def byteAt (b : ByteArray) (k : ℕ) : UInt8 := (getByte? b k).getD 0

theorem byteAt_of_le {b : ByteArray} {k : ℕ} (h : b.size ≤ k) : byteAt b k = 0 := by
  rw [byteAt, getByte?, Array.getElem?_eq_none (by simpa using h)]
  rfl

theorem byteAt_append (a b : ByteArray) (k : ℕ) :
    byteAt (a ++ b) k = if k < a.size then byteAt a k else byteAt b (k - a.size) := by
  unfold byteAt getByte?
  rw [ByteArray.data_append, Array.getElem?_append, ByteArray.size_data]
  split <;> rfl

theorem byteAt_extract (a : ByteArray) (b e k : ℕ) :
    byteAt (a.extract b e) k = if b + k < e then byteAt a (b + k) else 0 := by
  unfold byteAt getByte?
  rw [ByteArray.data_extract, Array.getElem?_extract, ByteArray.size_data]
  by_cases h : k < min e a.size - b
  · rw [if_pos h, if_pos (by omega)]
  · rw [if_neg h]
    split
    · rw [Array.getElem?_eq_none (by rw [ByteArray.size_data]; omega)]
    · rfl

theorem byteAt_zeroes (n k : ℕ) : byteAt (zeroes n) k = 0 := by
  unfold byteAt getByte? zeroes
  rw [Array.getElem?_replicate]
  split <;> rfl

theorem byteAt_copySlice (src : ByteArray) (srcOff : ℕ) (dest : ByteArray) {destOff len : ℕ}
    (hdest : destOff ≤ dest.size) (hsrc : srcOff + len ≤ src.size) (k : ℕ) :
    byteAt (src.copySlice srcOff dest destOff len) k =
      if destOff ≤ k ∧ k < destOff + len then byteAt src (srcOff + (k - destOff))
      else byteAt dest k := by
  have hlen : min len (src.data.size - srcOff) = len := by
    rw [ByteArray.size_data]
    omega
  rw [ByteArray.copySlice_eq_append, hlen, byteAt_append, byteAt_append, byteAt_extract,
    byteAt_extract, byteAt_extract, ByteArray.size_append, ByteArray.size_extract,
    ByteArray.size_extract]
  have hhead : min destOff dest.size - 0 = destOff := by omega
  have hmid : min (srcOff + len) src.size - srcOff = len := by omega
  rw [hhead, hmid]
  by_cases hk : k < destOff + len
  · rw [if_pos hk]
    by_cases hlt : k < destOff
    · rw [if_pos hlt, if_pos (by omega), if_neg (by omega), Nat.zero_add]
    · rw [if_neg hlt, if_pos (by omega), if_pos (by omega)]
  · have hout : ¬(destOff ≤ k ∧ k < destOff + len) := by omega
    have hpos : destOff + len + (k - (destOff + len)) = k := by omega
    rw [if_neg hk, if_neg hout, hpos, ByteArray.size_data]
    split
    · rfl
    next hle => exact (byteAt_of_le (not_lt.1 hle)).symm

/-- **A write is a write of bytes**: those from the source where the write is, and
the others as before. -/
theorem byteAt_write (source : ByteArray) (sourceAddr : ℕ) {dest : ByteArray} {destAddr len : ℕ}
    (hdest : dest.size < 2 ^ 64) (hend : len ≠ 0 → destAddr + len < 2 ^ 64) (k : ℕ) :
    byteAt (write source sourceAddr dest destAddr len) k =
      if destAddr ≤ k ∧ k < destAddr + len then byteAt source (sourceAddr + (k - destAddr))
      else byteAt dest k := by
  unfold write
  by_cases hlen : len = 0
  · rw [if_pos hlen, if_neg (by omega)]
  rw [if_neg hlen]
  have hend := hend hlen
  by_cases hsource : source.size ≤ sourceAddr
  · -- nothing to copy: zeroes, as far as the memory goes
    rw [if_pos hsource]
    dsimp only
    have hzeroes : (zeroes (min len (dest.size - destAddr))).size =
        min len (dest.size - destAddr) := size_zeroes (by omega)
    rw [byteAt_copySlice _ _ _ (min_le_right _ _) (by omega), byteAt_zeroes]
    by_cases hk : destAddr ≤ k ∧ k < destAddr + len
    · rw [if_pos hk, byteAt_of_le (b := source) (by omega)]
      split
      · rfl
      · exact byteAt_of_le (by omega)
    · rw [if_neg hk, if_neg (by omega)]
  · rw [if_neg hsource]
    dsimp only
    have hpadding : ∀ n, n ≤ dest.size ∨ n ≤ destAddr → (zeroes n).size = n :=
      fun n hn => size_zeroes (by omega)
    have hpad := hpadding (min dest.size (destAddr + len) -
      (destAddr + min len (source.size - sourceAddr))) (by omega)
    have hfill := hpadding (destAddr - dest.size) (by omega)
    rw [byteAt_copySlice _ _ _ (by rw [ByteArray.size_append, hfill]; omega)
      (by rw [ByteArray.size_append, hpad]; omega), byteAt_append, byteAt_append, byteAt_zeroes,
      byteAt_zeroes]
    by_cases hk : destAddr ≤ k ∧ k < destAddr + len
    · rw [if_pos hk]
      by_cases hin : k < destAddr + (min len (source.size - sourceAddr))
      · rw [if_pos (by omega), if_pos (by omega)]
      · rw [byteAt_of_le (b := source) (by omega)]
        split
        · split <;> rfl
        · split
          · exact byteAt_of_le (by omega)
          · rfl
    · rw [if_neg hk, if_neg (by omega)]
      split
      · rfl
      next hle => exact (byteAt_of_le (not_lt.1 hle)).symm

/-! ## Words -/

/-- The word in big-endian order at `a`. -/
def wordAt (bytes : ℕ → UInt8) (a : ℕ) : UInt256 :=
  .ofNat (fromBytes' ((List.range 32).map fun i => bytes (a + i)).reverse)

theorem wordAt_congr {bytes bytes' : ℕ → UInt8} {a a' : ℕ}
    (h : ∀ i < 32, bytes (a + i) = bytes' (a' + i)) : wordAt bytes a = wordAt bytes' a' := by
  unfold wordAt
  rw [List.map_congr_left fun i hi => h i (List.mem_range.1 hi)]

theorem toList_eq_map_byteAt (b : ByteArray) :
    b.data.toList = (List.range b.size).map (byteAt b) := by
  refine List.ext_getElem (by simp) fun i h₁ h₂ => ?_
  simp only [List.getElem_map, List.getElem_range, byteAt, getByte?, Array.getElem_toList]
  rw [Array.getElem?_eq_getElem (by simpa using h₁)]
  rfl

/-- Reading gives the bytes that are there. -/
theorem toList_readWithPadding (b : ByteArray) (a : ℕ) {n : ℕ} (hn : n < 2 ^ 64) :
    (readWithPadding b a n).data.toList = (List.range n).map fun i => byteAt b (a + i) := by
  have hle : (readWithoutPadding b a n).size ≤ n := by
    rw [size_readWithoutPadding]
    omega
  have hsize : (readWithPadding b a n).size = n := by
    rw [readWithPadding, if_neg (not_le.2 hn), ByteArray.size_append, size_zeroes (by omega)]
    omega
  rw [toList_eq_map_byteAt, hsize]
  refine List.map_congr_left fun i hi => ?_
  have hi := List.mem_range.1 hi
  rw [readWithPadding, if_neg (not_le.2 hn), byteAt_append, byteAt_zeroes]
  split
  next hlt =>
    unfold readWithoutPadding at hlt ⊢
    split
    next hout => rw [if_pos hout] at hlt; exact absurd hlt (Nat.not_lt_zero _)
    next hin =>
      rw [if_neg hin, ByteArray.size_extract] at hlt
      rw [byteAt_extract, if_pos (by omega)]
  next hge =>
    rw [size_readWithoutPadding] at hge
    exact (byteAt_of_le (by omega)).symm

end EvmYul
