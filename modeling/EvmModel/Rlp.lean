import EvmModel.Bytes

/-!
# Reading recursive length prefix

The decoder of `EvmYul/Wheels.lean`.  An encoding says itself where it ends, so
the decoder finds the items of a list one after the other, and reads back the
tree that was written, whatever comes after it.

* `lengthRLP`, `separateListRLP`, `oneStepRLP`, `deserializeRLP` — the decoder;
* `Framed` — how the encoder frames an item;
* `RLP_of_bound_lt` — what is not of astronomic size has an encoding;
* `deserializeRLP_RLP` — the decoder reads what the encoder wrote.
-/

namespace EvmYul

/-! ## Parts of a byte array -/

theorem readWithoutPadding_left (a b : ByteArray) : readWithoutPadding (a ++ b) 0 a.size = a := by
  unfold readWithoutPadding
  split
  next h =>
    rw [ByteArray.size_append] at h
    exact (ByteArray.size_eq_zero_iff.1 (by omega)).symm
  · rw [ByteArray.size_append, Nat.min_eq_left (Nat.le_add_right _ _), Nat.zero_add]
    exact ByteArray.extract_append_eq_left rfl

theorem readWithoutPadding_right (a b : ByteArray) {n : ℕ} (h : b.size ≤ n) :
    readWithoutPadding (a ++ b) a.size n = b := by
  unfold readWithoutPadding
  split
  next hsize =>
    rw [ByteArray.size_append] at hsize
    exact (ByteArray.size_eq_zero_iff.1 (by omega)).symm
  · have hmax : min n (a ++ b).size = max (min n (a ++ b).size) b.size := by
      rw [ByteArray.size_append]
      omega
    rw [hmax, ← Nat.add_zero a.size, Nat.add_assoc, ByteArray.extract_append_size_add, Nat.zero_add,
      ByteArray.extract_zero_max_size]

theorem readWithoutPadding_mid (a b c : ByteArray) :
    readWithoutPadding (a ++ (b ++ c)) a.size b.size = b := by
  unfold readWithoutPadding
  split
  next h =>
    simp only [ByteArray.size_append] at h
    exact (ByteArray.size_eq_zero_iff.1 (by omega)).symm
  · have hmin : min b.size (a ++ (b ++ c)).size = b.size := by
      simp only [ByteArray.size_append]
      omega
    rw [hmin, ← Nat.add_zero a.size, Nat.add_assoc, ByteArray.extract_append_size_add, Nat.zero_add]
    exact ByteArray.extract_append_eq_left rfl

theorem size_readWithoutPadding (a : ByteArray) (addr len : ℕ) :
    (readWithoutPadding a addr len).size = min len (a.size - addr) := by
  unfold readWithoutPadding
  split
  · rw [ByteArray.size_empty]
    omega
  · rw [ByteArray.size_extract]
    omega

/-! ## The decoder -/

/-- How long the first item is. -/
def lengthRLP (rlp : ByteArray) : Option ℕ :=
  let len := rlp.size
  if len = 0 then none
  else
    let rlp₀ := rlp.get! 0
    if rlp₀ ≤ 0x7f then some 1
    else
      let strLen := rlp₀.toNat - 0x80
      if rlp₀ ≤ 0xb7 ∧ strLen < len then some (1 + strLen)
      else
        let lenOfStrLen := rlp₀.toNat - 0xb7
        if rlp₀ ≤ 0xbf ∧ lenOfStrLen + strLen < len then
          let strLen := fromByteArrayBigEndian (readWithoutPadding rlp 1 lenOfStrLen)
          some (1 + lenOfStrLen + strLen)
        else
          let listLen := rlp₀.toNat - 0xc0
          if rlp₀ ≤ 0xf7 ∧ listLen < len then some (1 + listLen)
          else
            let lenOfListLen := rlp₀.toNat - 0xf7
            let listLen := fromByteArrayBigEndian (readWithoutPadding rlp 1 lenOfListLen)
            if lenOfListLen + listLen < len then some (1 + lenOfListLen + listLen) else none

/-- What the first bytes say about an item: whether it is a list, where its
contents start, and how long they are. -/
structure Head where
  isList : Bool
  offset : ℕ
  len : ℕ

/-- The head of an item, which `lengthRLP` and `oneStepRLP` read alike. -/
def headRLP (rlp : ByteArray) : Option Head :=
  let n := (rlp.get! 0).toNat
  if rlp.size = 0 then none
  else if n ≤ 127 then some ⟨false, 0, 1⟩
  else if n ≤ 183 ∧ n - 128 < rlp.size then some ⟨false, 1, n - 128⟩
  else if n ≤ 191 ∧ n - 183 + (n - 128) < rlp.size then
    some ⟨false, 1 + (n - 183), fromByteArrayBigEndian (readWithoutPadding rlp 1 (n - 183))⟩
  else if n ≤ 247 ∧ n - 192 < rlp.size then some ⟨true, 1, n - 192⟩
  else
    let listLen := fromByteArrayBigEndian (readWithoutPadding rlp 1 (n - 247))
    if n - 247 + listLen < rlp.size then some ⟨true, 1 + (n - 247), listLen⟩ else none

theorem lengthRLP_eq (rlp : ByteArray) :
    lengthRLP rlp = (headRLP rlp).map fun h => h.offset + h.len := by
  unfold lengthRLP headRLP
  simp only [UInt8.le_iff_toNat_le, UInt8.reduceToNat]
  split_ifs <;> rfl

/-- An item that takes no bytes has no head. -/
theorem headRLP_pos {rlp : ByteArray} {h : Head} (hh : headRLP rlp = some h) :
    0 < h.offset + h.len ∧ (h.isList = true → 0 < h.offset) := by
  unfold headRLP at hh
  dsimp only at hh
  split_ifs at hh
  all_goals
    cases hh
    simp

theorem lengthRLP_pos {rlp : ByteArray} {headLen : ℕ} (h : lengthRLP rlp = some headLen) :
    0 < headLen := by
  rw [lengthRLP_eq] at h
  obtain ⟨head, hhead, rfl⟩ := Option.map_eq_some_iff.1 h
  exact (headRLP_pos hhead).1

/-- The items of a list, one after the other. -/
def separateListRLP (rlp : ByteArray) : Option (List ByteArray) :=
  if rlp.size = 0 then some []
  else
    match _hlen : lengthRLP rlp with
    | none => none
    | some headLen =>
      (separateListRLP (readWithoutPadding rlp headLen rlp.size)).map
        (readWithoutPadding rlp 0 headLen :: ·)
termination_by rlp.size
decreasing_by
  have hpos := lengthRLP_pos _hlen
  rw [size_readWithoutPadding]
  omega

theorem size_of_mem_separateListRLP {rlp : ByteArray} {items : List ByteArray}
    (h : separateListRLP rlp = some items) : ∀ x ∈ items, x.size ≤ rlp.size := by
  fun_induction separateListRLP rlp generalizing items with
  | case1 rlp _ =>
    cases h
    simp
  | case2 => cases h
  | case3 rlp _ _ _ ih =>
    obtain ⟨rest, hrest, rfl⟩ := Option.map_eq_some_iff.1 h
    intro x hx
    rcases List.mem_cons.1 hx with rfl | hx
    · rw [size_readWithoutPadding]
      omega
    · have hle := ih hrest x hx
      rw [size_readWithoutPadding] at hle
      omega

/-- The bytes of a string, or the items of a list. -/
def oneStepRLP (rlp : ByteArray) : Option (ByteArray ⊕ List ByteArray) :=
  let len := rlp.size
  if len = 0 then none
  else
    let rlp₀ := rlp.get! 0
    if rlp₀ ≤ 0x7f then some (.inl ⟨#[rlp₀]⟩)
    else
      let strLen := rlp₀.toNat - 0x80
      if rlp₀ ≤ 0xb7 ∧ strLen < len then some (.inl (readWithoutPadding rlp 1 strLen))
      else
        let lenOfStrLen := rlp₀.toNat - 0xb7
        if rlp₀ ≤ 0xbf ∧ lenOfStrLen + strLen < len then
          let strLen := fromByteArrayBigEndian (readWithoutPadding rlp 1 lenOfStrLen)
          some (.inl (readWithoutPadding rlp (1 + lenOfStrLen) strLen))
        else
          let listLen := rlp₀.toNat - 0xc0
          if rlp₀ ≤ 0xf7 ∧ listLen < len then
            (separateListRLP (readWithoutPadding rlp 1 listLen)).map .inr
          else
            let lenOfListLen := rlp₀.toNat - 0xf7
            let listLen := fromByteArrayBigEndian (readWithoutPadding rlp 1 lenOfListLen)
            if lenOfListLen + listLen < len then
              (separateListRLP (readWithoutPadding rlp (1 + lenOfListLen) listLen)).map .inr
            else none

theorem readWithoutPadding_zero_one {rlp : ByteArray} (h : rlp.size ≠ 0) :
    readWithoutPadding rlp 0 1 = ⟨#[rlp.get! 0]⟩ := by
  obtain ⟨⟨data⟩⟩ := rlp
  cases data with
  | nil => exact absurd rfl h
  | cons b bs => exact readWithoutPadding_left ⟨#[b]⟩ ⟨⟨bs⟩⟩

theorem oneStepRLP_eq (rlp : ByteArray) :
    oneStepRLP rlp = (headRLP rlp).bind fun h =>
      let contents := readWithoutPadding rlp h.offset h.len
      if h.isList then (separateListRLP contents).map .inr else some (.inl contents) := by
  unfold oneStepRLP headRLP
  simp only [UInt8.le_iff_toNat_le, UInt8.reduceToNat]
  split_ifs with hsize
  · rfl
  · rw [← readWithoutPadding_zero_one hsize]
    rfl
  all_goals rfl

theorem size_of_mem_oneStepRLP {rlp : ByteArray} {items : List ByteArray}
    (h : oneStepRLP rlp = some (.inr items)) : ∀ x ∈ items, x.size < rlp.size := by
  rw [oneStepRLP_eq] at h
  obtain ⟨head, hhead, h⟩ := Option.bind_eq_some_iff.1 h
  dsimp only at h
  split at h
  next hlist =>
    obtain ⟨items', hitems, hinr⟩ := Option.map_eq_some_iff.1 h
    cases hinr
    intro x hx
    have hle := size_of_mem_separateListRLP hitems x hx
    have hpos := (headRLP_pos hhead).2 hlist
    have hsize : rlp.size ≠ 0 := by
      intro hzero
      simp [headRLP, hzero] at hhead
    rw [size_readWithoutPadding] at hle
    omega
  · cases h

def deserializeRLP (rlp : ByteArray) : Option 𝕋 :=
  match _h : oneStepRLP rlp with
  | none => none
  | some (.inl byteArray) => some (.𝔹 byteArray)
  | some (.inr list) => (list.attach.mapM fun x => deserializeRLP x.1).map .𝕃
termination_by rlp.size
decreasing_by exact size_of_mem_oneStepRLP _h x.1 x.2

theorem deserializeRLP_eq (rlp : ByteArray) :
    deserializeRLP rlp = (oneStepRLP rlp).bind fun
      | .inl byteArray => some (.𝔹 byteArray)
      | .inr list => (list.mapM deserializeRLP).map .𝕃 := by
  rw [deserializeRLP]
  split
  next h => rw [h]; rfl
  next h => rw [h]; rfl
  next list h =>
    rw [h]
    simp

/-! ## Frames -/

/-- `b` is the frame of a string, or of the encodings of the items of a list. -/
inductive Framed : ByteArray ⊕ ByteArray → ByteArray → Prop
  | single {x : ByteArray} (hx : x.size = 1) (hlt : x.get! 0 < 128) : Framed (.inl x) x
  | string {x : ByteArray} (hx : x.size < 56) : Framed (.inl x) (byte (128 + x.size) ++ x)
  | longString {x : ByteArray} (hle : 56 ≤ x.size) (hlt : x.size < 2 ^ 64) :
      Framed (.inl x) (byte (183 + (BE x.size).size) ++ BE x.size ++ x)
  | list {s : ByteArray} (hs : s.size < 56) : Framed (.inr s) (byte (192 + s.size) ++ s)
  | longList {s : ByteArray} (hle : 56 ≤ s.size) (hlt : s.size < 2 ^ 64) :
      Framed (.inr s) (byte (247 + (BE s.size).size) ++ BE s.size ++ s)

theorem R_b_framed {x b : ByteArray} (h : R_b x = some b) : Framed (.inl x) b := by
  unfold R_b at h
  split at h
  next hx =>
    cases h
    exact .single hx.1 hx.2
  · split at h
    next hx =>
      cases h
      exact .string hx
    next hle =>
      split at h
      next hlt =>
        cases h
        exact .longString (not_lt.1 hle) hlt
      · cases h

theorem R_l_framed {s b : ByteArray} (h : R_l s = some b) : Framed (.inr s) b := by
  unfold R_l at h
  split at h
  next hs =>
    cases h
    exact .list hs
  next hle =>
    split at h
    next hlt =>
      cases h
      exact .longList (not_lt.1 hle) hlt
    · cases h

@[simp] theorem size_byte (n : ℕ) : (byte n).size = 1 := rfl

theorem get!_append_zero {a : ByteArray} (h : a.size ≠ 0) (b : ByteArray) :
    (a ++ b).get! 0 = a.get! 0 := by
  obtain ⟨⟨data⟩⟩ := a
  cases data with
  | nil => exact absurd rfl h
  | cons x xs => simp [ByteArray.get!]

theorem head_byte {n : ℕ} (hn : n < 256) (x : ByteArray) : ((byte n ++ x).get! 0).toNat = n := by
  rw [get!_append_zero (by simp)]
  exact UInt8.toNat_ofNat_of_lt' hn

theorem fromByteArrayBigEndian_BE (n : ℕ) : fromByteArrayBigEndian (BE n) = n := by
  rw [fromByteArrayBigEndian, toList_BE, List.reverse_reverse, fromBytes'_toBytes']

theorem size_BE (n : ℕ) : (BE n).size = (toBytes' n).length := by
  rw [← ByteArray.size_data, ← Array.length_toList, toList_BE, List.length_reverse]

/-- The length of a long string takes from one to eight bytes, and there is more
to come than a reader of the first byte alone could think. -/
theorem size_BE_long {n : ℕ} (hle : 56 ≤ n) (hlt : n < 2 ^ 64) :
    0 < (BE n).size ∧ (BE n).size ≤ 8 ∧ (BE n).size + 54 < n := by
  have hpos : 0 < (BE n).size := by
    rw [size_BE, toBytes', if_neg (by omega)]
    exact Nat.succ_pos _
  have height : (BE n).size ≤ 8 := by
    rw [size_BE]
    exact length_toBytes'_le hlt
  refine ⟨hpos, height, ?_⟩
  by_cases hone : n < 2 ^ 8
  · have hle1 : (BE n).size ≤ 1 := by
      rw [size_BE]
      exact length_toBytes'_le hone
    omega
  · omega

/-! ## What can be encoded -/

mutual

/-- How long the encoding of a tree can be: nine bytes for the prefix of each of
its nodes, and the bytes of its strings. -/
def 𝕋.bound : 𝕋 → ℕ
  | .𝔹 x => 9 + x.size
  | .𝕃 l => 9 + 𝕋.bounds l

def 𝕋.bounds : List 𝕋 → ℕ
  | [] => 0
  | t :: ts => t.bound + 𝕋.bounds ts

end

theorem Framed.size_le {p : ByteArray ⊕ ByteArray} {b : ByteArray} (h : Framed p b) :
    b.size ≤ 9 + p.elim ByteArray.size ByteArray.size := by
  cases h with
  | single => exact Nat.le_add_left _ _
  | string | list =>
    rw [ByteArray.size_append, size_byte]
    exact Nat.add_le_add_right (by omega) _
  | longString hle hlt | longList hle hlt =>
    obtain ⟨-, height, -⟩ := size_BE_long hle hlt
    rw [ByteArray.size_append, ByteArray.size_append, size_byte]
    exact Nat.add_le_add_right (by omega) _

theorem R_b_of_lt {x : ByteArray} (h : x.size < 2 ^ 64) :
    ∃ b, R_b x = some b ∧ b.size ≤ 9 + x.size := by
  have hsome : ∃ b, R_b x = some b := by
    unfold R_b
    rw [if_pos h]
    split
    · exact ⟨_, rfl⟩
    · split
      · exact ⟨_, rfl⟩
      · exact ⟨_, rfl⟩
  obtain ⟨b, hb⟩ := hsome
  exact ⟨b, hb, (R_b_framed hb).size_le⟩

theorem R_l_of_lt {s : ByteArray} (h : s.size < 2 ^ 64) :
    ∃ b, R_l s = some b ∧ b.size ≤ 9 + s.size := by
  have hsome : ∃ b, R_l s = some b := by
    unfold R_l
    rw [if_pos h]
    split
    · exact ⟨_, rfl⟩
    · exact ⟨_, rfl⟩
  obtain ⟨b, hb⟩ := hsome
  exact ⟨b, hb, (R_l_framed hb).size_le⟩

mutual

/-- **A tree that is not of astronomic size has an encoding.** -/
theorem RLP_of_bound_lt : ∀ t : 𝕋, t.bound < 2 ^ 64 → ∃ b, RLP t = some b ∧ b.size ≤ t.bound
  | .𝔹 x, h => by
    rw [𝕋.bound] at h ⊢
    rw [RLP]
    exact R_b_of_lt (by omega)
  | .𝕃 l, h => by
    rw [𝕋.bound] at h ⊢
    obtain ⟨s, hs, hle⟩ := RLP_s_of_bounds_lt l (by omega)
    obtain ⟨b, hb, hle'⟩ := R_l_of_lt (s := s) (by omega)
    rw [RLP, hs]
    exact ⟨b, hb, hle'.trans (Nat.add_le_add_left hle 9)⟩

theorem RLP_s_of_bounds_lt : ∀ l : List 𝕋, 𝕋.bounds l < 2 ^ 64 →
    ∃ s, RLP.s l = some s ∧ s.size ≤ 𝕋.bounds l
  | [], _ => ⟨.empty, rfl, Nat.zero_le _⟩
  | t :: ts, h => by
    rw [𝕋.bounds] at h ⊢
    obtain ⟨b, hb, hle⟩ := RLP_of_bound_lt t (by omega)
    obtain ⟨s, hs, hle'⟩ := RLP_s_of_bounds_lt ts (by omega)
    refine ⟨b ++ s, by rw [RLP.s, hb, hs], ?_⟩
    rw [ByteArray.size_append]
    exact Nat.add_le_add hle hle'

end

/-- The contents of a frame, whatever comes after it. -/
theorem Framed.head {p : ByteArray ⊕ ByteArray} {b : ByteArray} (h : Framed p b) (rest : ByteArray) :
    ∃ head, headRLP (b ++ rest) = some head ∧ head.isList = p.isRight ∧
      head.offset + head.len = b.size ∧
      readWithoutPadding (b ++ rest) head.offset head.len = p.elim id id := by
  cases h with
  | single hx hlt =>
    have hn : ((b ++ rest).get! 0).toNat ≤ 127 := by
      rw [get!_append_zero (by omega)]
      exact Nat.le_of_lt_succ (UInt8.lt_iff_toNat_lt.1 hlt)
    refine ⟨⟨false, 0, 1⟩, ?_, rfl, ?_, ?_⟩
    · rw [headRLP, ByteArray.size_append, if_neg (by omega), if_pos hn]
    · simp [hx]
    · have hleft := readWithoutPadding_left b rest
      rwa [hx] at hleft
  | @string x hx =>
    have hn := head_byte (n := 128 + x.size) (by omega) (x ++ rest)
    refine ⟨⟨false, 1, x.size⟩, ?_, rfl, ?_, ?_⟩
    · simp only [ByteArray.append_assoc, headRLP, hn, ByteArray.size_append, size_byte]
      rw [if_neg (by omega), if_neg (by omega), if_pos (by omega), Nat.add_sub_cancel_left]
    · simp
    · rw [ByteArray.append_assoc]
      exact readWithoutPadding_mid (byte _) x rest
  | @longString x hle hlt =>
    obtain ⟨hpos, height, hmore⟩ := size_BE_long hle hlt
    have hn := head_byte (n := 183 + (BE x.size).size) (by omega) (BE x.size ++ (x ++ rest))
    have hlen := readWithoutPadding_mid (byte (183 + (BE x.size).size)) (BE x.size) (x ++ rest)
    rw [size_byte] at hlen
    refine ⟨⟨false, 1 + (BE x.size).size, x.size⟩, ?_, rfl, ?_, ?_⟩
    · simp only [ByteArray.append_assoc, headRLP, hn, ByteArray.size_append, size_byte,
        Nat.add_sub_cancel_left, hlen, fromByteArrayBigEndian_BE]
      rw [if_neg (by omega), if_neg (by omega), if_neg (by omega), if_pos (by omega)]
    · simp
    · rw [ByteArray.append_assoc]
      have hmid := readWithoutPadding_mid (byte (183 + (BE x.size).size) ++ BE x.size) x rest
      rwa [ByteArray.size_append, size_byte] at hmid
  | @list s hs =>
    have hn := head_byte (n := 192 + s.size) (by omega) (s ++ rest)
    refine ⟨⟨true, 1, s.size⟩, ?_, rfl, ?_, ?_⟩
    · simp only [ByteArray.append_assoc, headRLP, hn, ByteArray.size_append, size_byte]
      rw [if_neg (by omega), if_neg (by omega), if_neg (by omega), if_neg (by omega),
        if_pos (by omega), Nat.add_sub_cancel_left]
    · simp
    · rw [ByteArray.append_assoc]
      exact readWithoutPadding_mid (byte _) s rest
  | @longList s hle hlt =>
    obtain ⟨hpos, height, -⟩ := size_BE_long hle hlt
    have hn := head_byte (n := 247 + (BE s.size).size) (by omega) (BE s.size ++ (s ++ rest))
    have hlen := readWithoutPadding_mid (byte (247 + (BE s.size).size)) (BE s.size) (s ++ rest)
    rw [size_byte] at hlen
    refine ⟨⟨true, 1 + (BE s.size).size, s.size⟩, ?_, rfl, ?_, ?_⟩
    · simp only [ByteArray.append_assoc, headRLP, hn, ByteArray.size_append, size_byte,
        Nat.add_sub_cancel_left, hlen, fromByteArrayBigEndian_BE]
      rw [if_neg (by omega), if_neg (by omega), if_neg (by omega), if_neg (by omega),
        if_neg (by omega), if_pos (by omega)]
    · simp
    · rw [ByteArray.append_assoc]
      have hmid := readWithoutPadding_mid (byte (247 + (BE s.size).size) ++ BE s.size) s rest
      rwa [ByteArray.size_append, size_byte] at hmid

/-- A frame says itself where it ends. -/
theorem Framed.lengthRLP {p : ByteArray ⊕ ByteArray} {b : ByteArray} (h : Framed p b)
    (rest : ByteArray) : lengthRLP (b ++ rest) = some b.size := by
  obtain ⟨head, hhead, -, hlen, -⟩ := h.head rest
  rw [lengthRLP_eq, hhead, Option.map_some, hlen]

/-- What is in a frame, whatever comes after it. -/
theorem Framed.oneStepRLP {p : ByteArray ⊕ ByteArray} {b : ByteArray} (h : Framed p b)
    (rest : ByteArray) : oneStepRLP (b ++ rest) =
      p.elim (fun x => some (.inl x)) fun s => (separateListRLP s).map .inr := by
  obtain ⟨head, hhead, hlist, -, hcontents⟩ := h.head rest
  rw [oneStepRLP_eq, hhead, Option.bind_some]
  dsimp only
  rw [hlist, hcontents]
  cases p <;> rfl

/-- A frame in front of a list of frames is its first item. -/
theorem Framed.separateListRLP_append {p : ByteArray ⊕ ByteArray} {b rest : ByteArray}
    {items : List ByteArray} (h : Framed p b) (hrest : separateListRLP rest = some items) :
    separateListRLP (b ++ rest) = some (b :: items) := by
  have hlen := h.lengthRLP rest
  have hpos := lengthRLP_pos hlen
  have hne : (b ++ rest).size ≠ 0 := by
    rw [ByteArray.size_append]
    omega
  rw [separateListRLP, if_neg hne]
  split
  next hnone =>
    rw [hlen] at hnone
    cases hnone
  next headLen hsome =>
    rw [hlen] at hsome
    cases hsome
    rw [readWithoutPadding_left, readWithoutPadding_right _ _ (by simp), hrest, Option.map_some]

/-! ## The round trip -/

theorem deserializeRLP_of_RLP : ∀ (t : 𝕋) (b rest : ByteArray), RLP t = some b →
    deserializeRLP (b ++ rest) = some t := by
  refine 𝕋.rec
    (motive_1 := fun t => ∀ b rest, RLP t = some b → deserializeRLP (b ++ rest) = some t)
    (motive_2 := fun ts => ∀ s, RLP.s ts = some s →
      ∃ items, separateListRLP s = some items ∧ items.mapM deserializeRLP = some ts)
    ?string ?list ?nil ?cons
  case string =>
    intro x b rest h
    rw [RLP] at h
    rw [deserializeRLP_eq, (R_b_framed h).oneStepRLP rest]
    rfl
  case list =>
    intro ts ih b rest h
    rw [RLP] at h
    obtain ⟨s, hs, hb⟩ := Option.bind_eq_some_iff.1 h
    obtain ⟨items, hitems, hts⟩ := ih s hs
    rw [deserializeRLP_eq, (R_l_framed hb).oneStepRLP rest]
    simp [hitems, hts]
  case nil =>
    intro s h
    rw [RLP.s] at h
    cases h
    exact ⟨[], by rw [separateListRLP, if_pos ByteArray.size_empty], rfl⟩
  case cons =>
    intro t ts iht ihts s h
    rw [RLP.s] at h
    split at h
    next b r hb hr =>
      cases h
      obtain ⟨items, hitems, hmap⟩ := ihts r hr
      obtain ⟨p, hp⟩ : ∃ p, Framed p b := by
        cases t with
        | 𝔹 x => rw [RLP] at hb; exact ⟨_, R_b_framed hb⟩
        | 𝕃 l =>
          rw [RLP] at hb
          obtain ⟨s, -, hs⟩ := Option.bind_eq_some_iff.1 hb
          exact ⟨_, R_l_framed hs⟩
      have ht : deserializeRLP b = some t := by
        have hempty := iht b .empty hb
        rwa [ByteArray.append_empty] at hempty
      refine ⟨b :: items, hp.separateListRLP_append hitems, ?_⟩
      simp [ht, hmap]
    · cases h

theorem RLP_inj {t t' : 𝕋} {b : ByteArray} (h : RLP t = some b) (h' : RLP t' = some b) : t = t' :=
  Option.some.inj
    ((deserializeRLP_of_RLP t b .empty h).symm.trans (deserializeRLP_of_RLP t' b .empty h'))

/-- **The decoder reads what the encoder wrote**, whatever bytes come after it.
So no encoding is the beginning of another one. -/
theorem deserializeRLP_RLP (t : 𝕋) {b : ByteArray} (h : RLP t = some b) :
    (∀ rest, deserializeRLP (b ++ rest) = some t) ∧
      ∀ t' rest, RLP t' = some (b ++ rest) → t' = t ∧ rest = .empty := by
  refine ⟨fun rest => deserializeRLP_of_RLP t b rest h, fun t' rest h' => ?_⟩
  have hread := deserializeRLP_of_RLP t b rest h
  have hread' := deserializeRLP_of_RLP t' (b ++ rest) .empty h'
  rw [ByteArray.append_empty, hread] at hread'
  cases hread'
  refine ⟨rfl, ByteArray.size_eq_zero_iff.1 ?_⟩
  rw [h] at h'
  have hsize := congrArg ByteArray.size (Option.some.inj h')
  rw [ByteArray.size_append] at hsize
  omega

/-- A list of a byte and an empty list. -/
theorem deserializeRLP_RLP_nested :
    (∀ rest, deserializeRLP (⟨#[0xc2, 1, 0xc0]⟩ ++ rest) = some (.𝕃 [.𝔹 ⟨#[1]⟩, .𝕃 []])) ∧
      ∀ t' rest, RLP t' = some (⟨#[0xc2, 1, 0xc0]⟩ ++ rest) →
        t' = .𝕃 [.𝔹 ⟨#[1]⟩, .𝕃 []] ∧ rest = .empty :=
  deserializeRLP_RLP (.𝕃 [.𝔹 ⟨#[1]⟩, .𝕃 []]) (by decide)

end EvmYul
