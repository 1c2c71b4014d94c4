import AndroidDemo.Protobuf.Varint

/-! # The stream over one array

What holds of the limits of such a stream while the total limit is not below the
size of the array, and what its operations do under it.
-/

namespace AndroidDemo.Protobuf

open AndroidDemo.Base128
open CodedInputStream

structure Flat (s : CodedInputStream) : Prop where
  within : s.beyond = 0
  afterLimit_length : (s.afterLimit.length : Int) = s.totalBytesRead - s.currentLimit
  buffer_length : (s.buffer.length : Int) ≤ s.currentLimit
  totalBytesRead_le : s.totalBytesRead ≤ kint32max
  totalBytesRead_le_limit : s.totalBytesRead ≤ s.totalBytesLimit
  recursionBudget_le : s.recursionBudget ≤ s.recursionLimit

section OfArray

variable {data : List UInt8}

theorem Flat.ofArray (hMax : (data.length : Int) ≤ kint32max)
    (h : (data.length : Int) ≤ kDefaultTotalBytesLimit) :
    Flat (CodedInputStream.ofArray data) where
  within := rfl
  afterLimit_length := (Int.sub_self _).symm
  buffer_length := Int.le_refl _
  totalBytesRead_le := hMax
  totalBytesRead_le_limit := h
  recursionBudget_le := Int.le_refl _

theorem ofArray_currentPosition : (CodedInputStream.ofArray data).currentPosition = 0 := by
  simp [currentPosition, bufferSize, bufferSizeAfterLimit, CodedInputStream.ofArray]

/-- A limit that the array fits under moves nothing. -/
theorem setTotalBytesLimit_ofArray {limit : Int} (h : (data.length : Int) ≤ max 0 limit) :
    (CodedInputStream.ofArray data).setTotalBytesLimit limit =
      { CodedInputStream.ofArray data with totalBytesLimit := max 0 limit } := by
  have hClosest : min (data.length : Int) (max 0 limit) = data.length := by omega
  simp only [CodedInputStream.setTotalBytesLimit, ofArray_currentPosition, recomputeBufferLimits]
  simp [CodedInputStream.ofArray, ahead, hClosest]

theorem Flat.setTotalBytesLimit {limit : Int} (hMax : (data.length : Int) ≤ kint32max)
    (h : (data.length : Int) ≤ max 0 limit) :
    Flat ((CodedInputStream.ofArray data).setTotalBytesLimit limit) := by
  rw [setTotalBytesLimit_ofArray h]
  exact
    { within := rfl
      afterLimit_length := (Int.sub_self _).symm
      buffer_length := Int.le_refl _
      totalBytesRead_le := hMax
      totalBytesRead_le_limit := h
      recursionBudget_le := Int.le_refl _ }

end OfArray

/-- The stream after reading up to `rest`, with the last tag that `ReadTag` has seen. -/
def CodedInputStream.at (s : CodedInputStream) (lastTag : UInt32) (rest : List UInt8) :
    CodedInputStream :=
  { s with lastTag := lastTag, buffer := rest }

section At

variable (s : CodedInputStream) (t u : UInt32) (rest more : List UInt8)

theorem leaving_eq_at : s.leaving rest = s.at s.lastTag rest := rfl

@[simp] theorem at_buffer : (s.at t rest).buffer = rest := rfl

@[simp] theorem at_lastTag : (s.at t rest).lastTag = t := rfl

@[simp] theorem at_legitimateMessageEnd :
    (s.at t rest).legitimateMessageEnd = s.legitimateMessageEnd := rfl

@[simp] theorem at_recursionBudget : (s.at t rest).recursionBudget = s.recursionBudget := rfl

@[simp] theorem at_at : (s.at t rest).at u more = s.at u more := rfl

@[simp] theorem at_leaving : (s.at t rest).leaving more = s.at t more := rfl

end At

section Flat

variable {s : CodedInputStream} {n : Nat} {rest : List UInt8}

theorem Flat.at (hFlat : Flat s) (t : UInt32) (h : rest.length ≤ s.buffer.length) :
    Flat (s.at t rest) where
  within := hFlat.within
  afterLimit_length := hFlat.afterLimit_length
  buffer_length := by
    have hLength := hFlat.buffer_length
    change (rest.length : Int) ≤ s.currentLimit
    omega
  totalBytesRead_le := hFlat.totalBytesRead_le
  totalBytesRead_le_limit := hFlat.totalBytesRead_le_limit
  recursionBudget_le := hFlat.recursionBudget_le

theorem Flat.bufferSizeAfterLimit_eq (hFlat : Flat s) :
    s.bufferSizeAfterLimit = s.totalBytesRead - s.currentLimit := by
  rw [bufferSizeAfterLimit, hFlat.within, hFlat.afterLimit_length]
  omega

theorem Flat.bufferSize_eq (hFlat : Flat s) : s.bufferSize = s.buffer.length := by
  rw [bufferSize, hFlat.within]
  omega

theorem Flat.atLimit (hFlat : Flat s) : AtLimit s := by
  have hAfter := hFlat.bufferSizeAfterLimit_eq
  have hSize : s.bufferSizeAfterLimit ≥ 0 := by
    rw [bufferSizeAfterLimit]
    omega
  exact ⟨hFlat.within, by omega⟩

/-! ## Bytes -/

theorem advance_of_length_le {size : Nat} (h : size ≤ s.buffer.length) :
    s.advance size = s.leaving (s.buffer.drop size) := by
  simp only [advance, CodedInputStream.leaving, Nat.sub_eq_zero_of_le h, List.drop_zero,
    Nat.add_zero]

theorem readString_some (hFlat : Flat s) {size : Nat} (h : size ≤ s.buffer.length) :
    readString size s = .returns (s.buffer.take size) (s.leaving (s.buffer.drop size)) := by
  have hSize := hFlat.bufferSize_eq
  rw [readString, if_neg (by omega), if_pos (by omega), Int.toNat_natCast, advance_of_length_le h]

theorem readString_fails (hFlat : Flat s) (size : Int) (h : size < 0 ∨ s.buffer.length < size) :
    ∃ rest, readString size s = .fails (s.leaving rest) := by
  have hSize := hFlat.bufferSize_eq
  rw [readString]
  split
  · exact ⟨s.buffer, rfl⟩
  · rw [if_neg (by omega), if_neg (by omega), advance_of_length_le (Nat.le_refl _)]
    exact ⟨_, refresh_atLimit (s := s.leaving _) hFlat.atLimit⟩

/-! ## Tags -/

theorem readTagFallback_nil (hFlat : Flat s) (h : s.buffer = []) :
    readTagFallback 0 s = .returns 0 { s with legitimateMessageEnd := true } := by
  have hAfter := hFlat.bufferSizeAfterLimit_eq
  have hPast := hFlat.afterLimit_length
  have hLimit := hFlat.totalBytesRead_le_limit
  have hEmpty := hFlat.atLimit.atBufferEnd_iff.mpr h
  rw [readTagFallback, unchecked_nil h, if_neg (by decide)]
  split
  · rfl
  · rename_i hEnd
    have hReached : s.totalBytesRead - s.bufferSizeAfterLimit ≥ s.totalBytesLimit := by
      by_contra hLess
      exact hEnd ⟨hEmpty, hFlat.atLimit.2, by omega⟩
    have hSame : s.currentLimit = s.totalBytesLimit := by omega
    rw [readTagSlow, if_pos hEmpty]
    simp only [refresh_atLimit hFlat.atLimit, if_pos hReached, hSame, decide_true]

theorem readTag64_some (h : decode 10 s.buffer = some (n, rest)) :
    readTag64 s = .returns (UInt32.ofNat n) (s.leaving rest) := by
  simp only [readTag64, readVarint64_some h, toUInt32_ofNat64]

theorem readTag64_none (hLimit : AtLimit s) (h : decode 10 s.buffer = none) :
    ∃ rest, readTag64 s = .returns 0 (s.leaving rest) := by
  obtain ⟨rest, hRead⟩ := readVarint64_none hLimit h
  exact ⟨rest, by simp only [readTag64, hRead]⟩

section Fallback

variable {b : UInt8} {tail : List UInt8}

theorem readTagFallback_checked (hBuffer : s.buffer = b :: tail) (h : ¬ unchecked s = true)
    (firstByte : UInt32) : readTagFallback firstByte s = readTag64 s := by
  have hMore : ¬ s.atBufferEnd = true := by rw [atBufferEnd_cons s hBuffer]; decide
  rw [readTagFallback, if_neg h, if_neg (fun hEnd => hMore hEnd.1), readTagSlow, if_neg hMore]

/-- The callers have sorted out the tags of one byte, the zero apart. -/
theorem readTagFallback_unchecked (hBuffer : s.buffer = b :: tail) (h : unchecked s = true)
    (hb : b.toNat = 0 ∨ 128 ≤ b.toNat) :
    readTagFallback b.toUInt32 s =
      match decode 10 s.buffer with
      | some (n, rest) => .returns (UInt32.ofNat n) (s.leaving rest)
      | none => .returns 0 s := by
  rw [readTagFallback, if_pos h]
  rcases hb with hZero | hLarge
  · have hWord : b.toUInt32 = 0 := by
      rw [toUInt32_eq_ofNat, hZero]
      rfl
    rw [if_pos hWord, decode_cons_small hBuffer (by omega), advance_one s hBuffer, hZero]
    rfl
  · have hWord : ¬ b.toUInt32 = 0 := by
      intro hEq
      have hNat := congrArg UInt32.toNat hEq
      rw [UInt8.toNat_toUInt32] at hNat
      exact absurd (hNat.symm ▸ hLarge) (by decide)
    have hArray := readVarint32FromArray_eq hLarge tail
    rw [← hBuffer, ofDecode_unchecked _ h] at hArray
    rw [if_neg hWord, hArray]
    cases decode 10 s.buffer with
    | none => rfl
    | some next => rfl

theorem readTagFallback_some (hBuffer : s.buffer = b :: tail)
    (hb : b.toNat = 0 ∨ 128 ≤ b.toNat) (h : decode 10 s.buffer = some (n, rest)) :
    readTagFallback b.toUInt32 s = .returns (UInt32.ofNat n) (s.leaving rest) := by
  by_cases hUnchecked : unchecked s = true
  · rw [readTagFallback_unchecked hBuffer hUnchecked hb, h]
  · rw [readTagFallback_checked hBuffer hUnchecked, readTag64_some h]

theorem readTagFallback_none (hLimit : AtLimit s) (hBuffer : s.buffer = b :: tail)
    (hb : b.toNat = 0 ∨ 128 ≤ b.toNat) (h : decode 10 s.buffer = none) :
    ∃ rest, readTagFallback b.toUInt32 s = .returns 0 (s.leaving rest) := by
  by_cases hUnchecked : unchecked s = true
  · rw [readTagFallback_unchecked hBuffer hUnchecked hb, h]
    exact ⟨s.buffer, rfl⟩
  · rw [readTagFallback_checked hBuffer hUnchecked]
    exact readTag64_none hLimit h

end Fallback

/-- At the end of the limit there is no tag and the message may end. -/
theorem readTagWithCutoff_nil (hFlat : Flat s) (h : s.buffer = []) :
    readTagWithCutoffNoLastTag 127 s =
      .returns (0, false) { s with legitimateMessageEnd := true } := by
  simp only [readTagWithCutoffNoLastTag, h, readTagFallback_nil hFlat h, Outcome.andThen]
  rfl

theorem readTagWithCutoff_cons {b : UInt8} {tail : List UInt8} (hBuffer : s.buffer = b :: tail) :
    readTagWithCutoffNoLastTag 127 s =
      if 0 < b ∧ b < 0x80 then .returns (b.toUInt32, true) (s.advance 1)
      else (readTagFallback b.toUInt32 s).andThen fun tag s =>
        .returns (tag, decide (tag - 1 < 127)) s := by
  have hCutoff : ¬ (127 : UInt32) ≥ 0x80 := by decide
  have hShort : (127 : UInt32) ≥ 0x7F := by decide
  simp only [readTagWithCutoffNoLastTag, hBuffer, hCutoff, hShort, false_and, if_false,
    decide_true, Bool.true_or]
  split
  · rfl
  · cases tail <;> rfl

theorem fallback_byte {b : UInt8} (h : ¬ (0 < b ∧ b < 0x80)) : b.toNat = 0 ∨ 128 ≤ b.toNat := by
  rw [byte_lt_0x80, UInt8.lt_iff_toNat_lt] at h
  change ¬ (0 < b.toNat ∧ b.toNat < 128) at h
  omega

theorem readTagWithCutoff_some (h : decode 10 s.buffer = some (n, rest)) :
    readTagWithCutoffNoLastTag 127 s =
      .returns (UInt32.ofNat n, decide (UInt32.ofNat n - 1 < 127)) (s.leaving rest) := by
  cases hBuffer : s.buffer with
  | nil =>
    rw [hBuffer] at h
    cases h
  | cons b tail =>
    rw [readTagWithCutoff_cons hBuffer]
    split
    · rename_i hb
      rw [byte_lt_0x80, UInt8.lt_iff_toNat_lt] at hb
      have hSmall : b.toNat < 128 := hb.2
      have hPos : 0 < b.toNat := hb.1
      rw [decode_cons_small hBuffer hSmall] at h
      cases h
      have hBelow : UInt32.ofNat b.toNat - 1 < 127 := by
        have hPred : UInt32.ofNat b.toNat - 1 = UInt32.ofNat (b.toNat - 1) := by
          rw [UInt32.ofNat_sub hPos]
          rfl
        rw [hPred, UInt32.lt_iff_toNat_lt, UInt32.toNat_ofNat', Nat.mod_eq_of_lt (by omega)]
        change b.toNat - 1 < 127
        omega
      rw [advance_one s hBuffer, toUInt32_eq_ofNat]
      simp only [hBelow, decide_true]
    · rename_i hb
      rw [readTagFallback_some hBuffer (fallback_byte hb) h]
      rfl

theorem readTagWithCutoff_none (hLimit : AtLimit s) (hBuffer : s.buffer ≠ [])
    (h : decode 10 s.buffer = none) :
    ∃ rest, readTagWithCutoffNoLastTag 127 s = .returns (0, false) (s.leaving rest) := by
  obtain ⟨b, tail, hCons⟩ := List.exists_cons_of_ne_nil hBuffer
  rw [readTagWithCutoff_cons hCons]
  split
  · rename_i hb
    rw [decode_cons_small hCons ((byte_lt_0x80 b).mp hb.2)] at h
    cases h
  · rename_i hb
    obtain ⟨rest, hRead⟩ := readTagFallback_none hLimit hCons (fallback_byte hb) h
    exact ⟨rest, by rw [hRead]; rfl⟩

theorem readTag_nil (hFlat : Flat s) (h : s.buffer = []) :
    readTag s = .returns 0 { s with legitimateMessageEnd := true, lastTag := 0 } := by
  simp only [readTag, readTagNoLastTag, h, readTagFallback_nil hFlat h, Outcome.andThen]

theorem readTag_some (h : decode 10 s.buffer = some (n, rest)) :
    readTag s = .returns (UInt32.ofNat n) (s.at (UInt32.ofNat n) rest) := by
  cases hBuffer : s.buffer with
  | nil =>
    rw [hBuffer] at h
    cases h
  | cons b tail =>
    have hRead : readTagNoLastTag s = .returns (UInt32.ofNat n) (s.leaving rest) := by
      rw [readTagNoLastTag, hBuffer]
      simp only [byte_lt_0x80]
      split
      · rename_i hb
        rw [decode_cons_small hBuffer hb] at h
        cases h
        rw [advance_one s hBuffer, toUInt32_eq_ofNat]
      · exact readTagFallback_some hBuffer (Or.inr (by omega)) h
    rw [readTag, hRead]
    rfl

theorem readTag_none (hLimit : AtLimit s) (hBuffer : s.buffer ≠ [])
    (h : decode 10 s.buffer = none) :
    ∃ rest, readTag s = .returns 0 (s.at 0 rest) := by
  obtain ⟨b, tail, hCons⟩ := List.exists_cons_of_ne_nil hBuffer
  have hLarge : ¬ b.toNat < 128 := by
    intro hb
    rw [decode_cons_small hCons hb] at h
    cases h
  obtain ⟨rest, hRead⟩ := readTagFallback_none hLimit hCons (Or.inr (by omega)) h
  refine ⟨rest, ?_⟩
  rw [readTag, readTagNoLastTag, hCons]
  simp only [byte_lt_0x80, if_neg hLarge, hRead]
  rfl

/-! ## Limits -/

/-- The stream with its limit at most `size` bytes ahead. -/
def CodedInputStream.narrowed (s : CodedInputStream) (size : Nat) : CodedInputStream :=
  { s with
    buffer := s.buffer.take size
    afterLimit := s.buffer.drop size ++ s.afterLimit
    currentLimit := s.currentLimit - (s.buffer.drop size).length }

theorem Flat.currentPosition_eq (hFlat : Flat s) :
    s.currentPosition = s.currentLimit - s.buffer.length := by
  have hAfter := hFlat.bufferSizeAfterLimit_eq
  have hSize := hFlat.bufferSize_eq
  rw [currentPosition]
  omega

theorem ahead_currentLimit (s : CodedInputStream) (limit : Int) :
    { s with currentLimit := limit }.ahead = s.ahead := rfl

theorem narrowed_of_length_le {size : Nat} (h : s.buffer.length ≤ size) : s.narrowed size = s := by
  have hDrop : s.buffer.drop size = [] := List.drop_of_length_le h
  simp only [narrowed, hDrop, List.take_of_length_le h, List.nil_append, List.length_nil,
    Int.natCast_zero, Int.sub_zero]

/-- A limit ahead of the current one narrows the buffer; another one is dropped, so that reading
goes on to the current limit. -/
theorem pushLimit_eq (hFlat : Flat s) (size : Nat) :
    s.pushLimit size = (s.currentLimit, s.narrowed size) := by
  have hAfter := hFlat.afterLimit_length
  have hLength := hFlat.buffer_length
  have hTotal := hFlat.totalBytesRead_le
  have hTotalLimit := hFlat.totalBytesRead_le_limit
  rw [pushLimit]
  simp only [hFlat.currentPosition_eq]
  rcases Nat.lt_or_ge size s.buffer.length with h | h
  · rw [if_pos (by omega)]
    have hClosest : min (s.currentLimit - s.buffer.length + size) s.totalBytesLimit =
        s.currentLimit - s.buffer.length + size := by omega
    have hAll : s.ahead.length = s.buffer.length + s.afterLimit.length := List.length_append
    have hKept : s.ahead.length -
        (s.totalBytesRead - (s.currentLimit - s.buffer.length + size)).toNat = size := by omega
    have hWithin : (s.totalBytesRead - (s.currentLimit - s.buffer.length + size)).toNat -
        s.ahead.length = s.beyond := by
      rw [hFlat.within]
      omega
    have hLimit : s.currentLimit - s.buffer.length + size =
        s.currentLimit - (s.buffer.drop size).length := by
      rw [List.length_drop]
      omega
    have hBehind : s.currentLimit - s.buffer.length + size < s.totalBytesRead := by omega
    simp only [recomputeBufferLimits, ahead_currentLimit, hClosest, if_pos hBehind, hKept, hWithin]
    rw [ahead, List.take_append_of_le_length (by omega), List.drop_append_of_le_length (by omega),
      hLimit, narrowed]
  · rw [if_neg (by omega), narrowed_of_length_le h]

theorem Flat.narrowed (hFlat : Flat s) (size : Nat) : Flat (s.narrowed size) where
  within := hFlat.within
  afterLimit_length := by
    have hAfter := hFlat.afterLimit_length
    change ((s.buffer.drop size ++ s.afterLimit).length : Int) =
      s.totalBytesRead - (s.currentLimit - (s.buffer.drop size).length)
    rw [List.length_append]
    omega
  buffer_length := by
    have hLength := hFlat.buffer_length
    change ((s.buffer.take size).length : Int) ≤ s.currentLimit - (s.buffer.drop size).length
    rw [List.length_take, List.length_drop]
    omega
  totalBytesRead_le := hFlat.totalBytesRead_le
  totalBytesRead_le_limit := hFlat.totalBytesRead_le_limit
  recursionBudget_le := hFlat.recursionBudget_le

theorem popLimit_eq (hFlat : Flat s) {t : CodedInputStream} {dropped : List UInt8}
    (hWithin : t.beyond = 0) (hAfter : t.afterLimit = dropped ++ s.afterLimit)
    (hTotal : t.totalBytesRead = s.totalBytesRead)
    (hLimit : t.totalBytesLimit = s.totalBytesLimit) :
    t.popLimit s.currentLimit =
      { t with
        buffer := t.buffer ++ dropped
        afterLimit := s.afterLimit
        currentLimit := s.currentLimit
        legitimateMessageEnd := false } := by
  have hLength := hFlat.afterLimit_length
  have hMax := hFlat.totalBytesRead_le_limit
  have hClosest : min s.currentLimit t.totalBytesLimit = s.currentLimit := by omega
  have hAhead : t.ahead = t.buffer ++ dropped ++ s.afterLimit := by
    rw [ahead, hAfter, List.append_assoc]
  have hAll : t.ahead.length = (t.buffer ++ dropped).length + s.afterLimit.length := by
    rw [hAhead, List.length_append]
  -- The bytes behind the outer limit are those that were behind it before.
  have hBehind : (if s.currentLimit < t.totalBytesRead then
      (t.totalBytesRead - s.currentLimit).toNat else 0) = s.afterLimit.length := by
    split <;> omega
  have hKept : t.ahead.length - s.afterLimit.length = (t.buffer ++ dropped).length := by omega
  have hNone : s.afterLimit.length - t.ahead.length = t.beyond := by omega
  simp only [popLimit, recomputeBufferLimits, ahead_currentLimit, hClosest, hBehind, hKept, hNone]
  rw [hAhead, List.take_left, List.drop_left]

end Flat

end AndroidDemo.Protobuf
