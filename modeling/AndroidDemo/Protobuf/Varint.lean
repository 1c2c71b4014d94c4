import AndroidDemo.Bytes.Base128
import AndroidDemo.Protobuf.CodedInputStream
import Mathlib.Data.Nat.Bitwise

/-! # The readers of varints

The unrolled readers compute in 32-bit pieces and check no bound. They agree with
the number in base 128.
-/

namespace AndroidDemo.Protobuf

open AndroidDemo.Base128

theorem and_0x80 {n : Nat} (h : n < 256) : n &&& 128 = 0 ↔ n < 128 := by
  have hBit : n &&& 128 = (decide (n / 128 % 2 = 1)).toNat * 128 := by
    rw [← Nat.testBit_eq_decide_div_mod_eq (i := 7)]
    exact Nat.and_two_pow n 7
  rw [hBit]
  rcases Nat.lt_or_ge n 128 with hn | hn
  · have hZero : n / 128 % 2 = 0 := by omega
    simp [hZero, hn]
  · have hOne : n / 128 % 2 = 1 := by omega
    simp [hOne, hn]

theorem byte_and_0x80 (b : UInt8) : b &&& 0x80 = 0 ↔ b.toNat < 128 := by
  rw [← UInt8.toNat_inj, UInt8.toNat_and]
  exact and_0x80 b.toNat_lt

theorem word_and_0x80 (b : UInt8) : b.toUInt32 &&& 0x80 = 0 ↔ b.toNat < 128 := by
  rw [← UInt32.toNat_inj, UInt32.toNat_and, UInt8.toNat_toUInt32]
  exact and_0x80 b.toNat_lt

theorem byte_lt_0x80 (b : UInt8) : b < 0x80 ↔ b.toNat < 128 := UInt8.lt_iff_toNat_lt

namespace FromArray

/-- What reading `limit` bytes without checks comes to: too few bytes are an overrun. -/
def ofDecode {α : Type} (value : Nat → α) (limit : Nat) (ptr : List UInt8) : FromArray α :=
  match decode limit ptr with
  | some (n, rest) => .done (value n) rest
  | none => if limit ≤ ptr.length then .corrupt else .overrun

theorem nextByte_eq_ofDecode {α : Type} {g : UInt32 → List UInt8 → FromArray α} {value : Nat → α}
    {limit : Nat} (ptr : List UInt8)
    (hLast : ∀ (b : UInt8) (ptr : List UInt8), b.toNat < 128 →
      g b.toUInt32 ptr = .done (value b.toNat) ptr)
    (hMore : ∀ (b : UInt8) (ptr : List UInt8), 128 ≤ b.toNat →
      g b.toUInt32 ptr = ofDecode (fun n => value (b.toNat - 128 + 128 * n)) limit ptr) :
    nextByte ptr g = ofDecode value (limit + 1) ptr := by
  cases ptr with
  | nil => rfl
  | cons b ptr =>
    rw [nextByte, ofDecode, decode]
    rcases Nat.lt_or_ge b.toNat 128 with hb | hb
    · rw [if_pos hb, hLast b ptr hb]
    · rw [if_neg (by omega), hMore b ptr hb, ofDecode]
      cases decode limit ptr with
      | none => simp
      | some next => rfl

end FromArray

open FromArray

theorem discardBytes_eq (i : Nat) (result : UInt32) (ptr : List UInt8) :
    discardBytes i result ptr = ofDecode (fun _ => result) i ptr := by
  induction i generalizing ptr with
  | zero => simp [discardBytes, ofDecode, decode]
  | succ i ih =>
    rw [discardBytes]
    apply nextByte_eq_ofDecode
    · intro b ptr hb
      rw [if_pos ((word_and_0x80 b).mpr hb)]
    · intro b ptr hb
      rw [if_neg (by rw [word_and_0x80]; omega), ih]

theorem toUInt32_shift (b : UInt8) {k : Nat} (hk : k < 32) :
    b.toUInt32 <<< UInt32.ofNat k = UInt32.ofNat (2 ^ k * b.toNat) := by
  apply UInt32.toNat.inj
  rw [UInt32.toNat_shiftLeft, UInt8.toNat_toUInt32, UInt32.toNat_ofNat', UInt32.toNat_ofNat',
    Nat.mod_eq_of_lt (show k < 2 ^ 32 by omega), Nat.mod_eq_of_lt hk, Nat.shiftLeft_eq,
    Nat.mul_comm]

theorem toUInt32_eq_ofNat (b : UInt8) : b.toUInt32 = UInt32.ofNat b.toNat := by
  have hByte := b.toNat_lt
  apply UInt32.toNat.inj
  rw [UInt8.toNat_toUInt32, UInt32.toNat_ofNat', Nat.mod_eq_of_lt (by omega)]

theorem add_shift (acc : Nat) (b : UInt8) {k : Nat} (hk : k < 32) :
    UInt32.ofNat acc + b.toUInt32 <<< UInt32.ofNat k = UInt32.ofNat (acc + 2 ^ k * b.toNat) := by
  rw [toUInt32_shift b hk, ← UInt32.ofNat_add]

theorem add_shift_sub (acc : Nat) {b : UInt8} (hb : 128 ≤ b.toNat) {k : Nat} (hk : k < 32) :
    UInt32.ofNat acc + b.toUInt32 <<< UInt32.ofNat k - (0x80 : UInt32) <<< UInt32.ofNat k =
      UInt32.ofNat (acc + 2 ^ k * (b.toNat - 128)) := by
  have hTop : (0x80 : UInt32) <<< UInt32.ofNat k = UInt32.ofNat (2 ^ k * 128) :=
    toUInt32_shift 0x80 hk
  have hLe : 2 ^ k * 128 ≤ 2 ^ k * b.toNat := Nat.mul_le_mul_left _ hb
  rw [add_shift acc b hk, hTop, ← UInt32.ofNat_sub (by omega), Nat.mul_sub]
  congr 1
  omega

/-- One group of seven bits: what is read behind it counts 128 times. -/
theorem addGroup_eq {α : Type} {done : UInt32 → α} {next : UInt32 → List UInt8 → FromArray α}
    {value : Nat → α} (k acc limit : Nat) (hk : k < 32) (ptr : List UInt8)
    (hDone : ∀ n < 128, done (UInt32.ofNat (acc + 2 ^ k * n)) = value n)
    (hNext : ∀ n < 128, ∀ ptr, next (UInt32.ofNat (acc + 2 ^ k * n)) ptr =
      ofDecode (fun high => value (n + 128 * high)) limit ptr) :
    addGroup (UInt32.ofNat k) (UInt32.ofNat acc) ptr done next =
      ofDecode value (limit + 1) ptr := by
  rw [addGroup]
  apply nextByte_eq_ofDecode
  · intro b ptr hb
    rw [if_pos ((word_and_0x80 b).mpr hb), add_shift acc b hk, hDone b.toNat hb]
  · intro b ptr hb
    have hByte := b.toNat_lt
    rw [if_neg (by rw [word_and_0x80]; omega), add_shift_sub acc hb hk,
      hNext (b.toNat - 128) (by omega)]

/-! ## From an array -/

theorem readVarint32FromArray_eq {b : UInt8} (hb : 128 ≤ b.toNat) (ptr : List UInt8) :
    readVarint32FromArray b.toUInt32 (b :: ptr) = ofDecode UInt32.ofNat 10 (b :: ptr) := by
  have hFirst : b.toUInt32 - 0x80 = UInt32.ofNat (b.toNat - 128) := by
    rw [UInt32.ofNat_sub hb, toUInt32_eq_ofNat]
    rfl
  have hUnroll : ofDecode UInt32.ofNat 10 (b :: ptr) =
      ofDecode (fun n => UInt32.ofNat (b.toNat - 128 + 128 * n)) 9 ptr := by
    rw [ofDecode, ofDecode, decode, if_neg (by omega)]
    cases decode 9 ptr with
    | none => simp
    | some next => rfl
  rw [hUnroll, readVarint32FromArray, nextByte, hFirst]
  refine addGroup_eq 7 _ 8 (by decide) ptr (fun n _ => rfl) fun n₁ _ ptr => ?_
  refine addGroup_eq 14 _ 7 (by decide) ptr ?_ fun n₂ _ ptr => ?_
  · intro n _
    exact congrArg UInt32.ofNat (by omega)
  refine addGroup_eq 21 _ 6 (by decide) ptr ?_ fun n₃ _ ptr => ?_
  · intro n _
    exact congrArg UInt32.ofNat (by omega)
  refine addGroup_eq 28 _ 5 (by decide) ptr ?_ fun n₄ _ ptr => ?_
  · intro n _
    exact congrArg UInt32.ofNat (by omega)
  rw [discardBytes_eq]
  refine congrArg (ofDecode · 5 ptr) (funext fun n => ?_)
  apply UInt32.toNat.inj
  rw [UInt32.toNat_ofNat', UInt32.toNat_ofNat']
  omega

theorem joinParts_ofNat {a b c n : Nat} (ha : a < 2 ^ 28) (hb : b < 2 ^ 28) (hc : c < 2 ^ 32)
    (hn : a + 2 ^ 28 * b + 2 ^ 56 * c = n) :
    joinParts (UInt32.ofNat a) (UInt32.ofNat b) (UInt32.ofNat c) = UInt64.ofNat n := by
  have hLow : a ||| 2 ^ 28 * b = 2 ^ 28 * b + a := by
    rw [Nat.or_comm, ← Nat.two_pow_add_eq_or_of_lt ha]
  have hAll : 2 ^ 28 * b + a ||| 2 ^ 56 * (c % 256) = 2 ^ 56 * (c % 256) + (2 ^ 28 * b + a) := by
    rw [Nat.or_comm, ← Nat.two_pow_add_eq_or_of_lt (by omega)]
  have hMiddle : b * 2 ^ 28 % 2 ^ 64 = 2 ^ 28 * b := by omega
  have hHigh : c * 2 ^ 56 % 2 ^ 64 = 2 ^ 56 * (c % 256) := by
    rw [show 2 ^ 64 = 256 * 2 ^ 56 from rfl, Nat.mul_mod_mul_right, Nat.mul_comm]
  have hWord (p : Nat) (hp : p < 2 ^ 32) : (UInt32.ofNat p).toUInt64.toNat = p := by
    rw [UInt32.toNat_toUInt64, UInt32.toNat_ofNat', Nat.mod_eq_of_lt hp]
  apply UInt64.toNat.inj
  rw [joinParts, UInt64.toNat_or, UInt64.toNat_or, UInt64.toNat_shiftLeft, UInt64.toNat_shiftLeft,
    hWord a (by omega), hWord b (by omega), hWord c hc, UInt64.toNat_ofNat', Nat.shiftLeft_eq,
    Nat.shiftLeft_eq]
  change a ||| b * 2 ^ 28 % 2 ^ 64 ||| c * 2 ^ 56 % 2 ^ 64 = _
  rw [hMiddle, hHigh, hLow, hAll, ← hn]
  omega

theorem readVarint64FromArray_eq (ptr : List UInt8) :
    readVarint64FromArray ptr = ofDecode UInt64.ofNat 10 ptr := by
  rw [readVarint64FromArray]
  -- the first part, with the other two at zero
  refine addGroup_eq 0 0 9 (by decide) ptr (fun n _ => ?_) fun n₀ _ ptr => ?_
  · exact joinParts_ofNat (b := 0) (c := 0) (by omega) (by omega) (by omega) (by omega)
  refine addGroup_eq 7 _ 8 (by decide) ptr (fun n _ => ?_) fun n₁ _ ptr => ?_
  · exact joinParts_ofNat (b := 0) (c := 0) (by omega) (by omega) (by omega) (by omega)
  refine addGroup_eq 14 _ 7 (by decide) ptr (fun n _ => ?_) fun n₂ _ ptr => ?_
  · exact joinParts_ofNat (b := 0) (c := 0) (by omega) (by omega) (by omega) (by omega)
  refine addGroup_eq 21 _ 6 (by decide) ptr (fun n _ => ?_) fun n₃ _ ptr => ?_
  · exact joinParts_ofNat (b := 0) (c := 0) (by omega) (by omega) (by omega) (by omega)
  refine addGroup_eq 0 0 5 (by decide) ptr (fun n _ => ?_) fun n₄ _ ptr => ?_
  · exact joinParts_ofNat (c := 0) (by omega) (by omega) (by omega) (by omega)
  refine addGroup_eq 7 _ 4 (by decide) ptr (fun n _ => ?_) fun n₅ _ ptr => ?_
  · exact joinParts_ofNat (c := 0) (by omega) (by omega) (by omega) (by omega)
  refine addGroup_eq 14 _ 3 (by decide) ptr (fun n _ => ?_) fun n₆ _ ptr => ?_
  · exact joinParts_ofNat (c := 0) (by omega) (by omega) (by omega) (by omega)
  refine addGroup_eq 21 _ 2 (by decide) ptr (fun n _ => ?_) fun n₇ _ ptr => ?_
  · exact joinParts_ofNat (c := 0) (by omega) (by omega) (by omega) (by omega)
  refine addGroup_eq 0 0 1 (by decide) ptr (fun n _ => ?_) fun n₈ _ ptr => ?_
  · exact joinParts_ofNat (by omega) (by omega) (by omega) (by omega)
  refine addGroup_eq 7 _ 0 (by decide) ptr (fun n _ => ?_) fun n₉ _ ptr => ?_
  · exact joinParts_ofNat (by omega) (by omega) (by omega) (by omega)
  rw [ofDecode, decode, if_pos (Nat.zero_le _)]

/-! ## From the stream -/

/-- The stream with these bytes left before its limit. -/
def CodedInputStream.leaving (s : CodedInputStream) (rest : List UInt8) : CodedInputStream :=
  { s with buffer := rest }

section Leaving

variable (s : CodedInputStream) (rest : List UInt8)

@[simp] theorem leaving_buffer : (s.leaving rest).buffer = rest := rfl

@[simp] theorem leaving_leaving (more : List UInt8) :
    (s.leaving rest).leaving more = s.leaving more := rfl

@[simp] theorem leaving_legitimateMessageEnd :
    (s.leaving rest).legitimateMessageEnd = s.legitimateMessageEnd := rfl

theorem advance_one {b : UInt8} {tail : List UInt8} (h : s.buffer = b :: tail) :
    s.advance 1 = s.leaving tail := by
  have hNone : 1 - (tail.length + 1) = 0 := by omega
  simp only [CodedInputStream.advance, CodedInputStream.leaving, h, List.length_cons, hNone,
    List.drop_succ_cons, List.drop_zero, Nat.add_zero]

theorem atBufferEnd_cons {b : UInt8} {tail : List UInt8} (h : s.buffer = b :: tail) :
    s.atBufferEnd = false := by
  rw [CodedInputStream.atBufferEnd, h]
  rfl

theorem ahead_cons {b : UInt8} {tail : List UInt8} (h : s.buffer = b :: tail) :
    s.ahead = b :: (tail ++ s.afterLimit) := by
  rw [CodedInputStream.ahead, h, List.cons_append]

end Leaving

/-- The stream asks for no more bytes: where the buffer ends, `Refresh` stops, as `input_` is
null. -/
def AtLimit (s : CodedInputStream) : Prop :=
  s.beyond = 0 ∧ (s.bufferSizeAfterLimit > 0 ∨ s.totalBytesRead = s.currentLimit)

theorem AtLimit.atBufferEnd_iff {s : CodedInputStream} (h : AtLimit s) :
    s.atBufferEnd = true ↔ s.buffer = [] := by
  simp [CodedInputStream.atBufferEnd, h.1]

theorem refresh_atLimit {α : Type} {s : CodedInputStream} (h : AtLimit s) :
    refresh (α := α) s = .fails s :=
  if_pos h.2

theorem or_shift {acc n k : Nat} (hk : k < 64) (hAcc : acc < 2 ^ k) :
    UInt64.ofNat acc ||| UInt64.ofNat n <<< UInt64.ofNat k = UInt64.ofNat (acc + 2 ^ k * n) := by
  have hPow : 2 ^ 64 = 2 ^ (64 - k) * 2 ^ k := by
    rw [← Nat.pow_add, Nat.sub_add_cancel (Nat.le_of_lt hk)]
  have hLe : 2 ^ k < 2 ^ 64 := Nat.pow_lt_pow_right (by decide) hk
  have hShift : n % 2 ^ 64 * 2 ^ k % 2 ^ 64 = 2 ^ k * (n % 2 ^ (64 - k)) := by
    rw [Nat.mod_mul_mod, hPow, Nat.mul_mod_mul_right, Nat.mul_comm]
  have hOr : acc ||| 2 ^ k * (n % 2 ^ (64 - k)) = 2 ^ k * (n % 2 ^ (64 - k)) + acc := by
    rw [Nat.or_comm, ← Nat.two_pow_add_eq_or_of_lt hAcc]
  have hSum : (acc + 2 ^ k * n) % 2 ^ 64 = 2 ^ k * (n % 2 ^ (64 - k)) + acc := by
    rw [hPow, Nat.mul_comm (2 ^ (64 - k)), Nat.mod_mul, Nat.add_mul_mod_self_left,
      Nat.mod_eq_of_lt hAcc, Nat.add_mul_div_left _ _ (Nat.two_pow_pos k),
      Nat.div_eq_of_lt hAcc, Nat.zero_add, Nat.add_comm]
  apply UInt64.toNat.inj
  rw [UInt64.toNat_or, UInt64.toNat_shiftLeft, UInt64.toNat_ofNat', UInt64.toNat_ofNat',
    UInt64.toNat_ofNat', UInt64.toNat_ofNat', Nat.mod_eq_of_lt (show k < 2 ^ 64 by omega),
    Nat.mod_eq_of_lt hk, Nat.shiftLeft_eq, hShift, Nat.mod_eq_of_lt (by omega), hOr, hSum]

theorem and_0x7F (b : UInt8) : (b &&& 0x7F).toUInt64 = UInt64.ofNat (b.toNat % 128) := by
  apply UInt64.toNat.inj
  rw [UInt8.toNat_toUInt64, UInt8.toNat_and, UInt64.toNat_ofNat',
    Nat.mod_eq_of_lt (show b.toNat % 128 < 2 ^ 64 by omega)]
  exact Nat.and_two_pow_sub_one_eq_mod b.toNat 7

theorem readVarint64Loop_some {left n : Nat} (count acc : Nat) {rest : List UInt8}
    {s : CodedInputStream}
    (hCount : left + count = 10) (hAcc : acc < 2 ^ (7 * count))
    (h : decode left s.buffer = some (n, rest)) :
    readVarint64Loop left count (UInt64.ofNat acc) s =
      .returns (UInt64.ofNat (acc + 2 ^ (7 * count) * n)) (s.leaving rest) := by
  induction left generalizing count acc n s with
  | zero => cases h
  | succ left ih =>
    cases hBuffer : s.buffer with
    | nil =>
      rw [hBuffer] at h
      cases h
    | cons b tail =>
      have hByte := b.toNat_lt
      have hPow : 2 ^ (7 * (count + 1)) = 2 ^ (7 * count) * 128 := by
        rw [Nat.mul_add, Nat.pow_add]
      rw [hBuffer, decode] at h
      rw [readVarint64Loop, atBufferEnd_cons s hBuffer, ahead_cons s hBuffer]
      simp only [and_0x7F, or_shift (show 7 * count < 64 by omega) hAcc, byte_and_0x80,
        advance_one s hBuffer, Bool.false_eq_true, if_false]
      split at h
      · rename_i hSmall
        cases h
        rw [if_pos hSmall, Nat.mod_eq_of_lt hSmall]
      · rename_i hLarge
        obtain ⟨⟨high, tail'⟩, hHigh, hEq⟩ := Option.map_eq_some_iff.mp h
        cases hEq
        have hMod : b.toNat % 128 = b.toNat - 128 := by omega
        have hLe := Nat.mul_le_mul_left (2 ^ (7 * count)) (show b.toNat - 128 ≤ 127 by omega)
        rw [if_neg hLarge, hMod, ih _ _ (by omega) (by omega) hHigh, hPow, Nat.mul_add,
          ← Nat.mul_assoc, Nat.add_assoc, leaving_leaving]

theorem readVarint64Loop_none {left count : Nat} {result : UInt64} {s : CodedInputStream}
    (hEnd : AtLimit s ∨ left ≤ s.buffer.length) (h : decode left s.buffer = none) :
    ∃ rest, readVarint64Loop left count result s = .fails (s.leaving rest) := by
  induction left generalizing count result s with
  | zero => exact ⟨s.buffer, rfl⟩
  | succ left ih =>
    cases hBuffer : s.buffer with
    | nil =>
      rcases hEnd with hLimit | hShort
      · rw [readVarint64Loop, if_pos (hLimit.atBufferEnd_iff.mpr hBuffer)]
        exact ⟨s.buffer, refresh_atLimit hLimit⟩
      · rw [hBuffer] at hShort
        cases hShort
    | cons b tail =>
      have hTail : AtLimit (s.leaving tail) ∨ left ≤ (s.leaving tail).buffer.length := by
        refine hEnd.imp (fun hLimit => hLimit) fun hLength => ?_
        rw [hBuffer, List.length_cons] at hLength
        exact Nat.le_of_succ_le_succ hLength
      rw [hBuffer, decode] at h
      rw [readVarint64Loop, atBufferEnd_cons s hBuffer, ahead_cons s hBuffer]
      split at h
      · cases h
      · rename_i hLarge
        simp only [byte_and_0x80, if_neg hLarge, advance_one s hBuffer, Bool.false_eq_true,
          if_false]
        exact ih hTail (Option.map_eq_none_iff.mp h)

theorem unchecked_nil {s : CodedInputStream} (h : s.buffer = []) : unchecked s = false := by
  have hSize : ¬ s.bufferSize ≥ kMaxVarintBytes := by
    rw [CodedInputStream.bufferSize, h, kMaxVarintBytes, List.length_nil]
    omega
  rw [unchecked, h]
  simp [hSize]

/-- The check before the readers without checks. -/
theorem unchecked_spec {s : CodedInputStream} (h : unchecked s = true)
    (hNone : decode 10 s.buffer = none) : 10 ≤ s.buffer.length := by
  rw [decode_eq_none_iff] at hNone
  by_contra hShort
  rw [List.take_of_length_le (by omega)] at hNone
  rw [unchecked, CodedInputStream.bufferSize, kMaxVarintBytes] at h
  cases hLast : s.buffer.getLast? with
  | none =>
    rw [hLast] at h
    simp only [ge_iff_le, Bool.or_false, decide_eq_true_eq] at h
    omega
  | some b =>
    have hTop := hNone b (List.mem_of_getLast? hLast)
    rw [hLast] at h
    simp only [byte_and_0x80, ge_iff_le, Bool.or_eq_true, decide_eq_true_eq] at h
    omega

theorem ofDecode_unchecked {α : Type} (value : Nat → α) {s : CodedInputStream}
    (h : unchecked s = true) :
    ofDecode value 10 s.buffer =
      match decode 10 s.buffer with
      | some (n, rest) => .done (value n) rest
      | none => .corrupt := by
  rw [ofDecode]
  cases hDecode : decode 10 s.buffer with
  | none => exact if_pos (unchecked_spec h hDecode)
  | some next => rfl

section Stream

variable {s : CodedInputStream} {n : Nat} {rest : List UInt8}

theorem readVarint64Fallback_some (h : decode 10 s.buffer = some (n, rest)) :
    readVarint64Fallback s = .returns (UInt64.ofNat n) (s.leaving rest) := by
  rw [readVarint64Fallback]
  split
  · rename_i hUnchecked
    rw [readVarint64FromArray_eq, ofDecode_unchecked _ hUnchecked, h]
    rfl
  · have hLoop := readVarint64Loop_some 0 0 rfl (by decide) h
    simpa [readVarint64Slow, kMaxVarintBytes] using hLoop

theorem readVarint64Fallback_of_none (h : decode 10 s.buffer = none) :
    readVarint64Fallback s = if unchecked s then .fails s else readVarint64Slow s := by
  rw [readVarint64Fallback]
  split
  · rename_i hUnchecked
    rw [readVarint64FromArray_eq, ofDecode_unchecked _ hUnchecked, h]
  · rfl

theorem readVarint64Fallback_none (hLimit : AtLimit s) (h : decode 10 s.buffer = none) :
    ∃ rest, readVarint64Fallback s = .fails (s.leaving rest) := by
  rw [readVarint64Fallback_of_none h]
  split
  · exact ⟨s.buffer, rfl⟩
  · exact readVarint64Loop_none (Or.inl hLimit) h

theorem decode_cons_small {b : UInt8} {tail : List UInt8} (hBuffer : s.buffer = b :: tail)
    (hb : b.toNat < 128) : decode 10 s.buffer = some (b.toNat, tail) := by
  rw [hBuffer, decode, if_pos hb]

theorem toUInt64_eq_ofNat (b : UInt8) : b.toUInt64 = UInt64.ofNat b.toNat := by
  have hByte := b.toNat_lt
  apply UInt64.toNat.inj
  rw [UInt8.toNat_toUInt64, UInt64.toNat_ofNat', Nat.mod_eq_of_lt (by omega)]

theorem toUInt32_ofNat64 (n : Nat) : (UInt64.ofNat n).toUInt32 = UInt32.ofNat n := by
  apply UInt32.toNat.inj
  rw [UInt64.toNat_toUInt32, UInt64.toNat_ofNat', UInt32.toNat_ofNat']
  omega

theorem readVarint64_some (h : decode 10 s.buffer = some (n, rest)) :
    readVarint64 s = .returns (UInt64.ofNat n) (s.leaving rest) := by
  cases hBuffer : s.buffer with
  | nil =>
    rw [hBuffer] at h
    cases h
  | cons b tail =>
    rw [readVarint64, hBuffer]
    simp only [byte_lt_0x80]
    split
    · rename_i hb
      rw [decode_cons_small hBuffer hb] at h
      cases h
      rw [advance_one s hBuffer, toUInt64_eq_ofNat]
    · exact readVarint64Fallback_some h

theorem readVarint64_of_none (h : decode 10 s.buffer = none) :
    readVarint64 s = readVarint64Fallback s := by
  rw [readVarint64]
  cases hBuffer : s.buffer with
  | nil => rfl
  | cons b tail =>
    simp only [byte_lt_0x80]
    split
    · rename_i hb
      rw [decode_cons_small hBuffer hb] at h
      cases h
    · rfl

theorem readVarint64_none (hLimit : AtLimit s) (h : decode 10 s.buffer = none) :
    ∃ rest, readVarint64 s = .fails (s.leaving rest) := by
  rw [readVarint64_of_none h]
  exact readVarint64Fallback_none hLimit h

theorem readVarint32Slow_some (h : decode 10 s.buffer = some (n, rest)) :
    readVarint32Slow s = .returns (UInt32.ofNat n) (s.leaving rest) := by
  rw [readVarint32Slow, readVarint64Fallback_some h, Outcome.andThen, toUInt32_ofNat64]

theorem readVarint32Slow_none (hLimit : AtLimit s) (h : decode 10 s.buffer = none) :
    ∃ rest, readVarint32Slow s = .fails (s.leaving rest) := by
  obtain ⟨rest, hRead⟩ := readVarint64Fallback_none hLimit h
  exact ⟨rest, by rw [readVarint32Slow, hRead, Outcome.andThen]⟩

theorem readVarint32_some (h : decode 10 s.buffer = some (n, rest)) :
    readVarint32 s = .returns (UInt32.ofNat n) (s.leaving rest) := by
  cases hBuffer : s.buffer with
  | nil =>
    rw [hBuffer] at h
    cases h
  | cons b tail =>
    rw [readVarint32, hBuffer]
    simp only [byte_lt_0x80]
    split
    · rename_i hb
      rw [decode_cons_small hBuffer hb] at h
      cases h
      rw [advance_one s hBuffer, toUInt32_eq_ofNat]
    · rename_i hb
      rw [readVarint32Fallback]
      split
      · rename_i hUnchecked
        have hArray := readVarint32FromArray_eq (b := b) (by omega) tail
        rw [← hBuffer, ofDecode_unchecked _ hUnchecked, h] at hArray
        rw [hArray]
        rfl
      · exact readVarint32Slow_some h

theorem readVarint32_of_none (h : decode 10 s.buffer = none) :
    readVarint32 s = if unchecked s then .fails s else readVarint32Slow s := by
  cases hBuffer : s.buffer with
  | nil =>
    rw [readVarint32, hBuffer]
    simp only [readVarint32Fallback, unchecked_nil hBuffer]
    rfl
  | cons b tail =>
    rw [readVarint32, hBuffer]
    simp only [byte_lt_0x80]
    split
    · rename_i hb
      rw [decode_cons_small hBuffer hb] at h
      cases h
    · rename_i hb
      rw [readVarint32Fallback]
      split
      · rename_i hUnchecked
        have hArray := readVarint32FromArray_eq (b := b) (by omega) tail
        rw [← hBuffer, ofDecode_unchecked _ hUnchecked, h] at hArray
        rw [hArray]
      · rfl

theorem readVarint32_none (hLimit : AtLimit s) (h : decode 10 s.buffer = none) :
    ∃ rest, readVarint32 s = .fails (s.leaving rest) := by
  rw [readVarint32_of_none h]
  split
  · exact ⟨s.buffer, rfl⟩
  · exact readVarint32Slow_none hLimit h

/-- Both ways of reading a size refuse what does not fit into an `int`. -/
theorem readVarintSizeAsIntFallback_some (h : decode 10 s.buffer = some (n, rest)) :
    readVarintSizeAsIntFallback s =
      if n % 2 ^ 64 < 2 ^ 31 then .returns ((n % 2 ^ 64 : Nat) : Int) (s.leaving rest)
      else .fails (if unchecked s then s else s.leaving rest) := by
  have hMax : ((n % 2 ^ 64 : Nat) : Int) > kint32max ↔ ¬ n % 2 ^ 64 < 2 ^ 31 := by
    rw [kint32max]
    omega
  rw [readVarintSizeAsIntFallback]
  split
  · rename_i hUnchecked
    rw [readVarint64FromArray_eq, ofDecode_unchecked _ hUnchecked, h]
    simp only [UInt64.toNat_ofNat', hMax, ite_not]
    rfl
  · rw [readVarintSizeAsIntSlow, readVarint64Fallback_some h, Outcome.andThen]
    simp only [UInt64.toNat_ofNat', hMax, ite_not]

theorem readVarintSizeAsIntFallback_none (hLimit : AtLimit s) (h : decode 10 s.buffer = none) :
    ∃ rest, readVarintSizeAsIntFallback s = .fails (s.leaving rest) := by
  rw [readVarintSizeAsIntFallback]
  split
  · rename_i hUnchecked
    rw [readVarint64FromArray_eq, ofDecode_unchecked _ hUnchecked, h]
    exact ⟨s.buffer, rfl⟩
  · obtain ⟨rest, hRead⟩ := readVarint64Fallback_none hLimit h
    exact ⟨rest, by rw [readVarintSizeAsIntSlow, hRead, Outcome.andThen]⟩

theorem readVarintSizeAsInt_some (h : decode 10 s.buffer = some (n, rest))
    (hSize : n % 2 ^ 64 < 2 ^ 31) :
    readVarintSizeAsInt s = .returns ((n % 2 ^ 64 : Nat) : Int) (s.leaving rest) := by
  have hFallback := readVarintSizeAsIntFallback_some h
  rw [if_pos hSize] at hFallback
  cases hBuffer : s.buffer with
  | nil =>
    rw [hBuffer] at h
    cases h
  | cons b tail =>
    rw [readVarintSizeAsInt, hBuffer]
    simp only [byte_lt_0x80]
    split
    · rename_i hb
      rw [decode_cons_small hBuffer hb] at h
      cases h
      rw [advance_one s hBuffer, Nat.mod_eq_of_lt (by omega)]
    · exact hFallback

theorem readVarintSizeAsInt_refused (hLimit : AtLimit s)
    (h : ∀ n rest, decode 10 s.buffer = some (n, rest) → 2 ^ 31 ≤ n % 2 ^ 64) :
    ∃ rest, readVarintSizeAsInt s = .fails (s.leaving rest) := by
  have hFallback : ∃ rest, readVarintSizeAsIntFallback s = .fails (s.leaving rest) := by
    cases hDecode : decode 10 s.buffer with
    | none => exact readVarintSizeAsIntFallback_none hLimit hDecode
    | some next =>
      obtain ⟨n, rest⟩ := next
      have hLarge := h n rest hDecode
      rw [readVarintSizeAsIntFallback_some hDecode, if_neg (by omega)]
      split
      · exact ⟨s.buffer, rfl⟩
      · exact ⟨rest, rfl⟩
  rw [readVarintSizeAsInt]
  cases hBuffer : s.buffer with
  | nil => exact hFallback
  | cons b tail =>
    simp only [byte_lt_0x80]
    split
    · rename_i hb
      have hLarge := h b.toNat tail (decode_cons_small hBuffer hb)
      omega
    · exact hFallback

end Stream

end AndroidDemo.Protobuf
