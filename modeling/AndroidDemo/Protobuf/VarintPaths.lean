import AndroidDemo.Protobuf.Varint
import AndroidDemo.Protobuf.WireFormatLite

/-! # The paths of a varint

The reader chooses between the inline byte, the unrolled reader without checks and
the loop that checks, the writer between the array and the bytes beside it. Which
one it is makes no difference.
-/

namespace AndroidDemo.Protobuf

open AndroidDemo.Base128
open CodedInputStream

variable {s : CodedInputStream}

theorem readVarint64Slow_some {n : Nat} {rest : List UInt8}
    (h : decode 10 s.buffer = some (n, rest)) :
    readVarint64Slow s = .returns (UInt64.ofNat n) (s.leaving rest) := by
  have hLoop := readVarint64Loop_some 0 0 rfl (by decide) h
  rwa [Nat.zero_add, Nat.mul_zero, Nat.pow_zero, Nat.one_mul] at hLoop

theorem readVarint64Loop_ne_running {left count : Nat} {result : UInt64} (s : CodedInputStream) :
    readVarint64Loop left count result s ≠ .running := by
  intro hRunning
  induction left generalizing count result s with
  | zero => cases hRunning
  | succ left ih =>
    rw [readVarint64Loop] at hRunning
    split at hRunning
    · rw [refresh] at hRunning
      split at hRunning <;> cases hRunning
    · split at hRunning
      · cases hRunning
      · split at hRunning
        · cases hRunning
        · exact ih _ hRunning

/-- Every path gives what the loop gives, a read past the array included. -/
theorem readVarint_paths (s : CodedInputStream) :
    (∃ value t, readVarint64Slow s = .returns value t ∧ readVarint64Fallback s = .returns value t ∧
        readVarint64 s = .returns value t ∧ readVarint32 s = .returns value.toUInt32 t) ∨
      (∃ t₀ t₁ t₂ t₃, readVarint64Slow s = .fails t₀ ∧ readVarint64Fallback s = .fails t₁ ∧
        readVarint64 s = .fails t₂ ∧ readVarint32 s = .fails t₃) ∨
      (readVarint64Slow s = .overrun ∧ readVarint64Fallback s = .overrun ∧
        readVarint64 s = .overrun ∧ readVarint32 s = .overrun) := by
  cases hDecode : decode 10 s.buffer with
  | some next =>
    obtain ⟨n, rest⟩ := next
    refine Or.inl ⟨UInt64.ofNat n, s.leaving rest, readVarint64Slow_some hDecode,
      readVarint64Fallback_some hDecode, readVarint64_some hDecode, ?_⟩
    rw [readVarint32_some hDecode, toUInt32_ofNat64]
  | none =>
    have hFallback := readVarint64Fallback_of_none hDecode
    have h32 := readVarint32_of_none hDecode
    rw [readVarint64_of_none hDecode]
    by_cases hUnchecked : unchecked s
    · -- There are ten bytes, and none of them ends a varint.
      rw [if_pos hUnchecked] at hFallback h32
      obtain ⟨rest, hSlow⟩ : ∃ rest, readVarint64Slow s = .fails (s.leaving rest) :=
        readVarint64Loop_none (Or.inr (unchecked_spec hUnchecked hDecode)) hDecode
      exact Or.inr (Or.inl ⟨_, _, _, _, hSlow, hFallback, hFallback, h32⟩)
    · rw [if_neg hUnchecked] at hFallback h32
      rw [h32, readVarint32Slow, hFallback]
      cases hSlow : readVarint64Slow s with
      | returns value t => exact Or.inl ⟨value, t, rfl, rfl, rfl, rfl⟩
      | fails t => exact Or.inr (Or.inl ⟨t, t, t, t, rfl, rfl, rfl, rfl⟩)
      | overrun => exact Or.inr (Or.inr ⟨rfl, rfl, rfl, rfl⟩)
      | running => exact absurd hSlow (readVarint64Loop_ne_running s)

/-! ## Sizes -/

/-- The sizes that are computed first are the sizes that are written. -/
theorem varintSize_written (value : UInt64) (int32 : Int32) :
    varintSize64 value = (writeVarint64ToArray value).length ∧
      varintSize32 value.toUInt32 = (writeVarint32ToArray value.toUInt32).length ∧
      varintSize32SignExtended int32 = (writeVarint64ToArray (signExtended int32)).length :=
  ⟨varintSize64_eq value, varintSize32_eq value.toUInt32, varintSize32SignExtended_eq int32⟩

theorem readVarint64_eq_returns {t : CodedInputStream} {value : UInt64} (hLimit : AtLimit s)
    (h : readVarint64 s = .returns value t) :
    ∃ n rest, decode 10 s.buffer = some (n, rest) ∧ value = UInt64.ofNat n ∧
      t = s.leaving rest := by
  cases hDecode : decode 10 s.buffer with
  | some next =>
    obtain ⟨n, rest⟩ := next
    rw [readVarint64_some hDecode] at h
    cases h
    exact ⟨n, rest, rfl, rfl, rfl⟩
  | none =>
    obtain ⟨rest, hFails⟩ := readVarint64_none hLimit hDecode
    rw [hFails] at h
    cases h

/-- A value read from any bytes has taken as many of them as `VarintSize64` says, or more. -/
theorem varintSize64_le_read {t : CodedInputStream} {value : UInt64} (hLimit : AtLimit s)
    (h : readVarint64 s = .returns value t) :
    varintSize64 value + t.buffer.length ≤ s.buffer.length := by
  obtain ⟨n, rest, hDecode, rfl, rfl⟩ := readVarint64_eq_returns hLimit h
  have hLe := encode_length_le_decode hDecode
  have hMono := encode_length_mono (Nat.mod_le n (2 ^ 64))
  rw [varintSize64_eq, writeVarint64ToArray_eq, UInt64.toNat_ofNat']
  exact Nat.le_trans (Nat.add_le_add_right hMono rest.length) hLe

/-- Three bytes for a zero, where one would do. -/
theorem varintSize64_le_read_zero :
    varintSize64 0 + 1 ≤ (CodedInputStream.ofArray [0x80, 0x80, 0, 7]).buffer.length :=
  varintSize64_le_read (s := .ofArray [0x80, 0x80, 0, 7])
    (t := .leaving (.ofArray [0x80, 0x80, 0, 7]) [7]) ⟨rfl, Or.inr rfl⟩ rfl

/-! ## Written and read -/

theorem writeVarint64ToArray_read (value : UInt64) {more : List UInt8}
    (h : s.buffer = writeVarint64ToArray value ++ more) :
    readVarint64 s = .returns value (s.leaving more) ∧
      readVarint32 s = .returns value.toUInt32 (s.leaving more) := by
  have hLt := value.toNat_lt
  have hDecode : decode 10 s.buffer = some (value.toNat, more) := by
    rw [h, writeVarint64ToArray_eq]
    exact decode_encode (by omega) more
  rw [readVarint64_some hDecode, readVarint32_some hDecode, UInt64.ofNat_toNat]
  exact ⟨rfl, rfl⟩

/-- A negative value goes out in ten bytes and comes back through the 32-bit reader. -/
theorem writeInt32_read (value : Int32) {more : List UInt8}
    (h : s.buffer = writeVarint64ToArray (signExtended value) ++ more) :
    readInt32 s = .returns value (s.leaving more) ∧
      s.buffer.length = int32Size value + more.length := by
  have hRead := (writeVarint64ToArray_read (signExtended value) h).2
  have hWord : (signExtended value).toUInt32 = value.toUInt32 := signExtended_toUInt32 value
  rw [readInt32, hRead, hWord, h, List.length_append, int32Size, varintSize32SignExtended_eq]
  exact ⟨rfl, rfl⟩

/-- Ten bytes for a negative value, and one behind them. -/
theorem writeInt32_read_negative :
    readInt32 (.ofArray [254, 255, 255, 255, 255, 255, 255, 255, 255, 1, 7]) =
        .returns (-2)
          (.leaving (.ofArray [254, 255, 255, 255, 255, 255, 255, 255, 255, 1, 7]) [7]) ∧
      11 = int32Size (-2) + 1 := by
  have hWord : (signExtended (-2)).toNat = 2 ^ 64 - 2 := by decide
  have hWritten : writeVarint64ToArray (signExtended (-2)) =
      [254, 255, 255, 255, 255, 255, 255, 255, 255, 1] := by
    rw [writeVarint64ToArray_eq, hWord]
    simp [encode]
  refine writeInt32_read (-2)
    (s := .ofArray [254, 255, 255, 255, 255, 255, 255, 255, 255, 1, 7]) ?_
  rw [hWritten]
  rfl

end AndroidDemo.Protobuf
