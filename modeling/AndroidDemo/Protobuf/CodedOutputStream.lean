import AndroidDemo.Bytes.Base128
import Mathlib.Data.Nat.Bitwise
import Mathlib.Data.Nat.Log

/-! # Writing

`CodedOutputStream` of io/coded_stream.h over an `ArrayOutputStream`: one block,
handed out by the constructor and never a second one.
-/

namespace AndroidDemo.Protobuf

open AndroidDemo.Base128

def writeVarint32ToArray (value : UInt32) : List UInt8 :=
  if 0x80 ≤ value then (value ||| 0x80).toUInt8 :: writeVarint32ToArray (value >>> 7)
  else [value.toUInt8]
termination_by value.toNat
decreasing_by
  rename_i h
  have hValue : 128 ≤ value.toNat := UInt32.le_iff_toNat_le.mp h
  change (value.toNat >>> 7) < value.toNat
  rw [Nat.shiftRight_eq_div_pow]
  omega

def writeVarint64ToArray (value : UInt64) : List UInt8 :=
  if 0x80 ≤ value then (value ||| 0x80).toUInt8 :: writeVarint64ToArray (value >>> 7)
  else [value.toUInt8]
termination_by value.toNat
decreasing_by
  rename_i h
  have hValue : 128 ≤ value.toNat := UInt64.le_iff_toNat_le.mp h
  change (value.toNat >>> 7) < value.toNat
  rw [Nat.shiftRight_eq_div_pow]
  omega

/-- `static_cast<uint64>` of an `int32` extends the sign. -/
def signExtended (value : Int32) : UInt64 := value.toInt64.toUInt64

/-- `Bits::Log2FloorNonZero` -/
def log2FloorNonZero (n : Nat) : Nat := Nat.log2 n

def varintSize32 (value : UInt32) : Nat := (log2FloorNonZero (value ||| 1).toNat * 9 + 73) / 64

def varintSize64 (value : UInt64) : Nat := (log2FloorNonZero (value ||| 1).toNat * 9 + 73) / 64

def varintSize32SignExtended (value : Int32) : Nat :=
  if value < 0 then 10 else varintSize32 value.toUInt32

structure CodedOutputStream where
  written : List UInt8
  bufferSize : Nat
  hadError : Bool

namespace CodedOutputStream

/-- A stream over an array of `size` bytes. An array without bytes is no error yet. -/
def ofArray (size : Nat) : CodedOutputStream where
  written := []
  bufferSize := size
  hadError := false

/-- The array has no second block. -/
def refresh (output : CodedOutputStream) : CodedOutputStream :=
  { output with bufferSize := 0, hadError := true }

def advance (output : CodedOutputStream) (bytes : List UInt8) : CodedOutputStream :=
  { output with written := output.written ++ bytes, bufferSize := output.bufferSize - bytes.length }

def writeRaw (output : CodedOutputStream) (data : List UInt8) : CodedOutputStream :=
  if output.bufferSize < data.length then (output.advance (data.take output.bufferSize)).refresh
  else output.advance data

def writeVarint32 (output : CodedOutputStream) (value : UInt32) : CodedOutputStream :=
  if output.bufferSize ≥ 5 then output.advance (writeVarint32ToArray value)
  else output.writeRaw (writeVarint32ToArray value)

def writeVarint64 (output : CodedOutputStream) (value : UInt64) : CodedOutputStream :=
  if output.bufferSize ≥ 10 then output.advance (writeVarint64ToArray value)
  else output.writeRaw (writeVarint64ToArray value)

def writeVarint32SignExtended (output : CodedOutputStream) (value : Int32) : CodedOutputStream :=
  output.writeVarint64 (signExtended value)

end CodedOutputStream

/-! ## Varints -/

theorem or_0x80_mod (n : Nat) : (n ||| 128) % 256 = n % 128 + 128 := by
  have hOr (m : Nat) (hm : m < 128) : m ||| 128 = m + 128 := by
    have hAdd := Nat.two_pow_add_eq_or_of_lt (i := 7) hm 1
    rw [Nat.or_comm, Nat.add_comm]
    exact hAdd.symm
  have hMod : (n ||| 128) % 2 ^ 8 = n % 2 ^ 8 ||| 128 := Nat.or_mod_two_pow
  change (n ||| 128) % 2 ^ 8 = _
  rw [hMod]
  rcases Nat.lt_or_ge (n % 2 ^ 8) 128 with hn | hn
  · rw [hOr _ hn]
    omega
  · have hTop : n % 2 ^ 8 = n % 128 ||| 128 := by
      rw [hOr _ (Nat.mod_lt _ (by decide))]
      omega
    rw [hTop, Nat.or_assoc, Nat.or_self, hOr _ (Nat.mod_lt _ (by decide))]

theorem writeVarint32ToArray_eq (value : UInt32) :
    writeVarint32ToArray value = encode value.toNat := by
  induction hValue : value.toNat using Nat.strongRecOn generalizing value with
  | ind n ih =>
    subst hValue
    have hShift : (value >>> 7).toNat = value.toNat / 128 := by
      change value.toNat >>> 7 = _
      rw [Nat.shiftRight_eq_div_pow]
    rw [writeVarint32ToArray]
    split
    · rename_i h
      have hLarge : 128 ≤ value.toNat := UInt32.le_iff_toNat_le.mp h
      rw [encode_large hLarge, ih _ (by omega) (value >>> 7) rfl, hShift]
      congr 1
      apply UInt8.toNat.inj
      rw [UInt32.toNat_toUInt8, UInt32.toNat_or, UInt8.toNat_ofNat']
      change (value.toNat ||| 128) % 256 = (value.toNat % 128 + 128) % 256
      rw [or_0x80_mod]
      omega
    · rename_i h
      have hSmall : value.toNat < 128 := by
        rw [UInt32.le_iff_toNat_le] at h
        exact Nat.not_le.mp h
      rw [encode_small hSmall]
      rfl

theorem writeVarint64ToArray_eq (value : UInt64) :
    writeVarint64ToArray value = encode value.toNat := by
  induction hValue : value.toNat using Nat.strongRecOn generalizing value with
  | ind n ih =>
    subst hValue
    have hShift : (value >>> 7).toNat = value.toNat / 128 := by
      change value.toNat >>> 7 = _
      rw [Nat.shiftRight_eq_div_pow]
    rw [writeVarint64ToArray]
    split
    · rename_i h
      have hLarge : 128 ≤ value.toNat := UInt64.le_iff_toNat_le.mp h
      rw [encode_large hLarge, ih _ (by omega) (value >>> 7) rfl, hShift]
      congr 1
      apply UInt8.toNat.inj
      rw [UInt64.toNat_toUInt8, UInt64.toNat_or, UInt8.toNat_ofNat']
      change (value.toNat ||| 128) % 256 = (value.toNat % 128 + 128) % 256
      rw [or_0x80_mod]
      omega
    · rename_i h
      have hSmall : value.toNat < 128 := by
        rw [UInt64.le_iff_toNat_le] at h
        exact Nat.not_le.mp h
      rw [encode_small hSmall]
      rfl

theorem encode_length_le_five (value : UInt32) : (encode value.toNat).length ≤ 5 := by
  have hValue := value.toNat_lt
  exact encode_length_le (k := 4) (by omega)

theorem encode_length_le_ten (value : UInt64) : (encode value.toNat).length ≤ 10 := by
  have hValue := value.toNat_lt
  exact encode_length_le (k := 9) (by omega)

/-! ## The size of a varint -/

/-- The multiplication by 9 and the division by 64 divide by 7, for every shift of a 64-bit word. -/
theorem log2_formula {k : Nat} (hk : k < 64) : (k * 9 + 73) / 64 = k / 7 + 1 := by
  omega

theorem log2_or_one {n : Nat} (hn : n ≠ 0) : Nat.log2 (n ||| 1) = Nat.log2 n := by
  have hOr : n ||| 1 ≠ 0 := by
    have hLe := Nat.left_le_or (n := n) (m := 1)
    omega
  have hLt : n ||| 1 < 2 ^ (Nat.log2 n + 1) :=
    Nat.or_lt_two_pow (Nat.log2_lt hn |>.mp (Nat.lt_succ_self _)) (Nat.one_lt_two_pow (by omega))
  apply Nat.le_antisymm
  · exact Nat.le_of_lt_succ ((Nat.log2_lt hOr).mpr hLt)
  · rw [Nat.le_log2 hOr]
    exact (Nat.log2_self_le hn).trans Nat.left_le_or

theorem log_128 {n : Nat} (hn : n ≠ 0) : Nat.log 128 n = Nat.log2 n / 7 := by
  have hPow (k : Nat) : 128 ^ k = 2 ^ (7 * k) := by
    rw [Nat.pow_mul]
  apply Nat.log_eq_of_pow_le_of_lt_pow
  · rw [hPow]
    exact (Nat.pow_le_pow_right (by decide) (by omega)).trans (Nat.log2_self_le hn)
  · rw [hPow]
    exact (Nat.lt_log2_self (n := n)).trans_le (Nat.pow_le_pow_right (by decide) (by omega))

theorem varintSize_formula {n : Nat} (hn : n < 2 ^ 64) :
    (Nat.log2 (n ||| 1) * 9 + 73) / 64 = (encode n).length := by
  rcases eq_or_ne n 0 with rfl | hZero
  · rw [encode_small (by decide)]
    decide
  · have hLog : Nat.log2 n < 64 := (Nat.log2_lt hZero).mpr hn
    rw [log2_or_one hZero, log2_formula hLog, encode_length, log_128 hZero]

theorem varintSize32_eq (value : UInt32) :
    varintSize32 value = (writeVarint32ToArray value).length := by
  have hValue := value.toNat_lt
  rw [writeVarint32ToArray_eq, ← varintSize_formula (by omega), varintSize32, UInt32.toNat_or]
  rfl

theorem varintSize64_eq (value : UInt64) :
    varintSize64 value = (writeVarint64ToArray value).length := by
  rw [writeVarint64ToArray_eq, ← varintSize_formula value.toNat_lt, varintSize64, UInt64.toNat_or]
  rfl

theorem signExtended_toNat (value : Int32) :
    (signExtended value).toNat =
      value.toUInt32.toNat + if value < 0 then 2 ^ 64 - 2 ^ 32 else 0 := by
  have hSign : value < 0 ↔ value.toBitVec.msb = true := by
    rw [Int32.lt_iff_toBitVec_slt]
    exact Bool.coe_iff_coe.mpr BitVec.slt_zero_eq_msb
  have hBits : (signExtended value).toNat = (value.toBitVec.signExtend 64).toNat := rfl
  have hWord : (value.toBitVec.setWidth 64).toNat = value.toUInt32.toNat := by
    have hLt := value.toBitVec.isLt
    rw [BitVec.toNat_setWidth, Nat.mod_eq_of_lt (by omega)]
    rfl
  rw [hBits, BitVec.toNat_signExtend, hWord]
  simp only [hSign]

/-- A negative number takes ten bytes. -/
theorem varintSize32SignExtended_eq (value : Int32) :
    varintSize32SignExtended value = (writeVarint64ToArray (signExtended value)).length := by
  have hWord := value.toUInt32.toNat_lt
  have hNat := signExtended_toNat value
  rw [varintSize32SignExtended, writeVarint64ToArray_eq]
  split
  · rename_i hNegative
    rw [if_pos hNegative] at hNat
    have hLog : Nat.log 128 (signExtended value).toNat = 9 :=
      Nat.log_eq_of_pow_le_of_lt_pow (by omega) (by omega)
    rw [encode_length, hLog]
  · rename_i hPositive
    rw [if_neg hPositive, Nat.add_zero] at hNat
    rw [varintSize32_eq, writeVarint32ToArray_eq, hNat]

theorem signExtended_toUInt32 (value : Int32) :
    UInt32.ofNat (signExtended value).toNat = value.toUInt32 := by
  have hWord := value.toUInt32.toNat_lt
  apply UInt32.toNat.inj
  rw [UInt32.toNat_ofNat', signExtended_toNat]
  split <;> omega

/-! ## Every write is a raw write of its bytes -/

namespace CodedOutputStream

variable (output : CodedOutputStream)

theorem writeRaw_fits {data : List UInt8} (h : data.length ≤ output.bufferSize) :
    output.writeRaw data = output.advance data := by
  rw [writeRaw, if_neg (by omega)]

theorem writeRaw_short {data : List UInt8} (h : output.bufferSize < data.length) :
    output.writeRaw data = (output.advance (data.take output.bufferSize)).refresh := by
  rw [writeRaw, if_pos h]

theorem advance_bufferSize (data : List UInt8) :
    (output.advance data).bufferSize = output.bufferSize - data.length := rfl

@[simp]
theorem writeRaw_nil : output.writeRaw [] = output := by
  rw [writeRaw_fits output (Nat.zero_le _), advance, List.append_nil]
  rfl

/-- Where a piece finds no room, nothing behind it is written. -/
theorem writeRaw_append (data more : List UInt8) :
    output.writeRaw (data ++ more) = (output.writeRaw data).writeRaw more := by
  have hLength : (data ++ more).length = data.length + more.length := List.length_append
  rcases Nat.lt_or_ge output.bufferSize data.length with h | h
  · have hTake : (data ++ more).take output.bufferSize = data.take output.bufferSize :=
      List.take_append_of_le_length (by omega)
    rw [writeRaw_short output (by omega), hTake, writeRaw_short output h]
    cases more with
    | nil => rw [writeRaw_nil]
    | cons b more =>
      rw [writeRaw_short _ (Nat.succ_pos _)]
      simp [advance, refresh]
  · rw [writeRaw_fits output h]
    rcases Nat.lt_or_ge (output.bufferSize - data.length) more.length with hMore | hMore
    · have hTake : (data ++ more).take output.bufferSize =
          data ++ more.take (output.bufferSize - data.length) := by
        rw [List.take_append, List.take_of_length_le h]
      rw [writeRaw_short output (by omega), writeRaw_short _ (by rwa [advance_bufferSize]), hTake,
        advance_bufferSize]
      simp only [advance, refresh, List.append_assoc]
    · rw [writeRaw_fits output (by omega), writeRaw_fits _ (by rwa [advance_bufferSize])]
      simp only [advance, List.append_assoc, List.length_append, Nat.sub_sub]

theorem writeVarint32_eq (value : UInt32) :
    output.writeVarint32 value = output.writeRaw (encode value.toNat) := by
  have hLength := encode_length_le_five value
  rw [writeVarint32, writeVarint32ToArray_eq]
  split
  · rw [writeRaw_fits output (by omega)]
  · rfl

theorem writeVarint64_eq (value : UInt64) :
    output.writeVarint64 value = output.writeRaw (encode value.toNat) := by
  have hLength := encode_length_le_ten value
  rw [writeVarint64, writeVarint64ToArray_eq]
  split
  · rw [writeRaw_fits output (by omega)]
  · rfl

end CodedOutputStream

end AndroidDemo.Protobuf
