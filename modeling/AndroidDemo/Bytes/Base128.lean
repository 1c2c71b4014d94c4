import Mathlib.Algebra.GroupWithZero.Nat
import Mathlib.Data.Nat.Log

/-! # Base 128 with continuation bits

A natural number as groups of seven bits, the lowest group first, every byte but
the last with its top bit set. A reader looks at a bounded number of bytes.
-/

namespace AndroidDemo.Base128

def encode (n : Nat) : List UInt8 :=
  if n < 128 then [UInt8.ofNat n] else UInt8.ofNat (n % 128 + 128) :: encode (n / 128)

/-- The number at the front of the bytes, if it ends within `limit` of them. -/
def decode : Nat → List UInt8 → Option (Nat × List UInt8)
  | 0, _ => none
  | _ + 1, [] => none
  | limit + 1, b :: bytes =>
    if b.toNat < 128 then some (b.toNat, bytes)
    else (decode limit bytes).map fun (high, rest) => (b.toNat - 128 + 128 * high, rest)

theorem encode_small {n : Nat} (h : n < 128) : encode n = [UInt8.ofNat n] := by
  rw [encode, if_pos h]

theorem encode_large {n : Nat} (h : 128 ≤ n) :
    encode n = UInt8.ofNat (n % 128 + 128) :: encode (n / 128) := by
  rw [encode, if_neg (by omega)]

theorem encode_ne_nil (n : Nat) : encode n ≠ [] := by
  rw [encode]
  split <;> simp

theorem encode_length_pos (n : Nat) : 0 < (encode n).length :=
  List.length_pos_iff.mpr (encode_ne_nil n)

theorem encode_length (n : Nat) : (encode n).length = Nat.log 128 n + 1 := by
  induction n using Nat.strongRecOn with
  | ind n ih =>
    rcases Nat.lt_or_ge n 128 with h | h
    · rw [encode_small h, Nat.log_of_lt h]
      rfl
    · have hLog := Nat.log_div_base 128 n
      have hPos := Nat.log_pos (by decide) h
      rw [encode_large h, List.length_cons, ih (n / 128) (by omega), hLog]
      omega

theorem encode_length_le {n k : Nat} (h : n < 128 ^ (k + 1)) : (encode n).length ≤ k + 1 := by
  rw [encode_length]
  have hLog := Nat.log_lt_of_lt_pow' (by omega) h
  omega

theorem encode_length_mono {m n : Nat} (h : m ≤ n) : (encode m).length ≤ (encode n).length := by
  rw [encode_length, encode_length]
  exact Nat.succ_le_succ (Nat.log_mono_right h)

/-! ## Reading what was written -/

theorem decode_encode_small {limit n : Nat} (h : n < 128) (rest : List UInt8) :
    decode (limit + 1) (encode n ++ rest) = some (n, rest) := by
  have hByte : (UInt8.ofNat n).toNat = n := by
    rw [UInt8.toNat_ofNat']
    omega
  rw [encode_small h, List.singleton_append, decode, hByte, if_pos h]

theorem decode_encode {limit n : Nat} (h : n < 128 ^ (limit + 1)) (rest : List UInt8) :
    decode (limit + 1) (encode n ++ rest) = some (n, rest) := by
  induction limit generalizing n with
  | zero => exact decode_encode_small (by simpa using h) rest
  | succ limit ih =>
    rcases Nat.lt_or_ge n 128 with hn | hn
    · exact decode_encode_small hn rest
    · have hByte : (UInt8.ofNat (n % 128 + 128)).toNat = n % 128 + 128 := by
        rw [UInt8.toNat_ofNat']
        omega
      have hHigh : n / 128 < 128 ^ (limit + 1) := by
        rw [Nat.div_lt_iff_lt_mul (by decide)]
        rwa [Nat.pow_succ] at h
      rw [encode_large hn, List.cons_append, decode, hByte, if_neg (by omega), ih hHigh]
      simp only [Option.map_some, Option.some.injEq, Prod.mk.injEq, and_true]
      omega

/-! ## What a reader accepts -/

section Reading

variable {limit n : Nat} {bytes rest : List UInt8}

theorem decode_shortens (h : decode limit bytes = some (n, rest)) : rest.length < bytes.length := by
  induction limit generalizing bytes n with
  | zero => cases h
  | succ limit ih =>
    cases bytes with
    | nil => cases h
    | cons b bytes =>
      rw [decode] at h
      split at h
      · cases h
        exact Nat.lt_succ_self _
      · obtain ⟨⟨high, tail⟩, hHigh, hEq⟩ := Option.map_eq_some_iff.mp h
        cases hEq
        exact Nat.lt_succ_of_lt (ih hHigh)

/-- No bytes for a number are fewer than those of its encoding. -/
theorem encode_length_le_decode (h : decode limit bytes = some (n, rest)) :
    (encode n).length + rest.length ≤ bytes.length := by
  induction limit generalizing bytes n with
  | zero => cases h
  | succ limit ih =>
    cases bytes with
    | nil => cases h
    | cons b bytes =>
      rw [decode] at h
      split at h
      · rename_i hSmall
        cases h
        rw [encode_small hSmall, List.length_singleton, List.length_cons]
        omega
      · obtain ⟨⟨high, tail⟩, hHigh, hEq⟩ := Option.map_eq_some_iff.mp h
        cases hEq
        have hRest := ih hHigh
        rw [List.length_cons]
        rcases Nat.lt_or_ge (b.toNat - 128 + 128 * high) 128 with hn | hn
        · have hPos := encode_length_pos high
          rw [encode_small hn, List.length_singleton]
          omega
        · have hByte := b.toNat_lt
          have hDiv : (b.toNat - 128 + 128 * high) / 128 = high := by omega
          rw [encode_large hn, List.length_cons, hDiv]
          omega

/-- A number is refused where each of the bytes looked at announces another one. -/
theorem decode_eq_none_iff :
    decode limit bytes = none ↔ ∀ b ∈ bytes.take limit, 128 ≤ b.toNat := by
  induction limit generalizing bytes with
  | zero => simp [decode]
  | succ limit ih =>
    cases bytes with
    | nil => simp [decode]
    | cons b bytes =>
      rw [decode]
      split
      · rename_i hSmall
        simp only [reduceCtorEq, List.take_succ_cons, List.mem_cons, forall_eq_or_imp, false_iff]
        omega
      · rename_i hLarge
        rw [Option.map_eq_none_iff, ih, List.take_succ_cons]
        simp only [List.mem_cons, forall_eq_or_imp]
        exact (and_iff_right (by omega)).symm

end Reading

end AndroidDemo.Base128
