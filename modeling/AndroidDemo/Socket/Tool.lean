import Mathlib.Data.Nat.Digits.Defs
import Mathlib.Data.List.GetD
import Mathlib.Data.List.Induction

/-! # Byte order

`Tool::swap_endian` of util/Tool.h on the object representation of an integer of
`w` bytes. The host is little-endian, as both ABIs of the library are.
-/

namespace AndroidDemo.Socket

def storeInt (w : Nat) (t : BitVec (8 * w)) : List UInt8 :=
  (List.range w).map fun i => UInt8.ofNat (t.toNat / 256 ^ i)

def loadInt (w : Nat) (bytes : List UInt8) : BitVec (8 * w) :=
  BitVec.ofNat (8 * w) (Nat.ofDigits 256 (bytes.map UInt8.toNat))

def swapLoop (input : List UInt8) : Nat → Nat → List UInt8 → List UInt8
  | 0, _, tmp => tmp
  | i + 1, j, tmp => swapLoop input i (j + 1) (tmp.set i (input.getD j 0))

def swapEndian (w : Nat) (t : BitVec (8 * w)) : BitVec (8 * w) :=
  loadInt w (swapLoop (storeInt w t) w 0 (List.replicate w 0))

/-- The value of bytes read most significant first. -/
def bigEndian (bytes : List UInt8) : Nat :=
  bytes.foldl (fun acc b => 256 * acc + b.toNat) 0

/-! ## The loop reverses the bytes -/

theorem swapLoop_length (input : List UInt8) (i j : Nat) (tmp : List UInt8) :
    (swapLoop input i j tmp).length = tmp.length := by
  induction i generalizing j tmp with
  | zero => rfl
  | succ i ih => rw [swapLoop, ih, List.length_set]

theorem swapLoop_getD (input : List UInt8) (i j : Nat) (tmp : List UInt8) (n : Nat)
    (hi : i ≤ tmp.length) :
    (swapLoop input i j tmp).getD n 0 =
      if n < i then input.getD (j + (i - 1 - n)) 0 else tmp.getD n 0 := by
  induction i generalizing j tmp with
  | zero => simp [swapLoop]
  | succ i ih =>
    rw [swapLoop, ih (j + 1) _ (by simp; omega)]
    rcases Nat.lt_trichotomy n i with h | h | h
    · rw [if_pos h, if_pos (by omega)]
      congr 1
      omega
    · subst h
      simp [List.getD_eq_getElem?_getD, show n < tmp.length by omega]
    · rw [if_neg (by omega), if_neg (by omega), List.getD_eq_getElem?_getD,
        List.getElem?_set_ne (by omega), List.getD_eq_getElem?_getD]

theorem swapLoop_eq_reverse (input : List UInt8) :
    swapLoop input input.length 0 (List.replicate input.length 0) = input.reverse := by
  apply List.ext_getElem
  · simp [swapLoop_length]
  · intro n hn hn'
    have h := swapLoop_getD input input.length 0 (List.replicate input.length 0) n (by simp)
    have hLen : n < input.length := by simpa using hn'
    rw [List.getD_eq_getElem _ _ hn, if_pos hLen, Nat.zero_add,
      List.getD_eq_getElem _ _ (by omega)] at h
    rw [h, List.getElem_reverse]

theorem storeInt_length (w : Nat) (t : BitVec (8 * w)) : (storeInt w t).length = w := by
  simp [storeInt]

theorem ofDigits_bytes_lt (bytes : List UInt8) :
    Nat.ofDigits 256 (bytes.map UInt8.toNat) < 256 ^ bytes.length := by
  have h := Nat.ofDigits_lt_base_pow_length (b := 256) (l := bytes.map UInt8.toNat) (by decide) (by
    intro x hx
    obtain ⟨b, _, rfl⟩ := List.mem_map.mp hx
    exact b.toNat_lt)
  simpa using h

theorem loadInt_toNat {w : Nat} {bytes : List UInt8} (h : bytes.length = w) :
    (loadInt w bytes).toNat = Nat.ofDigits 256 (bytes.map UInt8.toNat) := by
  have hLt := ofDigits_bytes_lt bytes
  rw [h] at hLt
  rw [loadInt, BitVec.toNat_ofNat]
  apply Nat.mod_eq_of_lt
  rwa [Nat.pow_mul]

theorem ofDigits_div_pow (bytes : List UInt8) (i : Nat) :
    Nat.ofDigits 256 (bytes.map UInt8.toNat) / 256 ^ i =
      Nat.ofDigits 256 ((bytes.drop i).map UInt8.toNat) := by
  induction i generalizing bytes with
  | zero => simp
  | succ i ih =>
    cases bytes with
    | nil => simp
    | cons b bytes =>
      have hb : b.toNat < 256 := b.toNat_lt
      rw [List.map_cons, Nat.ofDigits_cons, Nat.pow_succ', ← Nat.div_div_eq_div_mul,
        List.drop_succ_cons, ← ih bytes]
      congr 1
      omega

theorem storeInt_loadInt {w : Nat} {bytes : List UInt8} (h : bytes.length = w) :
    storeInt w (loadInt w bytes) = bytes := by
  apply List.ext_getElem
  · rw [storeInt_length, h]
  · intro i hi hi'
    simp only [storeInt, List.getElem_map, List.getElem_range, loadInt_toNat h,
      ofDigits_div_pow, List.drop_eq_getElem_cons hi', List.map_cons, Nat.ofDigits_cons]
    apply UInt8.toNat_inj.mp
    have hb := bytes[i].toNat_lt
    rw [UInt8.toNat_ofNat']
    omega

theorem swapEndian_loadInt {w : Nat} {bytes : List UInt8} (h : bytes.length = w) :
    swapEndian w (loadInt w bytes) = loadInt w bytes.reverse := by
  rw [swapEndian, storeInt_loadInt h]
  subst h
  rw [swapLoop_eq_reverse]

theorem bigEndian_eq_ofDigits (bytes : List UInt8) :
    bigEndian bytes = Nat.ofDigits 256 (bytes.reverse.map UInt8.toNat) := by
  induction bytes using List.reverseRecOn with
  | nil => rfl
  | append_singleton bytes b ih =>
    rw [bigEndian, List.foldl_append, List.reverse_append, List.reverse_singleton,
      List.singleton_append, List.map_cons, Nat.ofDigits_cons, ← ih]
    simp [bigEndian, Nat.add_comm]

theorem swapEndian_toNat {w : Nat} (bytes : List UInt8) (h : bytes.length = w) :
    (swapEndian w (loadInt w bytes)).toNat = bigEndian bytes := by
  rw [swapEndian_loadInt h, loadInt_toNat (by simpa using h), bigEndian_eq_ofDigits]

example : swapEndian 4 0x01020304 = 0x04030201 := by decide

end AndroidDemo.Socket
