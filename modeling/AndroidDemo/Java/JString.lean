import Mathlib.Data.List.Chain

/-! # Java strings

A `String` is a sequence of UTF-16 units; nothing keeps surrogates in pairs.
`getBytes` uses the default charset, which is UTF-8 on Android.
-/

namespace AndroidDemo.Java

abbrev JString := List UInt16

/-- The exceptions of the language and its library, without their messages. -/
inductive RuntimeException
  | nullPointer
  | arrayIndexOutOfBounds
  | stringIndexOutOfBounds
  deriving DecidableEq

def isHighSurrogate (u : UInt16) : Bool := 0xD800 ≤ u.toNat && u.toNat ≤ 0xDBFF

def isLowSurrogate (u : UInt16) : Bool := 0xDC00 ≤ u.toNat && u.toNat ≤ 0xDFFF

/-- The bytes of a unit that is not half of a pair. A surrogate becomes `?`. -/
def encodeUnit (u : UInt16) : List UInt8 :=
  let n := u.toNat
  if n < 0x80 then [UInt8.ofNat n]
  else if n < 0x800 then [UInt8.ofNat (0xC0 + n / 64), UInt8.ofNat (0x80 + n % 64)]
  else if isHighSurrogate u || isLowSurrogate u then [63]
  else [UInt8.ofNat (0xE0 + n / 4096), UInt8.ofNat (0x80 + n / 64 % 64), UInt8.ofNat (0x80 + n % 64)]

def encodePair (high low : UInt16) : List UInt8 :=
  let n := 0x10000 + (high.toNat - 0xD800) * 0x400 + (low.toNat - 0xDC00)
  [UInt8.ofNat (0xF0 + n / 262144), UInt8.ofNat (0x80 + n / 4096 % 64),
    UInt8.ofNat (0x80 + n / 64 % 64), UInt8.ofNat (0x80 + n % 64)]

def getBytes : JString → List UInt8
  | [] => []
  | [u] => encodeUnit u
  | u :: v :: rest =>
    if isHighSurrogate u && isLowSurrogate v then encodePair u v ++ getBytes rest
    else encodeUnit u ++ getBytes (v :: rest)

/-- Every unit of the string stands for itself and is encoded in one byte: it is
ASCII, or a surrogate without its other half. -/
structure OneByteUnits (s : JString) : Prop where
  small : ∀ u ∈ s, u.toNat < 0x80 ∨ (isHighSurrogate u || isLowSurrogate u) = true
  unpaired : s.IsChain fun u v => ¬ (isHighSurrogate u && isLowSurrogate v) = true

theorem encodeUnit_length_pos (u : UInt16) : 1 ≤ (encodeUnit u).length := by
  simp only [encodeUnit]
  split
  · exact le_rfl
  · split
    · simp
    · split <;> simp

theorem encodeUnit_length_eq_one_iff (u : UInt16) :
    (encodeUnit u).length = 1 ↔
      u.toNat < 0x80 ∨ (isHighSurrogate u || isLowSurrogate u) = true := by
  have hSurrogate (h : (isHighSurrogate u || isLowSurrogate u) = true) : ¬ u.toNat < 0x800 := by
    simp only [isHighSurrogate, isLowSurrogate, Bool.or_eq_true, Bool.and_eq_true,
      decide_eq_true_eq] at h
    omega
  simp only [encodeUnit]
  split
  · rename_i hAscii
    simp [hAscii]
  · rename_i hAscii
    split
    · rename_i hTwo
      simp only [List.length_cons, List.length_nil]
      exact iff_of_false (by omega) (fun h => h.elim hAscii fun hs => hSurrogate hs hTwo)
    · split
      · rename_i hs
        exact iff_of_true rfl (.inr hs)
      · rename_i hs
        simp only [List.length_cons, List.length_nil]
        exact iff_of_false (by omega) (fun h => h.elim hAscii hs)

theorem length_le_getBytes (s : JString) : s.length ≤ (getBytes s).length := by
  induction s using getBytes.induct with
  | case1 => exact le_rfl
  | case2 u => exact encodeUnit_length_pos u
  | case3 u v rest hPair ih =>
    rw [getBytes, if_pos hPair, List.length_append]
    simp only [encodePair, List.length_cons, List.length_nil]
    omega
  | case4 u v rest hPair ih =>
    have hUnit := encodeUnit_length_pos u
    rw [getBytes, if_neg hPair, List.length_append, List.length_cons]
    omega

theorem getBytes_length_eq_iff (s : JString) :
    (getBytes s).length = s.length ↔ OneByteUnits s := by
  induction s using getBytes.induct with
  | case1 => exact iff_of_true rfl ⟨by simp, .nil⟩
  | case2 u =>
    rw [getBytes, List.length_singleton, encodeUnit_length_eq_one_iff]
    exact ⟨fun h => ⟨by simpa using h, .singleton u⟩, fun h => h.small u (by simp)⟩
  | case3 u v rest hPair _ =>
    have hRest := length_le_getBytes rest
    rw [getBytes, if_pos hPair, List.length_append]
    refine iff_of_false ?_ fun h => List.rel_of_isChain_cons_cons h.unpaired hPair
    simp only [encodePair, List.length_cons, List.length_nil]
    omega
  | case4 u v rest hPair ih =>
    have hUnit := encodeUnit_length_pos u
    have hRest := length_le_getBytes (v :: rest)
    rw [getBytes, if_neg hPair, List.length_append, List.length_cons]
    have hSplit : (encodeUnit u).length + (getBytes (v :: rest)).length = (v :: rest).length + 1 ↔
        (encodeUnit u).length = 1 ∧ (getBytes (v :: rest)).length = (v :: rest).length := by omega
    rw [hSplit, ih, encodeUnit_length_eq_one_iff]
    constructor
    · rintro ⟨hSmall, hTail⟩
      exact ⟨List.forall_mem_cons.mpr ⟨hSmall, hTail.small⟩, .cons_cons hPair hTail.unpaired⟩
    · intro h
      obtain ⟨hSmall, hTail⟩ := List.forall_mem_cons.mp h.small
      exact ⟨hSmall, hTail, h.unpaired.of_cons⟩

end AndroidDemo.Java
