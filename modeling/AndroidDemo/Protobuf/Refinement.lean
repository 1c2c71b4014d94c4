import AndroidDemo.Os.ByteOrder
import AndroidDemo.Protobuf.FlatStream
import AndroidDemo.Protobuf.Wire

/-! # The parser reads the meaning

The parser over a stream returns what the readers on lists give, and returns false
where they refuse. It never reads past the end, and its fuel is enough.
-/

namespace AndroidDemo.Protobuf

open AndroidDemo.Base128
open AndroidDemo.Readers
open AndroidDemo.Socket
open CodedInputStream

structure Ready (depth : Nat) (s : CodedInputStream) : Prop where
  flat : Flat s
  unended : s.legitimateMessageEnd = false
  budget : s.recursionBudget = depth

/-- A call on the stream and what it stands for on the bytes before the limit. -/
def Matches {α : Type} (r : Outcome α) (s : CodedInputStream) : Option (α × List UInt8) → Prop
  | some (a, rest) => rest.length ≤ s.buffer.length ∧ ∃ t, r = .returns a (s.at t rest)
  | none => ∃ s', r = .fails s'

section Rules

variable {α β : Type} {depth n : Nat} {s : CodedInputStream} {rest : List UInt8}

theorem Ready.at (hReady : Ready depth s) (t : UInt32) (h : rest.length ≤ s.buffer.length) :
    Ready depth (s.at t rest) :=
  ⟨hReady.flat.at t h, hReady.unended, hReady.budget⟩

theorem Matches.fails {r : Outcome α} {t : CodedInputStream} (h : r = .fails t) :
    Matches r s none :=
  ⟨t, h⟩

theorem Matches.returns {r : Outcome α} {a : α} {t : UInt32} (h : r = .returns a (s.at t rest))
    (hLe : rest.length ≤ s.buffer.length) : Matches r s (some (a, rest)) :=
  ⟨hLe, t, h⟩

theorem Matches.andThen {r : Outcome α} {read : Option (α × List UInt8)}
    {f : α → CodedInputStream → Outcome β} {g : α → List UInt8 → Option (β × List UInt8)}
    (h : Matches r s read)
    (hNext : ∀ a t rest, read = some (a, rest) → rest.length ≤ s.buffer.length →
      Matches (f a (s.at t rest)) (s.at t rest) (g a rest)) :
    Matches (r.andThen f) s (read.bind fun p => g p.1 p.2) := by
  cases read with
  | none =>
    obtain ⟨s', rfl⟩ := h
    exact ⟨s', rfl⟩
  | some next =>
    obtain ⟨a, rest⟩ := next
    obtain ⟨hLe, t, rfl⟩ := h
    have hMore := hNext a t rest rfl hLe
    rw [Option.bind_some, Outcome.andThen]
    dsimp only
    cases hRead : g a rest with
    | none =>
      rw [hRead] at hMore
      exact hMore
    | some last =>
      obtain ⟨b, left⟩ := last
      rw [hRead] at hMore
      obtain ⟨hLeft, u, hEq⟩ := hMore
      exact ⟨Nat.le_trans hLeft hLe, u, by rw [hEq, at_at]⟩

theorem Matches.andThen_map {γ : Type} {r : Outcome α} {read : Option (γ × List UInt8)}
    {value : γ → α} {f : α → CodedInputStream → Outcome β}
    {g : γ → List UInt8 → Option (β × List UInt8)}
    (h : Matches r s (read.map fun p => (value p.1, p.2)))
    (hNext : ∀ c t rest, read = some (c, rest) → rest.length ≤ s.buffer.length →
      Matches (f (value c) (s.at t rest)) (s.at t rest) (g c rest)) :
    Matches (r.andThen f) s (read.bind fun p => g p.1 p.2) := by
  cases read with
  | none => exact h.andThen (g := fun _ _ => none) fun _ _ _ hRead => nomatch hRead
  | some next =>
    refine h.andThen (g := fun _ rest => g next.1 rest) fun a t rest hRead hLe => ?_
    cases hRead
    exact hNext next.1 t next.2 rfl hLe

theorem Matches.map_eq {γ : Type} {r : Outcome α} {read : Option (γ × List UInt8)}
    {value : γ → α} {f : α → β} {k : γ → β}
    (h : Matches r s (read.map fun p => (value p.1, p.2)))
    (hEq : ∀ c rest, read = some (c, rest) → f (value c) = k c) :
    Matches (r.andThen fun a s => .returns (f a) s) s
      (read.map fun p => (k p.1, p.2)) := by
  cases read with
  | none =>
    obtain ⟨s', rfl⟩ := h
    exact ⟨s', rfl⟩
  | some next =>
    obtain ⟨c, rest⟩ := next
    obtain ⟨hLe, t, rfl⟩ := h
    exact ⟨hLe, t, by rw [Outcome.andThen, hEq c rest rfl]⟩

theorem Matches.map {r : Outcome α} {read : Option (α × List UInt8)} {f k : α → β}
    (h : Matches r s read) (hEq : ∀ a rest, read = some (a, rest) → f a = k a) :
    Matches (r.andThen fun a s => .returns (f a) s) s (read.map fun p => (k p.1, p.2)) := by
  have hId : Matches r s (read.map fun p => (id p.1, p.2)) := by
    cases read <;> exact h
  exact hId.map_eq hEq

/-! ## Values -/

theorem readVarint64_matches (hFlat : Flat s) :
    Matches (readVarint64 s) s
      ((Wire.varint s.buffer).map fun p => (UInt64.ofNat p.1, p.2)) := by
  rw [Wire.varint]
  cases hDecode : decode 10 s.buffer with
  | none =>
    obtain ⟨rest, hRead⟩ := readVarint64_none hFlat.atLimit hDecode
    exact Matches.fails hRead
  | some next =>
    exact Matches.returns (readVarint64_some hDecode) (Nat.le_of_lt (decode_shortens hDecode))

theorem readVarint32_matches (hFlat : Flat s) :
    Matches (readVarint32 s) s
      ((Wire.varint s.buffer).map fun p => (UInt32.ofNat p.1, p.2)) := by
  rw [Wire.varint]
  cases hDecode : decode 10 s.buffer with
  | none =>
    obtain ⟨rest, hRead⟩ := readVarint32_none hFlat.atLimit hDecode
    exact Matches.fails hRead
  | some next =>
    exact Matches.returns (readVarint32_some hDecode) (Nat.le_of_lt (decode_shortens hDecode))

theorem readString_matches (hFlat : Flat s) (size : Nat) :
    Matches (readString size s) s (Wire.fixed size s.buffer) := by
  rw [Wire.fixed]
  split
  · rename_i h
    exact Matches.returns (readString_some hFlat h) (by rw [List.length_drop]; omega)
  · rename_i h
    obtain ⟨rest, hRead⟩ := readString_fails hFlat size (Or.inr (by omega))
    exact Matches.fails hRead

theorem readLittleEndian_matches (hFlat : Flat s) (w : Nat) :
    Matches (readLittleEndian w s) s
      ((Wire.fixed w s.buffer).map fun p => (loadInt w p.1, p.2)) := by
  have hSize := hFlat.bufferSize_eq
  rw [readLittleEndian, if_neg (by omega)]
  exact (readString_matches hFlat w).map fun _ _ _ => rfl

/-- The cast to `int` makes a length from 2^31 on negative. -/
theorem toInt32_toInt (v : UInt32) :
    v.toInt32.toInt = if v.toNat < 2 ^ 31 then (v.toNat : Int) else v.toNat - 2 ^ 32 := by
  change v.toBitVec.toInt = if v.toBitVec.toNat < 2 ^ 31 then _ else _
  rw [BitVec.toInt_eq_toNat_cond]
  by_cases h : v.toBitVec.toNat < 2 ^ 31
  · rw [if_pos h, if_pos (by omega)]
    rfl
  · rw [if_neg h, if_neg (by omega)]
    rfl

/-- The length of a string is a 32-bit word, its cast to `int` the size to read. -/
theorem readSized_matches (hFlat : Flat s) (n : Nat) :
    Matches (readString (UInt32.ofNat n).toInt32.toInt s) s
      (if n % 2 ^ 32 < 2 ^ 31 then Wire.fixed (n % 2 ^ 32) s.buffer else none) := by
  have hWord := UInt32.toNat_ofNat' (n := n)
  rw [toInt32_toInt, hWord]
  split
  · exact readString_matches hFlat (n % 2 ^ 32)
  · obtain ⟨rest, hRead⟩ := readString_fails hFlat
      (((n % 2 ^ 32 : Nat) : Int) - 2 ^ 32) (Or.inl (by omega))
    exact Matches.fails hRead

theorem readBytesToString_matches (hFlat : Flat s) :
    Matches (readBytesToString s) s (Wire.string s.buffer) := by
  rw [readBytesToString, Wire.string]
  exact (readVarint32_matches hFlat).andThen_map
    (g := fun n rest => if n % 2 ^ 32 < 2 ^ 31 then Wire.fixed (n % 2 ^ 32) rest else none)
    fun n t _ _ hLe => readSized_matches (hFlat.at t hLe) n

theorem readInt32_matches (hFlat : Flat s) :
    Matches (readInt32 s) s
      ((Wire.varint s.buffer).map fun p => ((UInt32.ofNat p.1).toInt32, p.2)) := by
  have hRead := (readVarint32_matches hFlat).map (f := UInt32.toInt32) fun _ _ _ => rfl
  rwa [Option.map_map] at hRead

/-! ## Depth -/

end Rules

/-- The stream inside one more message or group. -/
def CodedInputStream.deeper (s : CodedInputStream) : CodedInputStream :=
  { s with recursionBudget := s.recursionBudget - 1 }

section Depth

variable {depth : Nat} {s : CodedInputStream}

theorem Ready.deeper (hReady : Ready (depth + 1) s) : Ready depth s.deeper where
  flat := {
    within := hReady.flat.within
    afterLimit_length := hReady.flat.afterLimit_length
    buffer_length := hReady.flat.buffer_length
    totalBytesRead_le := hReady.flat.totalBytesRead_le
    totalBytesRead_le_limit := hReady.flat.totalBytesRead_le_limit
    recursionBudget_le := by
      have hLe := hReady.flat.recursionBudget_le
      change s.recursionBudget - 1 ≤ s.recursionLimit
      omega }
  unended := hReady.unended
  budget := by
    have hBudget := hReady.budget
    change s.recursionBudget - 1 = depth
    omega

theorem decrementRecursionDepth_deeper (hFlat : Flat s) (t : UInt32) (rest : List UInt8) :
    (s.deeper.at t rest).decrementRecursionDepth = s.at t rest := by
  have hLe := hFlat.recursionBudget_le
  have hLt : (s.deeper.at t rest).recursionBudget < (s.deeper.at t rest).recursionLimit := by
    change s.recursionBudget - 1 < s.recursionLimit
    omega
  rw [decrementRecursionDepth, if_pos hLt]
  simp only [CodedInputStream.at, CodedInputStream.deeper, Int.sub_add_cancel]

theorem decrementRecursionDepth_lastTag (s : CodedInputStream) :
    s.decrementRecursionDepth.lastTag = s.lastTag := by
  rw [decrementRecursionDepth]
  split <;> rfl

theorem incrementRecursionDepth_succ (hReady : Ready (depth + 1) s) :
    s.incrementRecursionDepth = (true, s.deeper) := by
  have hBudget := hReady.budget
  have hWithin : s.recursionBudget - 1 ≥ 0 := by omega
  rw [incrementRecursionDepth, decide_eq_true hWithin]
  rfl

theorem incrementRecursionDepth_zero (hReady : Ready 0 s) :
    s.incrementRecursionDepth = (false, s.deeper) := by
  have hBudget := hReady.budget
  have hOver : ¬ s.recursionBudget - 1 ≥ 0 := by omega
  rw [incrementRecursionDepth, decide_eq_false hOver]
  rfl

end Depth

section Skip

variable {depth : Nat} {s : CodedInputStream}

/-! ## Unknown fields -/

/-- What `SkipMessage` is for: the bytes kept of a group and its end tag, which is the last tag
read. Where it only ends, there is no last tag. -/
def SkipsGroup (fuel : Nat) : Prop :=
  ∀ {depth : Nat} {s : CodedInputStream} (kept : List UInt8), Ready depth s →
    s.buffer.length < fuel →
    match upTo (Wire.groupTurn (Wire.skip depth)) kept s.buffer with
    | some ((raw, last), rest) =>
      rest.length ≤ s.buffer.length ∧ skipMessage fuel kept s = .returns raw (s.at last rest)
    | none => (∃ s', skipMessage fuel kept s = .fails s') ∨
      ∃ raw s', skipMessage fuel kept s = .returns raw s' ∧ s'.lastTag = 0

theorem endTag_ne_zero (t : UInt32) : Wire.endTag t ≠ 0 := by
  intro h
  have hBit := congrArg (fun v : UInt32 => v.toNat.testBit 2) h
  rw [Wire.endTag, makeTag] at hBit
  simp [WireType.value, Nat.testBit_or] at hBit
  exact absurd hBit.2 (by decide)

theorem storeInt_loadInt_kept {w : Nat} {bytes raw rest : List UInt8}
    (h : Wire.fixed w bytes = some (raw, rest)) : storeInt w (loadInt w raw) = raw :=
  storeInt_loadInt (Wire.fixed_eq_some_iff.mp h).1

/-- Where no tag can be read, the last tag is zero. -/
theorem readTag_refused (hFlat : Flat s) (h : Wire.tag s.buffer = none) :
    ∃ s', readTag s = .returns 0 s' ∧ s'.lastTag = 0 := by
  rcases eq_or_ne s.buffer [] with hNil | hBuffer
  · exact ⟨_, readTag_nil hFlat hNil, rfl⟩
  cases hDecode : decode 10 s.buffer with
  | none =>
    obtain ⟨rest, hRead⟩ := readTag_none hFlat.atLimit hBuffer hDecode
    exact ⟨_, hRead, rfl⟩
  | some next =>
    obtain ⟨n, rest⟩ := next
    have hZero : UInt32.ofNat n = 0 := by
      by_contra hNonzero
      rw [Wire.tag_eq_some_iff.mpr ⟨n, hDecode, rfl, hNonzero⟩] at h
      cases h
    refine ⟨s.at 0 rest, ?_, rfl⟩
    rw [readTag_some hDecode, hZero]

theorem skipGroup_matches {fuel : Nat} (hGroup : SkipsGroup fuel) (hReady : Ready depth s)
    (hFuel : s.buffer.length < fuel) (t : UInt32) (hNumber : getTagFieldNumber t ≠ 0)
    (hType : getTagWireType t = .startGroup) :
    Matches (skipField fuel t s) s (Wire.skip depth t s.buffer) := by
  simp only [Wire.skip_eq, Wire.skipWith, skipField, skipFieldWith, if_neg hNumber, hType]
  cases depth with
  | zero =>
    rw [incrementRecursionDepth_zero hReady]
    exact Matches.fails rfl
  | succ depth =>
    rw [incrementRecursionDepth_succ hReady, Wire.group]
    have hSkip := hGroup [] hReady.deeper hFuel
    cases hUpTo : upTo (Wire.groupTurn (Wire.skip depth)) [] s.buffer with
    | none =>
      rw [show s.deeper.buffer = s.buffer from rfl, hUpTo] at hSkip
      rcases hSkip with ⟨s', hEq⟩ | ⟨raw, s', hEq, hLast⟩
      · exact Matches.fails (by rw [if_pos rfl, hEq]; rfl)
      · have hEnd : s'.decrementRecursionDepth.lastTagWas (Wire.endTag t) = false := by
          rw [lastTagWas, decrementRecursionDepth_lastTag, hLast]
          exact decide_eq_false (endTag_ne_zero t).symm
        refine Matches.fails (t := s'.decrementRecursionDepth) ?_
        rw [if_pos rfl, hEq, Outcome.andThen]
        exact if_neg (by rw [← Wire.endTag, hEnd]; decide)
    | some next =>
      obtain ⟨⟨raw, last⟩, rest⟩ := next
      rw [show s.deeper.buffer = s.buffer from rfl, hUpTo] at hSkip
      obtain ⟨hLe, hEq⟩ := hSkip
      rw [if_pos rfl, hEq, Outcome.andThen, decrementRecursionDepth_deeper hReady.flat,
        Option.bind_some]
      have hTag : (s.at last rest).lastTagWas (makeTag (getTagFieldNumber t) .endGroup) =
          decide (last = Wire.endTag t) := rfl
      rcases eq_or_ne last (Wire.endTag t) with hEnd | hOther
      · rw [hTag, decide_eq_true hEnd, if_pos rfl, if_pos hEnd, writeVarint32ToArray_eq]
        exact Matches.returns rfl hLe
      · rw [hTag, decide_eq_false hOther, if_neg Bool.false_ne_true, if_neg hOther]
        exact Matches.fails rfl

theorem skipString_matches (hFlat : Flat s) (t : UInt32) :
    Matches ((readVarint32 s).andThen fun length s =>
        (readString length.toInt32.toInt s).andThen fun temp s =>
        .returns (writeVarint32ToArray t ++ writeVarint32ToArray length ++ temp) s) s
      ((Wire.string s.buffer).map fun (raw, rest) =>
        (encode t.toNat ++ (encode raw.length ++ raw), rest)) := by
  rw [Wire.string, Option.map_bind]
  simp only [Function.comp_def]
  refine (readVarint32_matches hFlat).andThen_map (g := fun n rest =>
    (if n % 2 ^ 32 < 2 ^ 31 then Wire.fixed (n % 2 ^ 32) rest else none).map fun p =>
      (encode t.toNat ++ (encode p.1.length ++ p.1), p.2)) fun n u rest _ hLe => ?_
  have hRead := readSized_matches (hFlat.at u hLe) n
  refine hRead.map (k := fun raw => encode t.toNat ++ (encode raw.length ++ raw))
    fun raw left hRaw => ?_
  rw [Option.ite_none_right_eq_some] at hRaw
  rw [writeVarint32ToArray_eq, writeVarint32ToArray_eq, UInt32.toNat_ofNat',
    (Wire.fixed_eq_some_iff.mp hRaw.2).1, List.append_assoc]

theorem skipField_matches {fuel : Nat} (hGroup : SkipsGroup fuel) (hReady : Ready depth s)
    (hFuel : s.buffer.length < fuel) (t : UInt32) :
    Matches (skipField fuel t s) s (Wire.skip depth t s.buffer) := by
  rcases eq_or_ne (getTagFieldNumber t) 0 with hNumber | hNumber
  · rw [Wire.skip_eq, Wire.skipWith, if_pos hNumber, skipField, skipFieldWith, if_pos hNumber]
    exact Matches.fails rfl
  rcases eq_or_ne (getTagWireType t) .startGroup with hStart | hOther
  · exact skipGroup_matches hGroup hReady hFuel t hNumber hStart
  cases hType : getTagWireType t with
  | startGroup => exact absurd hType hOther
  | varint =>
    simp only [Wire.skip_eq, Wire.skipWith, skipField, skipFieldWith, if_neg hNumber, hType]
    refine (readVarint64_matches hReady.flat).map_eq
      (k := fun n => encode t.toNat ++ encode (n % 2 ^ 64)) fun n rest _ => ?_
    rw [writeVarint32ToArray_eq, writeVarint64ToArray_eq, UInt64.toNat_ofNat']
  | fixed64 =>
    simp only [Wire.skip_eq, Wire.skipWith, skipField, skipFieldWith, if_neg hNumber, hType]
    refine (readLittleEndian_matches hReady.flat 8).map_eq
      (k := fun raw => encode t.toNat ++ raw) fun raw rest hRead => ?_
    rw [writeVarint32ToArray_eq, storeInt_loadInt_kept hRead]
  | fixed32 =>
    simp only [Wire.skip_eq, Wire.skipWith, skipField, skipFieldWith, if_neg hNumber, hType]
    refine (readLittleEndian_matches hReady.flat 4).map_eq
      (k := fun raw => encode t.toNat ++ raw) fun raw rest hRead => ?_
    rw [writeVarint32ToArray_eq, storeInt_loadInt_kept hRead]
  | lengthDelimited =>
    simp only [Wire.skip_eq, Wire.skipWith, skipField, skipFieldWith, if_neg hNumber, hType]
    exact skipString_matches hReady.flat t
  | endGroup =>
    simp only [Wire.skip_eq, Wire.skipWith, skipField, skipFieldWith, if_neg hNumber, hType]
    exact Matches.fails rfl
  | other =>
    simp only [Wire.skip_eq, Wire.skipWith, skipField, skipFieldWith, if_neg hNumber, hType]
    exact Matches.fails rfl

theorem skipMessage_spec (fuel : Nat) : SkipsGroup fuel := by
  induction fuel with
  | zero => exact fun _ _ hFuel => absurd hFuel (Nat.not_lt_zero _)
  | succ fuel ih =>
    intro depth s kept hReady hFuel
    cases hTag : Wire.tag s.buffer with
    | none =>
      have hRefused : Wire.groupTurn (Wire.skip depth) kept s.buffer = none := by
        rw [Wire.groupTurn, hTag, Option.bind_none]
      rw [upTo_refused hRefused]
      obtain ⟨s', hRead, hLast⟩ := readTag_refused hReady.flat hTag
      exact Or.inr ⟨kept, s', by rw [skipMessage, hRead]; rfl, hLast⟩
    | some next =>
      obtain ⟨t, rest⟩ := next
      obtain ⟨n, hDecode, rfl, hNonzero⟩ := Wire.tag_eq_some_iff.mp hTag
      have hLt := decode_shortens hDecode
      have hTurn : Wire.groupTurn (Wire.skip depth) kept s.buffer =
          if getTagWireType (UInt32.ofNat n) = .endGroup then
            some (.inr (kept ++ encode (UInt32.ofNat n).toNat, UInt32.ofNat n), rest)
          else (Wire.skip depth (UInt32.ofNat n) rest).map fun p => (.inl (kept ++ p.1), p.2) := by
        rw [Wire.groupTurn, hTag]
        rfl
      rw [skipMessage, readTag_some hDecode, Outcome.andThen, if_neg hNonzero]
      rcases eq_or_ne (getTagWireType (UInt32.ofNat n)) .endGroup with hEnd | hField
      · rw [if_pos hEnd] at hTurn
        rw [upTo_stop hTurn, if_pos hEnd, writeVarint32ToArray_eq]
        exact ⟨Nat.le_of_lt hLt, rfl⟩
      · rw [if_neg hField] at hTurn
        have hSkip := skipField_matches ih
          (hReady.at (UInt32.ofNat n) (Nat.le_of_lt hLt)) (by rw [at_buffer]; omega)
          (UInt32.ofNat n)
        rw [skipField, at_buffer] at hSkip
        rw [if_neg hField]
        cases hRaw : Wire.skip depth (UInt32.ofNat n) rest with
        | none =>
          rw [hRaw] at hTurn hSkip
          obtain ⟨s', hFails⟩ := hSkip
          rw [upTo_refused hTurn, hFails]
          exact Or.inl ⟨s', rfl⟩
        | some kept' =>
          obtain ⟨raw, left⟩ := kept'
          rw [hRaw] at hTurn hSkip
          change _ = some (Sum.inl (kept ++ raw), left) at hTurn
          obtain ⟨hLe, u, hReturns⟩ := hSkip
          rw [at_buffer] at hLe
          rw [upTo_step hTurn (by omega), hReturns, Outcome.andThen, at_at]
          have hRest := ih (kept ++ raw) (hReady.at u (show left.length ≤ s.buffer.length by omega))
            (by rw [at_buffer]; omega)
          rw [at_buffer] at hRest
          cases hGroup : upTo (Wire.groupTurn (Wire.skip depth)) (kept ++ raw) left with
          | none =>
            rw [hGroup] at hRest
            exact hRest
          | some last =>
            rw [hGroup] at hRest
            exact ⟨by omega, hRest.2⟩

end Skip

/-! ## Messages -/

/-- The stream at a limit where a message may end. -/
def CodedInputStream.ended (s : CodedInputStream) (lastTag : UInt32) : CodedInputStream :=
  { s with lastTag := lastTag, buffer := [], legitimateMessageEnd := true }

/-- A loop over the fields of a message and the message it stands for. The loop that stops before
the limit does not fail by itself: its caller asks whether the message may end. -/
def Merges {M : Type} (r : Outcome M) (s : CodedInputStream) : Option M → Prop
  | some m => ∃ t, r = .returns m (s.ended t)
  | none => (∃ s', r = .fails s') ∨
      ∃ m s', r = .returns m s' ∧ s'.legitimateMessageEnd = false

def ReadsField {M : Type} (depth fuel : Nat) (read : M → CodedInputStream → Outcome M)
    (wire : M → List UInt8 → Option (M × List UInt8)) : Prop :=
  ∀ m s, Ready depth s → s.buffer.length < fuel → Matches (read m s) s (wire m s.buffer)

section Loop

variable {M : Type} {depth bound : Nat} {s : CodedInputStream}

theorem readTagWithCutoff_refused (hFlat : Flat s) (hBuffer : s.buffer ≠ [])
    (h : Wire.tag s.buffer = none) :
    ∃ rest, readTagWithCutoffNoLastTag 127 s = .returns (0, false) (s.leaving rest) := by
  cases hDecode : decode 10 s.buffer with
  | none => exact readTagWithCutoff_none hFlat.atLimit hBuffer hDecode
  | some next =>
    obtain ⟨n, rest⟩ := next
    have hZero : UInt32.ofNat n = 0 := by
      by_contra hNonzero
      rw [Wire.tag_eq_some_iff.mpr ⟨n, hDecode, rfl, hNonzero⟩] at h
      cases h
    refine ⟨rest, ?_⟩
    rw [readTagWithCutoff_some hDecode, hZero]
    rfl

theorem Outcome.andThen_returns_andThen {α β γ : Type} (r : Outcome α) (f : α → β)
    (g : β → CodedInputStream → Outcome γ) :
    ((r.andThen fun a s => .returns (f a) s).andThen fun b s => g b s) =
      r.andThen fun a s => g (f a) s := by
  cases r <;> rfl

variable {field : UInt32 → Option (M → CodedInputStream → Outcome M)}
  {wire : UInt32 → Option (M → List UInt8 → Option (M × List UInt8))}
  {addUnknown : M → List UInt8 → M} {skip : UInt32 → CodedInputStream → Outcome (List UInt8)}

theorem mergeLoop_spec
    (hFields : ∀ t, Option.Rel (ReadsField depth bound)
      (if t - 1 < 127 then field t else none) (wire t))
    (hSkip : ∀ t s, Ready depth s → s.buffer.length < bound →
      Matches (skip t s) s (Wire.skip depth t s.buffer))
    {fuel : Nat} (hReady : Ready depth s) (hBound : s.buffer.length < bound)
    (hFuel : s.buffer.length < fuel) (m : M) :
    Merges (mergeLoop field addUnknown skip fuel m s) s
      (toEnd (Wire.turn wire addUnknown depth) m s.buffer) := by
  induction fuel generalizing m s with
  | zero => exact absurd hFuel (Nat.not_lt_zero _)
  | succ fuel ih =>
    rw [mergeLoop]
    rcases eq_or_ne s.buffer [] with hNil | hBuffer
    · rw [readTagWithCutoff_nil hReady.flat hNil, hNil, toEnd_nil]
      refine ⟨s.lastTag, ?_⟩
      rw [CodedInputStream.ended, ← hNil]
      rfl
    cases hTag : Wire.tag s.buffer with
    | none =>
      have hRefused : Wire.turn wire addUnknown depth m s.buffer = none := by
        rw [Wire.turn, hTag, Option.bind_none]
      obtain ⟨rest, hRead⟩ := readTagWithCutoff_refused hReady.flat hBuffer hTag
      rw [toEnd_refused hRefused hBuffer, hRead]
      exact Or.inr ⟨m, s.leaving rest, rfl, hReady.unended⟩
    | some next =>
      obtain ⟨t, rest⟩ := next
      obtain ⟨n, hDecode, rfl, hNonzero⟩ := Wire.tag_eq_some_iff.mp hTag
      have hLt := decode_shortens hDecode
      have hInner : Ready depth (s.leaving rest) := hReady.at s.lastTag (Nat.le_of_lt hLt)
      have hInnerBound : (s.leaving rest).buffer.length < bound := Nat.lt_trans hLt hBound
      -- both kinds of a field go on with the rest of the message
      have hContinue {r : Outcome M} (hTurn : Matches r (s.leaving rest)
          (Wire.turn wire addUnknown depth m s.buffer)) :
          Merges (r.andThen fun m s => mergeLoop field addUnknown skip fuel m s) s
            (toEnd (Wire.turn wire addUnknown depth) m s.buffer) := by
        cases hNext : Wire.turn wire addUnknown depth m s.buffer with
        | none =>
          rw [hNext] at hTurn
          obtain ⟨s', rfl⟩ := hTurn
          rw [toEnd_refused hNext hBuffer]
          exact Or.inl ⟨s', rfl⟩
        | some after =>
          obtain ⟨m', left⟩ := after
          rw [hNext] at hTurn
          obtain ⟨hLe, t, rfl⟩ := hTurn
          rw [leaving_buffer] at hLe
          rw [toEnd_step hNext (by omega), leaving_eq_at, at_at, Outcome.andThen]
          have hRest := ih (hReady.at t (show left.length ≤ s.buffer.length by omega))
            (by rw [at_buffer]; omega) (by rw [at_buffer]; omega) m'
          rw [at_buffer] at hRest
          cases hEnd : toEnd (Wire.turn wire addUnknown depth) m' left with
          | none =>
            rw [hEnd] at hRest
            exact hRest
          | some final =>
            rw [hEnd] at hRest
            obtain ⟨u, hReturns⟩ := hRest
            exact ⟨u, hReturns⟩
      rw [readTagWithCutoff_some hDecode, Outcome.andThen]
      have hField := hFields (UInt32.ofNat n)
      simp only [decide_eq_true_eq]
      cases hRead : wire (UInt32.ofNat n) with
      | none =>
        rw [hRead] at hField
        cases hCase : (if UInt32.ofNat n - 1 < 127 then field (UInt32.ofNat n) else none) with
        | some read =>
          rw [hCase] at hField
          cases hField
        | none =>
          have hUnknown := (hSkip (UInt32.ofNat n) (s.leaving rest) hInner hInnerBound).map
            (f := addUnknown m) (k := addUnknown m) fun _ _ _ => rfl
          have hWire : Wire.turn wire addUnknown depth m s.buffer =
              (Wire.skip depth (UInt32.ofNat n) rest).map fun p => (addUnknown m p.1, p.2) := by
            rw [Wire.turn, hTag, Option.bind_some]
            simp only [hRead]
          rw [leaving_buffer, ← hWire] at hUnknown
          have hLoop := hContinue hUnknown
          rw [Outcome.andThen_returns_andThen] at hLoop
          exact (if_neg hNonzero).symm ▸ hLoop
      | some wireRead =>
        rw [hRead] at hField
        cases hCase : (if UInt32.ofNat n - 1 < 127 then field (UInt32.ofNat n) else none) with
        | none =>
          rw [hCase] at hField
          cases hField
        | some read =>
          rw [hCase] at hField
          cases hField with
          | some hReads =>
            apply hContinue
            rw [Wire.turn, hTag, Option.bind_some]
            simp only [hRead]
            exact hReads m (s.leaving rest) hInner hInnerBound

/-! ## Messages inside messages -/

theorem incrementRecursionDepthAndPushLimit_eq (hFlat : Flat s) (size : Nat) :
    s.incrementRecursionDepthAndPushLimit size =
      (s.currentLimit, s.recursionBudget - 1, (s.narrowed size).deeper) := by
  rw [incrementRecursionDepthAndPushLimit, pushLimit_eq hFlat]
  rfl

theorem Ready.narrowed (hReady : Ready depth s) (size : Nat) : Ready depth (s.narrowed size) :=
  ⟨hReady.flat.narrowed size, hReady.unended, hReady.budget⟩

/-- Leaving a message that has ended takes the stream behind it. -/
theorem decrementRecursionDepthAndPopLimit_eq (hReady : Ready depth s) (size : Nat) (t : UInt32) :
    ((s.narrowed size).deeper.ended t).decrementRecursionDepthAndPopLimit s.currentLimit =
      (true, s.at t (s.buffer.drop size)) := by
  have hPop : ((s.narrowed size).deeper.ended t).popLimit s.currentLimit = _ :=
    popLimit_eq hReady.flat hReady.flat.within rfl rfl rfl
  rw [decrementRecursionDepthAndPopLimit, hPop]
  simp only [consumedEntireMessage, CodedInputStream.at, CodedInputStream.deeper,
    CodedInputStream.narrowed, CodedInputStream.ended, List.nil_append, Int.sub_add_cancel,
    hReady.unended]

theorem readMessage_matches {merge : M → CodedInputStream → Outcome M}
    {parse : Nat → List UInt8 → Option M} {empty : M} {fuel : Nat}
    (hMerge : ∀ depth s, Ready depth s → s.buffer.length < fuel →
      Merges (merge empty s) s (parse depth s.buffer))
    (hReady : Ready depth s) (hFuel : s.buffer.length < fuel) :
    Matches (readMessage merge empty s) s (Wire.nested parse depth s.buffer) := by
  rw [readMessage]
  cases hMessage : Wire.message s.buffer with
  | none =>
    have hRefused : ∃ rest, readVarintSizeAsInt s = .fails (s.leaving rest) := by
      apply readVarintSizeAsInt_refused hReady.flat.atLimit
      intro n rest hDecode
      by_contra hSize
      rw [Wire.message_eq_some_iff.mpr ⟨n, rest, hDecode, Nat.lt_of_not_le hSize, rfl, rfl⟩]
        at hMessage
      cases hMessage
    have hNested : Wire.nested parse depth s.buffer = none := by
      cases depth with
      | zero => rfl
      | succ depth => rw [Wire.nested, hMessage, Option.bind_none]
    obtain ⟨rest, hRead⟩ := hRefused
    rw [hNested, hRead]
    exact Matches.fails rfl
  | some next =>
    obtain ⟨body, rest⟩ := next
    obtain ⟨n, left, hDecode, hSize, rfl, rfl⟩ := Wire.message_eq_some_iff.mp hMessage
    have hLt := decode_shortens hDecode
    have hInner : Ready depth (s.leaving left) := hReady.at s.lastTag (Nat.le_of_lt hLt)
    rw [readVarintSizeAsInt_some hDecode hSize, Outcome.andThen,
      incrementRecursionDepthAndPushLimit_eq hInner.flat]
    dsimp only
    cases depth with
    | zero =>
      have hBudget := hInner.budget
      rw [if_pos (by omega)]
      exact Matches.fails rfl
    | succ depth =>
      have hBudget := hInner.budget
      have hBody := hMerge depth _ (hInner.narrowed (n % 2 ^ 64)).deeper
        (show (left.take (n % 2 ^ 64)).length < fuel by rw [List.length_take]; omega)
      rw [if_neg (by omega), Wire.nested, hMessage, Option.bind_some]
      dsimp only
      change Merges _ _ (parse depth (left.take (n % 2 ^ 64))) at hBody
      cases hParse : parse depth (left.take (n % 2 ^ 64)) with
      | none =>
        rw [hParse] at hBody
        rcases hBody with ⟨s', hEq⟩ | ⟨m, s', hEq, hUnended⟩
        · rw [hEq]
          exact Matches.fails rfl
        · rw [hEq, Outcome.andThen]
          have hStopped :
              (s'.decrementRecursionDepthAndPopLimit (s.leaving left).currentLimit).1 = false :=
            hUnended
          exact Matches.fails (if_neg (by rw [hStopped]; exact Bool.false_ne_true))
      | some m =>
        rw [hParse] at hBody
        obtain ⟨t, hEq⟩ := hBody
        rw [hEq, Outcome.andThen, decrementRecursionDepthAndPopLimit_eq hInner]
        refine Matches.returns (t := t) rfl ?_
        rw [List.length_drop]
        omega

end Loop

/-! ## The messages of the address book -/

/-- Below the cutoff a tag is its last byte. -/
theorem toUInt8_ne {t : UInt32} (ht : t - 1 < 127) (b : UInt8) (hb : b.toNat < 128)
    (h : t ≠ b.toUInt32) : t.toUInt8 ≠ b := by
  rintro rfl
  have hSmall : t.toNat < 128 := by
    have hPred := UInt32.lt_iff_toNat_lt.mp ht
    rw [UInt32.toNat_sub] at hPred
    change (2 ^ 32 - 1 + t.toNat) % 2 ^ 32 < 127 at hPred
    have hLt := t.toNat_lt
    omega
  apply h
  apply UInt32.toNat.inj
  rw [UInt8.toNat_toUInt32, UInt32.toNat_toUInt8]
  omega

section Fields

variable {depth fuel : Nat}

theorem phoneField_rel (t : UInt32) :
    Option.Rel (ReadsField depth fuel) (if t - 1 < 127 then PhoneNumber.field t else none)
      (Wire.phoneField t) := by
  rcases eq_or_ne t 10 with rfl | hNumber
  · refine Option.Rel.some fun m s hReady _ => ?_
    exact (readBytesToString_matches hReady.flat).map fun _ _ _ => rfl
  rcases eq_or_ne t 16 with rfl | hType
  · refine Option.Rel.some fun m s hReady _ => ?_
    have hRead := (readInt32_matches hReady.flat).map (f := m.takeType) fun _ _ _ => rfl
    rwa [Option.map_map] at hRead
  rw [Wire.phoneField, if_neg hNumber, if_neg hType]
  split
  · rename_i hBelow
    rw [PhoneNumber.field]
    split
    · rw [if_neg (toUInt8_ne hBelow 10 (by decide) hNumber)]
      exact Option.Rel.none
    · rw [if_neg (toUInt8_ne hBelow 16 (by decide) hType)]
      exact Option.Rel.none
    · exact Option.Rel.none
  · exact Option.Rel.none

theorem mergePhone_spec {s : CodedInputStream} (hReady : Ready depth s)
    (hFuel : s.buffer.length < fuel) (m : PhoneNumber) :
    Merges (m.mergePartialFromCodedStream fuel s) s (Wire.mergePhone depth m s.buffer) :=
  mergeLoop_spec phoneField_rel
    (fun t _ hReady hFuel => skipField_matches (skipMessage_spec fuel) hReady hFuel t)
    hReady hFuel hFuel m

theorem personField_rel (t : UInt32) :
    Option.Rel (ReadsField depth fuel) (if t - 1 < 127 then Person.field fuel t else none)
      (Wire.personField depth t) := by
  rcases eq_or_ne t 10 with rfl | hName
  · refine Option.Rel.some fun m s hReady _ => ?_
    exact (readBytesToString_matches hReady.flat).map fun _ _ _ => rfl
  rcases eq_or_ne t 16 with rfl | hId
  · refine Option.Rel.some fun m s hReady _ => ?_
    have hRead := (readInt32_matches hReady.flat).map
      (f := fun id => { m with id := some id }) (k := fun id => { m with id := some id })
      fun _ _ _ => rfl
    rwa [Option.map_map] at hRead
  rcases eq_or_ne t 26 with rfl | hEmail
  · refine Option.Rel.some fun m s hReady _ => ?_
    exact (readBytesToString_matches hReady.flat).map fun _ _ _ => rfl
  rcases eq_or_ne t 34 with rfl | hPhones
  · refine Option.Rel.some fun m s hReady hFuel => ?_
    exact (readMessage_matches (fun _ _ hReady hFuel => mergePhone_spec hReady hFuel {})
      hReady hFuel).map fun _ _ _ => rfl
  rw [Wire.personField, if_neg hName, if_neg hId, if_neg hEmail, if_neg hPhones]
  split
  · rename_i hBelow
    rw [Person.field]
    split
    · rw [if_neg (toUInt8_ne hBelow 10 (by decide) hName)]
      exact Option.Rel.none
    · rw [if_neg (toUInt8_ne hBelow 16 (by decide) hId)]
      exact Option.Rel.none
    · rw [if_neg (toUInt8_ne hBelow 26 (by decide) hEmail)]
      exact Option.Rel.none
    · rw [if_neg (toUInt8_ne hBelow 34 (by decide) hPhones)]
      exact Option.Rel.none
    · exact Option.Rel.none
  · exact Option.Rel.none

theorem mergePerson_spec {s : CodedInputStream} (hReady : Ready depth s)
    (hFuel : s.buffer.length < fuel) (m : Person) :
    Merges (m.mergePartialFromCodedStream fuel s) s (Wire.mergePerson depth m s.buffer) :=
  mergeLoop_spec personField_rel
    (fun t _ hReady hFuel => skipField_matches (skipMessage_spec fuel) hReady hFuel t)
    hReady hFuel hFuel m

theorem bookField_rel (t : UInt32) :
    Option.Rel (ReadsField depth fuel) (if t - 1 < 127 then AddressBook.field fuel t else none)
      (Wire.bookField depth t) := by
  rcases eq_or_ne t 10 with rfl | hPeople
  · refine Option.Rel.some fun m s hReady hFuel => ?_
    exact (readMessage_matches (fun _ _ hReady hFuel => mergePerson_spec hReady hFuel {})
      hReady hFuel).map fun _ _ _ => rfl
  rw [Wire.bookField, if_neg hPeople]
  split
  · rename_i hBelow
    rw [AddressBook.field]
    split
    · rw [if_neg (toUInt8_ne hBelow 10 (by decide) hPeople)]
      exact Option.Rel.none
    · exact Option.Rel.none
  · exact Option.Rel.none

theorem mergeBook_spec {s : CodedInputStream} (hReady : Ready depth s)
    (hFuel : s.buffer.length < fuel) (m : AddressBook) :
    Merges (m.mergePartialFromCodedStream fuel s) s (Wire.mergeBook depth m s.buffer) :=
  mergeLoop_spec bookField_rel
    (fun t _ hReady hFuel => skipField_matches (skipMessage_spec fuel) hReady hFuel t)
    hReady hFuel hFuel m

end Fields

theorem Ready.ofArray {data : List UInt8} (hMax : (data.length : Int) ≤ kint32max)
    (h : (data.length : Int) ≤ kDefaultTotalBytesLimit) :
    Ready 100 (CodedInputStream.ofArray data) :=
  ⟨Flat.ofArray hMax h, rfl, rfl⟩

theorem Ready.setTotalBytesLimit {data : List UInt8} {limit : Int}
    (hMax : (data.length : Int) ≤ kint32max) (h : (data.length : Int) ≤ max 0 limit) :
    Ready 100 ((CodedInputStream.ofArray data).setTotalBytesLimit limit) := by
  refine ⟨Flat.setTotalBytesLimit hMax h, ?_, ?_⟩ <;> rw [setTotalBytesLimit_ofArray h] <;> rfl

/-- The parser on a stream whose limits hold all of the array. It returns a book or false, whatever
the bytes are: there is no read past the end, no use of the null `input_`, and no loop that runs
on. -/
theorem parsePartialFromCodedStream_spec {s : CodedInputStream} (hReady : Ready 100 s)
    {fuel : Nat} (hFuel : s.buffer.length < fuel) :
    ∃ t, (AddressBook.parsePartialFromCodedStream fuel s).andConsumed =
      (Wire.book s.buffer).elim (.fails t) (.returns · t) := by
  have hMerge : Merges (AddressBook.parsePartialFromCodedStream fuel s) s
      (Wire.mergeBook 100 {} s.buffer) :=
    mergeBook_spec hReady hFuel {}
  rw [Wire.book]
  cases hBook : Wire.mergeBook 100 {} s.buffer with
  | some m =>
    rw [hBook] at hMerge
    obtain ⟨t, hEq⟩ := hMerge
    rw [hEq]
    exact ⟨_, rfl⟩
  | none =>
    rw [hBook] at hMerge
    rcases hMerge with ⟨s', hEq⟩ | ⟨m, s', hEq, hUnended⟩
    · rw [hEq]
      exact ⟨s', rfl⟩
    · rw [hEq, Outcome.andConsumed, Outcome.andThen, consumedEntireMessage, hUnended]
      exact ⟨s', rfl⟩

namespace AddressBook

variable {data : List UInt8}

theorem parsePartialFromArray_spec (hMax : (data.length : Int) ≤ kint32max)
    (h : (data.length : Int) ≤ kDefaultTotalBytesLimit) :
    ∃ s, parsePartialFromArray data = (Wire.book data).elim (.fails s) (.returns · s) :=
  parsePartialFromCodedStream_spec (Ready.ofArray hMax h) (Nat.lt_succ_self _)

theorem parsePartialUnder_spec (hMax : (data.length : Int) ≤ kint32max) {limit : Int}
    (h : (data.length : Int) ≤ max 0 limit) :
    ∃ s, parsePartialUnder limit data = (Wire.book data).elim (.fails s) (.returns · s) := by
  have hBuffer : ((CodedInputStream.ofArray data).setTotalBytesLimit limit).buffer = data := by
    rw [setTotalBytesLimit_ofArray h]
    rfl
  have hFuel : ((CodedInputStream.ofArray data).setTotalBytesLimit limit).buffer.length <
      data.length + 1 := by
    rw [hBuffer]
    exact Nat.lt_succ_self _
  have hSpec := parsePartialFromCodedStream_spec (Ready.setTotalBytesLimit hMax h) hFuel
  rwa [hBuffer] at hSpec

end AddressBook

end AndroidDemo.Protobuf
