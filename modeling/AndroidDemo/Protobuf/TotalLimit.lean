import AndroidDemo.Protobuf.AddressBook
import AndroidDemo.Protobuf.FlatStream

/-! # Arrays beyond the total limit

The end of an array that is longer than the total limit is no end of a message.
Once a limit has been pushed and popped, the bytes behind the total limit are
behind the end of the buffer, and what is read there may leave the array.
-/

namespace AndroidDemo.Protobuf

open AndroidDemo.Base128
open CodedInputStream

/-- The call ends, with `Q` where it returns and `F` where it fails. -/
def Outcome.Ends {α : Type} (Q : α → CodedInputStream → Prop) (F : CodedInputStream → Prop) :
    Outcome α → Prop
  | .returns a s => Q a s
  | .fails s => F s
  | .overrun => True
  | .running => False

/-- `n` bytes of the array are left at most. At the outermost limit, which is the size of the array,
no end of a message has been met. -/
structure Bounded (size total limit : Int) (n : Nat) (s : CodedInputStream) : Prop where
  totalBytesRead_eq : s.totalBytesRead = size
  totalBytesLimit_eq : s.totalBytesLimit = total
  total_lt : total < size
  currentLimit_eq : s.currentLimit = limit
  limit_le : limit ≤ size
  ahead_le : s.ahead.length ≤ n
  unended : limit = size → s.legitimateMessageEnd = false
  afterLimit_eq : limit = size →
    s.bufferSizeAfterLimit = 0 ∨ s.bufferSizeAfterLimit = size - total

section Rules

variable {α β : Type} {Q : α → CodedInputStream → Prop} {F : CodedInputStream → Prop}

theorem Outcome.Ends.andThen {r : Outcome α} {f : α → CodedInputStream → Outcome β}
    {Q' : β → CodedInputStream → Prop} (h : r.Ends Q F)
    (hNext : ∀ a s, Q a s → (f a s).Ends Q' fun _ => True) :
    (r.andThen f).Ends Q' fun _ => True := by
  cases r with
  | returns a s => exact hNext a s h
  | fails s => trivial
  | overrun => trivial
  | running => exact h

theorem Outcome.Ends.mono {r : Outcome α} {Q' : α → CodedInputStream → Prop}
    {F' : CodedInputStream → Prop} (h : r.Ends Q F) (hReturns : ∀ a s, Q a s → Q' a s)
    (hFails : ∀ s, F s → F' s) : r.Ends Q' F' := by
  cases r with
  | returns a s => exact hReturns a s h
  | fails s => exact hFails s h
  | overrun => trivial
  | running => exact h

theorem Outcome.Refused.ne_returns {r : Outcome α} (h : r.Refused) {a : α}
    {s : CodedInputStream} : r ≠ .returns a s := by
  rintro rfl
  rcases h with ⟨_, hEq⟩ | hEq <;> cases hEq

end Rules

section Reading

variable {size total limit : Int} {n k : Nat} {s : CodedInputStream}

theorem Bounded.mono (h : Bounded size total limit n s) (hLe : n ≤ k) :
    Bounded size total limit k s :=
  { h with ahead_le := Nat.le_trans h.ahead_le hLe }

/-- A read that has taken a byte leaves no more than there was. -/
theorem Bounded.of_shorter (h : ∃ k < n, Bounded size total limit k s) :
    Bounded size total limit n s := by
  obtain ⟨k, hk, hLeft⟩ := h
  exact hLeft.mono hk.le

theorem Bounded.withBudget (h : Bounded size total limit n s) (budget : Int) :
    Bounded size total limit n { s with recursionBudget := budget } :=
  { h with }

/-- What is read is bytes of the array. -/
theorem Bounded.advance (h : Bounded size total limit n s) {amount : Nat}
    (hLe : amount ≤ s.ahead.length) :
    Bounded size total limit (n - amount) (s.advance amount) := by
  have hAll : s.ahead.length = s.buffer.length + s.afterLimit.length := List.length_append
  have hAfter : (s.advance amount).bufferSizeAfterLimit = s.bufferSizeAfterLimit := by
    simp only [bufferSizeAfterLimit, CodedInputStream.advance, List.length_drop]
    omega
  have hLeft : (s.advance amount).ahead.length = s.ahead.length - amount := by
    simp only [ahead, CodedInputStream.advance, List.length_append, List.length_drop]
    omega
  have hOld := h.ahead_le
  exact
    { totalBytesRead_eq := h.totalBytesRead_eq
      totalBytesLimit_eq := h.totalBytesLimit_eq
      total_lt := h.total_lt
      currentLimit_eq := h.currentLimit_eq
      limit_le := h.limit_le
      ahead_le := by omega
      unended := h.unended
      afterLimit_eq := by rw [hAfter]; exact h.afterLimit_eq }

theorem Bounded.leaving (h : Bounded size total limit n s) {rest : List UInt8}
    (hLt : rest.length < s.buffer.length) : ∃ k < n, Bounded size total limit k (s.leaving rest) := by
  have hAll : s.ahead.length = s.buffer.length + s.afterLimit.length := List.length_append
  have hLeft : (s.leaving rest).ahead.length = rest.length + s.afterLimit.length :=
    List.length_append
  have hOld := h.ahead_le
  exact ⟨_, by omega, { h with ahead_le := Nat.le_refl _ }⟩

theorem Bounded.advance_shorter (h : Bounded size total limit n s) {amount : Nat}
    (hPos : 0 < amount) (hLe : amount ≤ s.ahead.length) :
    ∃ k < n, Bounded size total limit k (s.advance amount) := by
  have hOld := h.ahead_le
  exact ⟨_, by omega, h.advance hLe⟩

theorem refresh_eq {α : Type} (s : CodedInputStream) :
    refresh (α := α) s = .fails s ∨ refresh (α := α) s = .overrun := by
  rw [refresh]
  split
  · exact Or.inl rfl
  · exact Or.inr rfl

theorem refresh_ends {α : Type} {Q : α → CodedInputStream → Prop} {F : CodedInputStream → Prop}
    (h : F s) : (refresh s).Ends Q F := by
  rcases refresh_eq (α := α) s with hEq | hEq <;> rw [hEq]
  · exact h
  · trivial

/-- What is returned leaves no more bytes than there were. -/
abbrev Stays {α : Type} (size total limit : Int) (n : Nat) (r : Outcome α) : Prop :=
  r.Ends (fun _ => Bounded size total limit n) fun _ => True

theorem Stays.mono {α : Type} {r : Outcome α} (h : Stays size total limit k r) (hLe : k ≤ n) :
    Stays size total limit n r :=
  Outcome.Ends.mono h (fun _ _ hLeft => hLeft.mono hLe) fun _ _ => trivial

/-! ## Varints -/

theorem readVarint64Loop_ends {left count : Nat} {result : UInt64}
    (h : Bounded size total limit n s) :
    (readVarint64Loop left count result s).Ends
      (fun _ t => ∃ k < n, Bounded size total limit k t) (Bounded size total limit n) := by
  induction left generalizing count result n s with
  | zero => exact h
  | succ left ih =>
    rw [readVarint64Loop]
    split
    · exact refresh_ends h
    · split
      · trivial
      · rename_i hAhead
        have hPos : 1 ≤ s.ahead.length := by
          rw [hAhead]
          exact Nat.succ_pos _
        obtain ⟨k, hk, hAdvanced⟩ := h.advance_shorter Nat.one_pos hPos
        split
        · exact ⟨k, hk, hAdvanced⟩
        · refine (ih hAdvanced).mono (fun _ t hRead => ?_) fun t hFails => hFails.mono hk.le
          obtain ⟨j, hj, hRead⟩ := hRead
          exact ⟨j, hj.trans hk, hRead⟩

theorem readVarint64Fallback_ends (h : Bounded size total limit n s) :
    (readVarint64Fallback s).Ends
      (fun _ t => ∃ k < n, Bounded size total limit k t) (Bounded size total limit n) := by
  cases hDecode : decode 10 s.buffer with
  | some next =>
    rw [readVarint64Fallback_some hDecode]
    exact h.leaving (decode_shortens hDecode)
  | none =>
    rw [readVarint64Fallback_of_none hDecode]
    split
    · exact h
    · exact readVarint64Loop_ends h

theorem readVarint64_ends (h : Bounded size total limit n s) :
    (readVarint64 s).Ends
      (fun _ t => ∃ k < n, Bounded size total limit k t) (Bounded size total limit n) := by
  cases hDecode : decode 10 s.buffer with
  | some next =>
    rw [readVarint64_some hDecode]
    exact h.leaving (decode_shortens hDecode)
  | none =>
    rw [readVarint64_of_none hDecode]
    exact readVarint64Fallback_ends h

theorem readVarint32_ends (h : Bounded size total limit n s) :
    Stays size total limit n (readVarint32 s) := by
  cases hDecode : decode 10 s.buffer with
  | some next =>
    rw [readVarint32_some hDecode]
    exact .of_shorter (h.leaving (decode_shortens hDecode))
  | none =>
    rw [readVarint32_of_none hDecode]
    split
    · trivial
    · refine (readVarint64Fallback_ends h).andThen fun _ t hRead => ?_
      exact .of_shorter hRead

theorem readVarintSizeAsIntFallback_ends (h : Bounded size total limit n s) :
    Stays size total limit n (readVarintSizeAsIntFallback s) := by
  cases hDecode : decode 10 s.buffer with
  | some next =>
    rw [readVarintSizeAsIntFallback_some hDecode]
    split
    · exact .of_shorter (h.leaving (decode_shortens hDecode))
    · trivial
  | none =>
    rw [readVarintSizeAsIntFallback]
    split
    · rename_i hUnchecked
      rw [readVarint64FromArray_eq, ofDecode_unchecked _ hUnchecked, hDecode]
      trivial
    · refine (readVarint64Fallback_ends h).andThen fun _ t hRead => ?_
      split
      · trivial
      · exact .of_shorter hRead

theorem readVarintSizeAsInt_ends (h : Bounded size total limit n s) :
    Stays size total limit n (readVarintSizeAsInt s) := by
  rw [readVarintSizeAsInt]
  split
  · rename_i b tail hBuffer
    split
    · rw [advance_one s hBuffer]
      have hLt : tail.length < s.buffer.length := by
        rw [hBuffer]
        exact Nat.lt_succ_self _
      exact .of_shorter (h.leaving hLt)
    · exact readVarintSizeAsIntFallback_ends h
  · exact readVarintSizeAsIntFallback_ends h

/-! ## Bytes -/

theorem readString_ends (h : Bounded size total limit n s) (length : Int) :
    Stays size total limit n (readString length s) := by
  have hAll : s.ahead.length = s.buffer.length + s.afterLimit.length := List.length_append
  rw [readString]
  split
  · trivial
  · split
    · rename_i hFits
      have hInside : length.toNat ≤ s.ahead.length := by
        rw [bufferSize] at hFits
        omega
      exact (h.advance hInside).mono (Nat.sub_le _ _)
    · split
      · trivial
      · exact refresh_ends trivial

theorem readLittleEndian_ends (h : Bounded size total limit n s) (w : Nat) :
    Stays size total limit n (readLittleEndian w s) := by
  rw [readLittleEndian]
  split
  · split
    · rename_i hFits
      exact (h.advance hFits).mono (Nat.sub_le _ _)
    · trivial
  · exact (readString_ends h w).andThen fun _ _ hRead => hRead

/-! ## Tags -/

/-- A tag takes a byte. -/
abbrev TagEnds (size total limit : Int) (n : Nat) (r : Outcome UInt32) : Prop :=
  r.Ends (fun tag t => Bounded size total limit n t ∧
    (tag ≠ 0 → ∃ k < n, Bounded size total limit k t)) fun _ => True

theorem readTag64_ends (h : Bounded size total limit n s) :
    TagEnds size total limit n (readTag64 s) := by
  have hRead := readVarint64_ends h
  rw [readTag64]
  cases hEq : readVarint64 s with
  | returns value t =>
    rw [hEq] at hRead
    exact ⟨.of_shorter hRead, fun _ => hRead⟩
  | fails t =>
    rw [hEq] at hRead
    exact ⟨hRead, fun hZero => absurd rfl hZero⟩
  | overrun => trivial
  | running =>
    rw [hEq] at hRead
    exact hRead

/-- At the outermost limit the stream is not below the total limit. -/
theorem Bounded.total_le (h : Bounded size total limit n s) (hOuter : limit = size) :
    s.totalBytesLimit ≤ s.totalBytesRead - s.bufferSizeAfterLimit := by
  have hLt := h.total_lt
  rw [h.totalBytesRead_eq, h.totalBytesLimit_eq]
  rcases h.afterLimit_eq hOuter with hNone | hPast <;> omega

theorem readTagSlow_ends (h : Bounded size total limit n s) :
    TagEnds size total limit n (readTagSlow s) := by
  have hStop (ended : Bool) (hEnded : limit = size → ended = false) :
      Bounded size total limit n { s with legitimateMessageEnd := ended } :=
    { h with unended := hEnded }
  have hLt := h.total_lt
  rw [readTagSlow]
  split
  · rcases refresh_eq (α := Unit) s with hEq | hEq <;> rw [hEq]
    · dsimp only
      split
      · refine ⟨hStop _ fun hOuter => ?_, fun hZero => absurd rfl hZero⟩
        rw [h.currentLimit_eq, h.totalBytesLimit_eq, decide_eq_false_iff_not]
        omega
      · rename_i hBelow
        exact ⟨hStop _ fun hOuter => absurd (h.total_le hOuter) hBelow,
          fun hZero => absurd rfl hZero⟩
    · trivial
  · exact readTag64_ends h

theorem readTagFallback_nil_ends (h : Bounded size total limit n s) (hBuffer : s.buffer = []) :
    TagEnds size total limit n (readTagFallback 0 s) := by
  rw [readTagFallback, unchecked_nil hBuffer, if_neg Bool.false_ne_true]
  split
  · rename_i hEnd
    have hInner : limit = size → true = false := fun hOuter =>
      absurd hEnd.2.2 (Int.not_lt.mpr (h.total_le hOuter))
    exact ⟨{ h with unended := hInner }, fun hZero => absurd rfl hZero⟩
  · exact readTagSlow_ends h

theorem readTagFallback_cons_ends (h : Bounded size total limit n s) {b : UInt8}
    {tail : List UInt8} (hBuffer : s.buffer = b :: tail) (hb : b.toNat = 0 ∨ 128 ≤ b.toNat) :
    TagEnds size total limit n (readTagFallback b.toUInt32 s) := by
  by_cases hUnchecked : unchecked s = true
  · rw [readTagFallback_unchecked hBuffer hUnchecked hb]
    split
    · rename_i hDecode
      have hLeft := h.leaving (decode_shortens hDecode)
      exact ⟨.of_shorter hLeft, fun _ => hLeft⟩
    · exact ⟨h, fun hZero => absurd rfl hZero⟩
  · rw [readTagFallback_checked hBuffer hUnchecked]
    exact readTag64_ends h

theorem Bounded.advance_tag (h : Bounded size total limit n s) {b : UInt8} {tail : List UInt8}
    (hBuffer : s.buffer = b :: tail) {tag : UInt32} :
    Bounded size total limit n (s.advance 1) ∧
      (tag ≠ 0 → ∃ k < n, Bounded size total limit k (s.advance 1)) := by
  have hPos : 1 ≤ s.ahead.length := by
    rw [ahead_cons s hBuffer]
    exact Nat.succ_pos _
  have hAdvanced := h.advance_shorter Nat.one_pos hPos
  exact ⟨.of_shorter hAdvanced, fun _ => hAdvanced⟩

theorem readTagWithCutoff_ends (h : Bounded size total limit n s) :
    (readTagWithCutoffNoLastTag 127 s).Ends (fun p t => Bounded size total limit n t ∧
      (p.1 ≠ 0 → ∃ k < n, Bounded size total limit k t)) fun _ => True := by
  cases hBuffer : s.buffer with
  | nil =>
    simp only [readTagWithCutoffNoLastTag, hBuffer]
    exact (readTagFallback_nil_ends h hBuffer).andThen fun _ _ hRead => hRead
  | cons b tail =>
    rw [readTagWithCutoff_cons hBuffer]
    split
    · exact h.advance_tag hBuffer
    · rename_i hb
      exact (readTagFallback_cons_ends h hBuffer (fallback_byte hb)).andThen fun _ _ hRead => hRead

theorem readTag_ends (h : Bounded size total limit n s) :
    TagEnds size total limit n (readTag s) := by
  have hRead : TagEnds size total limit n (readTagNoLastTag s) := by
    rw [readTagNoLastTag]
    split
    · rename_i b tail hBuffer
      split
      · exact h.advance_tag hBuffer
      · rename_i hb
        rw [byte_lt_0x80] at hb
        exact readTagFallback_cons_ends h hBuffer (Or.inr (by omega))
    · rename_i hBuffer
      exact readTagFallback_nil_ends h hBuffer
  -- `last_tag_` plays no part in the invariant.
  exact hRead.andThen fun tag t hRead => ⟨{ hRead.1 with }, fun hNonzero =>
    (hRead.2 hNonzero).imp fun k hk => ⟨hk.1, { hk.2 with }⟩⟩

/-! ## Fields to skip -/

theorem skipFieldWith_ends {skipMessage : CodedInputStream → Outcome (List UInt8)}
    (hMessage : ∀ s, Bounded size total limit n s → Stays size total limit n (skipMessage s))
    (h : Bounded size total limit n s) (tag : UInt32) :
    Stays size total limit n (skipFieldWith skipMessage tag s) := by
  rw [skipFieldWith]
  split
  · trivial
  · split
    · exact (readVarint64_ends h).andThen fun _ _ hRead => .of_shorter hRead
    · exact (readLittleEndian_ends h 8).andThen fun _ _ hRead => hRead
    · refine (readVarint32_ends h).andThen fun length t hRead => ?_
      exact (readString_ends hRead _).andThen fun _ _ hRead => hRead
    · dsimp only [incrementRecursionDepth]
      split
      · refine (hMessage _ (h.withBudget _)).andThen fun bytes t hRead => ?_
        have hLeft : Bounded size total limit n t.decrementRecursionDepth := by
          rw [decrementRecursionDepth]
          split
          · exact hRead.withBudget _
          · exact hRead
        split
        · exact hLeft
        · trivial
      · trivial
    · trivial
    · exact (readLittleEndian_ends h 4).andThen fun _ _ hRead => hRead
    · trivial

theorem skipMessage_ends (fuel : Nat) (output : List UInt8) (h : Bounded size total limit n s)
    (hFuel : n < fuel) :
    Stays size total limit n (skipMessage fuel output s) := by
  induction fuel generalizing output n s with
  | zero => exact absurd hFuel (Nat.not_lt_zero n)
  | succ fuel ih =>
    rw [skipMessage]
    refine (readTag_ends h).andThen fun tag t hTag => ?_
    obtain ⟨hLeft, hShorter⟩ := hTag
    split
    · exact hLeft
    · rename_i hNonzero
      obtain ⟨k, hk, hLess⟩ := hShorter hNonzero
      have hInner : k < fuel := by omega
      split
      · exact hLeft
      · refine (skipFieldWith_ends (fun _ h => ih [] h hInner) hLess tag).andThen
          fun bytes u hSkipped => ?_
        exact (ih _ hSkipped hInner).mono hk.le

/-! ## Messages inside messages -/

theorem recomputeBufferLimits_ahead (s : CodedInputStream) :
    s.recomputeBufferLimits.ahead = s.ahead :=
  List.take_append_drop _ _

theorem recomputeBufferLimits_bufferSizeAfterLimit (s : CodedInputStream) :
    s.recomputeBufferLimits.bufferSizeAfterLimit =
      max 0 (s.totalBytesRead - min s.currentLimit s.totalBytesLimit) := by
  simp only [bufferSizeAfterLimit, recomputeBufferLimits, List.length_drop]
  split <;> omega

/-- A limit that is pushed lies inside, another one is dropped. -/
theorem pushLimit_bounded (h : Bounded size total limit n s) (length : Int) :
    ∃ inner, Bounded size total inner n (s.pushLimit length).2 ∧
      (s.pushLimit length).1 = limit := by
  have hLe := h.limit_le
  have hLimit := h.currentLimit_eq
  rw [pushLimit]
  split
  · rename_i hPushed
    refine ⟨s.currentPosition + length, ?_, hLimit⟩
    have hInner : s.currentPosition + length ≠ size := by omega
    exact
      { totalBytesRead_eq := h.totalBytesRead_eq
        totalBytesLimit_eq := h.totalBytesLimit_eq
        total_lt := h.total_lt
        currentLimit_eq := rfl
        limit_le := by omega
        ahead_le := by rw [recomputeBufferLimits_ahead]; exact h.ahead_le
        unended := fun hOuter => absurd hOuter hInner
        afterLimit_eq := fun hOuter => absurd hOuter hInner }
  · exact ⟨limit, h, hLimit⟩

theorem popLimit_bounded {inner : Int} (h : Bounded size total inner n s) (hLe : limit ≤ size) :
    Bounded size total limit n (s.popLimit limit) where
  totalBytesRead_eq := h.totalBytesRead_eq
  totalBytesLimit_eq := h.totalBytesLimit_eq
  total_lt := h.total_lt
  currentLimit_eq := rfl
  limit_le := hLe
  ahead_le := by
    have hAhead := recomputeBufferLimits_ahead { s with currentLimit := limit }
    exact hAhead ▸ h.ahead_le
  unended := fun _ => rfl
  afterLimit_eq := fun hOuter => by
    have hAfter := recomputeBufferLimits_bufferSizeAfterLimit { s with currentLimit := limit }
    have hLt := h.total_lt
    have hRead := h.totalBytesRead_eq
    have hTotal := h.totalBytesLimit_eq
    change (s.popLimit limit).bufferSizeAfterLimit = _ at hAfter
    dsimp only at hAfter
    omega

theorem readMessage_ends {M : Type} {merge : M → CodedInputStream → Outcome M} {value : M}
    (hMerge : ∀ inner s, Bounded size total inner n s → Stays size total inner n (merge value s))
    (h : Bounded size total limit n s) :
    Stays size total limit n (readMessage merge value s) := by
  rw [readMessage]
  refine (readVarintSizeAsInt_ends h).andThen fun length t hRead => ?_
  obtain ⟨inner, hPushed, hOld⟩ := pushLimit_bounded hRead length
  dsimp only [incrementRecursionDepthAndPushLimit]
  split
  · trivial
  · refine (hMerge inner _ (hPushed.withBudget _)).andThen fun m u hMerged => ?_
    rw [decrementRecursionDepthAndPopLimit, hOld]
    change (if u.consumedEntireMessage then Outcome.returns m _ else .fails _).Ends _ _
    split
    · exact (popLimit_bounded hMerged hRead.limit_le).withBudget _
    · trivial

/-- The fields and the skipped fields are given streams with fewer bytes left than `fuel₀`. -/
theorem mergeLoop_ends {M : Type} {field : UInt32 → Option (M → CodedInputStream → Outcome M)}
    {addUnknown : M → List UInt8 → M} {skip : UInt32 → CodedInputStream → Outcome (List UInt8)}
    {fuel₀ : Nat} (hZero : field 0 = none)
    (hField : ∀ tag read, field tag = some read → ∀ n < fuel₀, ∀ m s,
      Bounded size total limit n s → Stays size total limit n (read m s))
    (hSkip : ∀ tag, ∀ n < fuel₀, ∀ s,
      Bounded size total limit n s → Stays size total limit n (skip tag s))
    (fuel : Nat) (m : M) (h : Bounded size total limit n s) (hFuel : n < fuel) (hLe : n < fuel₀) :
    Stays size total limit n (mergeLoop field addUnknown skip fuel m s) := by
  induction fuel generalizing m n s with
  | zero => exact absurd hFuel (Nat.not_lt_zero n)
  | succ fuel ih =>
    rw [mergeLoop]
    refine (readTagWithCutoff_ends h).andThen fun p t hTag => ?_
    obtain ⟨tag, below⟩ := p
    obtain ⟨hLeft, hShorter⟩ := hTag
    dsimp only at hShorter ⊢
    split
    · rename_i read hRead
      have hSome : field tag = some read := by
        cases below with
        | true => exact hRead
        | false => cases hRead
      have hNonzero : tag ≠ 0 := by
        rintro rfl
        rw [hZero] at hSome
        cases hSome
      obtain ⟨k, hk, hLess⟩ := hShorter hNonzero
      refine (hField tag read hSome k (by omega) m t hLess).andThen fun m u hRest => ?_
      exact (ih m hRest (by omega) (by omega)).mono hk.le
    · split
      · exact hLeft
      · rename_i hNonzero
        obtain ⟨k, hk, hLess⟩ := hShorter hNonzero
        refine (hSkip tag k (by omega) t hLess).andThen fun bytes u hRest => ?_
        exact (ih _ hRest (by omega) (by omega)).mono hk.le

theorem skipField_ends {fuel : Nat} (tag : UInt32) (n : Nat) (hFuel : n < fuel)
    (s : CodedInputStream) (h : Bounded size total limit n s) :
    Stays size total limit n (skipField fuel tag s) :=
  skipFieldWith_ends (fun _ h => skipMessage_ends fuel [] h hFuel) h tag

theorem readBytesToString_ends (h : Bounded size total limit n s) :
    Stays size total limit n (readBytesToString s) :=
  (readVarint32_ends h).andThen fun _ _ hRead => readString_ends hRead _

theorem readInt32_ends (h : Bounded size total limit n s) :
    Stays size total limit n (readInt32 s) :=
  (readVarint32_ends h).andThen fun _ _ hRead => hRead

/-! ## The messages of the address book -/

theorem PhoneNumber.mergePartialFromCodedStream_ends {fuel : Nat} (m : PhoneNumber)
    (h : Bounded size total limit n s) (hFuel : n < fuel) :
    Stays size total limit n (m.mergePartialFromCodedStream fuel s) := by
  refine mergeLoop_ends rfl (fun tag read hField n _ m s h => ?_) skipField_ends fuel m h hFuel
    hFuel
  rw [field] at hField
  split at hField
  · rw [Option.ite_none_right_eq_some] at hField
    cases hField.2
    exact (readBytesToString_ends h).andThen fun _ _ hRead => hRead
  · rw [Option.ite_none_right_eq_some] at hField
    cases hField.2
    exact (readInt32_ends h).andThen fun _ _ hRead => hRead
  · cases hField

theorem Person.mergePartialFromCodedStream_ends {fuel : Nat} (m : Person)
    (h : Bounded size total limit n s) (hFuel : n < fuel) :
    Stays size total limit n (m.mergePartialFromCodedStream fuel s) := by
  refine mergeLoop_ends rfl (fun tag read hField n hLess m s h => ?_) skipField_ends fuel m h hFuel
    hFuel
  rw [field] at hField
  split at hField <;> first | cases hField | rw [Option.ite_none_right_eq_some] at hField
  · cases hField.2
    exact (readBytesToString_ends h).andThen fun _ _ hRead => hRead
  · cases hField.2
    exact (readInt32_ends h).andThen fun _ _ hRead => hRead
  · cases hField.2
    exact (readBytesToString_ends h).andThen fun _ _ hRead => hRead
  · cases hField.2
    exact (readMessage_ends (fun _ _ h =>
      PhoneNumber.mergePartialFromCodedStream_ends {} h hLess) h).andThen fun _ _ hRead => hRead

namespace AddressBook

theorem mergePartialFromCodedStream_ends {fuel : Nat} (m : AddressBook)
    (h : Bounded size total limit n s) (hFuel : n < fuel) :
    Stays size total limit n (m.mergePartialFromCodedStream fuel s) := by
  refine mergeLoop_ends rfl (fun tag read hField n hLess m s h => ?_) skipField_ends fuel m h hFuel
    hFuel
  rw [field] at hField
  split at hField
  · rw [Option.ite_none_right_eq_some] at hField
    cases hField.2
    exact (readMessage_ends (fun _ _ h => Person.mergePartialFromCodedStream_ends {} h hLess)
      h).andThen fun _ _ hRead => hRead
  · cases hField

/-- At the outermost limit the message has not ended. -/
theorem parsePartialFromCodedStream_refused {fuel : Nat} (h : Bounded size total size n s)
    (hFuel : n < fuel) : (parsePartialFromCodedStream fuel s).andConsumed.Refused := by
  have hMerge := mergePartialFromCodedStream_ends {} h hFuel
  rw [parsePartialFromCodedStream, Outcome.andConsumed]
  cases hEq : mergePartialFromCodedStream fuel {} s with
  | returns m t =>
    rw [hEq] at hMerge
    have hUnended : t.consumedEntireMessage = false := hMerge.unended rfl
    rw [Outcome.andThen, hUnended]
    exact Or.inl ⟨t, rfl⟩
  | fails t => exact Or.inl ⟨t, rfl⟩
  | overrun => exact Or.inr rfl
  | running =>
    rw [hEq] at hMerge
    cases hMerge

end AddressBook

end Reading

/-! ## Arrays -/

section Arrays

variable {data : List UInt8}

theorem ofArray_bounded (h : kDefaultTotalBytesLimit < data.length) :
    Bounded data.length kDefaultTotalBytesLimit data.length data.length (.ofArray data) where
  totalBytesRead_eq := rfl
  totalBytesLimit_eq := rfl
  total_lt := h
  currentLimit_eq := rfl
  limit_le := Int.le_refl _
  ahead_le := by simp [ahead, ofArray]
  unended := fun _ => rfl
  afterLimit_eq := fun _ => Or.inl rfl

theorem setTotalBytesLimit_bounded {limit : Int} (h : max 0 limit < data.length) :
    Bounded data.length (max 0 limit) data.length data.length
      ((CodedInputStream.ofArray data).setTotalBytesLimit limit) := by
  have hLimit : max (CodedInputStream.ofArray data).currentPosition limit = max 0 limit := by
    rw [ofArray_currentPosition]
  rw [CodedInputStream.setTotalBytesLimit, hLimit]
  exact
    { totalBytesRead_eq := rfl
      totalBytesLimit_eq := rfl
      total_lt := h
      currentLimit_eq := rfl
      limit_le := Int.le_refl _
      ahead_le := by
        rw [recomputeBufferLimits_ahead]
        simp [ahead, ofArray]
      unended := fun _ => rfl
      afterLimit_eq := fun _ => by
        rw [recomputeBufferLimits_bufferSizeAfterLimit]
        simp only [ofArray]
        omega }

namespace AddressBook

/-- No array that is longer than the total limit is parsed. -/
theorem parsePartialFromArray_refused (h : kDefaultTotalBytesLimit < data.length) :
    (parsePartialFromArray data).Refused :=
  parsePartialFromCodedStream_refused (ofArray_bounded h) (Nat.lt_succ_self _)

theorem parsePartialUnder_refused {limit : Int} (h : max 0 limit < data.length) :
    (parsePartialUnder limit data).Refused :=
  parsePartialFromCodedStream_refused (setTotalBytesLimit_bounded h) (Nat.lt_succ_self _)

/-- One person of ten bytes. -/
example : ∃ s, parseFromArray [0x0a, 8, 0x0a, 6, 119, 117, 105, 97, 115, 100] = .fails s :=
  ⟨_, rfl⟩

/-- Two persons behind an unknown field: the first one is not left at its end. -/
example : parseFromArray [0x4a, 12, 0, 0, 0, 0, 0, 0, 0, 0, 0, 0, 0, 0, 0x0a, 2, 16, 1, 0x0a, 2, 16,
    1] = .overrun := rfl

end AddressBook

end Arrays

end AndroidDemo.Protobuf
