import AndroidDemo.Protobuf.CodedOutputStream
import AndroidDemo.Protobuf.ZeroCopyStream
import AndroidDemo.Socket.Tool

/-! # Writing to a stream of blocks

`CodedOutputStream` of io/coded_stream.cc over any `ZeroCopyOutputStream`: where
the blocks end does not show in what is written.
-/

namespace AndroidDemo.Protobuf

open AndroidDemo.Blocks AndroidDemo.Base128 AndroidDemo.Socket

/-- `buffer_` is an offset in the memory of `output_`. -/
structure CodedOutputStreamOver (σ : Type) where
  output : σ
  buffer : Nat
  bufferSize : Nat
  totalBytes : Nat
  hadError : Bool

namespace CodedOutputStreamOver

variable {σ : Type} (S : Sink UInt8 σ)

/-- `Refresh`, and whether it has returned true. -/
def refresh (o : CodedOutputStreamOver σ) : Bool × CodedOutputStreamOver σ :=
  match S.next o.output with
  | (some (data, size), output) =>
    (true, { o with output := output, buffer := data, bufferSize := size,
                    totalBytes := o.totalBytes + size })
  | (none, output) =>
    (false, { o with output := output, buffer := 0, bufferSize := 0, hadError := true })

/-- The constructor, whose first refresh may fail without an error. -/
def new (output : σ) (doEagerRefresh : Bool) : CodedOutputStreamOver σ :=
  let o := { output := output, buffer := 0, bufferSize := 0, totalBytes := 0, hadError := false }
  if doEagerRefresh then { (refresh S o).2 with hadError := false } else o

def memcpy (o : CodedOutputStreamOver σ) (bytes : List UInt8) : CodedOutputStreamOver σ :=
  { o with output := S.store o.output o.buffer bytes }

def advance (o : CodedOutputStreamOver σ) (amount : Nat) : CodedOutputStreamOver σ :=
  { o with buffer := o.buffer + amount, bufferSize := o.bufferSize - amount }

theorem refresh_pos {o o' : CodedOutputStreamOver σ} (h : refresh S o = (true, o')) :
    0 < o'.bufferSize := by
  rw [refresh] at h
  split at h
  · rename_i data size output hNext
    cases h
    exact (S.next_block o.output data size output hNext).2.1
  · cases h

def writeRaw (o : CodedOutputStreamOver σ) (data : List UInt8) : CodedOutputStreamOver σ :=
  if o.bufferSize < data.length then
    match _h : refresh S (o.memcpy S (data.take o.bufferSize)) with
    | (true, o') => writeRaw o' (data.drop o.bufferSize)
    | (false, o') => o'
  else (o.memcpy S data).advance data.length
termination_by 2 * data.length + if o.bufferSize = 0 then 1 else 0
decreasing_by
  have hPos := refresh_pos S _h
  rw [List.length_drop, if_neg (by omega)]
  split <;> omega

def writeVarint32 (o : CodedOutputStreamOver σ) (value : UInt32) : CodedOutputStreamOver σ :=
  if o.bufferSize ≥ 5 then
    (o.memcpy S (writeVarint32ToArray value)).advance (writeVarint32ToArray value).length
  else o.writeRaw S (writeVarint32ToArray value)

def writeVarint64 (o : CodedOutputStreamOver σ) (value : UInt64) : CodedOutputStreamOver σ :=
  if o.bufferSize ≥ 10 then
    (o.memcpy S (writeVarint64ToArray value)).advance (writeVarint64ToArray value).length
  else o.writeRaw S (writeVarint64ToArray value)

/-- `WriteLittleEndian32` and `WriteLittleEndian64` -/
def writeLittleEndian (w : Nat) (o : CodedOutputStreamOver σ) (value : BitVec (8 * w)) :
    CodedOutputStreamOver σ :=
  if o.bufferSize ≥ w then (o.memcpy S (storeInt w value)).advance w
  else o.writeRaw S (storeInt w value)

/-- `none` is a failed `GOOGLE_CHECK`. -/
def trim (o : CodedOutputStreamOver σ) : Option (CodedOutputStreamOver σ) :=
  if o.bufferSize > 0 then
    (S.backUp o.output o.bufferSize).map fun output =>
      { o with output := output, totalBytes := o.totalBytes - o.bufferSize, bufferSize := 0, buffer := 0 }
  else some o

def byteCount (o : CodedOutputStreamOver σ) : Nat := o.totalBytes - o.bufferSize

/-! ## What a stream has been given -/

/-- Everything has been written. `start` was in the memory before. -/
structure Going (start : Nat) (o : CodedOutputStreamOver σ) (all : List UInt8) : Prop where
  holds : Holds S o.output o.buffer o.bufferSize all
  counted : o.totalBytes + start = all.length + o.bufferSize
  began : start ≤ all.length
  noError : o.hadError = false

/-- The output refuses further blocks. -/
structure Stuck (start : Nat) (o : CodedOutputStreamOver σ) (written : List UInt8) : Prop where
  memory : S.memory o.output = written
  counted : o.totalBytes + start = written.length
  full : o.bufferSize = 0
  refuses : (S.next o.output).1 = none
  limit : S.limit ≤ written.length
  error : o.hadError = true

/-- The stream has been given these bytes, and holds them or as many as there was room for. -/
def Given (start : Nat) (o : CodedOutputStreamOver σ) (all : List UInt8) : Prop :=
  Going S start o all ∨ ∃ n, n < all.length ∧ Stuck S start o (all.take n)

variable {S} {start : Nat} {o o' : CodedOutputStreamOver σ} {all data : List UInt8}

theorem Going.write (h : Going S start o all) (hFits : data.length ≤ o.bufferSize) :
    Going S start ((o.memcpy S data).advance data.length) (all ++ data) where
  holds := h.holds.store hFits
  counted := by
    have hCounted := h.counted
    rw [List.length_append]
    simp only [advance, memcpy]
    omega
  began := by
    rw [List.length_append]
    exact Nat.le_add_right_of_le h.began
  noError := h.noError

theorem memcpy_nil : o.memcpy S [] = o := by
  rw [memcpy, S.store_nil]

theorem Going.refresh (h : Going S start o all) (hFull : o.bufferSize = 0)
    (hRefresh : refresh S o = (true, o')) : Going S start o' all := by
  have hHolds := h.holds
  rw [hFull] at hHolds
  rw [CodedOutputStreamOver.refresh] at hRefresh
  split at hRefresh
  · rename_i buffer size output hNext
    cases hRefresh
    refine ⟨hHolds.next hNext, ?_, h.began, h.noError⟩
    have hCounted := h.counted
    dsimp only
    omega
  · cases hRefresh

theorem Going.refuse (h : Going S start o all) (hFull : o.bufferSize = 0)
    (hRefresh : CodedOutputStreamOver.refresh S o = (false, o')) : Stuck S start o' all := by
  have hHolds := h.holds
  rw [hFull] at hHolds
  rw [CodedOutputStreamOver.refresh] at hRefresh
  split at hRefresh
  · cases hRefresh
  · rename_i output hNext
    cases hRefresh
    obtain ⟨hMemory, hLimit, hStuck⟩ := hHolds.refused hNext
    refine ⟨hMemory, ?_, rfl, hStuck, hLimit, rfl⟩
    have hCounted := h.counted
    dsimp only
    omega

/-- Copying what there is room for and asking for the next block. -/
theorem refresh_memcpy (bytes : List UInt8) :
    refresh S (o.memcpy S bytes) = refresh S ((o.memcpy S bytes).advance o.bufferSize) := rfl

theorem Going.fill (h : Going S start o all) (hShort : o.bufferSize < data.length) :
    Going S start ((o.memcpy S (data.take o.bufferSize)).advance o.bufferSize)
      (all ++ data.take o.bufferSize) := by
  have hTake : (data.take o.bufferSize).length = o.bufferSize := by
    rw [List.length_take]
    omega
  have hWrite : Going S start ((o.memcpy S (data.take o.bufferSize)).advance
      (data.take o.bufferSize).length) (all ++ data.take o.bufferSize) :=
    h.write (Nat.le_of_eq hTake)
  rwa [hTake] at hWrite

theorem Going.writeRaw (h : Going S start o all) (data : List UInt8) :
    Given S start (o.writeRaw S data) (all ++ data) := by
  induction o, data using CodedOutputStreamOver.writeRaw.induct S generalizing all with
  | case1 o data hShort o' hRefresh ih =>
    have hNext : Going S start o' (all ++ data.take o.bufferSize) :=
      (h.fill hShort).refresh (Nat.sub_self _) (refresh_memcpy _ ▸ hRefresh)
    have hRest := ih hNext
    rw [List.append_assoc, List.take_append_drop] at hRest
    rw [CodedOutputStreamOver.writeRaw, if_pos hShort]
    split
    · rename_i o'' hSame
      cases hRefresh.symm.trans hSame
      exact hRest
    · rename_i o'' hOther
      cases hRefresh.symm.trans hOther
  | case2 o data hShort o' hRefresh =>
    have hStuck : Stuck S start o' (all ++ data.take o.bufferSize) :=
      (h.fill hShort).refuse (Nat.sub_self _) (refresh_memcpy _ ▸ hRefresh)
    have hTake :
        (all ++ data).take (all.length + o.bufferSize) = all ++ data.take o.bufferSize := by
      rw [List.take_length_add_append]
    rw [CodedOutputStreamOver.writeRaw, if_pos hShort]
    split
    · rename_i o'' hOther
      cases hRefresh.symm.trans hOther
    · rename_i o'' hSame
      cases hRefresh.symm.trans hSame
      refine .inr ⟨all.length + o.bufferSize, ?_, hTake ▸ hStuck⟩
      rw [List.length_append]
      omega
  | case3 o data hFits =>
    rw [CodedOutputStreamOver.writeRaw, if_neg hFits]
    exact .inl (h.write (Nat.le_of_not_lt hFits))

theorem Stuck.refresh (h : Stuck S start o all) :
    ∃ o', CodedOutputStreamOver.refresh S o = (false, o') ∧ Stuck S start o' all := by
  have hRefuses := h.refuses
  cases hNext : S.next o.output with
  | mk block output =>
    rw [hNext] at hRefuses
    dsimp only at hRefuses
    subst hRefuses
    obtain ⟨hMemory, _, hStuck⟩ := S.next_refused _ _ hNext
    refine ⟨_, by rw [CodedOutputStreamOver.refresh, hNext], ?_⟩
    exact ⟨hMemory.trans h.memory, h.counted, rfl, hStuck, h.limit, rfl⟩

/-- Nothing more is written to an output that refuses blocks. -/
theorem Stuck.writeRaw (h : Stuck S start o all) (data : List UInt8) :
    Stuck S start (o.writeRaw S data) all := by
  rw [CodedOutputStreamOver.writeRaw, h.full]
  split
  · rename_i hShort
    obtain ⟨o', hRefresh, hStuck⟩ := h.refresh
    rw [List.take_zero, memcpy_nil]
    split
    · rename_i o'' hOther
      cases hRefresh.symm.trans hOther
    · rename_i o'' hSame
      cases hRefresh.symm.trans hSame
      exact hStuck
  · rename_i hFits
    obtain rfl : data = [] := List.eq_nil_of_length_eq_zero (by omega)
    rw [memcpy_nil]
    exact h

theorem writeRaw_nil : o.writeRaw S [] = o := by
  rw [CodedOutputStreamOver.writeRaw, if_neg (by simp), memcpy_nil]
  rfl

/-- The first byte that an output refuses. -/
theorem Going.refused (h : Going S start o all) (hFull : o.bufferSize = 0)
    (hRefuses : (S.next o.output).1 = none) (hData : data ≠ []) :
    Stuck S start (o.writeRaw S data) all := by
  have hShort : o.bufferSize < data.length := by
    rw [hFull]
    exact List.length_pos_iff.mpr hData
  obtain ⟨o', hRefresh⟩ : ∃ o', CodedOutputStreamOver.refresh S o = (false, o') := by
    rw [CodedOutputStreamOver.refresh]
    split
    · rename_i hNext
      rw [hNext] at hRefuses
      cases hRefuses
    · exact ⟨_, rfl⟩
  have hStuck := h.refuse hFull hRefresh
  rw [CodedOutputStreamOver.writeRaw, if_pos hShort, hFull, List.take_zero, memcpy_nil]
  split
  · rename_i hOther
    cases hRefresh.symm.trans hOther
  · rename_i hSame
    cases hRefresh.symm.trans hSame
    exact hStuck

theorem Given.writeRaw (h : Given S start o all) (data : List UInt8) :
    Given S start (o.writeRaw S data) (all ++ data) := by
  rcases h with h | ⟨n, hn, h⟩
  · exact h.writeRaw data
  · refine .inr ⟨n, ?_, ?_⟩
    · rw [List.length_append]
      omega
    · rw [List.take_append_of_le_length (Nat.le_of_lt hn)]
      exact h.writeRaw data

/-- A copy without a loop agrees with the loop where the block has room. -/
theorem fast_eq (hFits : data.length ≤ o.bufferSize) :
    (o.memcpy S data).advance data.length = o.writeRaw S data := by
  rw [CodedOutputStreamOver.writeRaw, if_neg (Nat.not_lt.mpr hFits)]

theorem writeVarint32_eq (value : UInt32) :
    o.writeVarint32 S value = o.writeRaw S (encode value.toNat) := by
  have hLength := encode_length_le_five value
  rw [writeVarint32, writeVarint32ToArray_eq]
  split
  · exact fast_eq (by omega)
  · rfl

theorem writeVarint64_eq (value : UInt64) :
    o.writeVarint64 S value = o.writeRaw S (encode value.toNat) := by
  have hLength := encode_length_le_ten value
  rw [writeVarint64, writeVarint64ToArray_eq]
  split
  · exact fast_eq (by omega)
  · rfl

theorem writeLittleEndian_eq (w : Nat) (value : BitVec (8 * w)) :
    o.writeLittleEndian S w value = o.writeRaw S (storeInt w value) := by
  have hLength : (storeInt w value).length = w := by
    rw [storeInt, List.length_map, List.length_range]
  rw [writeLittleEndian]
  split
  · have hFast : (o.memcpy S (storeInt w value)).advance (storeInt w value).length =
        o.writeRaw S (storeInt w value) := fast_eq (by omega)
    rwa [hLength] at hFast
  · rfl

/-- A stream that has been created on an output holds what the output had. -/
theorem new_going (output : σ) (doEagerRefresh : Bool) :
    Going S (S.memory output).length (new S output doEagerRefresh) (S.memory output) := by
  have hLazy : Going S (S.memory output).length
      { output := output, buffer := 0, bufferSize := 0, totalBytes := 0, hadError := false }
      (S.memory output) := ⟨.full rfl, Nat.zero_add _, Nat.le_refl _, rfl⟩
  rw [new]
  split
  · cases hRefresh : CodedOutputStreamOver.refresh S
        { output := output, buffer := 0, bufferSize := 0, totalBytes := 0, hadError := false } with
    | mk refreshed o =>
      cases refreshed with
      | true =>
        have hGoing := hLazy.refresh rfl hRefresh
        exact ⟨hGoing.holds, hGoing.counted, hGoing.began, rfl⟩
      | false =>
        have hStuck := hLazy.refuse rfl hRefresh
        have hFull := hStuck.full
        refine ⟨?_, ?_, Nat.le_refl _, rfl⟩
        · dsimp only
          rw [hFull]
          exact .full hStuck.memory
        · dsimp only
          rw [hFull]
          exact hStuck.counted
  · exact hLazy

/-- The constructor notes no error where the output refuses its first block. -/
theorem new_full {output : σ} (hRefuses : (S.next output).1 = none) (doEagerRefresh : Bool) :
    (new S output doEagerRefresh).bufferSize = 0 ∧
      (S.next (new S output doEagerRefresh).output).1 = none := by
  rw [new]
  split
  · rw [CodedOutputStreamOver.refresh]
    split
    · rename_i hNext
      rw [hNext] at hRefuses
      cases hRefuses
    · rename_i output' hNext
      exact ⟨rfl, (S.next_refused output output' hNext).2.2⟩
  · exact ⟨rfl, hRefuses⟩

/-- What is in the output behind `Trim`, which never fails. -/
structure Trimmed (S : Sink UInt8 σ) (start : Nat) (o : CodedOutputStreamOver σ)
    (all : List UInt8) : Prop where
  memory : S.memory o.output = all
  counted : o.byteCount + start = all.length

theorem Given.trim (h : Given S start o all) :
    ∃ o', o.trim S = some o' ∧
      (o'.hadError = false ∧ Trimmed S start o' all ∨
        o'.hadError = true ∧ ∃ n, S.limit ≤ n ∧ n < all.length ∧ Trimmed S start o' (all.take n)) := by
  rcases h with h | ⟨n, hn, h⟩
  · rw [CodedOutputStreamOver.trim]
    split
    · rename_i hSize
      obtain ⟨output, hBackUp, hMemory⟩ := h.holds.backUp hSize
      rw [hBackUp]
      refine ⟨_, rfl, .inl ⟨h.noError, hMemory, ?_⟩⟩
      have hCounted := h.counted
      have hBegan := h.began
      simp only [byteCount]
      omega
    · rename_i hSize
      have hHolds := h.holds
      have hCounted := h.counted
      have hFull : o.bufferSize = 0 := by omega
      rw [hFull] at hHolds hCounted
      refine ⟨o, rfl, .inl ⟨h.noError, hHolds.memory, ?_⟩⟩
      rw [byteCount, hFull]
      exact hCounted
  · have hLength : (all.take n).length = n := by
      rw [List.length_take]
      omega
    have hLimit := h.limit
    rw [hLength] at hLimit
    have hFull := h.full
    rw [CodedOutputStreamOver.trim, if_neg (by omega)]
    refine ⟨o, rfl, .inr ⟨h.error, n, hLimit, hn, h.memory, ?_⟩⟩
    rw [byteCount, hFull]
    exact h.counted

/-! ## Runs of writes -/

end CodedOutputStreamOver

inductive Write
  | raw (data : List UInt8)
  | varint32 (value : UInt32)
  | varint64 (value : UInt64)
  | littleEndian (w : Nat) (value : BitVec (8 * w))

namespace Write

def bytes : Write → List UInt8
  | .raw data => data
  | .varint32 value => encode value.toNat
  | .varint64 value => encode value.toNat
  | .littleEndian w value => storeInt w value

variable {σ : Type} (S : Sink UInt8 σ)

def perform (o : CodedOutputStreamOver σ) : Write → CodedOutputStreamOver σ
  | .raw data => o.writeRaw S data
  | .varint32 value => o.writeVarint32 S value
  | .varint64 value => o.writeVarint64 S value
  | .littleEndian w value => o.writeLittleEndian S w value

theorem perform_eq (o : CodedOutputStreamOver σ) (write : Write) :
    perform S o write = o.writeRaw S write.bytes := by
  cases write with
  | raw data => rfl
  | varint32 value => exact CodedOutputStreamOver.writeVarint32_eq value
  | varint64 value => exact CodedOutputStreamOver.writeVarint64_eq value
  | littleEndian w value => exact CodedOutputStreamOver.writeLittleEndian_eq w value

end Write

namespace CodedOutputStreamOver

variable {σ : Type} {S : Sink UInt8 σ} {start : Nat} {o : CodedOutputStreamOver σ}
  {all : List UInt8}

theorem Given.writes (h : Given S start o all) (writes : List Write) :
    Given S start (writes.foldl (Write.perform S) o) (all ++ writes.flatMap Write.bytes) := by
  induction writes generalizing o all with
  | nil => rwa [List.flatMap_nil, List.append_nil]
  | cons write writes ih =>
    have hFirst := h.writeRaw write.bytes
    rw [← Write.perform_eq] at hFirst
    rw [List.flatMap_cons, ← List.append_assoc]
    exact ih hFirst

theorem Stuck.writes (h : Stuck S start o all) (writes : List Write) :
    Stuck S start (writes.foldl (Write.perform S) o) all := by
  induction writes generalizing o with
  | nil => exact h
  | cons write writes ih =>
    rw [List.foldl_cons, Write.perform_eq]
    exact ih (h.writeRaw write.bytes)

theorem Going.writes_refused (h : Going S start o all) (hFull : o.bufferSize = 0)
    (hRefuses : (S.next o.output).1 = none) {writes : List Write}
    (hSome : writes.flatMap Write.bytes ≠ []) :
    Stuck S start (writes.foldl (Write.perform S) o) all := by
  induction writes with
  | nil => exact absurd rfl hSome
  | cons write writes ih =>
    rw [List.foldl_cons, Write.perform_eq]
    by_cases hEmpty : write.bytes = []
    · rw [List.flatMap_cons, hEmpty, List.nil_append] at hSome
      rw [hEmpty, writeRaw_nil]
      exact ih hSome
    · exact (h.refused hFull hRefuses hEmpty).writes writes

end CodedOutputStreamOver

/-- Any writes to the end of a string append their bytes, wherever the string has had to grow. Only
a string that has come to a gigabyte can refuse some of them, and then there is an error. -/
theorem StringOutputStream.writes_append (growth : Growth) (stream : StringOutputStream)
    (doEagerRefresh : Bool) (writes : List Write) :
    ∃ o, (writes.foldl (Write.perform (sink growth))
        (.new (sink growth) stream doEagerRefresh)).trim (sink growth) = some o ∧
      (o.hadError = false ∧ o.output.target = stream.target ++ writes.flatMap Write.bytes ∧
          o.byteCount = (writes.flatMap Write.bytes).length ∨
        o.hadError = true ∧ ∃ n < (writes.flatMap Write.bytes).length,
          o.output.target = stream.target ++ (writes.flatMap Write.bytes).take n ∧
          o.byteCount = n ∧ 2 ^ 30 ≤ stream.target.length + n) ∧
      (stream.target.length = stream.capacity → 2 ^ 30 ≤ stream.target.length →
        writes.flatMap Write.bytes ≠ [] → o.hadError = true) := by
  have hNew := CodedOutputStreamOver.new_going (S := sink growth) stream doEagerRefresh
  have hGiven : CodedOutputStreamOver.Given (sink growth) stream.target.length
      (writes.foldl (Write.perform (sink growth)) (.new (sink growth) stream doEagerRefresh))
      (stream.target ++ writes.flatMap Write.bytes) :=
    CodedOutputStreamOver.Given.writes (.inl hNew) writes
  obtain ⟨o, hTrim, hEnd⟩ := hGiven.trim
  refine ⟨o, hTrim, ?_, fun hFull hLong hSome => ?_⟩
  · rcases hEnd with ⟨hError, hTrimmed⟩ | ⟨hError, n, hLimit, hn, hTrimmed⟩
    · have hCounted := hTrimmed.counted
      rw [List.length_append] at hCounted
      exact .inl ⟨hError, hTrimmed.memory, by omega⟩
    · have hCounted := hTrimmed.counted
      rw [List.length_take, Nat.min_eq_left (Nat.le_of_lt hn)] at hCounted
      rw [List.length_append] at hn
      obtain rfl : n = stream.target.length + o.byteCount := by omega
      have hMemory : o.output.target = _ := hTrimmed.memory
      rw [List.take_length_add_append] at hMemory
      exact .inr ⟨hError, o.byteCount, by omega, hMemory, rfl, hLimit⟩
  · have hRefuses : ((sink growth).next stream).1 = none := by
      have hRoom : ¬ stream.target.length < stream.capacity := by omega
      have hDouble : stream.target.length > intMax / 2 := by
        rw [intMax]
        omega
      simp only [sink, next, if_neg hRoom, dif_pos hDouble]
    obtain ⟨hEmpty, hNone⟩ :=
      CodedOutputStreamOver.new_full (S := sink growth) hRefuses doEagerRefresh
    have hStuck := hNew.writes_refused hEmpty hNone hSome
    rw [CodedOutputStreamOver.trim, if_neg (by rw [hStuck.full]; exact Nat.lt_irrefl 0)] at hTrim
    cases hTrim
    exact hStuck.error

/-! ## The array of one block -/

namespace CodedOutputStream

def writeLittleEndian (w : Nat) (output : CodedOutputStream) (value : BitVec (8 * w)) :
    CodedOutputStream :=
  if output.bufferSize ≥ w then output.advance (storeInt w value)
  else output.writeRaw (storeInt w value)

end CodedOutputStream

namespace Write

def performInArray (output : CodedOutputStream) : Write → CodedOutputStream
  | .raw data => output.writeRaw data
  | .varint32 value => output.writeVarint32 value
  | .varint64 value => output.writeVarint64 value
  | .littleEndian w value => output.writeLittleEndian w value

theorem performInArray_eq (output : CodedOutputStream) (write : Write) :
    performInArray output write = output.writeRaw write.bytes := by
  cases write with
  | raw data => rfl
  | varint32 value => exact output.writeVarint32_eq value
  | varint64 value => exact output.writeVarint64_eq value
  | littleEndian w value =>
    have hLength : (storeInt w value).length = w := by
      rw [storeInt, List.length_map, List.length_range]
    rw [performInArray, CodedOutputStream.writeLittleEndian]
    split
    · exact (output.writeRaw_fits (by omega)).symm
    · rfl

theorem foldl_performInArray (output : CodedOutputStream) (writes : List Write) :
    writes.foldl performInArray output = output.writeRaw (writes.flatMap bytes) := by
  induction writes generalizing output with
  | nil => rw [List.foldl_nil, List.flatMap_nil, CodedOutputStream.writeRaw_nil]
  | cons write writes ih =>
    rw [List.foldl_cons, ih, performInArray_eq, List.flatMap_cons,
      CodedOutputStream.writeRaw_append]

end Write

/-- An array cut into blocks of any size takes what the array in one block takes. -/
theorem ArrayOutputStream.writes_any_block (data : List UInt8) (blockSize : Int)
    (doEagerRefresh : Bool) (writes : List Write) :
    ∃ o, (writes.foldl (Write.perform (sink data.length))
        (.new (sink data.length) (.ofData data blockSize) doEagerRefresh)).trim
          (sink data.length) = some o ∧
      o.hadError = (writes.foldl Write.performInArray (.ofArray data.length)).hadError ∧
      o.output.data.take o.output.position =
        (writes.foldl Write.performInArray (.ofArray data.length)).written ∧
      o.byteCount = (writes.foldl Write.performInArray (.ofArray data.length)).written.length := by
  rw [Write.foldl_performInArray]
  generalize hAll : writes.flatMap Write.bytes = all
  have hNew : CodedOutputStreamOver.Given (sink data.length) 0
      (.new (sink data.length) (.ofData data blockSize) doEagerRefresh) [] :=
    
    .inl (CodedOutputStreamOver.new_going (ofData data blockSize) doEagerRefresh)
  have hGiven := hNew.writes writes
  rw [hAll, List.nil_append] at hGiven
  have hRoom (o : ArrayOutputStream data.length) :
      (o.data.take o.position).length ≤ data.length := by
    have hPosition := o.position_le
    rw [List.length_take]
    omega
  obtain ⟨o, hTrim, ⟨hError, hTrimmed⟩ | ⟨hError, n, hLimit, hn, hTrimmed⟩⟩ := hGiven.trim
  · have hFits : all.length ≤ data.length := by
      have hMemory := hRoom o.output
      rwa [show o.output.data.take o.output.position = all from hTrimmed.memory] at hMemory
    rw [CodedOutputStream.writeRaw_fits _ hFits]
    exact ⟨o, hTrim, hError, hTrimmed.memory, hTrimmed.counted⟩
  · have hTake : (all.take n).length = n := by
      rw [List.length_take]
      omega
    have hSize : n = data.length := by
      have hMemory := hRoom o.output
      rw [show o.output.data.take o.output.position = all.take n from hTrimmed.memory, hTake]
        at hMemory
      exact Nat.le_antisymm hMemory hLimit
    rw [CodedOutputStream.writeRaw_short _ (hSize ▸ hn)]
    have hWritten : ((CodedOutputStream.ofArray data.length).advance
        (all.take (CodedOutputStream.ofArray data.length).bufferSize)).refresh.written =
        all.take n := by
      rw [hSize]
      rfl
    refine ⟨o, hTrim, hError, hTrimmed.memory.trans hWritten.symm, ?_⟩
    rw [hWritten]
    exact hTrimmed.counted

end AndroidDemo.Protobuf
