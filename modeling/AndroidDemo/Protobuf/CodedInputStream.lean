import AndroidDemo.Socket.Tool

/-! # Reading

`CodedInputStream` of io/coded_stream.h over one array: the stream that
`ParseFromArray` builds, with `input_` null. A pointer into the array is the
list of bytes behind it.

A limit may lie behind the bytes that are read already. Then `buffer_end_` is put
before `buffer_`, the size of the buffer is negative, and what is read next are
the bytes of the array behind the limit.
-/

namespace AndroidDemo.Protobuf

open AndroidDemo.Socket

def kint32max : Int := 2 ^ 31 - 1

def kMaxVarintBytes : Nat := 10

def kDefaultTotalBytesLimit : Int := 8

/-- `buffer` goes up to `buffer_end_`, `afterLimit` from there to the end of the
array. Where `buffer_` is `beyond` bytes behind `buffer_end_`, the buffer is empty
and `afterLimit` begins at `buffer_`. -/
structure CodedInputStream where
  buffer : List UInt8
  afterLimit : List UInt8
  beyond : Nat
  totalBytesRead : Int
  lastTag : UInt32
  legitimateMessageEnd : Bool
  currentLimit : Int
  totalBytesLimit : Int
  recursionBudget : Int
  recursionLimit : Int

/-- `overrun` is a read past the array, a copy of a negative size or a use of the null `input_`,
`running` a loop that is out of fuel. -/
inductive Outcome (α : Type)
  | returns (value : α) (input : CodedInputStream)
  | fails (input : CodedInputStream)
  | overrun
  | running

/-- A call that returns false makes its caller return false, as `DO_` does. -/
def Outcome.andThen {α β : Type} : Outcome α → (α → CodedInputStream → Outcome β) → Outcome β
  | .returns a s, f => f a s
  | .fails s, _ => .fails s
  | .overrun, _ => .overrun
  | .running, _ => .running

/-- The call ends without a value: it returns false or makes a read of this kind. -/
def Outcome.Refused {α : Type} (r : Outcome α) : Prop := (∃ s, r = .fails s) ∨ r = .overrun

namespace CodedInputStream

def ofArray (buffer : List UInt8) : CodedInputStream where
  buffer := buffer
  afterLimit := []
  beyond := 0
  totalBytesRead := buffer.length
  lastTag := 0
  legitimateMessageEnd := false
  currentLimit := buffer.length
  totalBytesLimit := kDefaultTotalBytesLimit
  recursionBudget := 100
  recursionLimit := 100

/-- The bytes of the array from `buffer_` on. -/
def ahead (s : CodedInputStream) : List UInt8 := s.buffer ++ s.afterLimit

def bufferSize (s : CodedInputStream) : Int := s.buffer.length - s.beyond

def bufferSizeAfterLimit (s : CodedInputStream) : Int := s.afterLimit.length + s.beyond

/-- `buffer_ == buffer_end_` -/
def atBufferEnd (s : CodedInputStream) : Bool := s.buffer.isEmpty && s.beyond == 0

def currentPosition (s : CodedInputStream) : Int :=
  s.totalBytesRead - (s.bufferSize + s.bufferSizeAfterLimit)

def advance (amount : Nat) (s : CodedInputStream) : CodedInputStream :=
  { s with
    buffer := s.buffer.drop amount
    afterLimit := s.afterLimit.drop (amount - s.buffer.length)
    beyond := s.beyond + (amount - s.buffer.length) }

end CodedInputStream

open CodedInputStream

/-- At a limit no more bytes are asked for; elsewhere `Refresh` calls `input_->Next`. -/
def refresh {α : Type} (s : CodedInputStream) : Outcome α :=
  if s.bufferSizeAfterLimit > 0 ∨ s.totalBytesRead = s.currentLimit then .fails s else .overrun

/-! ## Varints from an array -/

inductive FromArray (α : Type)
  | overrun
  | corrupt
  | done (value : α) (ptr : List UInt8)

/-- `b = *(ptr++)` -/
def nextByte {α : Type} (ptr : List UInt8) (f : UInt32 → List UInt8 → FromArray α) : FromArray α :=
  match ptr with
  | [] => .overrun
  | b :: ptr => f b.toUInt32 ptr

/-- `b = *(ptr++); part += b << shift; if (!(b & 0x80)) goto done; part -= 0x80 << shift;` -/
def addGroup {α : Type} (shift part : UInt32) (ptr : List UInt8) (done : UInt32 → α)
    (next : UInt32 → List UInt8 → FromArray α) : FromArray α :=
  nextByte ptr fun b ptr =>
  let part := part + b <<< shift
  if b &&& 0x80 = 0 then .done (done part) ptr else next (part - (0x80 : UInt32) <<< shift) ptr

/-- The bytes of a varint behind its fifth one. -/
def discardBytes : Nat → UInt32 → List UInt8 → FromArray UInt32
  | 0, _, _ => .corrupt
  | i + 1, result, ptr =>
    nextByte ptr fun b ptr =>
    if b &&& 0x80 = 0 then .done result ptr else discardBytes i result ptr

/-- At the shift by 28 the source leaves the subtraction out: there `0x80 << 28` is zero. -/
def readVarint32FromArray (firstByte : UInt32) (buffer : List UInt8) : FromArray UInt32 :=
  nextByte buffer fun _ ptr =>
  addGroup 7 (firstByte - 0x80) ptr id fun result ptr =>
  addGroup 14 result ptr id fun result ptr =>
  addGroup 21 result ptr id fun result ptr =>
  addGroup 28 result ptr id fun result ptr =>
  discardBytes 5 result ptr

def joinParts (part0 part1 part2 : UInt32) : UInt64 :=
  part0.toUInt64 ||| part1.toUInt64 <<< 28 ||| part2.toUInt64 <<< 56

/-- Each part starts at zero: `part0 = b` is `part0 += b << 0`. -/
def readVarint64FromArray (buffer : List UInt8) : FromArray UInt64 :=
  addGroup 0 0 buffer (joinParts · 0 0) fun part0 ptr =>
  addGroup 7 part0 ptr (joinParts · 0 0) fun part0 ptr =>
  addGroup 14 part0 ptr (joinParts · 0 0) fun part0 ptr =>
  addGroup 21 part0 ptr (joinParts · 0 0) fun part0 ptr =>
  addGroup 0 0 ptr (joinParts part0 · 0) fun part1 ptr =>
  addGroup 7 part1 ptr (joinParts part0 · 0) fun part1 ptr =>
  addGroup 14 part1 ptr (joinParts part0 · 0) fun part1 ptr =>
  addGroup 21 part1 ptr (joinParts part0 · 0) fun part1 ptr =>
  addGroup 0 0 ptr (joinParts part0 part1 ·) fun part2 ptr =>
  addGroup 7 part2 ptr (joinParts part0 part1 ·) fun _ _ =>
  .corrupt

/-! ## Varints -/

/-- The bytes can be read without checks: there are ten of them, or the last one ends a varint. -/
def unchecked (s : CodedInputStream) : Bool :=
  s.bufferSize ≥ kMaxVarintBytes ||
    match s.buffer.getLast? with
    | none => false
    | some b => b &&& 0x80 = 0

/-- The loop of `ReadVarint64Slow`, with what `count` lacks to ten. -/
def readVarint64Loop : Nat → Nat → UInt64 → CodedInputStream → Outcome UInt64
  | 0, _, _, s => .fails s
  | left + 1, count, result, s =>
    if s.atBufferEnd then refresh s
    else
      match s.ahead with
      | [] => .overrun
      | b :: _ =>
      let result := result ||| (b &&& 0x7F).toUInt64 <<< UInt64.ofNat (7 * count)
      if b &&& 0x80 = 0 then .returns result (s.advance 1)
      else readVarint64Loop left (count + 1) result (s.advance 1)

def readVarint64Slow (s : CodedInputStream) : Outcome UInt64 :=
  readVarint64Loop kMaxVarintBytes 0 0 s

def readVarint64Fallback (s : CodedInputStream) : Outcome UInt64 :=
  if unchecked s then
    match readVarint64FromArray s.buffer with
    | .overrun => .overrun
    | .corrupt => .fails s
    | .done temp ptr => .returns temp { s with buffer := ptr }
  else readVarint64Slow s

def readVarint64 (s : CodedInputStream) : Outcome UInt64 :=
  match s.buffer with
  | b :: _ => if b < 0x80 then .returns b.toUInt64 (s.advance 1) else readVarint64Fallback s
  | [] => readVarint64Fallback s

def readVarint32Slow (s : CodedInputStream) : Outcome UInt32 :=
  (readVarint64Fallback s).andThen fun value s => .returns value.toUInt32 s

def readVarint32Fallback (firstByteOrZero : UInt32) (s : CodedInputStream) : Outcome UInt32 :=
  if unchecked s then
    match readVarint32FromArray firstByteOrZero s.buffer with
    | .overrun => .overrun
    | .corrupt => .fails s
    | .done temp ptr => .returns temp { s with buffer := ptr }
  else readVarint32Slow s

def readVarint32 (s : CodedInputStream) : Outcome UInt32 :=
  match s.buffer with
  | b :: _ =>
    if b < 0x80 then .returns b.toUInt32 (s.advance 1) else readVarint32Fallback b.toUInt32 s
  | [] => readVarint32Fallback 0 s

def readVarintSizeAsIntSlow (s : CodedInputStream) : Outcome Int :=
  (readVarint64Fallback s).andThen fun value s =>
  if value.toNat > kint32max then .fails s else .returns value.toNat s

def readVarintSizeAsIntFallback (s : CodedInputStream) : Outcome Int :=
  if unchecked s then
    match readVarint64FromArray s.buffer with
    | .overrun => .overrun
    | .corrupt => .fails s
    | .done temp ptr =>
      if temp.toNat > kint32max then .fails s else .returns temp.toNat { s with buffer := ptr }
  else readVarintSizeAsIntSlow s

def readVarintSizeAsInt (s : CodedInputStream) : Outcome Int :=
  match s.buffer with
  | b :: _ => if b < 0x80 then .returns b.toNat (s.advance 1) else readVarintSizeAsIntFallback s
  | [] => readVarintSizeAsIntFallback s

/-! ## Bytes -/

/-- `InternalReadStringInline`, `ReadStringFallback` and `ReadRaw`: the bytes are copied out, and
where there are too few of them what there is is copied and the rest is asked for. -/
def readString (size : Int) (s : CodedInputStream) : Outcome (List UInt8) :=
  if size < 0 then .fails s
  else if s.bufferSize ≥ size then .returns (s.buffer.take size.toNat) (s.advance size.toNat)
  else if s.bufferSize < 0 then .overrun
  else refresh (s.advance s.buffer.length)

/-- `ReadLittleEndian32` and `ReadLittleEndian64` on a little-endian host. -/
def readLittleEndian (w : Nat) (s : CodedInputStream) : Outcome (BitVec (8 * w)) :=
  if s.bufferSize < 0 then
    -- The fallback compares the size with an unsigned `sizeof` and takes the fast path.
    if w ≤ s.ahead.length then .returns (loadInt w (s.ahead.take w)) (s.advance w) else .overrun
  else (readString w s).andThen fun bytes s => .returns (loadInt w bytes) s

/-! ## Tags -/

/-- A 64-bit read; a tag that cannot be read is zero. -/
def readTag64 (s : CodedInputStream) : Outcome UInt32 :=
  match readVarint64 s with
  | .returns result s => .returns result.toUInt32 s
  | .fails s => .returns 0 s
  | .overrun => .overrun
  | .running => .running

def readTagSlow (s : CodedInputStream) : Outcome UInt32 :=
  if s.atBufferEnd then
    match refresh (α := Unit) s with
    | .returns _ s => readTag64 s
    | .fails s =>
      if s.totalBytesRead - s.bufferSizeAfterLimit ≥ s.totalBytesLimit then
        .returns 0 { s with legitimateMessageEnd := s.currentLimit = s.totalBytesLimit }
      else .returns 0 { s with legitimateMessageEnd := true }
    | .overrun => .overrun
    | .running => .running
  else readTag64 s

def readTagFallback (firstByteOrZero : UInt32) (s : CodedInputStream) : Outcome UInt32 :=
  if unchecked s then
    if firstByteOrZero = 0 then .returns 0 (s.advance 1)
    else
      match readVarint32FromArray firstByteOrZero s.buffer with
      | .overrun => .overrun
      | .corrupt => .returns 0 s
      | .done tag ptr => .returns tag { s with buffer := ptr }
  else if s.atBufferEnd ∧
      (s.bufferSizeAfterLimit > 0 ∨ s.totalBytesRead = s.currentLimit) ∧
      s.totalBytesRead - s.bufferSizeAfterLimit < s.totalBytesLimit then
    .returns 0 { s with legitimateMessageEnd := true }
  else readTagSlow s

def readTagNoLastTag (s : CodedInputStream) : Outcome UInt32 :=
  match s.buffer with
  | b :: _ =>
    if b < 0x80 then .returns b.toUInt32 (s.advance 1) else readTagFallback b.toUInt32 s
  | [] => readTagFallback 0 s

def readTag (s : CodedInputStream) : Outcome UInt32 :=
  (readTagNoLastTag s).andThen fun tag s => .returns tag { s with lastTag := tag }

def readTagWithCutoffNoLastTag (cutoff : UInt32) (s : CodedInputStream) :
    Outcome (UInt32 × Bool) :=
  let slow (firstByteOrZero : UInt32) : Outcome (UInt32 × Bool) :=
    (readTagFallback firstByteOrZero s).andThen fun tag s => .returns (tag, tag - 1 < cutoff) s
  match s.buffer with
  | [] => slow 0
  | b₀ :: ptr =>
    if 0 < b₀ ∧ b₀ < 0x80 then
      .returns (b₀.toUInt32, cutoff ≥ 0x7F || b₀.toUInt32 ≤ cutoff) (s.advance 1)
    else
      match ptr with
      | [] => slow b₀.toUInt32
      | b₁ :: _ =>
        if cutoff ≥ 0x80 ∧ b₀ &&& ~~~b₁ ≥ 0x80 then
          let tag := 128 * b₁.toUInt32 + (b₀.toUInt32 - 0x80)
          .returns (tag, cutoff ≥ 0x3FFF || tag ≤ cutoff) (s.advance 2)
        else slow b₀.toUInt32

namespace CodedInputStream

def lastTagWas (s : CodedInputStream) (expected : UInt32) : Bool := s.lastTag = expected

def consumedEntireMessage (s : CodedInputStream) : Bool := s.legitimateMessageEnd

/-! ## Limits and depth -/

/-- `buffer_end_` goes to the end of the array and back by the bytes behind the closest limit. -/
def recomputeBufferLimits (s : CodedInputStream) : CodedInputStream :=
  let closestLimit := min s.currentLimit s.totalBytesLimit
  let after :=
    if closestLimit < s.totalBytesRead then (s.totalBytesRead - closestLimit).toNat else 0
  { s with
    buffer := s.ahead.take (s.ahead.length - after)
    afterLimit := s.ahead.drop (s.ahead.length - after)
    beyond := after - s.ahead.length }

/-- The limit is not put before the current position. -/
def setTotalBytesLimit (s : CodedInputStream) (totalBytesLimit : Int) : CodedInputStream :=
  { s with totalBytesLimit := max s.currentPosition totalBytesLimit }.recomputeBufferLimits

/-- A limit beyond the current one is dropped. The old limit is returned. -/
def pushLimit (s : CodedInputStream) (byteLimit : Int) : Int × CodedInputStream :=
  let currentPosition := s.currentPosition
  if byteLimit ≥ 0 ∧ byteLimit ≤ kint32max - currentPosition ∧
      byteLimit < s.currentLimit - currentPosition then
    (s.currentLimit, { s with currentLimit := currentPosition + byteLimit }.recomputeBufferLimits)
  else (s.currentLimit, s)

def popLimit (s : CodedInputStream) (limit : Int) : CodedInputStream :=
  { { s with currentLimit := limit }.recomputeBufferLimits with legitimateMessageEnd := false }

def incrementRecursionDepth (s : CodedInputStream) : Bool × CodedInputStream :=
  (s.recursionBudget - 1 ≥ 0, { s with recursionBudget := s.recursionBudget - 1 })

def decrementRecursionDepth (s : CodedInputStream) : CodedInputStream :=
  if s.recursionBudget < s.recursionLimit then
    { s with recursionBudget := s.recursionBudget + 1 }
  else s

def incrementRecursionDepthAndPushLimit (s : CodedInputStream) (byteLimit : Int) :
    Int × Int × CodedInputStream :=
  let (oldLimit, s) := s.pushLimit byteLimit
  let s := { s with recursionBudget := s.recursionBudget - 1 }
  (oldLimit, s.recursionBudget, s)

def decrementRecursionDepthAndPopLimit (s : CodedInputStream) (limit : Int) :
    Bool × CodedInputStream :=
  let result := s.consumedEntireMessage
  let s := s.popLimit limit
  (result, { s with recursionBudget := s.recursionBudget + 1 })

end CodedInputStream

end AndroidDemo.Protobuf
