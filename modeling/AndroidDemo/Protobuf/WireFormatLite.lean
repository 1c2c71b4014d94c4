import AndroidDemo.Protobuf.CodedInputStream
import AndroidDemo.Protobuf.CodedOutputStream

/-! # The wire format

wire_format_lite.cc: tags, the fields that the address book has, and `SkipField`,
which copies a field it does not know to the unknown fields. What it writes to
`output` is its result.
-/

namespace AndroidDemo.Protobuf

open AndroidDemo.Socket

/-- `other` are the two values that are no `WireType`. -/
inductive WireType
  | varint
  | fixed64
  | lengthDelimited
  | startGroup
  | endGroup
  | fixed32
  | other
  deriving DecidableEq

def WireType.value : WireType → UInt32
  | .varint => 0
  | .fixed64 => 1
  | .lengthDelimited => 2
  | .startGroup => 3
  | .endGroup => 4
  | .fixed32 => 5
  | .other => 6

def makeTag (fieldNumber : UInt32) (type : WireType) : UInt32 := fieldNumber <<< 3 ||| type.value

def getTagWireType (tag : UInt32) : WireType :=
  match (tag &&& 7).toNat with
  | 0 => .varint
  | 1 => .fixed64
  | 2 => .lengthDelimited
  | 3 => .startGroup
  | 4 => .endGroup
  | 5 => .fixed32
  | _ => .other

def getTagFieldNumber (tag : UInt32) : UInt32 := tag >>> 3

/-! ## Fields to skip -/

def skipFieldWith (skipMessage : CodedInputStream → Outcome (List UInt8)) (tag : UInt32)
    (s : CodedInputStream) : Outcome (List UInt8) :=
  if getTagFieldNumber tag = 0 then .fails s
  else
    match getTagWireType tag with
    | .varint =>
      (readVarint64 s).andThen fun value s =>
      .returns (writeVarint32ToArray tag ++ writeVarint64ToArray value) s
    | .fixed64 =>
      (readLittleEndian 8 s).andThen fun value s =>
      .returns (writeVarint32ToArray tag ++ storeInt 8 value) s
    | .lengthDelimited =>
      (readVarint32 s).andThen fun length s =>
      (readString length.toInt32.toInt s).andThen fun temp s =>
      .returns (writeVarint32ToArray tag ++ writeVarint32ToArray length ++ temp) s
    | .startGroup =>
      let (within, s) := s.incrementRecursionDepth
      if within then
        (skipMessage s).andThen fun bytes s =>
        let s := s.decrementRecursionDepth
        if s.lastTagWas (makeTag (getTagFieldNumber tag) .endGroup) then
          .returns (writeVarint32ToArray tag ++ bytes) s
        else .fails s
      else .fails s
    | .endGroup => .fails s
    | .fixed32 =>
      (readLittleEndian 4 s).andThen fun value s =>
      .returns (writeVarint32ToArray tag ++ storeInt 4 value) s
    | .other => .fails s

/-- `SkipMessage`, with what it has written so far. -/
def skipMessage : Nat → List UInt8 → CodedInputStream → Outcome (List UInt8)
  | 0, _, _ => .running
  | fuel + 1, output, s =>
    (readTag s).andThen fun tag s =>
    if tag = 0 then .returns output s
    else if getTagWireType tag = .endGroup then .returns (output ++ writeVarint32ToArray tag) s
    else
      (skipFieldWith (skipMessage fuel []) tag s).andThen fun bytes s =>
      skipMessage fuel (output ++ bytes) s

def skipField (fuel : Nat) (tag : UInt32) (s : CodedInputStream) : Outcome (List UInt8) :=
  skipFieldWith (skipMessage fuel []) tag s

/-! ## Fields to read -/

/-- `ReadString` -/
def readBytesToString (s : CodedInputStream) : Outcome (List UInt8) :=
  (readVarint32 s).andThen fun length s => readString length.toInt32.toInt s

/-- `ReadPrimitive<int32, TYPE_INT32>` and `ReadPrimitive<int, TYPE_ENUM>` -/
def readInt32 (s : CodedInputStream) : Outcome Int32 :=
  (readVarint32 s).andThen fun temp s => .returns temp.toInt32 s

def readMessage {M : Type} (mergePartialFromCodedStream : M → CodedInputStream → Outcome M)
    (value : M) (s : CodedInputStream) : Outcome M :=
  (readVarintSizeAsInt s).andThen fun length s =>
  let (oldLimit, budget, s) := s.incrementRecursionDepthAndPushLimit length
  if budget < 0 then .fails s
  else
    (mergePartialFromCodedStream value s).andThen fun value s =>
    let (consumed, s) := s.decrementRecursionDepthAndPopLimit oldLimit
    if consumed then .returns value s else .fails s

/-! ## Fields to write -/

namespace CodedOutputStream

def writeTag (output : CodedOutputStream) (fieldNumber : UInt32) (type : WireType) :
    CodedOutputStream :=
  output.writeVarint32 (makeTag fieldNumber type)

/-- `WriteInt32` and `WriteEnum` -/
def writeInt32 (output : CodedOutputStream) (fieldNumber : UInt32) (value : Int32) :
    CodedOutputStream :=
  (output.writeTag fieldNumber .varint).writeVarint32SignExtended value

/-- `WriteStringMaybeAliased`, without aliasing -/
def writeString (output : CodedOutputStream) (fieldNumber : UInt32) (value : List UInt8) :
    CodedOutputStream :=
  ((output.writeTag fieldNumber .lengthDelimited).writeVarint32
    (UInt32.ofNat value.length)).writeRaw value

def writeMessage (output : CodedOutputStream) (fieldNumber : UInt32) (cachedSize : Int32)
    (serializeWithCachedSizes : CodedOutputStream → CodedOutputStream) : CodedOutputStream :=
  serializeWithCachedSizes
    ((output.writeTag fieldNumber .lengthDelimited).writeVarint32 cachedSize.toUInt32)

end CodedOutputStream

def lengthDelimitedSize (length : Nat) : Nat := length + varintSize32 (UInt32.ofNat length)

def stringSize (value : List UInt8) : Nat := lengthDelimitedSize value.length

/-- `Int32Size` and `EnumSize` -/
def int32Size (value : Int32) : Nat := varintSize32SignExtended value

end AndroidDemo.Protobuf
