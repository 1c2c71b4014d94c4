import AndroidDemo.Protobuf.WireFormatLite

/-! # The address book

The generated addressbook.pb.cc. A field with a has-bit is an option: the members
are at their defaults where the bit is clear. The `_cached_size_` of a message is
kept beside it.
-/

namespace AndroidDemo.Protobuf

/-- `Person_PhoneType` -/
inductive PhoneType
  | mobile
  | home
  | work
  deriving DecidableEq

def PhoneType.value : PhoneType → Int32
  | .mobile => 0
  | .home => 1
  | .work => 2

/-- `Person_PhoneType_IsValid` and the cast behind it. -/
def PhoneType.ofValue (value : Int32) : Option PhoneType :=
  if value = 0 then some .mobile else if value = 1 then some .home
  else if value = 2 then some .work else none

/-- `Person_PhoneNumber` -/
structure PhoneNumber where
  number : Option (List UInt8) := none
  type : Option PhoneType := none
  unknownFields : List UInt8 := []
  deriving DecidableEq

structure Person where
  name : Option (List UInt8) := none
  id : Option Int32 := none
  email : Option (List UInt8) := none
  phones : List PhoneNumber := []
  unknownFields : List UInt8 := []
  deriving DecidableEq

structure AddressBook where
  people : List Person := []
  unknownFields : List UInt8 := []
  deriving DecidableEq

/-! ## Parsing -/

/-- The loop of the generated `MergePartialFromCodedStream`. `field` is its switch, without a case
where it goes to `handle_unusual`. -/
def mergeLoop {M : Type} (field : UInt32 → Option (M → CodedInputStream → Outcome M))
    (addUnknown : M → List UInt8 → M) (skip : UInt32 → CodedInputStream → Outcome (List UInt8)) :
    Nat → M → CodedInputStream → Outcome M
  | 0, _, _ => .running
  | fuel + 1, m, s =>
    (readTagWithCutoffNoLastTag 127 s).andThen fun (tag, below) s =>
    match if below then field tag else none with
    | some read =>
      (read m s).andThen fun m s => mergeLoop field addUnknown skip fuel m s
    | none =>
      if tag = 0 then .returns m s
      else
        (skip tag s).andThen fun bytes s =>
        mergeLoop field addUnknown skip fuel (addUnknown m bytes) s

/-- `&& input.ConsumedEntireMessage()` -/
def Outcome.andConsumed {M : Type} (r : Outcome M) : Outcome M :=
  r.andThen fun m s => if s.consumedEntireMessage then .returns m s else .fails s

namespace PhoneNumber

def addUnknown (m : PhoneNumber) (bytes : List UInt8) : PhoneNumber :=
  { m with unknownFields := m.unknownFields ++ bytes }

def readNumber (m : PhoneNumber) (s : CodedInputStream) : Outcome PhoneNumber :=
  (readBytesToString s).andThen fun number s => .returns { m with number := some number } s

/-- A value that is no `PhoneType` goes to the unknown fields. -/
def takeType (m : PhoneNumber) (value : Int32) : PhoneNumber :=
  match PhoneType.ofValue value with
  | some type => { m with type := some type }
  | none => m.addUnknown (writeVarint32ToArray 16 ++ writeVarint32ToArray value.toUInt32)

def readType (m : PhoneNumber) (s : CodedInputStream) : Outcome PhoneNumber :=
  (readInt32 s).andThen fun value s => .returns (m.takeType value) s

def field (tag : UInt32) : Option (PhoneNumber → CodedInputStream → Outcome PhoneNumber) :=
  match (getTagFieldNumber tag).toNat with
  | 1 => if tag.toUInt8 = 10 then some readNumber else none
  | 2 => if tag.toUInt8 = 16 then some readType else none
  | _ => none

def mergePartialFromCodedStream (fuel : Nat) (m : PhoneNumber) (s : CodedInputStream) :
    Outcome PhoneNumber :=
  mergeLoop field addUnknown (skipField fuel) fuel m s

end PhoneNumber

namespace Person

def addUnknown (m : Person) (bytes : List UInt8) : Person :=
  { m with unknownFields := m.unknownFields ++ bytes }

def readName (m : Person) (s : CodedInputStream) : Outcome Person :=
  (readBytesToString s).andThen fun name s => .returns { m with name := some name } s

def readId (m : Person) (s : CodedInputStream) : Outcome Person :=
  (readInt32 s).andThen fun id s => .returns { m with id := some id } s

def readEmail (m : Person) (s : CodedInputStream) : Outcome Person :=
  (readBytesToString s).andThen fun email s => .returns { m with email := some email } s

def readPhone (fuel : Nat) (m : Person) (s : CodedInputStream) : Outcome Person :=
  (readMessage (PhoneNumber.mergePartialFromCodedStream fuel) {} s).andThen fun phone s =>
  .returns { m with phones := m.phones ++ [phone] } s

def field (fuel : Nat) (tag : UInt32) : Option (Person → CodedInputStream → Outcome Person) :=
  match (getTagFieldNumber tag).toNat with
  | 1 => if tag.toUInt8 = 10 then some readName else none
  | 2 => if tag.toUInt8 = 16 then some readId else none
  | 3 => if tag.toUInt8 = 26 then some readEmail else none
  | 4 => if tag.toUInt8 = 34 then some (readPhone fuel) else none
  | _ => none

def mergePartialFromCodedStream (fuel : Nat) (m : Person) (s : CodedInputStream) :
    Outcome Person :=
  mergeLoop (field fuel) addUnknown (skipField fuel) fuel m s

end Person

namespace AddressBook

def addUnknown (m : AddressBook) (bytes : List UInt8) : AddressBook :=
  { m with unknownFields := m.unknownFields ++ bytes }

def readPerson (fuel : Nat) (m : AddressBook) (s : CodedInputStream) : Outcome AddressBook :=
  (readMessage (Person.mergePartialFromCodedStream fuel) {} s).andThen fun person s =>
  .returns { m with people := m.people ++ [person] } s

def field (fuel : Nat) (tag : UInt32) :
    Option (AddressBook → CodedInputStream → Outcome AddressBook) :=
  match (getTagFieldNumber tag).toNat with
  | 1 => if tag.toUInt8 = 10 then some (readPerson fuel) else none
  | _ => none

def mergePartialFromCodedStream (fuel : Nat) (m : AddressBook) (s : CodedInputStream) :
    Outcome AddressBook :=
  mergeLoop (field fuel) addUnknown (skipField fuel) fuel m s

def isInitialized (_ : AddressBook) : Bool := true

def parsePartialFromCodedStream (fuel : Nat) (s : CodedInputStream) : Outcome AddressBook :=
  mergePartialFromCodedStream fuel {} s

/-- `ParseFromCodedStream` of message_lite.cc, into a cleared message. -/
def parseFromCodedStream (fuel : Nat) (s : CodedInputStream) : Outcome AddressBook :=
  (mergePartialFromCodedStream fuel {} s).andThen fun m s =>
  if m.isInitialized then .returns m s else .fails s

/-- Every turn of a loop takes a byte at least. -/
def parseFromArray (data : List UInt8) : Outcome AddressBook :=
  (parseFromCodedStream (data.length + 1) (.ofArray data)).andConsumed

def parsePartialFromArray (data : List UInt8) : Outcome AddressBook :=
  (parsePartialFromCodedStream (data.length + 1) (.ofArray data)).andConsumed

/-- What a caller writes who sets the limit of the stream himself: `SetTotalBytesLimit`, then
`ParseFromCodedStream` and `ConsumedEntireMessage`. -/
def parseUnder (limit : Int) (data : List UInt8) : Outcome AddressBook :=
  (parseFromCodedStream (data.length + 1)
    ((CodedInputStream.ofArray data).setTotalBytesLimit limit)).andConsumed

def parsePartialUnder (limit : Int) (data : List UInt8) : Outcome AddressBook :=
  (parsePartialFromCodedStream (data.length + 1)
    ((CodedInputStream.ofArray data).setTotalBytesLimit limit)).andConsumed

/-- No field is required. -/
theorem parseFromCodedStream_eq (fuel : Nat) (s : CodedInputStream) :
    parseFromCodedStream fuel s = parsePartialFromCodedStream fuel s := by
  rw [parseFromCodedStream, parsePartialFromCodedStream]
  cases mergePartialFromCodedStream fuel {} s <;> rfl

theorem parseFromArray_eq (data : List UInt8) :
    parseFromArray data = parsePartialFromArray data := by
  rw [parseFromArray, parsePartialFromArray, parseFromCodedStream_eq]

theorem parseUnder_eq (limit : Int) (data : List UInt8) :
    parseUnder limit data = parsePartialUnder limit data := by
  rw [parseUnder, parsePartialUnder, parseFromCodedStream_eq]

end AddressBook

/-! ## Sizes -/

/-- `ToCachedSize` -/
def toCachedSize (size : Nat) : Int32 := Int32.ofNat size

def PhoneNumber.byteSizeLong (m : PhoneNumber) : Nat :=
  m.unknownFields.length +
    (m.number.elim 0 fun number => 1 + stringSize number) +
    (m.type.elim 0 fun type => 1 + int32Size type.value)

def Person.byteSizeLong (m : Person) : Nat :=
  m.unknownFields.length + m.phones.length +
    (m.phones.map fun phone => lengthDelimitedSize phone.byteSizeLong).sum +
    (m.name.elim 0 fun name => 1 + stringSize name) +
    (m.email.elim 0 fun email => 1 + stringSize email) +
    (m.id.elim 0 fun id => 1 + int32Size id)

def AddressBook.byteSizeLong (m : AddressBook) : Nat :=
  m.unknownFields.length + m.people.length +
    (m.people.map fun person => lengthDelimitedSize person.byteSizeLong).sum

/-- The `_cached_size_` of a person and of its phones. -/
structure Person.CachedSizes where
  size : Int32
  phones : List Int32

structure AddressBook.CachedSizes where
  size : Int32
  people : List Person.CachedSizes

/-- What `ByteSizeLong` leaves behind. -/
def Person.cachedSizes (m : Person) : Person.CachedSizes where
  size := toCachedSize m.byteSizeLong
  phones := m.phones.map fun phone => toCachedSize phone.byteSizeLong

def AddressBook.cachedSizes (m : AddressBook) : AddressBook.CachedSizes where
  size := toCachedSize m.byteSizeLong
  people := m.people.map Person.cachedSizes

/-! ## Serialization -/

def PhoneNumber.serializeWithCachedSizes (m : PhoneNumber) (output : CodedOutputStream) :
    CodedOutputStream :=
  let output := m.number.elim output (output.writeString 1)
  let output := m.type.elim output fun type => output.writeInt32 2 type.value
  output.writeRaw m.unknownFields

def Person.serializeWithCachedSizes (m : Person) (cached : Person.CachedSizes)
    (output : CodedOutputStream) : CodedOutputStream :=
  let output := m.name.elim output (output.writeString 1)
  let output := m.id.elim output (output.writeInt32 2)
  let output := m.email.elim output (output.writeString 3)
  let output := (m.phones.zip cached.phones).foldl
    (fun output phone => output.writeMessage 4 phone.2 phone.1.serializeWithCachedSizes) output
  output.writeRaw m.unknownFields

def AddressBook.serializeWithCachedSizes (m : AddressBook) (cached : AddressBook.CachedSizes)
    (output : CodedOutputStream) : CodedOutputStream :=
  let output := (m.people.zip cached.people).foldl
    (fun output person =>
      output.writeMessage 1 person.2.size (person.1.serializeWithCachedSizes person.2)) output
  output.writeRaw m.unknownFields

/-- `aborts` is a failed `GOOGLE_CHECK`. -/
inductive Serialized
  | tooSmall
  | aborts
  | fills (bytes : List UInt8)
  deriving DecidableEq

/-- `SerializeToArray` of message_lite.cc. The message has no table, so that a stream over the
array writes it. -/
def AddressBook.serializeToArray (m : AddressBook) (size : Int) : Serialized :=
  let byteSize := Int32.ofNat m.byteSizeLong
  if size < byteSize.toInt then .tooSmall
  else
    let cached := m.cachedSizes
    let output := m.serializeWithCachedSizes cached (.ofArray cached.size.toInt.toNat)
    if output.hadError then .aborts
    else if cached.size ≠ byteSize then .aborts
    else .fills output.written

/-! ## Merging -/

def PhoneNumber.mergeFrom (m from' : PhoneNumber) : PhoneNumber where
  number := from'.number.or m.number
  type := from'.type.or m.type
  unknownFields := m.unknownFields ++ from'.unknownFields

def Person.mergeFrom (m from' : Person) : Person where
  name := from'.name.or m.name
  id := from'.id.or m.id
  email := from'.email.or m.email
  phones := m.phones ++ from'.phones
  unknownFields := m.unknownFields ++ from'.unknownFields

def AddressBook.mergeFrom (m from' : AddressBook) : AddressBook where
  people := m.people ++ from'.people
  unknownFields := m.unknownFields ++ from'.unknownFields

end AndroidDemo.Protobuf
