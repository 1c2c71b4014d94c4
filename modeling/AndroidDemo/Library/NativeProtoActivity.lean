import AndroidDemo.Java.JString
import AndroidDemo.Protobuf.RoundTrip

/-! # NativeProtoActivity.java

The book that native-lib.cpp writes and the generated AddressBookProtos.java reads.
The protobuf-lite library of the Java side is a parameter: a reader for each of the
values, on the bytes up to the limit, without a result where it throws.
-/

namespace AndroidDemo.Library

open AndroidDemo.Base128
open AndroidDemo.Java
open AndroidDemo.Protobuf
open AndroidDemo.Readers

/-- What `geSerializeBuffer` copies to the Java array. -/
def geSerializeBuffer (addressBook : AddressBook) : Serialized :=
  addressBook.serializeToArray addressBook.cachedSizes.size.toInt

/-- A book that was built and not parsed. -/
structure Plain (m : AddressBook) : Prop where
  unknownFields : m.unknownFields = []
  people : ∀ person ∈ m.people, person.unknownFields = [] ∧
    ∀ phone ∈ person.phones, phone.unknownFields = []

/-- The part of `com.google.protobuf` that the generated code calls. A message comes with the tag
at which its loop was done. -/
structure Lite where
  UnknownFields : Type
  noFields : UnknownFields
  readTag : List UInt8 → Option (UInt32 × List UInt8)
  readString : List UInt8 → Option (JString × List UInt8)
  readInt32 : List UInt8 → Option (Int32 × List UInt8)
  readEnum : List UInt8 → Option (Int32 × List UInt8)
  readMessage : {M : Type} → (List UInt8 → Option ((M × UInt32) × List UInt8)) → List UInt8 →
    Option (M × List UInt8)
  parseUnknownField : UInt32 → UnknownFields → List UInt8 →
    Option ((Bool × UnknownFields) × List UInt8)
  mergeVarintField : UInt32 → Int32 → UnknownFields → UnknownFields
  parseFrom : {M : Type} → (List UInt8 → Option ((M × UInt32) × List UInt8)) → List UInt8 → Option M

/-- What is documented of the library, for bytes in the wire format. -/
structure Lite.Documented (lite : Lite) (utf8 : List UInt8 → JString) : Prop where
  readTag_end : lite.readTag [] = some (0, [])
  readTag : ∀ (tag : UInt8) more, 8 ≤ tag.toNat → tag.toNat < 128 →
    lite.readTag (tag :: more) = some (tag.toUInt32, more)
  readString : ∀ raw more, raw.length < 2 ^ 31 →
    lite.readString (encode raw.length ++ raw ++ more) = some (utf8 raw, more)
  readInt32 : ∀ value more,
    lite.readInt32 (encode (signExtended value).toNat ++ more) = some (value, more)
  readEnum : ∀ value more,
    lite.readEnum (encode (signExtended value).toNat ++ more) = some (value, more)
  readMessage : ∀ {M : Type} (parse : List UInt8 → Option ((M × UInt32) × List UInt8)) m body more,
    body.length < 2 ^ 31 → parse body = some ((m, 0), []) →
      lite.readMessage parse (encode body.length ++ body ++ more) = some (m, more)
  parseFrom : ∀ {M : Type} (parse : List UInt8 → Option ((M × UInt32) × List UInt8)) m data,
    parse data = some ((m, 0), []) → lite.parseFrom parse data = some m

namespace AddressBookProtos

/-- A field with a bit in `bitField0_` is an option, `type_` is the raw value. -/
structure PhoneNumber (U : Type) where
  number : Option JString
  type : Option Int32
  unknownFields : U

structure Person (U : Type) where
  name : Option JString
  id : Option Int32
  email : Option JString
  phones : List (PhoneNumber U)
  unknownFields : U

structure AddressBook (U : Type) where
  people : List (Person U)
  unknownFields : U

/-- `forNumber`, which has a value for three numbers. -/
def isPhoneType (rawValue : Int32) : Bool := (PhoneType.ofValue rawValue).isSome

variable (lite : Lite)

/-- A turn of the loop of `MERGE_FROM_STREAM`. `field` is its switch without the cases `0` and
`default`. -/
def turn {M : Type} (field : UInt32 → Option (M → List UInt8 → Option (M × List UInt8)))
    (parseUnknownField : UInt32 → M → List UInt8 → Option ((Bool × M) × List UInt8)) (m : M)
    (bytes : List UInt8) : Option ((M ⊕ (M × UInt32)) × List UInt8) :=
  (lite.readTag bytes).bind fun (tag, rest) =>
  if tag = 0 then some (.inr (m, tag), rest)
  else
    match field tag with
    | some read => (read m rest).map fun (m, rest) => (.inl m, rest)
    | none =>
      (parseUnknownField tag m rest).map fun ((more, m), rest) =>
      (if more then .inl m else .inr (m, tag), rest)

namespace PhoneNumber

variable {lite}

def new (lite : Lite) : PhoneNumber lite.UnknownFields where
  number := none
  type := none
  unknownFields := lite.noFields

def field (lite : Lite) (tag : UInt32) : Option (PhoneNumber lite.UnknownFields → List UInt8 →
    Option (PhoneNumber lite.UnknownFields × List UInt8)) :=
  if tag = 10 then some fun m bytes =>
    (lite.readString bytes).map fun (s, rest) => ({ m with number := some s }, rest)
  else if tag = 16 then some fun m bytes =>
    (lite.readEnum bytes).map fun (rawValue, rest) =>
    if isPhoneType rawValue then ({ m with type := some rawValue }, rest)
    else ({ m with unknownFields := lite.mergeVarintField 2 rawValue m.unknownFields }, rest)
  else none

def parseUnknownField (lite : Lite) (tag : UInt32) (m : PhoneNumber lite.UnknownFields)
    (bytes : List UInt8) : Option ((Bool × PhoneNumber lite.UnknownFields) × List UInt8) :=
  (lite.parseUnknownField tag m.unknownFields bytes).map fun ((more, unknown), rest) =>
  ((more, { m with unknownFields := unknown }), rest)

def mergeFromStream (lite : Lite) (m : PhoneNumber lite.UnknownFields) (bytes : List UInt8) :
    Option ((PhoneNumber lite.UnknownFields × UInt32) × List UInt8) :=
  upTo (turn lite (field lite) (parseUnknownField lite)) m bytes

end PhoneNumber

namespace Person

def new (lite : Lite) : Person lite.UnknownFields where
  name := none
  id := none
  email := none
  phones := []
  unknownFields := lite.noFields

def field (lite : Lite) (tag : UInt32) : Option (Person lite.UnknownFields → List UInt8 →
    Option (Person lite.UnknownFields × List UInt8)) :=
  if tag = 10 then some fun m bytes =>
    (lite.readString bytes).map fun (s, rest) => ({ m with name := some s }, rest)
  else if tag = 16 then some fun m bytes =>
    (lite.readInt32 bytes).map fun (id, rest) => ({ m with id := some id }, rest)
  else if tag = 26 then some fun m bytes =>
    (lite.readString bytes).map fun (s, rest) => ({ m with email := some s }, rest)
  else if tag = 34 then some fun m bytes =>
    (lite.readMessage (PhoneNumber.mergeFromStream lite (.new lite)) bytes).map
      fun (phone, rest) => ({ m with phones := m.phones ++ [phone] }, rest)
  else none

def parseUnknownField (lite : Lite) (tag : UInt32) (m : Person lite.UnknownFields)
    (bytes : List UInt8) : Option ((Bool × Person lite.UnknownFields) × List UInt8) :=
  (lite.parseUnknownField tag m.unknownFields bytes).map fun ((more, unknown), rest) =>
  ((more, { m with unknownFields := unknown }), rest)

def mergeFromStream (lite : Lite) (m : Person lite.UnknownFields) (bytes : List UInt8) :
    Option ((Person lite.UnknownFields × UInt32) × List UInt8) :=
  upTo (turn lite (field lite) (parseUnknownField lite)) m bytes

end Person

namespace AddressBook

def new (lite : Lite) : AddressBook lite.UnknownFields where
  people := []
  unknownFields := lite.noFields

def field (lite : Lite) (tag : UInt32) : Option (AddressBook lite.UnknownFields → List UInt8 →
    Option (AddressBook lite.UnknownFields × List UInt8)) :=
  if tag = 10 then some fun m bytes =>
    (lite.readMessage (Person.mergeFromStream lite (.new lite)) bytes).map
      fun (person, rest) => ({ m with people := m.people ++ [person] }, rest)
  else none

def parseUnknownField (lite : Lite) (tag : UInt32) (m : AddressBook lite.UnknownFields)
    (bytes : List UInt8) : Option ((Bool × AddressBook lite.UnknownFields) × List UInt8) :=
  (lite.parseUnknownField tag m.unknownFields bytes).map fun ((more, unknown), rest) =>
  ((more, { m with unknownFields := unknown }), rest)

def mergeFromStream (lite : Lite) (m : AddressBook lite.UnknownFields) (bytes : List UInt8) :
    Option ((AddressBook lite.UnknownFields × UInt32) × List UInt8) :=
  upTo (turn lite (field lite) (parseUnknownField lite)) m bytes

def parseFrom (lite : Lite) (data : List UInt8) : Option (AddressBook lite.UnknownFields) :=
  lite.parseFrom (mergeFromStream lite (.new lite)) data

end AddressBook

/-! ## What the native side writes -/

section Written

variable {lite : Lite} {utf8 : List UInt8 → JString}

theorem field_acts {M : Type} {field : UInt32 → Option (M → List UInt8 → Option (M × List UInt8))}
    {parseUnknownField : UInt32 → M → List UInt8 → Option ((Bool × M) × List UInt8)}
    (hDoc : lite.Documented utf8) {tag : UInt8} {body : List UInt8} {apply : M → M}
    {read : M → List UInt8 → Option (M × List UInt8)} (hLow : 8 ≤ tag.toNat)
    (hHigh : tag.toNat < 128) (hField : field tag.toUInt32 = some read)
    (hRead : ∀ m more, read m (body ++ more) = some (apply m, more)) :
    Acts (upTo (turn lite field parseUnknownField)) (tag :: body) apply := by
  refine upTo_acts (List.cons_ne_nil _ _) fun m more => ?_
  have hNonzero : tag.toUInt32 ≠ 0 := by
    intro hZero
    have hNat := congrArg UInt32.toNat hZero
    rw [UInt8.toNat_toUInt32, UInt32.toNat_zero] at hNat
    omega
  rw [List.cons_append, turn, hDoc.readTag tag _ hLow hHigh, Option.bind_some]
  dsimp only
  rw [if_neg hNonzero, hField]
  dsimp only
  rw [hRead, Option.map_some]

theorem upTo_end {M : Type} {field : UInt32 → Option (M → List UInt8 → Option (M × List UInt8))}
    {parseUnknownField : UInt32 → M → List UInt8 → Option ((Bool × M) × List UInt8)}
    (hDoc : lite.Documented utf8) (m : M) :
    upTo (turn lite field parseUnknownField) m [] = some ((m, 0), []) := by
  apply upTo_stop
  rw [turn, hDoc.readTag_end, Option.bind_some]
  exact if_pos rfl

namespace PhoneNumber

def ofNative (lite : Lite) (utf8 : List UInt8 → JString) (m : Protobuf.PhoneNumber) :
    PhoneNumber lite.UnknownFields where
  number := m.number.map utf8
  type := m.type.map PhoneType.value
  unknownFields := lite.noFields

theorem mergeFromStream_phoneBytes (hDoc : lite.Documented utf8) {m : Protobuf.PhoneNumber}
    (hPlain : m.unknownFields = []) (hSize : m.byteSizeLong < 2 ^ 31) :
    mergeFromStream lite (.new lite) (Wire.phoneBytes m) =
      some ((ofNative lite utf8 m, 0), []) := by
  have hNumber : Acts (mergeFromStream lite) (m.number.elim [] (Wire.delimited 10))
      fun into => { into with number := (m.number.map utf8).or into.number } := by
    cases hField : m.number with
    | none => exact Acts.nil
    | some number =>
      have hLe := PhoneNumber.length_le_byteSizeLong hField
      refine field_acts hDoc (by decide) (by decide) rfl fun into more => ?_
      rw [hDoc.readString _ _ (by omega)]
      rfl
  have hType : Acts (mergeFromStream lite) (m.type.elim [] fun type => Wire.int32 16 type.value)
      fun into => { into with type := (m.type.map PhoneType.value).or into.type } := by
    cases m.type with
    | none => exact Acts.nil
    | some type =>
      refine field_acts hDoc (by decide) (by decide) rfl fun into more => ?_
      rw [hDoc.readEnum, Option.map_some]
      cases type <;> rfl
  have hAll := (hNumber.append hType).apply_eq (.new lite)
  rw [Wire.phoneBytes, hPlain, List.append_nil, hAll]
  refine (upTo_end hDoc _).trans ?_
  rw [ofNative]
  simp only [new, Function.comp_apply, Option.or_none]

end PhoneNumber

namespace Person

def ofNative (lite : Lite) (utf8 : List UInt8 → JString) (m : Protobuf.Person) :
    Person lite.UnknownFields where
  name := m.name.map utf8
  id := m.id
  email := m.email.map utf8
  phones := m.phones.map (PhoneNumber.ofNative lite utf8)
  unknownFields := lite.noFields

def addPhones {U P : Type} (toJava : P → PhoneNumber U) (phones : List P) (m : Person U) :
    Person U :=
  { m with phones := m.phones ++ phones.map toJava }

theorem mergeFromStream_personBytes (hDoc : lite.Documented utf8) {m : Protobuf.Person}
    (hPlain : m.unknownFields = []) (hPhonesPlain : ∀ phone ∈ m.phones, phone.unknownFields = [])
    (hSize : m.byteSizeLong < 2 ^ 31) :
    mergeFromStream lite (.new lite) (Wire.personBytes m) =
      some ((ofNative lite utf8 m, 0), []) := by
  have hName : Acts (mergeFromStream lite) (m.name.elim [] (Wire.delimited 10))
      fun into => { into with name := (m.name.map utf8).or into.name } := by
    cases hField : m.name with
    | none => exact Acts.nil
    | some name =>
      have hLe := Person.name_length_le hField
      refine field_acts hDoc (by decide) (by decide) rfl fun into more => ?_
      rw [hDoc.readString _ _ (by omega)]
      rfl
  have hId : Acts (mergeFromStream lite) (m.id.elim [] (Wire.int32 16))
      fun into => { into with id := m.id.or into.id } := by
    cases m.id with
    | none => exact Acts.nil
    | some id =>
      refine field_acts hDoc (by decide) (by decide) rfl fun into more => ?_
      rw [hDoc.readInt32]
      rfl
  have hEmail : Acts (mergeFromStream lite) (m.email.elim [] (Wire.delimited 26))
      fun into => { into with email := (m.email.map utf8).or into.email } := by
    cases hField : m.email with
    | none => exact Acts.nil
    | some email =>
      have hLe := Person.email_length_le hField
      refine field_acts hDoc (by decide) (by decide) rfl fun into more => ?_
      rw [hDoc.readString _ _ (by omega)]
      rfl
  have hPhones : Acts (mergeFromStream lite)
      (m.phones.flatMap fun phone => Wire.delimited 34 (Wire.phoneBytes phone))
      (addPhones (PhoneNumber.ofNative lite utf8) m.phones) := by
    refine Acts.flatMap ?_ (fun phone phones => ?_) fun phone hPhone => ?_
    · funext into
      rw [addPhones, List.map_nil, List.append_nil]
      rfl
    · funext into
      simp only [Function.comp_apply, addPhones, List.map_cons, List.map_nil, List.append_assoc,
        List.singleton_append]
    · have hPhoneSize := Nat.lt_of_le_of_lt (Person.phone_le_byteSizeLong hPhone) hSize
      have hParse := PhoneNumber.mergeFromStream_phoneBytes hDoc (hPhonesPlain phone hPhone)
        hPhoneSize
      have hLength := PhoneNumber.byteSizeLong_eq (m := phone) (by omega)
      refine field_acts hDoc (by decide) (by decide) rfl fun into more => ?_
      rw [hDoc.readMessage _ _ _ _ (by omega) hParse]
      rfl
  have hAll := (((hName.append hId).append hEmail).append hPhones).apply_eq (.new lite)
  rw [Wire.personBytes, hPlain, List.append_nil, hAll]
  refine (upTo_end hDoc _).trans ?_
  rw [ofNative]
  simp only [new, addPhones, Function.comp_apply, Option.or_none, List.nil_append]

end Person

namespace AddressBook

def ofNative (lite : Lite) (utf8 : List UInt8 → JString) (m : Protobuf.AddressBook) :
    AddressBook lite.UnknownFields where
  people := m.people.map (Person.ofNative lite utf8)
  unknownFields := lite.noFields

def addPeople {U P : Type} (toJava : P → Person U) (people : List P) (m : AddressBook U) :
    AddressBook U :=
  { m with people := m.people ++ people.map toJava }

theorem mergeFromStream_bookBytes (hDoc : lite.Documented utf8) {m : Protobuf.AddressBook}
    (hPlain : Plain m) (hSize : m.byteSizeLong < 2 ^ 31) :
    mergeFromStream lite (.new lite) (Wire.bookBytes m) =
      some ((ofNative lite utf8 m, 0), []) := by
  have hPeople : Acts (mergeFromStream lite)
      (m.people.flatMap fun person => Wire.delimited 10 (Wire.personBytes person))
      (addPeople (Person.ofNative lite utf8) m.people) := by
    refine Acts.flatMap ?_ (fun person people => ?_) fun person hPerson => ?_
    · funext into
      rw [addPeople, List.map_nil, List.append_nil]
      rfl
    · funext into
      simp only [Function.comp_apply, addPeople, List.map_cons, List.map_nil, List.append_assoc,
        List.singleton_append]
    · obtain ⟨hPersonPlain, hPhonesPlain⟩ := hPlain.people person hPerson
      have hPersonSize := Nat.lt_of_le_of_lt (AddressBook.person_le_byteSizeLong hPerson) hSize
      have hParse := Person.mergeFromStream_personBytes hDoc hPersonPlain hPhonesPlain hPersonSize
      have hLength := Person.byteSizeLong_eq (m := person) (by omega)
      refine field_acts hDoc (by decide) (by decide) rfl fun into more => ?_
      rw [hDoc.readMessage _ _ _ _ (by omega) hParse]
      rfl
  have hAll := hPeople.apply_eq (.new lite)
  rw [Wire.bookBytes, hPlain.unknownFields, List.append_nil, hAll]
  exact (upTo_end hDoc _).trans rfl

/-- The array that native code makes of a book it has built is parsed as this book. -/
theorem parseFrom_geSerializeBuffer (hDoc : lite.Documented utf8) {m : Protobuf.AddressBook}
    (hPlain : Plain m) (hSize : m.byteSizeLong < 2 ^ 31) :
    ∃ data, geSerializeBuffer m = .fills data ∧ data.length = m.byteSizeLong ∧
      parseFrom lite data = some (ofNative lite utf8 m) := by
  have hLength := AddressBook.byteSizeLong_eq (m := m) (by omega)
  have hCached : m.cachedSizes.size.toInt = m.byteSizeLong := Int32.toInt_ofNat_of_lt hSize
  refine ⟨Wire.bookBytes m, ?_, hLength.symm, ?_⟩
  · rw [geSerializeBuffer, hCached]
    exact AddressBook.serializeToArray_eq hSize (Int.le_refl _)
  · exact hDoc.parseFrom _ _ _ (mergeFromStream_bookBytes hDoc hPlain hSize)

end AddressBook

end Written

/-! ## A library that reads ASCII -/

/-- `utf8` of bytes below 128. -/
def ascii (raw : List UInt8) : JString := raw.map UInt8.toUInt16

def wireLite : Lite where
  UnknownFields := List UInt8
  noFields := []
  readTag bytes := if bytes = [] then some (0, []) else Wire.tag bytes
  readString bytes := (Wire.string bytes).map fun (raw, rest) => (ascii raw, rest)
  readInt32 bytes := (Wire.varint bytes).map fun (n, rest) => ((UInt32.ofNat n).toInt32, rest)
  readEnum bytes := (Wire.varint bytes).map fun (n, rest) => ((UInt32.ofNat n).toInt32, rest)
  readMessage parse bytes :=
    (Wire.string bytes).bind fun (body, rest) =>
    (parse body).bind fun ((m, lastTag), left) =>
    if lastTag = 0 ∧ left = [] then some (m, rest) else none
  parseUnknownField tag unknown bytes :=
    if getTagWireType tag = .endGroup then some ((false, unknown), bytes)
    else (Wire.skip 64 tag bytes).map fun (raw, rest) => ((true, unknown ++ raw), rest)
  mergeVarintField number value unknown :=
    unknown ++ encode (makeTag number .varint).toNat ++ encode (signExtended value).toNat
  parseFrom parse data :=
    (parse data).bind fun ((m, lastTag), _) => if lastTag = 0 then some m else none

theorem wireLite_documented : wireLite.Documented ascii where
  readTag_end := rfl
  readTag tag more hLow hHigh := by
    have hNonzero : tag.toUInt32 ≠ 0 := by
      intro hZero
      have hNat := congrArg UInt32.toNat hZero
      rw [UInt8.toNat_toUInt32, UInt32.toNat_zero] at hNat
      omega
    have hTag := Wire.tag_encode hNonzero more
    rwa [UInt8.toNat_toUInt32, encode_small hHigh, UInt8.ofNat_toNat] at hTag
  readString raw more hLength := by
    simp only [wireLite, Wire.string_encode hLength, Option.map_some]
  readInt32 value more := by
    simp only [wireLite, varint_int32, Option.map_some, signExtended_toUInt32,
      Int32.toInt32_toUInt32]
  readEnum value more := by
    simp only [wireLite, varint_int32, Option.map_some, signExtended_toUInt32,
      Int32.toInt32_toUInt32]
  readMessage parse m body more hLength hParse := by
    simp only [wireLite, Wire.string_encode hLength, Option.bind_some, hParse, and_self, if_true]
  parseFrom parse m data hParse := by
    simp only [wireLite, hParse, Option.bind_some, if_true]

/-- A person of the name "w" with the id 1 and a phone. -/
theorem parseFrom_geSerializeBuffer_person : ∃ data,
    geSerializeBuffer { people :=
      [{ name := some [119], id := some 1, phones := [{ number := some [49, 55] }] }] } =
        .fills data ∧ data.length = 13 ∧
    (AddressBook.parseFrom wireLite data).map (·.people.map (·.name)) = some [some [119]] := by
  have hPlain : Plain { people :=
      [{ name := some [119], id := some 1, phones := [{ number := some [49, 55] }] }] } :=
    ⟨rfl, by simp⟩
  obtain ⟨data, hData, hLength, hParse⟩ :=
    AddressBook.parseFrom_geSerializeBuffer wireLite_documented hPlain (by decide)
  exact ⟨data, hData, hLength, by rw [hParse]; rfl⟩

end AddressBookProtos

end AndroidDemo.Library
