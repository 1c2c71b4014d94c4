import AndroidDemo.Protobuf.AddressBook
import Mathlib.Algebra.Order.BigOperators.Group.List

/-! # What is written

The bytes of a book in one expression, and that the writer writes them: the sizes
that it computes first are the numbers of bytes that follow.
-/

namespace AndroidDemo.Protobuf

open AndroidDemo.Base128
open CodedOutputStream

namespace Wire

def delimited (tag : UInt8) (body : List UInt8) : List UInt8 := tag :: (encode body.length ++ body)

def int32 (tag : UInt8) (value : Int32) : List UInt8 := tag :: encode (signExtended value).toNat

def phoneBytes (m : PhoneNumber) : List UInt8 :=
  m.number.elim [] (delimited 10) ++ (m.type.elim [] fun type => int32 16 type.value) ++
    m.unknownFields

def personBytes (m : Person) : List UInt8 :=
  m.name.elim [] (delimited 10) ++ m.id.elim [] (int32 16) ++ m.email.elim [] (delimited 26) ++
    (m.phones.flatMap fun phone => delimited 34 (phoneBytes phone)) ++ m.unknownFields

def bookBytes (m : AddressBook) : List UInt8 :=
  (m.people.flatMap fun person => delimited 10 (personBytes person)) ++ m.unknownFields

end Wire

open Wire

/-! ## Fields -/

theorem lengthDelimitedSize_eq (tag : UInt8) (body : List UInt8) (h : body.length < 2 ^ 32) :
    1 + lengthDelimitedSize body.length = (delimited tag body).length := by
  rw [lengthDelimitedSize, varintSize32_eq, writeVarint32ToArray_eq, UInt32.toNat_ofNat',
    Nat.mod_eq_of_lt h, delimited, List.length_cons, List.length_append]
  omega

theorem int32Size_eq (tag : UInt8) (value : Int32) :
    1 + int32Size value = (int32 tag value).length := by
  rw [int32Size, varintSize32SignExtended_eq, writeVarint64ToArray_eq, int32, List.length_cons,
    Nat.add_comm]

theorem length_le_lengthDelimitedSize (length : Nat) : length ≤ lengthDelimitedSize length :=
  Nat.le_add_right _ _

theorem writeTag_eq (output : CodedOutputStream) {fieldNumber : UInt32} {type : WireType}
    {tag : UInt8} (hTag : (makeTag fieldNumber type).toNat = tag.toNat) (hSmall : tag.toNat < 128) :
    output.writeTag fieldNumber type = output.writeRaw [tag] := by
  rw [writeTag, writeVarint32_eq, hTag, encode_small hSmall, UInt8.ofNat_toNat]

theorem writeString_eq (output : CodedOutputStream) {fieldNumber : UInt32} {tag : UInt8}
    (hTag : (makeTag fieldNumber .lengthDelimited).toNat = tag.toNat) (hSmall : tag.toNat < 128)
    {value : List UInt8} (h : value.length < 2 ^ 32) :
    output.writeString fieldNumber value = output.writeRaw (delimited tag value) := by
  rw [writeString, writeTag_eq output hTag hSmall, writeVarint32_eq, UInt32.toNat_ofNat',
    Nat.mod_eq_of_lt h, ← writeRaw_append, ← writeRaw_append, delimited, List.singleton_append]

theorem writeInt32_eq (output : CodedOutputStream) {fieldNumber : UInt32} {tag : UInt8}
    (hTag : (makeTag fieldNumber .varint).toNat = tag.toNat) (hSmall : tag.toNat < 128)
    (value : Int32) :
    output.writeInt32 fieldNumber value = output.writeRaw (int32 tag value) := by
  rw [writeInt32, writeTag_eq output hTag hSmall, writeVarint32SignExtended, writeVarint64_eq,
    ← writeRaw_append, int32, List.singleton_append]

/-- A size below 2^31 comes through the cast to `int` and back. -/
theorem toCachedSize_toUInt32 {size : Nat} (h : size < 2 ^ 32) :
    (toCachedSize size).toUInt32.toNat = size := by
  change (BitVec.ofNat 32 size).toNat = size
  rw [BitVec.toNat_ofNat, Nat.mod_eq_of_lt h]

theorem writeMessage_eq (output : CodedOutputStream) {fieldNumber : UInt32} {tag : UInt8}
    (hTag : (makeTag fieldNumber .lengthDelimited).toNat = tag.toNat) (hSmall : tag.toNat < 128)
    {serialize : CodedOutputStream → CodedOutputStream} {body : List UInt8}
    (hBody : ∀ output, serialize output = output.writeRaw body) (h : body.length < 2 ^ 32) :
    output.writeMessage fieldNumber (toCachedSize body.length) serialize =
      output.writeRaw (delimited tag body) := by
  rw [writeMessage, hBody, writeTag_eq output hTag hSmall, writeVarint32_eq,
    toCachedSize_toUInt32 h, ← writeRaw_append, ← writeRaw_append, delimited,
    List.singleton_append]

/-- A field written for each of a list, one behind the other. -/
theorem foldl_writeRaw {α : Type} {write : CodedOutputStream → α → CodedOutputStream}
    {bytes : α → List UInt8} {xs : List α}
    (h : ∀ x ∈ xs, ∀ output, write output x = output.writeRaw (bytes x))
    (output : CodedOutputStream) :
    xs.foldl write output = output.writeRaw (xs.flatMap bytes) := by
  induction xs generalizing output with
  | nil => exact (writeRaw_nil output).symm
  | cons x xs ih =>
    rw [List.foldl_cons, h x List.mem_cons_self, ih fun y hy => h y (List.mem_cons_of_mem x hy),
      List.flatMap_cons, writeRaw_append]

/-- The fields of a list, with one tag byte each. -/
theorem delimited_flatMap_length {α : Type} (tag : UInt8) (size : α → Nat) (bytes : α → List UInt8)
    {xs : List α} (h : ∀ x ∈ xs, size x < 2 ^ 32 ∧ size x = (bytes x).length) :
    xs.length + (xs.map fun x => lengthDelimitedSize (size x)).sum =
      (xs.flatMap fun x => delimited tag (bytes x)).length := by
  induction xs with
  | nil => rfl
  | cons x xs ih =>
    obtain ⟨hLt, hEq⟩ := h x List.mem_cons_self
    have hTail := ih fun y hy => h y (List.mem_cons_of_mem x hy)
    have hHead := lengthDelimitedSize_eq tag (bytes x) (hEq ▸ hLt)
    rw [List.length_cons, List.map_cons, List.sum_cons, List.flatMap_cons, List.length_append,
      ← hTail, ← hHead, hEq]
    omega

theorem lengthDelimitedSize_le_sum {α : Type} (size : α → Nat) {xs : List α} {x : α} (hx : x ∈ xs) :
    size x ≤ (xs.map fun x => lengthDelimitedSize (size x)).sum :=
  Nat.le_trans (length_le_lengthDelimitedSize (size x))
    (List.le_sum_of_mem (List.mem_map_of_mem hx))

/-! ## Phones -/

namespace PhoneNumber

variable {m : PhoneNumber}

theorem length_le_byteSizeLong {number : List UInt8} (h : m.number = some number) :
    number.length ≤ m.byteSizeLong := by
  have hLe := length_le_lengthDelimitedSize number.length
  rw [byteSizeLong, h, Option.elim_some, stringSize]
  omega

theorem byteSizeLong_eq (h : m.byteSizeLong < 2 ^ 32) : m.byteSizeLong = (phoneBytes m).length := by
  have hNumber : (m.number.elim 0 fun number => 1 + stringSize number) =
      (m.number.elim [] (delimited 10)).length := by
    cases hField : m.number with
    | none => rfl
    | some number =>
      have hLe := length_le_byteSizeLong hField
      exact lengthDelimitedSize_eq 10 number (by omega)
  have hType : (m.type.elim 0 fun type => 1 + int32Size type.value) =
      (m.type.elim [] fun type => int32 16 type.value).length := by
    cases m.type with
    | none => rfl
    | some type => exact int32Size_eq 16 type.value
  rw [byteSizeLong, hNumber, hType, phoneBytes, List.length_append, List.length_append]
  omega

theorem serializeWithCachedSizes_eq (h : m.byteSizeLong < 2 ^ 32) (output : CodedOutputStream) :
    m.serializeWithCachedSizes output = output.writeRaw (phoneBytes m) := by
  have hNumber (output : CodedOutputStream) :
      (m.number.elim output (output.writeString 1)) =
        output.writeRaw (m.number.elim [] (delimited 10)) := by
    cases hField : m.number with
    | none => exact (writeRaw_nil output).symm
    | some number =>
      have hLe := length_le_byteSizeLong hField
      exact writeString_eq output rfl (by decide) (by omega)
  have hType (output : CodedOutputStream) :
      (m.type.elim output fun type => output.writeInt32 2 type.value) =
        output.writeRaw (m.type.elim [] fun type => int32 16 type.value) := by
    cases m.type with
    | none => exact (writeRaw_nil output).symm
    | some type => exact writeInt32_eq output rfl (by decide) type.value
  rw [serializeWithCachedSizes, hNumber, hType, phoneBytes, writeRaw_append, writeRaw_append]

end PhoneNumber

/-! ## Persons -/

namespace Person

variable {m : Person}

theorem name_length_le {name : List UInt8} (h : m.name = some name) :
    name.length ≤ m.byteSizeLong := by
  have hLe := length_le_lengthDelimitedSize name.length
  rw [byteSizeLong, h, Option.elim_some, stringSize]
  omega

theorem email_length_le {email : List UInt8} (h : m.email = some email) :
    email.length ≤ m.byteSizeLong := by
  have hLe := length_le_lengthDelimitedSize email.length
  rw [byteSizeLong, h, Option.elim_some, stringSize]
  omega

theorem phone_le_byteSizeLong {phone : PhoneNumber} (h : phone ∈ m.phones) :
    phone.byteSizeLong ≤ m.byteSizeLong := by
  have hLe := lengthDelimitedSize_le_sum PhoneNumber.byteSizeLong h
  rw [byteSizeLong]
  omega

theorem byteSizeLong_eq (h : m.byteSizeLong < 2 ^ 32) :
    m.byteSizeLong = (personBytes m).length := by
  have hName : (m.name.elim 0 fun name => 1 + stringSize name) =
      (m.name.elim [] (delimited 10)).length := by
    cases hField : m.name with
    | none => rfl
    | some name =>
      have hLe := name_length_le hField
      exact lengthDelimitedSize_eq 10 name (by omega)
  have hId : (m.id.elim 0 fun id => 1 + int32Size id) =
      (m.id.elim [] (int32 16)).length := by
    cases m.id with
    | none => rfl
    | some id => exact int32Size_eq 16 id
  have hEmail : (m.email.elim 0 fun email => 1 + stringSize email) =
      (m.email.elim [] (delimited 26)).length := by
    cases hField : m.email with
    | none => rfl
    | some email =>
      have hLe := email_length_le hField
      exact lengthDelimitedSize_eq 26 email (by omega)
  have hPhones := delimited_flatMap_length 34 PhoneNumber.byteSizeLong phoneBytes
    fun phone (hPhone : phone ∈ m.phones) => by
      have hLt := Nat.lt_of_le_of_lt (phone_le_byteSizeLong hPhone) h
      exact ⟨hLt, PhoneNumber.byteSizeLong_eq hLt⟩
  rw [byteSizeLong, hName, hId, hEmail, personBytes, List.length_append, List.length_append,
    List.length_append, List.length_append, ← hPhones]
  omega

theorem serializeWithCachedSizes_eq (h : m.byteSizeLong < 2 ^ 32) (output : CodedOutputStream) :
    m.serializeWithCachedSizes m.cachedSizes output = output.writeRaw (personBytes m) := by
  have hName (output : CodedOutputStream) :
      (m.name.elim output (output.writeString 1)) =
        output.writeRaw (m.name.elim [] (delimited 10)) := by
    cases hField : m.name with
    | none => exact (writeRaw_nil output).symm
    | some name =>
      have hLe := name_length_le hField
      exact writeString_eq output rfl (by decide) (by omega)
  have hId (output : CodedOutputStream) :
      (m.id.elim output (output.writeInt32 2)) =
        output.writeRaw (m.id.elim [] (int32 16)) := by
    cases m.id with
    | none => exact (writeRaw_nil output).symm
    | some id => exact writeInt32_eq output rfl (by decide) id
  have hEmail (output : CodedOutputStream) :
      (m.email.elim output (output.writeString 3)) =
        output.writeRaw (m.email.elim [] (delimited 26)) := by
    cases hField : m.email with
    | none => exact (writeRaw_nil output).symm
    | some email =>
      have hLe := email_length_le hField
      exact writeString_eq output rfl (by decide) (by omega)
  have hPhones (output : CodedOutputStream) :
      (m.phones.zip m.cachedSizes.phones).foldl
          (fun output phone => output.writeMessage 4 phone.2 phone.1.serializeWithCachedSizes)
          output =
        output.writeRaw (m.phones.flatMap fun phone => delimited 34 (phoneBytes phone)) := by
    rw [cachedSizes, ← List.map_prod_left_eq_zip, List.foldl_map]
    refine foldl_writeRaw (fun phone hPhone output => ?_) output
    have hLt := Nat.lt_of_le_of_lt (phone_le_byteSizeLong hPhone) h
    dsimp only
    rw [PhoneNumber.byteSizeLong_eq hLt]
    exact writeMessage_eq output rfl (by decide) (PhoneNumber.serializeWithCachedSizes_eq hLt)
      (PhoneNumber.byteSizeLong_eq hLt ▸ hLt)
  rw [serializeWithCachedSizes, hName, hId, hEmail, hPhones, personBytes, writeRaw_append,
    writeRaw_append, writeRaw_append, writeRaw_append]

end Person

/-! ## Books -/

namespace AddressBook

variable {m : AddressBook}

theorem person_le_byteSizeLong {person : Person} (h : person ∈ m.people) :
    person.byteSizeLong ≤ m.byteSizeLong := by
  have hLe := lengthDelimitedSize_le_sum Person.byteSizeLong h
  rw [byteSizeLong]
  omega

theorem byteSizeLong_eq (h : m.byteSizeLong < 2 ^ 32) : m.byteSizeLong = (bookBytes m).length := by
  have hPeople := delimited_flatMap_length 10 Person.byteSizeLong personBytes
    fun person (hPerson : person ∈ m.people) => by
      have hLt := Nat.lt_of_le_of_lt (person_le_byteSizeLong hPerson) h
      exact ⟨hLt, Person.byteSizeLong_eq hLt⟩
  rw [byteSizeLong, bookBytes, List.length_append, ← hPeople]
  omega

theorem serializeWithCachedSizes_eq (h : m.byteSizeLong < 2 ^ 32) (output : CodedOutputStream) :
    m.serializeWithCachedSizes m.cachedSizes output = output.writeRaw (bookBytes m) := by
  have hPeople (output : CodedOutputStream) :
      (m.people.zip m.cachedSizes.people).foldl
          (fun output person =>
            output.writeMessage 1 person.2.size (person.1.serializeWithCachedSizes person.2))
          output =
        output.writeRaw (m.people.flatMap fun person => delimited 10 (personBytes person)) := by
    rw [cachedSizes, ← List.map_prod_left_eq_zip, List.foldl_map]
    refine foldl_writeRaw (fun person hPerson output => ?_) output
    have hLt := Nat.lt_of_le_of_lt (person_le_byteSizeLong hPerson) h
    dsimp only
    rw [Person.cachedSizes, Person.byteSizeLong_eq hLt]
    exact writeMessage_eq output rfl (by decide) (Person.serializeWithCachedSizes_eq hLt)
      (Person.byteSizeLong_eq hLt ▸ hLt)
  rw [serializeWithCachedSizes, hPeople, bookBytes, writeRaw_append]

/-- Where the cached size is the size, the array is filled to its end. -/
theorem serializeToArray_eq {size : Int} (h : m.byteSizeLong < 2 ^ 31)
    (hSize : (m.byteSizeLong : Int) ≤ size) : m.serializeToArray size = .fills (bookBytes m) := by
  have hByteSize : (Int32.ofNat m.byteSizeLong).toInt = m.byteSizeLong :=
    Int32.toInt_ofNat_of_lt h
  have hCached : m.cachedSizes.size = Int32.ofNat m.byteSizeLong := rfl
  have hLength := byteSizeLong_eq (m := m) (by omega)
  have hOutput := serializeWithCachedSizes_eq (m := m) (by omega) (.ofArray m.byteSizeLong)
  rw [writeRaw_fits _ (Nat.le_of_eq hLength.symm)] at hOutput
  rw [serializeToArray, hByteSize, if_neg (by omega)]
  dsimp only
  rw [hCached, hByteSize, Int.toNat_natCast, hOutput, if_neg (fun hError => nomatch hError),
    if_neg (fun hNe => hNe rfl)]
  rfl

end AddressBook

end AndroidDemo.Protobuf
