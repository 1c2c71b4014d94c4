import AndroidDemo.Protobuf.Refinement
import AndroidDemo.Protobuf.Serialization
import AndroidDemo.Protobuf.TotalLimit
import AndroidDemo.Protobuf.UnknownFields

/-! # Round trips

Bytes that act on a message as a message merged into it: those that the writer
makes of a message, where the unknown fields are ones that the parser keeps.
What a parse gives is such a message.
-/

namespace AndroidDemo.Protobuf

open AndroidDemo.Base128
open AndroidDemo.Readers
open Wire

variable {depth : Nat}

/-! ## Merging -/

namespace PhoneNumber

theorem addUnknown_nil (m : PhoneNumber) : m.addUnknown [] = m := by
  rw [addUnknown, List.append_nil]

theorem mergeFrom_empty (m : PhoneNumber) : m.mergeFrom {} = m := by
  rw [mergeFrom, List.append_nil]
  rfl

theorem empty_mergeFrom (m : PhoneNumber) : mergeFrom {} m = m := by
  rw [mergeFrom, Option.or_none, Option.or_none]
  rfl

end PhoneNumber

namespace Person

theorem addUnknown_nil (m : Person) : m.addUnknown [] = m := by
  rw [addUnknown, List.append_nil]

theorem mergeFrom_empty (m : Person) : m.mergeFrom {} = m := by
  rw [mergeFrom, List.append_nil, List.append_nil]
  rfl

theorem empty_mergeFrom (m : Person) : mergeFrom {} m = m := by
  rw [mergeFrom, Option.or_none, Option.or_none, Option.or_none]
  rfl

end Person

namespace AddressBook

theorem addUnknown_nil (m : AddressBook) : m.addUnknown [] = m := by
  rw [addUnknown, List.append_nil]

theorem mergeFrom_empty (m : AddressBook) : m.mergeFrom {} = m := by
  rw [mergeFrom, List.append_nil, List.append_nil]

theorem empty_mergeFrom (m : AddressBook) : mergeFrom {} m = m := rfl

end AddressBook

/-! ## Fields -/

/-- A field behind a tag of one byte, read by the case for the tag. -/
theorem turn_field {M : Type} {field : UInt32 → Option (M → List UInt8 → Option (M × List UInt8))}
    {addUnknown : M → List UInt8 → M} {t : UInt8}
    {read : M → List UInt8 → Option (M × List UInt8)} (hSmall : t.toNat < 128) (hTag : t ≠ 0)
    (hField : field (UInt32.ofNat t.toNat) = some read) (m : M) (bytes : List UInt8) :
    turn field addUnknown depth m (t :: bytes) = read m bytes := by
  have hNat : (UInt32.ofNat t.toNat).toNat = t.toNat := by
    rw [UInt32.toNat_ofNat']
    omega
  have hNonzero : UInt32.ofNat t.toNat ≠ 0 := by
    intro hZero
    rw [hZero] at hNat
    exact hTag (UInt8.toNat.inj hNat.symm)
  have hRest := tag_encode hNonzero bytes
  rw [hNat, encode_small hSmall, UInt8.ofNat_toNat] at hRest
  rw [← List.singleton_append, turn, hRest, Option.bind_some]
  dsimp only
  rw [hField]

theorem field_acts {M : Type} {field : UInt32 → Option (M → List UInt8 → Option (M × List UInt8))}
    {addUnknown : M → List UInt8 → M} {t : UInt8} {body : List UInt8} {apply : M → M}
    {read : M → List UInt8 → Option (M × List UInt8)} (hSmall : t.toNat < 128) (hTag : t ≠ 0)
    (hField : field (UInt32.ofNat t.toNat) = some read)
    (hRead : ∀ m more, read m (body ++ more) = some (apply m, more)) :
    Acts (toEnd (turn field addUnknown depth)) (t :: body) apply := by
  refine toEnd_acts (List.cons_ne_nil _ _) fun m more => ?_
  rw [List.cons_append, turn_field hSmall hTag hField]
  exact hRead m more

theorem nothing_acts {M : Type} {loop : M → List UInt8 → Option M}
    {addUnknown : M → List UInt8 → M} (hNil : ∀ m, addUnknown m [] = m) {raw : List UInt8}
    (h : raw = []) : Acts loop raw (addUnknown · raw) := by
  subst h
  exact fun m more => congrArg (loop · more) (hNil m).symm

theorem varint_int32 (value : Int32) (more : List UInt8) :
    varint (encode (signExtended value).toNat ++ more) = some ((signExtended value).toNat, more) :=
  varint_encode (signExtended value).toNat_lt more

theorem takeType_value (m : PhoneNumber) (type : PhoneType) :
    m.takeType type.value = { m with type := some type } := by
  cases type <;> rfl

/-! ## Phones -/

namespace PhoneNumber

variable {m : PhoneNumber}

/-- The unknown fields are ones that the parser keeps. -/
def Keeps (depth : Nat) (m : PhoneNumber) : Prop :=
  Acts (mergePhone depth) m.unknownFields (·.addUnknown m.unknownFields)

theorem phoneBytes_acts (hKeeps : m.Keeps depth) (hSize : m.byteSizeLong < 2 ^ 31) :
    Acts (mergePhone depth) (phoneBytes m) (·.mergeFrom m) := by
  have hNumber : Acts (mergePhone depth) (m.number.elim [] (delimited 10))
      fun into => { into with number := m.number.or into.number } := by
    cases hField : m.number with
    | none => exact Acts.nil
    | some number =>
      have hLe := length_le_byteSizeLong hField
      refine field_acts (by decide) (by decide) rfl fun into more => ?_
      rw [string_encode (by omega)]
      rfl
  have hType : Acts (mergePhone depth)
      (m.type.elim [] fun type => int32 16 type.value)
      fun into => { into with type := m.type.or into.type } := by
    cases m.type with
    | none => exact Acts.nil
    | some type =>
      refine field_acts (by decide) (by decide) rfl fun into more => ?_
      rw [varint_int32, Option.map_some]
      dsimp only
      rw [signExtended_toUInt32, Int32.toInt32_toUInt32, takeType_value]
      rfl
  exact (hNumber.append hType).append hKeeps

theorem mergePhone_phoneBytes (hKeeps : m.Keeps depth) (hSize : m.byteSizeLong < 2 ^ 31) :
    mergePhone depth {} (phoneBytes m) = some m := by
  have hActs := (phoneBytes_acts hKeeps hSize).apply_eq {}
  rw [empty_mergeFrom] at hActs
  exact hActs.trans toEnd_nil

end PhoneNumber

/-! ## Persons -/

namespace Person

variable {m : Person}

/-- The unknown fields are ones that the parser keeps, and a depth is left for the phones. -/
structure Keeps (depth : Nat) (m : Person) : Prop where
  unknownFields :
    Acts (mergePerson depth) m.unknownFields (·.addUnknown m.unknownFields)
  phones : ∀ phone ∈ m.phones, ∃ inner, depth = inner + 1 ∧ phone.Keeps inner

def addPhones (phones : List PhoneNumber) (m : Person) : Person :=
  { m with phones := m.phones ++ phones }

theorem phone_acts {phone : PhoneNumber} {inner : Nat} (hKeeps : phone.Keeps inner)
    (hSize : phone.byteSizeLong < 2 ^ 31) :
    Acts (mergePerson (inner + 1)) (delimited 34 (phoneBytes phone))
      (addPhones [phone]) := by
  have hLength := PhoneNumber.byteSizeLong_eq (m := phone) (by omega)
  have hParse := PhoneNumber.mergePhone_phoneBytes hKeeps hSize
  refine field_acts (by decide) (by decide) rfl fun into more => ?_
  rw [nested, message_encode (by omega), Option.bind_some]
  dsimp only
  rw [hParse]
  rfl

theorem personBytes_acts (hKeeps : m.Keeps depth) (hSize : m.byteSizeLong < 2 ^ 31) :
    Acts (mergePerson depth) (personBytes m) (·.mergeFrom m) := by
  have hName : Acts (mergePerson depth) (m.name.elim [] (delimited 10))
      fun into => { into with name := m.name.or into.name } := by
    cases hField : m.name with
    | none => exact Acts.nil
    | some name =>
      have hLe := name_length_le hField
      refine field_acts (by decide) (by decide) rfl fun into more => ?_
      rw [string_encode (by omega)]
      rfl
  have hId : Acts (mergePerson depth) (m.id.elim [] (int32 16))
      fun into => { into with id := m.id.or into.id } := by
    cases m.id with
    | none => exact Acts.nil
    | some id =>
      refine field_acts (by decide) (by decide) rfl fun into more => ?_
      rw [varint_int32, Option.map_some]
      dsimp only
      rw [signExtended_toUInt32, Int32.toInt32_toUInt32]
      rfl
  have hEmail : Acts (mergePerson depth) (m.email.elim [] (delimited 26))
      fun into => { into with email := m.email.or into.email } := by
    cases hField : m.email with
    | none => exact Acts.nil
    | some email =>
      have hLe := email_length_le hField
      refine field_acts (by decide) (by decide) rfl fun into more => ?_
      rw [string_encode (by omega)]
      rfl
  have hPhones : Acts (mergePerson depth)
      (m.phones.flatMap fun phone => delimited 34 (phoneBytes phone)) (addPhones m.phones) := by
    refine Acts.flatMap ?_ (fun phone phones => ?_) fun phone hPhone => ?_
    · funext into
      rw [addPhones, List.append_nil]
      rfl
    · funext into
      rw [Function.comp_apply, addPhones, addPhones, addPhones, List.append_assoc,
        List.singleton_append]
    · obtain ⟨inner, rfl, hInner⟩ := hKeeps.phones phone hPhone
      exact phone_acts hInner (Nat.lt_of_le_of_lt (phone_le_byteSizeLong hPhone) hSize)
  exact (((hName.append hId).append hEmail).append hPhones).append hKeeps.unknownFields

theorem mergePerson_personBytes (hKeeps : m.Keeps depth) (hSize : m.byteSizeLong < 2 ^ 31) :
    mergePerson depth {} (personBytes m) = some m := by
  have hActs := (personBytes_acts hKeeps hSize).apply_eq {}
  rw [empty_mergeFrom] at hActs
  exact hActs.trans toEnd_nil

end Person

/-! ## Books -/

namespace AddressBook

variable {m : AddressBook}

structure Keeps (depth : Nat) (m : AddressBook) : Prop where
  unknownFields :
    Acts (mergeBook depth) m.unknownFields (·.addUnknown m.unknownFields)
  people : ∀ person ∈ m.people, ∃ inner, depth = inner + 1 ∧ person.Keeps inner

def addPeople (people : List Person) (m : AddressBook) : AddressBook :=
  { m with people := m.people ++ people }

theorem person_acts {person : Person} {inner : Nat} (hKeeps : person.Keeps inner)
    (hSize : person.byteSizeLong < 2 ^ 31) :
    Acts (mergeBook (inner + 1)) (delimited 10 (personBytes person))
      (addPeople [person]) := by
  have hLength := Person.byteSizeLong_eq (m := person) (by omega)
  have hParse := Person.mergePerson_personBytes hKeeps hSize
  refine field_acts (by decide) (by decide) rfl fun into more => ?_
  rw [nested, message_encode (by omega), Option.bind_some]
  dsimp only
  rw [hParse]
  rfl

theorem bookBytes_acts (hKeeps : m.Keeps depth) (hSize : m.byteSizeLong < 2 ^ 31) :
    Acts (mergeBook depth) (bookBytes m) (·.mergeFrom m) := by
  have hPeople : Acts (mergeBook depth)
      (m.people.flatMap fun person => delimited 10 (personBytes person)) (addPeople m.people) := by
    refine Acts.flatMap ?_ (fun person people => ?_) fun person hPerson => ?_
    · funext into
      rw [addPeople, List.append_nil]
      rfl
    · funext into
      rw [Function.comp_apply, addPeople, addPeople, addPeople, List.append_assoc,
        List.singleton_append]
    · obtain ⟨inner, rfl, hInner⟩ := hKeeps.people person hPerson
      exact person_acts hInner (Nat.lt_of_le_of_lt (person_le_byteSizeLong hPerson) hSize)
  exact hPeople.append hKeeps.unknownFields

theorem mergeBook_bookBytes (hKeeps : m.Keeps depth) (hSize : m.byteSizeLong < 2 ^ 31) :
    mergeBook depth {} (bookBytes m) = some m := by
  have hActs := (bookBytes_acts hKeeps hSize).apply_eq {}
  rw [empty_mergeFrom] at hActs
  exact hActs.trans toEnd_nil

end AddressBook

/-! ## What a parse gives -/

/-- A turn reads a field or keeps one that it does not know. -/
theorem turn_cases {M : Type} {field : UInt32 → Option (M → List UInt8 → Option (M × List UInt8))}
    {addUnknown : M → List UInt8 → M} {m m' : M} {bytes rest : List UInt8}
    (h : turn field addUnknown depth m bytes = some (m', rest)) :
    (∃ t read left, field t = some read ∧ read m left = some (m', rest)) ∨
      ∃ raw, Acts (toEnd (turn field addUnknown depth)) raw (addUnknown · raw) ∧
        m' = addUnknown m raw := by
  obtain ⟨⟨t, left⟩, hTag, hTurn⟩ := Option.bind_eq_some_iff.mp h
  obtain ⟨-, -, -, hNonzero⟩ := tag_eq_some_iff.mp hTag
  dsimp only at hTurn
  cases hField : field t with
  | some read =>
    rw [hField] at hTurn
    exact Or.inl ⟨t, read, left, hField, hTurn⟩
  | none =>
    rw [hField] at hTurn
    obtain ⟨⟨raw, left'⟩, hSkip, hEq⟩ := Option.map_eq_some_iff.mp hTurn
    cases hEq
    exact Or.inr ⟨raw, skip_acts hNonzero hField hSkip, rfl⟩

theorem nested_eq_some {M : Type} {parse : Nat → List UInt8 → Option M} {bytes rest : List UInt8}
    {m : M} (h : nested parse depth bytes = some (m, rest)) :
    ∃ inner body, depth = inner + 1 ∧ parse inner body = some m := by
  cases depth with
  | zero => cases h
  | succ inner =>
    obtain ⟨⟨body, left⟩, -, hBody⟩ := Option.bind_eq_some_iff.mp h
    obtain ⟨parsed, hParse, hEq⟩ := Option.map_eq_some_iff.mp hBody
    cases hEq
    exact ⟨inner, body, rfl, hParse⟩

namespace PhoneNumber

/-- A value that is no type is written as the field that it came from. -/
theorem takeType_acts {value : Int32} (h : PhoneType.ofValue value = none) :
    Acts (mergePhone depth)
      (writeVarint32ToArray 16 ++ writeVarint32ToArray value.toUInt32)
      (·.addUnknown (writeVarint32ToArray 16 ++ writeVarint32ToArray value.toUInt32)) := by
  have hTake (m : PhoneNumber) : m.takeType value =
      m.addUnknown (writeVarint32ToArray 16 ++ writeVarint32ToArray value.toUInt32) := by
    rw [takeType, h]
  have hLt := value.toUInt32.toNat_lt
  simp only [← hTake]
  rw [writeVarint32ToArray_eq, writeVarint32ToArray_eq, encode_small (by decide),
    List.singleton_append]
  refine field_acts (by decide) (by decide) rfl fun m more => ?_
  rw [varint_encode (by omega), Option.map_some]
  dsimp only
  rw [UInt32.ofNat_toNat, Int32.toInt32_toUInt32]

theorem takeType_keeps {m : PhoneNumber} (hKeeps : m.Keeps depth) (value : Int32) :
    (m.takeType value).Keeps depth := by
  cases hType : PhoneType.ofValue value with
  | some type =>
    rw [takeType, hType]
    exact hKeeps
  | none =>
    have hMore := hKeeps.append (takeType_acts hType)
    rw [takeType, hType]
    simpa only [Keeps, addUnknown, Function.comp_def, List.append_assoc] using hMore

theorem mergePhone_keeps {m m' : PhoneNumber} {bytes : List UInt8} (hKeeps : m.Keeps depth)
    (h : mergePhone depth m bytes = some m') : m'.Keeps depth := by
  refine toEnd_invariant (fun m input m' rest hKeeps hTurn => ?_) hKeeps h
  obtain ⟨t, read, left, hField, hRead⟩ | ⟨raw, hRaw, rfl⟩ := turn_cases hTurn
  · rw [phoneField] at hField
    split at hField
    · cases hField
      obtain ⟨⟨number, left'⟩, -, hEq⟩ := Option.map_eq_some_iff.mp hRead
      cases hEq
      exact hKeeps
    · rw [Option.ite_none_right_eq_some] at hField
      obtain ⟨-, hField⟩ := hField
      cases hField
      obtain ⟨⟨n, left'⟩, -, hEq⟩ := Option.map_eq_some_iff.mp hRead
      cases hEq
      exact takeType_keeps hKeeps _
  · have hMore := hKeeps.append hRaw
    simpa only [Keeps, addUnknown, Function.comp_def, List.append_assoc] using hMore

theorem empty_keeps : Keeps depth {} := nothing_acts addUnknown_nil rfl

end PhoneNumber

namespace Person

theorem empty_keeps : Keeps depth {} where
  unknownFields := nothing_acts addUnknown_nil rfl
  phones := fun _ hNone => nomatch hNone

theorem keeps_addUnknown {m : Person} (hKeeps : m.Keeps depth) {raw : List UInt8}
    (hRaw : Acts (mergePerson depth) raw (addUnknown · raw)) :
    (m.addUnknown raw).Keeps depth where
  unknownFields := by
    have hMore := hKeeps.unknownFields.append hRaw
    simpa only [addUnknown, Function.comp_def, List.append_assoc] using hMore
  phones := hKeeps.phones

theorem mergePerson_keeps {m m' : Person} {bytes : List UInt8} (hKeeps : m.Keeps depth)
    (h : mergePerson depth m bytes = some m') : m'.Keeps depth := by
  refine toEnd_invariant (fun m input m' rest hKeeps hTurn => ?_) hKeeps h
  obtain ⟨t, read, left, hField, hRead⟩ | ⟨raw, hRaw, rfl⟩ := turn_cases hTurn
  · rw [personField] at hField
    split at hField
    · cases hField
      obtain ⟨⟨name, left'⟩, -, hEq⟩ := Option.map_eq_some_iff.mp hRead
      cases hEq
      exact ⟨hKeeps.unknownFields, hKeeps.phones⟩
    split at hField
    · cases hField
      obtain ⟨⟨n, left'⟩, -, hEq⟩ := Option.map_eq_some_iff.mp hRead
      cases hEq
      exact ⟨hKeeps.unknownFields, hKeeps.phones⟩
    split at hField
    · cases hField
      obtain ⟨⟨email, left'⟩, -, hEq⟩ := Option.map_eq_some_iff.mp hRead
      cases hEq
      exact ⟨hKeeps.unknownFields, hKeeps.phones⟩
    rw [Option.ite_none_right_eq_some] at hField
    obtain ⟨-, hField⟩ := hField
    cases hField
    obtain ⟨⟨phone, left'⟩, hPhone, hEq⟩ := Option.map_eq_some_iff.mp hRead
    cases hEq
    obtain ⟨inner, body, rfl, hParse⟩ := nested_eq_some hPhone
    refine ⟨hKeeps.unknownFields, fun p hp => ?_⟩
    rcases List.mem_append.mp hp with hOld | hNew
    · exact hKeeps.phones p hOld
    · cases List.mem_singleton.mp hNew
      exact ⟨inner, rfl, PhoneNumber.mergePhone_keeps PhoneNumber.empty_keeps hParse⟩
  · exact keeps_addUnknown hKeeps hRaw

end Person

namespace AddressBook

theorem empty_keeps : Keeps depth {} where
  unknownFields := nothing_acts addUnknown_nil rfl
  people := fun _ hNone => nomatch hNone

theorem keeps_addUnknown {m : AddressBook} (hKeeps : m.Keeps depth) {raw : List UInt8}
    (hRaw : Acts (mergeBook depth) raw (addUnknown · raw)) :
    (m.addUnknown raw).Keeps depth where
  unknownFields := by
    have hMore := hKeeps.unknownFields.append hRaw
    simpa only [addUnknown, Function.comp_def, List.append_assoc] using hMore
  people := hKeeps.people

theorem mergeBook_keeps {m m' : AddressBook} {bytes : List UInt8} (hKeeps : m.Keeps depth)
    (h : mergeBook depth m bytes = some m') : m'.Keeps depth := by
  refine toEnd_invariant (fun m input m' rest hKeeps hTurn => ?_) hKeeps h
  obtain ⟨t, read, left, hField, hRead⟩ | ⟨raw, hRaw, rfl⟩ := turn_cases hTurn
  · rw [bookField, Option.ite_none_right_eq_some] at hField
    obtain ⟨-, hField⟩ := hField
    cases hField
    obtain ⟨⟨person, left'⟩, hPerson, hEq⟩ := Option.map_eq_some_iff.mp hRead
    cases hEq
    obtain ⟨inner, body, rfl, hParse⟩ := nested_eq_some hPerson
    refine ⟨hKeeps.unknownFields, fun p hp => ?_⟩
    rcases List.mem_append.mp hp with hOld | hNew
    · exact hKeeps.people p hOld
    · cases List.mem_singleton.mp hNew
      exact ⟨inner, rfl, Person.mergePerson_keeps Person.empty_keeps hParse⟩
  · exact keeps_addUnknown hKeeps hRaw

variable {data : List UInt8} {m : AddressBook} {s : CodedInputStream}

theorem book_of_returns {r : Outcome AddressBook}
    (hSpec : ∃ t, r = (book data).elim (.fails t) (.returns · t)) (h : r = .returns m s) :
    book data = some m := by
  obtain ⟨t, hEq⟩ := hSpec
  rw [h] at hEq
  cases hBook : book data with
  | some m' =>
    rw [hBook] at hEq
    cases hEq
    rfl
  | none =>
    rw [hBook] at hEq
    cases hEq

/-- What the parser returned is what the bytes mean. -/
theorem book_of_parsePartialFromArray (hMax : (data.length : Int) ≤ kint32max)
    (h : parsePartialFromArray data = .returns m s) : book data = some m := by
  rcases Int.lt_or_le kDefaultTotalBytesLimit data.length with hLong | hFits
  · exact absurd h (parsePartialFromArray_refused hLong).ne_returns
  · exact book_of_returns (parsePartialFromArray_spec hMax hFits) h

theorem book_of_parsePartialUnder (hMax : (data.length : Int) ≤ kint32max) {limit : Int}
    (h : parsePartialUnder limit data = .returns m s) : book data = some m := by
  rcases Int.lt_or_le (max 0 limit) data.length with hLong | hFits
  · exact absurd h (parsePartialUnder_refused hLong).ne_returns
  · exact book_of_returns (parsePartialUnder_spec hMax hFits) h

end AddressBook

end AndroidDemo.Protobuf
