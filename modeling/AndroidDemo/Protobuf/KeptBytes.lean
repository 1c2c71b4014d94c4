import AndroidDemo.Protobuf.RoundTrip

/-! # What a parse keeps

Strings, unknown fields and messages, counted in bytes. Each was paid for with bytes
of the input, so that a book is never more than the array it came from.
-/

namespace AndroidDemo.Protobuf

open AndroidDemo.Base128 AndroidDemo.Readers

namespace Wire

variable {bytes raw rest : List UInt8} {t : UInt32}

/-! ## Fields that are kept as bytes -/

theorem tag_cost_le (h : tag bytes = some (t, rest)) :
    (encode t.toNat).length + rest.length ≤ bytes.length := by
  obtain ⟨n, hDecode, rfl, -⟩ := tag_eq_some_iff.mp h
  have hRead := encode_length_le_decode hDecode
  have hCut : (encode (UInt32.ofNat n).toNat).length ≤ (encode n).length := by
    rw [UInt32.toNat_ofNat']
    exact encode_length_mono (Nat.mod_le _ _)
  omega

theorem string_cost_le (h : string bytes = some (raw, rest)) :
    (encode raw.length).length + raw.length + rest.length ≤ bytes.length := by
  obtain ⟨n, left, hDecode, -, hLength, rfl⟩ := string_eq_some_iff.mp h
  have hRead := encode_length_le_decode hDecode
  have hCut : (encode raw.length).length ≤ (encode n).length := by
    rw [hLength]
    exact encode_length_mono (Nat.mod_le _ _)
  rw [List.length_append] at hRead
  omega

theorem message_cost_lt (h : message bytes = some (raw, rest)) :
    raw.length + rest.length < bytes.length := by
  obtain ⟨n, left, hDecode, -, rfl, rfl⟩ := message_eq_some_iff.mp h
  have hLt := decode_shortens hDecode
  rwa [← List.length_append, List.take_append_drop]

theorem fixed_cost_le {size : Nat} (h : fixed size bytes = some (raw, rest)) :
    raw.length + rest.length ≤ bytes.length := by
  obtain ⟨-, rfl⟩ := fixed_eq_some_iff.mp h
  rw [List.length_append]

theorem skipWith_cost_le {group : List UInt8 → Option ((List UInt8 × UInt32) × List UInt8)}
    (hGroup : ∀ {bytes stop rest}, group bytes = some (stop, rest) →
      stop.1.length + rest.length ≤ bytes.length)
    (h : skipWith group t bytes = some (raw, rest)) :
    raw.length + rest.length ≤ (encode t.toNat).length + bytes.length := by
  rw [skipWith, Option.ite_none_left_eq_some] at h
  obtain ⟨-, h⟩ := h
  split at h
  · obtain ⟨⟨n, left⟩, hRead, hEq⟩ := Option.map_eq_some_iff.mp h
    cases hEq
    have hCost := encode_length_le_decode hRead
    have hCut := encode_length_mono (Nat.mod_le n (2 ^ 64))
    rw [List.length_append]
    omega
  · obtain ⟨⟨body, left⟩, hRead, hEq⟩ := Option.map_eq_some_iff.mp h
    cases hEq
    have hCost := fixed_cost_le hRead
    rw [List.length_append]
    omega
  · obtain ⟨⟨body, left⟩, hRead, hEq⟩ := Option.map_eq_some_iff.mp h
    cases hEq
    have hCost := string_cost_le hRead
    rw [List.length_append, List.length_append]
    omega
  · obtain ⟨⟨⟨body, last⟩, left⟩, hRead, hEq⟩ := Option.bind_eq_some_iff.mp h
    rw [Option.ite_none_right_eq_some] at hEq
    cases hEq.2
    have hCost : body.length + rest.length ≤ bytes.length := hGroup hRead
    rw [List.length_append]
    omega
  · obtain ⟨⟨body, left⟩, hRead, hEq⟩ := Option.map_eq_some_iff.mp h
    cases hEq
    have hCost := fixed_cost_le hRead
    rw [List.length_append]
    omega
  · cases h
  · cases h

/-- A group from the bytes kept so far. -/
theorem group_cost_le {skip : UInt32 → List UInt8 → Option (List UInt8 × List UInt8)}
    (hSkip : ∀ {t bytes raw rest}, skip t bytes = some (raw, rest) →
      raw.length + rest.length ≤ (encode t.toNat).length + bytes.length)
    {kept : List UInt8} {stop : List UInt8 × UInt32}
    (h : upTo (groupTurn skip) kept bytes = some (stop, rest)) :
    stop.1.length + rest.length ≤ kept.length + bytes.length := by
  refine upTo_invariant
    (P := fun now input => now.length + input.length ≤ kept.length + bytes.length)
    (Q := fun stop rest => stop.1.length + rest.length ≤ kept.length + bytes.length)
    ?_ ?_ (Nat.le_refl _) h
  · intro now input now' left hPaid hTurn
    obtain ⟨t, behind, hTag, ⟨-, hNext, -⟩ | ⟨-, raw, hRaw, hNext⟩⟩ := groupTurn_eq_some hTurn
    · cases hNext
    · cases hNext
      have hTagCost := tag_cost_le hTag
      have hCost := hSkip hRaw
      rw [List.length_append]
      omega
  · intro now input stop rest hPaid hTurn
    obtain ⟨t, behind, hTag, ⟨-, hNext, rfl⟩ | ⟨-, raw, -, hNext⟩⟩ := groupTurn_eq_some hTurn
    · cases hNext
      have hTagCost := tag_cost_le hTag
      rw [List.length_append]
      omega
    · cases hNext

theorem skip_cost_le {depth : Nat} (h : skip depth t bytes = some (raw, rest)) :
    raw.length + rest.length ≤ (encode t.toNat).length + bytes.length := by
  induction depth generalizing t bytes raw rest with
  | zero => exact skipWith_cost_le (fun {_ _ _} hNone => by cases hNone) h
  | succ depth ih =>
    refine skipWith_cost_le (fun {bytes stop rest} hGroup => ?_) h
    have hCost := group_cost_le ih hGroup
    rwa [List.length_nil, Nat.zero_add] at hCost

end Wire

/-! ## Messages -/

/-- The bytes of a string, where there is one. -/
def stringBytes (s : Option (List UInt8)) : Nat := s.elim 0 List.length

def PhoneNumber.keptBytes (m : PhoneNumber) : Nat :=
  stringBytes m.number + m.unknownFields.length

/-- A message inside another one counts two bytes more. -/
def Person.keptBytes (m : Person) : Nat :=
  stringBytes m.name + stringBytes m.email + (m.phones.map fun phone => phone.keptBytes + 2).sum +
    m.unknownFields.length

def AddressBook.keptBytes (m : AddressBook) : Nat :=
  (m.people.map fun person => person.keptBytes + 2).sum + m.unknownFields.length

open Wire

variable {depth : Nat} {bytes rest : List UInt8}

/-- A turn in two parts: what the field reads, or what is kept of an unknown one. -/
theorem Wire.turn_cost_le {M : Type}
    {field : UInt32 → Option (M → List UInt8 → Option (M × List UInt8))}
    {addUnknown : M → List UInt8 → M} {cost : M → Nat}
    (hField : ∀ {t read m input m' rest}, field t = some read → read m input = some (m', rest) →
      cost m' + rest.length ≤ cost m + input.length + 1)
    (hUnknown : ∀ m raw, cost (addUnknown m raw) = cost m + raw.length) (m : M)
    (input : List UInt8) (m' : M) (rest : List UInt8)
    (h : turn field addUnknown depth m input = some (m', rest)) :
    cost m' + rest.length ≤ cost m + input.length := by
  obtain ⟨⟨t, left⟩, hTag, hTurn⟩ := Option.bind_eq_some_iff.mp h
  have hTagCost := tag_cost_le hTag
  have hPos := encode_length_pos t.toNat
  dsimp only at hTurn
  cases hCase : field t with
  | some read =>
    rw [hCase] at hTurn
    have hCost := hField hCase hTurn
    omega
  | none =>
    rw [hCase] at hTurn
    obtain ⟨⟨raw, left'⟩, hSkip, hEq⟩ := Option.map_eq_some_iff.mp hTurn
    cases hEq
    have hCost := skip_cost_le hSkip
    rw [hUnknown]
    dsimp only
    omega

/-- The length before a string pays for nothing that is kept. -/
theorem Wire.stringBytes_cost_le {raw : List UInt8} (h : string bytes = some (raw, rest)) :
    stringBytes (some raw) + rest.length ≤ bytes.length := by
  have hCost := string_cost_le h
  change raw.length + rest.length ≤ bytes.length
  omega

theorem Wire.nested_cost_lt {M : Type} {parse : Nat → List UInt8 → Option M} {cost : M → Nat}
    (hParse : ∀ {depth body m}, parse depth body = some m → cost m ≤ body.length) {m : M}
    (h : nested parse depth bytes = some (m, rest)) : cost m + rest.length < bytes.length := by
  cases depth with
  | zero => cases h
  | succ inner =>
    obtain ⟨⟨body, left⟩, hMessage, hBody⟩ := Option.bind_eq_some_iff.mp h
    obtain ⟨parsed, hParsed, hEq⟩ := Option.map_eq_some_iff.mp hBody
    cases hEq
    have hCost := hParse hParsed
    have hRead := message_cost_lt hMessage
    omega

namespace PhoneNumber

theorem takeType_keptBytes (m : PhoneNumber) (n : Nat) :
    (m.takeType (UInt32.ofNat n).toInt32).keptBytes ≤ m.keptBytes + (encode n).length + 1 := by
  cases hType : PhoneType.ofValue (UInt32.ofNat n).toInt32 with
  | some type =>
    rw [takeType, hType]
    change m.keptBytes ≤ _
    omega
  | none =>
    have hCut : (encode (UInt32.ofNat n).toNat).length ≤ (encode n).length := by
      rw [UInt32.toNat_ofNat']
      exact encode_length_mono (Nat.mod_le _ _)
    rw [takeType, hType]
    simp only [addUnknown, keptBytes, List.length_append, writeVarint32ToArray_eq,
      UInt32.toUInt32_toInt32]
    rw [show (encode (16 : UInt32).toNat).length = 1 by rw [encode_small (by decide)]; rfl]
    omega

theorem phoneField_cost_le {t : UInt32}
    {read : PhoneNumber → List UInt8 → Option (PhoneNumber × List UInt8)} {m m' : PhoneNumber}
    (hField : phoneField t = some read) (h : read m bytes = some (m', rest)) :
    m'.keptBytes + rest.length ≤ m.keptBytes + bytes.length + 1 := by
  rw [phoneField] at hField
  split at hField
  · cases hField
    obtain ⟨⟨number, left⟩, hRead, hEq⟩ := Option.map_eq_some_iff.mp h
    cases hEq
    have hCost := stringBytes_cost_le hRead
    simp only [keptBytes]
    omega
  · rw [Option.ite_none_right_eq_some] at hField
    obtain ⟨-, hField⟩ := hField
    cases hField
    obtain ⟨⟨n, left⟩, hRead, hEq⟩ := Option.map_eq_some_iff.mp h
    cases hEq
    have hCost := encode_length_le_decode hRead
    have hTake := takeType_keptBytes m n
    omega

theorem mergePhone_keptBytes {m m' : PhoneNumber} (h : mergePhone depth m bytes = some m') :
    m'.keptBytes ≤ m.keptBytes + bytes.length := by
  refine toEnd_cost_le (turn_cost_le phoneField_cost_le fun m raw => ?_) h
  simp only [addUnknown, keptBytes, List.length_append, Nat.add_assoc]

end PhoneNumber

namespace Person

theorem personField_cost_le {t : UInt32}
    {read : Person → List UInt8 → Option (Person × List UInt8)} {m m' : Person}
    (hField : personField depth t = some read) (h : read m bytes = some (m', rest)) :
    m'.keptBytes + rest.length ≤ m.keptBytes + bytes.length + 1 := by
  rw [personField] at hField
  split at hField
  · cases hField
    obtain ⟨⟨name, left⟩, hRead, hEq⟩ := Option.map_eq_some_iff.mp h
    cases hEq
    have hCost := stringBytes_cost_le hRead
    simp only [keptBytes]
    omega
  split at hField
  · cases hField
    obtain ⟨⟨n, left⟩, hRead, hEq⟩ := Option.map_eq_some_iff.mp h
    cases hEq
    have hLt := decode_shortens hRead
    simp only [keptBytes]
    omega
  split at hField
  · cases hField
    obtain ⟨⟨email, left⟩, hRead, hEq⟩ := Option.map_eq_some_iff.mp h
    cases hEq
    have hCost := stringBytes_cost_le hRead
    simp only [keptBytes]
    omega
  rw [Option.ite_none_right_eq_some] at hField
  obtain ⟨-, hField⟩ := hField
  cases hField
  obtain ⟨⟨phone, left⟩, hRead, hEq⟩ := Option.map_eq_some_iff.mp h
  cases hEq
  have hCost : phone.keptBytes + rest.length < bytes.length :=
    nested_cost_lt (fun hParse => by
      have hPhone := PhoneNumber.mergePhone_keptBytes hParse
      rwa [show ({} : PhoneNumber).keptBytes = 0 from rfl, Nat.zero_add] at hPhone) hRead
  simp only [keptBytes, List.map_append, List.sum_append, List.map_cons, List.map_nil,
    List.sum_cons, List.sum_nil]
  omega

theorem mergePerson_keptBytes {m m' : Person} (h : mergePerson depth m bytes = some m') :
    m'.keptBytes ≤ m.keptBytes + bytes.length := by
  refine toEnd_cost_le (turn_cost_le personField_cost_le fun m raw => ?_) h
  simp only [addUnknown, keptBytes, List.length_append, Nat.add_assoc]

end Person

namespace AddressBook

theorem bookField_cost_le {t : UInt32}
    {read : AddressBook → List UInt8 → Option (AddressBook × List UInt8)} {m m' : AddressBook}
    (hField : bookField depth t = some read) (h : read m bytes = some (m', rest)) :
    m'.keptBytes + rest.length ≤ m.keptBytes + bytes.length + 1 := by
  rw [bookField, Option.ite_none_right_eq_some] at hField
  obtain ⟨-, hField⟩ := hField
  cases hField
  obtain ⟨⟨person, left⟩, hRead, hEq⟩ := Option.map_eq_some_iff.mp h
  cases hEq
  have hCost : person.keptBytes + rest.length < bytes.length :=
    nested_cost_lt (fun hParse => by
      have hPerson := Person.mergePerson_keptBytes hParse
      rwa [show ({} : Person).keptBytes = 0 from rfl, Nat.zero_add] at hPerson) hRead
  simp only [keptBytes, List.map_append, List.sum_append, List.map_cons, List.map_nil,
    List.sum_cons, List.sum_nil]
  omega

theorem mergeBook_keptBytes {m m' : AddressBook} (h : mergeBook depth m bytes = some m') :
    m'.keptBytes ≤ m.keptBytes + bytes.length := by
  refine toEnd_cost_le (turn_cost_le bookField_cost_le fun m raw => ?_) h
  simp only [addUnknown, keptBytes, List.length_append, Nat.add_assoc]

theorem book_keptBytes {m : AddressBook} (h : book bytes = some m) :
    m.keptBytes ≤ bytes.length := by
  have hCost := mergeBook_keptBytes h
  rwa [show ({} : AddressBook).keptBytes = 0 from rfl, Nat.zero_add] at hCost

/-- A returned book keeps no more bytes than the array had, with two for every message in it. -/
theorem parsePartialFromArray_keptBytes {data : List UInt8} {m : AddressBook}
    {s : CodedInputStream} (hLength : (data.length : Int) ≤ kint32max)
    (h : parsePartialFromArray data = .returns m s ∨
      ∃ limit, parsePartialUnder limit data = .returns m s) : m.keptBytes ≤ data.length := by
  rcases h with h | ⟨limit, h⟩
  · exact book_keptBytes (book_of_parsePartialFromArray hLength h)
  · exact book_keptBytes (book_of_parsePartialUnder hLength h)

theorem parsePartialFromArray_keptBytes_person :
    ({ people := [{ name := some [97] }] } : AddressBook).keptBytes ≤
      ([10, 3, 10, 1, 97] : List UInt8).length :=
  have hReturns : ∃ s, parsePartialFromArray [10, 3, 10, 1, 97] =
      .returns { people := [{ name := some [97] }] } s := ⟨_, rfl⟩
  hReturns.elim fun _ h => parsePartialFromArray_keptBytes (by decide) (Or.inl h)

end AddressBook

end AndroidDemo.Protobuf
