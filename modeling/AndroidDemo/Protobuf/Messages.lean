import AndroidDemo.Protobuf.Accessors

/-! # Messages as bytes

What the parser and the writer make of each other's results.
-/

namespace AndroidDemo.Protobuf

open AndroidDemo.Readers
open CodedInputStream
open Wire

/-! ## Merging -/

theorem turn_map {M : Type} {field : UInt32 → Option (M → List UInt8 → Option (M × List UInt8))}
    {addUnknown : M → List UInt8 → M} {depth : Nat} {f : M → M}
    (hUnknown : ∀ m raw, addUnknown (f m) raw = f (addUnknown m raw))
    (hField : ∀ t read, field t = some read → ∀ m bytes,
      read (f m) bytes = (read m bytes).map fun (m, rest) => (f m, rest)) (m : M)
    (bytes : List UInt8) :
    turn field addUnknown depth (f m) bytes =
      (turn field addUnknown depth m bytes).map fun (m, rest) => (f m, rest) := by
  rw [turn, turn]
  cases tag bytes with
  | none => rfl
  | some next =>
    obtain ⟨t, rest⟩ := next
    simp only [Option.bind_some]
    cases hRead : field t with
    | some read => exact hField t read hRead m rest
    | none =>
      simp only [Option.map_map, Function.comp_def, hUnknown]

theorem mergeBook_mergeFrom (depth : Nat) (m a : AddressBook) (bytes : List UInt8) :
    mergeBook depth (m.mergeFrom a) bytes = (mergeBook depth a bytes).map m.mergeFrom := by
  refine toEnd_map (turn_map (fun a raw => ?_) fun t read hField a bytes => ?_) a bytes
  · simp only [AddressBook.addUnknown, AddressBook.mergeFrom, List.append_assoc]
  · rw [bookField, Option.ite_none_right_eq_some] at hField
    cases hField.2
    simp only [AddressBook.mergeFrom, Option.map_map, List.append_assoc]
    rfl

/-! ## Merging from a stream -/

def Outcome.map {α β : Type} (f : α → β) (r : Outcome α) : Outcome β :=
  r.andThen fun a s => .returns (f a) s

theorem Outcome.andThen_map {α β γ : Type} (r : Outcome α) (f : β → γ)
    (g : α → CodedInputStream → Outcome β) :
    (r.andThen g).map f = r.andThen fun a s => (g a s).map f := by
  cases r <;> rfl

theorem Outcome.map_andThen {α β γ : Type} (r : Outcome α) (f : α → β)
    (g : β → CodedInputStream → Outcome γ) :
    (r.map f).andThen g = r.andThen fun a s => g (f a) s := by
  cases r <;> rfl

/-- What every field and every unknown field leaves alone, the loop leaves alone. -/
theorem mergeLoop_map {M : Type} {field : UInt32 → Option (M → CodedInputStream → Outcome M)}
    {addUnknown : M → List UInt8 → M} {skip : UInt32 → CodedInputStream → Outcome (List UInt8)}
    {f : M → M} (hUnknown : ∀ m bytes, addUnknown (f m) bytes = f (addUnknown m bytes))
    (hField : ∀ tag read, field tag = some read → ∀ m s, read (f m) s = (read m s).map f)
    (fuel : Nat) (m : M) (s : CodedInputStream) :
    mergeLoop field addUnknown skip fuel (f m) s =
      (mergeLoop field addUnknown skip fuel m s).map f := by
  induction fuel generalizing m s with
  | zero => rfl
  | succ fuel ih =>
    rw [mergeLoop, mergeLoop, Outcome.andThen_map]
    refine congrArg _ (funext fun p => funext fun s => ?_)
    obtain ⟨tag, below⟩ := p
    dsimp only
    cases hRead : (if below then field tag else none) with
    | some read =>
      have hSome : field tag = some read := by
        cases below with
        | true => exact hRead
        | false => cases hRead
      dsimp only
      rw [hField tag read hSome, Outcome.map_andThen, Outcome.andThen_map]
      simp only [ih]
    | none =>
      dsimp only
      split
      · rfl
      · rw [Outcome.andThen_map]
        simp only [hUnknown, ih]

namespace Person

theorem field_mergeFrom (fuel : Nat) (m : Person) {tag : UInt32}
    {read : Person → CodedInputStream → Outcome Person} (hField : field fuel tag = some read)
    (a : Person) (s : CodedInputStream) :
    read (m.mergeFrom a) s = (read a s).map m.mergeFrom := by
  rw [field] at hField
  split at hField <;> first | cases hField | rw [Option.ite_none_right_eq_some] at hField
  · cases hField.2
    rw [readName, readName, Outcome.andThen_map]
    rfl
  · cases hField.2
    rw [readId, readId, Outcome.andThen_map]
    rfl
  · cases hField.2
    rw [readEmail, readEmail, Outcome.andThen_map]
    rfl
  · cases hField.2
    rw [readPhone, readPhone, Outcome.andThen_map]
    simp only [mergeFrom, List.append_assoc]
    rfl

/-- A person read on top of `m` is the person read on top of an empty one, merged into `m`: the
last value of a field stands, phones and unknown fields follow those of `m`. The stream is left
the same, and where the one reading fails the other one fails. -/
theorem mergePartialFromCodedStream_mergeFrom (fuel : Nat) (m : Person) (s : CodedInputStream) :
    m.mergePartialFromCodedStream fuel s =
      (mergePartialFromCodedStream fuel {} s).andThen fun a s => .returns (m.mergeFrom a) s := by
  have hUnknown (a : Person) (bytes : List UInt8) :
      (m.mergeFrom a).addUnknown bytes = m.mergeFrom (a.addUnknown bytes) := by
    simp only [addUnknown, mergeFrom, List.append_assoc]
  have hMap : mergePartialFromCodedStream fuel (m.mergeFrom {}) s =
      (mergePartialFromCodedStream fuel {} s).map m.mergeFrom :=
    mergeLoop_map hUnknown (fun _ _ hField => field_mergeFrom fuel m hField) fuel {} s
  rwa [mergeFrom_empty] at hMap

end Person

/-! ## Arrays -/

namespace AddressBook

variable {data : List UInt8}

theorem parsePartialUnder_returns {m : AddressBook} {limit : Int}
    (hLimit : (data.length : Int) ≤ max 0 limit) (hMax : (data.length : Int) ≤ kint32max)
    (h : book data = some m) : ∃ s, parsePartialUnder limit data = .returns m s := by
  have hSpec := parsePartialUnder_spec hMax hLimit
  rwa [h] at hSpec

theorem parsePartialFromArray_returns {m : AddressBook}
    (hFits : (data.length : Int) ≤ kDefaultTotalBytesLimit) (h : book data = some m) :
    ∃ s, parsePartialFromArray data = .returns m s := by
  have hSpec := parsePartialFromArray_spec (Int.le_trans hFits (by decide)) hFits
  rwa [h] at hSpec

/-- An array of the size is filled to its end, a smaller one is not touched. -/
theorem serializeToArray_total {m : AddressBook} (h : m.byteSizeLong < 2 ^ 31) (size : Int) :
    m.serializeToArray size =
        (if size < m.byteSizeLong then .tooSmall else .fills (bookBytes m)) ∧
      (bookBytes m).length = m.byteSizeLong := by
  refine ⟨?_, (byteSizeLong_eq (by omega)).symm⟩
  rcases Int.lt_or_le size m.byteSizeLong with hSmall | hFits
  · rw [if_pos hSmall, serializeToArray, Int32.toInt_ofNat_of_lt h, if_pos hSmall]
  · rw [if_neg (Int.not_lt.mpr hFits), serializeToArray_eq h hFits]

/-- A book that was held is parsed from what it is written to, where the limit lets it through. -/
theorem parse_serialize {m : AddressBook} (hHeld : m.Held) (hSize : m.byteSizeLong < 2 ^ 31) :
    ∃ bytes, m.serializeToArray m.byteSizeLong = .fills bytes ∧ bytes.length = m.byteSizeLong ∧
      (∀ limit : Int, m.byteSizeLong ≤ limit → ∃ s, parseUnder limit bytes = .returns m s) ∧
      (m.byteSizeLong ≤ kDefaultTotalBytesLimit → ∃ s, parseFromArray bytes = .returns m s) ∧
      (kDefaultTotalBytesLimit < m.byteSizeLong → (parseFromArray bytes).Refused) := by
  have hLength := byteSizeLong_eq (m := m) (by omega)
  have hBook := mergeBook_bookBytes hHeld.keeps hSize
  have hMax : ((bookBytes m).length : Int) ≤ kint32max := by
    rw [kint32max]
    omega
  refine ⟨bookBytes m, serializeToArray_eq hSize (Int.le_refl _), hLength.symm, ?_, ?_, ?_⟩
  · intro limit hLimit
    rw [parseUnder_eq]
    exact parsePartialUnder_returns (by omega) hMax hBook
  · intro hFits
    rw [parseFromArray_eq]
    exact parsePartialFromArray_returns (by omega) hBook
  · intro hLong
    rw [parseFromArray_eq]
    exact parsePartialFromArray_refused (by omega)

theorem serializeToArray_total_phone :
    serializeToArray { people := [{ phones := [{ number := some [49] }] }] } 7 =
        (if 7 < (7 : Int) then .tooSmall else
          .fills (bookBytes { people := [{ phones := [{ number := some [49] }] }] })) ∧
      (bookBytes { people := [{ phones := [{ number := some [49] }] }] }).length = 7 :=
  serializeToArray_total (m := { people := [{ phones := [{ number := some [49] }] }] })
    (by decide) 7

theorem parse_serialize_phone : ∃ bytes,
    serializeToArray { people := [{ phones := [{ number := some [49] }] }] } 7 = .fills bytes ∧
      bytes.length = 7 ∧
      (∀ limit : Int, 7 ≤ limit → ∃ s, parseUnder limit bytes =
        .returns { people := [{ phones := [{ number := some [49] }] }] } s) ∧
      (7 ≤ kDefaultTotalBytesLimit → ∃ s, parseFromArray bytes =
        .returns { people := [{ phones := [{ number := some [49] }] }] } s) ∧
      (kDefaultTotalBytesLimit < 7 → (parseFromArray bytes).Refused) := by
  have hPerson := (Held.empty.access .addPeople).access (.mutablePeople 0 .addPhones)
  have hHeld := hPerson.access (.mutablePeople 0 (.mutablePhones 0 (.setNumber [49])))
  exact parse_serialize hHeld (by decide)

/-- Bytes behind those of `a` are merged into it. -/
def Appends (a : AddressBook) (parse : List UInt8 → Outcome AddressBook)
    (bytes data : List UInt8) : Prop :=
  (∃ s, parse data = .fails s ∧ ∃ s, parse (bytes ++ data) = .fails s) ∨
    ∃ b s, parse data = .returns b s ∧ ∃ s, parse (bytes ++ data) = .returns (a.mergeFrom b) s

theorem appends_of_book {a : AddressBook} {parse : List UInt8 → Outcome AddressBook}
    {bytes data : List UInt8} (hBook : book (bytes ++ data) = (book data).map a.mergeFrom)
    (hData : ∃ s, parse data = (book data).elim (.fails s) (.returns · s))
    (hAll : ∃ s, parse (bytes ++ data) =
      (book (bytes ++ data)).elim (.fails s) (.returns · s)) : Appends a parse bytes data := by
  rw [hBook] at hAll
  cases hMeaning : book data with
  | some b =>
    rw [hMeaning] at hData hAll
    obtain ⟨s, hEq⟩ := hData
    exact Or.inr ⟨b, s, hEq, hAll⟩
  | none =>
    rw [hMeaning] at hData hAll
    obtain ⟨s, hEq⟩ := hData
    exact Or.inl ⟨s, hEq, hAll⟩

theorem parse_append {a : AddressBook} (hHeld : a.Held) (hSize : a.byteSizeLong < 2 ^ 31)
    {bytes data : List UInt8} (hBytes : a.serializeToArray a.byteSizeLong = .fills bytes)
    (hLength : ((bytes ++ data).length : Int) ≤ kint32max) :
    (∀ limit : Int, ((bytes ++ data).length : Int) ≤ limit →
      Appends a (parseUnder limit) bytes data) ∧
    (((bytes ++ data).length : Int) ≤ kDefaultTotalBytesLimit →
      Appends a parseFromArray bytes data) ∧
    (kDefaultTotalBytesLimit < (bytes ++ data).length →
      (parseFromArray (bytes ++ data)).Refused) := by
  rw [serializeToArray_eq hSize (Int.le_refl _)] at hBytes
  cases hBytes
  have hLe : data.length ≤ (bookBytes a ++ data).length := by
    rw [List.length_append]
    omega
  have hBook : book (bookBytes a ++ data) = (book data).map a.mergeFrom := by
    have hMerged := mergeBook_mergeFrom 100 a {} data
    have hActs := bookBytes_acts hHeld.keeps hSize {} data
    rw [mergeFrom_empty] at hMerged
    rw [book, book, ← hMerged]
    exact hActs
  refine ⟨fun limit hLimit => ?_, fun hFits => ?_, fun hLong => ?_⟩
  · apply appends_of_book hBook <;> rw [parseUnder_eq] <;>
      exact parsePartialUnder_spec (by omega) (by omega)
  · apply appends_of_book hBook <;> rw [parseFromArray_eq] <;>
      exact parsePartialFromArray_spec (by omega) (by omega)
  · rw [parseFromArray_eq]
    exact parsePartialFromArray_refused hLong

theorem parse_append_person :
    (∀ limit : Int, 6 ≤ limit →
      Appends { people := [{}] } (parseUnder limit) [10, 0] [10, 2, 16, 1]) ∧
    (6 ≤ kDefaultTotalBytesLimit →
      Appends { people := [{}] } parseFromArray [10, 0] [10, 2, 16, 1]) ∧
    (kDefaultTotalBytesLimit < 6 → (parseFromArray ([10, 0] ++ [10, 2, 16, 1])).Refused) := by
  have hZero : Base128.encode 0 = [0] := Base128.encode_small (by decide)
  have hWritten : bookBytes { people := [{}] } = [10, 0] := by
    simp [bookBytes, personBytes, delimited, hZero]
  have hBytes : serializeToArray { people := [{}] } 2 = .fills [10, 0] := by
    rw [serializeToArray_eq (by decide) (by decide), hWritten]
  have hLength : (([10, 0] ++ [10, 2, 16, 1] : List UInt8).length : Int) ≤ kint32max := by decide
  exact parse_append (Held.empty.access .addPeople) (by decide) hBytes hLength

/-! ## Arrays cut short -/

end AddressBook

end AndroidDemo.Protobuf
