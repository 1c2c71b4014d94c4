import AndroidDemo.Protobuf.RoundTrip

/-! # The accessors

The setters of addressbook.pb.h, and the books that a program can hold: made by
the setters from an empty or a parsed one, or merged from two. None of the setters
touches the unknown fields.
-/

namespace AndroidDemo.Protobuf

variable {depth : Nat}

theorem forall_mem_modify {α : Type} {P : α → Prop} {f : α → α} {xs : List α} {i : Nat}
    (h : ∀ x ∈ xs, P x) (hf : ∀ x, P x → P (f x)) : ∀ x ∈ xs.modify i f, P x := by
  intro x hx
  obtain ⟨j, hj, rfl⟩ := List.mem_iff_getElem.mp hx
  rw [List.getElem_modify]
  split
  · exact hf _ (h _ (List.getElem_mem _))
  · exact h _ (List.getElem_mem _)

namespace PhoneNumber

inductive Accessor
  | setNumber (value : List UInt8)
  | clearNumber
  | setType (value : PhoneType)
  | clearType

def access (m : PhoneNumber) : Accessor → PhoneNumber
  | .setNumber value => { m with number := some value }
  | .clearNumber => { m with number := none }
  | .setType value => { m with type := some value }
  | .clearType => { m with type := none }

theorem access_keeps {m : PhoneNumber} (hKeeps : m.Keeps depth) (accessor : Accessor) :
    (m.access accessor).Keeps depth := by
  cases accessor <;> exact hKeeps

end PhoneNumber

namespace Person

inductive Accessor
  | setName (value : List UInt8)
  | clearName
  | setId (value : Int32)
  | clearId
  | setEmail (value : List UInt8)
  | clearEmail
  | addPhones
  | mutablePhones (index : Nat) (accessor : PhoneNumber.Accessor)
  | clearPhones

def access (m : Person) : Accessor → Person
  | .setName value => { m with name := some value }
  | .clearName => { m with name := none }
  | .setId value => { m with id := some value }
  | .clearId => { m with id := none }
  | .setEmail value => { m with email := some value }
  | .clearEmail => { m with email := none }
  | .addPhones => { m with phones := m.phones ++ [{}] }
  | .mutablePhones index accessor => { m with phones := m.phones.modify index (·.access accessor) }
  | .clearPhones => { m with phones := [] }

theorem access_keeps {m : Person} (hKeeps : m.Keeps (depth + 1)) (accessor : Accessor) :
    (m.access accessor).Keeps (depth + 1) where
  unknownFields := by cases accessor <;> exact hKeeps.unknownFields
  phones := by
    cases accessor with
    | addPhones =>
      intro phone hPhone
      rcases List.mem_append.mp hPhone with hOld | hNew
      · exact hKeeps.phones phone hOld
      · cases List.mem_singleton.mp hNew
        exact ⟨depth, rfl, PhoneNumber.empty_keeps⟩
    | mutablePhones index accessor =>
      refine forall_mem_modify hKeeps.phones fun phone ⟨inner, hInner, hPhone⟩ => ?_
      exact ⟨inner, hInner, PhoneNumber.access_keeps hPhone accessor⟩
    | clearPhones => exact fun _ hNone => nomatch hNone
    | _ => exact hKeeps.phones

end Person

namespace AddressBook

/-- The index of `mutable_people` is one of the list, as in `mutable_phones`. -/
inductive Accessor
  | addPeople
  | mutablePeople (index : Nat) (accessor : Person.Accessor)
  | clearPeople

def access (m : AddressBook) : Accessor → AddressBook
  | .addPeople => { m with people := m.people ++ [{}] }
  | .mutablePeople index accessor => { m with people := m.people.modify index (·.access accessor) }
  | .clearPeople => { m with people := [] }

theorem access_keeps {m : AddressBook} (hKeeps : m.Keeps (depth + 2)) (accessor : Accessor) :
    (m.access accessor).Keeps (depth + 2) where
  unknownFields := by cases accessor <;> exact hKeeps.unknownFields
  people := by
    cases accessor with
    | addPeople =>
      intro person hPerson
      rcases List.mem_append.mp hPerson with hOld | hNew
      · exact hKeeps.people person hOld
      · cases List.mem_singleton.mp hNew
        exact ⟨depth + 1, rfl, Person.empty_keeps⟩
    | mutablePeople index accessor =>
      refine forall_mem_modify hKeeps.people fun person ⟨inner, hInner, hPerson⟩ => ?_
      cases hInner
      exact ⟨depth + 1, rfl, Person.access_keeps hPerson accessor⟩
    | clearPeople => exact fun _ hNone => nomatch hNone

theorem mergeFrom_keeps {m from' : AddressBook} (hKeeps : m.Keeps depth)
    (hFrom : from'.Keeps depth) : (m.mergeFrom from').Keeps depth where
  unknownFields := by
    have hBoth := hKeeps.unknownFields.append hFrom.unknownFields
    simpa only [mergeFrom, addUnknown, Function.comp_def, List.append_assoc] using hBoth
  people := fun person hPerson =>
    (List.mem_append.mp hPerson).elim (hKeeps.people person) (hFrom.people person)

/-- What a program can hold, an assignment between two messages being one of `MergeFrom` into an
empty one. -/
inductive Held : AddressBook → Prop
  | empty : Held {}
  | parsed {data : List UInt8} {m : AddressBook} {s : CodedInputStream}
      (hLength : (data.length : Int) ≤ kint32max) (h : parsePartialFromArray data = .returns m s) :
      Held m
  | parsedUnder {data : List UInt8} {limit : Int} {m : AddressBook} {s : CodedInputStream}
      (hLength : (data.length : Int) ≤ kint32max) (h : parsePartialUnder limit data = .returns m s) :
      Held m
  | access {m : AddressBook} (h : Held m) (accessor : Accessor) : Held (m.access accessor)
  | mergeFrom {m from' : AddressBook} (h : Held m) (hFrom : Held from') : Held (m.mergeFrom from')

theorem Held.keeps {m : AddressBook} (h : Held m) : m.Keeps 100 := by
  induction h with
  | empty => exact empty_keeps
  | parsed hLength h =>
    have hBook := book_of_parsePartialFromArray hLength h
    exact mergeBook_keeps empty_keeps hBook
  | parsedUnder hLength h =>
    have hBook := book_of_parsePartialUnder hLength h
    exact mergeBook_keeps empty_keeps hBook
  | access _ accessor ih => exact access_keeps ih accessor
  | mergeFrom _ _ ih ihFrom => exact mergeFrom_keeps ih ihFrom

end AddressBook

end AndroidDemo.Protobuf
