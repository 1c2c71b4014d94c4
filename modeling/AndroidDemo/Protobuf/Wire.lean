import AndroidDemo.Bytes.Base128
import AndroidDemo.Bytes.Readers
import AndroidDemo.Protobuf.AddressBook

/-! # The meaning of the bytes

What the parser is for, without streams, limits, buffers and fuel: readers on lists
of bytes that give a value and the bytes behind it. The depth is what is left of
the recursion budget.
-/

namespace AndroidDemo.Protobuf.Wire

open AndroidDemo.Base128
open AndroidDemo.Readers

def varint (bytes : List UInt8) : Option (Nat × List UInt8) := decode 10 bytes

/-- A tag is cut to 32 bits, and zero is none. -/
def tag (bytes : List UInt8) : Option (UInt32 × List UInt8) :=
  (varint bytes).bind fun (n, rest) =>
  if UInt32.ofNat n = 0 then none else some (UInt32.ofNat n, rest)

def fixed (size : Nat) (bytes : List UInt8) : Option (List UInt8 × List UInt8) :=
  if size ≤ bytes.length then some (bytes.take size, bytes.drop size) else none

/-- A length is cut to 32 bits and has to fit into an `int`. -/
def string (bytes : List UInt8) : Option (List UInt8 × List UInt8) :=
  (varint bytes).bind fun (n, rest) =>
  if n % 2 ^ 32 < 2 ^ 31 then fixed (n % 2 ^ 32) rest else none

/-- The bytes of a message. Its length is not cut, but it may reach beyond the end. -/
def message (bytes : List UInt8) : Option (List UInt8 × List UInt8) :=
  (varint bytes).bind fun (n, rest) =>
  if n % 2 ^ 64 < 2 ^ 31 then some (rest.take (n % 2 ^ 64), rest.drop (n % 2 ^ 64)) else none

/-! ## Unknown fields -/

def endTag (t : UInt32) : UInt32 := makeTag (getTagFieldNumber t) .endGroup

/-- What is kept of a field, its tag included. -/
def skipWith (group : List UInt8 → Option ((List UInt8 × UInt32) × List UInt8)) (t : UInt32)
    (bytes : List UInt8) : Option (List UInt8 × List UInt8) :=
  if getTagFieldNumber t = 0 then none
  else
    match getTagWireType t with
    | .varint => (varint bytes).map fun (n, rest) => (encode t.toNat ++ encode (n % 2 ^ 64), rest)
    | .fixed64 => (fixed 8 bytes).map fun (raw, rest) => (encode t.toNat ++ raw, rest)
    | .lengthDelimited =>
      (string bytes).map fun (raw, rest) => (encode t.toNat ++ (encode raw.length ++ raw), rest)
    | .startGroup =>
      (group bytes).bind fun ((raw, last), rest) =>
      if last = endTag t then some (encode t.toNat ++ raw, rest) else none
    | .fixed32 => (fixed 4 bytes).map fun (raw, rest) => (encode t.toNat ++ raw, rest)
    | .endGroup | .other => none

/-- A turn of a group, which ends behind the first end tag. -/
def groupTurn (skip : UInt32 → List UInt8 → Option (List UInt8 × List UInt8)) (kept : List UInt8)
    (bytes : List UInt8) : Option ((List UInt8 ⊕ (List UInt8 × UInt32)) × List UInt8) :=
  (tag bytes).bind fun (t, rest) =>
  if getTagWireType t = .endGroup then some (.inr (kept ++ encode t.toNat, t), rest)
  else (skip t rest).map fun (raw, rest) => (.inl (kept ++ raw), rest)

def skip : Nat → UInt32 → List UInt8 → Option (List UInt8 × List UInt8)
  | 0 => skipWith fun _ => none
  | depth + 1 => skipWith (upTo (groupTurn (skip depth)) [])

/-- The bytes of a group, where the depth allows one. -/
def group : Nat → List UInt8 → Option ((List UInt8 × UInt32) × List UInt8)
  | 0, _ => none
  | depth + 1, bytes => upTo (groupTurn (skip depth)) [] bytes

theorem skip_eq (depth : Nat) : skip depth = skipWith (group depth) := by
  cases depth <;> rfl

/-! ## Messages -/

/-- A turn of a message: the field behind a tag, or the bytes kept of an unknown one. -/
def turn {M : Type} (field : UInt32 → Option (M → List UInt8 → Option (M × List UInt8)))
    (addUnknown : M → List UInt8 → M) (depth : Nat) (m : M) (bytes : List UInt8) :
    Option (M × List UInt8) :=
  (tag bytes).bind fun (t, rest) =>
  match field t with
  | some read => read m rest
  | none => (skip depth t rest).map fun (raw, rest) => (addUnknown m raw, rest)

/-- A message inside another one, merged into an empty one. -/
def nested {M : Type} (parse : Nat → List UInt8 → Option M) :
    Nat → List UInt8 → Option (M × List UInt8)
  | 0, _ => none
  | depth + 1, bytes =>
    (message bytes).bind fun (body, rest) => (parse depth body).map fun m => (m, rest)

def phoneField (t : UInt32) :
    Option (PhoneNumber → List UInt8 → Option (PhoneNumber × List UInt8)) :=
  if t = 10 then some fun m bytes =>
    (string bytes).map fun (number, rest) => ({ m with number := some number }, rest)
  else if t = 16 then some fun m bytes =>
    (varint bytes).map fun (n, rest) => (m.takeType (UInt32.ofNat n).toInt32, rest)
  else none

def mergePhone (depth : Nat) (m : PhoneNumber) (bytes : List UInt8) : Option PhoneNumber :=
  toEnd (turn phoneField PhoneNumber.addUnknown depth) m bytes

def personField (depth : Nat) (t : UInt32) :
    Option (Person → List UInt8 → Option (Person × List UInt8)) :=
  if t = 10 then some fun m bytes =>
    (string bytes).map fun (name, rest) => ({ m with name := some name }, rest)
  else if t = 16 then some fun m bytes =>
    (varint bytes).map fun (n, rest) => ({ m with id := some (UInt32.ofNat n).toInt32 }, rest)
  else if t = 26 then some fun m bytes =>
    (string bytes).map fun (email, rest) => ({ m with email := some email }, rest)
  else if t = 34 then some fun m bytes =>
    (nested (mergePhone · {}) depth bytes).map fun (phone, rest) =>
    ({ m with phones := m.phones ++ [phone] }, rest)
  else none

def mergePerson (depth : Nat) (m : Person) (bytes : List UInt8) : Option Person :=
  toEnd (turn (personField depth) Person.addUnknown depth) m bytes

def bookField (depth : Nat) (t : UInt32) :
    Option (AddressBook → List UInt8 → Option (AddressBook × List UInt8)) :=
  if t = 10 then some fun m bytes =>
    (nested (mergePerson · {}) depth bytes).map fun (person, rest) =>
    ({ m with people := m.people ++ [person] }, rest)
  else none

def mergeBook (depth : Nat) (m : AddressBook) (bytes : List UInt8) : Option AddressBook :=
  toEnd (turn (bookField depth) AddressBook.addUnknown depth) m bytes

/-- A book from the bytes alone, at the full budget. -/
def book (bytes : List UInt8) : Option AddressBook := mergeBook 100 {} bytes

/-! ## What the readers accept -/

section Accepted

variable {bytes rest : List UInt8}

theorem tag_eq_some_iff {t : UInt32} :
    tag bytes = some (t, rest) ↔
      ∃ n, decode 10 bytes = some (n, rest) ∧ UInt32.ofNat n = t ∧ t ≠ 0 := by
  rw [tag, varint, Option.bind_eq_some_iff]
  constructor
  · rintro ⟨⟨n, left⟩, hDecode, hTag⟩
    rw [Option.ite_none_left_eq_some] at hTag
    obtain ⟨hNonzero, hEq⟩ := hTag
    cases hEq
    exact ⟨n, hDecode, rfl, hNonzero⟩
  · rintro ⟨n, hDecode, rfl, hNonzero⟩
    exact ⟨(n, rest), hDecode, if_neg hNonzero⟩

theorem fixed_eq_some_iff {size : Nat} {raw : List UInt8} :
    fixed size bytes = some (raw, rest) ↔ raw.length = size ∧ bytes = raw ++ rest := by
  rw [fixed, Option.ite_none_right_eq_some]
  constructor
  · rintro ⟨hSize, hEq⟩
    cases hEq
    exact ⟨List.length_take_of_le hSize, (List.take_append_drop size bytes).symm⟩
  · rintro ⟨rfl, rfl⟩
    rw [List.take_left, List.drop_left, List.length_append]
    exact ⟨Nat.le_add_right _ _, rfl⟩

theorem string_eq_some_iff {raw : List UInt8} :
    string bytes = some (raw, rest) ↔ ∃ n left, decode 10 bytes = some (n, left) ∧
      n % 2 ^ 32 < 2 ^ 31 ∧ raw.length = n % 2 ^ 32 ∧ left = raw ++ rest := by
  rw [string, varint, Option.bind_eq_some_iff]
  constructor
  · rintro ⟨⟨n, left⟩, hDecode, hFixed⟩
    rw [Option.ite_none_right_eq_some] at hFixed
    exact ⟨n, left, hDecode, hFixed.1, fixed_eq_some_iff.mp hFixed.2⟩
  · rintro ⟨n, left, hDecode, hSize, hFixed⟩
    refine ⟨(n, left), hDecode, ?_⟩
    rw [Option.ite_none_right_eq_some]
    exact ⟨hSize, fixed_eq_some_iff.mpr hFixed⟩

theorem message_eq_some_iff {body : List UInt8} :
    message bytes = some (body, rest) ↔ ∃ n left, decode 10 bytes = some (n, left) ∧
      n % 2 ^ 64 < 2 ^ 31 ∧ body = left.take (n % 2 ^ 64) ∧ rest = left.drop (n % 2 ^ 64) := by
  rw [message, varint, Option.bind_eq_some_iff]
  constructor
  · rintro ⟨⟨n, left⟩, hDecode, hBody⟩
    rw [Option.ite_none_right_eq_some] at hBody
    obtain ⟨hSize, hEq⟩ := hBody
    cases hEq
    exact ⟨n, left, hDecode, hSize, rfl, rfl⟩
  · rintro ⟨n, left, hDecode, hSize, rfl, rfl⟩
    refine ⟨(n, left), hDecode, ?_⟩
    rw [Option.ite_none_right_eq_some]
    exact ⟨hSize, rfl⟩

/-- A group that goes on has read a field, a group that stops an end tag. -/
theorem groupTurn_eq_some {skip : UInt32 → List UInt8 → Option (List UInt8 × List UInt8)}
    {kept : List UInt8} {next : List UInt8 ⊕ (List UInt8 × UInt32)}
    (h : groupTurn skip kept bytes = some (next, rest)) :
    ∃ t left, tag bytes = some (t, left) ∧
      (getTagWireType t = .endGroup ∧ next = .inr (kept ++ encode t.toNat, t) ∧ rest = left ∨
        getTagWireType t ≠ .endGroup ∧ ∃ raw, skip t left = some (raw, rest) ∧
          next = .inl (kept ++ raw)) := by
  obtain ⟨⟨t, left⟩, hTag, hTurn⟩ := Option.bind_eq_some_iff.mp h
  refine ⟨t, left, hTag, ?_⟩
  dsimp only at hTurn
  split at hTurn
  · rename_i hEnd
    cases hTurn
    exact Or.inl ⟨hEnd, rfl, rfl⟩
  · rename_i hEnd
    obtain ⟨⟨raw, left'⟩, hSkip, hEq⟩ := Option.map_eq_some_iff.mp hTurn
    cases hEq
    exact Or.inr ⟨hEnd, raw, hSkip, rfl⟩

end Accepted

end AndroidDemo.Protobuf.Wire
