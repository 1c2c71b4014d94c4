import AndroidDemo.Protobuf.BlockWrites
import AndroidDemo.Protobuf.KeptBytes

/-! # The stream of the unknown fields

The generated parsers do not append to the unknown fields of a message. They take
the string out, write to it through a stream, and put it back at the end. Here the
parsers do that, and give what appending gives.
-/

namespace AndroidDemo.Protobuf

open AndroidDemo.Blocks AndroidDemo.Socket

/-! ## Two parsers in step -/

/-- Both end alike, at the same place, with related results. -/
def Outcome.Rel {α β : Type} (R : α → β → Prop) : Outcome α → Outcome β → Prop
  | .returns a s, .returns b s' => s = s' ∧ R a b
  | .fails s, .fails s' => s = s'
  | .overrun, .overrun => True
  | .running, .running => True
  | _, _ => False

namespace Outcome

variable {α β α' β' : Type} {R : α → β → Prop} {R' : α' → β' → Prop}

theorem Rel.andThen {x : Outcome α} {y : Outcome β} {f : α → CodedInputStream → Outcome α'}
    {g : β → CodedInputStream → Outcome β'} (h : Rel R x y)
    (hNext : ∀ a b s, R a b → Rel R' (f a s) (g b s)) : Rel R' (x.andThen f) (y.andThen g) := by
  cases x <;> cases y <;> try exact h.elim
  · obtain ⟨rfl, hValues⟩ := h
    exact hNext _ _ _ hValues
  · exact h
  · trivial
  · trivial

/-- One call, used by both. -/
theorem Rel.same (x : Outcome α) {f : α → CodedInputStream → Outcome α'}
    {g : α → CodedInputStream → Outcome β'} (hNext : ∀ a s, Rel R' (f a s) (g a s)) :
    Rel R' (x.andThen f) (x.andThen g) := by
  cases x with
  | returns a s => exact hNext a s
  | fails s => rfl
  | overrun => trivial
  | running => trivial

theorem Rel.refl (x : Outcome α) : Rel Eq x x := by
  cases x with
  | returns a s => exact ⟨rfl, rfl⟩
  | fails s => rfl
  | overrun => trivial
  | running => trivial

/-- Repacking the result of one side. -/
theorem Rel.pack {x : Outcome α} {y : Outcome β} {Q : α' → β → Prop} {pack : α → α'}
    (h : Rel (fun a b => Q (pack a) b) x y) :
    Rel Q (x.andThen fun a s => .returns (pack a) s) y := by
  cases x <;> cases y <;> try exact h.elim
  · exact h
  · exact h
  · trivial
  · trivial

theorem Rel.eq {x y : Outcome α} {R : α → α → Prop} (h : Rel R x y)
    (hValues : ∀ a b s, y = .returns b s → R a b → a = b) : x = y := by
  cases x <;> cases y <;> try exact h.elim
  · obtain ⟨rfl, hRel⟩ := h
    rw [hValues _ _ _ rfl hRel]
  · rw [show _ = _ from h]
  · rfl
  · rfl

theorem Rel.mono {x : Outcome α} {y : Outcome β} {Q : α → β → Prop} (h : Rel R x y)
    (hWeak : ∀ a b, R a b → Q a b) : Rel Q x y := by
  cases x <;> cases y <;> try exact h.elim
  · exact ⟨h.1, hWeak _ _ h.2⟩
  · exact h
  · trivial
  · trivial

end Outcome

open CodedOutputStreamOver Outcome

section Skip

variable {σ : Type} (S : Sink UInt8 σ)

/-! ## Fields to skip -/

def skipFieldWithTo
    (skipMessage : CodedOutputStreamOver σ → CodedInputStream → Outcome (CodedOutputStreamOver σ))
    (tag : UInt32) (output : CodedOutputStreamOver σ) (s : CodedInputStream) :
    Outcome (CodedOutputStreamOver σ) :=
  if getTagFieldNumber tag = 0 then .fails s
  else
    match getTagWireType tag with
    | .varint =>
      (readVarint64 s).andThen fun value s =>
      .returns ((output.writeVarint32 S tag).writeVarint64 S value) s
    | .fixed64 =>
      (readLittleEndian 8 s).andThen fun value s =>
      .returns ((output.writeVarint32 S tag).writeLittleEndian S 8 value) s
    | .lengthDelimited =>
      (readVarint32 s).andThen fun length s =>
      let output := (output.writeVarint32 S tag).writeVarint32 S length
      (readString length.toInt32.toInt s).andThen fun temp s =>
      .returns (output.writeRaw S temp) s
    | .startGroup =>
      let output := output.writeVarint32 S tag
      let (within, s) := s.incrementRecursionDepth
      if within then
        (skipMessage output s).andThen fun output s =>
        let s := s.decrementRecursionDepth
        if s.lastTagWas (makeTag (getTagFieldNumber tag) .endGroup) then .returns output s
        else .fails s
      else .fails s
    | .endGroup => .fails s
    | .fixed32 =>
      (readLittleEndian 4 s).andThen fun value s =>
      .returns ((output.writeVarint32 S tag).writeLittleEndian S 4 value) s
    | .other => .fails s

def skipMessageTo : Nat → CodedOutputStreamOver σ → CodedInputStream →
    Outcome (CodedOutputStreamOver σ)
  | 0, _, _ => .running
  | fuel + 1, output, s =>
    (readTag s).andThen fun tag s =>
    if tag = 0 then .returns output s
    else if getTagWireType tag = .endGroup then .returns (output.writeVarint32 S tag) s
    else
      (skipFieldWithTo S (skipMessageTo fuel) tag output s).andThen fun output s =>
      skipMessageTo fuel output s

def skipFieldTo (fuel : Nat) (tag : UInt32) (output : CodedOutputStreamOver σ)
    (s : CodedInputStream) : Outcome (CodedOutputStreamOver σ) :=
  skipFieldWithTo S (skipMessageTo S fuel) tag output s

variable {S} {start : Nat} {output : CodedOutputStreamOver σ} {all : List UInt8}

theorem CodedOutputStreamOver.Given.writeVarint32 (h : Given S start output all) (value : UInt32) :
    Given S start (output.writeVarint32 S value) (all ++ writeVarint32ToArray value) := by
  rw [writeVarint32_eq, writeVarint32ToArray_eq]
  exact h.writeRaw _

theorem CodedOutputStreamOver.Given.writeVarint64 (h : Given S start output all) (value : UInt64) :
    Given S start (output.writeVarint64 S value) (all ++ writeVarint64ToArray value) := by
  rw [writeVarint64_eq, writeVarint64ToArray_eq]
  exact h.writeRaw _

theorem CodedOutputStreamOver.Given.writeLittleEndian (h : Given S start output all) (w : Nat)
    (value : BitVec (8 * w)) :
    Given S start (output.writeLittleEndian S w value) (all ++ storeInt w value) := by
  rw [writeLittleEndian_eq]
  exact h.writeRaw _

/-- The stream is given what is skipped. -/
abbrev Copied (S : Sink UInt8 σ) (start : Nat) (all : List UInt8)
    (output : CodedOutputStreamOver σ) (bytes : List UInt8) : Prop :=
  Given S start output (all ++ bytes)

theorem skipFieldWithTo_copied
    {skipTo : CodedOutputStreamOver σ → CodedInputStream → Outcome (CodedOutputStreamOver σ)}
    {skip : CodedInputStream → Outcome (List UInt8)}
    (hSkip : ∀ {output all} s, Given S start output all →
      Rel (Copied S start all) (skipTo output s) (skip s))
    (tag : UInt32) (h : Given S start output all) (s : CodedInputStream) :
    Rel (Copied S start all) (skipFieldWithTo S skipTo tag output s)
      (skipFieldWith skip tag s) := by
  rw [skipFieldWithTo, skipFieldWith]
  split
  · rfl
  · cases getTagWireType tag with
    | varint =>
      refine .same _ fun value s => ⟨rfl, ?_⟩
      rw [Copied, ← List.append_assoc]
      exact (h.writeVarint32 tag).writeVarint64 value
    | fixed64 =>
      refine .same _ fun value s => ⟨rfl, ?_⟩
      rw [Copied, ← List.append_assoc]
      exact (h.writeVarint32 tag).writeLittleEndian 8 value
    | lengthDelimited =>
      refine .same _ fun length s => .same _ fun temp s => ⟨rfl, ?_⟩
      rw [Copied, ← List.append_assoc, ← List.append_assoc]
      exact ((h.writeVarint32 tag).writeVarint32 length).writeRaw temp
    | startGroup =>
      dsimp only
      split
      · refine (hSkip _ (h.writeVarint32 tag)).andThen fun output bytes s hCopied => ?_
        split
        · refine ⟨rfl, ?_⟩
          rw [Copied, ← List.append_assoc]
          exact hCopied
        · rfl
      · rfl
    | endGroup => rfl
    | fixed32 =>
      refine .same _ fun value s => ⟨rfl, ?_⟩
      rw [Copied, ← List.append_assoc]
      exact (h.writeVarint32 tag).writeLittleEndian 4 value
    | other => rfl

/-- `bytes` have been skipped before. -/
theorem skipMessageTo_copied (fuel : Nat) {bytes : List UInt8}
    (h : Given S start output (all ++ bytes)) (s : CodedInputStream) :
    Rel (Copied S start all) (skipMessageTo S fuel output s) (skipMessage fuel bytes s) := by
  induction fuel generalizing output all bytes s with
  | zero => trivial
  | succ fuel ih =>
    rw [skipMessageTo, skipMessage]
    refine .same _ fun tag s => ?_
    split
    · exact ⟨rfl, h⟩
    · split
      · refine ⟨rfl, ?_⟩
        rw [Copied, ← List.append_assoc]
        exact h.writeVarint32 tag
      · have hField := skipFieldWithTo_copied
          (fun {output all} s hGiven => ih (by rwa [List.append_nil]) s) tag h s
        refine hField.andThen fun output more s hCopied => ih ?_ s
        rwa [Copied, List.append_assoc] at hCopied

theorem skipFieldTo_copied (fuel : Nat) (tag : UInt32) (h : Given S start output all)
    (s : CodedInputStream) :
    Rel (Copied S start all) (skipFieldTo S fuel tag output s) (skipField fuel tag s) :=
  skipFieldWithTo_copied (fun s hGiven => skipMessageTo_copied fuel (by rwa [List.append_nil]) s)
    tag h s

end Skip

/-! ## The loop over the fields -/

section Loop

variable {M σ : Type}

def mergeLoopTo (field : UInt32 → Option
      (M → CodedOutputStreamOver σ → CodedInputStream → Outcome (M × CodedOutputStreamOver σ)))
    (skip : UInt32 → CodedOutputStreamOver σ → CodedInputStream →
      Outcome (CodedOutputStreamOver σ)) :
    Nat → M → CodedOutputStreamOver σ → CodedInputStream → Outcome (M × CodedOutputStreamOver σ)
  | 0, _, _, _ => .running
  | fuel + 1, m, output, s =>
    (readTagWithCutoffNoLastTag 127 s).andThen fun (tag, below) s =>
    match if below then field tag else none with
    | some read =>
      (read m output s).andThen fun (m, output) s => mergeLoopTo field skip fuel m output s
    | none =>
      if tag = 0 then .returns (m, output) s
      else
        (skip tag output s).andThen fun output s =>
        mergeLoopTo field skip fuel m output s

/-- A field that leaves the unknown fields alone. -/
def keepStream (read : M → CodedInputStream → Outcome M) (m : M)
    (output : CodedOutputStreamOver σ) (s : CodedInputStream) :
    Outcome (M × CodedOutputStreamOver σ) :=
  (read m s).andThen fun m s => .returns (m, output) s

/-- A generated message around its unknown fields. `addUnknown` is how the parsers
without streams go on. -/
structure Unknowns (M : Type) where
  get : M → List UInt8
  set : M → List UInt8 → M
  addUnknown : M → List UInt8 → M
  set_set : ∀ m bytes bytes', set (set m bytes) bytes' = set m bytes'
  set_get : ∀ m, set m (get m) = m
  add_eq : ∀ m bytes, addUnknown m bytes = set m (get m ++ bytes)
  get_add : ∀ m bytes, get (addUnknown m bytes) = get m ++ bytes

/-- The unknown fields so far are in the stream, and the other fields agree as far
as the messages in them do. -/
structure Parsed (U : Unknowns M) (nested : M → Prop) (S : Sink UInt8 σ) (start : Nat)
    (p : M × CodedOutputStreamOver σ) (m' : M) : Prop where
  given : Given S start p.2 (U.get m')
  fields : nested m' → p.1 = U.set m' []

variable {S : Sink UInt8 σ} {start : Nat} {U : Unknowns M} {nested : M → Prop}

/-- One reader gives what the other one does with the message and the stream. -/
def ReadsAlike (U : Unknowns M) (nested : M → Prop) (S : Sink UInt8 σ) (start : Nat)
    (readTo : M → CodedOutputStreamOver σ → CodedInputStream →
      Outcome (M × CodedOutputStreamOver σ)) (read : M → CodedInputStream → Outcome M) : Prop :=
  ∀ m output m' s, Parsed U nested S start (m, output) m' →
    Rel (Parsed U nested S start) (readTo m output s) (read m' s)

theorem Parsed.addUnknown {m m' : M} {output output' : CodedOutputStreamOver σ}
    {bytes : List UInt8} (h : Parsed U nested S start (m, output) m')
    (hNested : nested (U.addUnknown m' bytes) → nested m')
    (hCopied : Copied S start (U.get m') output' bytes) :
    Parsed U nested S start (m, output') (U.addUnknown m' bytes) where
  given := by
    rw [U.get_add]
    exact hCopied
  fields hAll := by
    rw [U.add_eq, U.set_set]
    exact h.fields (hNested hAll)

theorem mergeLoopTo_parsed {fieldTo : UInt32 → Option
      (M → CodedOutputStreamOver σ → CodedInputStream → Outcome (M × CodedOutputStreamOver σ))}
    {field : UInt32 → Option (M → CodedInputStream → Outcome M)} (skipFuel : Nat)
    (hField : ∀ tag, Option.Rel (ReadsAlike U nested S start) (fieldTo tag) (field tag))
    (hNested : ∀ m bytes, nested (U.addUnknown m bytes) → nested m) (fuel : Nat) :
    ReadsAlike U nested S start (mergeLoopTo fieldTo (skipFieldTo S skipFuel) fuel)
      (mergeLoop field U.addUnknown (skipField skipFuel) fuel) := by
  induction fuel with
  | zero => exact fun _ _ _ _ _ => trivial
  | succ fuel ih =>
    intro m output m' s h
    rw [mergeLoopTo, mergeLoop]
    apply Rel.same
    rintro ⟨tag, below⟩ s
    have hUnusual : Rel (Parsed U nested S start)
        (if tag = 0 then .returns (m, output) s
          else (skipFieldTo S skipFuel tag output s).andThen fun output s =>
            mergeLoopTo fieldTo (skipFieldTo S skipFuel) fuel m output s)
        (if tag = 0 then .returns m' s
          else (skipField skipFuel tag s).andThen fun bytes s =>
            mergeLoop field U.addUnknown (skipField skipFuel) fuel (U.addUnknown m' bytes) s) := by
      split
      · exact ⟨rfl, h⟩
      · refine (skipFieldTo_copied skipFuel tag h.given s).andThen fun output bytes s hCopied => ?_
        exact ih m output _ s (h.addUnknown (hNested m' bytes) hCopied)
    cases below with
    | false => exact hUnusual
    | true =>
      have hAlike := hField tag
      simp only [if_true]
      revert hAlike
      cases fieldTo tag <;> cases field tag <;> rintro ⟨⟩
      · exact hUnusual
      · rename_i readTo read hAlike
        exact (hAlike m output m' s h).andThen fun q m' s hParsed => ih q.1 q.2 m' s hParsed

/-- A field is set to what two calls in step have read. -/
theorem keepStream_parsed {V : Type} {Q : V → V → Prop} {x y : CodedInputStream → Outcome V}
    (put : M → V → M) (hRead : ∀ s, Rel Q (x s) (y s))
    (hGet : ∀ m v, U.get (put m v) = U.get m)
    (hPut : ∀ m v v', Q v v' → nested (put m v') →
      nested m ∧ put (U.set m []) v = U.set (put m v') []) :
    ReadsAlike U nested S start
      (keepStream fun m s => (x s).andThen fun v s => .returns (put m v) s)
      (fun m s => (y s).andThen fun v s => .returns (put m v) s) := by
  intro m output m' s h
  have hBoth : Rel (fun a b => Parsed U nested S start (a, output) b)
      ((x s).andThen fun v s => .returns (put m v) s)
      ((y s).andThen fun v s => .returns (put m' v) s) := by
    refine (hRead s).andThen fun v v' s hValues => ⟨rfl, ?_, fun hAll => ?_⟩
    · rw [hGet]
      exact h.given
    · obtain ⟨hBefore, hSet⟩ := hPut m' v v' hValues hAll
      have hFields : m = U.set m' [] := h.fields hBefore
      rw [hFields]
      exact hSet
  exact hBoth.pack

/-! ## A message with its stream -/

/-- What a generated parser does around its loop: the string is taken out of the
message and put back when the stream is destroyed. -/
def throughStream (growth : Growth) (buffer : List UInt8 → StringOutputStream) (U : Unknowns M)
    (parse : M → CodedOutputStreamOver StringOutputStream → CodedInputStream →
      Outcome (M × CodedOutputStreamOver StringOutputStream))
    (m : M) (s : CodedInputStream) : Outcome M :=
  (parse (U.set m []) (.new (StringOutputStream.sink growth) (buffer (U.get m)) false) s).andThen
    fun (m, output) s =>
    match output.trim (StringOutputStream.sink growth) with
    | some output => .returns (U.set m output.output.target) s
    | none => .overrun

theorem throughStream_rel {growth : Growth} {buffer : List UInt8 → StringOutputStream}
    {parseTo : M → CodedOutputStreamOver StringOutputStream → CodedInputStream →
      Outcome (M × CodedOutputStreamOver StringOutputStream)}
    {parse : M → CodedInputStream → Outcome M}
    (hParse : ∀ start, ReadsAlike U nested (StringOutputStream.sink growth) start parseTo parse)
    (m : M) (hBuffer : (buffer (U.get m)).target = U.get m) (s : CodedInputStream) :
    Rel (fun a b => nested b → (U.get b).length ≤ 2 ^ 30 → a = b)
      (throughStream growth buffer U parseTo m s) (parse m s) := by
  have hNew : Given (StringOutputStream.sink growth) (U.get m).length
      (.new (StringOutputStream.sink growth) (buffer (U.get m)) false) (U.get m) := by
    have hGiven : Given (StringOutputStream.sink growth) (buffer (U.get m)).target.length
        (.new (StringOutputStream.sink growth) (buffer (U.get m)) false)
        (buffer (U.get m)).target := .inl (new_going (buffer (U.get m)) false)
    rwa [hBuffer] at hGiven
  have hStart : Parsed U nested (StringOutputStream.sink growth) (U.get m).length
      (U.set m [], .new (StringOutputStream.sink growth) (buffer (U.get m)) false) m :=
    ⟨hNew, fun _ => rfl⟩
  have hAlike := hParse _ _ _ _ s hStart
  rw [throughStream]
  cases hTo : parseTo (U.set m [])
      (.new (StringOutputStream.sink growth) (buffer (U.get m)) false) s <;>
    cases hOf : parse m s <;> rw [hTo, hOf] at hAlike <;> try exact hAlike.elim
  · rename_i p s' m' s''
    obtain ⟨rfl, hParsed⟩ := hAlike
    obtain ⟨output, hTrim, hDone⟩ := hParsed.given.trim
    simp only [Outcome.andThen, hTrim]
    refine ⟨rfl, fun hNested hSmall => ?_⟩
    rcases hDone with ⟨_, hTrimmed⟩ | ⟨_, n, hLimit, hn, _⟩
    · rw [hParsed.fields hNested, U.set_set]
      rw [show output.output.target = U.get m' from hTrimmed.memory, U.set_get]
    · simp only [StringOutputStream.sink, intMax] at hLimit
      omega
  · exact hAlike
  · trivial
  · trivial

theorem readMessage_rel {Q : M → M → Prop} {mergeTo merge : M → CodedInputStream → Outcome M}
    {value : M} (h : ∀ s, Rel Q (mergeTo value s) (merge value s)) (s : CodedInputStream) :
    Rel Q (readMessage mergeTo value s) (readMessage merge value s) := by
  rw [readMessage, readMessage]
  refine .same _ fun length s => ?_
  dsimp only
  split
  · rfl
  · refine (h _).andThen fun a b s hValues => ?_
    split
    · exact ⟨rfl, hValues⟩
    · rfl

end Loop

section Messages

variable (growth : Growth) (buffer : List UInt8 → StringOutputStream)

/-! ## The generated parsers -/

namespace PhoneNumber

def unknowns : Unknowns PhoneNumber where
  get := unknownFields
  set m bytes := { m with unknownFields := bytes }
  addUnknown := addUnknown
  set_set _ _ _ := rfl
  set_get _ := rfl
  add_eq _ _ := rfl
  get_add _ _ := rfl

def readTypeTo {σ : Type} (S : Sink UInt8 σ) (m : PhoneNumber) (output : CodedOutputStreamOver σ)
    (s : CodedInputStream) : Outcome (PhoneNumber × CodedOutputStreamOver σ) :=
  (readInt32 s).andThen fun value s =>
  match PhoneType.ofValue value with
  | some type => .returns ({ m with type := some type }, output) s
  | none => .returns (m, (output.writeVarint32 S 16).writeVarint32 S value.toUInt32) s

def fieldTo {σ : Type} (S : Sink UInt8 σ) (tag : UInt32) : Option (PhoneNumber →
    CodedOutputStreamOver σ → CodedInputStream → Outcome (PhoneNumber × CodedOutputStreamOver σ)) :=
  match (getTagFieldNumber tag).toNat with
  | 1 => if tag.toUInt8 = 10 then some (keepStream readNumber) else none
  | 2 => if tag.toUInt8 = 16 then some (readTypeTo S) else none
  | _ => none

def mergePartialFromCodedStreamTo (fuel : Nat) :
    PhoneNumber → CodedInputStream → Outcome PhoneNumber :=
  throughStream growth buffer unknowns
    (mergeLoopTo (fieldTo (StringOutputStream.sink growth))
      (skipFieldTo (StringOutputStream.sink growth) fuel) fuel)

end PhoneNumber

namespace Person

def unknowns : Unknowns Person where
  get := unknownFields
  set m bytes := { m with unknownFields := bytes }
  addUnknown := addUnknown
  set_set _ _ _ := rfl
  set_get _ := rfl
  add_eq _ _ := rfl
  get_add _ _ := rfl

def readPhoneTo (fuel : Nat) (m : Person) (s : CodedInputStream) : Outcome Person :=
  (readMessage (PhoneNumber.mergePartialFromCodedStreamTo growth buffer fuel) {} s).andThen
    fun phone s => .returns { m with phones := m.phones ++ [phone] } s

def fieldTo {σ : Type} (fuel : Nat) (tag : UInt32) : Option (Person →
    CodedOutputStreamOver σ → CodedInputStream → Outcome (Person × CodedOutputStreamOver σ)) :=
  match (getTagFieldNumber tag).toNat with
  | 1 => if tag.toUInt8 = 10 then some (keepStream readName) else none
  | 2 => if tag.toUInt8 = 16 then some (keepStream readId) else none
  | 3 => if tag.toUInt8 = 26 then some (keepStream readEmail) else none
  | 4 => if tag.toUInt8 = 34 then some (keepStream (readPhoneTo growth buffer fuel)) else none
  | _ => none

def mergePartialFromCodedStreamTo (fuel : Nat) : Person → CodedInputStream → Outcome Person :=
  throughStream growth buffer unknowns
    (mergeLoopTo (fieldTo growth buffer fuel)
      (skipFieldTo (StringOutputStream.sink growth) fuel) fuel)

end Person

namespace AddressBook

def unknowns : Unknowns AddressBook where
  get := unknownFields
  set m bytes := { m with unknownFields := bytes }
  addUnknown := addUnknown
  set_set _ _ _ := rfl
  set_get _ := rfl
  add_eq _ _ := rfl
  get_add _ _ := rfl

def readPersonTo (fuel : Nat) (m : AddressBook) (s : CodedInputStream) : Outcome AddressBook :=
  (readMessage (Person.mergePartialFromCodedStreamTo growth buffer fuel) {} s).andThen
    fun person s => .returns { m with people := m.people ++ [person] } s

def fieldTo {σ : Type} (fuel : Nat) (tag : UInt32) : Option (AddressBook →
    CodedOutputStreamOver σ → CodedInputStream → Outcome (AddressBook × CodedOutputStreamOver σ)) :=
  match (getTagFieldNumber tag).toNat with
  | 1 => if tag.toUInt8 = 10 then some (keepStream (readPersonTo growth buffer fuel)) else none
  | _ => none

def mergePartialFromCodedStreamTo (fuel : Nat) :
    AddressBook → CodedInputStream → Outcome AddressBook :=
  throughStream growth buffer unknowns
    (mergeLoopTo (fieldTo growth buffer fuel)
      (skipFieldTo (StringOutputStream.sink growth) fuel) fuel)

def parsePartialFromArrayTo (data : List UInt8) : Outcome AddressBook :=
  (mergePartialFromCodedStreamTo growth buffer (data.length + 1) {} (.ofArray data)).andConsumed

def parsePartialUnderTo (limit : Int) (data : List UInt8) : Outcome AddressBook :=
  (mergePartialFromCodedStreamTo growth buffer (data.length + 1) {}
    ((CodedInputStream.ofArray data).setTotalBytesLimit limit)).andConsumed

end AddressBook

/-! ## They give what appending gives -/

def PhoneNumber.Small (m : PhoneNumber) : Prop := m.unknownFields.length ≤ 2 ^ 30

def Person.Small (m : Person) : Prop :=
  (∀ phone ∈ m.phones, phone.Small) ∧ m.unknownFields.length ≤ 2 ^ 30

/-- No message in the book has more than a gigabyte of unknown fields. -/
def AddressBook.Small (m : AddressBook) : Prop :=
  (∀ person ∈ m.people, person.Small) ∧ m.unknownFields.length ≤ 2 ^ 30

variable {growth} {buffer}

theorem rel_ite {α β : Type} {R : α → β → Prop} {p : Prop} [Decidable p] {a : α} {b : β}
    (h : R a b) : Option.Rel R (if p then some a else none) (if p then some b else none) := by
  split
  · exact .some h
  · exact .none

theorem PhoneNumber.readNumber_alike (start : Nat) :
    ReadsAlike unknowns (fun _ => True) (StringOutputStream.sink growth) start
      (keepStream readNumber) readNumber := by
  refine keepStream_parsed (fun (m : PhoneNumber) number => { m with number := some number })
    (fun s => .refl (readBytesToString s)) (fun _ _ => rfl) ?_
  rintro m number _ rfl _
  exact ⟨trivial, rfl⟩

theorem PhoneNumber.readType_alike (start : Nat) :
    ReadsAlike unknowns (fun _ => True) (StringOutputStream.sink growth) start
      (readTypeTo (StringOutputStream.sink growth)) readType := by
  intro m output m' s h
  refine .same _ fun value s => ?_
  cases hValue : PhoneType.ofValue value with
  | some type =>
    have hTake : m'.takeType value = { m' with type := some type } := by rw [takeType, hValue]
    rw [hTake]
    refine ⟨rfl, h.given, fun _ => ?_⟩
    have hFields : m = unknowns.set m' [] := h.fields trivial
    rw [hFields]
    rfl
  | none =>
    have hTake : m'.takeType value =
        m'.addUnknown (writeVarint32ToArray 16 ++ writeVarint32ToArray value.toUInt32) := by
      rw [takeType, hValue]
    rw [hTake]
    refine ⟨rfl, h.addUnknown id ?_⟩
    rw [Copied, ← List.append_assoc]
    exact (h.given.writeVarint32 16).writeVarint32 value.toUInt32

theorem PhoneNumber.field_alike (start : Nat) (tag : UInt32) :
    Option.Rel (ReadsAlike unknowns (fun _ => True) (StringOutputStream.sink growth) start)
      (fieldTo (StringOutputStream.sink growth) tag) (field tag) := by
  rw [fieldTo, field]
  rcases (getTagFieldNumber tag).toNat with _ | _ | _ | number
  · exact .none
  · exact rel_ite (readNumber_alike start)
  · exact rel_ite (readType_alike start)
  · exact .none

/-- A phone read through a stream is the phone that is read without one. -/
theorem PhoneNumber.mergePartialFromCodedStreamTo_rel (fuel : Nat) (m : PhoneNumber)
    (hBuffer : (buffer m.unknownFields).target = m.unknownFields) (s : CodedInputStream) :
    Rel (fun a b => b.Small → a = b) (mergePartialFromCodedStreamTo growth buffer fuel m s)
      (mergePartialFromCodedStream fuel m s) := by
  have hParse : ∀ start, ReadsAlike unknowns (fun _ => True) (StringOutputStream.sink growth) start
      (mergeLoopTo (fieldTo (StringOutputStream.sink growth))
        (skipFieldTo (StringOutputStream.sink growth) fuel) fuel)
      (mergeLoop field addUnknown (skipField fuel) fuel) :=
    fun start => mergeLoopTo_parsed fuel (field_alike start) (fun _ _ _ => trivial) fuel
  exact (throughStream_rel hParse m hBuffer s).mono fun a b h hSmall => h trivial hSmall

theorem Person.set_alike {V : Type} {x : CodedInputStream → Outcome V} (put : Person → V → Person)
    (hGet : ∀ m v, (put m v).unknownFields = m.unknownFields)
    (hPhones : ∀ m v, (put m v).phones = m.phones)
    (hPut : ∀ m v, put (unknowns.set m []) v = unknowns.set (put m v) []) (start : Nat) :
    ReadsAlike unknowns (fun m => ∀ phone ∈ m.phones, phone.Small)
      (StringOutputStream.sink growth) start
      (keepStream fun m s => (x s).andThen fun v s => .returns (put m v) s)
      (fun m s => (x s).andThen fun v s => .returns (put m v) s) := by
  refine keepStream_parsed put (fun s => .refl (x s)) hGet ?_
  rintro m v _ rfl hSmall
  rw [hPhones] at hSmall
  exact ⟨hSmall, hPut m v⟩

theorem Person.readPhone_alike (hBuffer : (buffer []).target = []) (fuel start : Nat) :
    ReadsAlike unknowns (fun m => ∀ phone ∈ m.phones, phone.Small)
      (StringOutputStream.sink growth) start
      (keepStream (readPhoneTo growth buffer fuel)) (readPhone fuel) := by
  refine keepStream_parsed (fun (m : Person) phone => { m with phones := m.phones ++ [phone] })
    (readMessage_rel fun s => PhoneNumber.mergePartialFromCodedStreamTo_rel fuel {} hBuffer s)
    (fun _ _ => rfl) ?_
  intro m phone phone' hPhone hSmall
  have hLast : phone = phone' := hPhone (hSmall phone' (by simp))
  subst hLast
  exact ⟨fun other hOther => hSmall other (by simp [hOther]), rfl⟩

theorem Person.field_alike (hBuffer : (buffer []).target = []) (fuel start : Nat) (tag : UInt32) :
    Option.Rel (ReadsAlike unknowns (fun m => ∀ phone ∈ m.phones, phone.Small)
      (StringOutputStream.sink growth) start)
      (fieldTo growth buffer fuel tag) (field fuel tag) := by
  rw [fieldTo, field]
  rcases (getTagFieldNumber tag).toNat with _ | _ | _ | _ | _ | number
  · exact .none
  · exact rel_ite (set_alike (fun (m : Person) name => { m with name := some name })
      (fun _ _ => rfl)
      (fun _ _ => rfl) (fun _ _ => rfl) start)
  · exact rel_ite (set_alike (fun (m : Person) id => { m with id := some id }) (fun _ _ => rfl)
      (fun _ _ => rfl) (fun _ _ => rfl) start)
  · exact rel_ite (set_alike (fun (m : Person) email => { m with email := some email })
      (fun _ _ => rfl)
      (fun _ _ => rfl) (fun _ _ => rfl) start)
  · exact rel_ite (readPhone_alike hBuffer fuel start)
  · exact .none

theorem Person.mergePartialFromCodedStreamTo_rel (hNew : (buffer []).target = []) (fuel : Nat)
    (m : Person) (hBuffer : (buffer m.unknownFields).target = m.unknownFields)
    (s : CodedInputStream) :
    Rel (fun a b => b.Small → a = b) (mergePartialFromCodedStreamTo growth buffer fuel m s)
      (mergePartialFromCodedStream fuel m s) := by
  have hParse : ∀ start, ReadsAlike unknowns (fun m => ∀ phone ∈ m.phones, phone.Small)
      (StringOutputStream.sink growth) start
      (mergeLoopTo (fieldTo growth buffer fuel)
        (skipFieldTo (StringOutputStream.sink growth) fuel) fuel)
      (mergeLoop (field fuel) addUnknown (skipField fuel) fuel) :=
    fun start => mergeLoopTo_parsed fuel (field_alike hNew fuel start) (fun _ _ h => h) fuel
  exact (throughStream_rel hParse m hBuffer s).mono fun a b h hSmall => h hSmall.1 hSmall.2

theorem AddressBook.readPerson_alike (hBuffer : (buffer []).target = []) (fuel start : Nat) :
    ReadsAlike unknowns (fun m => ∀ person ∈ m.people, person.Small)
      (StringOutputStream.sink growth) start
      (keepStream (readPersonTo growth buffer fuel)) (readPerson fuel) := by
  refine keepStream_parsed
    (fun (m : AddressBook) person => { m with people := m.people ++ [person] })
    (readMessage_rel fun s => Person.mergePartialFromCodedStreamTo_rel hBuffer fuel {} hBuffer s)
    (fun _ _ => rfl) ?_
  intro m person person' hPerson hSmall
  have hLast : person = person' := hPerson (hSmall person' (by simp))
  subst hLast
  exact ⟨fun other hOther => hSmall other (by simp [hOther]), rfl⟩

theorem AddressBook.field_alike (hBuffer : (buffer []).target = []) (fuel start : Nat)
    (tag : UInt32) :
    Option.Rel (ReadsAlike unknowns (fun m => ∀ person ∈ m.people, person.Small)
      (StringOutputStream.sink growth) start)
      (fieldTo growth buffer fuel tag) (field fuel tag) := by
  rw [fieldTo, field]
  rcases (getTagFieldNumber tag).toNat with _ | _ | number
  · exact .none
  · exact rel_ite (readPerson_alike hBuffer fuel start)
  · exact .none

theorem AddressBook.mergePartialFromCodedStreamTo_rel (hNew : (buffer []).target = [])
    (fuel : Nat) (m : AddressBook) (hBuffer : (buffer m.unknownFields).target = m.unknownFields)
    (s : CodedInputStream) :
    Rel (fun a b => b.Small → a = b) (mergePartialFromCodedStreamTo growth buffer fuel m s)
      (mergePartialFromCodedStream fuel m s) := by
  have hParse : ∀ start, ReadsAlike unknowns (fun m => ∀ person ∈ m.people, person.Small)
      (StringOutputStream.sink growth) start
      (mergeLoopTo (fieldTo growth buffer fuel)
        (skipFieldTo (StringOutputStream.sink growth) fuel) fuel)
      (mergeLoop (field fuel) addUnknown (skipField fuel) fuel) :=
    fun start => mergeLoopTo_parsed fuel (field_alike hNew fuel start) (fun _ _ h => h) fuel
  exact (throughStream_rel hParse m hBuffer s).mono fun a b h hSmall => h hSmall.1 hSmall.2

/-! ## Arrays up to a gigabyte -/

theorem PhoneNumber.small_of_keptBytes {m : PhoneNumber} (h : m.keptBytes ≤ 2 ^ 30) : m.Small :=
  Nat.le_trans (Nat.le_add_left _ _) h

theorem Person.small_of_keptBytes {m : Person} (h : m.keptBytes ≤ 2 ^ 30) : m.Small := by
  rw [keptBytes] at h
  refine ⟨fun phone hPhone => PhoneNumber.small_of_keptBytes ?_, by omega⟩
  have hIn : phone.keptBytes + 2 ≤ (m.phones.map fun phone => phone.keptBytes + 2).sum :=
    List.le_sum_of_mem (List.mem_map_of_mem hPhone)
  omega

theorem AddressBook.small_of_keptBytes {m : AddressBook} (h : m.keptBytes ≤ 2 ^ 30) : m.Small := by
  rw [keptBytes] at h
  refine ⟨fun person hPerson => Person.small_of_keptBytes ?_, by omega⟩
  have hIn : person.keptBytes + 2 ≤ (m.people.map fun person => person.keptBytes + 2).sum :=
    List.le_sum_of_mem (List.mem_map_of_mem hPerson)
  omega

theorem AddressBook.andConsumed_rel (hNew : (buffer []).target = []) (fuel : Nat)
    (s : CodedInputStream) :
    Rel (fun a b => b.Small → a = b)
      (mergePartialFromCodedStreamTo growth buffer fuel {} s).andConsumed
      (parsePartialFromCodedStream fuel s).andConsumed := by
  refine (mergePartialFromCodedStreamTo_rel hNew _ {} hNew _).andThen fun a b s h => ?_
  split
  · exact ⟨rfl, h⟩
  · rfl

/-- The parser that takes every string of unknown fields out of its message, writes to it through
a stream and puts it back: however the strings grow, it is the parser that appends to them. Beyond
a gigabyte a string can be too long to be doubled. -/
theorem AddressBook.parsePartialFromArrayTo_eq (growth : Growth)
    (buffer : List UInt8 → StringOutputStream) (hNew : (buffer []).target = [])
    (data : List UInt8) (hLength : data.length ≤ 2 ^ 30) :
    parsePartialFromArrayTo growth buffer data = parsePartialFromArray data ∧
      ∀ limit, parsePartialUnderTo growth buffer limit data = parsePartialUnder limit data := by
  have hMax : (data.length : Int) ≤ kint32max := by
    rw [kint32max]
    omega
  have hSmall {b : AddressBook} (hBook : Wire.book data = some b) : b.Small :=
    small_of_keptBytes (Nat.le_trans (book_keptBytes hBook) hLength)
  refine ⟨(andConsumed_rel hNew _ _).eq fun a b s hReturns hSame => ?_, fun limit =>
    (andConsumed_rel hNew _ _).eq fun a b s hReturns hSame => ?_⟩
  · exact hSame (hSmall (book_of_parsePartialFromArray hMax hReturns))
  · exact hSame (hSmall (book_of_parsePartialUnder hMax hReturns))

/-- A book of one person, whose field 9 is not known, with strings of fifteen bytes at first. -/
theorem AddressBook.parsePartialFromArrayTo_eq_person :
    parsePartialFromArrayTo ⟨id, fun _ => Nat.le_refl _, fun _ => id⟩
          (fun _ => ⟨[], 15, by decide, by decide⟩) [10, 2, 72, 5] =
        parsePartialFromArray [10, 2, 72, 5] ∧
      ∀ limit, parsePartialUnderTo ⟨id, fun _ => Nat.le_refl _, fun _ => id⟩
          (fun _ => ⟨[], 15, by decide, by decide⟩) limit [10, 2, 72, 5] =
        parsePartialUnder limit [10, 2, 72, 5] :=
  parsePartialFromArrayTo_eq _ _ rfl _ (by decide)

end Messages

end AndroidDemo.Protobuf
