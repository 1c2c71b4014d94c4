import AndroidDemo.Util.TriePaths

/-! # What a call of `addNode` leaves behind

The characters are checked one by one, on the way down. A call that throws has
already added the letters it has passed.
-/

namespace AndroidDemo.Util

open AndroidDemo.Java

theorem isLetter_iff {u : UInt16} : IsLetter u ↔ (childIndex u).isSome = true := by
  constructor
  · intro h
    obtain ⟨i, hi⟩ := exists_childIndex h
    rw [hi]
    rfl
  · intro h
    obtain ⟨i, hi⟩ := Option.isSome_iff_exists.mp h
    have hNat := toNat_of_childIndex hi
    exact ⟨by omega, by omega⟩

namespace Trie

open Node

/-- The word up to its first character that is not a letter. -/
def letters (word : JString) : JString := word.takeWhile fun u => (childIndex u).isSome

/-- The trie after calls of `addNode`, whether they return or throw. -/
def addCalls (root : Node) (words : List JString) : Node :=
  words.foldl (fun root word => (addNode root word).1) root

theorem isLetter_of_mem_letters {word : JString} : ∀ u ∈ letters word, IsLetter u := by
  intro u hu
  have hAll : (letters word).all fun u => (childIndex u).isSome := List.all_takeWhile
  exact isLetter_iff.mpr (List.all_eq_true.mp hAll u hu)

theorem addNode_isNull {root : Node} (hRoot : root.isNull = false) (word : JString) :
    (addNode root word).1.isNull = false := by
  cases root with
  | null => cases hRoot
  | node c childNodes =>
    cases word with
    | nil => rfl
    | cons u word =>
      rw [addNode]
      split <;> rfl

theorem addCalls_isNull {root : Node} (hRoot : root.isNull = false) (words : List JString) :
    (addCalls root words).isNull = false := by
  induction words generalizing root with
  | nil => exact hRoot
  | cons word words ih => exact ih (addNode_isNull hRoot word)

/-- A word with another character is added up to it. -/
theorem addNode_letters {root : Node} {word : JString} (hRoot : root.isNull = false)
    (hBad : ∃ u ∈ word, ¬ IsLetter u) :
    addNode root word = ((addNode root (letters word)).1, some .arrayIndexOutOfBounds) := by
  induction word generalizing root with
  | nil =>
    obtain ⟨u, hu, _⟩ := hBad
    cases hu
  | cons u word ih =>
    cases root with
    | null => cases hRoot
    | node c childNodes =>
      cases hu : childIndex u with
      | none =>
        have hLetters : letters (u :: word) = [] := by simp [letters, hu]
        rw [hLetters]
        simp only [addNode, hu]
      | some i =>
        have hLetters : letters (u :: word) = u :: letters word := by simp [letters, hu]
        have hLetter : IsLetter u := isLetter_iff.mpr (by rw [hu]; rfl)
        have hRest : ∃ v ∈ word, ¬ IsLetter v := by
          obtain ⟨v, hv, hNot⟩ := hBad
          rcases List.mem_cons.mp hv with rfl | hv
          · exact absurd hLetter hNot
          · exact ⟨v, hv, hNot⟩
        have hChild : ((childNodes i).orNew u).isNull = false :=
          isPath_nil.mp (isPath_orNew.mpr (.inr rfl))
        rw [hLetters]
        simp only [addNode, hu, ih hChild hRest]

theorem addNode_of_isPath {root : Node} {word : JString} (h : root.IsPath word) :
    (addNode root word).1 = root := by
  induction word generalizing root with
  | nil => cases root <;> rfl
  | cons u word ih =>
    cases root with
    | null => cases h
    | node c childNodes =>
      cases hu : childIndex u with
      | none => simp [IsPath, hu] at h
      | some i =>
        rw [isPath_cons hu] at h
        have hOld : (childNodes i).orNew u = childNodes i := by
          cases hNode : childNodes i with
          | null => simp [hNode, IsPath] at h
          | node d grandChildren => rfl
        have hSame : (addNode ((childNodes i).orNew u) word).1 = childNodes i := by
          rw [hOld, ih h]
        simp only [addNode, hu, hSame, Function.update_eq_self]

theorem addNode_eq_self_iff {root : Node} {word : JString} (hRoot : root.isNull = false)
    (hWord : ∀ u ∈ word, IsLetter u) : (addNode root word).1 = root ↔ root.IsPath word := by
  obtain ⟨root', hAdd, hAdded⟩ := addNode_added hRoot hWord
  constructor
  · intro hSame
    rw [hAdd] at hSame
    obtain rfl : root' = root := hSame
    exact (hAdded.paths word).mpr (.inr List.prefix_rfl)
  · exact addNode_of_isPath

/-- After any calls, `addNode` either returns and has added the prefixes of the
word, or throws and has added the prefixes of the letters before the first other
character. In the second case the trie is the old one only when these letters
were a path of it. -/
theorem addNode_outcome (r : UInt16) (words : List JString) (word : JString) :
    ((∀ u ∈ word, IsLetter u) ∧ (addNode (addCalls (.new r) words) word).2 = none ∧
      ∀ v, (addNode (addCalls (.new r) words) word).1.IsPath v ↔
        (addCalls (.new r) words).IsPath v ∨ v <+: word) ∨
    ((∃ u ∈ word, ¬ IsLetter u) ∧
      (addNode (addCalls (.new r) words) word).2 = some .arrayIndexOutOfBounds ∧
      (∀ v, (addNode (addCalls (.new r) words) word).1.IsPath v ↔
        (addCalls (.new r) words).IsPath v ∨ v <+: letters word) ∧
      ((addNode (addCalls (.new r) words) word).1 = addCalls (.new r) words ↔
        (addCalls (.new r) words).IsPath (letters word))) := by
  have hRoot : (addCalls (.new r) words).isNull = false := addCalls_isNull rfl words
  generalize addCalls (.new r) words = root at hRoot ⊢
  by_cases hWord : ∀ u ∈ word, IsLetter u
  · obtain ⟨root', hAdd, hAdded⟩ := addNode_added hRoot hWord
    rw [hAdd]
    exact .inl ⟨hWord, rfl, hAdded.paths⟩
  · have hBad : ∃ u ∈ word, ¬ IsLetter u := by
      simpa only [not_forall, exists_prop] using hWord
    have hLetters : ∀ u ∈ letters word, IsLetter u := isLetter_of_mem_letters
    obtain ⟨root', hAdd, hAdded⟩ := addNode_added hRoot hLetters
    have hSelf := addNode_eq_self_iff hRoot hLetters
    rw [addNode_letters hRoot hBad]
    rw [hAdd] at hSelf ⊢
    exact .inr ⟨hBad, rfl, hAdded.paths, hSelf⟩

/-- "aB" leaves an "a" behind when it throws. -/
theorem addNode_not_atomic :
    ¬ ∀ (r : UInt16) (words : List JString) (word : JString),
      ((addNode (addCalls (.new r) words) word).2 = none ∧
        ∀ v, (addNode (addCalls (.new r) words) word).1.IsPath v ↔
          (addCalls (.new r) words).IsPath v ∨ v <+: word) ∨
      ((∃ u ∈ word, ¬ IsLetter u) ∧
        (addNode (addCalls (.new r) words) word).2 ≠ none ∧
        (addNode (addCalls (.new r) words) word).1 = addCalls (.new r) words) := by
  intro hAll
  have hBad : ∃ u ∈ ([97, 66] : JString), ¬ IsLetter u := ⟨66, by simp, by simp [IsLetter]⟩
  have hLetters : letters [97, 66] = [97] := by decide
  have hThrows : addNode (.new 32) [97, 66] =
      ((addNode (.new 32) (letters [97, 66])).1, some .arrayIndexOutOfBounds) :=
    addNode_letters rfl hBad
  rw [hLetters] at hThrows
  rcases hAll 32 [] [97, 66] with ⟨hReturns, _⟩ | ⟨_, _, hSame⟩
  · have hReturns : (addNode (.new 32) [97, 66]).2 = none := hReturns
    rw [hThrows] at hReturns
    cases hReturns
  · have hSame : (addNode (.new 32) [97, 66]).1 = .new 32 := hSame
    rw [hThrows] at hSame
    have hPath := (addNode_eq_self_iff rfl (by simp [IsLetter])).mp hSame
    cases isPath_new.mp hPath

end Trie

end AndroidDemo.Util
