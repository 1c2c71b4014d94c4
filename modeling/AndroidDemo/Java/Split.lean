import AndroidDemo.Java.JString
import AndroidDemo.Words.Segments
import Mathlib.Data.List.DropRight

/-! # Cutting and comparing Java strings -/

namespace AndroidDemo.Java

def slash : UInt16 := 47

/-- `s.split("/")`, which drops empty strings at the end, and which returns `s`
itself when there is no slash in it. -/
def split (s : JString) : List JString :=
  if slash ∈ s then (s.splitOn slash).rdropWhile List.isEmpty else [s]

/-- The parts of a string between the slashes, empty ones included. -/
def segments (s : JString) : List JString := s.splitOn slash

theorem segments_inj {s t : JString} : segments s = segments t ↔ s = t :=
  Words.splitOn_inj

theorem split_eq_segments {s : JString} (h : [] ∉ segments s) : split s = segments s := by
  rw [split]
  split
  · refine List.rdropWhile_eq_self_iff.mpr fun hNe hEmpty => h ?_
    have hLast := List.getLast_mem hNe
    rwa [List.isEmpty_iff.mp hEmpty] at hLast
  · rename_i hSlash
    exact (List.splitOn_eq_singleton hSlash).symm

theorem ne_nil_of_segments {s : JString} (h : [] ∉ segments s) : s ≠ [] := by
  rintro rfl
  simp [segments] at h

/-- `Character.toUpperCase` and `Character.toLowerCase`. -/
structure CaseMapping where
  toUpperCase : UInt16 → UInt16
  toLowerCase : UInt16 → UInt16

def compareToIgnoreCase (cm : CaseMapping) : JString → JString → Int
  | c1 :: s1, c2 :: s2 =>
    let u1 := cm.toUpperCase c1
    let u2 := cm.toUpperCase c2
    let l1 := cm.toLowerCase u1
    let l2 := cm.toLowerCase u2
    if c1 ≠ c2 ∧ u1 ≠ u2 ∧ l1 ≠ l2 then (l1.toNat : Int) - l2.toNat
    else compareToIgnoreCase cm s1 s2
  | s1, s2 => (s1.length : Int) - s2.length

def elementAt {α : Type} (array : List α) (index : Nat) : Except RuntimeException α :=
  match array[index]? with
  | some a => .ok a
  | none => .error .arrayIndexOutOfBounds

theorem elementAt_eq_ok {α : Type} {array : List α} {index : Nat} {a : α} :
    elementAt array index = .ok a ↔ array[index]? = some a := by
  rw [elementAt]
  split <;> simp_all

end AndroidDemo.Java
