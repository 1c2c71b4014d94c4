import AndroidDemo.Java.Split
import Mathlib.Data.List.Lex

/-! # The order of strings without case

`compareToIgnoreCase` orders strings by the characters that are left when both
case mappings are applied. Different strings may be equal in this order.
-/

namespace AndroidDemo.Java

variable {cm : CaseMapping} {s t : JString}

/-- The mappings as they act on ASCII letters. -/
def asciiCase : CaseMapping where
  toUpperCase u := if 97 ≤ u.toNat ∧ u.toNat ≤ 122 then u - 32 else u
  toLowerCase u := if 65 ≤ u.toNat ∧ u.toNat ≤ 90 then u + 32 else u

def foldCase (cm : CaseMapping) (s : JString) : List Nat :=
  s.map fun c => (cm.toLowerCase (cm.toUpperCase c)).toNat

theorem compareToIgnoreCase_cons (cm : CaseMapping) (c d : UInt16) (s t : JString) :
    compareToIgnoreCase cm (c :: s) (d :: t) =
      let l1 := (cm.toLowerCase (cm.toUpperCase c)).toNat
      let l2 := (cm.toLowerCase (cm.toUpperCase d)).toNat
      if l1 = l2 then compareToIgnoreCase cm s t else (l1 : Int) - l2 := by
  have hUpper (h : cm.toLowerCase (cm.toUpperCase c) ≠ cm.toLowerCase (cm.toUpperCase d)) :
      c ≠ d ∧ cm.toUpperCase c ≠ cm.toUpperCase d :=
    ⟨fun hEq => h (hEq ▸ rfl), fun hEq => h (congrArg _ hEq)⟩
  simp only [compareToIgnoreCase, UInt16.toNat_inj]
  by_cases h : cm.toLowerCase (cm.toUpperCase c) = cm.toLowerCase (cm.toUpperCase d)
  · rw [if_pos h, if_neg fun hAll => hAll.2.2 h]
  · rw [if_neg h, if_pos ⟨(hUpper h).1, (hUpper h).2, h⟩]

theorem compareToIgnoreCase_pos :
    0 < compareToIgnoreCase cm s t ↔ foldCase cm t < foldCase cm s := by
  induction s generalizing t with
  | nil =>
    cases t with
    | nil => simp [compareToIgnoreCase, foldCase]
    | cons d t =>
      simp only [compareToIgnoreCase, foldCase, List.map_nil, List.not_lt_nil, iff_false,
        List.length_nil, List.length_cons]
      omega
  | cons c s ih =>
    cases t with
    | nil => simp [compareToIgnoreCase, foldCase]
    | cons d t =>
      simp only [foldCase, List.map_cons, List.cons_lt_cons_iff] at ih ⊢
      rw [compareToIgnoreCase_cons]
      dsimp only
      split
      · rename_i h
        rw [ih, h]
        simp
      · omega

theorem compareToIgnoreCase_nonpos :
    compareToIgnoreCase cm s t ≤ 0 ↔ foldCase cm s ≤ foldCase cm t := by
  rw [← Int.not_lt, compareToIgnoreCase_pos, not_lt]

theorem compareToIgnoreCase_eq_zero :
    compareToIgnoreCase cm s t = 0 ↔ foldCase cm s = foldCase cm t := by
  induction s generalizing t with
  | nil =>
    cases t with
    | nil => simp [compareToIgnoreCase, foldCase]
    | cons d t =>
      simp [compareToIgnoreCase, foldCase]
      omega
  | cons c s ih =>
    cases t with
    | nil =>
      simp [compareToIgnoreCase, foldCase]
      omega
    | cons d t =>
      simp only [foldCase, List.map_cons, List.cons.injEq] at ih ⊢
      rw [compareToIgnoreCase_cons]
      dsimp only
      split
      · rename_i h
        rw [ih, h]
        simp
      · omega

end AndroidDemo.Java
