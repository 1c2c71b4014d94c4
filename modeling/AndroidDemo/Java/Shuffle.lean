import Mathlib.Data.List.Perm.Basic

/-! # Random.nextInt and Collections.shuffle

`random n` is what the source of randomness holds for the bound `n`.
-/

namespace AndroidDemo.Java

variable {α β : Type} {random : Nat → Nat}

def nextInt (random : Nat → Nat) (bound : Nat) : Option Nat :=
  if bound = 0 then none else some (random bound % bound)

def swap (list : List α) (i j : Nat) : Option (List α) := do
  let x ← list[i]?
  let y ← list[j]?
  return (list.set i y).set j x

/-- The loop of `shuffle`, which counts from the size down to two. -/
def shuffleFrom (random : Nat → Nat) : Nat → List α → Option (List α)
  | 0, list | 1, list => some list
  | i + 2, list => do
    let j ← nextInt random (i + 2)
    let list ← swap list (i + 1) j
    shuffleFrom random (i + 1) list

def shuffle (random : Nat → Nat) (list : List α) : Option (List α) :=
  shuffleFrom random list.length list

theorem swap_perm {list list' : List α} {i j : Nat} (h : swap list i j = some list') :
    list'.Perm list := by
  simp only [swap, Option.bind_eq_bind, Option.bind_eq_some_iff, Option.pure_def,
    Option.some.injEq] at h
  obtain ⟨x, hx, y, hy, rfl⟩ := h
  obtain ⟨hi, rfl⟩ := List.getElem?_eq_some_iff.mp hx
  obtain ⟨hj, rfl⟩ := List.getElem?_eq_some_iff.mp hy
  exact List.set_set_perm hi hj

theorem shuffleFrom_perm {n : Nat} {list list' : List α}
    (h : shuffleFrom random n list = some list') : list'.Perm list := by
  fun_induction shuffleFrom random n list with
  | case1 list | case2 list =>
    cases h
    exact .refl _
  | case3 i list ih =>
    simp only [Option.bind_eq_bind, Option.bind_eq_some_iff] at h
    obtain ⟨j, _, swapped, hSwap, hRest⟩ := h
    exact (ih swapped hRest).trans (swap_perm hSwap)

theorem shuffle_perm {list list' : List α} (h : shuffle random list = some list') :
    list'.Perm list :=
  shuffleFrom_perm h

/-! ## Lists that are mapped -/

theorem swap_map (f : α → β) (list : List α) (i j : Nat) :
    swap (list.map f) i j = (swap list i j).map (List.map f) := by
  simp only [swap, List.getElem?_map]
  cases list[i]? with
  | none => rfl
  | some x =>
    cases list[j]? with
    | none => rfl
    | some y => simp [List.map_set]

theorem shuffleFrom_map (f : α → β) (n : Nat) (list : List α) :
    shuffleFrom random n (list.map f) = (shuffleFrom random n list).map (List.map f) := by
  fun_induction shuffleFrom random n list with
  | case1 list | case2 list => rfl
  | case3 i list ih =>
    rw [shuffleFrom]
    cases nextInt random (i + 2) with
    | none => rfl
    | some j =>
      simp only [Option.bind_eq_bind, Option.bind_some, swap_map]
      cases swap list (i + 1) j with
      | none => rfl
      | some swapped => exact ih swapped

theorem shuffle_map (f : α → β) (list : List α) :
    shuffle random (list.map f) = (shuffle random list).map (List.map f) := by
  rw [shuffle, List.length_map, shuffleFrom_map, shuffle]

end AndroidDemo.Java
