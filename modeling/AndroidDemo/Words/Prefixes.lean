import Mathlib.Data.List.Sort
import Mathlib.Data.Set.Finite.Basic
import Mathlib.Order.Preorder.Finite

/-! # Words, their prefixes, and the maximal words of a set -/

namespace AndroidDemo.Words

variable {α : Type*} {s : Set (List α)} {v w : List α}

/-- The words of the set that are no proper prefix of another one. -/
def IsMaximal (s : Set (List α)) (w : List α) : Prop :=
  w ∈ s ∧ ∀ v ∈ s, w <+: v → v = w

def prefixes (s : Set (List α)) : Set (List α) :=
  {v | ∃ w ∈ s, v <+: w}

def after (s : Set (List α)) (a : α) : Set (List α) :=
  {w | a :: w ∈ s}

@[simp] theorem mem_prefixes : v ∈ prefixes s ↔ ∃ w ∈ s, v <+: w := Iff.rfl

@[simp] theorem mem_after {a : α} : w ∈ after s a ↔ a :: w ∈ s := Iff.rfl

theorem subset_prefixes (s : Set (List α)) : s ⊆ prefixes s :=
  fun w hw => ⟨w, hw, List.prefix_rfl⟩

theorem prefixes_insert (s : Set (List α)) (w : List α) :
    prefixes (insert w s) = {v | v ∈ prefixes s ∨ v <+: w} := by
  ext v
  simp only [mem_prefixes, Set.exists_mem_insert, Set.mem_ofPred_eq, or_comm]

theorem isMaximal_prefixes : IsMaximal (prefixes s) w ↔ IsMaximal s w := by
  constructor
  · rintro ⟨⟨v, hv, hwv⟩, hMax⟩
    have hEq : v = w := hMax v (subset_prefixes s hv) hwv
    exact ⟨hEq ▸ hv, fun v hv => hMax v (subset_prefixes s hv)⟩
  · rintro ⟨hw, hMax⟩
    refine ⟨subset_prefixes s hw, ?_⟩
    rintro v ⟨x, hx, hvx⟩ hwv
    have hEq : x = w := hMax x hx (hwv.trans hvx)
    exact (hwv.eq_of_length_le (hEq ▸ hvx).length_le).symm

theorem isMaximal_nil : IsMaximal s [] ↔ [] ∈ s ∧ ∀ v ∈ s, v = [] :=
  and_congr_right fun _ => forall₂_congr fun _ _ => imp_iff_right List.nil_prefix

theorem isMaximal_cons {a : α} : IsMaximal s (a :: w) ↔ IsMaximal (after s a) w := by
  refine and_congr_right fun _ => ⟨fun h v hv hwv => ?_, fun h v hv hwv => ?_⟩
  · exact (List.cons.inj (h (a :: v) hv (List.cons_prefix_cons.mpr ⟨rfl, hwv⟩))).2
  · obtain ⟨x, rfl, hwx⟩ := List.cons_prefix_iff.mp hwv
    rw [h x hv hwx]

theorem exists_isMaximal (hs : s.Finite) (hv : v ∈ s) : ∃ w, IsMaximal s w ∧ v <+: w := by
  have hAbove : {w | w ∈ s ∧ v <+: w}.Finite := hs.subset fun w hw => hw.1
  obtain ⟨w, ⟨hw, hvw⟩, hLongest⟩ :=
    hAbove.exists_maximalFor List.length _ ⟨v, hv, List.prefix_rfl⟩
  refine ⟨w, ⟨hw, fun x hx hwx => ?_⟩, hvw⟩
  have hLe : x.length ≤ w.length := hLongest ⟨hx, hvw.trans hwx⟩ hwx.length_le
  exact (hwx.eq_of_length_le hLe).symm

/-- A finite set that is closed under prefixes is determined by its maximal words. -/
theorem eq_of_isMaximal {t : Set (List α)} (hs : s.Finite) (hsClosed : ∀ v ∈ s, ∀ p, p <+: v → p ∈ s)
    (ht : t.Finite) (htClosed : ∀ v ∈ t, ∀ p, p <+: v → p ∈ t)
    (h : ∀ w, IsMaximal s w ↔ IsMaximal t w) : s = t := by
  ext v
  constructor
  · intro hv
    obtain ⟨w, hMax, hvw⟩ := exists_isMaximal hs hv
    exact htClosed w ((h w).mp hMax).1 v hvw
  · intro hv
    obtain ⟨w, hMax, hvw⟩ := exists_isMaximal ht hv
    exact hsClosed w ((h w).mpr hMax).1 v hvw

theorem isMaximal_insert_nil :
    IsMaximal (insert [] s) w ↔ w ≠ [] ∧ IsMaximal s w ∨ w = [] ∧ ∀ v ∈ s, v = [] := by
  cases w with
  | nil => simp [isMaximal_nil]
  | cons a w =>
    have hAfter : after (insert [] s) a = after s a := by
      ext v
      simp
    simp [isMaximal_cons, hAfter]

theorem forall_eq_nil_iff (hs : s.Finite) :
    (∀ v ∈ s, v = []) ↔ ∀ v, ¬ (v ≠ [] ∧ IsMaximal s v) := by
  constructor
  · rintro hNil v ⟨hv, hMax⟩
    exact hv (hNil v hMax.1)
  · intro hNone v hv
    obtain ⟨w, hMax, hvw⟩ := exists_isMaximal hs hv
    have hw : w = [] := by_contra fun hw => hNone w ⟨hw, hMax⟩
    exact List.prefix_nil.mp (hw ▸ hvw)

/-! ## Where the words of a set part -/

def Branches (s : Set (List α)) (p : List α) : Prop :=
  ∃ a b, a ≠ b ∧ p ++ [a] ∈ s ∧ p ++ [b] ∈ s

/-- Above a prefix of `w` at which the set branches it branches everywhere. -/
def BranchesFromRoot (s : Set (List α)) (w : List α) : Prop :=
  ∀ p q, p <+: q → q <+: w → Branches s q → Branches s p

theorem branchesFromRoot_cons {a : α} (h : Branches s []) :
    BranchesFromRoot s (a :: w) ↔ BranchesFromRoot (after s a) w := by
  constructor
  · intro hRoot p q hpq hqw hq
    exact hRoot (a :: p) (a :: q) (List.cons_prefix_cons.mpr ⟨rfl, hpq⟩)
      (List.cons_prefix_cons.mpr ⟨rfl, hqw⟩) hq
  · intro hAfter p q hpq hqw hq
    cases p with
    | nil => exact h
    | cons b p =>
      obtain ⟨q, rfl, hTail⟩ := List.cons_prefix_iff.mp hpq
      obtain ⟨rfl, hBelow⟩ := List.cons_prefix_cons.mp hqw
      exact hAfter p q hTail hBelow hq

theorem branchesFromRoot_of_unbranched (h : ¬ Branches s []) :
    BranchesFromRoot s w ↔ ∀ q, q <+: w → ¬ Branches s q :=
  ⟨fun hRoot q hq hBranches => h (hRoot [] q List.nil_prefix hq hBranches),
    fun hNone _ q _ hq hBranches => absurd hBranches (hNone q hq)⟩

/-- Two words neither of which is a prefix of the other part somewhere. -/
theorem exists_parting (hvw : ¬ v <+: w) (hwv : ¬ w <+: v) :
    ∃ q a b, a ≠ b ∧ q ++ [a] <+: v ∧ q ++ [b] <+: w := by
  induction v generalizing w with
  | nil => exact absurd List.nil_prefix hvw
  | cons x v ih =>
    cases w with
    | nil => exact absurd List.nil_prefix hwv
    | cons y w =>
      by_cases hxy : x = y
      · subst hxy
        obtain ⟨q, a, b, hab, ha, hb⟩ := ih (w := w)
          (fun h => hvw (List.cons_prefix_cons.mpr ⟨rfl, h⟩))
          (fun h => hwv (List.cons_prefix_cons.mpr ⟨rfl, h⟩))
        exact ⟨x :: q, a, b, hab, List.cons_prefix_cons.mpr ⟨rfl, ha⟩,
          List.cons_prefix_cons.mpr ⟨rfl, hb⟩⟩
      · exact ⟨[], x, y, hxy, by simp, by simp⟩

theorem eq_of_snoc_prefixes {p : List α} {a b : α} (ha : p ++ [a] <+: w)
    (hb : p ++ [b] <+: w) : a = b := by
  have h := List.prefix_of_prefix_length_le ha hb (by simp)
  simpa using h

/-- A maximal word is the only one when no prefix of it branches. -/
theorem unbranched_iff (hs : s.Finite) (hClosed : ∀ v ∈ s, ∀ p, p <+: v → p ∈ s)
    (hw : IsMaximal s w) :
    (∀ q, q <+: w → ¬ Branches s q) ↔ ∀ v, IsMaximal s v → v = w := by
  constructor
  · intro hNone v hv
    by_contra hNe
    obtain ⟨q, a, b, hab, ha, hb⟩ := exists_parting (v := v) (w := w)
      (fun h => hNe (hv.2 w hw.1 h).symm) (fun h => hNe (hw.2 v hv.1 h))
    exact hNone q ((List.prefix_append _ _).trans hb) ⟨a, b, hab, hClosed v hv.1 _ ha, hClosed w hw.1 _ hb⟩
  · rintro hOnly q - ⟨a, b, hab, ha, hb⟩
    obtain ⟨v, hv, hav⟩ := exists_isMaximal hs ha
    obtain ⟨v', hv', hbv⟩ := exists_isMaximal hs hb
    rw [hOnly v hv] at hav
    rw [hOnly v' hv'] at hbv
    exact hab (eq_of_snoc_prefixes hav hbv)

end AndroidDemo.Words
