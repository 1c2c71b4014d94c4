import Mathlib.Data.List.Basic

/-! # Words cut at a separator

`List.splitOn` gives the segments of a word. A word may have another one as a
prefix by its segments, or only by its letters.
-/

namespace AndroidDemo.Words

variable {α : Type*} {sep : α} {p t w : List α}

theorem intercalate_append {xs ys : List (List α)} (hxs : xs ≠ []) (hys : ys ≠ []) :
    [sep].intercalate (xs ++ ys) = [sep].intercalate xs ++ sep :: [sep].intercalate ys := by
  induction xs with
  | nil => exact absurd rfl hxs
  | cons x xs ih =>
    cases xs with
    | nil => simp [List.intercalate_cons_of_ne_nil hys]
    | cons x' xs =>
      have hCons : x' :: xs ≠ [] := List.cons_ne_nil _ _
      rw [List.cons_append, List.intercalate_cons_of_ne_nil (by simp), ih hCons,
        List.intercalate_cons_of_ne_nil hCons]
      simp only [List.append_assoc]

theorem prefix_append_of_getElem? {xs ys : List α} {a : α} (h : xs <+: ys)
    (ha : ys[xs.length]? = some a) : xs ++ [a] <+: ys := by
  obtain ⟨zs, rfl⟩ := h
  cases zs with
  | nil => simp at ha
  | cons z zs =>
    have hz : z = a := by simpa using ha
    exact ⟨zs, by simp [hz]⟩

theorem getElem?_of_prefix_append {xs ys : List α} {a : α} (h : xs ++ [a] <+: ys) :
    ys[xs.length]? = some a := by
  obtain ⟨zs, rfl⟩ := h
  simp

variable [BEq α] [LawfulBEq α]

theorem splitOn_inj {v w : List α} : v.splitOn sep = w.splitOn sep ↔ v = w := by
  refine ⟨fun h => ?_, congrArg _⟩
  have hBack := congrArg [sep].intercalate h
  rwa [List.intercalate_splitOn, List.intercalate_splitOn] at hBack

theorem splitOn_prefix_iff : p.splitOn sep <+: w.splitOn sep ↔ p = w ∨ p ++ [sep] <+: w := by
  constructor
  · rintro ⟨rest, hRest⟩
    rcases eq_or_ne rest [] with rfl | hNe
    · exact .inl (splitOn_inj.mp (by simpa using hRest))
    · refine .inr ⟨[sep].intercalate rest, ?_⟩
      have hBack := congrArg [sep].intercalate hRest
      rw [intercalate_append (List.splitOn_ne_nil _ _) hNe, List.intercalate_splitOn,
        List.intercalate_splitOn] at hBack
      rw [← hBack, List.append_assoc, List.singleton_append]
  · rintro (rfl | ⟨rest, rfl⟩)
    · exact List.prefix_rfl
    · rw [List.append_assoc, List.singleton_append, List.splitOn_append_cons_self]
      exact List.prefix_append _ _

theorem prefix_of_splitOn_prefix (h : p.splitOn sep <+: w.splitOn sep) : p <+: w := by
  rcases splitOn_prefix_iff.mp h with rfl | h
  · exact List.prefix_rfl
  · exact (List.prefix_append _ _).trans h

theorem sep_notMem_of_mem_splitOn (h : t ∈ w.splitOn sep) : sep ∉ t := by
  induction w generalizing t with
  | nil => simp_all
  | cons a w ih =>
    rw [List.splitOn_cons_eq_if_modifyHead] at h
    split at h
    · rcases List.mem_cons.mp h with rfl | h
      · simp
      · exact ih h
    · rename_i ha
      cases hSplit : w.splitOn sep with
      | nil => simp at hSplit
      | cons x xs =>
        rw [hSplit] at h ih
        rcases List.mem_cons.mp h with rfl | h
        · have hx := ih List.mem_cons_self
          simp only [List.mem_cons, not_or]
          exact ⟨fun hEq => ha (by simp [hEq]), hx⟩
        · exact ih (List.mem_cons_of_mem _ h)

theorem splitOn_append_sep (ht : sep ∉ t) : (p ++ sep :: t).splitOn sep = p.splitOn sep ++ [t] := by
  rw [List.splitOn_append_cons_self, List.splitOn_eq_singleton ht]

end AndroidDemo.Words
