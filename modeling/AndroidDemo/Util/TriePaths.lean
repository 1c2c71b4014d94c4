import AndroidDemo.Util.Trie
import AndroidDemo.Words.Prefixes

/-! # The paths of a trie, and what `addNode` does to them -/

namespace AndroidDemo.Util

open AndroidDemo.Java AndroidDemo.Words

def IsLetter (u : UInt16) : Prop := 97 ≤ u.toNat ∧ u.toNat ≤ 122

theorem exists_childIndex {u : UInt16} (h : IsLetter u) : ∃ i, childIndex u = some i := by
  obtain ⟨hLow, hHigh⟩ := h
  exact ⟨_, dif_pos ⟨hLow, by omega⟩⟩

theorem toNat_of_childIndex {u : UInt16} {i : Fin 26} (h : childIndex u = some i) :
    u.toNat = 97 + i := by
  simp only [childIndex, Option.dite_none_right_eq_some, Option.some.injEq] at h
  obtain ⟨hRange, rfl⟩ := h
  dsimp only
  omega

theorem childIndex_inj {u v : UInt16} {i : Fin 26} (hu : childIndex u = some i)
    (hv : childIndex v = some i) : u = v := by
  rw [← UInt16.toNat_inj, toNat_of_childIndex hu, toNat_of_childIndex hv]

namespace Node

def IsPath : Node → JString → Prop
  | .null, _ => False
  | .node _ _, [] => True
  | .node _ childNodes, u :: word =>
    match childIndex u with
    | none => False
    | some index => (childNodes index).IsPath word

def paths (n : Node) : Set JString := {word | n.IsPath word}

@[simp] theorem mem_paths {n : Node} {word : JString} : word ∈ n.paths ↔ n.IsPath word := Iff.rfl

def char? : Node → Option UInt16
  | .null => none
  | .node c _ => some c

/-- Every child stands at the index of its character. -/
def Labelled : Node → Prop
  | .null => True
  | .node _ childNodes => ∀ i,
    (∀ c ∈ (childNodes i).char?, childIndex c = some i) ∧ (childNodes i).Labelled

theorem isPath_nil {n : Node} : n.IsPath [] ↔ n.isNull = false := by
  cases n <;> simp [IsPath, isNull]

theorem isPath_cons {c u : UInt16} {childNodes : Fin 26 → Node} {i : Fin 26} {word : JString}
    (h : childIndex u = some i) :
    (Node.node c childNodes).IsPath (u :: word) ↔ (childNodes i).IsPath word := by
  simp only [IsPath, h]

theorem isPath_singleton {c u : UInt16} {childNodes : Fin 26 → Node} {i : Fin 26}
    (h : childIndex u = some i) :
    (Node.node c childNodes).IsPath [u] ↔ (childNodes i).isNull = false := by
  rw [isPath_cons h, isPath_nil]

theorem exists_char_of_child {c : UInt16} {childNodes : Fin 26 → Node} {i : Fin 26}
    (hLabelled : (Node.node c childNodes).Labelled) (hi : (childNodes i).isNull = false) :
    ∃ d, childIndex d = some i := by
  cases hNode : childNodes i with
  | null => simp [hNode, isNull] at hi
  | node d grandChildren => exact ⟨d, (hLabelled i).1 d (by simp [hNode, char?])⟩

theorem isPath_new {c : UInt16} {word : JString} : (new c).IsPath word ↔ word = [] := by
  cases word with
  | nil => simp [new, IsPath]
  | cons u word =>
    simp only [new, IsPath, reduceCtorEq, iff_false]
    split <;> simp

theorem isPath_orNew {n : Node} {c : UInt16} {word : JString} :
    (n.orNew c).IsPath word ↔ n.IsPath word ∨ word = [] := by
  cases n with
  | null => simp [orNew, isNull, isPath_new, IsPath]
  | node c' childNodes =>
    simp only [orNew, isNull, Bool.false_eq_true, if_false]
    exact ⟨.inl, fun h => h.elim id fun hNil => hNil ▸ trivial⟩

theorem labelled_new (c : UInt16) : (new c).Labelled :=
  fun _ => ⟨fun _ hNone => (by cases hNone), trivial⟩

theorem char?_orNew {n : Node} {c : UInt16} {i : Fin 26} (hc : childIndex c = some i)
    (h : ∀ d ∈ n.char?, childIndex d = some i) : ∀ d ∈ (n.orNew c).char?, childIndex d = some i := by
  rw [orNew]
  split
  · rintro d ⟨⟩
    exact hc
  · exact h

theorem labelled_orNew {n : Node} {c : UInt16} (h : n.Labelled) : (n.orNew c).Labelled := by
  rw [orNew]
  split
  · exact labelled_new c
  · exact h

end Node

namespace Trie

open Node

/-- What `addNode` does with a word of letters. -/
structure Added (root : Node) (word : JString) (root' : Node) : Prop where
  char? : root'.char? = root.char?
  paths : ∀ v, root'.IsPath v ↔ root.IsPath v ∨ v <+: word
  labelled : root.Labelled → root'.Labelled

theorem addNode_added {root : Node} {word : JString} (hRoot : root.isNull = false)
    (hWord : ∀ u ∈ word, IsLetter u) :
    ∃ root', addNode root word = (root', none) ∧ Added root word root' := by
  induction word generalizing root with
  | nil =>
    refine ⟨root, by cases root <;> rfl, rfl, fun v => ?_, id⟩
    simp only [List.prefix_nil, iff_self_or]
    rintro rfl
    exact isPath_nil.mpr hRoot
  | cons u word ih =>
    obtain ⟨hLetter, hWord⟩ := List.forall_mem_cons.mp hWord
    obtain ⟨i, hi⟩ := exists_childIndex hLetter
    cases root with
    | null => cases hRoot
    | node c childNodes =>
      have hChild : ((childNodes i).orNew u).isNull = false :=
        isPath_nil.mp (isPath_orNew.mpr (.inr rfl))
      obtain ⟨child, hAdd, hAdded⟩ := ih hChild hWord
      refine ⟨.node c (Function.update childNodes i child), by simp only [addNode, hi, hAdd], rfl, ?_, ?_⟩
      · intro v
        cases v with
        | nil => simp [IsPath]
        | cons v₀ v =>
          cases hv : childIndex v₀ with
          | none =>
            have hNe : v₀ ≠ u := fun h => by simp [h, hi] at hv
            simp [IsPath, hv, List.cons_prefix_cons, hNe]
          | some j =>
            rw [isPath_cons hv, isPath_cons hv, List.cons_prefix_cons]
            by_cases hj : j = i
            · subst hj
              have hEq : v₀ = u := childIndex_inj hv hi
              rw [Function.update_self, hAdded.paths, isPath_orNew, or_assoc]
              simp only [hEq, true_and]
              refine or_congr_right ⟨fun h => h.elim (fun h => h ▸ List.nil_prefix) id, .inr⟩
            · have hNe : v₀ ≠ u := by
                rintro rfl
                exact hj (Option.some.inj (hv.symm.trans hi))
              simp [Function.update_of_ne hj, hNe]
      · intro hLabelled j
        by_cases hj : j = i
        · subst hj
          rw [Function.update_self, hAdded.char?]
          exact ⟨char?_orNew hi (hLabelled j).1, hAdded.labelled (labelled_orNew (hLabelled j).2)⟩
        · rw [Function.update_of_ne hj]
          exact hLabelled j

theorem addNodes_added (words : List JString) (root : Node) (hRoot : root.isNull = false)
    (hWords : ∀ word ∈ words, ∀ u ∈ word, IsLetter u) (hLabelled : root.Labelled) :
    ∃ root', addNodes root words = (root', none) ∧ root'.char? = root.char? ∧ root'.Labelled ∧
      root'.paths = {v | v ∈ root.paths ∨ v ∈ prefixes {word | word ∈ words}} := by
  induction words generalizing root with
  | nil =>
    refine ⟨root, rfl, rfl, hLabelled, ?_⟩
    ext v
    simp
  | cons word words ih =>
    obtain ⟨hWord, hWords⟩ := List.forall_mem_cons.mp hWords
    obtain ⟨root₁, hAdd, hAdded⟩ := addNode_added hRoot hWord
    have hRoot₁ : root₁.isNull = false :=
      isPath_nil.mp ((hAdded.paths []).mpr (.inl (isPath_nil.mpr hRoot)))
    obtain ⟨root', hAll, hChar, hLabelled', hPaths⟩ := ih root₁ hRoot₁ hWords (hAdded.labelled hLabelled)
    refine ⟨root', by simp only [addNodes, hAdd, hAll], hChar.trans hAdded.char?, hLabelled', ?_⟩
    rw [hPaths]
    ext v
    simp [hAdded.paths, or_assoc]

end Trie

end AndroidDemo.Util
