import AndroidDemo.Util.TrieInsertion
import AndroidDemo.Util.TrieLevels
import Mathlib.Data.List.TakeWhile

/-! # A trie is determined by its words

Whatever calls have led to two tries: they are equal when their paths are, and
these can be read off the listing of `getDFS`.
-/

namespace AndroidDemo.Util

open AndroidDemo.Java AndroidDemo.Words

namespace Node

theorem paths_closed (n : Node) : ∀ v ∈ n.paths, ∀ p, p <+: v → p ∈ n.paths :=
  fun _ hv _ hp => isPath_prefixed hv hp

/-- Labelled tries with the same paths differ at most in the character of the root. -/
theorem ext_paths {n n' : Node} (h : n.Labelled) (h' : n'.Labelled) (hChar : n.char? = n'.char?)
    (hPaths : ∀ v, n.IsPath v ↔ n'.IsPath v) : n = n' := by
  induction n generalizing n' with
  | null =>
    cases n' with
    | null => rfl
    | node c' childNodes' => cases hChar
  | node c childNodes ih =>
    cases n' with
    | null => cases hChar
    | node c' childNodes' =>
      obtain rfl : c = c' := Option.some.inj hChar
      have hNull (i : Fin 26) : (childNodes i).isNull = false ↔ (childNodes' i).isNull = false := by
        constructor
        · intro hi
          obtain ⟨d, hd⟩ := exists_char_of_child h hi
          exact (isPath_singleton hd).mp ((hPaths [d]).mp ((isPath_singleton hd).mpr hi))
        · intro hi
          obtain ⟨d, hd⟩ := exists_char_of_child h' hi
          exact (isPath_singleton hd).mp ((hPaths [d]).mpr ((isPath_singleton hd).mpr hi))
      congr 1
      funext i
      cases hNode : childNodes i with
      | null =>
        cases hNode' : childNodes' i with
        | null => rfl
        | node d' grandChildren' =>
          have hi := (hNull i).mpr (by rw [hNode']; rfl)
          rw [hNode] at hi
          cases hi
      | node d grandChildren =>
        have hd : childIndex d = some i := (h i).1 d (by rw [hNode]; rfl)
        rw [← hNode]
        refine ih i (h i).2 (h' i).2 ?_ fun v => ?_
        · obtain ⟨d', grandChildren', hNode'⟩ : ∃ d' grandChildren',
              childNodes' i = .node d' grandChildren' := by
            have hi := (hNull i).mp (by rw [hNode]; rfl)
            cases hNode' : childNodes' i with
            | null => rw [hNode'] at hi; cases hi
            | node d' grandChildren' => exact ⟨d', grandChildren', rfl⟩
          have hd' : childIndex d' = some i := (h' i).1 d' (by rw [hNode']; rfl)
          rw [hNode, hNode', char?, char?, childIndex_inj hd hd']
        · rw [← isPath_cons hd, ← isPath_cons hd]
          exact hPaths (d :: v)

theorem ext_leafWords {n n' : Node} (h : n.Labelled) (h' : n'.Labelled)
    (hChar : n.char? = n'.char?) (hWords : n.leafWords = n'.leafWords) : n = n' := by
  have hMax (v : JString) : IsMaximal n.paths v ↔ IsMaximal n'.paths v := by
    rw [← mem_leafWords h, ← mem_leafWords h', hWords]
  have hPaths := eq_of_isMaximal (paths_finite n) (paths_closed n) (paths_finite n')
    (paths_closed n') hMax
  exact ext_paths h h' hChar fun v => Set.ext_iff.mp hPaths v

end Node

namespace Trie

open Node

/-! ## Tries behind any calls -/

inductive Call
  | addNode (word : JString)
  | delNode (word : JString)

/-- The trie after the call, whether it returns or throws. -/
def Call.perform (root : Node) : Call → Node
  | .addNode word => (Trie.addNode root word).1
  | .delNode word => (Trie.delNode root word).1

def afterCalls (r : UInt16) (calls : List Call) : Node := calls.foldl Call.perform (.new r)

/-- What every call keeps of a trie. -/
structure Rooted (r : UInt16) (root : Node) : Prop where
  char? : root.char? = some r
  labelled : root.Labelled

theorem Rooted.isNull {r : UInt16} {root : Node} (h : Rooted r root) : root.isNull = false := by
  have hChar := h.char?
  cases root with
  | null => cases hChar
  | node => rfl

theorem letters_eq_self {word : JString} (hWord : ∀ u ∈ word, IsLetter u) : letters word = word :=
  List.takeWhile_eq_self_iff.mpr fun u hu => isLetter_iff.mp (hWord u hu)

/-- Of any word the letters in front are added. -/
theorem addNode_fst {root : Node} (hRoot : root.isNull = false) (word : JString) :
    (Trie.addNode root word).1 = (Trie.addNode root (letters word)).1 := by
  by_cases hBad : ∃ u ∈ word, ¬ IsLetter u
  · rw [addNode_letters hRoot hBad]
  · have hWord : ∀ u ∈ word, IsLetter u := by simpa using hBad
    rw [letters_eq_self hWord]

theorem addNode_fst_added {root : Node} (hRoot : root.isNull = false) (word : JString) :
    Added root (letters word) (Trie.addNode root word).1 := by
  obtain ⟨root', hAdd, hAdded⟩ := addNode_added hRoot (@isLetter_of_mem_letters word)
  rw [addNode_fst hRoot, hAdd]
  exact hAdded

theorem Rooted.addNode {r : UInt16} {root : Node} (h : Rooted r root) (word : JString) :
    Rooted r (Trie.addNode root word).1 := by
  have hAdded := addNode_fst_added h.isNull word
  exact ⟨hAdded.char?.trans h.char?, hAdded.labelled h.labelled⟩

theorem Rooted.perform {r : UInt16} {root : Node} (h : Rooted r root) (call : Call) :
    Rooted r (call.perform root) := by
  cases call with
  | addNode word => exact h.addNode word
  | delNode word =>
    obtain ⟨hLabelled, hChar⟩ := delNode_labelled h.labelled word
    exact ⟨hChar.trans h.char?, hLabelled⟩

theorem rooted_afterCalls (r : UInt16) (calls : List Call) : Rooted r (afterCalls r calls) := by
  induction calls using List.reverseRecOn with
  | nil => exact ⟨rfl, labelled_new r⟩
  | append_singleton calls call ih =>
    rw [afterCalls, List.foldl_append]
    exact ih.perform call

theorem Rooted.addCalls {r : UInt16} {root : Node} (h : Rooted r root) (words : List JString) :
    Rooted r (Trie.addCalls root words) := by
  induction words generalizing root with
  | nil => exact h
  | cons word words ih => exact ih (h.addNode word)

theorem Rooted.exists_leafWord {r : UInt16} {root : Node} (h : Rooted r root) :
    ∃ w, w ∈ root.leafWords := by
  have hRoot : [] ∈ root.paths := isPath_nil.mpr h.isNull
  obtain ⟨w, hMax, _⟩ := exists_isMaximal (paths_finite root) hRoot
  exact ⟨w, (mem_leafWords h.labelled).mpr hMax⟩

/-- The listing tells two tries apart, whatever calls have led to them. -/
theorem getDFS_eq_iff (r r' : UInt16) (calls calls' : List Call) :
    (getDFS (afterCalls r calls) [] []).map Prod.snd =
        (getDFS (afterCalls r' calls') [] []).map Prod.snd ↔
      afterCalls r calls = afterCalls r' calls' := by
  have h := rooted_afterCalls r calls
  have h' := rooted_afterCalls r' calls'
  generalize afterCalls r calls = root at h ⊢
  generalize afterCalls r' calls' = root' at h' ⊢
  constructor
  · intro hEq
    rw [getDFS_eq h.char?, getDFS_eq h'.char?] at hEq
    have hList : root.leafWords.map ([r] ++ ·) = root'.leafWords.map ([r'] ++ ·) :=
      Except.ok.inj hEq
    have hChar : r = r' := by
      obtain ⟨w, hw⟩ := h.exists_leafWord
      have hMem : [r] ++ w ∈ root'.leafWords.map ([r'] ++ ·) := hList ▸ List.mem_map_of_mem hw
      obtain ⟨w', _, hEq⟩ := List.mem_map.mp hMem
      exact (List.cons.inj hEq).1.symm
    subst hChar
    exact ext_leafWords h.labelled h'.labelled (h.char?.trans h'.char?.symm)
      (List.map_injective_iff.mpr (List.append_right_injective [r]) hList)
  · rintro rfl
    rfl

/-! ## Insertions in any order -/

theorem addCalls_isPath {root : Node} (hRoot : root.isNull = false) (words : List JString)
    (v : JString) :
    (addCalls root words).IsPath v ↔ root.IsPath v ∨ ∃ word ∈ words, v <+: letters word := by
  induction words generalizing root with
  | nil => simp [addCalls]
  | cons word words ih =>
    have hAdded := addNode_fst_added hRoot word
    have hRest := ih (addNode_isNull hRoot word)
    rw [hAdded.paths] at hRest
    rw [addCalls, List.foldl_cons, ← addCalls, hRest]
    simp [or_assoc]

/-- What was listed before and the letters of the added words. -/
theorem Rooted.addCalls_paths {r : UInt16} {root : Node} (h : Rooted r root)
    (words : List JString) :
    (Trie.addCalls root words).paths =
      prefixes (insert [] {w | w ∈ root.leafWords ++ words.map letters}) := by
  have hListed (v : JString) : root.IsPath v ↔ ∃ w ∈ root.leafWords, v <+: w := by
    constructor
    · intro hv
      obtain ⟨w, hMax, hvw⟩ := exists_isMaximal (paths_finite root) hv
      exact ⟨w, (mem_leafWords h.labelled).mpr hMax, hvw⟩
    · rintro ⟨w, hw, hvw⟩
      exact isPath_prefixed ((mem_leafWords h.labelled).mp hw).1 hvw
  have hNil (v : JString) (hv : v = []) : ∃ w ∈ root.leafWords, v <+: w := by
    obtain ⟨w, hw⟩ := h.exists_leafWord
    exact ⟨w, hw, hv ▸ List.nil_prefix⟩
  ext v
  rw [mem_paths, addCalls_isPath h.isNull, hListed, mem_prefixes]
  simp only [Set.exists_mem_insert, Set.mem_ofPred_eq, List.mem_append, List.mem_map,
    List.prefix_nil]
  constructor
  · rintro (⟨w, hw, hvw⟩ | ⟨word, hword, hvw⟩)
    · exact .inr ⟨w, .inl hw, hvw⟩
    · exact .inr ⟨letters word, .inr ⟨word, hword, rfl⟩, hvw⟩
  · rintro (hv | ⟨_, hw | ⟨word, hword, rfl⟩, hvw⟩)
    · exact .inl (hNil v hv)
    · exact .inl ⟨_, hw, hvw⟩
    · exact .inr ⟨word, hword, hvw⟩

/-- Two lists of additions lead from one trie to one trie if and only if the same
words are maximal among those listed before and the letters of those added. -/
theorem addCalls_eq_iff (r : UInt16) (calls : List Call) (words words' : List JString) :
    addCalls (afterCalls r calls) words = addCalls (afterCalls r calls) words' ↔
      ∀ v, MaximalWord ((afterCalls r calls).leafWords ++ words.map letters) v ↔
        MaximalWord ((afterCalls r calls).leafWords ++ words'.map letters) v := by
  have h := rooted_afterCalls r calls
  generalize afterCalls r calls = root at h ⊢
  have hMax (words : List JString) (w : JString) :
      IsMaximal (Trie.addCalls root words).paths w ↔
        MaximalWord (root.leafWords ++ words.map letters) w ∨
          w = [] ∧ ∀ v, ¬ MaximalWord (root.leafWords ++ words.map letters) v := by
    rw [h.addCalls_paths, isMaximal_words]
  constructor
  · intro hEq v
    have hBoth := (hMax words v).symm.trans (hEq ▸ hMax words' v)
    constructor
    · intro hv
      exact (hBoth.mp (.inl hv)).resolve_right fun hNil => hv.1 hNil.1
    · intro hv
      exact (hBoth.mpr (.inl hv)).resolve_right fun hNil => hv.1 hNil.1
  · intro hSame
    have hPaths := eq_of_isMaximal (paths_finite (Trie.addCalls root words)) (paths_closed _)
      (paths_finite (Trie.addCalls root words')) (paths_closed _) fun w => by
        simp only [hMax, hSame]
    exact ext_paths (h.addCalls words).labelled (h.addCalls words').labelled
      ((h.addCalls words).char?.trans (h.addCalls words').char?.symm)
      fun v => Set.ext_iff.mp hPaths v

end Trie

end AndroidDemo.Util
