import AndroidDemo.Util.TriePaths

/-! # What `getDFS` lists -/

namespace AndroidDemo.Util

open AndroidDemo.Java AndroidDemo.Words

namespace Node

/-- The words that lead from the node to its leaves. -/
def leafWords : Node → List JString
  | .null => []
  | .node _ childNodes =>
    if ∀ i, (childNodes i).isNull then [[]]
    else (List.finRange 26).flatMap fun i =>
      (childNodes i).leafWords.map ((childNodes i).char?.toList ++ ·)

theorem leafWords_of_isNull {n : Node} (h : n.isNull) : n.leafWords = [] := by
  cases n with
  | null => rfl
  | node => cases h

theorem after_paths {c u : UInt16} {childNodes : Fin 26 → Node} {i : Fin 26}
    (h : childIndex u = some i) : after (Node.node c childNodes).paths u = (childNodes i).paths := by
  ext v
  exact isPath_cons h

theorem isMaximal_paths_node {c : UInt16} {childNodes : Fin 26 → Node} {w : JString}
    (hLabelled : (Node.node c childNodes).Labelled) (hChild : ¬ ∀ i, (childNodes i).isNull) :
    IsMaximal (Node.node c childNodes).paths w ↔
      ∃ i, ∃ v, IsMaximal (childNodes i).paths v ∧ (childNodes i).char?.toList ++ v = w := by
  constructor
  · intro h
    cases w with
    | nil =>
      obtain ⟨i, hi⟩ := not_forall.mp hChild
      obtain ⟨d, hd⟩ := exists_char_of_child hLabelled (Bool.not_eq_true _ ▸ hi)
      have hPath : (Node.node c childNodes).IsPath [d] := by
        rwa [isPath_singleton hd, ← Bool.not_eq_true]
      cases (isMaximal_nil.mp h).2 [d] hPath
    | cons u w =>
      cases hu : childIndex u with
      | none =>
        have hPath : (Node.node c childNodes).IsPath (u :: w) := h.1
        simp [IsPath, hu] at hPath
      | some i =>
        rw [isMaximal_cons, after_paths hu] at h
        refine ⟨i, w, h, ?_⟩
        cases hNode : childNodes i with
        | null => simpa [hNode, IsPath] using h.1
        | node d grandChildren =>
          have hd : childIndex d = some i := (hLabelled i).1 d (by simp [hNode, char?])
          simp [char?, childIndex_inj hd hu]
  · rintro ⟨i, v, hMax, rfl⟩
    cases hNode : childNodes i with
    | null => simpa [hNode, IsPath] using hMax.1
    | node d grandChildren =>
      have hd : childIndex d = some i := (hLabelled i).1 d (by simp [hNode, char?])
      simp only [char?, Option.toList_some, List.singleton_append]
      rw [isMaximal_cons, after_paths hd]
      exact hMax

theorem isMaximal_paths_leaf {c : UInt16} {childNodes : Fin 26 → Node} {w : JString}
    (hLeaf : ∀ i, (childNodes i).isNull) : IsMaximal (Node.node c childNodes).paths w ↔ w = [] := by
  have hPath (v : JString) : v ∈ (Node.node c childNodes).paths ↔ v = [] := by
    cases v with
    | nil => simp [IsPath]
    | cons u v =>
      simp only [mem_paths, IsPath, reduceCtorEq, iff_false]
      split
      · exact id
      · rename_i i _
        have hNull := hLeaf i
        cases hNode : childNodes i <;> simp_all [isNull, IsPath]
  simp [IsMaximal, hPath]

theorem mem_leafWords {n : Node} (h : n.Labelled) {w : JString} :
    w ∈ n.leafWords ↔ IsMaximal n.paths w := by
  induction n generalizing w with
  | null => simp [leafWords, IsMaximal, IsPath]
  | node c childNodes ih =>
    rw [leafWords]
    split
    · rename_i hLeaf
      rw [List.mem_singleton, isMaximal_paths_leaf hLeaf]
    · rename_i hChild
      rw [isMaximal_paths_node h hChild]
      simp only [List.mem_flatMap, List.mem_finRange, true_and, List.mem_map]
      exact exists_congr fun i => exists_congr fun v => and_congr_left' (ih i (h i).2)

/-- Words collected child by child, each behind the character of its child, are
sorted when those of every child are. -/
theorem flatMap_children_sorted {c : UInt16} {childNodes : Fin 26 → Node}
    (hLabelled : (Node.node c childNodes).Labelled) {below : Fin 26 → List JString}
    (hNull : ∀ i, (childNodes i).isNull → below i = []) (hSorted : ∀ i, (below i).Pairwise (· < ·)) :
    ((List.finRange 26).flatMap fun i =>
      (below i).map ((childNodes i).char?.toList ++ ·)).Pairwise (· < ·) := by
  rw [List.pairwise_flatMap]
  constructor
  · intro i _
    cases hNode : childNodes i with
    | null => simp [hNull i (by simp [hNode, isNull])]
    | node d grandChildren => simpa [List.pairwise_map, char?] using hSorted i
  · refine (List.pairwise_lt_finRange 26).imp fun {i j} hij => ?_
    cases hi : childNodes i with
    | null => simp [hNull i (by simp [hi, isNull])]
    | node d _ =>
      cases hj : childNodes j with
      | null => simp [hNull j (by simp [hj, isNull])]
      | node e _ =>
        have hd := toNat_of_childIndex ((hLabelled i).1 d (by simp [hi, char?]))
        have he := toNat_of_childIndex ((hLabelled j).1 e (by simp [hj, char?]))
        have hLt : d < e := by
          rw [UInt16.lt_iff_toNat_lt, hd, he]
          omega
        simp [char?, List.cons_lt_cons_iff, hLt]

theorem leafWords_sorted {n : Node} (h : n.Labelled) : n.leafWords.Pairwise (· < ·) := by
  induction n with
  | null => exact .nil
  | node c childNodes ih =>
    rw [leafWords]
    split
    · exact List.pairwise_singleton _ _
    · exact flatMap_children_sorted h (fun i => leafWords_of_isNull) fun i => ih i (h i).2

end Node

namespace Trie

open Node

/-- The loop over the children, where one turn of it adds the strings of a child
and takes the character of the child back from the builder. -/
theorem foldlM_visit (below : Fin 26 → List JString) (present : Fin 26 → Bool)
    {visit : JString × List JString × Bool → Fin 26 →
      Except RuntimeException (JString × List JString × Bool)} {builder : JString}
    (hVisit : ∀ i result hasChild, visit (builder, result, hasChild) i =
      .ok (builder, result ++ (below i).map (builder ++ ·), hasChild || present i))
    (children : List (Fin 26)) (result : List JString) (hasChild : Bool) :
    children.foldlM visit (builder, result, hasChild) =
      .ok (builder, result ++ (children.flatMap below).map (builder ++ ·),
        hasChild || children.any present) := by
  induction children generalizing result hasChild with
  | nil => simp [pure, Except.pure]
  | cons i children ih =>
    rw [List.foldlM_cons, hVisit]
    simp only [bind, Except.bind]
    rw [ih]
    simp [Bool.or_assoc]

theorem getDFS_eq {n : Node} {c : UInt16} (hChar : n.char? = some c) (builder : JString)
    (result : List JString) :
    getDFS n builder result =
      .ok (builder ++ [c], result ++ n.leafWords.map (builder ++ [c] ++ ·)) := by
  induction n generalizing c builder result with
  | null => cases hChar
  | node d childNodes ih =>
    cases hChar
    rw [getDFS, foldlM_visit (fun i => (childNodes i).leafWords.map ((childNodes i).char?.toList ++ ·))
      (fun i => !(childNodes i).isNull)]
    · by_cases hLeaf : ∀ i, (childNodes i).isNull
      · simp [bind, Except.bind, pure, Except.pure, leafWords, hLeaf, leafWords_of_isNull (hLeaf _)]
      · simp [bind, Except.bind, pure, Except.pure, leafWords, hLeaf]
    · intro i result hasChild
      cases hi : childNodes i with
      | null => simp [isNull, leafWords, pure, Except.pure]
      | node e grandChildren =>
        have hChild := ih i (c := e) (by simp [hi, char?]) (builder ++ [d]) result
        rw [hi] at hChild
        simp [isNull, hChild, deleteLastChar, bind, Except.bind, pure, Except.pure, char?]

/-! ## Insertion and listing -/

/-- A non-empty added word that is not a proper prefix of another added word. -/
def MaximalWord (words : List JString) (w : JString) : Prop :=
  w ≠ [] ∧ w ∈ words ∧ ∀ v ∈ words, w <+: v → v = w

theorem isMaximal_words {words : List JString} {w : JString} :
    IsMaximal (prefixes (insert [] {word | word ∈ words})) w ↔
      MaximalWord words w ∨ w = [] ∧ ∀ v, ¬ MaximalWord words v := by
  rw [isMaximal_prefixes, isMaximal_insert_nil, forall_eq_nil_iff (List.finite_toSet words)]
  rfl

theorem exists_listing (r : UInt16) {words : List JString}
    (hWords : ∀ word ∈ words, ∀ u ∈ word, IsLetter u) :
    ∃ (root : Node) (listing : List JString), addNodes (.new r) words = (root, none) ∧
      listing.Pairwise (· < ·) ∧
      (∀ w, w ∈ listing ↔ MaximalWord words w ∨ w = [] ∧ ∀ v, ¬ MaximalWord words v) ∧
      ∀ p R, getDFS root p R = .ok (p ++ [r], R ++ listing.map (p ++ [r] ++ ·)) := by
  obtain ⟨root, hAdd, hChar, hLabelled, hPaths⟩ :=
    addNodes_added words (.new r) rfl hWords (labelled_new r)
  refine ⟨root, root.leafWords, hAdd, leafWords_sorted hLabelled, fun w => ?_, getDFS_eq hChar⟩
  have hPrefixes : root.paths = prefixes (insert [] {word | word ∈ words}) := by
    rw [hPaths, prefixes_insert]
    ext v
    simp [isPath_new, or_comm]
  rw [mem_leafWords hLabelled, hPrefixes, isMaximal_words]

/-- `getDFS` lists the maximal added words, sorted and each once, and the order
and the repetition of the insertions do not matter. -/
theorem getDFS_addNodes (r : UInt16) (words : List JString)
    (hWords : ∀ word ∈ words, ∀ u ∈ word, IsLetter u) :
    ∃ (root : Node) (listing : List JString), addNodes (.new r) words = (root, none) ∧
      listing.Pairwise (· < ·) ∧
      (∀ w, w ∈ listing ↔ MaximalWord words w ∨ w = [] ∧ ∀ v, ¬ MaximalWord words v) ∧
      (∀ p R, getDFS root p R = .ok (p ++ [r], R ++ listing.map (p ++ [r] ++ ·))) ∧
      ∀ words' : List JString, (∀ word ∈ words', ∀ u ∈ word, IsLetter u) →
        (∀ w, MaximalWord words' w ↔ MaximalWord words w) →
        ∃ root', addNodes (.new r) words' = (root', none) ∧
          ∀ p R, getDFS root' p R = getDFS root p R := by
  obtain ⟨root, listing, hAdd, hSorted, hMem, hDFS⟩ := exists_listing r hWords
  refine ⟨root, listing, hAdd, hSorted, hMem, hDFS, fun words' hWords' hSame => ?_⟩
  obtain ⟨root', listing', hAdd', hSorted', hMem', hDFS'⟩ := exists_listing r hWords'
  have hEq : listing' = listing :=
    hSorted'.eq_of_mem_iff hSorted fun w => by simp only [hMem, hMem', hSame]
  exact ⟨root', hAdd', fun p R => by rw [hDFS, hDFS', hEq]⟩

/-- "and", "as", "a" and "as" again. -/
theorem getDFS_addNodes_and :
    ∃ (root : Node) (listing : List JString),
      addNodes (.new 32) [[97, 110, 100], [97, 115], [97], [97, 115]] = (root, none) ∧
      [97, 115] ∈ listing ∧ [97] ∉ listing ∧
      ∀ p R, getDFS root p R = .ok (p ++ [32], R ++ listing.map (p ++ [32] ++ ·)) := by
  obtain ⟨root, listing, hAdd, _, hMem, hDFS, _⟩ :=
    getDFS_addNodes 32 [[97, 110, 100], [97, 115], [97], [97, 115]] (by simp [IsLetter])
  refine ⟨root, listing, hAdd, (hMem _).mpr (.inl ?_), fun hMaximal => ?_, hDFS⟩
  · simp [MaximalWord]
  · obtain ⟨_, _, hMax⟩ | ⟨hNil, _⟩ := (hMem _).mp hMaximal
    · cases hMax [97, 115] (by simp) (by simp)
    · cases hNil

end Trie

end AndroidDemo.Util
