import AndroidDemo.Util.TrieDeletion

/-! # What `getBFS` prints

The queue holds what is left of one level and the collected part of the next
one; the two counters are the lengths of these parts.
-/

namespace AndroidDemo.Util

open AndroidDemo.Java AndroidDemo.Words

namespace Node

def childList : Node → List Node
  | .null => []
  | .node _ childNodes => ((List.finRange 26).map childNodes).filter fun n => !n.isNull

/-- The nodes of one depth, from left to right. -/
def level : Node → Nat → List Node
  | .null, _ => []
  | .node c childNodes, 0 => [.node c childNodes]
  | .node _ childNodes, d + 1 => (List.finRange 26).flatMap fun i => (childNodes i).level d

/-- The words that lead to the nodes of one depth. -/
def levelWords : Node → Nat → List JString
  | .null, _ => []
  | .node _ _, 0 => [[]]
  | .node _ childNodes, d + 1 =>
    (List.finRange 26).flatMap fun i =>
      ((childNodes i).levelWords d).map ((childNodes i).char?.toList ++ ·)

theorem level_succ (n : Node) (d : Nat) : n.level (d + 1) = (n.level d).flatMap childList := by
  induction d generalizing n with
  | zero =>
    cases n with
    | null => rfl
    | node c childNodes =>
      have hLevel (m : Node) : m.level 0 = if m.isNull then [] else [m] := by cases m <;> rfl
      simp only [level, hLevel, childList, List.flatMap_singleton]
      induction List.finRange 26 with
      | nil => rfl
      | cons i is ih =>
        rw [List.flatMap_cons, List.map_cons, List.filter_cons, ih]
        cases (childNodes i).isNull <;> rfl
  | succ d ih =>
    cases n with
    | null => rfl
    | node c childNodes =>
      rw [level, level, List.flatMap_assoc]
      exact List.flatMap_congr fun i _ => ih (childNodes i)

theorem isNull_of_mem_level {n m : Node} {d : Nat} (h : m ∈ n.level d) : m.isNull = false := by
  induction d generalizing n with
  | zero =>
    cases n with
    | null => cases h
    | node c childNodes =>
      rw [List.mem_singleton.mp h]
      rfl
  | succ d ih =>
    cases n with
    | null => cases h
    | node c childNodes =>
      obtain ⟨i, _, hi⟩ := List.mem_flatMap.mp h
      exact ih hi

theorem levelWords_of_isNull {n : Node} (h : n.isNull) (d : Nat) : n.levelWords d = [] := by
  cases n with
  | null => rfl
  | node => cases h

theorem mem_levelWords {n : Node} (h : n.Labelled) {d : Nat} {w : JString} :
    w ∈ n.levelWords d ↔ n.IsPath w ∧ w.length = d := by
  induction d generalizing n w with
  | zero =>
    cases n with
    | null => simp [levelWords, IsPath]
    | node c childNodes =>
      rw [levelWords, List.mem_singleton, List.length_eq_zero_iff]
      exact ⟨fun hNil => ⟨hNil ▸ trivial, hNil⟩, And.right⟩
  | succ d ih =>
    cases n with
    | null => simp [levelWords, IsPath]
    | node c childNodes =>
      have hChild (i : Fin 26) (v : JString) :
          v ∈ (childNodes i).levelWords d ↔ (childNodes i).IsPath v ∧ v.length = d := ih (h i).2
      simp only [levelWords, List.mem_flatMap, List.mem_finRange, true_and, List.mem_map, hChild]
      constructor
      · rintro ⟨i, v, ⟨hPath, hLength⟩, rfl⟩
        cases hNode : childNodes i with
        | null => simp [hNode, IsPath] at hPath
        | node e grandChildren =>
          have he : childIndex e = some i := (h i).1 e (by simp [hNode, char?])
          simpa [char?, isPath_cons he, hLength] using hPath
      · rintro ⟨hPath, hLength⟩
        obtain ⟨u, v, rfl⟩ := List.exists_cons_of_length_eq_add_one hLength
        cases hu : childIndex u with
        | none => simp [IsPath, hu] at hPath
        | some i =>
          rw [isPath_cons hu] at hPath
          refine ⟨i, v, ⟨hPath, Nat.succ.inj hLength⟩, ?_⟩
          cases hNode : childNodes i with
          | null => simp [hNode, IsPath] at hPath
          | node e grandChildren =>
            have he : childIndex e = some i := (h i).1 e (by simp [hNode, char?])
            simp [char?, childIndex_inj he hu]

theorem levelWords_sorted {n : Node} (h : n.Labelled) (d : Nat) :
    (n.levelWords d).Pairwise (· < ·) := by
  induction d generalizing n with
  | zero =>
    cases n with
    | null => exact .nil
    | node c childNodes => exact List.pairwise_singleton _ _
  | succ d ih =>
    cases n with
    | null => exact .nil
    | node c childNodes =>
      exact flatMap_children_sorted h (fun i hi => levelWords_of_isNull hi d) fun i => ih (h i).2

theorem level_length (n : Node) (d : Nat) : (n.level d).length = (n.levelWords d).length := by
  induction d generalizing n with
  | zero => cases n <;> rfl
  | succ d ih =>
    cases n with
    | null => rfl
    | node c childNodes => simp [level, levelWords, List.length_flatMap, ih]

/-- The character of a node is the last one of the word that leads to it. -/
theorem level_chars {n : Node} (h : n.Labelled) (d : Nat) :
    (n.level (d + 1)).filterMap char? = (n.levelWords (d + 1)).filterMap List.getLast? := by
  induction d generalizing n with
  | zero =>
    cases n with
    | null => rfl
    | node c childNodes =>
      rw [level, levelWords, List.filterMap_flatMap, List.filterMap_flatMap]
      refine List.flatMap_congr fun i _ => ?_
      cases childNodes i <;> rfl
  | succ d ih =>
    cases n with
    | null => rfl
    | node c childNodes =>
      rw [level, levelWords, List.filterMap_flatMap, List.filterMap_flatMap]
      refine List.flatMap_congr fun i _ => ?_
      rw [ih (h i).2, List.filterMap_map]
      refine List.filterMap_congr fun w hw => ?_
      have hLength := ((mem_levelWords (h i).2).mp hw).2
      obtain ⟨u, v, rfl⟩ := List.exists_cons_of_length_eq_add_one hLength
      simp [List.getLast?_append, List.getLast?_cons]

end Node

namespace Trie

open Node

/-! ## The loop -/

theorem foldl_offer (childNodes : Fin 26 → Node) (children : List (Fin 26)) (st : BfsLocals) :
    children.foldl (fun st i => offer st (childNodes i)) st =
      { builder := st.builder ++ (children.map childNodes).filterMap char?
        queue := st.queue ++ (children.map childNodes).filter fun n => !n.isNull
        curLevelCnt := st.curLevelCnt
        nextLevelCnt := st.nextLevelCnt + ((children.map childNodes).filter fun n => !n.isNull).length } := by
  induction children generalizing st with
  | nil => simp
  | cons i children ih =>
    rw [List.foldl_cons, ih, List.map_cons]
    generalize children.map childNodes = ns
    cases childNodes i with
    | null => simp [offer, isNull, char?, List.filterMap_cons]
    | node c grandChildren =>
      simp [offer, isNull, char?, Int.add_assoc, Int.add_comm]

theorem filterMap_char?_childList (c : UInt16) (childNodes : Fin 26 → Node) :
    (Node.node c childNodes).childList.filterMap char? =
      ((List.finRange 26).map childNodes).filterMap char? := by
  rw [childList]
  generalize (List.finRange 26).map childNodes = ns
  induction ns with
  | nil => rfl
  | cons n ns ih =>
    cases n with
    | null => simpa [isNull, char?, List.filterMap_cons] using ih
    | node d grandChildren => simpa [isNull, char?] using ih

theorem bfsLoop_nil {st : BfsLocals} (h : st.queue = []) : bfsLoop st = st.builder := by
  rw [bfsLoop]
  split
  · rfl
  · rfl
  · rename_i hQueue
    rw [h] at hQueue
    cases hQueue

theorem bfsLoop_node {c : UInt16} {childNodes : Fin 26 → Node} {queue : List Node}
    {st : BfsLocals} (h : st.queue = .node c childNodes :: queue) :
    bfsLoop st = bfsLoop (visit childNodes { st with queue := queue }) := by
  rw [bfsLoop]
  split
  · rename_i hQueue
    rw [h] at hQueue
    cases hQueue
  · rename_i hQueue
    rw [h] at hQueue
    cases hQueue
  · rename_i hQueue
    rw [h] at hQueue
    cases hQueue
    rfl

/-- The loop at the head of `rest`, with `next` collected behind it, reaches the
end of the level with the children of `rest` collected as well. -/
theorem bfsLoop_rest (n : Node) (rest next : List Node) (builder : JString)
    (hNode : ∀ m ∈ n :: rest, m.isNull = false) :
    bfsLoop ⟨builder, n :: rest ++ next, (n :: rest).length, next.length⟩ =
      bfsLoop ⟨builder ++ ((n :: rest).flatMap childList).filterMap char? ++ [10],
        next ++ (n :: rest).flatMap childList, (next ++ (n :: rest).flatMap childList).length, 0⟩ := by
  induction rest generalizing n next builder with
  | nil =>
    cases n with
    | null => cases hNode _ List.mem_cons_self
    | node c childNodes =>
      rw [bfsLoop_node rfl, visit, foldl_offer, ← filterMap_char?_childList c]
      simp [childList]
  | cons m rest ih =>
    cases n with
    | null => cases hNode _ List.mem_cons_self
    | node c childNodes =>
      rw [bfsLoop_node rfl, visit, foldl_offer, ← filterMap_char?_childList c]
      have hRest := ih m (next ++ (Node.node c childNodes).childList)
        (builder ++ (Node.node c childNodes).childList.filterMap char?)
        fun x hx => hNode x (List.mem_cons_of_mem _ hx)
      have hMore : ((Node.node c childNodes :: m :: rest).length : Int) - 1 ≠ 0 := by
        simp only [List.length_cons]
        omega
      rw [if_neg hMore]
      simpa [childList, List.append_assoc] using hRest

theorem bfsLoop_line {n : Node} {d : Nat} (hSome : n.level d ≠ []) (builder : JString) :
    bfsLoop ⟨builder, n.level d, (n.level d).length, 0⟩ =
      bfsLoop ⟨builder ++ (n.level (d + 1)).filterMap char? ++ [10], n.level (d + 1),
        (n.level (d + 1)).length, 0⟩ := by
  have hNode : ∀ m ∈ n.level d, m.isNull = false := fun m => isNull_of_mem_level
  rw [level_succ]
  obtain ⟨m, rest, hLevel⟩ := List.exists_cons_of_ne_nil hSome
  rw [hLevel] at hNode ⊢
  simpa using bfsLoop_rest m rest [] builder hNode

theorem bfsLoop_levels (n : Node) {k d : Nat} (builder : JString)
    (hLevels : ∀ j, n.level (d + j) = [] ↔ k < j) :
    bfsLoop ⟨builder, n.level d, (n.level d).length, 0⟩ =
      builder ++ ((List.range k).flatMap fun j => (n.level (d + j + 1)).filterMap char? ++ [10]) ++
        [10] := by
  have hSome : n.level d ≠ [] := fun hNone => Nat.not_lt_zero _ ((hLevels 0).mp hNone)
  rw [bfsLoop_line hSome]
  induction k generalizing d builder with
  | zero =>
    have hNone : n.level (d + 1) = [] := (hLevels 1).mpr Nat.zero_lt_one
    rw [hNone, bfsLoop_nil rfl]
    simp
  | succ k ih =>
    have hLevels' (j : Nat) : n.level (d + 1 + j) = [] ↔ k < j := by
      rw [Nat.add_assoc, Nat.add_comm 1, hLevels, Nat.succ_lt_succ_iff]
    have hSome' : n.level (d + 1) ≠ [] := fun hNone => Nat.not_lt_zero _ ((hLevels' 0).mp hNone)
    rw [bfsLoop_line hSome', ih _ hLevels' hSome', List.range_succ_eq_map, List.flatMap_cons,
      List.flatMap_map]
    simp only [List.append_assoc, Nat.add_zero, Nat.add_succ, Nat.succ_add]

/-! ## The tries that additions and deletions reach -/

inductive Reached (r : UInt16) : Node → Prop
  | new : Reached r (.new r)
  | added {root root' : Node} {word : JString} (h : Reached r root) (hWord : ∀ u ∈ word, IsLetter u)
      (hAdd : addNode root word = (root', none)) : Reached r root'
  | deleted {root root' : Node} {word : JString} {b : Bool} (h : Reached r root)
      (hDel : delNode root word = (root', .ok b)) : Reached r root'

theorem delNode_labelled {n : Node} (h : n.Labelled) (w : JString) :
    (delNode n w).1.Labelled ∧ (delNode n w).1.char? = n.char? := by
  induction w generalizing n with
  | nil => cases n <;> exact ⟨h, rfl⟩
  | cons u w ih =>
    cases n with
    | null => exact ⟨h, rfl⟩
    | node c childNodes =>
      have hChild (i : Fin 26) (child : Node) (x : Except RuntimeException Bool)
          (hDel : delNode (childNodes i) w = (child, x)) :
          (Node.node c (Function.update childNodes i child)).Labelled := by
        obtain ⟨hLabelled, hChar⟩ := ih (h i).2
        rw [hDel] at hLabelled hChar
        exact labelled_update h hLabelled fun d hd => (h i).1 d (hChar ▸ hd)
      rw [delNode]
      split
      · exact ⟨h, rfl⟩
      · rename_i i _
        split
        · exact ⟨h, rfl⟩
        · exact ⟨h, rfl⟩
        · split
          · exact ⟨hChild i _ _ ‹_›, rfl⟩
          · exact ⟨labelled_update h trivial (by simp [char?]), rfl⟩
          · exact ⟨hChild i _ _ ‹_›, rfl⟩

theorem Reached.labelled {r : UInt16} {root : Node} (h : Reached r root) :
    root.char? = some r ∧ root.Labelled := by
  induction h with
  | new => exact ⟨rfl, labelled_new r⟩
  | @added root root' word _ hWord hAdd ih =>
    have hRoot : root.isNull = false := by
      cases root with
      | null => cases ih.1
      | node => rfl
    obtain ⟨n, hAdd', hAdded⟩ := addNode_added hRoot hWord
    cases hAdd.symm.trans hAdd'
    exact ⟨hAdded.char?.trans ih.1, hAdded.labelled ih.2⟩
  | @deleted root root' word b _ hDel ih =>
    obtain ⟨hLabelled, hChar⟩ := delNode_labelled ih.2 word
    rw [hDel] at hLabelled hChar
    exact ⟨hChar.trans ih.1, hLabelled⟩

/-- `getBFS` prints one line for every depth, the last characters of the paths of
that length in order, and an empty line behind the deepest one. -/
theorem getBFS_lines {r : UInt16} {root : Node} (h : Reached r root) :
    ∃ (height : Nat) (paths : Nat → List JString),
      (∃ w, IsMaximal root.paths w ∧ w.length = height) ∧ (∀ w, root.IsPath w → w.length ≤ height) ∧
      (∀ d, (paths d).Pairwise (· < ·) ∧ ∀ w, w ∈ paths d ↔ root.IsPath w ∧ w.length = d) ∧
      getBFS root =
        ((List.range height).flatMap fun d => (paths (d + 1)).filterMap List.getLast? ++ [10]) ++ [10] := by
  obtain ⟨hChar, hLabelled⟩ := h.labelled
  have hRoot : root.isNull = false := by
    cases root with
    | null => cases hChar
    | node => rfl
  obtain ⟨w, hw, hLongest⟩ :=
    (paths_finite root).exists_maximalFor List.length _ ⟨[], isPath_nil.mpr hRoot⟩
  have hLe (v : JString) (hv : root.IsPath v) : v.length ≤ w.length := by
    by_contra hLt
    exact hLt (hLongest hv (Nat.le_of_not_le hLt))
  refine ⟨w.length, root.levelWords, ⟨w, ⟨hw, fun v hv hwv => ?_⟩, rfl⟩, hLe,
    fun d => ⟨levelWords_sorted hLabelled d, fun v => mem_levelWords hLabelled⟩, ?_⟩
  · exact (hwv.eq_of_length_le (hLe v hv)).symm
  · have hLevels (j : Nat) : root.level (0 + j) = [] ↔ w.length < j := by
      rw [Nat.zero_add, ← List.length_eq_zero_iff, level_length, List.length_eq_zero_iff,
        List.eq_nil_iff_forall_not_mem]
      simp only [mem_levelWords hLabelled, not_and]
      constructor
      · intro hNone
        by_contra hLt
        have hLength : (w.take j).length = j := by
          rw [List.length_take]
          omega
        exact hNone _ (isPath_prefixed hw (List.take_prefix j w)) hLength
      · rintro hLt v hv rfl
        exact absurd (hLe v hv) (Nat.not_le.mpr hLt)
    have hStart : getBFS root = bfsLoop ⟨[], root.level 0, (root.level 0).length, 0⟩ := by
      cases root with
      | null => cases hChar
      | node c childNodes => rfl
    rw [hStart, bfsLoop_levels root [] hLevels]
    simp only [Nat.zero_add, level_chars hLabelled, List.nil_append]

/-- "ab" and "c" added and "ab" deleted again. -/
theorem getBFS_lines_deleted :
    ∃ root, Reached 32 root ∧ root.IsPath [99] ∧ ¬ root.IsPath [97] ∧
      ∃ (height : Nat) (paths : Nat → List JString), (∀ w, root.IsPath w → w.length ≤ height) ∧
        getBFS root =
          ((List.range height).flatMap fun d => (paths (d + 1)).filterMap List.getLast? ++ [10]) ++
            [10] := by
  have hAdded : Reached 32 (addNodes (.new 32) [[97, 98], [99]]).1 :=
    .added (.added .new (by simp [IsLetter]) (rfl : addNode (.new 32) [97, 98] = (_, none)))
      (by simp [IsLetter]) (rfl : addNode _ [99] = (_, none))
  have hReached : Reached 32 (delNode (addNodes (.new 32) [[97, 98], [99]]).1 [97, 98]).1 :=
    .deleted hAdded (rfl : delNode _ [97, 98] = (_, .ok false))
  obtain ⟨height, paths, _, hLe, _, hBFS⟩ := getBFS_lines hReached
  exact ⟨_, hReached, trivial, id, height, paths, hLe, hBFS⟩

end Trie

end AndroidDemo.Util
