import AndroidDemo.Util.TrieListing
import Mathlib.Data.Set.Finite.Lattice

/-! # What `delNode` deletes

The recursion stops at the first node on the path of the word that has no other
child, and the link above that node is cut. All words below it go, and nothing
is cut when that node is the root.
-/

namespace AndroidDemo.Util

open AndroidDemo.Java AndroidDemo.Words

namespace Node

theorem isPath_prefixed {n : Node} {v w : JString} (h : n.IsPath w) (hvw : v <+: w) :
    n.IsPath v := by
  induction v generalizing n w with
  | nil =>
    cases n with
    | null => cases w <;> exact h.elim
    | node c childNodes => trivial
  | cons u v ih =>
    obtain ⟨w, rfl, hBelow⟩ := List.cons_prefix_iff.mp hvw
    cases n with
    | null => exact h.elim
    | node c childNodes =>
      simp only [IsPath] at h ⊢
      split at h
      · exact h
      · exact ih h hBelow

theorem paths_finite (n : Node) : n.paths.Finite := by
  induction n with
  | null =>
    have hEmpty : paths .null = ∅ := by
      ext v
      simp [IsPath]
    rw [hEmpty]
    exact Set.finite_empty
  | node c childNodes ih =>
    have hFinite := Set.finite_iUnion fun i : Fin 26 => (ih i).image (UInt16.ofNat (97 + i) :: ·)
    apply (hFinite.insert []).subset
    intro v hv
    cases v with
    | nil => exact Set.mem_insert _ _
    | cons u v =>
      refine Set.mem_insert_of_mem _ (Set.mem_iUnion.mpr ?_)
      cases hu : childIndex u with
      | none =>
        have hPath : (Node.node c childNodes).IsPath (u :: v) := hv
        simp [IsPath, hu] at hPath
      | some i =>
        refine ⟨i, v, (isPath_cons hu).mp hv, ?_⟩
        rw [List.cons.injEq]
        refine ⟨UInt16.toNat_inj.mp ?_, rfl⟩
        rw [toNat_of_childIndex hu, UInt16.toNat_ofNat']
        omega

theorem branches_nil_iff {c : UInt16} {childNodes : Fin 26 → Node} {i : Fin 26}
    (hLabelled : (Node.node c childNodes).Labelled) (hi : (childNodes i).isNull = false) :
    Branches (Node.node c childNodes).paths [] ↔ ∃ j, j ≠ i ∧ (childNodes j).isNull = false := by
  have hChild (j : Fin 26) (hj : (childNodes j).isNull = false) :
      ∃ u, childIndex u = some j ∧ (Node.node c childNodes).IsPath [u] := by
    obtain ⟨d, hd⟩ := exists_char_of_child hLabelled hj
    exact ⟨d, hd, (isPath_singleton hd).mpr hj⟩
  constructor
  · rintro ⟨u, v, huv, hu, hv⟩
    have hIndex (w : UInt16) (hw : (Node.node c childNodes).IsPath [w]) :
        ∃ j, childIndex w = some j ∧ (childNodes j).isNull = false := by
      cases hj : childIndex w with
      | none => simp [IsPath, hj] at hw
      | some j => exact ⟨j, rfl, (isPath_singleton hj).mp hw⟩
    obtain ⟨j, hj, hjNode⟩ := hIndex u hu
    obtain ⟨j', hj', hjNode'⟩ := hIndex v hv
    by_cases hji : j = i
    · refine ⟨j', ?_, hjNode'⟩
      rintro rfl
      exact huv (childIndex_inj hj (hji ▸ hj'))
    · exact ⟨j, hji, hjNode⟩
  · rintro ⟨j, hji, hj⟩
    obtain ⟨u, hu, hPath⟩ := hChild j hj
    obtain ⟨v, hv, hPath'⟩ := hChild i hi
    refine ⟨u, v, ?_, hPath, hPath'⟩
    rintro rfl
    exact hji (Option.some.inj (hu.symm.trans hv))

end Node

namespace Trie

open Node

theorem foldlM_and {α : Type} {step : Bool → α → Except RuntimeException Bool} {keeps : α → Bool}
    (hStep : ∀ del x, step del x = .ok (del && keeps x)) (xs : List α) (del : Bool) :
    xs.foldlM step del = .ok (del && xs.all keeps) := by
  induction xs generalizing del with
  | nil => simp [pure, Except.pure]
  | cons x xs ih =>
    rw [List.foldlM_cons, hStep]
    simp only [bind, Except.bind]
    rw [ih, List.all_cons, Bool.and_assoc]

theorem delLoop_of_child {c : UInt16} {childNodes : Fin 26 → Node} {i : Fin 26}
    (hLabelled : (Node.node c childNodes).Labelled) (hi : (childNodes i).isNull = false) :
    delLoop childNodes (childNodes i) = .ok true ∧ ¬ Branches (Node.node c childNodes).paths [] ∨
      delLoop childNodes (childNodes i) = .ok false ∧ Branches (Node.node c childNodes).paths [] := by
  have hStep (del : Bool) (j : Fin 26) : delStep (childNodes i) del (childNodes j) =
      .ok (del && ((childNodes j).isNull || j == i)) := by
    cases hNode : childNodes i with
    | null => simp [hNode, isNull] at hi
    | node d grandChildren =>
      have hd : childIndex d = some i := (hLabelled i).1 d (by simp [hNode, char?])
      cases hNode' : childNodes j with
      | null => simp [delStep, isNull, pure, Except.pure]
      | node e grandChildren' =>
        have he : childIndex e = some j := (hLabelled j).1 e (by simp [hNode', char?])
        by_cases hji : j = i
        · have hEq : e = d := childIndex_inj (hji ▸ he) hd
          simp [delStep, hEq, hji, pure, Except.pure]
        · have hNe : e ≠ d := by
            rintro rfl
            exact hji (Option.some.inj (he.symm.trans hd))
          simp [delStep, hNe, hji, isNull, pure, Except.pure]
  have hLoop : delLoop childNodes (childNodes i) =
      .ok ((List.finRange 26).all fun j => (childNodes j).isNull || j == i) := by
    rw [delLoop, foldlM_and hStep, Bool.true_and]
  rw [hLoop, branches_nil_iff hLabelled hi]
  cases hAll : (List.finRange 26).all fun j => (childNodes j).isNull || j == i with
  | true =>
    left
    refine ⟨rfl, ?_⟩
    rintro ⟨j, hji, hj⟩
    have hj' := List.all_eq_true.mp hAll j (List.mem_finRange j)
    simp [hji, hj] at hj'
  | false =>
    right
    refine ⟨rfl, ?_⟩
    obtain ⟨j, _, hj⟩ := List.all_eq_false.mp hAll
    simp only [Bool.or_eq_true, beq_iff_eq, not_or, Bool.not_eq_true] at hj
    exact ⟨j, hj.2, hj.1⟩

theorem delLoop_of_null (childNodes : Fin 26 → Node) :
    (delLoop childNodes .null = .ok true ∧ ∀ i, (childNodes i).isNull) ∨
      delLoop childNodes .null = .error .nullPointer ∧ ∃ i, (childNodes i).isNull = false := by
  have hLoop (children : List (Fin 26)) (del : Bool) :
      children.foldlM (fun del i => delStep .null del (childNodes i)) del =
        if ∀ i ∈ children, (childNodes i).isNull then .ok del else .error .nullPointer := by
    induction children with
    | nil => simp [pure, Except.pure]
    | cons i children ih =>
      rw [List.foldlM_cons]
      cases hNode : childNodes i with
      | null =>
        have hNull : (childNodes i).isNull = true := by
          rw [hNode]
          rfl
        have hSkip : delStep .null del .null = .ok del := rfl
        rw [hSkip]
        simp only [bind, Except.bind, ih, List.forall_mem_cons, hNull, true_and]
      | node c grandChildren =>
        simp [delStep, throw, throwThe, MonadExceptOf.throw, bind, Except.bind, hNode, isNull]
  have hAll := hLoop (List.finRange 26) true
  by_cases hLeaf : ∀ i, (childNodes i).isNull
  · left
    rw [if_pos fun i _ => hLeaf i] at hAll
    exact ⟨hAll, hLeaf⟩
  · right
    rw [if_neg fun h => hLeaf fun i => h i (List.mem_finRange i)] at hAll
    obtain ⟨i, hi⟩ := not_forall.mp hLeaf
    exact ⟨hAll, i, by simpa using hi⟩

/-! ## Deleting a listed word -/

theorem labelled_update {c : UInt16} {childNodes : Fin 26 → Node} {i : Fin 26} {child : Node}
    (hLabelled : (Node.node c childNodes).Labelled) (hChild : child.Labelled)
    (hChar : ∀ d ∈ child.char?, childIndex d = some i) :
    (Node.node c (Function.update childNodes i child)).Labelled := by
  intro j
  by_cases hj : j = i
  · subst hj
    rw [Function.update_self]
    exact ⟨hChar, hChild⟩
  · rw [Function.update_of_ne hj]
    exact hLabelled j

/-- Where a node keeps another child, the words that are left are decided below. -/
theorem isMaximal_update_iff {c u : UInt16} {childNodes : Fin 26 → Node} {i j : Fin 26}
    (child : Node) (w : JString) (hu : childIndex u = some i) (hji : j ≠ i) (hj : (childNodes j).isNull = false)
    (hLabelled : (Node.node c childNodes).Labelled) :
    (∀ v, IsMaximal (Node.node c (Function.update childNodes i child)).paths v ↔
      IsMaximal (Node.node c childNodes).paths v ∧ v ≠ u :: w) ↔
    ∀ v, IsMaximal child.paths v ↔ IsMaximal (childNodes i).paths v ∧ v ≠ w := by
  have hNot (children : Fin 26 → Node) (h : children j = childNodes j) :
      ¬ IsMaximal (Node.node c children).paths [] := by
    intro hMax
    obtain ⟨d, hd⟩ := exists_char_of_child hLabelled hj
    have hPath : (Node.node c children).IsPath [d] := by rwa [isPath_singleton hd, h]
    cases (isMaximal_nil.mp hMax).2 [d] hPath
  constructor
  · intro h v
    have hv := h (u :: v)
    rw [isMaximal_cons, isMaximal_cons, after_paths hu, after_paths hu, Function.update_self] at hv
    simpa using hv
  · intro h v
    cases v with
    | nil =>
      refine iff_of_false (hNot _ (Function.update_of_ne hji _ _)) fun hMax => ?_
      exact hNot _ rfl hMax.1
    | cons x v =>
      cases hx : childIndex x with
      | none =>
        have hPath (children : Fin 26 → Node) : ¬ IsMaximal (Node.node c children).paths (x :: v) := by
          intro hMax
          have hIn : (Node.node c children).IsPath (x :: v) := hMax.1
          simp [IsPath, hx] at hIn
        exact iff_of_false (hPath _) fun hMax => hPath _ hMax.1
      | some l =>
        rw [isMaximal_cons, isMaximal_cons, after_paths hx, after_paths hx]
        by_cases hl : l = i
        · have hxu : x = u := childIndex_inj hx (hl ▸ hu)
          subst hl
          rw [Function.update_self, h v, hxu]
          simp
        · have hxu : x ≠ u := by
            rintro rfl
            exact hl (Option.some.inj (hx.symm.trans hu))
          rw [Function.update_of_ne hl]
          simp [hxu]

/-- What becomes of a listed word: nothing happens at a node that does not
branch, and elsewhere the words that are left are the others if and only if all
branching nodes lie above the cut. -/
theorem delNode_listed {n : Node} (hLabelled : n.Labelled) {w : JString}
    (hMax : IsMaximal n.paths w) :
    delNode n w = (n, .ok true) ∧ ¬ Branches n.paths [] ∨
      ∃ n', delNode n w = (n', .ok false) ∧ Branches n.paths [] ∧ n'.Labelled ∧ n'.char? = n.char? ∧
        ((∀ v, IsMaximal n'.paths v ↔ IsMaximal n.paths v ∧ v ≠ w) ↔ BranchesFromRoot n.paths w) := by
  induction w generalizing n with
  | nil =>
    left
    refine ⟨by cases n <;> rfl, ?_⟩
    rintro ⟨u, _, _, hu, _⟩
    cases (isMaximal_nil.mp hMax).2 _ hu
  | cons u w ih =>
    cases n with
    | null => exact hMax.1.elim
    | node c childNodes =>
      cases hu : childIndex u with
      | none =>
        have hPath : (Node.node c childNodes).IsPath (u :: w) := hMax.1
        simp [IsPath, hu] at hPath
      | some i =>
        rw [isMaximal_cons, after_paths hu] at hMax
        have hi : (childNodes i).isNull = false :=
          isPath_nil.mp (isPath_prefixed hMax.1 List.nil_prefix)
        rcases delLoop_of_child hLabelled hi with ⟨hLoop, hBranches⟩ | ⟨hLoop, hBranches⟩
        · exact .inl ⟨by simp only [delNode, hu, hLoop], hBranches⟩
        · right
          obtain ⟨j, hji, hj⟩ := (branches_nil_iff hLabelled hi).mp hBranches
          have hUpdate (child : Node) := isMaximal_update_iff child w hu hji hj hLabelled
          have hRoot : BranchesFromRoot (Node.node c childNodes).paths (u :: w) ↔
              BranchesFromRoot (childNodes i).paths w := by
            rw [branchesFromRoot_cons hBranches, after_paths hu]
          rcases ih (hLabelled i).2 hMax with ⟨hDel, hBelow⟩ | ⟨child, hDel, _, hChild, hChar, hLeft⟩
          · refine ⟨.node c (Function.update childNodes i .null), ?_, hBranches, ?_, rfl, ?_⟩
            · simp only [delNode, hu, hLoop, hDel]
            · exact labelled_update hLabelled trivial (by simp [char?])
            · rw [hUpdate, hRoot, branchesFromRoot_of_unbranched hBelow, unbranched_iff
                (paths_finite _) (fun _ hv p hp => isPath_prefixed hv hp) hMax]
              refine forall_congr' fun v => ?_
              have hNull : ¬ IsMaximal Node.null.paths v := fun h => h.1.elim
              simp [hNull]
          · refine ⟨.node c (Function.update childNodes i child), ?_, hBranches, ?_, rfl, ?_⟩
            · simp only [delNode, hu, hLoop, hDel]
            · exact labelled_update hLabelled hChild fun d hd => (hLabelled i).1 d (hChar ▸ hd)
            · rw [hUpdate, hRoot, hLeft]

/-- `getDFS` lists these words, each behind the character of the root. -/
def Lists (root : Node) (r : UInt16) (listing : List JString) : Prop :=
  ∀ p R, getDFS root p R = .ok (p ++ [r], R ++ listing.map (p ++ [r] ++ ·))

theorem lists_iff {n : Node} {r : UInt16} (hChar : n.char? = some r) {listing : List JString} :
    Lists n r listing ↔ listing = n.leafWords := by
  constructor
  · intro h
    have hEq := (h [] []).symm.trans (getDFS_eq hChar [] [])
    simp only [Except.ok.injEq, Prod.mk.injEq, true_and, List.nil_append] at hEq
    exact List.map_injective_iff.mpr (List.append_right_injective [r]) hEq
  · rintro rfl
    exact getDFS_eq hChar

theorem leafWords_eq_filter_iff {n n' : Node} (h : n.Labelled) (h' : n'.Labelled) (w : JString) :
    n.leafWords.filter (· ≠ w) = n'.leafWords ↔
      ∀ v, IsMaximal n'.paths v ↔ IsMaximal n.paths v ∧ v ≠ w := by
  have hMem (v : JString) : v ∈ n.leafWords.filter (· ≠ w) ↔ IsMaximal n.paths v ∧ v ≠ w := by
    rw [List.mem_filter, mem_leafWords h, decide_eq_true_iff]
  constructor
  · intro hEq v
    rw [← mem_leafWords h', ← hEq, hMem]
  · intro hSame
    apply ((leafWords_sorted h).filter _).eq_of_mem_iff (leafWords_sorted h')
    intro v
    rw [hMem, mem_leafWords h', hSame]

theorem branchesFromRoot_added {root : Node} {r : UInt16} {words : List JString} {w : JString}
    (hPaths : root.paths = {v | v ∈ (new r).paths ∨ v ∈ prefixes {word | word ∈ words}}) :
    BranchesFromRoot root.paths w ↔ BranchesFromRoot (prefixes {word | word ∈ words}) w := by
  have hBranches (p : JString) :
      Branches root.paths p ↔ Branches (prefixes {word | word ∈ words}) p := by
    simp [Branches, hPaths, isPath_new]
  simp only [BranchesFromRoot, hBranches]

/-- Of a trie with at least two words `delNode` removes exactly `w` if and only
if no node on the path of `w` that has a single child stands above a node with
several. -/
theorem delNode_removes_iff (r : UInt16) (words : List JString)
    (hWords : ∀ word ∈ words, ∀ u ∈ word, IsLetter u) :
    ∃ (root : Node) (listing : List JString), addNodes (.new r) words = (root, none) ∧
      Lists root r listing ∧
      (2 ≤ listing.length → ∀ w ∈ listing,
        ((∃ root' b, delNode root w = (root', .ok b) ∧ Lists root' r (listing.filter (· ≠ w))) ↔
          BranchesFromRoot (prefixes {word | word ∈ words}) w)) := by
  obtain ⟨root, hAdd, hChar, hLabelled, hPaths⟩ :=
    addNodes_added words (.new r) rfl hWords (labelled_new r)
  refine ⟨root, root.leafWords, hAdd, (lists_iff hChar).mpr rfl, fun hTwo w hw => ?_⟩
  have hMax := (mem_leafWords hLabelled).mp hw
  rw [← branchesFromRoot_added hPaths]
  rcases delNode_listed hLabelled hMax with ⟨hDel, hNone⟩ | ⟨n', hDel, _, hLabelled', hChar', hLeft⟩
  · refine iff_of_false ?_ fun hRoot => ?_
    · rintro ⟨root', b, hDel', hLists⟩
      cases hDel.symm.trans hDel'
      rw [lists_iff hChar] at hLists
      rw [← hLists] at hw
      simp at hw
    · rw [branchesFromRoot_of_unbranched hNone, unbranched_iff (paths_finite _)
        (fun _ hv p hp => isPath_prefixed hv hp) hMax] at hRoot
      have hAll : ∀ v ∈ root.leafWords, v = w := fun v hv => hRoot v ((mem_leafWords hLabelled).mp hv)
      have hNodup : root.leafWords.Nodup := by
        apply (leafWords_sorted hLabelled).imp
        rintro v _ hLt rfl
        exact List.lt_irrefl v hLt
      rw [List.eq_replicate_of_mem hAll, List.nodup_replicate] at hNodup
      omega
  · rw [← hLeft, ← leafWords_eq_filter_iff hLabelled hLabelled']
    constructor
    · rintro ⟨root', b, hDel', hLists⟩
      cases hDel.symm.trans hDel'
      exact (lists_iff (hChar'.trans hChar)).mp hLists
    · intro hEq
      exact ⟨n', false, hDel, (lists_iff (hChar'.trans hChar)).mpr hEq⟩

/-- "ab" and "c", without "ab". -/
theorem delNode_removes_ab :
    ∃ root root' b, addNodes (.new 32) [[97, 98], [99]] = (root, none) ∧
      delNode root [97, 98] = (root', .ok b) ∧ Lists root' 32 [[99]] := by
  obtain ⟨root, listing, hAdd, hLists, hDel⟩ :=
    delNode_removes_iff 32 [[97, 98], [99]] (by simp [IsLetter])
  have hRoot : root = (addNodes (.new 32) [[97, 98], [99]]).1 := by rw [hAdd]
  have hListing : listing.map ([32] ++ ·) = [[97, 98], [99]].map ([32] ++ ·) := by
    have hDFS : getDFS root [] [] = .ok ([32], [[97, 98], [99]].map ([32] ++ ·)) := by
      rw [hRoot]
      decide
    have hEq := (hLists [] []).symm.trans hDFS
    simpa only [Except.ok.injEq, Prod.mk.injEq, List.nil_append, true_and] using hEq
  have hWords := List.map_injective_iff.mpr (List.append_right_injective [32]) hListing
  subst hWords
  have hRootOnly : BranchesFromRoot (prefixes {word | word ∈ [[97, 98], [(99 : UInt16)]]}) [97, 98] := by
    rintro p q hpq - ⟨u, v, huv, ⟨x, hx, hux⟩, y, hy, hvy⟩
    cases q with
    | nil =>
      rw [List.prefix_nil.mp hpq]
      exact ⟨u, v, huv, ⟨x, hx, hux⟩, y, hy, hvy⟩
    | cons z q =>
      have hHead {w : JString} {c : UInt16} (h : z :: q ++ [c] <+: w) : w.head? = some z := by
        obtain ⟨rest, rfl⟩ := h
        rfl
      have hHeads : x.head? = y.head? := (hHead hux).trans (hHead hvy).symm
      have hxy : x = y := by
        simp only [Set.mem_ofPred_eq, List.mem_cons, List.not_mem_nil, or_false] at hx hy
        rcases hx with rfl | rfl <;> rcases hy with rfl | rfl
        · rfl
        · exact absurd hHeads (by decide)
        · exact absurd hHeads (by decide)
        · rfl
      exact (huv (eq_of_snoc_prefixes hux (hxy ▸ hvy))).elim
  obtain ⟨root', b, hDel, hLists'⟩ := (hDel (by decide) [97, 98] (by simp)).mpr hRootOnly
  exact ⟨root, root', b, hAdd, hDel, hLists'⟩

/-- In the trie of "ab" and "ac" the root has a single child. -/
theorem not_delNode_removes :
    ¬ ∀ (r : UInt16) (words : List JString) (root : Node) (listing : List JString) (w : JString),
      (∀ word ∈ words, word ≠ [] ∧ ∀ u ∈ word, IsLetter u) → addNodes (.new r) words = (root, none) →
      getDFS root [] [] = .ok ([r], listing.map (r :: ·)) → 2 ≤ listing.length → w ∈ listing →
      ∃ root' b, delNode root w = (root', .ok b) ∧
        getDFS root' [] [] = .ok ([r], (listing.filter (· ≠ w)).map (r :: ·)) := by
  intro hAll
  obtain ⟨root', b, hDel, hDFS⟩ := hAll 32 [[97, 98], [97, 99]]
    (addNodes (.new 32) [[97, 98], [97, 99]]).1 [[97, 98], [97, 99]] [97, 98] (by simp [IsLetter]) rfl
    (by decide) (by decide) (by simp)
  obtain rfl : _ = root' := congrArg Prod.fst hDel
  revert hDFS
  decide

/-! ## Deleting an absent word -/

theorem ne_of_delNode_false {n n' : Node} {w : JString} (h : delNode n w = (n', .ok false)) :
    n' ≠ n := by
  induction w generalizing n n' with
  | nil => cases n <;> cases h
  | cons u w ih =>
    cases n with
    | null => cases h
    | node c childNodes =>
      rw [delNode] at h
      split at h
      · cases h
      · rename_i i _
        split at h
        · cases h
        · cases h
        · rename_i hLoop
          split at h
          · cases h
          · cases h
            intro hEq
            have hNull : childNodes i = .null := by
              have hAt := congrFun (Node.node.inj hEq).2 i
              rwa [Function.update_self, eq_comm] at hAt
            rw [hNull] at hLoop
            rcases delLoop_of_null childNodes with ⟨hTrue, _⟩ | ⟨hThrows, _⟩
            · cases hLoop.symm.trans hTrue
            · cases hLoop.symm.trans hThrows
          · rename_i child hDel
            cases h
            intro hEq
            have hAt := congrFun (Node.node.inj hEq).2 i
            rw [Function.update_self] at hAt
            exact ih hDel hAt

theorem delNode_same_iff {c u : UInt16} {childNodes : Fin 26 → Node} {i : Fin 26} {w : JString}
    (hLabelled : (Node.node c childNodes).Labelled) (hu : childIndex u = some i) :
    (∃ b, delNode (.node c childNodes) (u :: w) = (.node c childNodes, .ok b)) ↔
      ∀ j, (childNodes j).isNull = false → j = i := by
  have hTrue (hLoop : delLoop childNodes (childNodes i) = .ok true) :
      ∃ b, delNode (.node c childNodes) (u :: w) = (.node c childNodes, .ok b) :=
    ⟨true, by simp only [delNode, hu, hLoop]⟩
  cases hi : (childNodes i).isNull with
  | true =>
    have hNull : childNodes i = .null := by
      cases hNode : childNodes i with
      | null => rfl
      | node d grandChildren => simp [hNode, isNull] at hi
    rcases delLoop_of_null childNodes with ⟨hLoop, hAll⟩ | ⟨hLoop, j, hj⟩
    · refine iff_of_true (hTrue (hNull ▸ hLoop)) fun j hj => ?_
      rw [hAll j] at hj
      cases hj
    · refine iff_of_false ?_ fun hOnly => ?_
      · rintro ⟨b, hDel⟩
        simp [delNode, hu, hNull, hLoop] at hDel
      · rw [hOnly j hj, hi] at hj
        cases hj
  | false =>
    rcases delLoop_of_child hLabelled hi with ⟨hLoop, hBranches⟩ | ⟨hLoop, hBranches⟩
    · refine iff_of_true (hTrue hLoop) fun j hj => ?_
      by_contra hji
      exact hBranches ((branches_nil_iff hLabelled hi).mpr ⟨j, hji, hj⟩)
    · refine iff_of_false ?_ fun hOnly => ?_
      · rintro ⟨b, hDel⟩
        have hFalse : b = false := by
          simp only [delNode, hu, hLoop] at hDel
          split at hDel
          · cases congrArg Prod.snd hDel
          · exact (Except.ok.inj (congrArg Prod.snd hDel)).symm
          · exact (Except.ok.inj (congrArg Prod.snd hDel)).symm
        exact ne_of_delNode_false (hFalse ▸ hDel) rfl
      · obtain ⟨j, hji, hj⟩ := (branches_nil_iff hLabelled hi).mp hBranches
        exact hji (hOnly j hj)

/-- `delNode` leaves a trie as it is if and only if no added word begins with
another letter than `w`. -/
theorem delNode_unchanged_iff (r : UInt16) (words : List JString)
    (hWords : ∀ word ∈ words, ∀ u ∈ word, IsLetter u) :
    ∃ root, addNodes (.new r) words = (root, none) ∧
      ∀ w : JString, w ≠ [] → (∀ u ∈ w, IsLetter u) →
        ((∃ b, delNode root w = (root, .ok b)) ↔ ∀ word ∈ words, word ≠ [] → word.head? = w.head?) := by
  obtain ⟨root, hAdd, hChar, hLabelled, hPaths⟩ :=
    addNodes_added words (.new r) rfl hWords (labelled_new r)
  refine ⟨root, hAdd, fun w hw hLetters => ?_⟩
  obtain ⟨u, w, rfl⟩ := List.exists_cons_of_ne_nil hw
  obtain ⟨i, hi⟩ := exists_childIndex (hLetters u List.mem_cons_self)
  cases root with
  | null => cases hChar
  | node c childNodes =>
    have hFirst (x : UInt16) : (Node.node c childNodes).IsPath [x] ↔
        ∃ word ∈ words, [x] <+: word := by
      have hMem : [x] ∈ (Node.node c childNodes).paths ↔ ∃ word ∈ words, [x] <+: word := by
        rw [hPaths]
        simp [isPath_new]
      exact hMem
    rw [delNode_same_iff hLabelled hi]
    constructor
    · intro hOnly word hword hNe
      obtain ⟨x, word, rfl⟩ := List.exists_cons_of_ne_nil hNe
      obtain ⟨j, hj⟩ := exists_childIndex (hWords _ hword x List.mem_cons_self)
      have hPath := (hFirst x).mpr ⟨_, hword, by simp⟩
      have hji := hOnly j ((isPath_singleton hj).mp hPath)
      rw [List.head?_cons, List.head?_cons, childIndex_inj hj (hji ▸ hi)]
    · intro hHead j hj
      obtain ⟨d, hd⟩ := exists_char_of_child hLabelled hj
      obtain ⟨word, hword, x, rfl⟩ := (hFirst d).mp ((isPath_singleton hd).mpr hj)
      have hdu := hHead _ hword (by simp)
      simp only [List.singleton_append, List.head?_cons, Option.some.injEq] at hdu
      exact Option.some.inj (hd.symm.trans (hdu ▸ hi))

theorem delNode_unchanged_ab :
    ∃ root, addNodes (.new 32) [[97, 98]] = (root, none) ∧ ∃ b, delNode root [97] = (root, .ok b) := by
  obtain ⟨root, hAdd, hSame⟩ := delNode_unchanged_iff 32 [[97, 98]] (by simp [IsLetter])
  exact ⟨root, hAdd, (hSame [97] (by simp) (by simp [IsLetter])).mpr (by simp)⟩

/-- The trie of "a" and "b" has no child for "c". -/
theorem not_delNode_unchanged :
    ¬ ∀ (r : UInt16) (words : List JString) (root : Node) (R : List JString) (w : JString),
      (∀ word ∈ words, ∀ u ∈ word, IsLetter u) → addNodes (.new r) words = (root, none) →
      w ≠ [] → (∀ u ∈ w, IsLetter u) → getDFS root [] [] = .ok ([r], R) → r :: w ∉ R →
      ∃ b, delNode root w = (root, .ok b) := by
  intro hAll
  obtain ⟨b, hDel⟩ := hAll 32 [[97], [98]] (addNodes (.new 32) [[97], [98]]).1 [[32, 97], [32, 98]]
    [99] (by simp [IsLetter]) rfl (by simp) (by simp [IsLetter]) (by decide) (by simp)
  have hThrown := congrArg Prod.snd hDel
  revert hThrown
  cases b <;> decide

end Trie

end AndroidDemo.Util
