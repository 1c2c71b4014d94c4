import AndroidDemo.Util.TrieCanonical

/-! # The link that `delNode` cuts

For any word, listed or not, a call of `delNode` changes the trie by at most one
link, and adding the word again mends it only when nothing else hung there.
-/

namespace AndroidDemo.Util

open AndroidDemo.Java AndroidDemo.Words

namespace Trie

open Node

/-- The child for `u` behind `p` is cut off, with everything below it. -/
structure Cuts (n : Node) (w p : JString) (u : UInt16) (n' : Node) : Prop where
  on : p ++ [u] <+: w
  child : n.IsPath (p ++ [u])
  above : ∀ q, q <+: p → Branches n.paths q
  stops : p ++ [u] = w ∨ ∀ x, n.IsPath (p ++ [u, x]) → p ++ [u, x] <+: w
  paths : ∀ v, n'.IsPath v ↔ n.IsPath v ∧ ¬ p ++ [u] <+: v
  labelled : n'.Labelled
  char? : n'.char? = n.char?

/-- Behind `p` the word goes on with a character that is no letter, or with a
letter that is missing where others are not. -/
structure Throws (n : Node) (w p : JString) (u : UInt16) (thrown : RuntimeException) : Prop where
  on : p ++ [u] <+: w
  node : n.IsPath p
  above : ∀ q, q <+: p → q ≠ p → Branches n.paths q
  why : thrown = .arrayIndexOutOfBounds ∧ ¬ IsLetter u ∨
    thrown = .nullPointer ∧ IsLetter u ∧ ¬ n.IsPath (p ++ [u]) ∧ ∃ x, n.IsPath (p ++ [x])

theorem branches_cons {c u : UInt16} {childNodes : Fin 26 → Node} {i : Fin 26} {q : JString}
    (hu : childIndex u = some i) :
    Branches (Node.node c childNodes).paths (u :: q) ↔ Branches (childNodes i).paths q := by
  simp only [Branches, List.cons_append, mem_paths, isPath_cons hu]

/-- What a child loses behind a prefix the node loses behind the longer one. -/
theorem isPath_update_iff {c u : UInt16} {childNodes : Fin 26 → Node} {i : Fin 26} {p : JString}
    {child : Node} (hu : childIndex u = some i)
    (hChild : ∀ v, child.IsPath v ↔ (childNodes i).IsPath v ∧ ¬ p <+: v) (v : JString) :
    (Node.node c (Function.update childNodes i child)).IsPath v ↔
      (Node.node c childNodes).IsPath v ∧ ¬ u :: p <+: v := by
  cases v with
  | nil => simp [IsPath]
  | cons y v =>
    cases hy : childIndex y with
    | none => simp [IsPath, hy]
    | some j =>
      rw [isPath_cons hy, isPath_cons hy, List.cons_prefix_cons]
      by_cases hj : j = i
      · subst hj
        rw [Function.update_self, hChild, childIndex_inj hu hy]
        simp
      · have hNe : u ≠ y := by
          rintro rfl
          exact hj (Option.some.inj (hy.symm.trans hu))
        simp [Function.update_of_ne hj, hNe]

theorem Cuts.below {c u x : UInt16} {childNodes : Fin 26 → Node} {i : Fin 26} {w p : JString}
    {child : Node} (hu : childIndex u = some i) (hLabelled : (Node.node c childNodes).Labelled)
    (hBranches : Branches (Node.node c childNodes).paths []) (h : Cuts (childNodes i) w p x child) :
    Cuts (.node c childNodes) (u :: w) (u :: p) x
      (.node c (Function.update childNodes i child)) where
  on := List.cons_prefix_cons.mpr ⟨rfl, h.on⟩
  child := (isPath_cons hu).mpr h.child
  above := by
    intro q hq
    cases q with
    | nil => exact hBranches
    | cons y q =>
      obtain ⟨rfl, hBelow⟩ := List.cons_prefix_cons.mp hq
      exact (branches_cons hu).mpr (h.above q hBelow)
  stops := by
    rcases h.stops with hEnd | hOnly
    · exact .inl (by rw [List.cons_append, hEnd])
    · exact .inr fun y hy =>
        List.cons_prefix_cons.mpr ⟨rfl, hOnly y ((isPath_cons hu).mp hy)⟩
  paths := isPath_update_iff hu h.paths
  labelled := labelled_update hLabelled h.labelled fun d hd => (hLabelled i).1 d (h.char? ▸ hd)
  char? := rfl

/-- The link to the child itself is cut when the call for the child says so. -/
theorem Cuts.here {c u : UInt16} {childNodes : Fin 26 → Node} {i : Fin 26} {w : JString}
    (hu : childIndex u = some i) (hLabelled : (Node.node c childNodes).Labelled)
    (hBranches : Branches (Node.node c childNodes).paths []) (hi : (childNodes i).isNull = false)
    (hStops : w = [] ∨ ∀ x, (childNodes i).IsPath [x] → [x] <+: w) :
    Cuts (.node c childNodes) (u :: w) [] u (.node c (Function.update childNodes i .null)) where
  on := by simp
  child := (isPath_singleton hu).mpr hi
  above := by
    intro q hq
    rw [List.prefix_nil.mp hq]
    exact hBranches
  stops := by
    rcases hStops with rfl | hOnly
    · exact .inl rfl
    · exact .inr fun x hx => List.cons_prefix_cons.mpr ⟨rfl, hOnly x ((isPath_cons hu).mp hx)⟩
  paths := isPath_update_iff hu fun v => by simp [IsPath]
  labelled := labelled_update hLabelled trivial (by simp [Node.char?])
  char? := rfl

theorem Throws.below {c u x : UInt16} {childNodes : Fin 26 → Node} {i : Fin 26} {w p : JString}
    {thrown : RuntimeException} (hu : childIndex u = some i)
    (hBranches : Branches (Node.node c childNodes).paths [])
    (h : Throws (childNodes i) w p x thrown) :
    Throws (.node c childNodes) (u :: w) (u :: p) x thrown where
  on := List.cons_prefix_cons.mpr ⟨rfl, h.on⟩
  node := (isPath_cons hu).mpr h.node
  above := by
    intro q hq hNe
    cases q with
    | nil => exact hBranches
    | cons y q =>
      obtain ⟨rfl, hBelow⟩ := List.cons_prefix_cons.mp hq
      exact (branches_cons hu).mpr (h.above q hBelow fun hEq => hNe (by rw [hEq]))
  why := by
    simpa only [List.cons_append, isPath_cons hu] using h.why

theorem isNull_eq_true {n : Node} (h : n.isNull = true) : n = .null := by
  cases n with
  | null => rfl
  | node c childNodes => cases h

theorem exists_child_of_isPath {c x : UInt16} {childNodes : Fin 26 → Node}
    (h : (Node.node c childNodes).IsPath [x]) : ∃ j, (childNodes j).isNull = false := by
  cases hx : childIndex x with
  | none => simp [IsPath, hx] at h
  | some j => exact ⟨j, (isPath_singleton hx).mp h⟩

/-- The three outcomes of `delNode`. A call that throws has changed nothing. -/
theorem delNode_spec {n : Node} (hLabelled : n.Labelled) (hNode : n.isNull = false) (w : JString) :
    (delNode n w = (n, .ok true) ∧ (w = [] ∨ ∀ x, n.IsPath [x] → [x] <+: w)) ∨
    (∃ p u n', delNode n w = (n', .ok false) ∧ Cuts n w p u n') ∨
    ∃ p u thrown, delNode n w = (n, .error thrown) ∧ Throws n w p u thrown := by
  induction w generalizing n with
  | nil => exact .inl ⟨by cases n <;> rfl, .inl rfl⟩
  | cons u w ih =>
    cases n with
    | null => cases hNode
    | node c childNodes =>
      cases hu : childIndex u with
      | none =>
        have hNot : ¬ IsLetter u := fun h => by simp [isLetter_iff, hu] at h
        exact .inr (.inr ⟨[], u, _, by simp only [delNode, hu],
          { on := by simp, node := trivial, above := by simp, why := .inl ⟨rfl, hNot⟩ }⟩)
      | some i =>
        have hOnly {j : Fin 26} (hj : (childNodes j).isNull = false) :
            ∃ x, childIndex x = some j ∧ (Node.node c childNodes).IsPath [x] := by
          obtain ⟨x, hx⟩ := exists_char_of_child hLabelled hj
          exact ⟨x, hx, (isPath_singleton hx).mpr hj⟩
        cases hi : (childNodes i).isNull with
        | true =>
          have hNull := isNull_eq_true hi
          rcases delLoop_of_null childNodes with ⟨hLoop, hAll⟩ | ⟨hLoop, j, hj⟩
          · refine .inl ⟨by simp only [delNode, hu, hNull, hLoop], .inr fun x hx => ?_⟩
            obtain ⟨j, hj⟩ := exists_child_of_isPath hx
            rw [hAll j] at hj
            cases hj
          · obtain ⟨x, _, hx⟩ := hOnly hj
            have hLetter : IsLetter u := isLetter_iff.mpr (by rw [hu]; rfl)
            have hAbsent : ¬ (Node.node c childNodes).IsPath ([] ++ [u]) := by
              rw [List.nil_append, isPath_singleton hu, hi]
              simp
            exact .inr (.inr ⟨[], u, _, by simp only [delNode, hu, hNull, hLoop],
              { on := by simp, node := trivial, above := by simp
                why := .inr ⟨rfl, hLetter, hAbsent, x, hx⟩ }⟩)
        | false =>
          rcases delLoop_of_child hLabelled hi with ⟨hLoop, hBranches⟩ | ⟨hLoop, hBranches⟩
          · refine .inl ⟨by simp only [delNode, hu, hLoop], .inr fun x hx => ?_⟩
            have hSame : x = u := by
              by_contra hNe
              exact hBranches ⟨x, u, hNe, hx, (isPath_singleton hu).mpr hi⟩
            exact ⟨w, by rw [hSame, List.singleton_append]⟩
          · right
            rcases ih (hLabelled i).2 hi with ⟨hDel, hStops⟩ | ⟨p, x, child, hDel, hCuts⟩ |
              ⟨p, x, thrown, hDel, hThrows⟩
            · exact .inl ⟨[], u, _, by simp only [delNode, hu, hLoop, hDel],
                .here hu hLabelled hBranches hi hStops⟩
            · exact .inl ⟨u :: p, x, _, by simp only [delNode, hu, hLoop, hDel],
                hCuts.below hu hLabelled hBranches⟩
            · exact .inr ⟨u :: p, x, thrown,
                by simp only [delNode, hu, hLoop, hDel, Function.update_eq_self],
                hThrows.below hu hBranches⟩

/-- What the calls of `delNode` can do to a trie that any calls have led to: leave
it as it is, or cut one link on the path of the word, below nodes that all
branch and above what hangs there. Only this answers `false`. -/
theorem delNode_outcome (r : UInt16) (calls : List Call) (w : JString) :
    (delNode (afterCalls r calls) w = (afterCalls r calls, .ok true) ∧
      (w = [] ∨ ∀ x, (afterCalls r calls).IsPath [x] → [x] <+: w)) ∨
    (∃ p u root', delNode (afterCalls r calls) w = (root', .ok false) ∧
      Cuts (afterCalls r calls) w p u root') ∨
    ∃ p u thrown, delNode (afterCalls r calls) w = (afterCalls r calls, .error thrown) ∧
      Throws (afterCalls r calls) w p u thrown :=
  delNode_spec (rooted_afterCalls r calls).labelled (rooted_afterCalls r calls).isNull w

/-! ## Deleting a word and adding it again -/

/-- The cut takes nothing but the word when it is listed and all nodes above a
branching one branch as well. -/
theorem Cuts.only_iff {n n' : Node} {w p : JString} {u : UInt16} (h : Cuts n w p u n')
    (hw : n.IsPath w) :
    (∀ v, n.IsPath v → p ++ [u] <+: v → v <+: w) ↔
      IsMaximal n.paths w ∧ BranchesFromRoot n.paths w := by
  constructor
  · intro hOnly
    refine ⟨⟨hw, fun v hv hwv => ?_⟩, ?_⟩
    · exact (hwv.eq_of_length_le (hOnly v hv (h.on.trans hwv)).length_le).symm
    · rintro q q' hqq' hq'w ⟨a, b, hab, ha, hb⟩
      rcases Nat.lt_or_ge p.length q'.length with hLong | hShort
      · have hCut : p ++ [u] <+: q' :=
          List.prefix_of_prefix_length_le h.on hq'w (by simpa using Nat.succ_le_of_lt hLong)
        have hBelow {x : UInt16} (hx : n.IsPath (q' ++ [x])) : q' ++ [x] <+: w :=
          hOnly _ hx (hCut.trans (List.prefix_append _ _))
        exact absurd (eq_of_snoc_prefixes (hBelow ha) (hBelow hb)) hab
      · have hp : p <+: w := (List.prefix_append _ _).trans h.on
        exact h.above q (hqq'.trans (List.prefix_of_prefix_length_le hq'w hp hShort))
  · rintro ⟨hMax, hRoot⟩ v hv hCut
    by_contra hvw
    obtain ⟨q, a, b, hab, ha, hb⟩ :=
      exists_parting hvw fun hwv => hvw (hMax.2 v hv hwv ▸ List.prefix_rfl)
    -- they part below the link
    have hqw : q <+: w := (List.prefix_append _ _).trans hb
    have hLong : p.length < q.length := by
      by_contra hShort
      have haw : q ++ [a] <+: w :=
        (List.prefix_of_prefix_length_le ha hCut (by simpa using hShort)).trans h.on
      exact hab (eq_of_snoc_prefixes haw hb)
    have hCutq : p ++ [u] <+: q :=
      List.prefix_of_prefix_length_le h.on hqw (by simpa using Nat.succ_le_of_lt hLong)
    obtain ⟨x, y, hxy, hx, hy⟩ : Branches n.paths (p ++ [u]) :=
      hRoot (p ++ [u]) q hCutq hqw ⟨a, b, hab, isPath_prefixed hv ha, isPath_prefixed hw hb⟩
    rcases h.stops with rfl | hOne
    · have hLength := hb.length_le
      rw [List.length_append, List.length_append, List.length_singleton, List.length_singleton]
        at hLength
      omega
    · have hSnoc (z : UInt16) : p ++ [u] ++ [z] = p ++ [u, z] := List.append_assoc p [u] [z]
      rw [hSnoc] at hx hy
      have hxw := hOne x hx
      have hyw := hOne y hy
      rw [← hSnoc] at hxw hyw
      exact hxy (eq_of_snoc_prefixes hxw hyw)

theorem isLetter_of_isPath {n : Node} {w : JString} (h : n.IsPath w) : ∀ u ∈ w, IsLetter u := by
  induction w generalizing n with
  | nil => simp
  | cons u w ih =>
    cases n with
    | null => exact h.elim
    | node c childNodes =>
      cases hu : childIndex u with
      | none => simp [IsPath, hu] at h
      | some i =>
        rw [isPath_cons hu] at h
        exact List.forall_mem_cons.mpr ⟨isLetter_iff.mpr (by rw [hu]; rfl), ih h⟩

/-- A word that is deleted and added again gives back the trie if and only if it
was listed and no node on its path with a single child stands above a node with
several. -/
theorem addNode_delNode_iff (r : UInt16) (calls : List Call) {w : JString} {root' : Node}
    (hDel : delNode (afterCalls r calls) w = (root', .ok false)) :
    addNode root' w = (afterCalls r calls, none) ↔
      IsMaximal (afterCalls r calls).paths w ∧ BranchesFromRoot (afterCalls r calls).paths w := by
  have hRooted := rooted_afterCalls r calls
  generalize afterCalls r calls = root at hDel hRooted ⊢
  obtain ⟨p, u, hCuts⟩ : ∃ p u, Cuts root w p u root' := by
    rcases delNode_spec hRooted.labelled hRooted.isNull w with ⟨hTrue, _⟩ |
      ⟨p, u, n', hFalse, hCuts⟩ | ⟨p, u, thrown, hThrown, _⟩
    · cases hDel.symm.trans hTrue
    · cases hDel.symm.trans hFalse
      exact ⟨p, u, hCuts⟩
    · cases hDel.symm.trans hThrown
  have hRooted' : Rooted r root' := ⟨hCuts.char?.trans hRooted.char?, hCuts.labelled⟩
  constructor
  · intro hAdd
    have hLetters : ∀ u ∈ w, IsLetter u := by
      by_contra hBad
      rw [addNode_letters hRooted'.isNull (by simpa using hBad)] at hAdd
      cases congrArg Prod.snd hAdd
    obtain ⟨n, hAdd', hAdded⟩ := addNode_added hRooted'.isNull hLetters
    cases hAdd.symm.trans hAdd'
    refine (hCuts.only_iff ((hAdded.paths w).mpr (.inr List.prefix_rfl))).mp fun v hv hCut => ?_
    exact ((hAdded.paths v).mp hv).resolve_left fun hLeft => ((hCuts.paths v).mp hLeft).2 hCut
  · rintro ⟨hMax, hRoot⟩
    have hOnly := (hCuts.only_iff hMax.1).mpr ⟨hMax, hRoot⟩
    obtain ⟨n, hAdd, hAdded⟩ := addNode_added hRooted'.isNull (isLetter_of_isPath hMax.1)
    rw [hAdd]
    have hSame : n = root := by
      refine ext_paths (hAdded.labelled hCuts.labelled) hRooted.labelled
        (hAdded.char?.trans hCuts.char?) fun v => ?_
      rw [hAdded.paths, hCuts.paths]
      constructor
      · rintro (⟨hv, _⟩ | hvw)
        · exact hv
        · exact isPath_prefixed hMax.1 hvw
      · intro hv
        by_cases hCut : p ++ [u] <+: v
        · exact .inr (hOnly v hv hCut)
        · exact .inl ⟨hv, hCut⟩
    rw [hSame]

/-- "a" beside "b". -/
theorem addNode_delNode_a :
    ∃ root', delNode (afterCalls 32 [.addNode [97], .addNode [98]]) [97] = (root', .ok false) ∧
      addNode root' [97] = (afterCalls 32 [.addNode [97], .addNode [98]], none) := by
  refine ⟨_, rfl, (addNode_delNode_iff 32 _ rfl).mpr ?_⟩
  have hPaths (v : JString) : (afterCalls 32 [.addNode [97], .addNode [98]]).IsPath v ↔
      v = [] ∨ v <+: [97] ∨ v <+: [98] := by
    have hAdded := addCalls_isPath (show (Node.new 32).isNull = false from rfl) [[97], [98]] v
    rw [isPath_new] at hAdded
    exact hAdded.trans (by simp [letters, childIndex])
  refine ⟨⟨(hPaths _).mpr (by simp), fun v hv hwv => ?_⟩, ?_⟩
  · have hLength := hwv.length_le
    rcases (hPaths v).mp hv with rfl | hv | hv
    · cases hLength
    · exact (hwv.eq_of_length_le hv.length_le).symm
    · exact absurd (hwv.trans hv) (by decide)
  · rintro p q hpq hq ⟨a, b, hab, ha, hb⟩
    have hShort (x : UInt16) (hx : (afterCalls 32 [.addNode [97], .addNode [98]]).IsPath (q ++ [x])) :
        q = [] := by
      rcases (hPaths _).mp hx with hx | hx | hx
      · simp at hx
      · simpa using hx.length_le
      · simpa using hx.length_le
    have hq' := hShort a ha
    subst hq'
    rw [List.prefix_nil.mp hpq]
    exact ⟨a, b, hab, ha, hb⟩

end Trie

end AndroidDemo.Util
