import AndroidDemo.Launcher.Walk

/-! # When every entry of the launcher leads to its activity -/

namespace AndroidDemo.Launcher

open AndroidDemo.Java AndroidDemo.Words MainActivity

namespace Demos

variable {cm : CaseMapping} {d : Demos} {path : Option JString} {title : JString} {ri : ActivityInfo}

theorem directory_none (hTwo : ∀ a ∈ d.resolveInfos, 2 ≤ (segments a.label).length) :
    d.Directory none := by
  obtain ⟨a, ha⟩ := List.exists_mem_of_ne_nil _ d.nonempty
  refine ⟨a, ha, List.nil_prefix, fun hNil => ?_⟩
  have hLength := hTwo a ha
  rw [← hNil] at hLength
  cases hLength

theorem slash_notMem_of_lists (h : d.Directory path) (hri : ri ∈ d.resolveInfos)
    (hLists : lists path title ri) : slash ∉ title :=
  slash_notMem (List.mem_of_getElem? ((h.lists_iff hri).mp hLists).2)

/-! ## Unambiguous labels -/

/-- What `Unambiguous` says of a label that shares only the characters of a path. -/
theorem Directory.stray (h : d.Directory path) (hU : Unambiguous d.resolveInfos)
    {pre post : List ActivityInfo} (hSplit : d.resolveInfos = pre ++ ri :: post)
    (hPrefix : pathWithSlash path <+: ri.label)
    (hSegments : ¬ pathSegments path <+: segments ri.label) :
    ∃ title, (segments ri.label)[(pathSegments path).length]? = some title ∧
      (∃ a ∈ d.resolveInfos, pathSegments path ++ [title] <+: segments a.label) ∧
      ∀ a ∈ d.resolveInfos, segments a.label = pathSegments path ++ [title] → a ∈ pre := by
  cases path with
  | none => exact absurd List.nil_prefix hSegments
  | some path =>
    obtain ⟨a, ha, hDirectory, hNe⟩ := h
    rw [pathWithSlash_some] at hPrefix
    have hListed : ∃ a ∈ d.resolveInfos, segments path <+: segments a.label ∧ path ≠ a.label :=
      ⟨a, ha, hDirectory, fun hEq => hNe (congrArg segments hEq)⟩
    exact hU.stray path hListed pre ri post hSplit hPrefix hSegments

/-- The screen of a directory shows only titles of the directory, and those of
its activities stand for them. -/
theorem first_of_directory (hU : Unambiguous d.resolveInfos) (h : d.Directory path)
    (hFind : d.resolveInfos.find? (lists path title) = some ri) :
    (∃ a ∈ d.resolveInfos, pathSegments path ++ [title] <+: segments a.label) ∧
      ∀ a ∈ d.resolveInfos, segments a.label = pathSegments path ++ [title] → ri = a := by
  obtain ⟨hLists, pre, post, hSplit, hPre⟩ := List.find?_eq_some_iff_append.mp hFind
  have hri : ri ∈ d.resolveInfos := List.mem_of_find?_eq_some hFind
  obtain ⟨hPrefix, hTitle⟩ := (h.lists_iff hri).mp hLists
  by_cases hSegments : pathSegments path <+: segments ri.label
  · have hNext := prefix_append_of_getElem? hSegments hTitle
    exact ⟨⟨ri, hri, hNext⟩, fun a ha hEq => (d.eq_of_prefix ha hri (hEq ▸ hNext)).symm⟩
  · obtain ⟨title', hTitle', hEntry, hFirst⟩ := h.stray hU hSplit hPrefix hSegments
    have hSame : title' = title := Option.some.inj (hTitle'.symm.trans hTitle)
    subst hSame
    refine ⟨hEntry, fun b hb hEq => ?_⟩
    have hListed : lists path title' b := h.lists_of_prefix hb (hEq ▸ List.prefix_rfl)
    have hNot := hPre b (hFirst b hb hEq)
    simp [hListed] at hNot

theorem opens_of_directory (hU : Unambiguous d.resolveInfos) (h : d.Directory path) :
    Opens d.resolveInfos path := by
  intro ri hri hPrefix
  have hLabel := d.segments_ne ri hri
  have hNe := h.label_ne hri
  suffices hTitle : ∃ title, (segments ri.label)[(pathSegments path).length]? = some title by
    obtain ⟨title, hTitle⟩ := hTitle
    exact ⟨title, (titleOf_eq_ok h.segments_ne hLabel (ne_pathWithSlash hLabel hNe)).mpr hTitle⟩
  by_cases hSegments : pathSegments path <+: segments ri.label
  · have hLt : (pathSegments path).length < (segments ri.label).length :=
      lt_of_le_of_ne hSegments.length_le fun hEq => hNe (hSegments.eq_of_length hEq).symm
    exact ⟨_, List.getElem?_eq_getElem hLt⟩
  · obtain ⟨pre, post, hSplit⟩ := List.append_of_mem hri
    obtain ⟨title, hTitle, _⟩ := h.stray hU hSplit hPrefix hSegments
    exact ⟨title, hTitle⟩

theorem first_directory (hU : Unambiguous d.resolveInfos) (h : d.Directory path)
    (hFind : d.resolveInfos.find? (lists path title) = some ri)
    (hNot : path = none ∨ segments ri.label ≠ pathSegments path ++ [title]) :
    dest path ri title = { className := name, title, path := some (child path title) } ∧
      d.Directory (some (child path title)) := by
  have hri : ri ∈ d.resolveInfos := List.mem_of_find?_eq_some hFind
  have hLists : lists path title ri := List.find?_some hFind
  have hSlash := slash_notMem_of_lists h hri hLists
  constructor
  · rw [dest_eq h.segments_ne (d.segments_ne ri hri) hSlash, if_neg]
    exact fun hLeaf => hNot.elim hLeaf.1 fun hNe => hNe hLeaf.2
  · obtain ⟨⟨a, ha, hPrefix⟩, hOnly⟩ := first_of_directory hU h hFind
    refine ⟨a, ha, by rwa [pathSegments_child hSlash], ?_⟩
    rw [pathSegments_child hSlash]
    intro hEq
    have hSame : ri = a := hOnly a ha hEq.symm
    rcases hNot with rfl | hNe
    · have hLength := hU.two_segments a ha
      rw [← hEq] at hLength
      exact absurd hLength (by simp [pathSegments])
    · exact hNe (hSame ▸ hEq.symm)

theorem exists_first (h : d.Directory path) {a : ActivityInfo} (ha : a ∈ d.resolveInfos)
    (hPrefix : pathSegments path ++ [title] <+: segments a.label) :
    ∃ ri, d.resolveInfos.find? (lists path title) = some ri :=
  Option.isSome_iff_exists.mp (List.find?_isSome.mpr ⟨a, ha, h.lists_of_prefix ha hPrefix⟩)

theorem walk_of_directory (hU : Unambiguous d.resolveInfos) {a : ActivityInfo}
    (ha : a ∈ d.resolveInfos) {titles : List JString} (screen : Intent)
    (h : d.Directory screen.path) (hTitles : titles ≠ [])
    (hRest : pathSegments screen.path ++ titles = segments a.label) :
    ∃ intent, walk cm d.resolveInfos screen titles = .ok intent ∧ intent.className = a.name ∧
      intent.path = none := by
  induction titles generalizing screen with
  | nil => exact absurd rfl hTitles
  | cons title titles ih =>
    have hPrefix : pathSegments screen.path ++ [title] <+: segments a.label :=
      ⟨titles, by rw [← hRest, List.append_assoc, List.singleton_append]⟩
    obtain ⟨ri, hFind⟩ := exists_first h ha hPrefix
    have hri : ri ∈ d.resolveInfos := List.mem_of_find?_eq_some hFind
    have hFollow : follow cm d.resolveInfos screen title = .ok (dest screen.path ri title) :=
      follow_eq_ok.mpr ⟨opens_of_directory hU h, ri, hFind, rfl⟩
    cases titles with
    | nil =>
      have hSame : ri = a := (first_of_directory hU h hFind).2 a ha hRest.symm
      have hPath : screen.path ≠ none := by
        intro hNone
        have hLength := hU.two_segments a ha
        rw [← hRest, hNone] at hLength
        exact absurd hLength (by simp [pathSegments])
      have hSlash := slash_notMem_of_lists h hri (List.find?_some hFind)
      refine ⟨_, hFollow, ?_⟩
      rw [dest_eq h.segments_ne (d.segments_ne ri hri) hSlash, if_pos ⟨hPath, hSame ▸ hRest.symm⟩, hSame]
      exact ⟨rfl, rfl⟩
    | cons title' titles =>
      have hNot : segments ri.label ≠ pathSegments screen.path ++ [title] := by
        intro hEq
        have hSame : ri = a := d.eq_of_prefix hri ha (hEq ▸ hPrefix)
        rw [hSame, ← hRest] at hEq
        simp at hEq
      obtain ⟨hDest, hDirectory⟩ := first_directory hU h hFind (.inr hNot)
      have hSlash := slash_notMem_of_lists h hri (List.find?_some hFind)
      rw [hDest] at hFollow
      obtain ⟨intent, hWalk, hIntent⟩ := ih
        { className := name, title, path := some (child screen.path title) } hDirectory (List.cons_ne_nil _ _)
        (by rw [pathSegments_child hSlash, ← hRest, List.append_assoc, List.singleton_append])
      exact ⟨intent, by simp [walk, hFollow, hWalk], hIntent⟩

theorem directory_of_reachable (hU : Unambiguous d.resolveInfos) {screen : Intent}
    (h : Reachable cm d.resolveInfos screen) : d.Directory screen.path := by
  induction h with
  | launch => exact directory_none hU.two_segments
  | @click screen intent data position _ hData hClick hName ih =>
    obtain ⟨title, hFollow⟩ := follow_of_click hData hClick
    obtain ⟨_, ri, hFind, rfl⟩ := follow_eq_ok.mp hFollow
    by_cases hLeaf : screen.path ≠ none ∧ segments ri.label = pathSegments screen.path ++ [title]
    · -- the demo may itself be this class, and then the first screen opens again
      have hri : ri ∈ d.resolveInfos := List.mem_of_find?_eq_some hFind
      rw [dest_eq ih.segments_ne (d.segments_ne ri hri)
        (slash_notMem_of_lists ih hri (List.find?_some hFind)), if_pos hLeaf]
      exact directory_none hU.two_segments
    · have hNot : screen.path = none ∨ segments ri.label ≠ pathSegments screen.path ++ [title] := by
        rwa [← not_ne_iff (b := (none : Option JString)), ← not_and_or]
      obtain ⟨hDest, hDirectory⟩ := first_directory hU ih hFind hNot
      rw [hDest]
      exact hDirectory

theorem leads_of_unambiguous (hU : Unambiguous d.resolveInfos) :
    EveryEntryLeads cm d.resolveInfos := by
  refine ⟨fun a ha => ?_, fun screen hReachable => ?_⟩
  · exact walk_of_directory hU ha launch (directory_none hU.two_segments)
      (List.splitOn_ne_nil _ _) rfl
  · have hDirectory := directory_of_reachable hU hReachable
    obtain ⟨data, hData⟩ := exists_getData cm (opens_of_directory hU hDirectory)
    obtain ⟨a, ha, hPrefix, _⟩ := hDirectory
    exact ⟨data, hData, (getData_ne_nil hData).mpr ⟨a, ha, prefix_of_segments hPrefix⟩⟩

/-! ## The converse -/

theorem directory_of_append {a : ActivityInfo} (ha : a ∈ d.resolveInfos) {titles : List JString}
    (hEq : pathSegments path ++ titles = segments a.label) (hNe : titles ≠ []) : d.Directory path := by
  refine ⟨a, ha, ⟨titles, hEq⟩, fun hSame => hNe ?_⟩
  rw [← hSame] at hEq
  exact List.append_right_eq_self.mp hEq

theorem walk_append {a : ActivityInfo} (ha : a ∈ d.resolveInfos) {screen intent : Intent}
    {before titles : List JString} (hReachable : Reachable cm d.resolveInfos screen)
    (hWalk : walk cm d.resolveInfos screen (before ++ titles) = .ok intent)
    (hEq : pathSegments screen.path ++ (before ++ titles) = segments a.label) (hNe : titles ≠ []) :
    ∃ screen', Reachable cm d.resolveInfos screen' ∧
      pathSegments screen'.path = pathSegments screen.path ++ before ∧
      walk cm d.resolveInfos screen' titles = .ok intent := by
  induction before generalizing screen with
  | nil => exact ⟨screen, hReachable, (List.append_nil _).symm, hWalk⟩
  | cons title before ih =>
    have hDirectory := directory_of_append ha hEq (by simp)
    have hTitle : title ∈ segments a.label := by simp [← hEq]
    have hMore : before ++ titles ≠ [] := by simp [hNe]
    obtain ⟨next, rest, hRest⟩ := List.exists_cons_of_ne_nil hMore
    rw [List.cons_append, hRest, walk] at hWalk
    cases hFollow : follow cm d.resolveInfos screen title with
    | error failure => simp [hFollow] at hWalk
    | ok intent₁ =>
      simp only [hFollow] at hWalk
      split at hWalk
      · rename_i hName
        rw [← hRest] at hWalk
        have hReachable₁ := hReachable.follow hFollow hName
        obtain ⟨_, ri, hFind, rfl⟩ := follow_eq_ok.mp hFollow
        have hri : ri ∈ d.resolveInfos := List.mem_of_find?_eq_some hFind
        have hNot : ¬ (screen.path ≠ none ∧ segments ri.label = pathSegments screen.path ++ [title]) := by
          rintro ⟨_, hLeaf⟩
          have hPrefix : segments ri.label <+: segments a.label :=
            ⟨before ++ titles, by rw [hLeaf, ← hEq]; simp⟩
          rw [d.eq_of_prefix hri ha hPrefix, ← hEq] at hLeaf
          simp [hNe] at hLeaf
        have hDest := dest_eq hDirectory.segments_ne (d.segments_ne ri hri) (slash_notMem hTitle)
        rw [if_neg hNot] at hDest
        have hChild : pathSegments (dest screen.path ri title).path =
            pathSegments screen.path ++ [title] := by
          rw [hDest]
          exact pathSegments_child (slash_notMem hTitle)
        obtain ⟨screen', hReachable', hPath', hWalk'⟩ := ih hReachable₁ hWalk
          (by rw [hChild, ← hEq]; simp)
        exact ⟨screen', hReachable', by rw [hPath', hChild]; simp, hWalk'⟩
      · cases hWalk

theorem exists_screen (hE : EveryEntryLeads cm d.resolveInfos) {a : ActivityInfo}
    (ha : a ∈ d.resolveInfos) {path : JString} {titles : List JString}
    (hEq : segments path ++ titles = segments a.label) (hNe : titles ≠ []) :
    ∃ screen intent, Reachable cm d.resolveInfos screen ∧ screen.path = some path ∧
      walk cm d.resolveInfos screen titles = .ok intent ∧ intent.path = none := by
  obtain ⟨intent, hWalk, _, hNone⟩ := hE.walk a ha
  rw [← hEq] at hWalk
  obtain ⟨screen, hReachable, hPath, hWalk⟩ := walk_append ha .launch hWalk hEq hNe
  refine ⟨screen, intent, hReachable, ?_, hWalk, hNone⟩
  cases hScreen : screen.path with
  | none =>
    rw [hScreen] at hPath
    exact absurd hPath.symm (List.splitOn_ne_nil _ _)
  | some path' =>
    rw [hScreen] at hPath
    exact congrArg some (segments_inj.mp hPath)

theorem opens_of_reachable (hE : EveryEntryLeads cm d.resolveInfos) {screen : Intent}
    (hReachable : Reachable cm d.resolveInfos screen) :
    Opens d.resolveInfos screen.path ∧ ∃ b ∈ d.resolveInfos, pathWithSlash screen.path <+: b.label := by
  obtain ⟨data, hData, hNe⟩ := hE.nonempty screen hReachable
  exact ⟨(getData_eq_ok hData).1, (getData_ne_nil hData).mp hNe⟩

theorem two_segments_of_leads (hE : EveryEntryLeads cm d.resolveInfos) {a : ActivityInfo}
    (ha : a ∈ d.resolveInfos) : 2 ≤ (segments a.label).length := by
  obtain ⟨intent, hWalk, _, hNone⟩ := hE.walk a ha
  cases hSegments : segments a.label with
  | nil => exact absurd hSegments (List.splitOn_ne_nil _ _)
  | cons title titles =>
    cases titles with
    | cons title' titles => simp
    | nil =>
      rw [hSegments] at hWalk
      obtain ⟨_, ri, hFind, rfl⟩ := follow_eq_ok.mp hWalk
      have hri : ri ∈ d.resolveInfos := List.mem_of_find?_eq_some hFind
      have hTitle : title ∈ segments a.label := by simp [hSegments]
      rw [dest_eq (by simp [pathSegments, launch]) (d.segments_ne ri hri) (slash_notMem hTitle)] at hNone
      simp [launch] at hNone

theorem exists_phantom {screen : Intent} {b : ActivityInfo}
    (hReachable : Reachable cm d.resolveInfos screen) (hOpens : Opens d.resolveInfos screen.path)
    (hPath : [] ∉ pathSegments screen.path) (hb : b ∈ d.resolveInfos)
    (hLists : lists screen.path title b) (hSlash : slash ∉ title)
    (hNone : ∀ a ∈ d.resolveInfos, ¬ pathSegments screen.path ++ [title] <+: segments a.label) :
    ∃ screen', Reachable cm d.resolveInfos screen' ∧
      screen'.path = some (child screen.path title) := by
  obtain ⟨ri, hFind⟩ := Option.isSome_iff_exists.mp (List.find?_isSome.mpr ⟨b, hb, hLists⟩)
  have hri : ri ∈ d.resolveInfos := List.mem_of_find?_eq_some hFind
  have hFollow : follow cm d.resolveInfos screen title = .ok (dest screen.path ri title) :=
    follow_eq_ok.mpr ⟨hOpens, ri, hFind, rfl⟩
  have hNot : ¬ (screen.path ≠ none ∧ segments ri.label = pathSegments screen.path ++ [title]) :=
    fun hLeaf => hNone ri hri (hLeaf.2 ▸ List.prefix_rfl)
  rw [dest_eq hPath (d.segments_ne ri hri) hSlash, if_neg hNot] at hFollow
  exact ⟨_, hReachable.follow hFollow rfl, rfl⟩

/-- A title that is shown on the screen of a directory is one of the directory:
otherwise its screen shows only strays too, and the screens of these are empty. -/
theorem entry_of_stray (hE : EveryEntryLeads cm d.resolveInfos) {screen : Intent} {b : ActivityInfo}
    (hReachable : Reachable cm d.resolveInfos screen) (hDirectory : d.Directory screen.path)
    (hb : b ∈ d.resolveInfos) (hLists : lists screen.path title b) :
    ∃ a ∈ d.resolveInfos, pathSegments screen.path ++ [title] <+: segments a.label := by
  by_contra hNot
  have hNone : ∀ a ∈ d.resolveInfos, ¬ pathSegments screen.path ++ [title] <+: segments a.label :=
    fun a ha hPrefix => hNot ⟨a, ha, hPrefix⟩
  have hTitle : title ∈ segments b.label :=
    List.mem_of_getElem? ((hDirectory.lists_iff hb).mp hLists).2
  obtain ⟨screen₁, hReachable₁, hPath₁⟩ := exists_phantom hReachable
    (opens_of_reachable hE hReachable).1 hDirectory.segments_ne hb hLists (slash_notMem hTitle) hNone
  obtain ⟨hOpens₁, b₁, hb₁, hPrefix₁⟩ := opens_of_reachable hE hReachable₁
  have hSegments₁ : pathSegments screen₁.path = pathSegments screen.path ++ [title] :=
    hPath₁ ▸ pathSegments_child (slash_notMem hTitle)
  have hGood₁ : [] ∉ pathSegments screen₁.path := by
    rw [hSegments₁, List.mem_append, List.mem_singleton]
    rintro (hNil | hNil)
    · exact hDirectory.segments_ne hNil
    · exact d.segments_ne b hb (hNil ▸ hTitle)
  rw [← hSegments₁] at hNone
  have hNe₁ : b₁.label ≠ pathWithSlash screen₁.path :=
    ne_pathWithSlash (d.segments_ne b₁ hb₁) fun hEq => hNone b₁ hb₁ (hEq ▸ List.prefix_rfl)
  obtain ⟨title₁, hTitle₁⟩ := hOpens₁ b₁ hb₁ hPrefix₁
  have hLists₁ : lists screen₁.path title₁ b₁ := MainActivity.lists_iff.mpr ⟨hPrefix₁, hTitle₁⟩
  have hMem₁ : title₁ ∈ segments b₁.label :=
    List.mem_of_getElem? ((titleOf_eq_ok hGood₁ (d.segments_ne b₁ hb₁) hNe₁).mp hTitle₁)
  obtain ⟨screen₂, hReachable₂, hPath₂⟩ := exists_phantom hReachable₁ hOpens₁ hGood₁ hb₁ hLists₁
    (slash_notMem hMem₁) fun a ha hPrefix => hNone a ha ((List.prefix_append _ _).trans hPrefix)
  obtain ⟨_, b₂, hb₂, hPrefix₂⟩ := opens_of_reachable hE hReachable₂
  -- a label that goes on with a slash has the path by its segments after all
  apply hNone b₂ hb₂
  rw [hPath₁] at hPath₂ ⊢
  rw [hPath₂, pathWithSlash_some, child] at hPrefix₂
  refine splitOn_prefix_iff.mpr (.inr (List.IsPrefix.trans ⟨title₁, ?_⟩ hPrefix₂))
  rw [List.append_assoc, List.singleton_append]

theorem first_of_leads (hE : EveryEntryLeads cm d.resolveInfos) {a : ActivityInfo} {path : JString}
    (ha : a ∈ d.resolveInfos) (hEq : segments path ++ [title] = segments a.label) :
    d.resolveInfos.find? (lists (some path) title) = some a := by
  obtain ⟨screen, intent, _, hPath, hWalk, hNone⟩ := exists_screen hE ha hEq (List.cons_ne_nil _ _)
  obtain ⟨_, ri, hFind, rfl⟩ := follow_eq_ok.mp hWalk
  rw [hPath] at hFind hNone
  have hri : ri ∈ d.resolveInfos := List.mem_of_find?_eq_some hFind
  have hTitle : title ∈ segments a.label := by simp [← hEq]
  have hDirectory : d.Directory (some path) := directory_of_append ha hEq (List.cons_ne_nil _ _)
  rw [dest_eq hDirectory.segments_ne (d.segments_ne ri hri) (slash_notMem hTitle)] at hNone
  have hLeaf : segments ri.label = segments path ++ [title] := by
    by_contra hNot
    simp [hNot, pathSegments] at hNone
  rw [hFind, d.eq_of_prefix hri ha ((hLeaf.trans hEq) ▸ List.prefix_rfl)]

theorem unambiguous_of_leads (hE : EveryEntryLeads cm d.resolveInfos) :
    Unambiguous d.resolveInfos := by
  refine ⟨fun a ha => two_segments_of_leads hE ha, ?_⟩
  rintro path ⟨a, ha, ⟨titles, hEq⟩, hNe⟩ pre b post hSplit hPrefix hStray
  have hTitles : titles ≠ [] := by
    rintro rfl
    exact hNe (segments_inj.mp (by simpa using hEq))
  have hb : b ∈ d.resolveInfos := by simp [hSplit]
  have hDirectory : d.Directory (some path) := directory_of_append ha hEq hTitles
  obtain ⟨screen, _, hReachable, hPath, _⟩ := exists_screen hE ha hEq hTitles
  have hOpens := (opens_of_reachable hE hReachable).1
  rw [hPath] at hOpens
  obtain ⟨title, hTitle⟩ := hOpens b hb (by rwa [pathWithSlash_some])
  have hLists : lists (some path) title b :=
    MainActivity.lists_iff.mpr ⟨by rwa [pathWithSlash_some], hTitle⟩
  refine ⟨title, ((hDirectory.lists_iff hb).mp hLists).2, ?_, fun c hc hLabel => ?_⟩
  · obtain ⟨c, hc, hEntry⟩ := entry_of_stray hE hReachable (hPath ▸ hDirectory) hb (hPath ▸ hLists)
    rw [hPath] at hEntry
    exact ⟨c, hc, hEntry⟩
  · have hFirst := first_of_leads hE hc hLabel.symm
    rw [hSplit, List.find?_append, List.find?_cons_of_pos hLists] at hFirst
    rcases Option.or_eq_some_iff.mp hFirst with hFind | ⟨_, hEqual⟩
    · exact List.mem_of_find?_eq_some hFind
    · cases hEqual
      exact absurd ⟨[title], hLabel.symm⟩ hStray

end Demos

/-- For every set of demos and every order in which they are returned, every
entry leads to its activity just when the labels are unambiguous. -/
theorem every_entry_leads_iff (cm : CaseMapping) (d : Demos) :
    EveryEntryLeads cm d.resolveInfos ↔ Unambiguous d.resolveInfos :=
  ⟨Demos.unambiguous_of_leads, Demos.leads_of_unambiguous⟩

/-- "a/b/c" and "a/bc". -/
def shortSibling : Demos where
  resolveInfos := [⟨[97, 47, 98, 47, 99], "C"⟩, ⟨[97, 47, 98, 99], "BC"⟩]
  nonempty := by decide
  distinct := by decide
  segments_ne := by decide
  prefixFree := by decide

/-- The screen of "a/b" looks for a third segment in "a/bc". -/
theorem not_every_entry_leads :
    ¬ ∀ (cm : CaseMapping) (d : Demos), EveryEntryLeads cm d.resolveInfos := by
  intro hAll
  have hU : Unambiguous shortSibling.resolveInfos :=
    Demos.unambiguous_of_leads (hAll ⟨id, id⟩ shortSibling)
  obtain ⟨title, hTitle, _⟩ := hU.stray [97, 47, 98] (by decide) [⟨[97, 47, 98, 47, 99], "C"⟩]
    ⟨[97, 47, 98, 99], "BC"⟩ [] rfl (by decide) (by decide)
  have hNone : (segments [97, 47, 98, 99])[(segments [97, 47, 98]).length]? = none := by decide
  rw [hNone] at hTitle
  cases hTitle

end AndroidDemo.Launcher
