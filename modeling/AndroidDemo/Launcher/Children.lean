import AndroidDemo.Launcher.Demos

/-! # What a screen lists -/

namespace AndroidDemo.Launcher

open AndroidDemo.Java AndroidDemo.Words MainActivity

/-- Any number of activities, in the order of the query. -/
structure Activities where
  resolveInfos : List ActivityInfo
  distinct : (resolveInfos.map (·.label)).Nodup
  segments_ne : ∀ a ∈ resolveInfos, [] ∉ segments a.label
  prefixFree : ∀ a ∈ resolveInfos, ∀ b ∈ resolveInfos,
    segments a.label <+: segments b.label → a.label = b.label

def Activities.demos (d : Activities) (h : d.resolveInfos ≠ []) : Demos :=
  { d with nonempty := h }

/-- The segments of a path, none for an empty one. -/
def parts (path : Option JString) : List JString :=
  if isEmpty path then [] else pathSegments path

/-- The path is empty, or a proper prefix of a label by its segments. -/
def Activities.HasScreen (d : Activities) (path : Option JString) : Prop :=
  isEmpty path ∨
    ∃ a ∈ d.resolveInfos, parts path <+: segments a.label ∧ parts path ≠ segments a.label

/-- The title stands behind the path in a label. -/
def Follows (resolveInfos : List ActivityInfo) (path : Option JString) (title : JString) : Prop :=
  ∃ a ∈ resolveInfos, parts path ++ [title] <+: segments a.label

structure ListsChildren (cm : CaseMapping) (resolveInfos : List ActivityInfo) (path : Option JString)
    (data : List ItemInfo) : Prop where
  getData_eq : getData cm resolveInfos path = .ok data
  once : (data.map (·.title)).Nodup
  mem_titles : ∀ title, title ∈ data.map (·.title) ↔ Follows resolveInfos path title
  sorted : data.Pairwise fun lhs rhs => compareToIgnoreCase cm lhs.title rhs.title ≤ 0
  own : ∀ item ∈ data, parts path <+: segments item.label

/-- A label that starts with the characters of the path, but not with its
segments, stands behind one that has the segments and the same title. -/
def StraysCovered (resolveInfos : List ActivityInfo) (path : Option JString) : Prop :=
  ∀ pre b post, resolveInfos = pre ++ b :: post → pathWithSlash path <+: b.label →
    ¬ parts path <+: segments b.label →
    ∃ title, (segments b.label)[(parts path).length]? = some title ∧
      ∃ a ∈ pre, parts path ++ [title] <+: segments a.label

theorem covered_of_own {resolveInfos : List ActivityInfo} {path : Option JString}
    (hOwn : ∀ b ∈ resolveInfos, pathWithSlash path <+: b.label → parts path <+: segments b.label) :
    StraysCovered resolveInfos path := by
  intro pre b post hSplit hPrefix hStray
  exact absurd (hOwn b (by simp [hSplit]) hPrefix) hStray

namespace Activities.HasScreen

variable {cm : CaseMapping} {d : Activities} {path : Option JString} {title : JString}
  {ri : ActivityInfo}

theorem directory (h : d.HasScreen path) (hNe : d.resolveInfos ≠ []) :
    ∃ path', (d.demos hNe).Directory path' ∧ pathSegments path' = parts path ∧
      pathWithSlash path' = pathWithSlash path ∧ lists path' = lists path ∧
      dest path' = dest path := by
  have hTop : (d.demos hNe).Directory none := by
    obtain ⟨a, ha⟩ := List.exists_mem_of_ne_nil _ hNe
    exact ⟨a, ha, List.nil_prefix, (List.splitOn_ne_nil _ _).symm⟩
  cases path with
  | none => exact ⟨none, hTop, rfl, rfl, rfl, rfl⟩
  | some path =>
    cases path with
    | nil => exact ⟨none, hTop, rfl, rfl, rfl, rfl⟩
    | cons u path =>
      refine ⟨_, ?_, rfl, rfl, rfl, rfl⟩
      rcases h with hEmpty | hProper
      · cases hEmpty
      · exact hProper

theorem lists_iff (h : d.HasScreen path) (hri : ri ∈ d.resolveInfos) :
    lists path title ri ↔ pathWithSlash path <+: ri.label ∧
      (segments ri.label)[(parts path).length]? = some title := by
  obtain ⟨path', hDirectory, hParts, hSlash, hLists, _⟩ := h.directory (List.ne_nil_of_mem hri)
  rw [← hLists, ← hParts, ← hSlash]
  exact hDirectory.lists_iff hri

theorem lists_of_prefix (h : d.HasScreen path) (hri : ri ∈ d.resolveInfos)
    (hPrefix : parts path ++ [title] <+: segments ri.label) : lists path title ri := by
  obtain ⟨path', hDirectory, hParts, _, hLists, _⟩ := h.directory (List.ne_nil_of_mem hri)
  rw [← hParts] at hPrefix
  exact hLists ▸ hDirectory.lists_of_prefix hri hPrefix

theorem exists_title (h : d.HasScreen path) (hri : ri ∈ d.resolveInfos)
    (hPrefix : parts path <+: segments ri.label) :
    ∃ title, (segments ri.label)[(parts path).length]? = some title := by
  obtain ⟨path', hDirectory, hParts, _⟩ := h.directory (List.ne_nil_of_mem hri)
  have hNe : segments ri.label ≠ parts path := hParts ▸ hDirectory.label_ne hri
  have hLt : (parts path).length < (segments ri.label).length :=
    lt_of_le_of_ne hPrefix.length_le fun hEq => hNe (hPrefix.eq_of_length hEq).symm
  exact ⟨_, List.getElem?_eq_getElem hLt⟩

theorem covered_of_lists (h : d.HasScreen path) {data : List ItemInfo}
    (hData : ListsChildren cm d.resolveInfos path data) : StraysCovered d.resolveInfos path := by
  intro pre b post hSplit hPrefix hStray
  have hb : b ∈ d.resolveInfos := by simp [hSplit]
  obtain ⟨hOpens, hMem⟩ := getData_eq_ok hData.getData_eq
  obtain ⟨title, hTitle⟩ := hOpens b hb hPrefix
  have hLists : lists path title b := MainActivity.lists_iff.mpr ⟨hPrefix, hTitle⟩
  obtain ⟨ri, hFind⟩ := Option.isSome_iff_exists.mp (List.find?_isSome.mpr ⟨b, hb, hLists⟩)
  have hri : ri ∈ d.resolveInfos := List.mem_of_find?_eq_some hFind
  have hOwn : parts path <+: segments ri.label :=
    hData.own (itemInfoMap path ri title) ((hMem _).mpr ⟨ri, hFind, rfl⟩)
  refine ⟨title, ((h.lists_iff hb).mp hLists).2, ri, ?_, ?_⟩
  · rw [hSplit, List.find?_append, List.find?_cons_of_pos hLists] at hFind
    rcases Option.or_eq_some_iff.mp hFind with hFirst | ⟨_, hEq⟩
    · exact List.mem_of_find?_eq_some hFirst
    · cases hEq
      exact absurd hOwn hStray
  · exact prefix_append_of_getElem? hOwn ((h.lists_iff hri).mp (List.find?_some hFind)).2

theorem opens_of_covered (h : d.HasScreen path) (hCovered : StraysCovered d.resolveInfos path) :
    Opens d.resolveInfos path := by
  intro ri hri hPrefix
  suffices hTitle : ∃ title, (segments ri.label)[(parts path).length]? = some title by
    obtain ⟨title, hTitle⟩ := hTitle
    exact ⟨title, (MainActivity.lists_iff.mp ((h.lists_iff hri).mpr ⟨hPrefix, hTitle⟩)).2⟩
  by_cases hOwn : parts path <+: segments ri.label
  · exact h.exists_title hri hOwn
  · obtain ⟨pre, post, hSplit⟩ := List.append_of_mem hri
    obtain ⟨title, hTitle, _⟩ := hCovered pre ri post hSplit hPrefix hOwn
    exact ⟨title, hTitle⟩

/-- The first label with a title is never a stray. -/
theorem own_of_covered (h : d.HasScreen path) (hCovered : StraysCovered d.resolveInfos path)
    (hFind : d.resolveInfos.find? (lists path title) = some ri) :
    parts path <+: segments ri.label := by
  by_contra hStray
  obtain ⟨hLists, pre, post, hSplit, hPre⟩ := List.find?_eq_some_iff_append.mp hFind
  obtain ⟨hPrefix, hTitle⟩ := (h.lists_iff (List.mem_of_find?_eq_some hFind)).mp hLists
  obtain ⟨title', hTitle', a, ha, hEntry⟩ := hCovered pre ri post hSplit hPrefix hStray
  cases hTitle'.symm.trans hTitle
  have hListed := h.lists_of_prefix (by simp [hSplit, ha]) hEntry
  have hNot := hPre a ha
  simp [hListed] at hNot

theorem lists_of_covered (h : d.HasScreen path) (hCovered : StraysCovered d.resolveInfos path) :
    ∃ data, ListsChildren cm d.resolveInfos path data := by
  obtain ⟨data, hData⟩ := exists_getData cm (h.opens_of_covered hCovered)
  obtain ⟨_, hMem⟩ := getData_eq_ok hData
  refine ⟨data, hData, getData_titles_nodup hData, fun title => ?_, getData_sorted hData,
    fun item hItem => ?_⟩
  · rw [List.mem_map]
    constructor
    · rintro ⟨item, hItem, rfl⟩
      obtain ⟨ri, hFind, _⟩ := (hMem item).mp hItem
      have hri : ri ∈ d.resolveInfos := List.mem_of_find?_eq_some hFind
      exact ⟨ri, hri, prefix_append_of_getElem? (h.own_of_covered hCovered hFind)
        ((h.lists_iff hri).mp (List.find?_some hFind)).2⟩
    · rintro ⟨a, ha, hPrefix⟩
      obtain ⟨ri, hFind⟩ := Option.isSome_iff_exists.mp
        (List.find?_isSome.mpr ⟨a, ha, h.lists_of_prefix ha hPrefix⟩)
      exact ⟨itemInfoMap path ri title, (hMem _).mpr ⟨ri, hFind, rfl⟩, rfl⟩
  · obtain ⟨ri, hFind, hEq⟩ := (hMem item).mp hItem
    rw [hEq]
    exact h.own_of_covered hCovered hFind

end Activities.HasScreen

/-- A screen lists exactly the children of its path just when every label that
strays onto it is covered by an earlier one. -/
theorem lists_children_iff (cm : CaseMapping) (d : Activities) {path : Option JString}
    (h : d.HasScreen path) :
    (∃ data, ListsChildren cm d.resolveInfos path data) ↔ StraysCovered d.resolveInfos path :=
  ⟨fun ⟨_, hData⟩ => h.covered_of_lists hData, h.lists_of_covered⟩

/-- "a/b", "a/c/d" and "b/c" at the path "a". -/
def twoFolders : Activities where
  resolveInfos := [⟨[97, 47, 98], "AB"⟩, ⟨[97, 47, 99, 47, 100], "ACD"⟩, ⟨[98, 47, 99], "BC"⟩]
  distinct := by decide
  segments_ne := by decide
  prefixFree := by decide

theorem lists_children_twoFolders :
    ∃ data, ListsChildren asciiCase twoFolders.resolveInfos (some [97]) data ∧
      [99] ∈ data.map (·.title) := by
  have hScreen : twoFolders.HasScreen (some [97]) :=
    .inr ⟨⟨[97, 47, 98], "AB"⟩, by decide, by decide, by decide⟩
  obtain ⟨data, hData⟩ := (lists_children_iff asciiCase twoFolders hScreen).mpr
    (covered_of_own (by decide))
  exact ⟨data, hData, (hData.mem_titles _).mpr ⟨⟨[97, 47, 99, 47, 100], "ACD"⟩, by decide, by decide⟩⟩

/-- "a/b/c" and "a/bc". -/
def strayFile : Activities where
  resolveInfos := [⟨[97, 47, 98, 47, 99], "ABC"⟩, ⟨[97, 47, 98, 99], "ABC2"⟩]
  distinct := by decide
  segments_ne := by decide
  prefixFree := by decide

/-- The screen of "a/b" throws. -/
theorem not_lists_children :
    ¬ ∀ (cm : CaseMapping) (d : Activities) (path : Option JString), d.HasScreen path →
      ∃ data, ListsChildren cm d.resolveInfos path data := by
  intro hAll
  obtain ⟨data, hData⟩ := hAll asciiCase strayFile (some [97, 47, 98])
    (.inr ⟨⟨[97, 47, 98, 47, 99], "ABC"⟩, by decide, by decide, by decide⟩)
  have hThrown : getData asciiCase strayFile.resolveInfos (some [97, 47, 98]) =
      .error .arrayIndexOutOfBounds := rfl
  cases hThrown.symm.trans hData.getData_eq

end AndroidDemo.Launcher
