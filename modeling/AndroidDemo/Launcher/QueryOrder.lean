import AndroidDemo.Launcher.Children
import Mathlib.Data.List.Forall2

/-! # What the order of the query decides

The first label with a title stands for it, and the sort is stable and ignores
case. Without strays the representative does not matter; the order of titles
that are equal ignoring case does.
-/

namespace AndroidDemo.Launcher

open AndroidDemo.Java AndroidDemo.Words MainActivity

variable {cm : CaseMapping} {d d' : Activities} {path : Option JString} {title : JString}

/-- What a row shows and starts. -/
def entry (item : ItemInfo) : JString × String × Option JString :=
  (item.title, item.intent.className, item.intent.path)

/-- The same rows, where only such with titles equal ignoring case change places. -/
structure SameUpToCase (cm : CaseMapping) (data data' : List ItemInfo) : Prop where
  perm : (data.map entry).Perm (data'.map entry)
  aligned : List.Forall₂ (fun item item' => compareToIgnoreCase cm item.title item'.title = 0) data data'
  eq_of_distinct :
    (∀ item ∈ data, ∀ item' ∈ data,
      compareToIgnoreCase cm item.title item'.title = 0 → item.title = item'.title) →
    data.map entry = data'.map entry

theorem Activities.HasScreen.perm (h : d.HasScreen path) (hPerm : d.resolveInfos.Perm d'.resolveInfos) :
    d'.HasScreen path :=
  h.imp_right fun ⟨a, ha, hProper⟩ => ⟨a, hPerm.mem_iff.mp ha, hProper⟩

/-- The representative of a title does not matter. -/
theorem dest_of_own (h : d.HasScreen path) {a b : ActivityInfo} (ha : a ∈ d.resolveInfos)
    (hb : b ∈ d.resolveInfos) (hPrefix : parts path ++ [title] <+: segments a.label)
    (hPrefix' : parts path ++ [title] <+: segments b.label) :
    dest path a title = dest path b title := by
  obtain ⟨path', hDirectory, hParts, _, _, hDest⟩ := h.directory (List.ne_nil_of_mem ha)
  rw [← hParts] at hPrefix hPrefix'
  have hSlash : slash ∉ title := slash_notMem (hPrefix.subset (by simp))
  by_cases hSame : a = b
  · rw [hSame]
  · have hLeaf {x y : ActivityInfo} (hx : x ∈ d.resolveInfos) (hy : y ∈ d.resolveInfos) (hNe : x ≠ y)
        (hPrefix : pathSegments path' ++ [title] <+: segments y.label) :
        ¬ (path' ≠ none ∧ segments x.label = pathSegments path' ++ [title]) := by
      rintro ⟨_, hEq⟩
      exact hNe (Demos.eq_of_prefix (d.demos (List.ne_nil_of_mem ha)) hx hy (hEq ▸ hPrefix))
    rw [← hDest, dest_eq hDirectory.segments_ne (d.segments_ne a ha) hSlash,
      dest_eq hDirectory.segments_ne (d.segments_ne b hb) hSlash, if_neg (hLeaf ha hb hSame hPrefix'),
      if_neg (hLeaf hb ha (Ne.symm hSame) hPrefix)]

theorem entry_subset (hPerm : d.resolveInfos.Perm d'.resolveInfos) (h : d.HasScreen path)
    {data data' : List ItemInfo} (hData : ListsChildren cm d.resolveInfos path data)
    (hData' : ListsChildren cm d'.resolveInfos path data') : data.map entry ⊆ data'.map entry := by
  have hFirst {d : Activities} {data : List ItemInfo} (h : d.HasScreen path)
      (hData : ListsChildren cm d.resolveInfos path data) {item : ItemInfo} (hItem : item ∈ data) :
      ∃ ri ∈ d.resolveInfos, parts path ++ [item.title] <+: segments ri.label ∧
        item.intent = dest path ri item.title := by
    obtain ⟨ri, hFind, hEq⟩ := ((getData_eq_ok hData.getData_eq).2 item).mp hItem
    have hri : ri ∈ d.resolveInfos := List.mem_of_find?_eq_some hFind
    have hOwn : parts path <+: segments ri.label := by
      have hLabel := hData.own item hItem
      rwa [hEq] at hLabel
    refine ⟨ri, hri, prefix_append_of_getElem? hOwn ?_, by rw [hEq]; rfl⟩
    exact ((h.lists_iff hri).mp (List.find?_some hFind)).2
  intro e he
  obtain ⟨item, hItem, rfl⟩ := List.mem_map.mp he
  obtain ⟨ri, hri, hPrefix, hIntent⟩ := hFirst h hData hItem
  have hTitle : item.title ∈ data'.map (·.title) :=
    (hData'.mem_titles _).mpr ⟨ri, hPerm.mem_iff.mp hri, hPrefix⟩
  obtain ⟨item', hItem', hSame⟩ := List.mem_map.mp hTitle
  obtain ⟨ri', hri', hPrefix', hIntent'⟩ := hFirst (h.perm hPerm) hData' hItem'
  rw [hSame] at hPrefix' hIntent'
  have hDest := dest_of_own h hri (hPerm.mem_iff.mpr hri') hPrefix hPrefix'
  refine List.mem_map.mpr ⟨item', hItem', ?_⟩
  simp only [entry, hSame, hIntent, hIntent', hDest]

theorem entry_nodup {infos : List ActivityInfo} {data : List ItemInfo}
    (hData : ListsChildren cm infos path data) : (data.map entry).Nodup := by
  have hTitles : (data.map entry).map Prod.fst = data.map (·.title) := List.map_map
  exact List.Nodup.of_map Prod.fst (hTitles ▸ hData.once)

theorem sameUpToCase_of_children (hPerm : d.resolveInfos.Perm d'.resolveInfos) (h : d.HasScreen path)
    {data data' : List ItemInfo} (hData : ListsChildren cm d.resolveInfos path data)
    (hData' : ListsChildren cm d'.resolveInfos path data') : SameUpToCase cm data data' := by
  have hEntries : (data.map entry).Perm (data'.map entry) :=
    (List.perm_ext_iff_of_nodup (entry_nodup hData) (entry_nodup hData')).mpr fun e =>
      ⟨fun he => entry_subset hPerm h hData hData' he,
        fun he => entry_subset hPerm.symm (h.perm hPerm) hData' hData he⟩
  have hSorted {infos : List ActivityInfo} {data : List ItemInfo}
      (hData : ListsChildren cm infos path data) :
      (data.map entry).Pairwise fun e e' => foldCase cm e.1 ≤ foldCase cm e'.1 :=
    List.pairwise_map.mpr (hData.sorted.imp compareToIgnoreCase_nonpos.mp)
  refine ⟨hEntries, ?_, fun hDistinct => ?_⟩
  · have hKeys : (data.map entry).map (fun e => foldCase cm e.1) =
        (data'.map entry).map fun e => foldCase cm e.1 :=
      (hEntries.map _).eq_of_pairwise (fun _ _ _ _ => le_antisymm)
        (List.pairwise_map.mpr (hSorted hData)) (List.pairwise_map.mpr (hSorted hData'))
    rw [List.map_map, List.map_map, ← List.forall₂_eq_eq_eq, List.forall₂_map_left_iff,
      List.forall₂_map_right_iff] at hKeys
    exact hKeys.imp fun _ _ hEq => compareToIgnoreCase_eq_zero.mpr hEq
  · refine hEntries.eq_of_pairwise ?_ (hSorted hData) (hSorted hData')
    intro e e' he he' hLe hLe'
    obtain ⟨item, hItem, rfl⟩ := List.mem_map.mp he
    obtain ⟨item', hItem', rfl⟩ := List.mem_map.mp (hEntries.mem_iff.mpr he')
    have hTitle : item.title = item'.title :=
      hDistinct item hItem item' hItem' (compareToIgnoreCase_eq_zero.mpr (le_antisymm hLe hLe'))
    rw [List.inj_on_of_nodup_map hData.once hItem hItem' hTitle]

/-- Where every label that starts with the characters of the path has its
segments, the order of the query moves only rows with titles equal ignoring case. -/
theorem getData_query_order (cm : CaseMapping) {d d' : Activities} {path : Option JString}
    (hPerm : d.resolveInfos.Perm d'.resolveInfos) (h : d.HasScreen path)
    (hOwn : ∀ b ∈ d.resolveInfos, pathWithSlash path <+: b.label → parts path <+: segments b.label) :
    ∃ data data', getData cm d.resolveInfos path = .ok data ∧
      getData cm d'.resolveInfos path = .ok data' ∧ SameUpToCase cm data data' := by
  obtain ⟨data, hData⟩ : ∃ data, ListsChildren cm d.resolveInfos path data :=
    h.lists_of_covered (covered_of_own hOwn)
  obtain ⟨data', hData'⟩ : ∃ data', ListsChildren cm d'.resolveInfos path data' :=
    (h.perm hPerm).lists_of_covered (covered_of_own fun b hb => hOwn b (hPerm.mem_iff.mpr hb))
  exact ⟨data, data', hData.getData_eq, hData'.getData_eq,
    sameUpToCase_of_children hPerm h hData hData'⟩

def twoFoldersReversed : Activities where
  resolveInfos := twoFolders.resolveInfos.reverse
  distinct := by decide
  segments_ne := by decide
  prefixFree := by decide

theorem getData_query_order_twoFolders :
    ∃ data data', getData asciiCase twoFolders.resolveInfos (some [97]) = .ok data ∧
      getData asciiCase twoFoldersReversed.resolveInfos (some [97]) = .ok data' ∧
      SameUpToCase asciiCase data data' :=
  getData_query_order asciiCase (List.reverse_perm _).symm
    (.inr ⟨⟨[97, 47, 98], "AB"⟩, by decide, by decide, by decide⟩) (by decide)

/-- "A/x" and "a/y". -/
def caseTwins : Activities where
  resolveInfos := [⟨[65, 47, 120], "AX"⟩, ⟨[97, 47, 121], "AY"⟩]
  distinct := by decide
  segments_ne := by decide
  prefixFree := by decide

def caseTwinsReversed : Activities where
  resolveInfos := [⟨[97, 47, 121], "AY"⟩, ⟨[65, 47, 120], "AX"⟩]
  distinct := by decide
  segments_ne := by decide
  prefixFree := by decide

/-- The first screen shows "A" and "a" in the order of the query. -/
theorem query_order_matters :
    ¬ ∀ (cm : CaseMapping) (d d' : Activities) (path : Option JString),
      d.resolveInfos.Perm d'.resolveInfos → d.HasScreen path →
      ∃ data data', getData cm d.resolveInfos path = .ok data ∧
        getData cm d'.resolveInfos path = .ok data' ∧ data.map entry = data'.map entry := by
  intro hAll
  obtain ⟨data, data', hData, hData', hSame⟩ :=
    hAll asciiCase caseTwins caseTwinsReversed none (.swap _ _ _) (.inl rfl)
  have hRows : getData asciiCase caseTwins.resolveInfos none =
      .ok [itemInfoMap none ⟨[65, 47, 120], "AX"⟩ [65], itemInfoMap none ⟨[97, 47, 121], "AY"⟩ [97]] :=
    getData_of_foldlM rfl (by decide)
  have hRows' : getData asciiCase caseTwinsReversed.resolveInfos none =
      .ok [itemInfoMap none ⟨[97, 47, 121], "AY"⟩ [97], itemInfoMap none ⟨[65, 47, 120], "AX"⟩ [65]] :=
    getData_of_foldlM rfl (by decide)
  cases hRows.symm.trans hData
  cases hRows'.symm.trans hData'
  revert hSame
  decide

end AndroidDemo.Launcher
