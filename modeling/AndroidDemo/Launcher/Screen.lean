import AndroidDemo.Java.IgnoreCase
import AndroidDemo.Launcher.MainActivity

/-! # The rows of one screen -/

namespace AndroidDemo.Launcher

open AndroidDemo.Java

namespace MainActivity

variable {cm : CaseMapping} {resolveInfos : List ActivityInfo} {path : Option JString}

/-- The label passes the filter of the screen and is listed under the title. -/
def lists (path : Option JString) (title : JString) (ri : ActivityInfo) : Bool :=
  (pathWithSlash path).isPrefixOf ri.label && (titleOf path ri.label).toOption == some title

theorem lists_iff {title : JString} {ri : ActivityInfo} :
    lists path title ri ↔ pathWithSlash path <+: ri.label ∧ titleOf path ri.label = .ok title := by
  rw [lists, Bool.and_eq_true, List.isPrefixOf_iff_prefix, beq_iff_eq]
  cases titleOf path ri.label <;> simp [Except.toOption]

def Opens (resolveInfos : List ActivityInfo) (path : Option JString) : Prop :=
  ∀ ri ∈ resolveInfos, pathWithSlash path <+: ri.label → ∃ title, titleOf path ri.label = .ok title

/-- What the loop has collected: of each title the first activity with it. -/
structure Collected (path : Option JString) (resolveInfos : List ActivityInfo)
    (titles : List JString) (data : List ItemInfo) : Prop where
  titles_eq : titles = data.map (·.title)
  mem_data : ∀ item, item ∈ data ↔
    ∃ ri, resolveInfos.find? (lists path item.title) = some ri ∧ item = itemInfoMap path ri item.title

theorem Collected.mem_titles {titles : List JString} {data : List ItemInfo}
    (h : Collected path resolveInfos titles data) (title : JString) :
    title ∈ titles ↔ ∃ ri ∈ resolveInfos, lists path title ri := by
  rw [h.titles_eq, List.mem_map, ← List.find?_isSome, Option.isSome_iff_exists]
  constructor
  · rintro ⟨item, hItem, rfl⟩
    obtain ⟨ri, hFind, _⟩ := (h.mem_data item).mp hItem
    exact ⟨ri, hFind⟩
  · rintro ⟨ri, hFind⟩
    exact ⟨itemInfoMap path ri title, (h.mem_data _).mpr ⟨ri, hFind, rfl⟩, rfl⟩

theorem find?_snoc (title : JString) (ri : ActivityInfo) :
    (resolveInfos ++ [ri]).find? (lists path title) =
      (resolveInfos.find? (lists path title)).or (if lists path title ri then some ri else none) := by
  rw [List.find?_append, List.find?_singleton]

theorem Collected.skip {titles : List JString} {data : List ItemInfo} {ri : ActivityInfo}
    (h : Collected path resolveInfos titles data)
    (hTaken : ∀ title, lists path title ri → title ∈ titles) :
    Collected path (resolveInfos ++ [ri]) titles data := by
  refine ⟨h.titles_eq, fun item => ?_⟩
  have hFind : (resolveInfos ++ [ri]).find? (lists path item.title) =
      resolveInfos.find? (lists path item.title) := by
    rw [find?_snoc]
    split
    · rename_i hLists
      have hIn := (h.mem_titles item.title).mp (hTaken _ hLists)
      obtain ⟨ri', hFind⟩ := Option.isSome_iff_exists.mp (List.find?_isSome.mpr hIn)
      rw [hFind, Option.some_or]
    · exact Option.or_none
  rw [h.mem_data, hFind]

theorem Collected.add {titles : List JString} {data : List ItemInfo} {ri : ActivityInfo}
    {title : JString} (h : Collected path resolveInfos titles data) (hLists : lists path title ri)
    (hNew : title ∉ titles) :
    Collected path (resolveInfos ++ [ri]) (titles ++ [title]) (data ++ [itemInfoMap path ri title]) := by
  have hNone : resolveInfos.find? (lists path title) = none := by
    rw [List.find?_eq_none]
    exact fun ri' hri' hLists' => hNew ((h.mem_titles title).mpr ⟨ri', hri', hLists'⟩)
  refine ⟨by simp [h.titles_eq, itemInfoMap], fun item => ?_⟩
  rw [List.mem_append, List.mem_singleton, h.mem_data, find?_snoc]
  constructor
  · rintro (⟨ri', hFind, hItem⟩ | rfl)
    · exact ⟨ri', by rw [hFind, Option.some_or], hItem⟩
    · exact ⟨ri, by simp [itemInfoMap, hNone, hLists], rfl⟩
  · rintro ⟨ri', hFind, hItem⟩
    rcases Option.or_eq_some_iff.mp hFind with hFind | ⟨_, hFind⟩
    · exact .inl ⟨ri', hFind, hItem⟩
    · obtain ⟨hLists', hEq⟩ := Option.ite_none_right_eq_some.mp hFind
      cases hEq
      have hTitle : item.title = title :=
        Except.ok.inj ((lists_iff.mp hLists').2.symm.trans (lists_iff.mp hLists).2)
      exact .inr (hTitle ▸ hItem)

theorem Collected.visit {titles : List JString} {data : List ItemInfo} {ri : ActivityInfo}
    (h : Collected path resolveInfos titles data)
    (hTitle : pathWithSlash path <+: ri.label → ∃ title, titleOf path ri.label = .ok title) :
    ∃ titles' data', MainActivity.visit path (titles, data) ri = .ok (titles', data') ∧
      Collected path (resolveInfos ++ [ri]) titles' data' := by
  by_cases hPrefix : pathWithSlash path <+: ri.label
  · obtain ⟨title, hOk⟩ := hTitle hPrefix
    have hLists : lists path title ri := lists_iff.mpr ⟨hPrefix, hOk⟩
    by_cases hTaken : title ∈ titles
    · refine ⟨titles, data, ?_, h.skip fun title' hLists' => ?_⟩
      · simp [MainActivity.visit, hPrefix, hOk, hTaken, bind, Except.bind, pure, Except.pure]
      · exact Except.ok.inj (hOk.symm.trans (lists_iff.mp hLists').2) ▸ hTaken
    · refine ⟨_, _, ?_, h.add hLists hTaken⟩
      simp [MainActivity.visit, hPrefix, hOk, hTaken, bind, Except.bind, pure, Except.pure]
  · refine ⟨titles, data, ?_, h.skip fun title' hLists' => absurd (lists_iff.mp hLists').1 hPrefix⟩
    simp [MainActivity.visit, hPrefix, pure, Except.pure]

theorem foldlM_visit_ok (hOpens : Opens resolveInfos path) :
    ∃ titles data, resolveInfos.foldlM (visit path) ([], []) = .ok (titles, data) ∧
      Collected path resolveInfos titles data := by
  induction resolveInfos using List.reverseRecOn with
  | nil => exact ⟨[], [], rfl, rfl, by simp⟩
  | append_singleton infos ri ih =>
    obtain ⟨titles, data, hFold, hCollected⟩ :=
      ih fun ri' hri' => hOpens ri' (List.mem_append_left _ hri')
    obtain ⟨titles', data', hVisit, hCollected'⟩ := hCollected.visit (hOpens ri (by simp))
    refine ⟨titles', data', ?_, hCollected'⟩
    simp [List.foldlM_append, hFold, hVisit, bind, Except.bind, pure, Except.pure]

/-- What a turn of the loop that throws nothing does. -/
theorem visit_cases {st st' : List JString × List ItemInfo} {ri : ActivityInfo}
    (h : visit path st ri = .ok st') :
    ¬ pathWithSlash path <+: ri.label ∧ st' = st ∨
      ∃ title, titleOf path ri.label = .ok title ∧ (title ∈ st.1 ∧ st' = st ∨
        title ∉ st.1 ∧ st' = (st.1 ++ [title], st.2 ++ [itemInfoMap path ri title])) := by
  obtain ⟨titles, data⟩ := st
  by_cases hPrefix : pathWithSlash path <+: ri.label
  · refine .inr ?_
    cases hTitle : titleOf path ri.label with
    | error e => simp [visit, hPrefix, hTitle, bind, Except.bind] at h
    | ok title =>
      refine ⟨title, rfl, ?_⟩
      by_cases hTaken : title ∈ titles
      · have hSame : (titles, data) = st' := by
          simpa [visit, hPrefix, hTitle, hTaken, bind, Except.bind, pure, Except.pure] using h
        exact .inl ⟨hTaken, hSame.symm⟩
      · have hAdded : (titles ++ [title], data ++ [itemInfoMap path ri title]) = st' := by
          simpa [visit, hPrefix, hTitle, hTaken, bind, Except.bind, pure, Except.pure] using h
        exact .inr ⟨hTaken, hAdded.symm⟩
  · have hSame : (titles, data) = st' := by simpa [visit, hPrefix, pure, Except.pure] using h
    exact .inl ⟨hPrefix, hSame.symm⟩

theorem foldlM_visit_cons {st st' : List JString × List ItemInfo} {ri : ActivityInfo}
    (h : (ri :: resolveInfos).foldlM (visit path) st = .ok st') :
    ∃ st₁, visit path st ri = .ok st₁ ∧ resolveInfos.foldlM (visit path) st₁ = .ok st' := by
  rw [List.foldlM_cons] at h
  cases hVisit : visit path st ri with
  | error e => simp [hVisit, bind, Except.bind] at h
  | ok st₁ => exact ⟨st₁, rfl, by simpa [hVisit, bind, Except.bind] using h⟩

theorem opens_of_foldlM {st st' : List JString × List ItemInfo}
    (h : resolveInfos.foldlM (visit path) st = .ok st') : Opens resolveInfos path := by
  induction resolveInfos generalizing st with
  | nil => exact fun ri hri => absurd hri List.not_mem_nil
  | cons ri infos ih =>
    obtain ⟨st₁, hVisit, hRest⟩ := foldlM_visit_cons h
    refine List.forall_mem_cons.mpr ⟨fun hPrefix => ?_, ih hRest⟩
    obtain ⟨hNot, _⟩ | ⟨title, hTitle, _⟩ := visit_cases hVisit
    · exact absurd hPrefix hNot
    · exact ⟨title, hTitle⟩

theorem getData_eq_ok {data : List ItemInfo} (h : getData cm resolveInfos path = .ok data) :
    Opens resolveInfos path ∧ ∀ item, item ∈ data ↔
      ∃ ri, resolveInfos.find? (lists path item.title) = some ri ∧
        item = itemInfoMap path ri item.title := by
  have hOpens : Opens resolveInfos path := by
    cases hFold : resolveInfos.foldlM (visit path) ([], []) with
    | ok st => exact opens_of_foldlM hFold
    | error e => simp [getData, hFold, bind, Except.bind] at h
  refine ⟨hOpens, fun item => ?_⟩
  obtain ⟨titles, rows, hFold, hCollected⟩ := foldlM_visit_ok hOpens
  simp only [getData, hFold, bind, Except.bind, pure, Except.pure, Except.ok.injEq] at h
  rw [← h, List.mem_mergeSort, hCollected.mem_data]

theorem exists_getData (cm : CaseMapping) (hOpens : Opens resolveInfos path) :
    ∃ data, getData cm resolveInfos path = .ok data := by
  obtain ⟨titles, rows, hFold, _⟩ := foldlM_visit_ok hOpens
  simp [getData, hFold, bind, Except.bind, pure, Except.pure]

theorem getData_ne_nil {data : List ItemInfo} (h : getData cm resolveInfos path = .ok data) :
    data ≠ [] ↔ ∃ ri ∈ resolveInfos, pathWithSlash path <+: ri.label := by
  obtain ⟨hOpens, hMem⟩ := getData_eq_ok h
  constructor
  · intro hNe
    obtain ⟨item, hItem⟩ := List.exists_mem_of_ne_nil data hNe
    obtain ⟨ri, hFind, _⟩ := (hMem item).mp hItem
    exact ⟨ri, List.mem_of_find?_eq_some hFind, (lists_iff.mp (List.find?_some hFind)).1⟩
  · rintro ⟨ri, hri, hPrefix⟩
    obtain ⟨title, hTitle⟩ := hOpens ri hri hPrefix
    have hSome : (resolveInfos.find? (lists path title)).isSome :=
      List.find?_isSome.mpr ⟨ri, hri, lists_iff.mpr ⟨hPrefix, hTitle⟩⟩
    obtain ⟨first, hFind⟩ := Option.isSome_iff_exists.mp hSome
    exact List.ne_nil_of_mem ((hMem (itemInfoMap path first title)).mpr ⟨first, hFind, rfl⟩)

/-! ## The order of the rows -/

theorem titles_nodup_of_foldlM {st st' : List JString × List ItemInfo}
    (h : resolveInfos.foldlM (visit path) st = .ok st') (hNodup : st.1.Nodup) : st'.1.Nodup := by
  induction resolveInfos generalizing st with
  | nil =>
    cases h
    exact hNodup
  | cons ri infos ih =>
    obtain ⟨st₁, hVisit, hRest⟩ := foldlM_visit_cons h
    apply ih hRest
    obtain ⟨_, rfl⟩ | ⟨title, _, ⟨_, rfl⟩ | ⟨hNew, rfl⟩⟩ := visit_cases hVisit
    · exact hNodup
    · exact hNodup
    · exact List.nodup_append.mpr ⟨hNodup, List.pairwise_singleton _ title, by
        rintro title' hTitle' _ hSame rfl
        exact hNew (List.mem_singleton.mp hSame ▸ hTitle')⟩

theorem getData_rows {data : List ItemInfo} (h : getData cm resolveInfos path = .ok data) :
    ∃ rows : List ItemInfo, (rows.map (·.title)).Nodup ∧
      data = rows.mergeSort fun lhs rhs => compareToIgnoreCase cm lhs.title rhs.title ≤ 0 := by
  obtain ⟨titles, rows, hFold, hCollected⟩ := foldlM_visit_ok (getData_eq_ok h).1
  simp only [getData, hFold, bind, Except.bind, pure, Except.pure, Except.ok.injEq] at h
  exact ⟨rows, hCollected.titles_eq ▸ titles_nodup_of_foldlM hFold List.nodup_nil, h.symm⟩

theorem getData_of_foldlM {titles : List JString} {rows : List ItemInfo}
    (hFold : resolveInfos.foldlM (visit path) ([], []) = .ok (titles, rows))
    (hSorted : rows.Pairwise fun lhs rhs => compareToIgnoreCase cm lhs.title rhs.title ≤ 0) :
    getData cm resolveInfos path = .ok rows := by
  have hRows := List.mergeSort_of_pairwise (hSorted.imp (decide_eq_true (p := _ ≤ _)))
  simp only [getData, hFold, bind, Except.bind, pure, Except.pure, hRows]

theorem getData_titles_nodup {data : List ItemInfo} (h : getData cm resolveInfos path = .ok data) :
    (data.map (·.title)).Nodup := by
  obtain ⟨rows, hNodup, rfl⟩ := getData_rows h
  exact ((List.mergeSort_perm rows _).map _).nodup_iff.mpr hNodup

theorem getData_sorted {data : List ItemInfo} (h : getData cm resolveInfos path = .ok data) :
    data.Pairwise fun lhs rhs => compareToIgnoreCase cm lhs.title rhs.title ≤ 0 := by
  obtain ⟨rows, _, rfl⟩ := getData_rows h
  let before (lhs rhs : ItemInfo) : Bool := decide (compareToIgnoreCase cm lhs.title rhs.title ≤ 0)
  have hBefore (lhs rhs : ItemInfo) : before lhs rhs = true ↔
      foldCase cm lhs.title ≤ foldCase cm rhs.title := by
    rw [decide_eq_true_iff, compareToIgnoreCase_nonpos]
  have hTrans (a b c : ItemInfo) (hab : before a b = true) (hbc : before b c = true) :
      before a c = true := by
    rw [hBefore] at hab hbc ⊢
    exact hab.trans hbc
  have hTotal (a b : ItemInfo) : (before a b || before b a) = true := by
    rw [Bool.or_eq_true, hBefore, hBefore]
    exact le_total _ _
  exact (List.pairwise_mergeSort hTrans hTotal rows).imp of_decide_eq_true

end MainActivity

end AndroidDemo.Launcher
