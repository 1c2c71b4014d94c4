import AndroidDemo.Launcher.Demos

/-! # From the first screen to an activity -/

namespace AndroidDemo.Launcher

open AndroidDemo.Java AndroidDemo.Words MainActivity

inductive Failure
  | threw (exception : RuntimeException)
  | noEntry
  | left
  deriving DecidableEq

def launch : Intent := { className := name, title := [], path := none }

/-- A click on the row with this title, on the screen that an intent opens. -/
def follow (cm : CaseMapping) (resolveInfos : List ActivityInfo) (screen : Intent) (title : JString) :
    Except Failure Intent :=
  match onCreate cm resolveInfos screen with
  | .error exception => .error (.threw exception)
  | .ok data =>
    match onItemClick data (data.findIdx (·.title == title)) with
    | none => .error .noEntry
    | some intent => .ok intent

/-- Clicks on one title after the other. The last intent may start any class. -/
def walk (cm : CaseMapping) (resolveInfos : List ActivityInfo) :
    Intent → List JString → Except Failure Intent
  | _, [] => .error .noEntry
  | screen, [title] => follow cm resolveInfos screen title
  | screen, title :: title' :: titles =>
    match follow cm resolveInfos screen title with
    | .error failure => .error failure
    | .ok intent =>
      if intent.className = name then walk cm resolveInfos intent (title' :: titles) else .error .left

/-- The screens that clicks on any rows lead to. -/
inductive Reachable (cm : CaseMapping) (resolveInfos : List ActivityInfo) : Intent → Prop
  | launch : Reachable cm resolveInfos launch
  | click {screen intent : Intent} {data : List ItemInfo} {position : Nat}
    (h : Reachable cm resolveInfos screen) (hData : onCreate cm resolveInfos screen = .ok data)
    (hClick : onItemClick data position = some intent) (hName : intent.className = name) :
    Reachable cm resolveInfos intent

/-- The segments of a label lead to its activity, and every screen that can be
reached opens with a row. -/
structure EveryEntryLeads (cm : CaseMapping) (resolveInfos : List ActivityInfo) : Prop where
  walk : ∀ a ∈ resolveInfos, ∃ intent, walk cm resolveInfos launch (segments a.label) = .ok intent ∧
    intent.className = a.name ∧ intent.path = none
  nonempty : ∀ screen, Reachable cm resolveInfos screen →
    ∃ data, onCreate cm resolveInfos screen = .ok data ∧ data ≠ []

/-- No label has one segment. A label that starts with the characters of a
directory, but not with its segments, has one more segment, and this is the title
of an entry of the directory. If the entry is an activity, its label comes first. -/
structure Unambiguous (resolveInfos : List ActivityInfo) : Prop where
  two_segments : ∀ a ∈ resolveInfos, 2 ≤ (segments a.label).length
  stray : ∀ path, (∃ a ∈ resolveInfos, segments path <+: segments a.label ∧ path ≠ a.label) →
    ∀ pre b post, resolveInfos = pre ++ b :: post →
      path <+: b.label → ¬ segments path <+: segments b.label →
      ∃ title, (segments b.label)[(segments path).length]? = some title ∧
        (∃ a ∈ resolveInfos, segments path ++ [title] <+: segments a.label) ∧
        ∀ a ∈ resolveInfos, segments a.label = segments path ++ [title] → a ∈ pre

variable {cm : CaseMapping} {resolveInfos : List ActivityInfo}

/-! ## Clicks -/

theorem find?_title {data : List ItemInfo} {path : Option JString}
    (hData : getData cm resolveInfos path = .ok data) (title : JString) :
    data.find? (·.title == title) =
      (resolveInfos.find? (lists path title)).map fun ri => itemInfoMap path ri title := by
  obtain ⟨_, hMem⟩ := getData_eq_ok hData
  cases hFind : data.find? (·.title == title) with
  | none =>
    cases hFirst : resolveInfos.find? (lists path title) with
    | none => rfl
    | some ri =>
      have hItem := (hMem (itemInfoMap path ri title)).mpr ⟨ri, hFirst, rfl⟩
      have hNot := List.find?_eq_none.mp hFind _ hItem
      simp [itemInfoMap] at hNot
  | some item =>
    have hTitle : item.title = title := by simpa using List.find?_some hFind
    obtain ⟨ri, hFirst, hItem⟩ := (hMem item).mp (List.mem_of_find?_eq_some hFind)
    rw [hTitle] at hFirst hItem
    rw [hFirst, Option.map_some, hItem]

theorem follow_eq_ok {screen intent : Intent} {title : JString} :
    follow cm resolveInfos screen title = .ok intent ↔ Opens resolveInfos screen.path ∧
      ∃ ri, resolveInfos.find? (lists screen.path title) = some ri ∧
        dest screen.path ri title = intent := by
  constructor
  · intro h
    cases hData : getData cm resolveInfos screen.path with
    | error e => simp [follow, onCreate, hData] at h
    | ok data =>
      refine ⟨(getData_eq_ok hData).1, ?_⟩
      simp only [follow, onCreate, hData, onItemClick, ← List.find?_eq_getElem?_findIdx,
        find?_title hData] at h
      cases hFirst : resolveInfos.find? (lists screen.path title) with
      | none => simp [hFirst] at h
      | some ri => exact ⟨ri, rfl, by simpa [hFirst, itemInfoMap] using h⟩
  · rintro ⟨hOpens, ri, hFirst, rfl⟩
    obtain ⟨data, hData⟩ := exists_getData cm hOpens
    simp only [follow, onCreate, hData, onItemClick, ← List.find?_eq_getElem?_findIdx,
      find?_title hData, hFirst, Option.map_some, itemInfoMap]

theorem follow_of_click {screen intent : Intent} {data : List ItemInfo} {position : Nat}
    (hData : onCreate cm resolveInfos screen = .ok data)
    (hClick : onItemClick data position = some intent) :
    ∃ title, follow cm resolveInfos screen title = .ok intent := by
  obtain ⟨item, hItem, rfl⟩ := Option.map_eq_some_iff.mp hClick
  obtain ⟨hOpens, hMem⟩ := getData_eq_ok hData
  obtain ⟨ri, hFirst, hEq⟩ := (hMem item).mp (List.mem_of_getElem? hItem)
  refine ⟨item.title, follow_eq_ok.mpr ⟨hOpens, ri, hFirst, ?_⟩⟩
  rw [hEq]
  rfl

theorem Reachable.follow {screen intent : Intent} {title : JString}
    (h : Reachable cm resolveInfos screen) (hFollow : follow cm resolveInfos screen title = .ok intent)
    (hName : intent.className = name) : Reachable cm resolveInfos intent := by
  cases hData : onCreate cm resolveInfos screen with
  | error e => simp [Launcher.follow, hData] at hFollow
  | ok data =>
    simp only [Launcher.follow, hData] at hFollow
    cases hClick : onItemClick data (data.findIdx (·.title == title)) with
    | none => simp [hClick] at hFollow
    | some intent' =>
      rw [hClick] at hFollow
      cases hFollow
      exact h.click hData hClick hName

end AndroidDemo.Launcher
