import AndroidDemo.Launcher.Screen
import Mathlib.Data.List.Nodup

/-! # The labels of the demos, cut at their slashes -/

namespace AndroidDemo.Launcher

open AndroidDemo.Java AndroidDemo.Words MainActivity

/-- The activities that the launcher shows, in the order of the query. -/
structure Demos where
  resolveInfos : List ActivityInfo
  nonempty : resolveInfos ≠ []
  distinct : (resolveInfos.map (·.label)).Nodup
  segments_ne : ∀ a ∈ resolveInfos, [] ∉ segments a.label
  prefixFree : ∀ a ∈ resolveInfos, ∀ b ∈ resolveInfos,
    segments a.label <+: segments b.label → a.label = b.label

def pathSegments : Option JString → List JString
  | none => []
  | some path => segments path

def child : Option JString → JString → JString
  | none, title => title
  | some path, title => path ++ slash :: title

theorem slash_notMem {label title : JString} (h : title ∈ segments label) : slash ∉ title :=
  sep_notMem_of_mem_splitOn h

theorem pathSegments_child {path : Option JString} {title : JString} (h : slash ∉ title) :
    pathSegments (some (child path title)) = pathSegments path ++ [title] := by
  cases path with
  | none => exact List.splitOn_eq_singleton h
  | some path => exact splitOn_append_sep h

theorem child_inj {path : Option JString} {title label : JString} (h : slash ∉ title) :
    segments label = pathSegments path ++ [title] ↔ label = child path title := by
  rw [← pathSegments_child h]
  exact splitOn_inj

theorem pathWithSlash_some (path : JString) : pathWithSlash (some path) = path := by
  cases path <;> rfl

theorem prefix_of_segments {path : Option JString} {label : JString}
    (h : pathSegments path <+: segments label) : pathWithSlash path <+: label := by
  cases path with
  | none => exact List.nil_prefix
  | some path =>
    rw [pathWithSlash_some]
    exact prefix_of_splitOn_prefix h

theorem ne_pathWithSlash {path : Option JString} {label : JString} (hLabel : [] ∉ segments label)
    (h : segments label ≠ pathSegments path) : label ≠ pathWithSlash path := by
  rintro rfl
  cases path with
  | none => exact ne_nil_of_segments hLabel rfl
  | some path => exact h (by rw [pathWithSlash_some, pathSegments])

/-- The title of a label is the segment behind as many segments as the path has. -/
theorem titleOf_eq_ok {path : Option JString} {label title : JString}
    (hPath : [] ∉ pathSegments path) (hLabel : [] ∉ segments label)
    (hNe : label ≠ pathWithSlash path) :
    titleOf path label = .ok title ↔ (segments label)[(pathSegments path).length]? = some title := by
  rw [titleOf]
  simp only [hNe, if_false, split_eq_segments hLabel]
  cases path with
  | none => exact elementAt_eq_ok
  | some path =>
    have hEmpty : isEmpty (some path) = false := by
      simpa [isEmpty] using ne_nil_of_segments hPath
    have hNames : subPathNames (some path) = some (segments path) := by
      rw [subPathNames, hEmpty, if_neg Bool.false_ne_true, Option.map_some, split_eq_segments hPath]
    rw [hNames]
    exact elementAt_eq_ok

theorem dest_eq {path : Option JString} {ri : ActivityInfo} {title : JString}
    (hPath : [] ∉ pathSegments path) (hLabel : [] ∉ segments ri.label) (hTitle : slash ∉ title) :
    dest path ri title =
      if path ≠ none ∧ segments ri.label = pathSegments path ++ [title] then
        { className := ri.name, title, path := none }
      else { className := name, title, path := some (child path title) } := by
  simp only [dest, child_inj hTitle]
  cases path with
  | none =>
    have hNe : ri.label ≠ pathWithSlash none ++ slash :: title := by
      intro hEq
      apply hLabel
      rw [hEq, segments]
      exact List.mem_of_mem_head? rfl
    simp [hNe, subPathNames, isEmpty, child]
  | some path =>
    have hEmpty : isEmpty (some path) = false := by
      simpa [isEmpty] using ne_nil_of_segments hPath
    simp [pathWithSlash_some, subPathNames, hEmpty, child]

namespace Demos

variable (d : Demos)

theorem eq_of_label {a b : ActivityInfo} (ha : a ∈ d.resolveInfos) (hb : b ∈ d.resolveInfos)
    (h : a.label = b.label) : a = b :=
  List.inj_on_of_nodup_map d.distinct ha hb h

theorem eq_of_prefix {a b : ActivityInfo} (ha : a ∈ d.resolveInfos) (hb : b ∈ d.resolveInfos)
    (h : segments a.label <+: segments b.label) : a = b :=
  d.eq_of_label ha hb (d.prefixFree a ha b hb h)

/-- The path of a screen is a proper prefix of a label, by its segments. -/
def Directory (path : Option JString) : Prop :=
  ∃ a ∈ d.resolveInfos, pathSegments path <+: segments a.label ∧ pathSegments path ≠ segments a.label

variable {d} {path : Option JString} {title : JString} {ri : ActivityInfo}

theorem Directory.segments_ne (h : d.Directory path) : [] ∉ pathSegments path := by
  obtain ⟨a, ha, hPrefix, _⟩ := h
  exact fun hNil => d.segments_ne a ha (hPrefix.subset hNil)

theorem Directory.label_ne (h : d.Directory path) (hri : ri ∈ d.resolveInfos) :
    segments ri.label ≠ pathSegments path := by
  obtain ⟨a, ha, hPrefix, hNe⟩ := h
  intro hEq
  have hSame : ri = a := d.eq_of_prefix hri ha (hEq ▸ hPrefix)
  exact hNe (hSame ▸ hEq.symm)

theorem Directory.lists_iff (h : d.Directory path) (hri : ri ∈ d.resolveInfos) :
    lists path title ri ↔ pathWithSlash path <+: ri.label ∧
      (segments ri.label)[(pathSegments path).length]? = some title := by
  have hLabel := d.segments_ne ri hri
  rw [MainActivity.lists_iff,
    titleOf_eq_ok h.segments_ne hLabel (ne_pathWithSlash hLabel (h.label_ne hri))]

theorem Directory.lists_of_prefix (h : d.Directory path) (hri : ri ∈ d.resolveInfos)
    (hPrefix : pathSegments path ++ [title] <+: segments ri.label) : lists path title ri :=
  (h.lists_iff hri).mpr ⟨prefix_of_segments ((List.prefix_append _ _).trans hPrefix),
    getElem?_of_prefix_append hPrefix⟩

end Demos

end AndroidDemo.Launcher
