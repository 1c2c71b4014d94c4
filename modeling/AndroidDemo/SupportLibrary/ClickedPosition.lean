import AndroidDemo.SupportLibrary.ItemIdentity
import Mathlib.Data.List.Nodup

/-! # The position that a click reports

The listener reports the position at which its holder was bound. The item has
moved since then by as many places as items were added and deleted in front of it.
-/

namespace AndroidDemo.SupportLibrary

open Interaction

variable {H : Type}

/-- The holder shows `entry` and was bound at `position`. Since then the item has
moved by `moved` places, unless it is gone. -/
structure ViewHolder.Shows (resIds : List Entry) (nextId : Nat) (moved : Int) (name : H)
    (entry : Entry) (position : Nat) (holder : ViewHolder (ImageView H Entry)) : Prop where
  resource : holder.itemView.resource = some entry
  onClickListener : holder.itemView.onClickListener = some { holder := name, position }
  used : entry.id < nextId
  gone : holder.adapterPosition = none → entry ∉ resIds
  there : ∀ p, holder.adapterPosition = some p →
    resIds[p]? = some entry ∧ (p : Int) = position + moved

namespace ViewHolder.Shows

variable {resIds : List Entry} {nextId position : Nat} {moved : Int} {name : H} {entry : Entry}
  {holder : ViewHolder (ImageView H Entry)}

theorem inserted (h : holder.Shows resIds nextId moved name entry position) (resId : Drawable) :
    (holder.inserted 0).Shows ({ id := nextId, resId } :: resIds) (nextId + 1) (moved + 1) name
      entry position where
  resource := h.resource
  onClickListener := h.onClickListener
  used := Nat.lt_succ_of_lt h.used
  gone hNone := by
    rw [ViewHolder.inserted, Option.map_eq_none_iff] at hNone
    have hNew : entry ≠ { id := nextId, resId } := fun hEq => by
      have hUsed := h.used
      rw [hEq] at hUsed
      exact lt_irrefl _ hUsed
    exact List.not_mem_cons_of_ne_of_not_mem hNew (h.gone hNone)
  there p hp := by
    obtain ⟨q, hq, rfl⟩ := Option.map_eq_some_iff.mp hp
    obtain ⟨hGet, hMoved⟩ := h.there q hq
    rw [if_neg (Nat.not_lt_zero q)]
    refine ⟨hGet, ?_⟩
    push_cast
    omega

theorem removed {first : Entry} (hNodup : (first :: resIds).Nodup)
    (h : holder.Shows (first :: resIds) nextId moved name entry position) :
    (holder.removed 0).Shows resIds nextId (moved - 1) name entry position where
  resource := h.resource
  onClickListener := h.onClickListener
  used := h.used
  gone hNone := by
    cases hPosition : holder.adapterPosition with
    | none => exact fun hIn => h.gone hPosition (List.mem_cons_of_mem first hIn)
    | some q =>
      cases q with
      | zero =>
        have hFirst : first = entry := Option.some.inj (h.there 0 hPosition).1
        exact hFirst ▸ (List.nodup_cons.mp hNodup).1
      | succ q => simp [ViewHolder.removed, hPosition] at hNone
  there p hp := by
    obtain ⟨q, hq, hRemoved⟩ := Option.bind_eq_some_iff.mp hp
    obtain ⟨hGet, hMoved⟩ := h.there q hq
    cases q with
    | zero => cases hRemoved
    | succ q =>
      cases hRemoved
      refine ⟨hGet, ?_⟩
      push_cast at hMoved
      omega

theorem bind {p : Nat} (hp : p < resIds.length) (hUsed : resIds[p].id < nextId) :
    (holder.bind p (MyAdapter.onBindViewHolder resIds name ⟨p, hp⟩)).Shows resIds nextId 0 name
      resIds[p] p where
  resource := rfl
  onClickListener := rfl
  used := hUsed
  gone hNone := by cases hNone
  there q hq := by
    cases hq
    exact ⟨List.getElem?_eq_getElem hp, (Int.add_zero _).symm⟩

/-- A holder whose item is gone stays as it is. -/
theorem shuffled {resIds' : List Entry} {moved' : Int} (hPerm : resIds'.Perm resIds)
    (hNone : holder.adapterPosition = none)
    (h : holder.Shows resIds nextId moved name entry position) :
    holder.Shows resIds' nextId moved' name entry position where
  resource := h.resource
  onClickListener := h.onClickListener
  used := h.used
  gone _ hIn := h.gone hNone (hPerm.mem_iff.mp hIn)
  there p hp := by
    rw [hNone] at hp
    cases hp

theorem lt_length {p : Nat} (h : holder.Shows resIds nextId moved name entry position)
    (hp : holder.adapterPosition = some p) : p < resIds.length :=
  (List.getElem?_eq_some_iff.mp (h.there p hp).1).1

end ViewHolder.Shows

/-- A bound holder shows the entry of its item, or the entry of an item that is gone. -/
structure ViewHolder.Follows (resIds : List Entry) (nextId : Nat) (moved : Int) (name : H)
    (holder : ViewHolder (ImageView H Entry)) : Prop where
  bound : holder.bound = true →
    ∃ entry position, holder.Shows resIds nextId moved name entry position
  unbound : holder.bound = false → holder.adapterPosition = none

namespace ViewHolder.Follows

variable {resIds resIds' : List Entry} {nextId p : Nat} {moved : Int} {name : H}
  {holder : ViewHolder (ImageView H Entry)}

theorem inserted (h : holder.Follows resIds nextId moved name) (resId : Drawable) :
    (holder.inserted 0).Follows ({ id := nextId, resId } :: resIds) (nextId + 1) (moved + 1)
      name where
  bound hBound := by
    obtain ⟨entry, position, hShows⟩ := h.bound hBound
    exact ⟨entry, position, hShows.inserted resId⟩
  unbound hBound := ViewHolder.inserted_of_none (h.unbound hBound)

theorem removed {first : Entry} (hNodup : (first :: resIds).Nodup)
    (h : holder.Follows (first :: resIds) nextId moved name) :
    (holder.removed 0).Follows resIds nextId (moved - 1) name where
  bound hBound := by
    obtain ⟨entry, position, hShows⟩ := h.bound hBound
    exact ⟨entry, position, hShows.removed hNodup⟩
  unbound hBound := ViewHolder.removed_of_none (h.unbound hBound)

theorem bind (hp : p < resIds.length) (hUsed : ∀ entry ∈ resIds, entry.id < nextId) :
    (holder.bind p (MyAdapter.onBindViewHolder resIds name ⟨p, hp⟩)).Follows resIds nextId 0
      name where
  bound _ := ⟨resIds[p], p, .bind hp (hUsed _ (List.getElem_mem hp))⟩
  unbound hBound := by cases hBound

theorem rangeChanged (hPerm : resIds'.Perm resIds) (hUsed : ∀ entry ∈ resIds', entry.id < nextId)
    (h : holder.Follows resIds nextId moved name) :
    (holder.rangeChanged 0 resIds'.length (Nat.zero_add _).le
      (MyAdapter.onBindViewHolder resIds' name)).Follows resIds' nextId 0 name := by
  cases hPosition : holder.adapterPosition with
  | none =>
    rw [ViewHolder.rangeChanged_of_none hPosition]
    refine ⟨fun hBound => ?_, h.unbound⟩
    obtain ⟨entry, position, hShows⟩ := h.bound hBound
    exact ⟨entry, position, hShows.shuffled hPerm hPosition⟩
  | some p =>
    have hBound : holder.bound = true := by
      rw [← Bool.not_eq_false]
      intro hUnbound
      cases (h.unbound hUnbound).symm.trans hPosition
    obtain ⟨entry, position, hShows⟩ := h.bound hBound
    have hp : p < resIds'.length := hPerm.length_eq ▸ hShows.lt_length hPosition
    rw [ViewHolder.rangeChanged_eq_bind hBound hPosition ⟨Nat.zero_le p, by rwa [Nat.zero_add]⟩]
    exact .bind hp hUsed

theorem recycle : holder.recycle.Follows resIds nextId moved name where
  bound hBound := by cases hBound
  unbound _ := rfl

end ViewHolder.Follows

namespace Identified

variable [DecidableEq H] {acts : List (Action H)} {s s' : Identified H} {name : H} {entry : Entry}

def move (name : H) (moved : Int) : Action H → Int
  | .select .add _ => moved + 1
  | .select .del _ => moved - 1
  | .select .resort _ => 0
  | .bind other _ => if other = name then 0 else moved
  | .recycle _ => moved

/-- The items added minus the items deleted since `name` was bound last; `resort`
binds as well. -/
def drift (name : H) (acts : List (Action H)) : Int :=
  acts.foldl (move name) 0

theorem drift_concat (name : H) (acts : List (Action H)) (act : Action H) :
    drift name (acts ++ [act]) = move name (drift name acts) act := by
  rw [drift, List.foldl_concat, drift]

def holder (s : Identified H) (name : H) : ViewHolder (ImageView H Entry) :=
  s.activity.recyclerView.viewHolder name

/-- The numbers tell the entries apart. -/
structure Numbered (s : Identified H) : Prop where
  distinct : (s.activity.resIds.map Entry.id).Nodup
  used : ∀ entry ∈ s.activity.resIds, entry.id < s.nextId

omit [DecidableEq H] in
theorem Numbered.nodup (h : s.Numbered) : s.activity.resIds.Nodup := List.Nodup.of_map _ h.distinct

theorem step_numbered {act : Action H} (h : s.Numbered) (hStep : s.step act = some s') :
    s'.Numbered := by
  cases act with
  | select item random =>
    cases item with
    | add =>
      obtain ⟨resId, rfl⟩ := step_add hStep
      constructor
      · refine List.nodup_cons.mpr ⟨fun hIn => ?_, h.distinct⟩
        obtain ⟨entry, hEntry, hId⟩ := List.mem_map.mp hIn
        exact (h.used entry hEntry).ne hId
      · exact List.forall_mem_cons.mpr
          ⟨Nat.lt_succ_self _, fun entry hIn => Nat.lt_succ_of_lt (h.used entry hIn)⟩
    | del =>
      obtain ⟨first, resIds, hList, rfl⟩ := step_del hStep
      have hDistinct := h.distinct
      have hUsed := h.used
      rw [hList] at hDistinct hUsed
      exact ⟨(List.nodup_cons.mp hDistinct).2, (List.forall_mem_cons.mp hUsed).2⟩
    | resort =>
      obtain ⟨resIds, hPerm, rfl⟩ := step_resort hStep
      exact ⟨(hPerm.map Entry.id).nodup_iff.mpr h.distinct,
        fun entry hIn => h.used entry (hPerm.mem_iff.mp hIn)⟩
  | bind other position =>
    obtain ⟨_, rfl⟩ := step_bind hStep
    exact ⟨h.distinct, h.used⟩
  | recycle other =>
    rw [step_recycle hStep]
    exact ⟨h.distinct, h.used⟩

def Follows (s : Identified H) (moved : Int) (name : H) : Prop :=
  (s.holder name).Follows s.activity.resIds s.nextId moved name

theorem step_follows {act : Action H} {moved : Int} (hNumbered : s.Numbered)
    (h : s.Follows moved name) (hStep : s.step act = some s') :
    s'.Follows (move name moved act) name := by
  have hUsed := (step_numbered hNumbered hStep).used
  cases act with
  | select item random =>
    cases item with
    | add =>
      obtain ⟨resId, rfl⟩ := step_add hStep
      exact h.inserted resId
    | del =>
      obtain ⟨first, resIds, hList, rfl⟩ := step_del hStep
      have hNodup := hNumbered.nodup
      rw [hList] at hNodup
      rw [Follows, hList] at h
      exact h.removed hNodup
    | resort =>
      obtain ⟨resIds, hPerm, rfl⟩ := step_resort hStep
      exact h.rangeChanged hPerm hUsed
  | bind other position =>
    obtain ⟨hp, rfl⟩ := step_bind hStep
    rcases eq_or_ne other name with rfl | hOther
    · rw [move, if_pos rfl, Follows, holder, RecyclerView.bind_self]
      exact .bind hp hUsed
    · rw [move, if_neg hOther, Follows, holder, RecyclerView.bind_of_ne hOther.symm]
      exact h
  | recycle other =>
    rw [step_recycle hStep]
    rcases eq_or_ne other name with rfl | hOther
    · rw [Follows, holder, RecyclerView.recycle_self]
      exact .recycle
    · rw [Follows, holder, RecyclerView.recycle_of_ne hOther.symm]
      exact h

theorem step_adapter {act : Action H} (hStep : s.step act = some s') :
    s'.activity.adapter = s.activity.adapter := by
  rcases act with ⟨_ | _ | _, random⟩ | ⟨other, position⟩ | other
  · obtain ⟨resId, rfl⟩ := step_add hStep
    rfl
  · obtain ⟨first, resIds, hList, rfl⟩ := step_del hStep
    rfl
  · obtain ⟨resIds, hPerm, rfl⟩ := step_resort hStep
    rfl
  · obtain ⟨hp, rfl⟩ := step_bind hStep
    rfl
  · rw [step_recycle hStep]

structure Invariant (acts : List (Action H)) (s : Identified H) : Prop where
  adapter : s.activity.adapter =
    { mOnItemClickListener := some .activity, mOnItemLongClickListener := none }
  numbered : s.Numbered
  follows : ∀ name, s.Follows (drift name acts) name

theorem run_invariant (hRun : Steps.run step create acts = some s) : Invariant acts s := by
  have hIds : (RecyclerViewActivity.getData.mapIdx Entry.mk).map Entry.id =
    List.range RecyclerViewActivity.getData.length := by decide
  refine Steps.invariant (I := Invariant) ?_ ?_ hRun
  · refine ⟨rfl, ⟨?_, ?_⟩, fun name => ⟨fun hBound => ?_, fun _ => rfl⟩⟩
    · exact hIds ▸ List.nodup_range
    · exact fun entry hIn => List.mem_range.mp (hIds ▸ List.mem_map_of_mem hIn)
    · cases hBound
  · intro acts s act s' h hStep
    refine ⟨?_, step_numbered h.numbered hStep, fun name => ?_⟩
    · rw [step_adapter hStep, h.adapter]
    · rw [drift_concat]
      exact step_follows h.numbered (h.follows name) hStep

/-! ## Clicks -/

/-- A click on the image calls the listener with the position of the holder,
which is the index of `entry`. -/
def ReportsPosition (s : Identified H) (name : H) (entry : Entry) : Prop :=
  ∃ p, s.activity.click name = some (.activity, name, p) ∧
    (s.holder name).adapterPosition = some p ∧ s.activity.resIds.idxOf entry = p

/-- In every run a bound holder whose entry is in the list reports its position
just when as many items were added as deleted since it was bound. -/
theorem reportsPosition_iff (hRun : Steps.run step create acts = some s)
    (hBound : (s.holder name).bound = true)
    (hShown : (s.holder name).itemView.resource = some entry) (hIn : entry ∈ s.activity.resIds) :
    s.ReportsPosition name entry ↔ drift name acts = 0 := by
  have hInv := run_invariant hRun
  obtain ⟨shown, position, hShows⟩ := (hInv.follows name).bound hBound
  obtain rfl : shown = entry := Option.some.inj (hShows.resource.symm.trans hShown)
  obtain ⟨p, hPosition⟩ : ∃ p, (s.holder name).adapterPosition = some p := by
    rw [← Option.isSome_iff_exists, Option.isSome_iff_ne_none]
    exact fun hNone => hShows.gone hNone hIn
  obtain ⟨hGet, hMoved⟩ := hShows.there p hPosition
  have hIndex : s.activity.resIds.idxOf shown = p := by
    obtain ⟨hp, rfl⟩ := List.getElem?_eq_some_iff.mp hGet
    exact hInv.numbered.nodup.idxOf_getElem p hp
  have hClick : s.activity.click name = some (.activity, name, position) := by
    have hListener : (s.activity.recyclerView.viewHolder name).itemView.onClickListener =
      some { holder := name, position } := hShows.onClickListener
    rw [RecyclerViewActivity.click, hListener, Option.bind_some, MyAdapter.onClick, hInv.adapter]
    rfl
  constructor
  · rintro ⟨q, hReported, hCurrent, _⟩
    rw [hClick] at hReported
    rw [hPosition] at hCurrent
    cases hReported
    cases hCurrent
    omega
  · intro hDrift
    obtain rfl : p = position := by omega
    exact ⟨p, hClick, hPosition, hIndex⟩

/-- In every run a long click reports nothing: the images take long clicks, but the
activity sets no listener for them. -/
theorem longClick_eq_none (hRun : Steps.run step create acts = some s) (name : H) :
    s.activity.longClick name = none := by
  rw [RecyclerViewActivity.longClick, Option.bind_eq_none_iff]
  intro captured _
  rw [MyAdapter.onLongClick, (run_invariant hRun).adapter]
  rfl

/-- After the second image was bound, one was added and one was deleted. -/
theorem reportsPosition_add_del : ∃ s : Identified Nat,
    Steps.run step create [.bind 0 1, .select .add fun _ => 0, .select .del fun _ => 0] = some s ∧
      s.ReportsPosition 0 { id := 1, resId := .meizhi014 } := by
  refine ⟨_, rfl, ?_⟩
  have hDrift : drift 0 [.bind 0 1, .select .add fun _ => 0, .select .del fun _ => 0] = 0 := rfl
  exact (reportsPosition_iff rfl rfl rfl (by decide)).mpr hDrift

/-- After the second image was bound, the first one is deleted. -/
theorem not_reportsPosition :
    ¬ ∀ (acts : List (Action Nat)) (s : Identified Nat) (name : Nat) (entry : Entry),
      Steps.run step create acts = some s → (s.holder name).bound = true →
      (s.holder name).itemView.resource = some entry → entry ∈ s.activity.resIds →
      s.ReportsPosition name entry := by
  intro hAll
  have hReports := hAll [.bind 0 1, .select .del fun _ => 0] _ 0 { id := 1, resId := .meizhi014 }
    rfl rfl rfl (by decide)
  obtain ⟨p, hClick, hPosition, _⟩ := hReports
  have hOne : p = 1 := by cases hClick; rfl
  have hZero : p = 0 := by cases hPosition; rfl
  omega

end Identified

end AndroidDemo.SupportLibrary
