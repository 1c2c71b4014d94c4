import AndroidDemo.SupportLibrary.RecyclerViewActivity

/-! # The identity of the list entries

`add` repeats a resource id that is already in the list. To tell the entries
apart each one gets a number that no earlier entry had; the code runs the same
with the numbers as without them.
-/

namespace AndroidDemo.SupportLibrary

open AndroidDemo.Java Interaction

variable {H α β : Type}

def ImageView.map (f : α → β) (view : ImageView H α) : ImageView H β :=
  { resource := view.resource.map f
    onClickListener := view.onClickListener
    onLongClickListener := view.onLongClickListener }

namespace RecyclerViewActivity

def map (f : α → β) (a : RecyclerViewActivity H α) : RecyclerViewActivity H β where
  resIds := a.resIds.map f
  adapter := a.adapter
  recyclerView := a.recyclerView.map (ImageView.map f)

theorem onBindViewHolder_map {f : α → β} {resIds : List α} {holder : H} {p : Nat}
    (hp : p < resIds.length) (hp' : p < (resIds.map f).length) (view : ImageView H α) :
    MyAdapter.onBindViewHolder (resIds.map f) holder ⟨p, hp'⟩ (view.map f) =
      (MyAdapter.onBindViewHolder resIds holder ⟨p, hp⟩ view).map f := by
  simp [MyAdapter.onBindViewHolder, ImageView.map]

theorem onOptionsItemSelected_map (f : α → β) (random : Nat → Nat) (a : RecyclerViewActivity H α)
    (item : MenuItem) :
    (a.map f).onOptionsItemSelected random item =
      (a.onOptionsItemSelected random item).map (map f) := by
  cases item with
  | add =>
    simp only [onOptionsItemSelected, map, List.length_map, List.getElem?_map]
    cases nextInt random a.resIds.length with
    | none => rfl
    | some i =>
      cases hGet : a.resIds[i]? with
      | none => simp [hGet]
      | some resId => simp [hGet, map, RecyclerView.map_notifyItemInserted]
  | del =>
    simp only [onOptionsItemSelected, map]
    cases a.resIds with
    | nil => rfl
    | cons resId resIds => rfl
  | resort =>
    simp only [onOptionsItemSelected, map, shuffle_map]
    cases shuffle random a.resIds with
    | none => rfl
    | some resIds =>
      simp only [Option.map_some, Option.bind_eq_bind, Option.bind_some, Option.pure_def, map]
      rw [RecyclerView.map_notifyItemRangeChanged (List.length_map f) fun _ _ =>
        onBindViewHolder_map]

theorem step_map [DecidableEq H] (f : α → β) (a : RecyclerViewActivity H α) (act : Action H) :
    (a.map f).step act = (a.step act).map (map f) := by
  cases act with
  | select item random => exact onOptionsItemSelected_map f random a item
  | bind holder position =>
    have hLength : (a.map f).resIds.length = a.resIds.length := List.length_map f
    by_cases hp : position < a.resIds.length
    · rw [step_bind_of_lt hp, step_bind_of_lt (hLength ▸ hp)]
      refine congrArg some (RecyclerViewActivity.ext rfl rfl ?_)
      exact RecyclerView.map_bind (onBindViewHolder_map hp _)
    · rw [step_bind_of_not_lt hp, step_bind_of_not_lt (hLength ▸ hp)]
      rfl
  | recycle holder =>
    simp only [step, map, Option.map_some, RecyclerView.map_recycle]

end RecyclerViewActivity

structure Entry where
  id : Nat
  resId : Drawable
  deriving DecidableEq

/-- The activity with numbered entries; `nextId` has not been given away yet. -/
structure Identified (H : Type) where
  activity : RecyclerViewActivity H Entry
  nextId : Nat

namespace Identified

def create : Identified H where
  activity := .getContentView (RecyclerViewActivity.getData.mapIdx Entry.mk)
  nextId := RecyclerViewActivity.getData.length

def erase (s : Identified H) : RecyclerViewActivity H Drawable := s.activity.map Entry.resId

/-- The first entry gets the number `id`. -/
def number (id : Nat) (a : RecyclerViewActivity H Entry) : RecyclerViewActivity H Entry :=
  { a with resIds := a.resIds.modifyHead fun entry => { entry with id } }

def after (s : Identified H) (a : RecyclerViewActivity H Entry) : Action H → Identified H
  | .select .add _ => { activity := number s.nextId a, nextId := s.nextId + 1 }
  | _ => { s with activity := a }

def step [DecidableEq H] (s : Identified H) (act : Action H) : Option (Identified H) :=
  (s.activity.step act).map fun a => s.after a act

theorem erase_create :
    (create : Identified H).erase = .getContentView RecyclerViewActivity.getData := rfl

theorem number_map (id : Nat) (a : RecyclerViewActivity H Entry) :
    (number id a).map Entry.resId = a.map Entry.resId := by
  cases hList : a.resIds with
  | nil => simp [number, RecyclerViewActivity.map, hList]
  | cons entry resIds => simp [number, RecyclerViewActivity.map, hList]

theorem erase_after (s : Identified H) (a : RecyclerViewActivity H Entry) (act : Action H) :
    (s.after a act).erase = a.map Entry.resId := by
  rcases act with ⟨_ | _ | _, random⟩ | _ | _
  · exact number_map s.nextId a
  all_goals rfl

variable [DecidableEq H]

theorem step_erase (s : Identified H) (act : Action H) :
    s.erase.step act = (s.step act).map erase := by
  rw [erase, RecyclerViewActivity.step_map, step, Option.map_map]
  congr 1
  funext a
  exact (erase_after s a act).symm

/-- The code runs with the numbers just as it runs without them. -/
theorem run_erase (acts : List (Action H)) :
    Steps.run RecyclerViewActivity.step (.getContentView RecyclerViewActivity.getData) acts =
      (Steps.run step create acts).map erase := by
  rw [← erase_create]
  exact Steps.run_map step_erase create acts

/-- Every run of the code comes from one with numbers, in which the holders have
the same positions and clicks do the same. -/
theorem exists_identified {acts : List (Action H)} {a : RecyclerViewActivity H Drawable}
    (hRun : Steps.run RecyclerViewActivity.step
      (.getContentView RecyclerViewActivity.getData) acts = some a) :
    ∃ s, Steps.run step create acts = some s ∧ a.resIds = s.activity.resIds.map Entry.resId ∧
      ∀ holder, a.click holder = s.activity.click holder ∧
        (a.recyclerView.viewHolder holder).adapterPosition =
          (s.activity.recyclerView.viewHolder holder).adapterPosition := by
  rw [run_erase, Option.map_eq_some_iff] at hRun
  obtain ⟨s, hRun, rfl⟩ := hRun
  exact ⟨s, hRun, rfl, fun _ => ⟨rfl, rfl⟩⟩

/-! ## What a step does -/

variable {s s' : Identified H} {random : Nat → Nat} {holder : H}

theorem step_add (h : s.step (.select .add random) = some s') :
    ∃ resId, s' =
      { activity :=
          { s.activity with
            resIds := { id := s.nextId, resId } :: s.activity.resIds
            recyclerView := s.activity.recyclerView.notifyItemInserted 0 }
        nextId := s.nextId + 1 } := by
  obtain ⟨a, hStep, rfl⟩ := Option.map_eq_some_iff.mp h
  obtain ⟨entry, _, rfl⟩ := RecyclerViewActivity.step_add hStep
  exact ⟨entry.resId, rfl⟩

theorem step_del (h : s.step (.select .del random) = some s') :
    ∃ entry resIds, s.activity.resIds = entry :: resIds ∧
      s' = { s with
        activity :=
          { s.activity with
            resIds
            recyclerView := s.activity.recyclerView.notifyItemRemoved 0 } } := by
  obtain ⟨a, hStep, rfl⟩ := Option.map_eq_some_iff.mp h
  obtain ⟨entry, resIds, hList, rfl⟩ := RecyclerViewActivity.step_del hStep
  exact ⟨entry, resIds, hList, rfl⟩

theorem step_resort (h : s.step (.select .resort random) = some s') :
    ∃ resIds, resIds.Perm s.activity.resIds ∧
      s' = { s with
        activity :=
          { s.activity with
            resIds
            recyclerView := s.activity.recyclerView.notifyItemRangeChanged 0 resIds.length
              (Nat.zero_add _).le (MyAdapter.onBindViewHolder resIds) } } := by
  obtain ⟨a, hStep, rfl⟩ := Option.map_eq_some_iff.mp h
  obtain ⟨resIds, hPerm, rfl⟩ := RecyclerViewActivity.step_resort hStep
  exact ⟨resIds, hPerm, rfl⟩

theorem step_bind {position : Nat} (h : s.step (.bind holder position) = some s') :
    ∃ hp : position < s.activity.resIds.length,
      s' = { s with
        activity :=
          { s.activity with
            recyclerView := s.activity.recyclerView.bind holder position
              (MyAdapter.onBindViewHolder s.activity.resIds holder ⟨position, hp⟩) } } := by
  obtain ⟨a, hStep, rfl⟩ := Option.map_eq_some_iff.mp h
  by_cases hp : position < s.activity.resIds.length
  · rw [RecyclerViewActivity.step_bind_of_lt hp] at hStep
    cases hStep
    exact ⟨hp, rfl⟩
  · rw [RecyclerViewActivity.step_bind_of_not_lt hp] at hStep
    cases hStep

theorem step_recycle (h : s.step (.recycle holder) = some s') :
    s' = { s with
      activity := { s.activity with recyclerView := s.activity.recyclerView.recycle holder } } := by
  cases h
  rfl

end Identified

end AndroidDemo.SupportLibrary
