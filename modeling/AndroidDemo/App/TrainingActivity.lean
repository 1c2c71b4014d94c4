import AndroidDemo.Interaction.Steps

/-! # TrainingActivity.java

The list of trainings and the details of one of them: beside the list in the
layout for large screens, in front of it on a phone. Transitions, layouts and
the views of the list do not touch the title or the back stack.
-/

namespace AndroidDemo.App

open Interaction

/-- `R.array.training_title`. -/
def training_title : List String :=
  ["Getting Started", "Building Your First App", "Supporting Different Devices",
    "Managing the Activity Lifecycle", "Building a Dynamic UI with Fragments", "Saving Data",
    "Interacting with Other Apps"]

/-- `arguments` holds the extra `position`, `tv` the text that is shown; `none`
stands for `null`. -/
structure TrainingDetailFragment where
  arguments : Option Nat
  data : Option (List String)
  tv : Option String
  deriving DecidableEq

namespace TrainingDetailFragment

def newInstance (position : Nat) : TrainingDetailFragment where
  arguments := some position
  data := none
  tv := none

def setDataPosition (fragment : TrainingDetailFragment) (position : Nat) : TrainingDetailFragment :=
  match fragment.data.bind (·[position]?) with
  | some text => { fragment with tv := fragment.tv.map fun _ => text }
  | none => fragment

end TrainingDetailFragment

/-- The activity with its title and the entries of its back stack, the top first. -/
structure TrainingActivity where
  large : Bool
  fragment : Option TrainingDetailFragment
  originTitle : String
  title : String
  backStack : List TrainingDetailFragment
  finished : Bool
  deriving DecidableEq

inductive Action
  | itemClick (position : Nat)
  | back
  deriving DecidableEq

namespace TrainingActivity

/-- `fragment` is what `findFragmentByTag("detail")` finds in the layout. -/
def onCreate (title : String) (fragment : Option TrainingDetailFragment) : TrainingActivity where
  large := fragment.isSome
  fragment := fragment
  originTitle := title
  title := title
  backStack := []
  finished := false

def setTitle (a : TrainingActivity) (title : String) : TrainingActivity := { a with title := title }

def OnItemClick (a : TrainingActivity) (position : Nat) (title : String) : TrainingActivity :=
  if a.large then
    { a with fragment := a.fragment.map fun fragment => fragment.setDataPosition position }
  else
    { a with backStack := .newInstance position :: a.backStack }.setTitle title

/-- `super.onBackPressed`. -/
def popBackStack (a : TrainingActivity) : TrainingActivity :=
  match a.backStack with
  | [] => { a with finished := true }
  | _ :: rest => { a with backStack := rest }

def onBackPressed (a : TrainingActivity) : TrainingActivity :=
  let a := a.popBackStack
  if a.backStack.length = 0 then a.setTitle a.originTitle else a

end TrainingActivity

/-- `onItemClick` of the list, which shows the titles `data`. -/
def TrainingListFragment.onItemClick (data : List String) (a : TrainingActivity) (position : Nat) :
    Option TrainingActivity :=
  data[position]?.map (a.OnItemClick position)

namespace TrainingActivity

def step (data : List String) (a : TrainingActivity) : Action → Option TrainingActivity
  | .itemClick position =>
    if a.finished then none else TrainingListFragment.onItemClick data a position
  | .back => if a.finished then none else some a.onBackPressed

/-! ## The title and the back stack -/

def itemTitle (data : List String) (fragment : TrainingDetailFragment) : Option String :=
  fragment.arguments.bind (data[·]?)

def TitleFollows (data : List String) (a : TrainingActivity) : Prop :=
  match a.backStack with
  | [] => a.title = a.originTitle
  | top :: _ => itemTitle data top = some a.title

/-- A back press that leaves an entry uncovers one of the same title. -/
def KeepsTitle (data : List String) (a : TrainingActivity) : Action → Prop
  | .itemClick _ => True
  | .back => ∀ top below rest, a.backStack = top :: below :: rest →
      itemTitle data below = itemTitle data top

variable {data : List String} {a a' : TrainingActivity}

theorem onBackPressed_nil (h : a.backStack = []) :
    a.onBackPressed = { a with title := a.originTitle, finished := true } := by
  simp [onBackPressed, popBackStack, setTitle, h]

theorem onBackPressed_singleton {top : TrainingDetailFragment} (h : a.backStack = [top]) :
    a.onBackPressed = { a with title := a.originTitle, backStack := [] } := by
  simp [onBackPressed, popBackStack, setTitle, h]

theorem onBackPressed_cons {top below : TrainingDetailFragment} {rest : List TrainingDetailFragment}
    (h : a.backStack = top :: below :: rest) :
    a.onBackPressed = { a with backStack := below :: rest } := by
  simp [onBackPressed, popBackStack, h]

/-- What a step can do in the phone layout. -/
theorem step_cases {act : Action} (hLarge : a.large = false) (h : step data a act = some a') :
    a.finished = false ∧
    ((∃ position title, act = .itemClick position ∧ data[position]? = some title ∧
        a' = { a with backStack := .newInstance position :: a.backStack, title := title }) ∨
      act = .back ∧ a' = a.onBackPressed) := by
  cases act with
  | itemClick position =>
    simp only [step, TrainingListFragment.onItemClick, Option.ite_none_left_eq_some,
      Option.map_eq_some_iff, Bool.not_eq_true] at h
    obtain ⟨hRunning, title, hTitle, rfl⟩ := h
    exact ⟨hRunning, .inl ⟨position, title, rfl, hTitle, by simp [OnItemClick, hLarge, setTitle]⟩⟩
  | back =>
    simp only [step, Option.ite_none_left_eq_some, Option.some.injEq, Bool.not_eq_true] at h
    exact ⟨h.1, .inr ⟨rfl, h.2.symm⟩⟩

theorem onBackPressed_large : a.onBackPressed.large = a.large := by
  rcases hStack : a.backStack with _ | ⟨top, _ | ⟨below, rest⟩⟩
  · rw [onBackPressed_nil hStack]
  · rw [onBackPressed_singleton hStack]
  · rw [onBackPressed_cons hStack]

theorem large_of_run {title : String} {acts : List Action}
    (hRun : Steps.run (step data) (onCreate title none) acts = some a) : a.large = false := by
  refine Steps.invariant (I := fun _ a => a.large = false) rfl ?_ hRun
  intro _ a act a' hLarge hStep
  obtain ⟨_, ⟨position, title, rfl, _, rfl⟩ | ⟨rfl, rfl⟩⟩ := step_cases hLarge hStep
  · exact hLarge
  · rw [onBackPressed_large, hLarge]

theorem step_follows_iff {act : Action} (hLarge : a.large = false) (hFollows : a.TitleFollows data)
    (hStep : step data a act = some a') : a'.TitleFollows data ↔ a.KeepsTitle data act := by
  obtain ⟨_, ⟨position, title, rfl, hTitle, rfl⟩ | ⟨rfl, rfl⟩⟩ := step_cases hLarge hStep
  · exact iff_of_true hTitle trivial
  · rcases hStack : a.backStack with _ | ⟨top, _ | ⟨below, rest⟩⟩
    · rw [onBackPressed_nil hStack]
      simp [TitleFollows, KeepsTitle, hStack]
    · rw [onBackPressed_singleton hStack]
      simp [TitleFollows, KeepsTitle, hStack]
    · rw [onBackPressed_cons hStack]
      have hTop : itemTitle data top = some a.title := by simpa [TitleFollows, hStack] using hFollows
      simp [TitleFollows, KeepsTitle, hStack, hTop]

theorem follows_of_finished {act : Action} (hLarge : a.large = false)
    (hStep : step data a act = some a') (hFinished : a'.finished = true) :
    a'.TitleFollows data := by
  obtain ⟨hRunning, ⟨position, title, rfl, hTitle, rfl⟩ | ⟨rfl, rfl⟩⟩ := step_cases hLarge hStep
  · exact hTitle
  · rcases hStack : a.backStack with _ | ⟨top, _ | ⟨below, rest⟩⟩
    · simp [onBackPressed_nil hStack, TitleFollows, hStack]
    · simp [onBackPressed_singleton hStack, TitleFollows]
    · rw [onBackPressed_cons hStack] at hFinished
      exact absurd hFinished (by simp [hRunning])

/-- In the phone layout: the title follows the back stack all along a sequence
of clicks and back presses just when every back press of it that uncovers an
entry uncovers one of the same title. -/
theorem title_follows_iff (data : List String) (title : String) (acts : List Action) :
    (∀ pre (a : TrainingActivity), pre <+: acts →
      Steps.run (step data) (onCreate title none) pre = some a → a.finished = false →
      a.TitleFollows data) ↔
    ∀ pre act (a a' : TrainingActivity), pre ++ [act] <+: acts →
      Steps.run (step data) (onCreate title none) pre = some a → step data a act = some a' →
      a.KeepsTitle data act := by
  have hInit : (onCreate title none).finished = false → (onCreate title none).TitleFollows data :=
    fun _ => rfl
  refine Steps.forall_prefix_iff
    (I := fun a : TrainingActivity => a.finished = false → a.TitleFollows data) hInit ?_ acts
  intro pre a act a' hRun hFollows hStep
  have hLarge := large_of_run hRun
  rw [← step_follows_iff hLarge (hFollows (step_cases hLarge hStep).1) hStep]
  cases hFinished : a'.finished with
  | false => exact forall_prop_of_true rfl
  | true =>
    have hFollows' := follows_of_finished hLarge hStep hFinished
    exact iff_of_true (fun hRunning => by cases hRunning) hFollows'

/-- Two details are opened and the second one is closed again. -/
theorem not_title_follows :
    ¬ ∀ (title : String) (acts : List Action) (a : TrainingActivity),
      Steps.run (step training_title) (onCreate title none) acts = some a → a.finished = false →
      a.TitleFollows training_title := by
  intro hAll
  have hRun : Steps.run (step training_title) (onCreate "App/Fragment" none)
      [.itemClick 0, .itemClick 1, .back] = some
        { onCreate "App/Fragment" none with
          title := "Building Your First App"
          backStack := [.newInstance 0] } := by decide
  have hFollows := hAll _ _ _ hRun rfl
  revert hFollows
  simp [TitleFollows, itemTitle, TrainingDetailFragment.newInstance, training_title]

end TrainingActivity

end AndroidDemo.App
