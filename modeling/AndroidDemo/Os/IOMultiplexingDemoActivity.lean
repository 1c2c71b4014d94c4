import AndroidDemo.Socket.NativeLib
import Mathlib.Logic.Function.Basic
import Mathlib.Logic.Relation

/-! # IOMultiplexingDemoActivity.java

The two buttons that start a server, as atomic steps of the UI thread and of the
pool. The pool of `ThreadUtils` is cached and unbounded, so a task never waits
for another one. The message that a click sends later does not touch the flags.
-/

namespace AndroidDemo.Os

open AndroidDemo.Socket

/-- Where the UI thread stands: between two clicks, or in the handler of a
button, before `ThreadUtils.submit` or before the flag is set. -/
inductive Handler
  | idle
  | submit (kind : ServerKind)
  | setFlag (kind : ServerKind)
  deriving DecidableEq

/-- A task of the pool. It is over when it has cleared the flag. -/
inductive Task
  | queued
  | running
  | returned
  deriving DecidableEq

/-- `serverIsRunning` stands for the volatile fields `selectServerIsRunning` and
`epollServerIsRunning`. -/
structure IOMultiplexingDemoActivity where
  handler : Handler
  serverIsRunning : ServerKind → Bool
  tasks : ServerKind → List Task

/-- The atomic steps. A task is named by its place among those of its kind. -/
inductive Action
  | click (kind : ServerKind)
  | submit
  | setFlag
  | start (kind : ServerKind) (i : Nat)
  | nativeReturns (kind : ServerKind) (i : Nat)
  | clearFlag (kind : ServerKind) (i : Nat)
  deriving DecidableEq

def startSelectServer : Action := .click .select

def startEpollServer : Action := .click .epoll

namespace IOMultiplexingDemoActivity

def created : IOMultiplexingDemoActivity where
  handler := .idle
  serverIsRunning _ := false
  tasks _ := []

def setRunning (a : IOMultiplexingDemoActivity) (kind : ServerKind) (value : Bool) :
    IOMultiplexingDemoActivity :=
  { a with serverIsRunning := Function.update a.serverIsRunning kind value }

def setTasks (a : IOMultiplexingDemoActivity) (kind : ServerKind) (tasks : List Task) :
    IOMultiplexingDemoActivity :=
  { a with tasks := Function.update a.tasks kind tasks }

/-- `none` where the step cannot be taken. -/
def step (a : IOMultiplexingDemoActivity) : Action → Option IOMultiplexingDemoActivity
  | .click kind =>
    if a.handler = .idle then
      if a.serverIsRunning kind then some a else some { a with handler := .submit kind }
    else none
  | .submit =>
    match a.handler with
    | .submit kind => some { a.setTasks kind (a.tasks kind ++ [.queued]) with handler := .setFlag kind }
    | _ => none
  | .setFlag =>
    match a.handler with
    | .setFlag kind => some { a.setRunning kind true with handler := .idle }
    | _ => none
  | .start kind i =>
    if (a.tasks kind)[i]? = some .queued then
      some (a.setTasks kind ((a.tasks kind).set i .running))
    else none
  | .nativeReturns kind i =>
    if (a.tasks kind)[i]? = some .running then
      some (a.setTasks kind ((a.tasks kind).set i .returned))
    else none
  | .clearFlag kind i =>
    if (a.tasks kind)[i]? = some .returned then
      some ((a.setRunning kind false).setTasks kind ((a.tasks kind).eraseIdx i))
    else none

/-- Runs of any length all of whose steps satisfy `ok`. -/
def Reaches (ok : IOMultiplexingDemoActivity → Action → Prop) :
    IOMultiplexingDemoActivity → IOMultiplexingDemoActivity → Prop :=
  Relation.ReflTransGen fun a a' => ∃ act, ok a act ∧ a.step act = some a'

end IOMultiplexingDemoActivity

/-! ## One button and its tasks -/

inductive Phase
  | away
  | submit
  | setFlag
  deriving DecidableEq

structure View where
  phase : Phase
  flag : Bool
  tasks : Nat

/-- The steps of one button. `early` tells in which phases a task may end. -/
inductive View.Step (early : Phase → Prop) : View → View → Prop
  | stay (v : View) : Step early v v
  | click (n : Nat) : Step early ⟨.away, false, n⟩ ⟨.submit, false, n⟩
  | submit (flag : Bool) (n : Nat) : Step early ⟨.submit, flag, n⟩ ⟨.setFlag, flag, n + 1⟩
  | setFlag (flag : Bool) (n : Nat) : Step early ⟨.setFlag, flag, n⟩ ⟨.away, true, n⟩
  | clearFlag (phase : Phase) (flag : Bool) (n : Nat) (h : early phase) :
    Step early ⟨phase, flag, n + 1⟩ ⟨phase, false, n⟩

/-- There is one task at most, none while the handler is about to submit, and
otherwise a task shows in the flag. -/
structure View.Single (v : View) : Prop where
  le_one : v.tasks ≤ 1
  submit : v.phase = .submit → v.tasks = 0
  away : v.phase = .away → v.tasks = 1 → v.flag = true

theorem View.Step.single {early : Phase → Prop} {v v' : View} (h : View.Step early v v')
    (hv : v.Single) : v'.Single := by
  cases h with
  | stay => exact hv
  | click n =>
    have hNone : n ≠ 1 := fun hn => Bool.false_ne_true (hv.away rfl hn)
    have hLe := hv.le_one
    exact ⟨hLe, fun _ => by dsimp only at hLe ⊢; omega, fun hPhase => by cases hPhase⟩
  | submit flag n =>
    have hZero : n = 0 := hv.submit rfl
    subst hZero
    exact ⟨le_rfl, fun hPhase => (by cases hPhase), fun hPhase => (by cases hPhase)⟩
  | setFlag flag n => exact ⟨hv.le_one, fun hPhase => (by cases hPhase), fun _ _ => rfl⟩
  | clearFlag phase flag n _ =>
    have hLe := hv.le_one
    dsimp only at hLe
    refine ⟨by dsimp only; omega, fun hPhase => ?_, fun _ hOne => ?_⟩
    · have hZero := hv.submit hPhase
      dsimp only at hZero
      omega
    · dsimp only at hOne
      omega

/-- Away from the handler the flag is up just when there is a task, and in the
handler it is down. -/
structure View.Tracks (v : View) : Prop where
  single : v.Single
  setFlag : v.phase = .setFlag → v.tasks = 1
  away : v.phase = .away → (v.flag = true ↔ v.tasks = 1)

theorem View.Step.tracks {v v' : View} (h : View.Step (· ≠ .setFlag) v v') (hv : v.Tracks) :
    v'.Tracks := by
  have hSingle := h.single hv.single
  cases h with
  | stay => exact hv
  | click n => exact ⟨hSingle, fun hPhase => (by cases hPhase), fun hPhase => by cases hPhase⟩
  | submit flag n =>
    have hZero : n = 0 := hv.single.submit rfl
    subst hZero
    exact ⟨hSingle, fun _ => rfl, fun hPhase => by cases hPhase⟩
  | setFlag flag n =>
    have hOne : n = 1 := hv.setFlag rfl
    exact ⟨hSingle, fun hPhase => (by cases hPhase), fun _ => iff_of_true rfl hOne⟩
  | clearFlag phase flag n hEarly =>
    refine ⟨hSingle, fun hPhase => (hEarly hPhase).elim, fun _ => iff_of_false Bool.false_ne_true ?_⟩
    have hLe := hv.single.le_one
    dsimp only at hLe ⊢
    omega

namespace IOMultiplexingDemoActivity

def view (a : IOMultiplexingDemoActivity) (kind : ServerKind) : View where
  phase := if a.handler = .submit kind then .submit else if a.handler = .setFlag kind then .setFlag
    else .away
  flag := a.serverIsRunning kind
  tasks := (a.tasks kind).length

theorem view_of_ne {a a' : IOMultiplexingDemoActivity} {kind : ServerKind}
    (hHandler : a'.handler = a.handler) (hRunning : a'.serverIsRunning kind = a.serverIsRunning kind)
    (hTasks : (a'.tasks kind).length = (a.tasks kind).length) : a'.view kind = a.view kind := by
  rw [view, view, hHandler, hRunning, hTasks]

theorem step_view (early : Phase → Prop) {a a' : IOMultiplexingDemoActivity} {act : Action}
    {kind : ServerKind} (h : a.step act = some a')
    (hEarly : ∀ i, act = .clearFlag kind i → early (a.view kind).phase) :
    View.Step early (a.view kind) (a'.view kind) := by
  have hStay (hView : a'.view kind = a.view kind) :
      View.Step early (a.view kind) (a'.view kind) := hView ▸ .stay _
  cases act with
  | click k =>
    simp only [step, Option.ite_none_right_eq_some] at h
    obtain ⟨hIdle, h⟩ := h
    split at h
    · cases h
      exact .stay _
    · rename_i hFlag
      cases h
      by_cases hk : k = kind
      · subst hk
        have hBefore : a.view k = ⟨.away, false, (a.tasks k).length⟩ := by
          simp [view, hIdle, Bool.eq_false_iff.mpr hFlag]
        have hAfter : view { a with handler := .submit k } k =
            ⟨.submit, false, (a.tasks k).length⟩ := by
          simp [view, Bool.eq_false_iff.mpr hFlag]
        rw [hBefore, hAfter]
        exact .click _
      · exact hStay (by simp [view, hIdle, hk])
  | submit =>
    simp only [step] at h
    split at h
    · rename_i k hSubmit
      cases h
      by_cases hk : k = kind
      · subst hk
        have hBefore : a.view k = ⟨.submit, a.serverIsRunning k, (a.tasks k).length⟩ := by
          simp [view, hSubmit]
        have hAfter : view { a.setTasks k (a.tasks k ++ [.queued]) with handler := .setFlag k } k =
            ⟨.setFlag, a.serverIsRunning k, (a.tasks k).length + 1⟩ := by
          simp [view, setTasks]
        rw [hBefore, hAfter]
        exact .submit _ _
      · exact hStay (by simp [view, setTasks, hSubmit, hk, Ne.symm hk])
    · cases h
  | setFlag =>
    simp only [step] at h
    split at h
    · rename_i k hSetFlag
      cases h
      by_cases hk : k = kind
      · subst hk
        have hBefore : a.view k = ⟨.setFlag, a.serverIsRunning k, (a.tasks k).length⟩ := by
          simp [view, hSetFlag]
        have hAfter : view { a.setRunning k true with handler := .idle } k =
            ⟨.away, true, (a.tasks k).length⟩ := by
          simp [view, setRunning]
        rw [hBefore, hAfter]
        exact .setFlag _ _
      · exact hStay (by simp [view, setRunning, hSetFlag, hk, Ne.symm hk])
    · cases h
  | start k i | nativeReturns k i =>
    simp only [step, Option.ite_none_right_eq_some, Option.some.injEq] at h
    obtain ⟨_, rfl⟩ := h
    refine hStay (view_of_ne rfl rfl ?_)
    by_cases hk : k = kind
    · subst hk
      simp [setTasks]
    · simp [setTasks, Ne.symm hk]
  | clearFlag k i =>
    simp only [step, Option.ite_none_right_eq_some, Option.some.injEq] at h
    obtain ⟨hTask, rfl⟩ := h
    by_cases hk : k = kind
    · subst hk
      have hLt : i < (a.tasks k).length := (List.getElem?_eq_some_iff.mp hTask).1
      obtain ⟨n, hn⟩ : ∃ n, (a.tasks k).length = n + 1 := ⟨(a.tasks k).length - 1, by omega⟩
      have hBefore : a.view k = ⟨(a.view k).phase, a.serverIsRunning k, n + 1⟩ := by
        simp [view, hn]
      have hLength : ((a.tasks k).eraseIdx i).length = n := by
        rw [List.length_eraseIdx_of_lt hLt, hn, Nat.add_sub_cancel]
      have hAfter : view ((a.setRunning k false).setTasks k ((a.tasks k).eraseIdx i)) k =
          ⟨(a.view k).phase, false, n⟩ := by
        rw [view]
        simp only [setTasks, setRunning, Function.update_self, hLength]
        rfl
      rw [hBefore, hAfter]
      exact .clearFlag (a.view k).phase _ _ (hEarly i rfl)
    · exact hStay (view_of_ne rfl (by simp [setRunning, setTasks, Ne.symm hk])
        (by simp [setTasks, setRunning, Ne.symm hk]))

/-! ## Runs of the activity -/

/-- A task does not end between the `submit` of its button and the write that follows. -/
def Orderly (a : IOMultiplexingDemoActivity) : Action → Prop
  | .clearFlag kind _ => a.handler ≠ .setFlag kind
  | _ => True

/-- A click on the button, handled up to `submit`, queues a server task. -/
def ClickStarts (a : IOMultiplexingDemoActivity) (kind : ServerKind) : Prop :=
  ∃ a', ((a.step (.click kind)).bind fun a => a.step .submit) = some a' ∧ .queued ∈ a'.tasks kind

/-- At most one task of a kind at a time, and a flag that is down whenever no
click is handled and there is no task, so that the next click starts a server. -/
def FlagTracksServer (a : IOMultiplexingDemoActivity) : Prop :=
  ∀ kind, (a.tasks kind).length ≤ 1 ∧
    (a.handler = .idle → a.tasks kind = [] → a.serverIsRunning kind = false ∧ a.ClickStarts kind)

theorem clickStarts {a : IOMultiplexingDemoActivity} {kind : ServerKind} (hIdle : a.handler = .idle)
    (hFlag : a.serverIsRunning kind = false) : a.ClickStarts kind := by
  refine ⟨{ a.setTasks kind (a.tasks kind ++ [.queued]) with handler := .setFlag kind }, ?_, ?_⟩
  · simp only [step, hIdle, hFlag, if_true, Bool.false_eq_true, if_false, Option.bind_some]
    rfl
  · simp [setTasks]

theorem single_task {a : IOMultiplexingDemoActivity} (h : Reaches (fun _ _ => True) created a)
    (kind : ServerKind) : (a.view kind).Single := by
  induction h with
  | refl => exact ⟨Nat.zero_le _, fun _ => rfl, fun _ hOne => by cases hOne⟩
  | tail _ hStep ih =>
    obtain ⟨act, _, hStep⟩ := hStep
    exact (step_view (fun _ => True) hStep fun _ _ => trivial).single ih

theorem tracks {a : IOMultiplexingDemoActivity} (h : Reaches Orderly created a)
    (kind : ServerKind) : (a.view kind).Tracks := by
  induction h with
  | refl =>
    exact ⟨⟨Nat.zero_le _, fun _ => rfl, fun _ hOne => by cases hOne⟩, fun hPhase => (by cases hPhase),
      fun _ => iff_of_false Bool.false_ne_true (by simp [view, created])⟩
  | @tail a a' _ hStep ih =>
    obtain ⟨act, hOrderly, hStep⟩ := hStep
    refine (step_view (· ≠ .setFlag) hStep ?_).tracks ih
    rintro i rfl
    have hHandler : a.handler ≠ .setFlag kind := hOrderly
    simp only [view, hHandler, if_false]
    split <;> exact Phase.noConfusion

/-- For every number of clicks and every interleaving in which no task ends
between the `submit` of its button and the write of the flag. -/
theorem flag_tracks_server {a : IOMultiplexingDemoActivity} (h : Reaches Orderly created a) :
    FlagTracksServer a := by
  intro kind
  have hTracks := tracks h kind
  refine ⟨hTracks.single.le_one, fun hIdle hNone => ?_⟩
  have hAway : (a.view kind).phase = .away := by simp [view, hIdle]
  have hFlag := hTracks.away hAway
  have hDown : a.serverIsRunning kind = false := by
    rw [Bool.eq_false_iff]
    intro hTrue
    have hOne : (a.tasks kind).length = 1 := hFlag.mp hTrue
    simp [hNone] at hOne
  exact ⟨hDown, clickStarts hIdle hDown⟩

def runAll (ok : IOMultiplexingDemoActivity → Action → Prop) [∀ a act, Decidable (ok a act)] :
    IOMultiplexingDemoActivity → List Action → Option IOMultiplexingDemoActivity
  | a, [] => some a
  | a, act :: acts => if ok a act then (a.step act).bind fun a' => runAll ok a' acts else none

theorem reaches_of_runAll {ok : IOMultiplexingDemoActivity → Action → Prop}
    [∀ a act, Decidable (ok a act)] {acts : List Action} {a a' : IOMultiplexingDemoActivity}
    (h : runAll ok a acts = some a') : Reaches ok a a' := by
  induction acts generalizing a with
  | nil =>
    cases h
    exact .refl
  | cons act acts ih =>
    simp only [runAll, Option.ite_none_right_eq_some, Option.bind_eq_some_iff] at h
    obtain ⟨hOk, a₁, hStep, h⟩ := h
    exact .head ⟨act, hOk, hStep⟩ (ih h)

instance (a : IOMultiplexingDemoActivity) (act : Action) : Decidable (Orderly a act) := by
  unfold Orderly
  split <;> infer_instance

theorem exists_reaches (ok : IOMultiplexingDemoActivity → Action → Prop)
    [∀ a act, Decidable (ok a act)] (acts : List Action) (p : IOMultiplexingDemoActivity → Bool)
    (h : (runAll ok created acts).any p = true) : ∃ a, Reaches ok created a ∧ p a = true := by
  obtain ⟨a, hRun, hState⟩ := (Option.any_eq_true _ _).mp h
  exact ⟨a, reaches_of_runAll hRun, hState⟩

theorem flag_tracks_server_restart :
    ∃ a, Reaches Orderly created a ∧ a.tasks .select = [.queued] ∧ FlagTracksServer a := by
  obtain ⟨a, hReaches, hState⟩ := exists_reaches Orderly
    [startSelectServer, .submit, .start .select 0, .setFlag, startSelectServer,
      .nativeReturns .select 0, .clearFlag .select 0, startSelectServer, .submit]
    (fun a => a.tasks .select = [.queued]) (by decide)
  exact ⟨a, hReaches, of_decide_eq_true hState, flag_tracks_server hReaches⟩

/-- The epoll server fails at once: its task clears the flag before the click
sets it, and no later click starts a server. -/
theorem flag_stuck :
    ¬ ∀ a, Reaches (fun _ _ => True) created a → FlagTracksServer a := by
  intro hAll
  obtain ⟨a, hReaches, hState⟩ := exists_reaches (fun _ _ => True)
    [startEpollServer, .submit, .start .epoll 0, .nativeReturns .epoll 0, .clearFlag .epoll 0,
      .setFlag]
    (fun a => a.handler = .idle ∧ a.tasks .epoll = [] ∧ a.serverIsRunning .epoll = true)
    (by decide)
  obtain ⟨hIdle, hNone, hFlag⟩ := of_decide_eq_true hState
  have hDown := ((hAll a hReaches .epoll).2 hIdle hNone).1
  exact Bool.false_ne_true (hDown.symm.trans hFlag)

end IOMultiplexingDemoActivity

end AndroidDemo.Os
