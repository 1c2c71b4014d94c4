import AndroidDemo.Interaction.History
import AndroidDemo.Interaction.Replay
import AndroidDemo.Java.JString
import AndroidDemo.Socket.Kernel

/-! # MaxFileDescriptorActivity.java

`GetFileDescriptorTask` opens files until the process gets no further descriptor.
The messages to the main thread and the text view are left out, the trace of the
exception has no effect.
-/

namespace AndroidDemo.Os.MaxFileDescriptorActivity

open AndroidDemo.Java Interaction Program
open AndroidDemo.Socket (Fd)

/-- `new FileOutputStream` answers with the descriptor of the stream or throws
`FileNotFoundException`, and `close` may throw `IOException`. -/
inductive FileCall
  | newFileOutputStream (name : JString)
  | close (fos : Fd)
  | publishProgress (value : Int32)
  deriving DecidableEq

@[reducible] def Reply : FileCall → Type
  | .newFileOutputStream _ => Except Unit Fd
  | .close _ => Except Unit Unit
  | .publishProgress _ => Unit

/-- The head of the loop shows `i`. -/
abbrev Task := Program FileCall Reply Int32

abbrev java (c : FileCall) : Task (Reply c) := perform c

/-- The digits of an `int` in a string. -/
def valueOf (i : Int32) : JString := (toString i.toInt).toList.map fun c => UInt16.ofNat c.toNat

def fileName (filesDir : JString) (i : Int32) : JString := filesDir ++ [47] ++ valueOf i

section Task

variable (closeIOQuietly : List Fd → Task Unit) (filesDir : JString)

def turn : List Fd × Int32 → Task (List Fd × Int32 ⊕ Int32)
  | (fileDescriptorHolder, i) => do
    match ← java (.newFileOutputStream (fileName filesDir i)) with
    | .ok fos =>
      java (.publishProgress (i + 1))
      return .inl (fileDescriptorHolder ++ [fos], i + 1)
    | .error _ =>
      closeIOQuietly fileDescriptorHolder
      return .inr i

def doInBackground : Task Int32 := loop Prod.snd (turn closeIOQuietly filesDir) ([], 0)

end Task

/-! ## The process -/

inductive Owner
  | task
  | foreign
  deriving DecidableEq

/-- The descriptors of the process, which are smaller than its limit. -/
structure Process where
  table : Fd → Option Owner
  limit : Nat

namespace Process

def install (p : Process) (fd : Fd) (o : Owner) : Process :=
  { p with table := Function.update p.table fd (some o) }

def release (p : Process) (fd : Fd) : Process :=
  { p with table := Function.update p.table fd none }

/-- A stream that does not close has lost its descriptor as well. -/
def answer (p : Process) : (c : FileCall) → Reply c → Option Process
  | .newFileOutputStream _, .ok fos =>
    if p.table fos = none ∧ fos < p.limit then some (p.install fos .task) else none
  | .newFileOutputStream _, .error _ => some p
  | .close fos, .ok _ => if p.table fos = none then none else some (p.release fos)
  | .close fos, .error _ => some (p.release fos)
  | .publishProgress _, _ => some p

/-- What the other threads of the process do. -/
inductive Move
  | openFd (fd : Fd)
  | closeFd (fd : Fd)

def interfere (p : Process) : Move → Option Process
  | .openFd fd =>
    if p.table fd = none ∧ fd < p.limit then some (p.install fd .foreign) else none
  | .closeFd fd => if p.table fd = some .foreign then some (p.release fd) else none

def environment (threads : Bool) (admits : Process → (c : FileCall) → Reply c → Prop) :
    Environment FileCall Reply Process Move where
  answer := answer
  admits := admits
  interfere p m := if threads then p.interfere m else none

instance (threads : Bool) (admits : Process → (c : FileCall) → Reply c → Prop)
    [∀ p c r, Decidable (admits p c r)] (p : Process) (c : FileCall) (r : Reply c) :
    Decidable ((environment threads admits).admits p c r) :=
  inferInstanceAs (Decidable (admits p c r))

end Process

abbrev FileEvent := Event FileCall Reply Process

/-- Every stream is closed in its turn, whether the ones before it threw or not. -/
structure Quietly (closeIOQuietly : List Fd → Task Unit) : Prop where
  ends : ∀ {W A : Type} (E : Environment FileCall Reply W A) (streams : List Fd) (w : W),
    Total E (fun x _ => ∀ u, x ≠ .undefined u) (fun _ _ => True) (closeIOQuietly streams) w
  closes : ∀ {W A : Type} {E : Environment FileCall Reply W A} {streams : List Fd} {w w' : W}
    {t : List (Event FileCall Reply W)}, Run E (closeIOQuietly streams) w t (.ret ()) w' →
      t.map Event.call = streams.map .close

def closeEach : List Fd → Task Unit
  | [] => .ret ()
  | fos :: streams => .call (.close fos) fun _ => closeEach streams

theorem quietly_closeEach : Quietly closeEach where
  ends E streams := by
    induction streams with
    | nil => exact fun w => .ret trivial
    | cons fos streams ih =>
      exact fun w => .call (fun _ _ u hUndefined => nomatch hUndefined) fun _ _ w₂ _ _ _ => ih w₂
  closes {W A E streams w w' t} h := by
    induction streams generalizing w t with
    | nil =>
      obtain ⟨rfl, -, -⟩ := h.ret_inv
      rfl
    | cons fos streams ih =>
      obtain ⟨w₁, r, w₂, t, rfl, -, h⟩ := h.call_ret
      rw [List.map_cons, List.map_cons, ih h]

/-! ## The streams that are open -/

def openedBy : FileEvent → Option Fd
  | ⟨_, .newFileOutputStream _, .ok fos, _⟩ => some fos
  | _ => none

/-- The calls of `n` turns that have opened a file. -/
def callsOfTurns (filesDir : JString) (n : Nat) : List FileCall :=
  (List.range n).flatMap fun k =>
    [.newFileOutputStream (fileName filesDir (Int32.ofNat k)),
      .publishProgress (Int32.ofNat (k + 1))]

/-- The task holds what it has opened, and all of that is open. -/
structure Holding (filesDir : JString) (limit : Nat) (s : List Fd × Int32)
    (w : Process × List FileEvent) : Prop where
  nodup : s.1.Nodup
  count : s.2 = Int32.ofNat s.1.length
  limited : w.1.limit = limit
  table : ∀ fd, w.1.table fd = some .task ↔ fd ∈ s.1
  below : ∀ fd ∈ s.1, fd < limit
  calls : w.2.map Event.call = callsOfTurns filesDir s.1.length
  opened : w.2.filterMap openedBy = s.1

variable {threads : Bool} {admits : Process → (c : FileCall) → Reply c → Prop}
  {filesDir : JString} {limit : Nat} {p p' : Process} {hist : List FileEvent}

/-- The others neither open nor close anything for the task. -/
theorem interferes_task (h : (Process.environment threads admits).Interferes p p') :
    p'.limit = p.limit ∧ ∀ fd, p'.table fd = some .task ↔ p.table fd = some .task := by
  refine h.preserves (I := fun q => q.limit = p.limit ∧
    ∀ fd, q.table fd = some .task ↔ p.table fd = some .task) ?_ ⟨rfl, fun _ => Iff.rfl⟩
  rintro q m q' ⟨hLimit, hTable⟩ hMove
  cases threads with
  | false => cases hMove
  | true =>
    cases m with
    | openFd fd =>
      simp only [Process.environment, Process.interfere, if_true,
        Option.ite_none_right_eq_some, Option.some.injEq] at hMove
      obtain ⟨⟨hFree, -⟩, rfl⟩ := hMove
      refine ⟨hLimit, fun other => ?_⟩
      rw [← hTable other]
      rcases eq_or_ne other fd with rfl | hne
      · simp [Process.install, hFree]
      · simp [Process.install, hne]
    | closeFd fd =>
      simp only [Process.environment, Process.interfere, if_true,
        Option.ite_none_right_eq_some, Option.some.injEq] at hMove
      obtain ⟨hForeign, rfl⟩ := hMove
      refine ⟨hLimit, fun other => ?_⟩
      rw [← hTable other]
      rcases eq_or_ne other fd with rfl | hne
      · simp [Process.release, hForeign]
      · simp [Process.release, hne]

theorem Holding.interferes {s : List Fd × Int32} (h : Holding filesDir limit s (p, hist))
    (hMoves : (Process.environment threads admits).Interferes p p') :
    Holding filesDir limit s (p', hist) where
  nodup := h.nodup
  count := h.count
  limited := (interferes_task hMoves).1.trans h.limited
  table fd := ((interferes_task hMoves).2 fd).trans (h.table fd)
  below := h.below
  calls := h.calls
  opened := h.opened

theorem Holding.length_le {s : List Fd × Int32} {w : Process × List FileEvent}
    (h : Holding filesDir limit s w) : s.1.length ≤ limit := by
  have hSub : s.1 ⊆ List.range limit := fun fd hfd => List.mem_range.mpr (h.below fd hfd)
  have hLength := (h.nodup.subperm hSub).length_le
  rwa [List.length_range] at hLength

theorem callsOfTurns_succ (n : Nat) :
    callsOfTurns filesDir (n + 1) = callsOfTurns filesDir n ++
      [.newFileOutputStream (fileName filesDir (Int32.ofNat n)),
        .publishProgress (Int32.ofNat (n + 1))] := by
  rw [callsOfTurns, List.range_succ, List.flatMap_append, List.flatMap_singleton, ← callsOfTurns]

/-- A file more. Its descriptor was free, and so it is none of those held. -/
theorem Holding.opens {s : List Fd × Int32} (h : Holding filesDir limit s (p, hist)) {fos : Fd}
    (hFree : p.table fos = none) (hBelow : fos < p.limit) {p₂ : Process}
    (hInstalled : p₂ = p.install fos .task) (p₃ p₄ : Process) :
    Holding filesDir limit (s.1 ++ [fos], s.2 + 1)
      (p₂, hist ++ [⟨p, .newFileOutputStream (fileName filesDir s.2), .ok fos, p₂⟩] ++
        [⟨p₃, .publishProgress (s.2 + 1), (), p₄⟩]) where
  nodup := by
    refine List.nodup_append.mpr ⟨h.nodup, List.nodup_singleton fos, ?_⟩
    rintro fd hfd other hOther rfl
    rw [List.mem_singleton.mp hOther] at hfd
    have hHeld : p.table fos = some .task := (h.table fos).mpr hfd
    rw [hFree] at hHeld
    cases hHeld
  count := by
    rw [h.count, List.length_append, List.length_singleton, Int32.ofNat_add]
    rfl
  limited := by
    rw [hInstalled]
    exact h.limited
  table fd := by
    rw [hInstalled, List.mem_append, List.mem_singleton, ← h.table fd]
    rcases eq_or_ne fd fos with rfl | hne
    · simp [Process.install]
    · simp [Process.install, hne]
  below fd hfd := by
    rcases List.mem_append.mp hfd with hOld | hNew
    · exact h.below fd hOld
    · rw [List.mem_singleton.mp hNew, ← h.limited]
      exact hBelow
  calls := by
    rw [List.map_append, List.map_append, h.calls, List.length_append, List.length_singleton,
      callsOfTurns_succ, h.count, List.append_assoc]
    simp only [List.map_cons, List.map_nil, List.singleton_append, Int32.ofNat_add]
    rfl
  opened := by
    rw [List.filterMap_append, List.filterMap_append, h.opened]
    exact List.append_nil _

/-- What is closed is no descriptor of the task any more. -/
theorem closes_release {q q' : Task Unit} {t : List FileEvent} {streams : List Fd}
    (h : Run (Process.environment threads admits) q p t q' p')
    (hCloses : t.map Event.call = streams.map .close) {fd : Fd}
    (hTask : p'.table fd = some .task) : p.table fd = some .task ∧ fd ∉ streams := by
  induction h generalizing streams with
  | refl q p =>
    cases streams with
    | nil => exact ⟨hTask, List.not_mem_nil⟩
    | cons fos streams => cases hCloses
  | @call c next p p₁ p₂ p' r t q' hMoves _ hAnswer _ ih =>
    cases streams with
    | nil => cases hCloses
    | cons fos streams =>
      rw [List.map_cons, List.map_cons, List.cons.injEq] at hCloses
      obtain ⟨rfl, hRest⟩ := hCloses
      obtain ⟨hHeld, hOut⟩ := ih hRest hTask
      have hReleased : p₂ = p₁.release fos := by
        cases r with
        | ok u =>
          simp only [Process.environment, Process.answer, Option.ite_none_left_eq_some,
            Option.some.injEq] at hAnswer
          exact hAnswer.2.symm
        | error e => exact (Option.some.inj hAnswer).symm
      rw [hReleased] at hHeld
      rcases eq_or_ne fd fos with rfl | hne
      · simp [Process.release] at hHeld
      · have hBefore : p₁.table fd = some .task := by
          have hSame : (p₁.release fos).table fd = p₁.table fd := Function.update_of_ne hne _ _
          rwa [hSame] at hHeld
        refine ⟨((interferes_task hMoves).2 fd).mp hBefore, ?_⟩
        rw [List.mem_cons, not_or]
        exact ⟨hne, hOut⟩
  | iter _ ih => exact ih hCloses hTask

/-- The task has returned `i`: it has opened `i` files, was refused another one and has
closed what it had opened. -/
structure Finished (filesDir : JString) (limit : Nat) (i : Int32) (p : Process)
    (t : List FileEvent) : Prop where
  nodup : (t.filterMap openedBy).Nodup
  below : ∀ fd ∈ t.filterMap openedBy, fd < limit
  count : i = Int32.ofNat (t.filterMap openedBy).length
  calls : t.map Event.call =
    callsOfTurns filesDir (t.filterMap openedBy).length ++
      .newFileOutputStream (fileName filesDir i) :: (t.filterMap openedBy).map .close
  released : ∀ fd, p.table fd ≠ some .task

theorem openedBy_of_close {t : List FileEvent} {streams : List Fd}
    (h : t.map Event.call = streams.map .close) : t.filterMap openedBy = [] := by
  rw [List.filterMap_eq_nil_iff]
  intro ev hev
  have hCall : ev.call ∈ streams.map FileCall.close := h ▸ List.mem_map_of_mem hev
  obtain ⟨fos, -, hClose⟩ := List.mem_map.mp hCall
  obtain ⟨p, c, r, p'⟩ := ev
  cases hClose
  rfl

theorem Holding.finished {s : List Fd × Int32} (h : Holding filesDir limit s (p, hist))
    {q q' : Task Unit} {t : List FileEvent} {p₁ : Process}
    (hRun : Run (Process.environment threads admits) q p t q' p')
    (hCloses : t.map Event.call = s.1.map .close) :
    Finished filesDir limit s.2 p' (hist ++ [⟨p₁, .newFileOutputStream (fileName filesDir s.2),
      .error (), p⟩] ++ t) := by
  have hOpened : (hist ++ [(⟨p₁, .newFileOutputStream (fileName filesDir s.2), .error (), p⟩ :
      FileEvent)] ++ t).filterMap openedBy = s.1 := by
    rw [List.filterMap_append, List.filterMap_append, h.opened, openedBy_of_close hCloses,
      List.append_nil]
    exact List.append_nil s.1
  constructor
  · rw [hOpened]
    exact h.nodup
  · rw [hOpened]
    exact h.below
  · rw [hOpened]
    exact h.count
  · rw [hOpened, List.map_append, List.map_append, h.calls, hCloses, List.append_assoc]
    rfl
  · intro fd hTask
    obtain ⟨hHeld, hOut⟩ := closes_release hRun hCloses hTask
    exact hOut ((h.table fd).mp hHeld)

/-- A point that the source gives a meaning to. -/
abbrev Defined {C P W : Type} (x : Point C P) (_ : W) : Prop := ∀ u, x ≠ .undefined u

variable {closeIOQuietly : List Fd → Task Unit}

theorem turn_total (hQuietly : Quietly closeIOQuietly) {s : List Fd × Int32}
    (h : Holding filesDir limit s (p, hist)) :
    Total (Process.environment threads admits).record Defined
      (Sum.elim (fun s' w => Holding filesDir limit s' w ∧ limit - s'.1.length < limit - s.1.length)
        (fun i w => Finished filesDir limit i w.1 w.2))
      (turn closeIOQuietly filesDir s) (p, hist) := by
  obtain ⟨fileDescriptorHolder, i⟩ := s
  refine .call_record (fun _ _ u hUndefined => nomatch hUndefined)
    fun p₁ r p₂ hMoves _ hAnswer => ?_
  have hNow := h.interferes hMoves
  cases r with
  | ok fos =>
    simp only [Process.environment, Process.answer, Option.ite_none_right_eq_some,
      Option.some.injEq] at hAnswer
    obtain ⟨⟨hFree, hBelow⟩, hInstalled⟩ := hAnswer
    refine .call_record (fun _ _ u hUndefined => nomatch hUndefined)
      fun p₃ u p₄ hMoves _ hAnswer => ?_
    cases Option.some.inj hAnswer
    have hMore := (hNow.opens hFree hBelow hInstalled.symm p₃ p₃).interferes hMoves
    have hRoom := hMore.length_le
    rw [List.length_append, List.length_singleton] at hRoom
    refine .ret ⟨hMore, ?_⟩
    rw [List.length_append, List.length_singleton]
    dsimp only at hRoom ⊢
    omega
  | error e =>
    cases Option.some.inj hAnswer
    have hEnds := hQuietly.ends (Process.environment threads admits).record fileDescriptorHolder
      (p₁, hist ++ [⟨p₁, .newFileOutputStream (fileName filesDir i), .error e, p₁⟩])
    change Total _ _ _ ((closeIOQuietly fileDescriptorHolder).bind fun _ => .ret (Sum.inr i)) _
    refine (hEnds.of_runs fun t u w' hRun => ?_).bind fun _ _ hFinished => .ret hFinished
    obtain ⟨t', hHist, hRun⟩ := hRun.of_record
    change Finished filesDir limit i w'.1 w'.2
    rw [hHist]
    exact hNow.finished hRun (hQuietly.closes hRun)

/-- Whatever other opens fail for, and whatever other threads open and close: the task ends. It
has opened the files 0, 1, .. `i - 1` one behind the other, reported each and been refused file
`i`; its descriptors are different ones, each is closed once, in the order of the files and behind
the last open, and nothing else is closed. -/
theorem doInBackground_ends (threads : Bool)
    (admits : Process → (c : FileCall) → Reply c → Prop) {closeIOQuietly : List Fd → Task Unit}
    (hQuietly : Quietly closeIOQuietly) (filesDir : JString) {p : Process}
    (hNone : ∀ fd, p.table fd ≠ some .task) :
    Total (Process.environment threads admits) Defined (fun _ _ => True)
        (doInBackground closeIOQuietly filesDir) p ∧
      ∀ t i p', Run (Process.environment threads admits) (doInBackground closeIOQuietly filesDir)
        p t (.ret i) p' → Finished filesDir p.limit i p' t := by
  have hStart : Holding filesDir p.limit ([], 0) (p, []) :=
    ⟨List.nodup_nil, rfl, rfl, fun fd => iff_of_false (hNone fd) List.not_mem_nil,
      (fun _ hNil => nomatch hNil), rfl, rfl⟩
  have hTotal : Total (Process.environment threads admits).record Defined
      (fun i w => Finished filesDir p.limit i w.1 w.2)
      (doInBackground closeIOQuietly filesDir) (p, []) :=
    .loop (I := Holding filesDir p.limit) (fun s => p.limit - s.1.length)
      (fun _ _ h => ⟨(fun u hUndefined => nomatch hUndefined), turn_total hQuietly h⟩) _ _ hStart
  exact ⟨Total.of_record (hTotal.mono (fun _ _ h => h) fun _ _ _ => trivial),
    fun t i p' hRun => hTotal.safe.result_record hRun⟩

def standard : Process where
  table fd := if fd < 3 then some .foreign else none
  limit := 5

/-- Another thread takes the last descriptor, and so the second file is refused. -/
theorem doInBackground_ends_taken :
    ∃ t p', Run (Process.environment true fun _ _ _ => True) (doInBackground closeEach [])
      standard t (.ret 1) p' ∧ Finished [] 5 1 p' t := by
  obtain ⟨t, q, p', hRun, hRet⟩ := exists_run_of_replay
    (Process.environment true fun _ _ _ => True) (doInBackground closeEach []) standard 40
    [⟨[], .newFileOutputStream [47, 48], .ok 3⟩, ⟨[], .publishProgress 1, ()⟩,
      ⟨[.openFd 4], .newFileOutputStream [47, 49], .error ()⟩, ⟨[], .close 3, .ok ()⟩]
    (fun _ q _ => decide (q.result? = some 1)) (by decide)
  rw [eq_ret_of_result? (of_decide_eq_true hRet)] at hRun
  refine ⟨t, p', hRun, (doInBackground_ends true _ quietly_closeEach [] ?_).2 t 1 p' hRun⟩
  intro fd
  simp only [standard]
  split <;> simp

/-! ## The number that the task is after -/

/-- A file is refused only where no descriptor is left. -/
def RefusesFull : Process → (c : FileCall) → Reply c → Prop
  | p, .newFileOutputStream _, .error _ => ∀ fd < p.limit, p.table fd ≠ none
  | _, _, _ => True

instance : ∀ p c r, Decidable (RefusesFull p c r)
  | p, .newFileOutputStream _, .error _ =>
    inferInstanceAs (Decidable (∀ fd < p.limit, p.table fd ≠ none))
  | _, .newFileOutputStream _, .ok _ => isTrue trivial
  | _, .close _, _ => isTrue trivial
  | _, .publishProgress _, _ => isTrue trivial

def free (p : Process) : List Fd := (List.range p.limit).filter fun fd => p.table fd = none

theorem mem_free {fd : Fd} : fd ∈ free p ↔ fd < p.limit ∧ p.table fd = none := by
  rw [free, List.mem_filter, List.mem_range, decide_eq_true_iff]

theorem interferes_alone (h : (Process.environment false admits).Interferes p p') : p' = p := by
  refine h.preserves (I := fun q => q = p) ?_ rfl
  rintro q m q' - hMove
  cases hMove

/-- Of what was free in `p` the task holds some, and nothing else has changed. -/
structure Taken (p : Process) (s : List Fd × Int32) (q : Process) : Prop where
  nodup : s.1.Nodup
  count : s.2 = Int32.ofNat s.1.length
  limited : q.limit = p.limit
  table : ∀ fd, q.table fd = if fd ∈ s.1 then some .task else p.table fd
  wasFree : s.1 ⊆ free p

theorem Taken.opens {s : List Fd × Int32} {q : Process} (h : Taken p s q) {fos : Fd}
    (hFree : q.table fos = none) (hBelow : fos < q.limit) :
    Taken p (s.1 ++ [fos], s.2 + 1) (q.install fos .task) := by
  have hOut : fos ∉ s.1 := by
    intro hIn
    rw [h.table, if_pos hIn] at hFree
    cases hFree
  constructor
  · refine List.nodup_append.mpr ⟨h.nodup, List.nodup_singleton fos, ?_⟩
    rintro fd hfd other hOther rfl
    rw [List.mem_singleton.mp hOther] at hfd
    exact hOut hfd
  · rw [h.count, List.length_append, List.length_singleton, Int32.ofNat_add]
    rfl
  · exact h.limited
  · intro fd
    rcases eq_or_ne fd fos with rfl | hne
    · simp [Process.install]
    · simp [Process.install, hne, h.table]
  · intro fd hfd
    rcases List.mem_append.mp hfd with hOld | hNew
    · exact h.wasFree hOld
    · rw [List.mem_singleton.mp hNew, mem_free, ← h.limited]
      rw [h.table, if_neg hOut] at hFree
      exact ⟨hBelow, hFree⟩

/-- Where nothing is left the task holds all that was free. -/
theorem Taken.full {s : List Fd × Int32} {q : Process} (h : Taken p s q)
    (hFull : ∀ fd < q.limit, q.table fd ≠ none) : s.1.length = (free p).length := by
  have hAll : free p ⊆ s.1 := by
    intro fd hfd
    obtain ⟨hBelow, hFree⟩ := mem_free.mp hfd
    by_contra hOut
    apply hFull fd (h.limited ▸ hBelow)
    rw [h.table, if_neg hOut]
    exact hFree
  have hNodup : (free p).Nodup := List.nodup_range.filter _
  exact Nat.le_antisymm (h.nodup.subperm h.wasFree).length_le (hNodup.subperm hAll).length_le

theorem closes_table {q q' : Task Unit} {t : List FileEvent} {streams : List Fd}
    (h : Run (Process.environment false admits) q p t q' p')
    (hCloses : t.map Event.call = streams.map .close) :
    p'.limit = p.limit ∧ ∀ fd, p'.table fd = if fd ∈ streams then none else p.table fd := by
  induction h generalizing streams with
  | refl q p =>
    cases streams with
    | nil => exact ⟨rfl, fun fd => (if_neg List.not_mem_nil).symm⟩
    | cons fos streams => cases hCloses
  | @call c next p p₁ p₂ p' r t q' hMoves _ hAnswer _ ih =>
    cases streams with
    | nil => cases hCloses
    | cons fos streams =>
      rw [List.map_cons, List.map_cons, List.cons.injEq] at hCloses
      obtain ⟨rfl, hRest⟩ := hCloses
      obtain ⟨hLimit, hTable⟩ := ih hRest
      rw [interferes_alone hMoves] at hAnswer
      have hReleased : p₂ = p.release fos := by
        cases r with
        | ok u =>
          simp only [Process.environment, Process.answer, Option.ite_none_left_eq_some,
            Option.some.injEq] at hAnswer
          exact hAnswer.2.symm
        | error e => exact (Option.some.inj hAnswer).symm
      rw [hReleased] at hLimit hTable
      refine ⟨hLimit, fun fd => ?_⟩
      rw [hTable]
      rcases eq_or_ne fd fos with rfl | hne
      · simp [Process.release]
      · simp [Process.release, hne]
  | iter _ ih => exact ih hCloses

theorem turn_counts (hQuietly : Quietly closeIOQuietly) {s : List Fd × Int32} {q : Process}
    (h : Taken p s q) :
    Safe (Process.environment false RefusesFull) (fun _ _ => True)
      (Sum.elim (Taken p) (fun i q => i = Int32.ofNat (free p).length ∧ q = p))
      (turn closeIOQuietly filesDir s) q := by
  obtain ⟨fileDescriptorHolder, i⟩ := s
  refine .call (fun _ _ => trivial) fun q₁ r q₂ hMoves hAdmits hAnswer => ?_
  cases interferes_alone hMoves
  cases r with
  | ok fos =>
    simp only [Process.environment, Process.answer, Option.ite_none_right_eq_some,
      Option.some.injEq] at hAnswer
    obtain ⟨⟨hFree, hBelow⟩, rfl⟩ := hAnswer
    refine .call (fun _ _ => trivial) fun q₃ u q₄ hMoves _ hAnswer => ?_
    cases interferes_alone hMoves
    cases Option.some.inj hAnswer
    exact .ret (h.opens hFree hBelow)
  | error e =>
    cases Option.some.inj hAnswer
    change Safe _ _ _ ((closeIOQuietly fileDescriptorHolder).bind fun _ => .ret (Sum.inr i)) _
    have hEnds := hQuietly.ends (Process.environment false RefusesFull) fileDescriptorHolder q
    have hClosed := hEnds.of_runs (S := fun _ q' => q' = p) fun t u q' hRun => by
      obtain ⟨hLimit, hTable⟩ := closes_table hRun (hQuietly.closes hRun)
      have hSame : q'.table = p.table := by
        funext fd
        rw [hTable, h.table]
        split
        · rename_i hHeld
          exact (mem_free.mp (h.wasFree hHeld)).2.symm
        · rfl
      cases p
      cases q'
      cases hSame
      cases hLimit.trans h.limited
      rfl
    refine (hClosed.safe.mono (fun _ _ _ => trivial) fun _ _ h => h).bind fun _ q' hq' => ?_
    refine .ret ⟨?_, hq'⟩
    have hCount : i = Int32.ofNat fileDescriptorHolder.length := h.count
    rw [hCount, h.full hAdmits]

/-- Without other threads, and where nothing but the number of descriptors is a reason to refuse a
file: the task returns the number of the descriptors that were free, and frees them again. -/
theorem doInBackground_counts {closeIOQuietly : List Fd → Task Unit}
    (hQuietly : Quietly closeIOQuietly) (filesDir : JString) {p p' : Process}
    {t : List FileEvent} {i : Int32}
    (hRun : Run (Process.environment false RefusesFull) (doInBackground closeIOQuietly filesDir)
      p t (.ret i) p') : i = Int32.ofNat (free p).length ∧ p' = p := by
  have hStart : Taken p ([], 0) p :=
    ⟨List.nodup_nil, rfl, rfl, fun fd => (if_neg List.not_mem_nil).symm, List.nil_subset _⟩
  have hSafe : Safe (Process.environment false RefusesFull) (fun _ _ => True)
      (fun i q => i = Int32.ofNat (free p).length ∧ q = p)
      (doInBackground closeIOQuietly filesDir) p :=
    .loop (I := Taken p) hStart fun _ _ h => ⟨trivial, turn_counts hQuietly h⟩
  exact hSafe.result hRun

theorem doInBackground_counts_standard :
    ∃ t p', Run (Process.environment false RefusesFull) (doInBackground closeEach [])
      standard t (.ret 2) p' ∧ (2 = Int32.ofNat (free standard).length ∧ p' = standard) := by
  obtain ⟨t, q, p', hRun, hRet⟩ := exists_run_of_replay
    (Process.environment false RefusesFull) (doInBackground closeEach []) standard 40
    [⟨[], .newFileOutputStream [47, 48], .ok 4⟩, ⟨[], .publishProgress 1, ()⟩,
      ⟨[], .newFileOutputStream [47, 49], .ok 3⟩, ⟨[], .publishProgress 2, ()⟩,
      ⟨[], .newFileOutputStream [47, 50], .error ()⟩, ⟨[], .close 4, .ok ()⟩,
      ⟨[], .close 3, .error ()⟩]
    (fun _ q _ => decide (q.result? = some 2)) (by decide)
  rw [eq_ret_of_result? (of_decide_eq_true hRet)] at hRun
  exact ⟨t, p', hRun, doInBackground_counts quietly_closeEach [] hRun⟩

end AndroidDemo.Os.MaxFileDescriptorActivity
