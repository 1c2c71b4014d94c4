import AndroidDemo.Os.PipeDemo
import Mathlib.Data.List.Count

/-! # The descriptors and the child of readFromChildPipe

The calls of a run that returns are determined by the outcomes of `pipe` and
`fork` and by what the loop reads.
-/

namespace AndroidDemo.Os.PipeDemo

open AndroidDemo.Socket Interaction Program

abbrev PipeEvent := Event PipeCall Reply Process

def pipeEnds : PipeEvent → Option (Fd × Fd)
  | ⟨_, .pipe, .ok pipe_fd, _⟩ => some pipe_fd
  | _ => none

def forkedChild : PipeEvent → Option Nat
  | ⟨_, .fork, .ok pid, _⟩ => some pid
  | _ => none

def forkFails : PipeEvent → Bool
  | ⟨_, .fork, .error _, _⟩ => true
  | _ => false

def calls (t : List PipeEvent) : List PipeCall := t.map Event.call

/-- The descriptor is closed once, and neither read nor closed afterwards. -/
def ClosedOnce (fd : Fd) (cs : List PipeCall) : Prop :=
  ∃ before after, cs = before ++ .close fd :: after ∧ .close fd ∉ before ∧ .close fd ∉ after ∧
    ∀ count, .read fd count ∉ after

/-- Behind `pipe` both ends are closed once and not used afterwards, and
`waitpid` waits for the child that was forked before. -/
structure DisciplinedAt (before : List PipeEvent) (ev : PipeEvent) (after : List PipeEvent) :
    Prop where
  closed : ∀ pipe_fd, pipeEnds ev = some pipe_fd →
    ClosedOnce pipe_fd.1 (calls after) ∧ ClosedOnce pipe_fd.2 (calls after)
  waited : ∀ pid, ev.call = .waitpid pid →
    ∃ child : Nat, child ≠ 0 ∧ pid = child ∧ ∃ ev' ∈ before, forkedChild ev' = some child

def Disciplined (t : List PipeEvent) : Prop :=
  ∀ before ev after, t = before ++ ev :: after → DisciplinedAt before ev after

theorem ClosedOnce.count {fd : Fd} {cs : List PipeCall} (h : ClosedOnce fd cs) :
    cs.count (.close fd) = 1 := by
  obtain ⟨before, after, rfl, hBefore, hAfter, _⟩ := h
  rw [List.count_append, List.count_cons_self, List.count_eq_zero_of_not_mem hBefore,
    List.count_eq_zero_of_not_mem hAfter]

/-! ## The calls of a run that returns -/

variable {threads : Bool} {admits : Process → (c : PipeCall) → Reply c → Prop} {p p' : Process}
  {t : List PipeEvent} {s : List UInt8}

/-- The calls of the loop. -/
def InLoop (fd : Fd) (c : PipeCall) : Prop := c = .read fd 4 ∨ ∃ format, c = .log format

theorem readTurn_calls (fd : Fd) (buff : List UInt8) :
    (readTurn fd buff).Calls (InLoop fd) := by
  refine ⟨.inl rfl, fun r => ?_⟩
  cases r with
  | error e => trivial
  | ok bytes =>
    cases bytes with
    | nil => trivial
    | cons b bytes => exact ⟨.inr ⟨_, rfl⟩, fun _ => trivial⟩

theorem parentBranch_calls {pipe_fd : Fd × Fd} {childPid : Int}
    (h : Run (Process.environment threads admits) (parentBranch pipe_fd childPid) p t (.ret s) p') :
    ∃ reads, (∀ c ∈ reads, InLoop pipe_fd.1 c) ∧ calls t =
      .close pipe_fd.2 :: (reads ++ [.close pipe_fd.1, .waitpid childPid]) := by
  obtain ⟨_, _, _, t, rfl, _, h⟩ := h.call_ret
  rw [ret_bind] at h
  obtain ⟨_, t₁, t₂, _, rfl, hReads, h⟩ := Run.bind_ret h
  obtain ⟨_, _, _, t₂, rfl, _, h⟩ := h.call_ret
  obtain ⟨_, _, _, t₂, rfl, _, h⟩ := h.call_ret
  obtain ⟨rfl, _, _⟩ := h.ret_inv
  have hLoop : (loop id (readTurn pipe_fd.1) (List.replicate 5 0)).Calls (InLoop pipe_fd.1) :=
    .loop (readTurn_calls pipe_fd.1) _
  refine ⟨calls t₁, fun c hc => ?_, by simp [calls]⟩
  obtain ⟨ev, hev, rfl⟩ := List.mem_map.mp hc
  exact (hLoop.run hReads).1 ev hev

theorem childBranch_never_returns {pipe_fd : Fd × Fd} :
    ¬ Run (Process.environment threads admits) (childBranch pipe_fd) p t (.ret s) p' := by
  intro h
  obtain ⟨_, _, _, t, rfl, _, h⟩ := h.call_ret
  obtain ⟨_, _, _, t, rfl, _, h⟩ := h.call_ret
  obtain ⟨_, _, _, t, rfl, _, h⟩ := h.call_ret
  obtain ⟨_, never, _⟩ := h.call_ret
  cases never

/-- The calls behind `fork` when it has failed. -/
def callsOfFailure (pipe_fd : Fd × Fd) (reads : List PipeCall) : List PipeCall :=
  .close pipe_fd.1 :: .close pipe_fd.2 :: .close pipe_fd.2 ::
    (reads ++ [.close pipe_fd.1, .waitpid (-1)])

def callsOfParent (pipe_fd : Fd × Fd) (reads : List PipeCall) (child : Nat) : List PipeCall :=
  .close pipe_fd.2 :: (reads ++ [.close pipe_fd.1, .waitpid child])

/-- The three ways through `readFromChildPipe` that return to Java. -/
inductive Returned : List PipeEvent → Prop
  | noPipe (p p' : Process) (e : Errno) : Returned [⟨p, .pipe, .error e, p'⟩]
  | noFork (p₁ p₂ p₃ p₄ : Process) (pipe_fd : Fd × Fd) (e : Errno) (t : List PipeEvent)
    (reads : List PipeCall) (hEnds : pipe_fd.1 ≠ pipe_fd.2)
    (hCalls : calls t = callsOfFailure pipe_fd reads) :
    Returned (⟨p₁, .pipe, .ok pipe_fd, p₂⟩ :: ⟨p₃, .fork, .error e, p₄⟩ :: t)
  | parent (p₁ p₂ p₃ p₄ : Process) (pipe_fd : Fd × Fd) (child : Nat) (t : List PipeEvent)
    (reads : List PipeCall) (hEnds : pipe_fd.1 ≠ pipe_fd.2) (hChild : child ≠ 0)
    (hReads : ∀ c ∈ reads, InLoop pipe_fd.1 c)
    (hCalls : calls t = callsOfParent pipe_fd reads child) :
    Returned (⟨p₁, .pipe, .ok pipe_fd, p₂⟩ :: ⟨p₃, .fork, .ok child, p₄⟩ :: t)

theorem returned_of_run
    (h : Run (Process.environment threads admits) readFromChildPipe p t (.ret s) p') :
    Returned t := by
  obtain ⟨p₁, r, p₂, t, rfl, hPipe, h⟩ := h.call_ret
  cases r with
  | error e =>
    obtain ⟨rfl, _, _⟩ := h.ret_inv
    exact .noPipe p₁ p₂ e
  | ok pipe_fd =>
    have hEnds : pipe_fd.1 ≠ pipe_fd.2 := by
      simp only [Process.environment, Process.answer, Option.ite_none_right_eq_some] at hPipe
      exact hPipe.1.2.2
    rw [ret_bind] at h
    obtain ⟨p₃, r, p₄, t, rfl, _, h⟩ := h.call_ret
    rw [ret_bind] at h
    cases r with
    | error e =>
      rw [pidOf, afterFork, if_pos rfl] at h
      obtain ⟨_, _, _, t, rfl, _, h⟩ := h.call_ret
      obtain ⟨_, _, _, t, rfl, _, h⟩ := h.call_ret
      obtain ⟨reads, _, hCalls⟩ := parentBranch_calls h
      exact .noFork p₁ p₂ p₃ p₄ pipe_fd e _ reads hEnds
        (by simpa [calls, callsOfFailure] using hCalls)
    | ok child =>
      rw [pidOf, afterFork, if_neg (by omega)] at h
      by_cases hChild : child = 0
      · rw [if_pos (by omega)] at h
        exact absurd h childBranch_never_returns
      · rw [if_neg (by omega)] at h
        obtain ⟨reads, hReads, hCalls⟩ := parentBranch_calls h
        exact .parent p₁ p₂ p₃ p₄ pipe_fd child _ reads hEnds hChild hReads hCalls

/-! ## Which runs keep the discipline -/

theorem ClosedOnce.cons {fd : Fd} {cs : List PipeCall} (h : ClosedOnce fd cs) {c : PipeCall}
    (hc : c ≠ .close fd) : ClosedOnce fd (c :: cs) := by
  obtain ⟨before, after, rfl, hBefore, hAfter⟩ := h
  exact ⟨c :: before, after, rfl, by simp [Ne.symm hc, hBefore], hAfter⟩

theorem InLoop.ne_close {fd : Fd} {c : PipeCall} (h : InLoop fd c) (other : Fd) :
    c ≠ .close other := by
  rintro rfl
  rcases h with hRead | ⟨format, hLog⟩
  · cases hRead
  · cases hLog

theorem InLoop.ne_read {fd other : Fd} {c : PipeCall} (h : InLoop fd c) (hOther : other ≠ fd)
    (count : Nat) : c ≠ .read other count := by
  rintro rfl
  rcases h with hRead | ⟨format, hLog⟩
  · cases hRead
    exact hOther rfl
  · cases hLog

theorem closedOnce_parent {pipe_fd : Fd × Fd} {reads : List PipeCall}
    (hEnds : pipe_fd.1 ≠ pipe_fd.2) (hReads : ∀ c ∈ reads, InLoop pipe_fd.1 c) (child : Nat) :
    ClosedOnce pipe_fd.1 (callsOfParent pipe_fd reads child) ∧
      ClosedOnce pipe_fd.2 (callsOfParent pipe_fd reads child) := by
  have hClose (fd : Fd) : .close fd ∉ reads := fun hIn => (hReads _ hIn).ne_close fd rfl
  have hRead (count : Nat) : .read pipe_fd.2 count ∉ reads := fun hIn =>
    (hReads _ hIn).ne_read (Ne.symm hEnds) count rfl
  constructor
  · refine ⟨.close pipe_fd.2 :: reads, [.waitpid child], by simp [callsOfParent], ?_, by simp,
      by simp⟩
    simp [hEnds, hClose]
  · refine ⟨[], reads ++ [.close pipe_fd.1, .waitpid child], rfl, by simp, ?_, ?_⟩
    · simp [Ne.symm hEnds, hClose]
    · simp [hRead]

theorem count_callsOfFailure (pipe_fd : Fd × Fd) (reads : List PipeCall) :
    2 ≤ (callsOfFailure pipe_fd reads).count (.close pipe_fd.2) := by
  rw [callsOfFailure, List.count_cons, List.count_cons_self, List.count_cons_self]
  omega

/-- Nothing but the close of an end and the wait for the child stands around the loop. -/
theorem mem_callsOfParent {pipe_fd : Fd × Fd} {reads : List PipeCall} {child : Nat} {c : PipeCall}
    (hReads : ∀ c ∈ reads, InLoop pipe_fd.1 c) (h : c ∈ callsOfParent pipe_fd reads child) :
    InLoop pipe_fd.1 c ∨ (∃ fd, c = .close fd) ∨ c = .waitpid child := by
  simp only [callsOfParent, List.mem_cons, List.mem_append, List.not_mem_nil, or_false] at h
  rcases h with hClose | hLoop | hClose | hWait
  · exact .inr (.inl ⟨_, hClose⟩)
  · exact .inl (hReads c hLoop)
  · exact .inr (.inl ⟨_, hClose⟩)
  · exact .inr (.inr hWait)

theorem pipeEnds_of_call {ev : PipeEvent} (h : ev.call ≠ .pipe) : pipeEnds ev = none := by
  obtain ⟨p, c, r, p'⟩ := ev
  cases c <;> first | rfl | exact absurd rfl h

theorem forkFails_of_call {ev : PipeEvent} (h : ev.call ≠ .fork) : forkFails ev = false := by
  obtain ⟨p, c, r, p'⟩ := ev
  cases c <;> first | rfl | exact absurd rfl h

/-- Only `pipe` and `waitpid` are subject to the discipline. -/
theorem DisciplinedAt.of_call {before after : List PipeEvent} {ev : PipeEvent}
    (hPipe : pipeEnds ev = none) (hWait : ∀ pid, ev.call ≠ .waitpid pid) :
    DisciplinedAt before ev after where
  closed pipe_fd hEnds := by
    rw [hPipe] at hEnds
    cases hEnds
  waited pid hCall := absurd hCall (hWait pid)

theorem forall_split_cons {α : Type} {P : List α → α → List α → Prop} {x : α} {l : List α}
    (hHead : P [] x l) (hTail : ∀ before y after, l = before ++ y :: after → P (x :: before) y after) :
    ∀ before y after, x :: l = before ++ y :: after → P before y after := by
  intro before y after hSplit
  cases before with
  | nil =>
    cases hSplit
    exact hHead
  | cons z before =>
    cases hSplit
    exact hTail before y after rfl

theorem Returned.disciplined_iff (h : Returned t) :
    Disciplined t ↔ ∀ ev ∈ t, forkFails ev = false := by
  cases h with
  | noPipe p p' e =>
    refine iff_of_true ?_ (by simp [forkFails])
    exact forall_split_cons (.of_call rfl fun pid hCall => by cases hCall) (by simp)
  | noFork p₁ p₂ p₃ p₄ pipe_fd e t reads hEnds hCalls =>
    refine iff_of_false (fun hDisciplined => ?_) (by simp [forkFails])
    have hOnce := ((hDisciplined [] _ _ rfl).closed pipe_fd rfl).2.count
    have hTwice := count_callsOfFailure pipe_fd reads
    rw [← hCalls] at hTwice
    rw [calls, List.map_cons, List.count_cons_of_ne (by simp)] at hOnce
    rw [calls, hOnce] at hTwice
    exact absurd hTwice (by decide)
  | parent p₁ p₂ p₃ p₄ pipe_fd child t reads hEnds hChild hReads hCalls =>
    obtain ⟨hFirst, hSecond⟩ := closedOnce_parent hEnds hReads child
    rw [← hCalls] at hFirst hSecond
    have hRest {ev : PipeEvent} (hev : ev ∈ t) :
        InLoop pipe_fd.1 ev.call ∨ (∃ fd, ev.call = .close fd) ∨ ev.call = .waitpid child :=
      mem_callsOfParent hReads (hCalls ▸ List.mem_map_of_mem hev)
    apply iff_of_true
    · refine forall_split_cons ⟨?_, fun pid hCall => by cases hCall⟩ (forall_split_cons
        (.of_call rfl fun pid hCall => by cases hCall) ?_)
      · rintro _ ⟨⟩
        exact ⟨hFirst.cons (by simp), hSecond.cons (by simp)⟩
      · rintro before ev after rfl
        have hCall := hRest (List.mem_append_right _ List.mem_cons_self)
        refine ⟨fun ends hPipe => ?_, fun pid hWait => ?_⟩
        · rw [pipeEnds_of_call] at hPipe
          · cases hPipe
          · intro hNot
            simp [hNot, InLoop] at hCall
        · rw [hWait] at hCall
          have hPid : pid = child := by simpa [InLoop] using hCall
          exact ⟨child, hChild, hPid, ⟨p₃, .fork, .ok child, p₄⟩, by simp, rfl⟩
    · refine List.forall_mem_cons.mpr ⟨rfl, List.forall_mem_cons.mpr ⟨rfl, fun ev hev => ?_⟩⟩
      apply forkFails_of_call
      intro hNot
      have hCall := hRest hev
      simp [hNot, InLoop] at hCall

/-- For all outcomes of the calls and all moves of other threads: a run that
returns to Java closes both ends once, uses none of them afterwards and waits for
its own child just when `fork` did not fail. -/
theorem readFromChildPipe_disciplined_iff (threads : Bool)
    (admits : Process → (c : PipeCall) → Reply c → Prop) {p p' : Process} {t : List PipeEvent}
    {s : List UInt8}
    (hRun : Run (Process.environment threads admits) readFromChildPipe p t (.ret s) p') :
    Disciplined t ↔ ∀ ev ∈ t, forkFails ev = false :=
  (returned_of_run hRun).disciplined_iff

def onlyStandard : Process where
  table fd := if fd < 3 then some .foreign else none
  children := []

theorem readFromChildPipe_disciplined_pipe :
    ∃ t p', Run (Process.environment true fun _ _ _ => True) readFromChildPipe onlyStandard t
      (.ret [80, 73, 80, 69]) p' ∧ Disciplined t := by
  obtain ⟨t, q, p', hRun, hGood⟩ := exists_run_of_replay
    (Process.environment true fun _ _ _ => True) readFromChildPipe onlyStandard 40
    [⟨[], .pipe, .ok (3, 4)⟩, ⟨[], .fork, .ok 7⟩, ⟨[], .close 4, .ok ()⟩,
      ⟨[.openFd 4], .read 3 4, .ok [80, 73]⟩, ⟨[], .log [80, 73], ()⟩,
      ⟨[], .read 3 4, .ok [80, 73, 80, 69]⟩, ⟨[], .log [80, 73, 80, 69], ()⟩,
      ⟨[], .read 3 4, .ok []⟩, ⟨[], .close 3, .ok ()⟩, ⟨[], .waitpid 7, .ok 7⟩]
    (fun t q _ => decide (q.result? = some [80, 73, 80, 69] ∧ ∀ ev ∈ t, forkFails ev = false))
    (by decide)
  obtain ⟨hRet, hNone⟩ := of_decide_eq_true hGood
  rw [eq_ret_of_result? hRet] at hRun
  exact ⟨t, p', hRun, (readFromChildPipe_disciplined_iff true _ hRun).mpr hNone⟩

/-- `fork` fails, another thread gets the number of the closed write end, and the
second `close` closes it under that thread. -/
theorem not_readFromChildPipe_disciplined :
    ¬ ∀ (threads : Bool) (p p' : Process) (t : List PipeEvent) (s : List UInt8),
      Run (Process.environment threads fun _ _ _ => True) readFromChildPipe p t (.ret s) p' →
      Disciplined t := by
  intro hAll
  obtain ⟨t, q, p', hRun, hGood⟩ := exists_run_of_replay
    (Process.environment true fun _ _ _ => True) readFromChildPipe onlyStandard 40
    [⟨[], .pipe, .ok (3, 4)⟩, ⟨[], .fork, .error (.other 11)⟩, ⟨[], .close 3, .ok ()⟩,
      ⟨[], .close 4, .ok ()⟩, ⟨[.openFd 4], .close 4, .ok ()⟩, ⟨[], .read 3 4, .error (.other 9)⟩,
      ⟨[], .close 3, .error (.other 9)⟩, ⟨[], .waitpid (-1), .error (.other 10)⟩]
    (fun t q _ => decide (q.result? = some [] ∧ t.any forkFails = true)) (by decide)
  obtain ⟨hRet, hFails⟩ := of_decide_eq_true hGood
  rw [eq_ret_of_result? hRet] at hRun
  obtain ⟨ev, hev, hFails⟩ := List.any_eq_true.mp hFails
  have hNone := (returned_of_run hRun).disciplined_iff.mp (hAll true _ _ t _ hRun) ev hev
  rw [hNone] at hFails
  cases hFails

end AndroidDemo.Os.PipeDemo
