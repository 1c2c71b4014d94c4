import AndroidDemo.Interaction.Erasure
import AndroidDemo.Interaction.Replay
import AndroidDemo.Socket.Connections
import AndroidDemo.Socket.NativeLib
import AndroidDemo.Socket.SelectExit

/-! # Waits that a signal interrupts

`acceptClient` and the loop of the epoll server issue an interrupted call again.
The loop of the select server takes an interruption for a failure.
-/

namespace AndroidDemo.Socket

open Interaction Program Kernel EPollSocketServer

def interrupted : (e : Syscall) → Reply e → Bool
  | .select _ _, .error .EINTR => true
  | .epollWait _ _, .error .EINTR => true
  | .accept _, .error .EINTR => true
  | _, _ => false

def selectInterrupted : Event Syscall Reply Kernel → Bool
  | ⟨_, .select _ _, .error .EINTR, _⟩ => true
  | _ => false

def SelectUninterrupted (_ : Kernel) : (e : Syscall) → Reply e → Prop
  | .select _ _, .error e => e ≠ .EINTR
  | _, _ => True

theorem interrupted_stays {k k' : Kernel} {e : Syscall} {r : Reply e} (h : interrupted e r = true)
    (hAnswer : k.answer e r = some k') : k' = k := by
  cases e <;> first
    | cases h
    | cases r with
      | ok value => cases h
      | error e => exact (Option.some.inj hAnswer).symm

/-- The system calls of a server, whose `select` is never interrupted. -/
def unsignalled (threads : Bool) : Environment Syscall Reply Kernel Move :=
  (environment threads fun _ _ _ => True).restrict SelectUninterrupted

variable {threads : Bool}

theorem acceptClient_repeats (srv : AbstractSocketServer) (serverFd : Fd) :
    Repeats (unsignalled threads) interrupted (acceptClient srv serverFd) := by
  refine .loop (fun _ => .again fun k r _ => ?_) _
  cases r with
  | error e =>
    cases e with
    | EINTR => exact .inl ⟨rfl, rfl⟩
    | other code => exact .inr ⟨rfl, .ret _⟩
  | ok clientFD => exact .inr ⟨rfl, .ret _⟩

theorem echoFrame_repeats (fd : Fd) : Repeats (unsignalled threads) interrupted (echoFrame fd) := by
  refine .of_calls (fun e r k he _ => ?_) (echoFrame_calls fd)
  cases e <;> first | rfl | cases he

theorem select_repeats (srv : SelectSocketServer) (serverFd : Fd) :
    Repeats (unsignalled threads) interrupted (srv.processClientConnect serverFd) := by
  apply select_parts (Repeats.compositional (unsignalled threads) interrupted) echoFrame_repeats
    (fun _ _ _ _ => rfl) acceptClient_repeats
  rintro nfds readFds k (e | ready) hAdmits
  · cases e with
    | EINTR => exact (hAdmits.2 rfl).elim
    | other code => rfl
  · rfl

theorem handleEvent_repeats (srv : AbstractSocketServer) (epollfd : Option Fd)
    (events : List EpollEvent) (serverFd : Fd) :
    Repeats (unsignalled threads) interrupted (handleEvent srv epollfd events serverFd) :=
  handleEvent_parts (Repeats.compositional (unsignalled threads) interrupted) echoFrame_repeats
    (fun _ _ _ _ => rfl) acceptClient_repeats (fun _ _ _ _ _ _ => rfl) (fun _ _ _ _ _ _ => rfl) srv
    epollfd events serverFd

theorem runLoop_repeats (srv : AbstractSocketServer) (epollfd : Option Fd) (serverFd : Fd) :
    Repeats (unsignalled threads) interrupted (runLoop srv epollfd serverFd) := by
  refine .loop (fun srv => ?_) srv
  rw [turn]
  split
  · refine .again fun k r _ => ?_
    cases r with
    | error e =>
      cases e with
      | EINTR => exact .inl ⟨rfl, rfl⟩
      | other code => exact .inr ⟨rfl, .ret _⟩
    | ok events =>
      exact .inr ⟨rfl, (handleEvent_repeats srv epollfd events serverFd).bind fun _ => .ret _⟩
  · exact .inner (.ret _)

theorem epoll_repeats (srv : AbstractSocketServer) (serverFd : Fd) :
    Repeats (unsignalled threads) interrupted (processClientConnect srv serverFd) :=
  epoll_parts (Repeats.compositional (unsignalled threads) interrupted) (fun _ _ _ _ => rfl)
    (fun _ _ _ _ _ _ => rfl) (fun _ _ _ _ => rfl) serverFd
    (fun srv epollfd => runLoop_repeats srv epollfd serverFd) srv

theorem processClientConnect_repeats (kind : ServerKind) (ip : Option String) (port : BitVec 32)
    (serverFd : Fd) :
    Repeats (unsignalled threads) interrupted (kind.processClientConnect ip port serverFd) := by
  cases kind with
  | select => exact (select_repeats _ serverFd).bind fun _ => .ret _
  | epoll => exact (epoll_repeats _ serverFd).bind fun _ => .ret _

/-! ## No `select` in the epoll server -/

def notSelect : Syscall → Bool
  | .select _ _ => false
  | _ => true

theorem notSelect_of_servesClients {e : Syscall} (h : servesClients e = true) :
    notSelect e = true := by
  cases e <;> first | rfl | cases h

theorem epoll_calls (srv : AbstractSocketServer) (serverFd : Fd) :
    (processClientConnect srv serverFd).Calls fun e => notSelect e = true := by
  have hX : Compositional (fun e => notSelect e = true)
      fun α (p : Server α) => p.Calls fun e => notSelect e = true := Calls.compositional _
  refine epoll_parts hX (fun _ => rfl) (fun _ _ _ => rfl) (fun _ => rfl) serverFd ?_ srv
  intro srv epollfd
  refine runLoop_parts hX (fun _ _ => rfl) serverFd epollfd ?_ srv
  intro srv events
  refine handleEvent_parts hX ?_ (fun _ => rfl) ?_ (fun _ _ _ => rfl) (fun _ _ _ => rfl) srv epollfd
    events serverFd
  · exact fun fd => (echoFrame_calls fd).mono fun _ h =>
      notSelect_of_servesClients (servesClients_of_echoCall h)
  · exact fun srv fd => (acceptClient_calls srv fd).mono fun _ => notSelect_of_servesClients

/-! ## Erasing the interruptions -/

theorem fails_of_interrupted {ev : Event Syscall Reply Kernel}
    (h : selectInterrupted ev = true) :
    fails ev = true ∧ interrupted ev.call ev.reply = true := by
  unfold selectInterrupted at h
  split at h
  · exact ⟨rfl, rfl⟩
  · cases h

/-- What a run leads to, the same run without its interrupted waits leads to. -/
def Transparent (threads : Bool) (p : Server Unit) (k : Kernel)
    (t : List (Event Syscall Reply Kernel)) (q : Server Unit) (k' : Kernel) : Prop :=
  ∃ q' k₀, Run (environment threads fun _ _ _ => True) p k (erase interrupted t) q' k₀ ∧
    (environment threads fun _ _ _ => True).Interferes k₀ k' ∧ q.Unrolls q'

section
variable {kind : ServerKind} {ip : Option String} {port : BitVec 32} {serverFd : Fd} {k k' : Kernel}
  {t : List (Event Syscall Reply Kernel)} {q : Server Unit}
  (hRun : Run (environment threads fun _ _ _ => True) (kind.processClientConnect ip port serverFd)
    k t q k')
include hRun

/-- An interrupted `select` ends the loop, and no run ends without a failed one. -/
theorem not_transparent_of_interrupted {ev : Event Syscall Reply Kernel} (hev : ev ∈ t)
    (hInterrupted : selectInterrupted ev = true) :
    ¬ Transparent threads (kind.processClientConnect ip port serverFd) k t q k' := by
  rintro ⟨q', k₀, hErased, _, hUnrolls⟩
  obtain ⟨hFails, hDrop⟩ := fails_of_interrupted hInterrupted
  cases kind with
  | select =>
    obtain ⟨hRunning, hEnded⟩ := select_history hRun
    have hNone : q.point? = none := by
      rw [Option.eq_none_iff_forall_ne_some]
      intro x hx
      rw [hRunning x hx ev hev] at hFails
      cases hFails
    obtain ⟨h₀, last, rfl, _, hBefore⟩ := hEnded hNone
    have hLast : ev = last := by
      rcases List.mem_append.mp hev with hev | hev
      · rw [hBefore ev hev] at hFails
        cases hFails
      · exact List.mem_singleton.mp hev
    have hNone' : q'.point? = none := by
      obtain ⟨a, rfl⟩ := eq_ret_of_point? hNone
      rw [hUnrolls.ret_inv]
      rfl
    obtain ⟨h₁, last', hEq, hFails', _⟩ := (select_history hErased).2 hNone'
    have hMem : last' ∈ erase interrupted (h₀ ++ [last]) := by simp [hEq]
    obtain ⟨hMem, hKeep⟩ := List.mem_filter.mp hMem
    rcases List.mem_append.mp hMem with hMem | hMem
    · rw [hBefore last' hMem] at hFails'
      cases hFails'
    · rw [List.mem_singleton.mp hMem, ← hLast, hDrop] at hKeep
      cases hKeep
  | epoll =>
    have hCalls : (ServerKind.epoll.processClientConnect ip port serverFd).Calls
        fun e => notSelect e = true := (epoll_calls _ serverFd).bind fun _ => trivial
    have hNot := (hCalls.run hRun).1 ev hev
    obtain ⟨k₁, e, r, k₂⟩ := ev
    cases e <;> first | cases hInterrupted | cases hNot

theorem transparent_of_uninterrupted (hNone : ∀ ev ∈ t, selectInterrupted ev = false) :
    Transparent threads (kind.processClientConnect ip port serverFd) k t q k' := by
  have hRestricted : Run (unsignalled threads) (kind.processClientConnect ip port serverFd)
      k t q k' := by
    refine hRun.restrict fun ev hev => ?_
    have hNot := hNone ev hev
    obtain ⟨k₁, e, r, k₂⟩ := ev
    cases e <;> try trivial
    cases r with
    | ok ready => trivial
    | error e =>
      rintro rfl
      cases hNot
  obtain ⟨q', k₀, hErased, hMoves, hUnrolls⟩ :=
    (processClientConnect_repeats kind ip port serverFd).erase_run
      (fun _ _ _ _ hDrop hAnswer => interrupted_stays hDrop hAnswer) hRestricted
  exact ⟨q', k₀, hErased.weaken (fun _ _ _ => rfl) (fun _ _ hm => hm) (fun _ _ _ => trivial),
    hMoves, hUnrolls⟩

end

/-- For every run of either server: without its interrupted waits it is a run
that leads to the same place just when no `select` was interrupted. -/
theorem interruption_transparent_iff (kind : ServerKind) (threads : Bool) {ip : Option String}
    {port : BitVec 32} {serverFd : Fd} {k k' : Kernel} {t : List (Event Syscall Reply Kernel)}
    {q : Server Unit}
    (hRun : Run (environment threads fun _ _ _ => True)
      (kind.processClientConnect ip port serverFd) k t q k') :
    Transparent threads (kind.processClientConnect ip port serverFd) k t q k' ↔
      ∀ ev ∈ t, selectInterrupted ev = false := by
  constructor
  · intro hTransparent ev hev
    rw [Bool.eq_false_iff]
    exact fun hInterrupted => not_transparent_of_interrupted hRun hev hInterrupted hTransparent
  · exact transparent_of_uninterrupted hRun

def interruptedScript : List (Answer Syscall Reply Move) :=
  [⟨[], .epollCreate EPOLLEVENTS, .ok 4⟩, ⟨[], .epollCtlAdd (some 4) 3 EPOLLIN, .ok ()⟩,
    ⟨[], .epollWait (some 4) EPOLLEVENTS, .error .EINTR⟩,
    ⟨[], .epollWait (some 4) EPOLLEVENTS, .ok [⟨3, EPOLLIN⟩]⟩, ⟨[], .accept 3, .error .EINTR⟩,
    ⟨[], .accept 3, .ok 5⟩]

theorem interruption_transparent_accept :
    ∃ t q k', (k'.IsClient 5 ∧ t.length = 6 ∧ (erase interrupted t).length = 4) ∧
      Transparent true (ServerKind.epoll.processClientConnect none 9001 3)
        (listening 3 fun _ => []) t q k' := by
  obtain ⟨t, q, k', hRun, hGood⟩ := exists_run_of_replay (environment true fun _ _ _ => True)
    (ServerKind.epoll.processClientConnect none 9001 3) (listening 3 fun _ => []) 40
    interruptedScript
    (fun t _ k' => decide ((k'.IsClient 5 ∧ t.length = 6 ∧ (erase interrupted t).length = 4) ∧
      ∀ ev ∈ t, selectInterrupted ev = false)) (by decide)
  obtain ⟨hAccepted, hNone⟩ := of_decide_eq_true hGood
  exact ⟨t, q, k', hAccepted, (interruption_transparent_iff .epoll true hRun).mpr hNone⟩

/-- One interrupted `select` ends the select server. -/
theorem interruption_not_transparent :
    ¬ ∀ (kind : ServerKind) (threads : Bool) (ip : Option String) (port : BitVec 32) (serverFd : Fd)
      (k k' : Kernel) (t : List (Event Syscall Reply Kernel)) (q : Server Unit),
      Run (environment threads fun _ _ _ => True) (kind.processClientConnect ip port serverFd)
        k t q k' →
      Transparent threads (kind.processClientConnect ip port serverFd) k t q k' := by
  intro hAll
  obtain ⟨t, q, k', hRun, hGood⟩ := exists_run_of_replay (environment true fun _ _ _ => True)
    (ServerKind.select.processClientConnect none 9000 3) (listening 3 fun _ => []) 40
    [⟨[], .select 4 {3}, .error .EINTR⟩] (fun t _ _ => t.any selectInterrupted) (by decide)
  obtain ⟨ev, hev, hInterrupted⟩ := List.any_eq_true.mp hGood
  exact not_transparent_of_interrupted hRun hev hInterrupted
    (hAll .select true none 9000 3 _ k' t q hRun)

end AndroidDemo.Socket
