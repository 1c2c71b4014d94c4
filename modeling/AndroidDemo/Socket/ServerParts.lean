import AndroidDemo.Interaction.Calls
import AndroidDemo.Socket.NativeLib
import AndroidDemo.Socket.SelectRules

/-! # Properties of the servers that follow from their parts

One traversal of the two event loops for every property that a program has when
its parts have it. The services of clients and the loop of `acceptClient` are
left to the property.
-/

namespace AndroidDemo.Socket

open Interaction Program EPollSocketServer

variable {φ : Syscall → Prop} {X : (α : Type) → Server α → Prop} (hX : Compositional φ X)
include hX

theorem readn_parts (hRead : ∀ fd count, φ (.read fd count)) (fd : Fd) (len : SizeT) :
    X _ (readn fd len) := by
  apply hX.loop
  intro st
  rw [readnTurn]
  split
  · exact hX.call (hRead fd _) fun _ => hX.ret _
  · exact hX.ret _

theorem allocMsg_parts (hMalloc : ∀ size, φ (.malloc size)) (len : BitVec 32) :
    X _ (allocMsg len) := by
  rw [allocMsg]
  split
  · exact hX.undefined _
  · apply hX.call (hMalloc _)
    intro msg
    rw [ret_bind]
    split
    · exact hX.ret _
    · exact hX.undefined _

/-- Behind a write the frame goes on in the same way, so its answer may be left
to the property as well. -/
theorem echoFrame_parts (hRead : ∀ fd count, φ (.read fd count)) (hMalloc : ∀ size, φ (.malloc size))
    (hWrite : ∀ fd buf (next : Server Unit), X _ next → X _ (.call (.write fd buf) fun _ => next))
    (fd : Fd) : X _ (echoFrame fd) := by
  apply hX.bind (readn_parts hX hRead fd 4)
  rintro ⟨buf, complete⟩
  dsimp only
  split
  · apply hWrite
    apply hX.bind (allocMsg_parts hX hMalloc _)
    intro allocated
    apply hX.bind (readn_parts hX hRead fd _)
    rintro ⟨msg, complete⟩
    dsimp only
    split
    · exact hWrite _ _ _ (hX.ret _)
    · exact hX.ret _
  · exact hX.ret _

section
variable (hEcho : ∀ fd, X _ (echoFrame fd)) (hClose : ∀ fd, φ (.close fd))
include hEcho hClose

theorem receiveClients_parts (srv : SelectSocketServer) (before rest : List Fd) (readFds : FdSet) :
    X _ (srv.receiveClients before rest readFds) := by
  induction rest generalizing before readFds with
  | nil => exact hX.ret _
  | cons clientFD rest ih =>
    rw [SelectSocketServer.receiveClients, FD_ISSET]
    split
    · rename_i hFit
      rw [pure_eq, bind_eq, ret_bind]
      split
      · apply hX.bind (hEcho clientFD)
        intro served
        rw [FD_CLR, if_pos hFit]
        exact hX.call (hClose clientFD) fun _ => ih before _
      · exact ih _ readFds
    · exact hX.undefined _

variable (hAccept : ∀ srv serverFd, X _ (acceptClient srv serverFd))
include hAccept

theorem dispatch_parts (srv : SelectSocketServer) (serverFd : Fd) (readFds : FdSet) :
    X _ (srv.dispatch serverFd readFds) := by
  rw [SelectSocketServer.dispatch, FD_ISSET]
  split
  · rw [pure_eq, bind_eq, ret_bind]
    split
    · exact hX.bind (hAccept _ serverFd) fun _ => hX.ret _
    · exact receiveClients_parts hX hEcho hClose _ [] _ _
  · exact hX.undefined _

theorem select_parts (hSelect : ∀ nfds readFds, φ (.select nfds readFds)) (srv : SelectSocketServer)
    (serverFd : Fd) : X _ (srv.processClientConnect serverFd) := by
  apply hX.loop
  intro srv
  by_cases hRunning : srv.mRunning = true
  · rcases turn_cases serverFd hRunning with ⟨fd, _, _, hEq⟩ | ⟨readFds, mMaxFd, _, hEq⟩
    · rw [hEq]
      exact hX.undefined _
    · rw [hEq]
      apply hX.call (hSelect _ _)
      rintro (e | ready)
      · exact hX.ret _
      · exact hX.bind (dispatch_parts hX hEcho hClose hAccept _ serverFd ready) fun _ => hX.ret _
  · rw [SelectSocketServer.turn, if_neg hRunning]
    exact hX.ret _

variable (hAdd : ∀ epollfd fd events, φ (.epollCtlAdd epollfd fd events))
  (hDel : ∀ epollfd fd events, φ (.epollCtlDel epollfd fd events))
include hAdd hDel

theorem handleEvent_parts (srv : AbstractSocketServer) (epollfd : Option Fd)
    (events : List EpollEvent) (serverFd : Fd) : X _ (handleEvent srv epollfd events serverFd) := by
  have hAddEvents (fds : List Fd) : X _ (addEvents epollfd fds) := by
    induction fds with
    | nil => exact hX.ret _
    | cons fd fds ih => exact hX.call (hAdd epollfd fd _) fun _ => ih
  induction events generalizing srv with
  | nil => exact hX.ret _
  | cons ev events ih =>
    rw [handleEvent]
    split
    · refine hX.bind ?_ fun srv' => ih srv'
      exact hX.bind (hAccept srv serverFd) fun srv' =>
        hX.bind (hAddEvents srv'.mClientFds) fun _ => hX.ret _
    · split
      · refine hX.bind ?_ fun _ => ih srv
        apply hX.bind (hEcho ev.fd)
        intro served
        exact hX.call (hClose ev.fd) fun _ => hX.call (hDel epollfd ev.fd _) fun _ => hX.ret _
      · exact ih srv

end

theorem runLoop_parts (hWait : ∀ epollfd maxEvents, φ (.epollWait epollfd maxEvents))
    (serverFd : Fd) (epollfd : Option Fd)
    (hEvents : ∀ srv events, X _ (handleEvent srv epollfd events serverFd))
    (srv : AbstractSocketServer) : X _ (runLoop srv epollfd serverFd) := by
  apply hX.loop
  intro srv
  rw [turn]
  split
  · apply hX.call (hWait epollfd _)
    intro r
    exact hX.bind (p := handleEvent srv epollfd (reported r) serverFd) (hEvents srv _)
      fun _ => hX.ret _
  · exact hX.ret _

theorem epoll_parts (hCreate : ∀ size, φ (.epollCreate size))
    (hAdd : ∀ epollfd fd events, φ (.epollCtlAdd epollfd fd events)) (hClose : ∀ fd, φ (.close fd))
    (serverFd : Fd) (hLoop : ∀ srv epollfd, X _ (runLoop srv epollfd serverFd))
    (srv : AbstractSocketServer) : X _ (processClientConnect srv serverFd) := by
  refine hX.call (hCreate _) fun r => hX.call (hAdd _ _ _) fun _ => ?_
  apply hX.bind (hLoop srv _)
  intro srv'
  cases r.toOption with
  | none => exact hX.ret _
  | some ep => exact hX.call (hClose ep) fun _ => hX.ret _

end AndroidDemo.Socket
