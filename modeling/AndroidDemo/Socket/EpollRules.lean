import AndroidDemo.Socket.EPollSocketServer
import AndroidDemo.Socket.Frame

/-! # A rule for the loop of the epoll server

The invariant of this loop has three parts beside the kernel: the client list,
the reported events that are not handled yet, and, inside `handleAccept`, the
descriptors that are still to be registered.
-/

namespace AndroidDemo.Socket

open Interaction Program Kernel EPollSocketServer

/-- What the handling of a batch of events asks of an invariant. -/
structure EventRules (threads : Bool) (admits : Kernel → (e : Syscall) → Reply e → Prop)
    (G : Point Syscall Mark → Kernel → Prop) (serverFd : Fd) (epollfd : Option Fd)
    (J : List Fd → List EpollEvent → List Fd → Kernel → Prop) : Prop where
  moves : ∀ fds batch todo k k', J fds batch todo k →
    (environment threads admits).Interferes k k' → J fds batch todo k'
  accept : ∀ (srv : AbstractSocketServer) ev rest k, J srv.mClientFds (ev :: rest) [] k →
    ev.fd = serverFd →
    Safe (environment threads admits) G
      (fun srv' k' => srv'.mRunning = srv.mRunning ∧ J srv'.mClientFds rest srv'.mClientFds k')
      (acceptClient srv serverFd) k
  add : ∀ fds batch fd todo k, J fds batch (fd :: todo) k →
    G (.call (.epollCtlAdd epollfd fd (EPOLLIN ||| EPOLLONESHOT))) k
  added : ∀ fds batch fd todo k r k', J fds batch (fd :: todo) k →
    admits k (.epollCtlAdd epollfd fd (EPOLLIN ||| EPOLLONESHOT)) r →
    k.answer (.epollCtlAdd epollfd fd (EPOLLIN ||| EPOLLONESHOT)) r = some k' → J fds batch todo k'
  receive : ∀ fds ev rest k, J fds (ev :: rest) [] k → ev.fd ≠ serverFd →
    Total (environment threads admits) G (fun _ k' => J fds rest [] k')
      (receiveClientMsg epollfd ev.fd) k
  skip : ∀ fds ev rest k, J fds (ev :: rest) [] k → ev.events &&& EPOLLIN = 0 → J fds rest [] k

structure EpollRules (threads : Bool) (admits : Kernel → (e : Syscall) → Reply e → Prop)
    (G : Point Syscall Mark → Kernel → Prop) (serverFd : Fd) (epollfd : Option Fd)
    (J : List Fd → List EpollEvent → List Fd → Kernel → Prop) : Prop
    extends EventRules threads admits G serverFd epollfd J where
  head : ∀ fds k, J fds [] [] k → G (.loop (.whileRunning fds)) k
  wait : ∀ fds k, J fds [] [] k → G (.call (.epollWait epollfd EPOLLEVENTS)) k
  waited : ∀ fds k r k', J fds [] [] k → admits k (.epollWait epollfd EPOLLEVENTS) r →
    k.answer (.epollWait epollfd EPOLLEVENTS) r = some k' → J fds (reported r) [] k'

namespace EventRules

variable {threads : Bool} {admits : Kernel → (e : Syscall) → Reply e → Prop}
  {G : Point Syscall Mark → Kernel → Prop} {serverFd : Fd} {epollfd : Option Fd}
  {J : List Fd → List EpollEvent → List Fd → Kernel → Prop}

theorem addEvents_total (rules : EventRules threads admits G serverFd epollfd J) {fds todo : List Fd}
    {batch : List EpollEvent} {k : Kernel} (h : J fds batch todo k) :
    Total (environment threads admits) G (fun _ k' => J fds batch [] k')
      (addEvents epollfd todo) k := by
  induction todo generalizing k with
  | nil => exact .ret h
  | cons fd todo ih =>
    refine .call (fun k₁ hMoves => rules.add _ _ _ _ _ (rules.moves _ _ _ _ _ h hMoves)) ?_
    intro k₁ r k₂ hMoves hAdmits hAnswer
    exact ih (rules.added _ _ _ _ _ _ _ (rules.moves _ _ _ _ _ h hMoves) hAdmits hAnswer)

theorem handleEvent_safe (rules : EventRules threads admits G serverFd epollfd J)
    {srv : AbstractSocketServer} {events : List EpollEvent} {k : Kernel}
    (h : J srv.mClientFds events [] k) :
    Safe (environment threads admits) G
      (fun srv' k' => srv'.mRunning = srv.mRunning ∧ J srv'.mClientFds [] [] k')
      (handleEvent srv epollfd events serverFd) k := by
  induction events generalizing srv k with
  | nil => exact .ret ⟨rfl, h⟩
  | cons ev rest ih =>
    rw [handleEvent]
    split
    · rename_i hServer
      refine ((rules.accept srv ev rest k h hServer.1).bind
        (S := fun srv' k' => srv'.mRunning = srv.mRunning ∧ J srv'.mClientFds rest [] k') ?_).bind ?_
      · rintro srv' k' ⟨hRunning, hk'⟩
        exact (rules.addEvents_total hk').safe.bind fun _ _ hk => .ret ⟨hRunning, hk⟩
      · rintro srv' k' ⟨hRunning, hk'⟩
        exact (ih hk').mono (fun _ _ h => h) fun _ _ h => ⟨h.1.trans hRunning, h.2⟩
    · rename_i hOther
      split
      · rename_i hIn
        exact (rules.receive _ ev rest k h fun hfd => hOther ⟨hfd, hIn⟩).safe.bind fun _ _ hk => ih hk
      · rename_i hIn
        exact ih (rules.skip _ ev rest k h (not_not.mp hIn))

end EventRules

namespace EpollRules

variable {threads : Bool} {admits : Kernel → (e : Syscall) → Reply e → Prop}
  {G : Point Syscall Mark → Kernel → Prop} {serverFd : Fd} {epollfd : Option Fd}
  {J : List Fd → List EpollEvent → List Fd → Kernel → Prop}

theorem runLoop_safe (rules : EpollRules threads admits G serverFd epollfd J)
    {srv : AbstractSocketServer} {k : Kernel} (hRunning : srv.mRunning = true)
    (h : J srv.mClientFds [] [] k) :
    Safe (environment threads admits) G (fun _ _ => False) (runLoop srv epollfd serverFd) k := by
  refine Safe.loop (I := fun srv k => srv.mRunning = true ∧ J srv.mClientFds [] [] k)
    ⟨hRunning, h⟩ ?_
  rintro srv k ⟨hRunning, h⟩
  refine ⟨rules.head _ _ h, ?_⟩
  rw [turn, if_pos hRunning]
  refine .call (fun k₁ hMoves => rules.wait _ _ (rules.moves _ _ _ _ _ h hMoves)) ?_
  intro k₁ r k₂ hMoves hAdmits hAnswer
  have h₂ := rules.waited _ _ r _ (rules.moves _ _ _ _ _ h hMoves) hAdmits hAnswer
  exact (rules.handleEvent_safe h₂).bind fun _ _ hk => .ret ⟨hk.1.trans hRunning, hk.2⟩

end EpollRules

theorem epoll_safe {threads : Bool} {admits : Kernel → (e : Syscall) → Reply e → Prop}
    {G : Point Syscall Mark → Kernel → Prop} {serverFd : Fd}
    {J : Option Fd → List Fd → List EpollEvent → List Fd → Kernel → Prop}
    (srv : AbstractSocketServer) {k : Kernel} (hRunning : srv.mRunning = true)
    (rules : ∀ epollfd, EpollRules threads admits G serverFd epollfd (J epollfd))
    (hCreate : ∀ k₁, (environment threads admits).Interferes k k₁ →
      G (.call (.epollCreate EPOLLEVENTS)) k₁ ∧ ∀ r k₂, admits k₁ (.epollCreate EPOLLEVENTS) r →
        k₁.answer (.epollCreate EPOLLEVENTS) r = some k₂ → J r.toOption srv.mClientFds [] [] k₂)
    (hAdd : ∀ epollfd k₁, J epollfd srv.mClientFds [] [] k₁ →
      G (.call (.epollCtlAdd epollfd serverFd EPOLLIN)) k₁ ∧
        ∀ r k₂, admits k₁ (.epollCtlAdd epollfd serverFd EPOLLIN) r →
          k₁.answer (.epollCtlAdd epollfd serverFd EPOLLIN) r = some k₂ →
          J epollfd srv.mClientFds [] [] k₂) :
    Safe (environment threads admits) G (fun _ _ => False) (processClientConnect srv serverFd) k := by
  refine .call (fun k₁ hMoves => (hCreate k₁ hMoves).1) ?_
  intro k₁ r₁ k₂ hMoves hAdmits hAnswer
  have h₂ := (hCreate k₁ hMoves).2 r₁ k₂ hAdmits hAnswer
  refine .call (fun k₃ hMoves => (hAdd _ k₃ ((rules _).moves _ _ _ _ _ h₂ hMoves)).1) ?_
  intro k₃ r₃ k₄ hMoves hAdmits hAnswer
  have h₃ := (rules _).moves _ _ _ _ _ h₂ hMoves
  exact ((rules _).runLoop_safe hRunning ((hAdd _ k₃ h₃).2 r₃ k₄ hAdmits hAnswer)).bind
    fun _ _ hk => hk.elim

end AndroidDemo.Socket
