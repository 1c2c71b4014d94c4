import AndroidDemo.Interaction.Program
import Mathlib.Algebra.Group.Nat.Defs
import Mathlib.Data.Finset.Basic
import Mathlib.Logic.Function.Basic

/-! # The kernel as the socket servers see it

The system calls of the native servers, their answers, and the part of the
kernel they act on: the descriptor table of the process, the interest list of
the epoll instance and the accepted connections. An answer the kernel cannot
give in a state has no successor state; which of the remaining ones it gives is
left open. Other threads of the process may open and close descriptors of their
own between any two calls.
-/

namespace AndroidDemo.Socket

open Interaction

abbrev Fd := Nat

/-- Connections are numbered in the order in which they are accepted. -/
abbrev ConnId := Nat

abbrev FdSet := Finset Fd

/-- The library is built for `armeabi` and `x86`, where `size_t` has 32 bits. -/
abbrev SizeT := BitVec 32

def FD_SETSIZE : Nat := 1024

def EPOLLIN : BitVec 32 := 0x001
def EPOLLERR : BitVec 32 := 0x008
def EPOLLHUP : BitVec 32 := 0x010
def EPOLLONESHOT : BitVec 32 := 0x40000000

/-- The constant `EPOLLEVENTS` of EPollSocketServer.cpp. -/
def EPOLLEVENTS : Nat := 1024

inductive Errno
  | EINTR
  | other (code : Nat)
  deriving DecidableEq

structure SockAddrIn where
  /-- `none` stands for `INADDR_ANY`. -/
  sin_addr : Option String
  sin_port : BitVec 16
  deriving DecidableEq

structure EpollEvent where
  fd : Fd
  events : BitVec 32
  deriving DecidableEq

/-- A descriptor argument is `none` where the program passes `-1`. -/
inductive Syscall
  | socket
  | setsockopt (fd : Fd)
  | bind (fd : Fd) (addr : SockAddrIn)
  | listen (fd : Fd) (backlog : Nat)
  | accept (fd : Fd)
  | select (nfds : Nat) (readFds : FdSet)
  | epollCreate (size : Nat)
  | epollCtlAdd (epollfd : Option Fd) (fd : Fd) (events : BitVec 32)
  | epollCtlDel (epollfd : Option Fd) (fd : Fd) (events : BitVec 32)
  | epollWait (epollfd : Option Fd) (maxEvents : Nat)
  | read (fd : Fd) (count : SizeT)
  | write (fd : Fd) (buf : List UInt8)
  | close (fd : Fd)
  | malloc (size : SizeT)
  deriving DecidableEq

/-- The answer `-1` with `errno` is `error`. A `read` answers with the bytes it
stored, `write` with the number it accepted, `malloc` whether it found memory. -/
@[reducible] def Reply : Syscall → Type
  | .socket => Except Errno Fd
  | .setsockopt _ => Except Errno Unit
  | .bind _ _ => Except Errno Unit
  | .listen _ _ => Except Errno Unit
  | .accept _ => Except Errno Fd
  | .select _ _ => Except Errno FdSet
  | .epollCreate _ => Except Errno Fd
  | .epollCtlAdd _ _ _ => Except Errno Unit
  | .epollCtlDel _ _ _ => Except Errno Unit
  | .epollWait _ _ => Except Errno (List EpollEvent)
  | .read _ _ => Except Errno (List UInt8)
  | .write _ _ => Except Errno Nat
  | .close _ => Except Errno Unit
  | .malloc _ => Bool

/-- Who an open descriptor of the process belongs to. -/
inductive Owner
  | listener
  | epoll
  | client (c : ConnId)
  | foreign
  deriving DecidableEq

structure Interest where
  events : BitVec 32
  armed : Bool
  deriving DecidableEq

/-- A connection: what its peer sent and nobody read yet, what `write` accepted
for it, and whether the server has closed it. -/
structure Conn where
  input : List UInt8
  output : List UInt8
  closed : Bool
  deriving DecidableEq

structure Kernel where
  table : Fd → Option Owner
  interest : Fd → Option Interest
  conns : ConnId → Conn
  nextConn : ConnId

namespace Kernel

def install (k : Kernel) (fd : Fd) (o : Owner) : Kernel :=
  { k with table := Function.update k.table fd (some o) }

/-- Closing a descriptor drops its registration. -/
def release (k : Kernel) (fd : Fd) : Kernel :=
  { k with
    table := Function.update k.table fd none
    interest := Function.update k.interest fd none }

def updateConn (k : Kernel) (c : ConnId) (f : Conn → Conn) : Kernel :=
  { k with conns := Function.update k.conns c (f (k.conns c)) }

def register (k : Kernel) (fd : Fd) (i : Interest) : Kernel :=
  { k with interest := Function.update k.interest fd (some i) }

def unregister (k : Kernel) (fd : Fd) : Kernel :=
  { k with interest := Function.update k.interest fd none }

def isEpoll (k : Kernel) : Option Fd → Bool
  | some ep => k.table ep = some .epoll
  | none => false

/-- The masks that may be reported for a registration: what was asked for,
`EPOLLERR` and `EPOLLHUP`. -/
def reportable (i : Interest) : BitVec 32 := i.events &&& ~~~EPOLLONESHOT ||| EPOLLERR ||| EPOLLHUP

def ready (k : Kernel) (ev : EpollEvent) : Bool :=
  match k.interest ev.fd with
  | some i => i.armed && ev.events != 0 && ev.events &&& ~~~reportable i == 0
  | none => false

/-- A one-shot registration is disarmed by the event it reports. -/
def report (k : Kernel) (ev : EpollEvent) : Kernel :=
  match k.interest ev.fd with
  | some i =>
    if i.events &&& EPOLLONESHOT = 0 then k else k.register ev.fd { i with armed := false }
  | none => k

def closeFd (k : Kernel) (fd : Fd) : Kernel :=
  match k.table fd with
  | some (.client c) => (k.release fd).updateConn c fun conn => { conn with closed := true }
  | _ => k.release fd

def readFd (k : Kernel) (fd : Fd) (bytes : List UInt8) : Option Kernel :=
  match k.table fd with
  | some (.client c) =>
    if bytes <+: (k.conns c).input then
      some (k.updateConn c fun conn => { conn with input := conn.input.drop bytes.length })
    else none
  | some .foreign => some k
  | _ => none

def writeFd (k : Kernel) (fd : Fd) (bytes : List UInt8) : Option Kernel :=
  match k.table fd with
  | some (.client c) =>
    some (k.updateConn c fun conn => { conn with output := conn.output ++ bytes })
  | some .foreign => some k
  | _ => none

/-- The state after an answer, or `none` where the kernel cannot give it. A
failing call has no effect, except that `close` frees its descriptor anyway. -/
def answer (k : Kernel) : (e : Syscall) → Reply e → Option Kernel
  | .socket, .ok fd => if k.table fd = none then some (k.install fd .listener) else none
  | .socket, .error _ => some k
  | .setsockopt _, _ => some k
  | .bind _ _, _ => some k
  | .listen _ _, _ => some k
  | .accept serverFd, .ok fd =>
    if k.table serverFd = some .listener ∧ k.table fd = none then
      some { k.install fd (.client k.nextConn) with nextConn := k.nextConn + 1 }
    else none
  | .accept _, .error _ => some k
  | .select nfds readFds, .ok ready =>
    if ready ⊆ readFds ∧ ∀ fd ∈ ready, fd < nfds then some k else none
  | .select _ _, .error _ => some k
  | .epollCreate _, .ok fd =>
    if k.table fd = none then some { k.install fd .epoll with interest := fun _ => none } else none
  | .epollCreate _, .error _ => some k
  | .epollCtlAdd epollfd fd events, .ok _ =>
    if k.isEpoll epollfd = true ∧ k.table fd ≠ none ∧ k.interest fd = none then
      some (k.register fd ⟨events, true⟩)
    else none
  | .epollCtlAdd _ _ _, .error _ => some k
  | .epollCtlDel epollfd fd _, .ok _ =>
    if k.isEpoll epollfd = true ∧ k.interest fd ≠ none then some (k.unregister fd) else none
  | .epollCtlDel _ _ _, .error _ => some k
  | .epollWait epollfd maxEvents, .ok events =>
    if k.isEpoll epollfd = true ∧ events.length ≤ maxEvents ∧ (events.map EpollEvent.fd).Nodup ∧
        ∀ ev ∈ events, k.ready ev = true then
      some (events.foldl report k)
    else none
  | .epollWait _ _, .error _ => some k
  | .read fd count, .ok bytes =>
    if bytes.length ≤ count.toNat ∧ bytes.length < 2 ^ 31 then k.readFd fd bytes else none
  | .read _ _, .error _ => some k
  | .write fd buf, .ok n => if n ≤ buf.length then k.writeFd fd (buf.take n) else none
  | .write _ _, .error _ => some k
  | .close fd, .ok _ => if k.table fd = none then none else some (k.closeFd fd)
  | .close fd, .error _ => some (k.closeFd fd)
  | .malloc _, _ => some k

inductive Move
  | openFd (fd : Fd)
  | closeFd (fd : Fd)
  deriving DecidableEq

def interfere (k : Kernel) : Move → Option Kernel
  | .openFd fd => if k.table fd = none then some (k.install fd .foreign) else none
  | .closeFd fd => if k.table fd = some .foreign then some (k.release fd) else none

/-- The kernel as the environment of a server. `threads` tells whether other
threads of the process move, `admits` which answers a result takes into account. -/
def environment (threads : Bool) (admits : Kernel → (e : Syscall) → Reply e → Prop) :
    Environment Syscall Reply Kernel Move where
  answer := answer
  admits := admits
  interfere k m := if threads then k.interfere m else none

instance (threads : Bool) (admits : Kernel → (e : Syscall) → Reply e → Prop)
    [∀ k e r, Decidable (admits k e r)] (k : Kernel) (e : Syscall) (r : Reply e) :
    Decidable ((environment threads admits).admits k e r) :=
  inferInstanceAs (Decidable (admits k e r))

/-! ## What an answer tells -/

section Answers

variable {k k' : Kernel} {serverFd fd : Fd} {epollfd : Option Fd} {events : BitVec 32}

theorem answer_accept (h : k.answer (.accept serverFd) (.ok fd) = some k') :
    k.table fd = none ∧
      k' = { k.install fd (.client k.nextConn) with nextConn := k.nextConn + 1 } := by
  simp only [answer, Option.ite_none_right_eq_some, Option.some.injEq] at h
  exact ⟨h.1.2, h.2.symm⟩

theorem answer_epollCreate {size : Nat} (h : k.answer (.epollCreate size) (.ok fd) = some k') :
    k.table fd = none ∧ k' = { k.install fd .epoll with interest := fun _ => none } := by
  simp only [answer, Option.ite_none_right_eq_some, Option.some.injEq] at h
  exact ⟨h.1, h.2.symm⟩

theorem answer_epollCtlAdd (h : k.answer (.epollCtlAdd epollfd fd events) (.ok ()) = some k') :
    (k.isEpoll epollfd = true ∧ k.table fd ≠ none ∧ k.interest fd = none) ∧
      k' = k.register fd ⟨events, true⟩ := by
  simp only [answer, Option.ite_none_right_eq_some, Option.some.injEq] at h
  exact ⟨h.1, h.2.symm⟩

theorem answer_epollCtlDel (h : k.answer (.epollCtlDel epollfd fd events) (.ok ()) = some k') :
    (k.isEpoll epollfd = true ∧ k.interest fd ≠ none) ∧ k' = k.unregister fd := by
  simp only [answer, Option.ite_none_right_eq_some, Option.some.injEq] at h
  exact ⟨h.1, h.2.symm⟩

theorem answer_epollWait {maxEvents : Nat} {batch : List EpollEvent}
    (h : k.answer (.epollWait epollfd maxEvents) (.ok batch) = some k') :
    (k.isEpoll epollfd = true ∧ batch.length ≤ maxEvents ∧ (batch.map EpollEvent.fd).Nodup ∧
      ∀ ev ∈ batch, k.ready ev = true) ∧ k' = batch.foldl report k := by
  simp only [answer, Option.ite_none_right_eq_some, Option.some.injEq] at h
  exact ⟨h.1, h.2.symm⟩

end Answers

end Kernel

end AndroidDemo.Socket
