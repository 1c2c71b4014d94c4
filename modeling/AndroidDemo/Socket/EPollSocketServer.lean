import AndroidDemo.Socket.AbstractSocketServer

/-! # EPollSocketServer.cpp

The class adds no fields. `epoll_create` may fail and is not checked, so the
epoll descriptor is `none` where the source goes on with `-1`.
-/

namespace AndroidDemo.Socket.EPollSocketServer

open Interaction Program

def addEvent (epollfd : Option Fd) (fd : Fd) (state : BitVec 32) : Server Unit := do
  let _ ← sys (.epollCtlAdd epollfd fd state)

def deleteEvent (epollfd : Option Fd) (fd : Fd) (state : BitVec 32) : Server Unit := do
  let _ ← sys (.epollCtlDel epollfd fd state)

/-- The loop of `handleAccept` over `mClientFds`. -/
def addEvents (epollfd : Option Fd) : List Fd → Server Unit
  | [] => return ()
  | fd :: rest => do
    addEvent epollfd fd (EPOLLIN ||| EPOLLONESHOT)
    addEvents epollfd rest

def handleAccept (srv : AbstractSocketServer) (epollfd : Option Fd) (serverFD : Fd) :
    Server AbstractSocketServer := do
  let srv ← acceptClient srv serverFD
  addEvents epollfd srv.mClientFds
  return srv

def receiveClientMsg (epollfd : Option Fd) (clientFD : Fd) : Server Unit := do
  echoFrame clientFD
  let _ ← sys (.close clientFD)
  deleteEvent epollfd clientFD EPOLLIN

def handleEvent (srv : AbstractSocketServer) (epollfd : Option Fd) (events : List EpollEvent)
    (serverFd : Fd) : Server AbstractSocketServer :=
  match events with
  | [] => return srv
  | ev :: rest => do
    if ev.fd = serverFd ∧ ev.events &&& EPOLLIN ≠ 0 then
      let srv ← handleAccept srv epollfd serverFd
      handleEvent srv epollfd rest serverFd
    else if ev.events &&& EPOLLIN ≠ 0 then
      receiveClientMsg epollfd ev.fd
      handleEvent srv epollfd rest serverFd
    else
      -- The branch for `EPOLLOUT` has an empty body, and there is no other one.
      handleEvent srv epollfd rest serverFd

/-- The events of one `epoll_wait`. A failed wait returns `-1`, and the loop of
`handleEvent` over `-1` events does nothing. -/
def reported : Except Errno (List EpollEvent) → List EpollEvent
  | .ok events => events
  | .error _ => []

def turn (epollfd : Option Fd) (serverFD : Fd) (srv : AbstractSocketServer) :
    Server (AbstractSocketServer ⊕ AbstractSocketServer) :=
  if srv.mRunning then do
    let result ← sys (.epollWait epollfd EPOLLEVENTS)
    let srv ← handleEvent srv epollfd (reported result) serverFD
    return .inl srv
  else
    return .inr srv

def runLoop (srv : AbstractSocketServer) (epollfd : Option Fd) (serverFD : Fd) :
    Server AbstractSocketServer :=
  loop (fun srv => .whileRunning srv.mClientFds) (turn epollfd serverFD) srv

/-- `close(epollfd)` on `-1` fails with `EBADF` and has no effect. -/
def closeEpoll : Option Fd → Server Unit
  | some epollfd => do
    let _ ← sys (.close epollfd)
  | none => return ()

def processClientConnect (srv : AbstractSocketServer) (serverFD : Fd) :
    Server AbstractSocketServer := do
  let epollfd := (← sys (.epollCreate EPOLLEVENTS)).toOption
  addEvent epollfd serverFD EPOLLIN
  let srv ← runLoop srv epollfd serverFD
  closeEpoll epollfd
  return srv

end AndroidDemo.Socket.EPollSocketServer
