import AndroidDemo.Socket.AbstractSocketServer

/-! # SelectSocketServer.cpp -/

namespace AndroidDemo.Socket

open Interaction Program

structure SelectSocketServer extends AbstractSocketServer where
  mAllFds : FdSet
  mMaxFd : Nat
  deriving DecidableEq

def SelectSocketServer.new (ip : Option String) (port : BitVec 32) : SelectSocketServer where
  toAbstractSocketServer := .new ip port
  mAllFds := ∅
  mMaxFd := 0

def FD_ZERO : FdSet := ∅

def FD_SET (fd : Fd) (set : FdSet) : Server FdSet :=
  if fd < FD_SETSIZE then return insert fd set else .undefined (.fdSetIndex fd)

def FD_ISSET (fd : Fd) (set : FdSet) : Server Bool :=
  if fd < FD_SETSIZE then return decide (fd ∈ set) else .undefined (.fdSetIndex fd)

def FD_CLR (fd : Fd) (set : FdSet) : Server FdSet :=
  if fd < FD_SETSIZE then return set.erase fd else .undefined (.fdSetIndex fd)

namespace SelectSocketServer

/-- The `for` loop over `mClientFds` that fills the set and finds the maximum. -/
def collectFds : List Fd → FdSet → Nat → Server (FdSet × Nat)
  | [], readFds, mMaxFd => return (readFds, mMaxFd)
  | clientFD :: rest, readFds, mMaxFd => do
    let readFds ← FD_SET clientFD readFds
    collectFds rest readFds (max clientFD mMaxFd)

/-- The `for` loop of `receiveClientMsg`. The iterator stands between the clients
that were passed, `before`, and those that were not, `rest`; `erase` leaves it
there. -/
def receiveClients (srv : SelectSocketServer) (before rest : List Fd) (readFds : FdSet) :
    Server SelectSocketServer :=
  match rest with
  | [] => return { srv with mClientFds := before, mAllFds := readFds }
  | clientFD :: rest => do
    if ← FD_ISSET clientFD readFds then
      echoFrame clientFD
      let readFds ← FD_CLR clientFD readFds
      let _ ← sys (.close clientFD)
      receiveClients srv before rest readFds
    else
      receiveClients srv (before ++ [clientFD]) rest readFds

def receiveClientMsg (srv : SelectSocketServer) (readFds : FdSet) : Server SelectSocketServer :=
  receiveClients srv [] srv.mClientFds readFds

/-- The end of the loop body, behind a successful `select`. -/
def dispatch (srv : SelectSocketServer) (serverFd : Fd) (readFds : FdSet) :
    Server SelectSocketServer := do
  let srv := { srv with mAllFds := readFds }
  if ← FD_ISSET serverFd readFds then
    let base ← acceptClient srv.toAbstractSocketServer serverFd
    return { srv with toAbstractSocketServer := base }
  else
    receiveClientMsg srv readFds

/-- The body of `while (mRunning)`; the right side leaves `processClientConnect`. -/
def turn (srv : SelectSocketServer) (serverFd : Fd) :
    Server (SelectSocketServer ⊕ SelectSocketServer) :=
  if srv.mRunning then do
    let readFds ← FD_SET serverFd FD_ZERO
    let (readFds, mMaxFd) ← collectFds srv.mClientFds readFds serverFd
    let srv := { srv with mAllFds := readFds, mMaxFd := mMaxFd }
    match ← sys (.select (mMaxFd + 1) readFds) with
    | .error _ => return .inr srv
    | .ok readFds =>
      let srv ← srv.dispatch serverFd readFds
      return .inl srv
  else
    return .inr srv

def processClientConnect (srv : SelectSocketServer) (serverFd : Fd) : Server SelectSocketServer :=
  loop (fun srv => .whileRunning srv.mClientFds) (fun srv => srv.turn serverFd) srv

end SelectSocketServer

end AndroidDemo.Socket
