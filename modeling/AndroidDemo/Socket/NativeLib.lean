import AndroidDemo.Socket.EPollSocketServer
import AndroidDemo.Socket.SelectSocketServer

/-! # The servers native-lib.cpp starts

Each native call makes a new server object and runs its `startServer`.
-/

namespace AndroidDemo.Socket

open Interaction Program

inductive ServerKind
  | select
  | epoll
  deriving DecidableEq

/-- The virtual `processClientConnect`, called on a new server object. -/
def ServerKind.processClientConnect (kind : ServerKind) (ip : Option String) (port : BitVec 32)
    (serverFd : Fd) : Server Unit :=
  match kind with
  | .select => do let _ ← (SelectSocketServer.new ip port).processClientConnect serverFd
  | .epoll => do let _ ← EPollSocketServer.processClientConnect (.new ip port) serverFd

/-- `receiveClientMsg` when `clientFD` is the client that is ready. -/
def ServerKind.receiveClientMsg (kind : ServerKind) (ip : Option String) (port : BitVec 32)
    (epollfd : Option Fd) (clientFD : Fd) : Server Unit :=
  match kind with
  | .select => do
    let srv := { SelectSocketServer.new ip port with mClientFds := [clientFD] }
    let _ ← srv.receiveClientMsg {clientFD}
  | .epoll => EPollSocketServer.receiveClientMsg epollfd clientFD

def ServerKind.startServer (kind : ServerKind) (ip : Option String) (port : BitVec 32) :
    Server Bool :=
  AndroidDemo.Socket.startServer (.new ip port) (kind.processClientConnect ip port)

/-- `startSelectServerNative` and `startEPollServerNative`, which ignore the result. -/
def ServerKind.startServerNative (kind : ServerKind) (ip : Option String) (port : BitVec 32) :
    Server Bool := do
  let _ ← kind.startServer ip port
  return true

end AndroidDemo.Socket
