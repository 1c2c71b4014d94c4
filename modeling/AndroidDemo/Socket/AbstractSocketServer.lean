import AndroidDemo.Socket.Kernel
import AndroidDemo.Socket.Tool

/-! # AbstractSocketServer.cpp

The functions shared by the two servers, and the echo of one frame, which both
`receiveClientMsg` functions repeat word for word. Logging and the `sleep` of
`readn` have no effect on descriptors or data and are left out.
-/

namespace AndroidDemo.Socket

open Interaction Program

/-- The local variables of `readn`. `buf` holds what was stored so far; the
pointer of the source stands right behind it. -/
structure ReadnLocals where
  buf : List UInt8
  remainLen : SizeT
  retryCount : Nat
  deriving DecidableEq

inductive Mark
  | whileRunning (mClientFds : List Fd)
  | acceptRetry
  | readnLoop (locals : ReadnLocals)
  /-- `FD_SET`, `FD_ISSET` or `FD_CLR` with an index outside the set. -/
  | fdSetIndex (fd : Fd)
  /-- The signed addition `len + 1` overflows. -/
  | lenOverflow (len : BitVec 32)
  /-- The terminator is stored outside the allocated message. -/
  | msgTerminator (len : BitVec 32)
  deriving DecidableEq

abbrev Server := Program Syscall Reply Mark

abbrev sys (e : Syscall) : Server (Reply e) := perform e

structure AbstractSocketServer where
  mIp : Option String
  mPort : BitVec 32
  mRunning : Bool
  mClientFds : List Fd
  deriving DecidableEq

def AbstractSocketServer.new (ip : Option String) (port : BitVec 32) : AbstractSocketServer where
  mIp := ip
  mPort := port
  mRunning := true
  mClientFds := []

/-! ## readn -/

/-- What `readn` does with the result of one `read`: go on, or leave with the
stored bytes and the value returned. -/
def readnStep (st : ReadnLocals) : Except Errno (List UInt8) → ReadnLocals ⊕ (List UInt8 × Bool)
  | .ok bytes =>
    let retryCount := if bytes.length = 0 then st.retryCount + 1 else st.retryCount
    if bytes.length = 0 ∧ retryCount > 10 then
      .inr (st.buf, st.remainLen == 0)
    else
      .inl
        { buf := st.buf ++ bytes
          remainLen := st.remainLen - BitVec.ofNat 32 bytes.length
          retryCount := retryCount }
  | .error .EINTR => .inr (st.buf, st.remainLen == 0)
  | .error (.other _) => .inr (st.buf, false)

def readnTurn (socketFd : Fd) (st : ReadnLocals) : Server (ReadnLocals ⊕ (List UInt8 × Bool)) :=
  if st.remainLen > 0 then do
    let result ← sys (.read socketFd st.remainLen)
    return readnStep st result
  else
    return .inr (st.buf, st.remainLen == 0)

def readn (socketFd : Fd) (len : SizeT) : Server (List UInt8 × Bool) :=
  loop .readnLoop (readnTurn socketFd) { buf := [], remainLen := len, retryCount := 0 }

/-! ## The listening socket -/

/-- `-1` is `none`. The early returns leave the socket open. -/
def createServer (ip : Option String) (port : BitVec 32) : Server (Option Fd) := do
  match ← sys .socket with
  | .error _ => return none
  | .ok fd =>
    match ← sys (.setsockopt fd) with
    | .error _ => return none
    | .ok _ =>
      match ← sys (.bind fd { sin_addr := ip, sin_port := port.setWidth 16 }) with
      | .error _ => return none
      | .ok _ =>
        let _ ← sys (.listen fd 10)
        return some fd

def startServer (srv : AbstractSocketServer) (processClientConnect : Fd → Server Unit) :
    Server Bool := do
  match ← createServer srv.mIp srv.mPort with
  | none => return false
  | some serverFd =>
    processClientConnect serverFd
    let _ ← sys (.close serverFd)
    return false

/-- What `acceptClient` does with the result of one `accept`; the left side is
`goto ACCEPT`. -/
def acceptStep (srv : AbstractSocketServer) : Except Errno Fd → Unit ⊕ AbstractSocketServer
  | .error .EINTR => .inl ()
  | .error (.other _) => .inr srv
  | .ok clientFD => .inr { srv with mClientFds := srv.mClientFds ++ [clientFD] }

def acceptTurn (srv : AbstractSocketServer) (serverFd : Fd) :
    Server (Unit ⊕ AbstractSocketServer) := do
  let result ← sys (.accept serverFd)
  return acceptStep srv result

def acceptClient (srv : AbstractSocketServer) (serverFd : Fd) : Server AbstractSocketServer :=
  loop (fun _ => .acceptRetry) (fun _ => acceptTurn srv serverFd) ()

/-! ## The echo of one frame -/

/-- `malloc(len + 1)` and the store of the terminator behind the message. -/
def allocMsg (len : BitVec 32) : Server Unit :=
  if len.toInt + 1 ≥ 2 ^ 31 then
    .undefined (.lenOverflow len)
  else do
    let msg ← sys (.malloc (len + 1))
    if msg ∧ 0 ≤ len.toInt then return () else .undefined (.msgTerminator len)

/-- The part of `receiveClientMsg` before the connection is closed. -/
def echoFrame (clientFD : Fd) : Server Unit := do
  let (buf, complete) ← readn clientFD 4
  if complete then
    let _ ← sys (.write clientFD buf)
    let len := swapEndian 4 (loadInt 4 buf)
    allocMsg len
    let (msg, complete) ← readn clientFD len
    if complete then
      let _ ← sys (.write clientFD msg)

end AndroidDemo.Socket
