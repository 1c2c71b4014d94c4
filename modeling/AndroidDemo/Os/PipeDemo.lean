import AndroidDemo.Interaction.Calls
import AndroidDemo.Interaction.Replay
import AndroidDemo.Socket.Kernel

/-! # PipeDemo.java

`readFromChildPipe` of native-lib.cpp, which forks a child and reads what it
writes to a pipe. Of the log only the text that was read is kept: it is the format
of `LOGE`. The other texts, and the strings made for them, have no effect.
-/

namespace AndroidDemo.Os

open AndroidDemo.Socket Interaction Program

namespace PipeDemo

inductive PipeCall
  | pipe
  | fork
  | read (fd : Fd) (count : Nat)
  | write (fd : Fd) (buf : List UInt8)
  | close (fd : Fd)
  | waitpid (pid : Int)
  | log (format : List UInt8)
  | exit (status : Nat)
  deriving DecidableEq

/-- `fork` answers `0` in the child. Nothing comes back from `exit`. That the log returns, and
returns nothing, is known only of a format that asks for no argument. -/
@[reducible] def Reply : PipeCall → Type
  | .pipe => Except Errno (Fd × Fd)
  | .fork => Except Errno Nat
  | .read _ _ => Except Errno (List UInt8)
  | .write _ _ => Except Errno Nat
  | .close _ => Except Errno Unit
  | .waitpid _ => Except Errno Nat
  | .log _ => Unit
  | .exit _ => Empty

/-- The head of the loop shows `buff`. -/
abbrev Native := Program PipeCall Reply (List UInt8)

abbrev sys (c : PipeCall) : Native (Reply c) := perform c

/-- `fork` returns `-1` when it fails. -/
def pidOf : Except Errno Nat → Int
  | .ok pid => pid
  | .error _ => -1

/-- What `NewStringUTF` and `LOGE` see of a buffer. -/
def cString (buff : List UInt8) : List UInt8 := buff.takeWhile (· ≠ 0)

def readTurn (fd : Fd) (buff : List UInt8) : Native (List UInt8 ⊕ List UInt8) := do
  match ← sys (.read fd 4) with
  | .ok (b :: bytes) =>
    let buff := b :: bytes ++ buff.drop (bytes.length + 1)
    let _ ← sys (.log (cString buff))
    return .inl buff
  | .ok [] => return .inr buff
  | .error _ => return .inr buff

def childBranch (pipe_fd : Fd × Fd) : Native (List UInt8) := do
  let _ ← sys (.close pipe_fd.1)
  let _ ← sys (.write pipe_fd.2 [80, 73, 80, 69])
  let _ ← sys (.close pipe_fd.2)
  let never ← sys (.exit 0)
  nomatch never

def parentBranch (pipe_fd : Fd × Fd) (childPid : Int) : Native (List UInt8) := do
  let _ ← sys (.close pipe_fd.2)
  let buff ← loop id (readTurn pipe_fd.1) (List.replicate 5 0)
  let _ ← sys (.close pipe_fd.1)
  let _ ← sys (.waitpid childPid)
  return cString buff

/-- A failed `fork` closes both ends and goes on with the branch of the parent. -/
def afterFork (pipe_fd : Fd × Fd) (childPid : Int) : Native (List UInt8) := do
  if childPid = -1 then
    let _ ← sys (.close pipe_fd.1)
    let _ ← sys (.close pipe_fd.2)
  if childPid = 0 then childBranch pipe_fd else parentBranch pipe_fd childPid

def readFromChildPipe : Native (List UInt8) := do
  match ← sys .pipe with
  | .error _ => return "create pipe error".toUTF8.data.toList
  | .ok pipe_fd =>
    let childPid ← sys .fork
    afterFork pipe_fd (pidOf childPid)

/-! ## The process -/

inductive PipeOwner
  | pipe
  | foreign
  deriving DecidableEq

/-- The descriptors of the process and its children. -/
structure Process where
  table : Fd → Option PipeOwner
  children : List Nat

namespace Process

def install (p : Process) (fd : Fd) (o : PipeOwner) : Process :=
  { p with table := Function.update p.table fd (some o) }

def release (p : Process) (fd : Fd) : Process :=
  { p with table := Function.update p.table fd none }

/-- The state after an answer, or `none` where the kernel cannot give it. -/
def answer (p : Process) : (c : PipeCall) → Reply c → Option Process
  | .pipe, .ok (readFd, writeFd) =>
    if p.table readFd = none ∧ p.table writeFd = none ∧ readFd ≠ writeFd then
      some ((p.install readFd .pipe).install writeFd .pipe)
    else none
  | .pipe, .error _ => some p
  | .fork, .ok pid =>
    if pid = 0 then some { p with children := [] }
    else if pid ∈ p.children then none else some { p with children := pid :: p.children }
  | .fork, .error _ => some p
  | .read fd count, .ok bytes => if p.table fd ≠ none ∧ bytes.length ≤ count then some p else none
  | .read _ _, .error _ => some p
  | .write fd buf, .ok n => if p.table fd ≠ none ∧ n ≤ buf.length then some p else none
  | .write _ _, .error _ => some p
  | .close fd, .ok _ => if p.table fd = none then none else some (p.release fd)
  | .close fd, .error _ => some (p.release fd)
  | .waitpid pid, .ok child =>
    if child ∈ p.children ∧ (pid = -1 ∨ pid = child) then
      some { p with children := p.children.erase child }
    else none
  | .waitpid _, .error _ => some p
  | .log _, _ => some p
  | .exit _, never => nomatch never

/-- What the other threads of the process do. -/
inductive Move
  | openFd (fd : Fd)
  | closeFd (fd : Fd)
  | fork (pid : Nat)
  | reap (pid : Nat)

def interfere (p : Process) : Move → Option Process
  | .openFd fd => if p.table fd = none then some (p.install fd .foreign) else none
  | .closeFd fd => if p.table fd = some .foreign then some (p.release fd) else none
  | .fork pid =>
    if pid = 0 ∨ pid ∈ p.children then none else some { p with children := pid :: p.children }
  | .reap pid =>
    if pid ∈ p.children then some { p with children := p.children.erase pid } else none

def environment (threads : Bool) (admits : Process → (c : PipeCall) → Reply c → Prop) :
    Environment PipeCall Reply Process Move where
  answer := answer
  admits := admits
  interfere p m := if threads then p.interfere m else none

instance (threads : Bool) (admits : Process → (c : PipeCall) → Reply c → Prop)
    [∀ p c r, Decidable (admits p c r)] (p : Process) (c : PipeCall) (r : Reply c) :
    Decidable ((environment threads admits).admits p c r) :=
  inferInstanceAs (Decidable (admits p c r))

end Process

end PipeDemo

end AndroidDemo.Os
