import AndroidDemo.Socket.Kernel

/-! # Which answers of the kernel a result takes into account -/

namespace AndroidDemo.Socket

namespace Kernel

def IsClient (k : Kernel) (fd : Fd) : Prop := ∃ c, k.table fd = some (.client c)

instance (k : Kernel) (fd : Fd) : Decidable (k.IsClient fd) :=
  match h : k.table fd with
  | some (.client c) => isTrue ⟨c, h⟩
  | none | some .listener | some .epoll | some .foreign => isFalse (by simp [IsClient, h])

def unread (k : Kernel) (fd : Fd) : List UInt8 :=
  match k.table fd with
  | some (.client c) => (k.conns c).input
  | _ => []

/-- A `read` of a client comes back empty at the end of its stream only and does
not fail, and `write` accepts everything. -/
def Uninterrupted (k : Kernel) : (e : Syscall) → Reply e → Prop
  | .read fd _, .ok bytes => bytes = [] → k.unread fd = []
  | .read fd _, .error _ => ¬ k.IsClient fd
  | .write fd buf, .ok n => k.IsClient fd → n = buf.length
  | .write fd _, .error _ => ¬ k.IsClient fd
  | _, _ => True

instance (k : Kernel) (e : Syscall) (r : Reply e) : Decidable (Uninterrupted k e r) := by
  unfold Uninterrupted
  split <;> infer_instance

/-- As `Uninterrupted`, but `write` answers as it likes. -/
def ReadsArrive (k : Kernel) : (e : Syscall) → Reply e → Prop
  | .write _ _, _ => True
  | e, r => k.Uninterrupted e r

instance (k : Kernel) (e : Syscall) (r : Reply e) : Decidable (ReadsArrive k e r) := by
  unfold ReadsArrive
  split <;> infer_instance

/-- `write` accepts something of what it is given. -/
def WritesSome (_ : Kernel) : (e : Syscall) → Reply e → Prop
  | .write _ buf, .ok n => buf ≠ [] → 0 < n
  | .write _ _, .error _ => False
  | _, _ => True

instance (k : Kernel) (e : Syscall) (r : Reply e) : Decidable (WritesSome k e r) := by
  unfold WritesSome
  split <;> infer_instance

/-- Registering an open descriptor that is not registered yet succeeds. -/
def AddsFresh (k : Kernel) : (e : Syscall) → Reply e → Prop
  | .epollCtlAdd epollfd fd _, .error _ =>
    ¬ (k.isEpoll epollfd = true ∧ k.table fd ≠ none ∧ k.interest fd = none)
  | _, _ => True

instance (k : Kernel) (e : Syscall) (r : Reply e) : Decidable (AddsFresh k e r) := by
  unfold AddsFresh
  split <;> infer_instance

end Kernel

/-- The number that is registered is not a descriptor of another owner. -/
def NoForeignAdd (k : Kernel) : (e : Syscall) → Reply e → Prop
  | .epollCtlAdd _ fd _, .ok _ => k.table fd ≠ some .foreign
  | _, _ => True

instance (k : Kernel) (e : Syscall) (r : Reply e) : Decidable (NoForeignAdd k e r) := by
  unfold NoForeignAdd
  split <;> infer_instance

/-- Every event reported for a client has `EPOLLIN` set. -/
def ReportsIn (k : Kernel) : (e : Syscall) → Reply e → Prop
  | .epollWait _ _, .ok events => ∀ ev ∈ events, k.IsClient ev.fd → ev.events &&& EPOLLIN ≠ 0
  | _, _ => True

instance (k : Kernel) (e : Syscall) (r : Reply e) : Decidable (ReportsIn k e r) := by
  unfold ReportsIn
  split <;> infer_instance

/-- Every descriptor that `accept` returns fits an `fd_set`. -/
def AcceptsFit (_ : Kernel) : (e : Syscall) → Reply e → Prop
  | .accept _, .ok fd => fd < FD_SETSIZE
  | _, _ => True

instance (k : Kernel) (e : Syscall) (r : Reply e) : Decidable (AcceptsFit k e r) := by
  unfold AcceptsFit
  split <;> infer_instance

/-- No `read` is interrupted by a signal. -/
def ReadsUnsignalled (_ : Kernel) : (e : Syscall) → Reply e → Prop
  | .read _ _, .error e => e ≠ .EINTR
  | _, _ => True

instance (k : Kernel) (e : Syscall) (r : Reply e) : Decidable (ReadsUnsignalled k e r) := by
  unfold ReadsUnsignalled
  split <;> infer_instance

/-- `malloc` finds memory for every size that a non-negative `int` can ask for. -/
def MallocServes (_ : Kernel) : (e : Syscall) → Reply e → Prop
  | .malloc size, found => 0 ≤ size.toInt → found = true
  | _, _ => True

instance (k : Kernel) (e : Syscall) (r : Reply e) : Decidable (MallocServes k e r) := by
  unfold MallocServes
  split <;> infer_instance

/-- The kernel keeps to blocking sockets: waits do not fail, descriptors fit an
`fd_set`, and memory does not run out. -/
def Kernel.NoFailure (_ : Kernel) : (e : Syscall) → Reply e → Prop
  | .accept _, .ok fd => fd < FD_SETSIZE
  | .select _ _, .error _ => False
  | .epollWait _ _, .error _ => False
  | .malloc _, found => found = true
  | _, _ => True

instance (k : Kernel) (e : Syscall) (r : Reply e) : Decidable (k.NoFailure e r) := by
  unfold Kernel.NoFailure
  split <;> infer_instance

def Kernel.Blocking (k : Kernel) (e : Syscall) (r : Reply e) : Prop :=
  k.Uninterrupted e r ∧ k.AddsFresh e r ∧ ReportsIn k e r ∧ k.NoFailure e r

instance (k : Kernel) (e : Syscall) (r : Reply e) : Decidable (k.Blocking e r) :=
  inferInstanceAs (Decidable (_ ∧ _))

end AndroidDemo.Socket
