import AndroidDemo.Socket.Frame
import AndroidDemo.Socket.SelectSocketServer

/-! # A rule for the loop of the select server

An invariant of the client list and the kernel that survives an accept and the
service of one client holds at every turn of `processClientConnect`.
-/

namespace AndroidDemo.Socket

open Interaction Program Kernel

variable {threads : Bool} {admits : Kernel → (e : Syscall) → Reply e → Prop}
  {G : Point Syscall Mark → Kernel → Prop}

/-- What the service of the clients asks of an invariant. -/
structure ServiceRules (threads : Bool) (admits : Kernel → (e : Syscall) → Reply e → Prop)
    (G : Point Syscall Mark → Kernel → Prop) (serverFd : Fd) (J : List Fd → Kernel → Prop) :
    Prop where
  fits : ∀ fds k fd, J fds k → (fd = serverFd ∨ fd ∈ fds) → FD_SETSIZE ≤ fd →
    G (.undefined (.fdSetIndex fd)) k
  accept : ∀ (srv : AbstractSocketServer) k, J srv.mClientFds k →
    Safe (environment threads admits) G
      (fun srv' k' => srv'.mRunning = srv.mRunning ∧ J srv'.mClientFds k')
      (acceptClient srv serverFd) k
  serve : ∀ before fd rest k, J (before ++ fd :: rest) k →
    Total (environment threads admits) G (fun _ k' => J (before ++ rest) k')
      ((echoFrame fd).bind fun _ => sys (.close fd)) k

structure SelectRules (threads : Bool) (admits : Kernel → (e : Syscall) → Reply e → Prop)
    (G : Point Syscall Mark → Kernel → Prop) (serverFd : Fd) (J : List Fd → Kernel → Prop) : Prop
    extends ServiceRules threads admits G serverFd J where
  moves : ∀ fds k k', J fds k → (environment threads admits).Interferes k k' → J fds k'
  head : ∀ fds k, J fds k → G (.loop (.whileRunning fds)) k
  select : ∀ fds k nfds readFds, J fds k → (∀ fd, fd ∈ readFds ↔ fd = serverFd ∨ fd ∈ fds) →
    (∀ fd ∈ readFds, fd < nfds) → (∃ fd ∈ readFds, nfds = fd + 1) →
    G (.call (.select nfds readFds)) k

/-! ## The set of descriptors -/

structure Collected (set : FdSet) (fds : List Fd) (readFds : FdSet) (mMaxFd : Nat) : Prop where
  mem_iff : ∀ fd, fd ∈ readFds ↔ fd ∈ set ∨ fd ∈ fds
  le_max : ∀ fd ∈ readFds, fd ≤ mMaxFd
  max_mem : mMaxFd ∈ readFds

theorem collectFds_cases (fds : List Fd) (set : FdSet) {m : Nat} (hLe : ∀ fd ∈ set, fd ≤ m)
    (hMem : m ∈ set) :
    (∃ fd ∈ fds, FD_SETSIZE ≤ fd ∧
      SelectSocketServer.collectFds fds set m = .undefined (.fdSetIndex fd)) ∨
    ∃ readFds mMaxFd, Collected set fds readFds mMaxFd ∧
      SelectSocketServer.collectFds fds set m = .ret (readFds, mMaxFd) := by
  induction fds generalizing set m with
  | nil => exact .inr ⟨set, m, ⟨by simp, hLe, hMem⟩, rfl⟩
  | cons fd fds ih =>
    by_cases hFit : fd < FD_SETSIZE
    · have hStep : SelectSocketServer.collectFds (fd :: fds) set m =
          SelectSocketServer.collectFds fds (insert fd set) (max fd m) := by
        rw [SelectSocketServer.collectFds, FD_SET, if_pos hFit]
        rfl
      have hLe' : ∀ x ∈ insert fd set, x ≤ max fd m := by
        intro x hx
        rcases Finset.mem_insert.mp hx with rfl | hx
        · exact le_max_left _ _
        · exact (hLe x hx).trans (le_max_right _ _)
      have hMem' : max fd m ∈ insert fd set := by
        rcases max_choice fd m with hMax | hMax <;> rw [hMax]
        · exact Finset.mem_insert_self _ _
        · exact Finset.mem_insert_of_mem hMem
      rw [hStep]
      rcases ih _ hLe' hMem' with ⟨x, hx, hBig, hEq⟩ | ⟨readFds, mMaxFd, hAll, hEq⟩
      · exact .inl ⟨x, List.mem_cons_of_mem _ hx, hBig, hEq⟩
      · refine .inr ⟨readFds, mMaxFd, ⟨fun x => ?_, hAll.le_max, hAll.max_mem⟩, hEq⟩
        rw [hAll.mem_iff, Finset.mem_insert, List.mem_cons]
        tauto
    · refine .inl ⟨fd, List.mem_cons_self, Nat.not_lt.mp hFit, ?_⟩
      rw [SelectSocketServer.collectFds, FD_SET, if_neg hFit]
      rfl

def afterSelect (serverFd : Fd) (srv : SelectSocketServer) :
    Except Errno FdSet → Server (SelectSocketServer ⊕ SelectSocketServer)
  | .error _ => .ret (.inr srv)
  | .ok readFds => (srv.dispatch serverFd readFds).bind fun srv => .ret (.inl srv)

theorem turn_cases (serverFd : Fd) {srv : SelectSocketServer} (hRunning : srv.mRunning = true) :
    (∃ fd, (fd = serverFd ∨ fd ∈ srv.mClientFds) ∧ FD_SETSIZE ≤ fd ∧
      srv.turn serverFd = .undefined (.fdSetIndex fd)) ∨
    ∃ readFds mMaxFd, Collected {serverFd} srv.mClientFds readFds mMaxFd ∧
      srv.turn serverFd = .call (.select (mMaxFd + 1) readFds)
        (afterSelect serverFd { srv with mAllFds := readFds, mMaxFd := mMaxFd }) := by
  rw [SelectSocketServer.turn, if_pos hRunning, FD_SET]
  by_cases hFit : serverFd < FD_SETSIZE
  · rw [if_pos hFit]
    rcases collectFds_cases srv.mClientFds (insert serverFd FD_ZERO) (m := serverFd)
      (by simp [FD_ZERO]) (by simp) with ⟨fd, hfd, hBig, hEq⟩ | ⟨readFds, mMaxFd, hAll, hEq⟩
    · refine .inl ⟨fd, .inr hfd, hBig, ?_⟩
      rw [pure_eq, bind_eq, ret_bind, hEq]
      rfl
    · refine .inr ⟨readFds, mMaxFd, hAll, ?_⟩
      rw [pure_eq, bind_eq, ret_bind, hEq]
      refine congrArg (Program.call _) (funext fun r => ?_)
      cases r <;> rfl
  · refine .inl ⟨serverFd, .inl rfl, Nat.not_lt.mp hFit, ?_⟩
    rw [if_neg hFit]
    rfl

/-! ## One turn of the loop -/

namespace ServiceRules

variable {serverFd : Fd} {J : List Fd → Kernel → Prop}

theorem receiveClients_total (rules : ServiceRules threads admits G serverFd J)
    {srv : SelectSocketServer} (before : List Fd) {rest : List Fd} {readFds : FdSet} {k : Kernel}
    (h : J (before ++ rest) k) :
    Total (environment threads admits) G
      (fun srv' k' => srv'.mRunning = srv.mRunning ∧ J srv'.mClientFds k')
      (srv.receiveClients before rest readFds) k := by
  induction rest generalizing before readFds k with
  | nil =>
    rw [List.append_nil] at h
    exact .ret ⟨rfl, h⟩
  | cons clientFD rest ih =>
    rw [SelectSocketServer.receiveClients, FD_ISSET]
    split
    · rename_i hFit
      rw [pure_eq, bind_eq, ret_bind]
      split
      · have hServe := (rules.serve before clientFD rest k h).bind
          (f := fun _ => srv.receiveClients before rest (readFds.erase clientFD)) fun _ _ hk => ih before hk
        rw [bind_assoc] at hServe
        simpa only [FD_CLR, hFit, if_true, pure_eq, bind_eq, ret_bind, perform_bind] using hServe
      · apply ih _
        rwa [List.append_assoc, List.singleton_append]
    · exact .undefined (rules.fits _ k clientFD h (.inr (by simp)) (Nat.not_lt.mp ‹_›))

theorem dispatch_safe (rules : ServiceRules threads admits G serverFd J) (srv : SelectSocketServer)
    {readFds : FdSet} {k : Kernel} (h : J srv.mClientFds k) :
    Safe (environment threads admits) G
      (fun srv' k' => srv'.mRunning = srv.mRunning ∧ J srv'.mClientFds k')
      (srv.dispatch serverFd readFds) k := by
  rw [SelectSocketServer.dispatch, FD_ISSET]
  split
  · rw [pure_eq, bind_eq, ret_bind]
    split
    · exact (rules.accept srv.toAbstractSocketServer k h).bind fun _ _ hk => .ret hk
    · exact (rules.receiveClients_total [] h).safe
  · exact .undefined (rules.fits _ _ serverFd h (.inl rfl) (Nat.not_lt.mp ‹_›))

end ServiceRules

namespace SelectRules

variable {serverFd : Fd} {J : List Fd → Kernel → Prop}

theorem select_allowed (rules : SelectRules threads admits G serverFd J) {fds : List Fd}
    {readFds : FdSet} {mMaxFd : Nat} {k : Kernel} (hAll : Collected {serverFd} fds readFds mMaxFd)
    (h : J fds k) : G (.call (.select (mMaxFd + 1) readFds)) k :=
  rules.select _ _ _ _ h (fun fd => (hAll.mem_iff fd).trans (by simp))
    (fun fd hfd => Nat.lt_succ_of_le (hAll.le_max fd hfd)) ⟨mMaxFd, hAll.max_mem, rfl⟩

theorem turn_safe (rules : SelectRules threads admits G serverFd J) {srv : SelectSocketServer}
    (hRunning : srv.mRunning = true) {k : Kernel} (h : J srv.mClientFds k) :
    Safe (environment threads admits) G
      (Sum.elim (fun srv' k' => srv'.mRunning = true ∧ J srv'.mClientFds k')
        fun srv' k' => J srv'.mClientFds k')
      (srv.turn serverFd) k := by
  rcases turn_cases serverFd hRunning with ⟨fd, hfd, hBig, hEq⟩ | ⟨readFds, mMaxFd, hAll, hEq⟩
  · rw [hEq]
    exact .undefined (rules.fits _ k fd h hfd hBig)
  · rw [hEq]
    refine .call (fun k₁ hMoves => rules.select_allowed hAll (rules.moves _ _ _ h hMoves)) ?_
    intro k₁ r k₂ hMoves _ hAnswer
    have h₁ := rules.moves _ _ _ h hMoves
    cases answer_select hAnswer
    cases r with
    | error e => exact .ret h₁
    | ok ready =>
      exact (rules.dispatch_safe { srv with mAllFds := readFds, mMaxFd := mMaxFd }
        h₁).bind fun _ _ hk => .ret ⟨hk.1.trans hRunning, hk.2⟩

theorem safe (rules : SelectRules threads admits G serverFd J) (srv : SelectSocketServer)
    (hRunning : srv.mRunning = true) {k : Kernel} (h : J srv.mClientFds k) :
    Safe (environment threads admits) G (fun srv' k' => J srv'.mClientFds k')
      (srv.processClientConnect serverFd) k :=
  Safe.loop (I := fun srv k => srv.mRunning = true ∧ J srv.mClientFds k) ⟨hRunning, h⟩
    fun srv _ hk => ⟨rules.head srv.mClientFds _ hk.2, rules.turn_safe hk.1 hk.2⟩

end SelectRules

end AndroidDemo.Socket
