import AndroidDemo.Interaction.Replay
import AndroidDemo.Socket.Connections
import AndroidDemo.Socket.SelectRules

/-! # The client list of the select server

The list `mClientFds` is tied to the descriptor table: between any two turns of
the loop it lists the open connections, each once.
-/

namespace AndroidDemo.Socket

open Interaction Program Kernel

/-- `fds` lists the open clients of the server listening on `serverFd`. -/
structure Clients (serverFd : Fd) (fds : List Fd) (k : Kernel) : Prop where
  listener : k.table serverFd = some .listener
  mem_iff : ∀ fd, fd ∈ fds ↔ k.IsClient fd
  nodup : fds.Nodup

namespace Clients

variable {threads : Bool} {serverFd : Fd} {fds : List Fd}

theorem frameStable : FrameStable threads (Clients serverFd fds) := fun _ _ hFrame h =>
  ⟨(hFrame.own serverFd .listener (by simp)).mpr h.listener,
    fun fd => (h.mem_iff fd).trans (hFrame.isClient fd).symm, h.nodup⟩

theorem start {k : Kernel} (h : k.Listening serverFd) : Clients serverFd [] k where
  listener := h.listener
  mem_iff fd := by simpa using h.not_client fd
  nodup := List.nodup_nil

theorem accept {k k' : Kernel} (h : Clients serverFd fds k) {fd : Fd}
    (hAnswer : k.answer (.accept serverFd) (.ok fd) = some k') :
    Clients serverFd (fds ++ [fd]) k' := by
  obtain ⟨hFree, rfl⟩ := answer_accept hAnswer
  have hNew : fd ∉ fds := by
    intro hfd
    obtain ⟨c, hc⟩ := (h.mem_iff fd).mp hfd
    cases hFree.symm.trans hc
  have hServer : serverFd ≠ fd := by
    rintro rfl
    cases hFree.symm.trans h.listener
  refine ⟨by simpa [install, hServer] using h.listener, ?_, ?_⟩
  · intro fd'
    rw [List.mem_append, List.mem_singleton, h.mem_iff]
    by_cases hfd : fd' = fd
    · simp [IsClient, install, hfd]
    · simp [IsClient, install, hfd]
  · exact List.nodup_append.mpr ⟨h.nodup, List.nodup_singleton fd, by
      rintro x hx y hy rfl
      exact hNew (List.mem_singleton.mp hy ▸ hx)⟩

theorem close {before rest : List Fd} {fd : Fd} {k k' : Kernel} {r : Reply (.close fd)}
    (h : Clients serverFd (before ++ fd :: rest) k) (hAnswer : k.answer (.close fd) r = some k') :
    Clients serverFd (before ++ rest) k' := by
  rw [answer_close hAnswer]
  have hClient : k.IsClient fd := (h.mem_iff fd).mp (by simp)
  have hServer : serverFd ≠ fd := by
    rintro rfl
    obtain ⟨c, hc⟩ := hClient
    cases hc.symm.trans h.listener
  obtain ⟨hNot, hNodup⟩ := List.nodup_cons.mp (List.nodup_middle.mp h.nodup)
  refine ⟨by rw [closeFd_table, Function.update_of_ne hServer, h.listener], ?_, hNodup⟩
  intro fd'
  by_cases hfd : fd' = fd
  · subst hfd
    simp only [IsClient, closeFd_table, Function.update_self]
    simpa using hNot
  · have hMem : fd' ∈ before ++ rest ↔ fd' ∈ before ++ fd :: rest := by simp [hfd]
    rw [hMem, h.mem_iff]
    simp only [IsClient, closeFd_table, Function.update_of_ne hfd]

end Clients

/-- What the select server guarantees at each point: the list at the loop head,
the set handed to `select`, and whose descriptors it reads, writes and closes. An
`fd_set` is indexed outside its range only by a descriptor the kernel handed out. -/
def SelectGuarantee (serverFd : Fd) : Point Syscall Mark → Kernel → Prop
  | .loop (.whileRunning mClientFds), k => Clients serverFd mClientFds k
  | .call (.select nfds readFds), k =>
    (∀ fd, fd ∈ readFds ↔ fd = serverFd ∨ k.IsClient fd) ∧ ∀ fd ∈ readFds, fd < nfds
  | .call (.read fd _), k => k.IsClient fd
  | .call (.write fd _), k => k.IsClient fd
  | .call (.close fd), k => k.IsClient fd
  | .undefined (.fdSetIndex fd), k => FD_SETSIZE ≤ fd ∧ (fd = serverFd ∨ k.IsClient fd)
  | _, _ => True

theorem Clients.echoAllowed {serverFd : Fd} {fds : List Fd} {fd : Fd} (hfd : fd ∈ fds) {k : Kernel}
    (h : Clients serverFd fds k) : EchoAllowed (SelectGuarantee serverFd) fd k where
  read _ := (h.mem_iff fd).mp hfd
  write _ := (h.mem_iff fd).mp hfd
  malloc _ := trivial
  readnLoop _ := trivial
  lenOverflow _ := trivial
  msgTerminator _ := trivial

theorem clients_rules (threads : Bool) (admits : Kernel → (e : Syscall) → Reply e → Prop)
    (serverFd : Fd) :
    SelectRules threads admits (SelectGuarantee serverFd) serverFd (Clients serverFd) where
  moves _ _ _ h hMoves := Clients.frameStable _ _ (interferes_frame hMoves) h
  head _ _ h := h
  fits fds k fd h hfd hFit := ⟨hFit, hfd.imp_right (h.mem_iff fd).mp⟩
  select fds k nfds readFds h hMem hLt _ :=
    ⟨fun fd => (hMem fd).trans (or_congr_right (h.mem_iff fd)), hLt⟩
  accept srv k h := by
    refine acceptClient_safe Clients.frameStable.moves (fun _ _ => ⟨trivial, trivial⟩)
      (fun _ hk => ⟨rfl, hk⟩) ?_ k h
    intro k clientFD k' hk _ hAnswer
    exact ⟨rfl, hk.accept hAnswer⟩
  serve before fd rest k h := by
    have hfd : fd ∈ before ++ fd :: rest := by simp
    apply serve_total (Clients.frameStable.echoStable _) (fun _ hk => hk.echoAllowed hfd)
      (fun _ hk => (hk.mem_iff fd).mp hfd) h
    intro k₁ r k₂ h₁ hAnswer
    exact .ret (h₁.close hAnswer)

/-- For every run of the select server, with other threads opening and closing
descriptors of their own at any moment: at the loop head the client list is the
list of open clients, `select` is handed exactly these and the listening socket,
only open clients are read, written and closed, and each is closed at most once. -/
theorem select_clients {serverFd : Fd} (ip : Option String) (port : BitVec 32) {k k' : Kernel}
    (hStart : k.Listening serverFd) {t : List (Event Syscall Reply Kernel)}
    {q : Server SelectSocketServer}
    (hRun : Run (environment true fun _ _ _ => True)
      ((SelectSocketServer.new ip port).processClientConnect serverFd) k t q k') :
    (∀ ev ∈ t, SelectGuarantee serverFd (.call ev.call) ev.before) ∧
      (∀ x, q.point? = some x → SelectGuarantee serverFd x k') ∧
      (t.filterMap closedConn).Nodup := by
  have hSafe := (clients_rules true (fun _ _ _ => True) serverFd).safe
    (.new ip port) rfl (Clients.start hStart)
  exact ⟨fun ev hev => hSafe.event hRun hev, fun x hx => hSafe.point hRun hx,
    (closedConns_nodup hRun hStart.wf).1⟩

/-- A client is accepted and served; then another thread gets its number. -/
def reuseScript : List (Answer Syscall Reply Move) :=
  [⟨[], .select 4 {3}, .ok {3}⟩, ⟨[], .accept 3, .ok 4⟩, ⟨[], .select 5 {4, 3}, .ok {4}⟩,
    ⟨[], .read 4 4, .ok [0, 0, 0, 1]⟩, ⟨[], .write 4 [0, 0, 0, 1], .ok 4⟩, ⟨[], .malloc 2, true⟩,
    ⟨[], .read 4 1, .ok [65]⟩, ⟨[], .write 4 [65], .ok 1⟩, ⟨[], .close 4, .ok ()⟩,
    ⟨[.openFd 4], .select 4 {3}, .ok {3}⟩]

theorem select_clients_reuse :
    ∃ t q k', Run (environment true fun _ _ _ => True)
        ((SelectSocketServer.new none 9000).processClientConnect 3)
        (listening 3 fun _ => [0, 0, 0, 1, 65]) t q k' ∧
      (t.filterMap closedConn = [0] ∧ k'.table 4 = some .foreign) ∧
      (∀ ev ∈ t, SelectGuarantee 3 (.call ev.call) ev.before) := by
  obtain ⟨t, q, k', hRun, hGood⟩ := exists_run_of_replay (environment true fun _ _ _ => True)
    ((SelectSocketServer.new none 9000).processClientConnect 3)
    (listening 3 fun _ => [0, 0, 0, 1, 65]) 40 reuseScript
    (fun t _ k' => decide (t.filterMap closedConn = [0] ∧ k'.table 4 = some .foreign)) (by decide)
  exact ⟨t, q, k', hRun, of_decide_eq_true hGood,
    (select_clients none 9000 (listening_start 3 _) hRun).1⟩

end AndroidDemo.Socket
