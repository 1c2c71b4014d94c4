import AndroidDemo.Interaction.History
import AndroidDemo.Socket.Connections
import AndroidDemo.Socket.EpollRules
import AndroidDemo.Socket.NativeLib
import AndroidDemo.Socket.SelectRules

/-! # A client that is reported is closed

Whatever else happens in the process, a client that `select` or `epoll_wait`
reports is closed before the server waits again.
-/

namespace AndroidDemo.Socket

open Interaction Program Kernel

/-! ## Connections that stay reachable until they are closed -/

namespace Kernel

structure Finished (c : ConnId) (k : Kernel) : Prop where
  wf : k.Wf
  closed : (k.conns c).closed = true

theorem Finished.answer {c : ConnId} {k k' : Kernel} {e : Syscall} {r : Reply e}
    (h : Finished c k) (hAnswer : k.answer e r = some k') : Finished c k' :=
  have hStep := answer_connStep h.wf hAnswer
  ⟨hStep.wf, hStep.closed c h.closed⟩

theorem Finished.moves {threads : Bool} {admits : Kernel → (e : Syscall) → Reply e → Prop}
    {c : ConnId} {k k' : Kernel} (h : Finished c k)
    (hMoves : (environment threads admits).Interferes k k') : Finished c k' :=
  have hStep := interferes_connStep h.wf hMoves
  ⟨hStep.wf, hStep.closed c h.closed⟩

theorem install_table {k : Kernel} {fd fd' : Fd} {o : Owner} (h : k.table fd = some o)
    (hFree : k.table fd' = none) (o' : Owner) : (k.install fd' o').table fd = some o := by
  have hne : fd ≠ fd' := by
    rintro rfl
    cases h.symm.trans hFree
  simpa [install, hne] using h

theorem answer_select_ready {k k' : Kernel} {nfds : Nat} {readFds : FdSet}
    {r : Reply (.select nfds readFds)} (h : k.answer (.select nfds readFds) r = some k') :
    ∀ ready, r = .ok ready → ready ⊆ readFds := by
  rintro ready rfl
  simp only [answer, Option.ite_none_right_eq_some] at h
  exact h.1.1

theorem answer_client {k k' : Kernel} {fd : Fd} {c : ConnId} {e : Syscall} {r : Reply e}
    (h : k.table fd = some (.client c)) (hAnswer : k.answer e r = some k') :
    k'.table fd = some (.client c) ∨ (k'.conns c).closed = true := by
  cases e with
  | setsockopt fd' | bind fd' addr | listen fd' backlog | malloc size =>
    cases hAnswer
    exact .inl h
  | select nfds readFds =>
    cases answer_select hAnswer
    exact .inl h
  | socket =>
    cases r with
    | error e =>
      cases hAnswer
      exact .inl h
    | ok fd' =>
      simp only [answer, Option.ite_none_right_eq_some, Option.some.injEq] at hAnswer
      obtain ⟨hFree, rfl⟩ := hAnswer
      exact .inl (install_table h hFree _)
  | accept serverFd =>
    cases r with
    | error e =>
      cases hAnswer
      exact .inl h
    | ok fd' =>
      obtain ⟨hFree, rfl⟩ := answer_accept hAnswer
      exact .inl (install_table h hFree _)
  | epollCreate size =>
    cases r with
    | error e =>
      cases hAnswer
      exact .inl h
    | ok fd' =>
      obtain ⟨hFree, rfl⟩ := answer_epollCreate hAnswer
      exact .inl (install_table h hFree _)
  | epollCtlAdd epollfd fd' events =>
    cases r with
    | error e =>
      cases hAnswer
      exact .inl h
    | ok u =>
      obtain ⟨_, rfl⟩ := answer_epollCtlAdd hAnswer
      exact .inl h
  | epollCtlDel epollfd fd' events =>
    cases r with
    | error e =>
      cases hAnswer
      exact .inl h
    | ok u =>
      obtain ⟨_, rfl⟩ := answer_epollCtlDel hAnswer
      exact .inl h
  | epollWait epollfd maxEvents =>
    cases r with
    | error e =>
      cases hAnswer
      exact .inl h
    | ok events =>
      obtain ⟨_, rfl⟩ := answer_epollWait hAnswer
      exact .inl ((congrFun (foldl_report events k).1 fd).trans h)
  | read fd' count => exact .inl (((answer_read false hAnswer).own fd _ (by simp)).mpr h)
  | write fd' buf => exact .inl (((answer_write false hAnswer).own fd _ (by simp)).mpr h)
  | close fd' =>
    rw [answer_close hAnswer]
    by_cases hne : fd = fd'
    · subst hne
      exact .inr (closed_closeFd h)
    · exact .inl (by rw [closeFd_table, Function.update_of_ne hne, h])

/-- Connection `c` is reached by `fd` unless it is closed. -/
structure Told (fd : Fd) (c : ConnId) (k : Kernel) : Prop where
  wf : k.Wf
  pending : k.table fd = some (.client c) ∨ (k.conns c).closed = true

namespace Told

variable {threads : Bool} {admits : Kernel → (e : Syscall) → Reply e → Prop} {fd : Fd}
  {c : ConnId} {k k' : Kernel}

theorem answer {e : Syscall} {r : Reply e} (h : Told fd c k) (hAnswer : k.answer e r = some k') :
    Told fd c k' := by
  have hStep := answer_connStep h.wf hAnswer
  refine ⟨hStep.wf, ?_⟩
  rcases h.pending with hOpen | hClosed
  · exact answer_client hOpen hAnswer
  · exact .inr (hStep.closed c hClosed)

theorem moves (h : Told fd c k) (hMoves : (environment threads admits).Interferes k k') :
    Told fd c k' := by
  have hStep := interferes_connStep h.wf hMoves
  refine ⟨hStep.wf, h.pending.imp ?_ (hStep.closed c)⟩
  exact ((interferes_frame hMoves).own fd _ (by simp)).mpr

theorem close {r : Reply (.close fd)} (h : Told fd c k)
    (hAnswer : k.answer (.close fd) r = some k') : Finished c k' := by
  refine ⟨(answer_connStep h.wf hAnswer).wf, ?_⟩
  rcases h.pending with hOpen | hClosed
  · rw [answer_close hAnswer]
    exact closed_closeFd hOpen
  · exact (answer_connStep h.wf hAnswer).closed c hClosed

end Told

end Kernel

section
variable {threads : Bool} {admits : Kernel → (e : Syscall) → Reply e → Prop} {α : Type}
  {k : Kernel} {fd : Fd} {c : ConnId}

theorem told_safe (p : Server α) (h : Told fd c k) :
    Safe (environment threads admits) (fun _ _ => True) (fun _ => Told fd c) p k :=
  (Safe.of_kept (fun _ _ hk hMoves => hk.moves hMoves) (fun _ _ _ _ hk hAnswer => hk.answer hAnswer)
    h).mono (fun _ _ _ => trivial) fun _ _ hk => hk

theorem finished_safe (p : Server α) (h : Finished c k) :
    Safe (environment threads admits) (fun _ _ => True) (fun _ => Finished c) p k :=
  (Safe.of_kept (fun _ _ hk hMoves => hk.moves hMoves) (fun _ _ _ _ hk hAnswer => hk.answer hAnswer)
    h).mono (fun _ _ _ => trivial) fun _ _ hk => hk

theorem serve_closes {next : Reply (.close fd) → Server α} (h : Told fd c k) :
    Safe (environment threads admits) (fun _ _ => True) (fun _ => Finished c)
      ((echoFrame fd).bind fun _ => .call (.close fd) next) k := by
  refine (told_safe (echoFrame fd) h).bind fun _ k₁ h₁ => ?_
  refine .call (fun _ _ => trivial) fun k₂ r k₃ hMoves _ hAnswer => ?_
  exact finished_safe (next r) ((h₁.moves hMoves).close hAnswer)

/-! ## The select server -/

theorem receiveClients_closes {srv : SelectSocketServer} {before rest : List Fd} {readFds : FdSet}
    (hfd : fd ∈ rest) (hReady : fd ∈ readFds) (h : Told fd c k) :
    Safe (environment threads admits) (fun _ _ => True) (fun _ => Finished c)
      (srv.receiveClients before rest readFds) k := by
  induction rest generalizing before readFds k with
  | nil => cases hfd
  | cons clientFD rest ih =>
    rw [SelectSocketServer.receiveClients, FD_ISSET]
    split
    · rename_i hFit
      rw [pure_eq, bind_eq, ret_bind]
      by_cases hne : fd = clientFD
      · subst hne
        rw [if_pos (decide_eq_true hReady)]
        simp only [FD_CLR, hFit, if_true, pure_eq, bind_eq, ret_bind, perform_bind]
        exact serve_closes h
      · have hRest : fd ∈ rest := (List.mem_cons.mp hfd).resolve_left hne
        split
        · simp only [FD_CLR, hFit, if_true, pure_eq, bind_eq, ret_bind, perform_bind]
          refine (told_safe (echoFrame clientFD) h).bind fun _ k₁ h₁ => ?_
          refine .call (fun _ _ => trivial) fun k₂ r k₃ hMoves _ hAnswer => ?_
          exact ih hRest (Finset.mem_erase.mpr ⟨hne, hReady⟩) ((h₁.moves hMoves).answer hAnswer)
        · exact ih hRest hReady h
    · exact .undefined trivial

theorem dispatch_closes {srv : SelectSocketServer} {serverFd : Fd} {readFds : FdSet}
    (hServer : serverFd ∉ readFds) (hfd : fd ∈ srv.mClientFds) (hReady : fd ∈ readFds)
    (h : Told fd c k) :
    Safe (environment threads admits) (fun _ _ => True) (fun _ => Finished c)
      (srv.dispatch serverFd readFds) k := by
  rw [SelectSocketServer.dispatch, FD_ISSET]
  split
  · rw [pure_eq, bind_eq, ret_bind, if_neg (by simpa using hServer)]
    exact receiveClients_closes hfd hReady h
  · exact .undefined trivial

/-! ## The epoll server -/

open EPollSocketServer in
theorem handleEvent_closes {srv : AbstractSocketServer} {epollfd : Option Fd} {serverFd : Fd}
    {events : List EpollEvent} {ev : EpollEvent} (hev : ev ∈ events) (hOther : ev.fd ≠ serverFd)
    (hIn : ev.events &&& EPOLLIN ≠ 0) (h : Told ev.fd c k) :
    Safe (environment threads admits) (fun _ _ => True) (fun _ => Finished c)
      (handleEvent srv epollfd events serverFd) k := by
  induction events generalizing srv k with
  | nil => cases hev
  | cons first rest ih =>
    rw [handleEvent]
    by_cases hFirst : ev = first
    · subst hFirst
      rw [if_neg fun hServer => hOther hServer.1, if_pos hIn]
      refine Safe.bind ?_ fun _ _ hk => finished_safe _ hk
      exact serve_closes h
    · have hRest : ev ∈ rest := (List.mem_cons.mp hev).resolve_left hFirst
      split
      · exact (told_safe _ h).bind fun _ _ hk => ih hRest hk
      · split
        · exact (told_safe _ h).bind fun _ _ hk => ih hRest hk
        · exact ih hRest h

end

/-! ## From one wait to the next -/

/-- The server is told that it can serve connection `c`. A `select` that reports
the listening socket serves nobody, whoever else it reports. -/
def Reports (serverFd : Fd) (ev : Event Syscall Reply Kernel) (c : ConnId) : Prop :=
  match ev with
  | ⟨k, .select _ _, .ok ready, _⟩ =>
    serverFd ∉ ready ∧ ∃ fd ∈ ready, k.table fd = some (.client c)
  | ⟨k, .epollWait _ _, .ok events, _⟩ =>
    ∃ e ∈ events, e.fd ≠ serverFd ∧ e.events &&& EPOLLIN ≠ 0 ∧ k.table e.fd = some (.client c)
  | _ => False

instance (serverFd : Fd) (ev : Event Syscall Reply Kernel) (c : ConnId) :
    Decidable (Reports serverFd ev c) := by
  unfold Reports
  split <;> infer_instance

/-- The head of the main loop and the calls behind it. -/
def waits : Point Syscall Mark → Bool
  | .loop (.whileRunning _) => true
  | .call (.select _ _) => true
  | .call (.epollWait _ _) => true
  | _ => false

theorem waits_of_reports {serverFd : Fd} {ev : Event Syscall Reply Kernel} {c : ConnId}
    (h : Reports serverFd ev c) : waits (.call ev.call) = true := by
  unfold Reports at h
  split at h
  · rfl
  · rfl
  · cases h

/-- Every client that was reported so far is closed. -/
structure Served (serverFd : Fd) (s : Kernel × List (Event Syscall Reply Kernel)) : Prop where
  wf : s.1.Wf
  closed : ∀ ev ∈ s.2, ∀ c, Reports serverFd ev c → (s.1.conns c).closed = true

section
variable {threads : Bool} {admits : Kernel → (e : Syscall) → Reply e → Prop} {serverFd : Fd}
  {α : Type} {k : Kernel} {hist : List (Event Syscall Reply Kernel)}

namespace Served

theorem finished (h : Served serverFd (k, hist)) {ev : Event Syscall Reply Kernel} (hev : ev ∈ hist)
    {c : ConnId} (hReports : Reports serverFd ev c) : Finished c k :=
  ⟨h.wf, h.closed ev hev c hReports⟩

theorem moves {k' : Kernel} (h : Served serverFd (k, hist))
    (hMoves : (environment threads admits).Interferes k k') : Served serverFd (k', hist) :=
  ⟨(interferes_connStep h.wf hMoves).wf,
    fun _ hev _ hReports => ((h.finished hev hReports).moves hMoves).closed⟩

theorem answer {k' : Kernel} {e : Syscall} {r : Reply e} (h : Served serverFd (k, hist))
    (he : waits (.call e) = false) (hAnswer : k.answer e r = some k') :
    Served serverFd (k', hist ++ [⟨k, e, r, k'⟩]) := by
  refine ⟨(answer_connStep h.wf hAnswer).wf, fun ev hev c hReports => ?_⟩
  rcases List.mem_append.mp hev with hev | hev
  · exact ((h.finished hev hReports).answer hAnswer).closed
  · cases List.mem_singleton.mp hev
    cases he.symm.trans (waits_of_reports hReports)

end Served

/-- A program that does not wait serves the clients that were reported, if it
closes each of them. -/
theorem serves_record {p : Server α} {Q : α → Kernel → Prop} (hWf : k.Wf)
    (h : Safe (environment threads admits) (fun x _ => waits x = false) Q p k)
    (hCloses : ∀ ev ∈ hist, ∀ c, Reports serverFd ev c →
      Safe (environment threads admits) (fun _ _ => True) (fun _ => Finished c) p k) :
    Safe (environment threads admits).record (fun x s => waits x = true → Served serverFd s)
      (fun a s => Q a s.1 ∧ Served serverFd s) p (k, hist) := by
  have hKeepsWf : Safe (environment threads admits) (fun _ => Kernel.Wf) (fun _ => Kernel.Wf) p k :=
    .of_kept (fun _ _ hk hMoves => (interferes_connStep hk hMoves).wf)
      (fun _ _ _ _ hk hAnswer => (answer_connStep hk hAnswer).wf) hWf
  have hEach := (h.and hKeepsWf).forall_post
    fun c : { c : ConnId // ∃ ev ∈ hist, Reports serverFd ev c } =>
      c.2.elim fun ev hev => hCloses ev hev.1 c.1 hev.2
  refine (hEach.record hist).mono ?_ ?_
  · rintro x s ⟨⟨hQuiet, _⟩, _⟩ hWaits
    cases hQuiet.symm.trans hWaits
  · rintro a ⟨k', _⟩ ⟨⟨⟨hQ, hWf'⟩, hClosed⟩, t, rfl, hQuiet⟩
    refine ⟨hQ, hWf', fun ev hev c hReports => ?_⟩
    rcases List.mem_append.mp hev with hev | hev
    · exact (hClosed ⟨c, ev, hev, hReports⟩).closed
    · cases (hQuiet ev hev).1.symm.trans (waits_of_reports hReports)

theorem echoAllowed_quiet (fd : Fd) (k : Kernel) :
    EchoAllowed (fun x _ => waits x = false) fd k :=
  ⟨fun _ => rfl, fun _ => rfl, fun _ => rfl, fun _ => rfl, fun _ => rfl, fun _ => rfl⟩

theorem acceptClient_quiet (srv : AbstractSocketServer) (k : Kernel) :
    Safe (environment threads admits) (fun x _ => waits x = false)
      (fun srv' _ => srv'.mRunning = srv.mRunning ∧ True) (acceptClient srv serverFd) k :=
  acceptClient_safe frameStable_true.moves (fun _ _ => ⟨rfl, rfl⟩) (fun _ _ => ⟨rfl, trivial⟩)
    (fun _ _ _ _ _ _ => ⟨rfl, trivial⟩) k trivial

theorem service_quiet (serverFd : Fd) :
    ServiceRules threads admits (fun x _ => waits x = false) serverFd fun _ _ => True where
  fits _ _ _ _ _ _ := rfl
  accept srv k _ := acceptClient_quiet srv k
  serve _ fd _ _ _ :=
    serve_total (frameStable_true.echoStable fd) (fun k _ => echoAllowed_quiet fd k)
      (fun _ _ => rfl) trivial fun _ _ _ _ _ => .ret trivial

theorem events_quiet (serverFd : Fd) (epollfd : Option Fd) :
    EventRules threads admits (fun x _ => waits x = false) serverFd epollfd fun _ _ _ _ => True where
  moves _ _ _ _ _ _ _ := trivial
  accept srv _ _ k _ _ := acceptClient_quiet srv k
  add _ _ _ _ _ _ := rfl
  added _ _ _ _ _ _ _ _ _ _ := trivial
  receive _ ev _ _ _ _ :=
    serve_total (frameStable_true.echoStable ev.fd) (fun k _ => echoAllowed_quiet ev.fd k)
      (fun _ _ => rfl) trivial fun _ _ _ _ _ => .call (fun _ _ => rfl) fun _ _ _ _ _ _ => .ret trivial
  skip _ _ _ _ _ _ := trivial

theorem select_served {srv : SelectSocketServer} (h : Served serverFd (k, hist)) :
    Safe (environment threads admits).record (fun x s => waits x = true → Served serverFd s)
      (fun _ s => Served serverFd s) (srv.processClientConnect serverFd) (k, hist) := by
  refine Safe.loop (I := fun _ s => Served serverFd s) h ?_
  rintro srv ⟨k, hist⟩ h
  refine ⟨fun _ => h, ?_⟩
  by_cases hRunning : srv.mRunning = true
  · rcases turn_cases serverFd hRunning with ⟨fd, _, _, hEq⟩ | ⟨readFds, mMaxFd, hAll, hEq⟩
    · rw [hEq]
      exact .undefined fun _ => h
    · rw [hEq]
      refine .call_record (fun _ hMoves _ => h.moves hMoves) ?_
      intro k₁ r k₂ hMoves _ hAnswer
      have h₁ := h.moves hMoves
      have hReady := answer_select_ready hAnswer
      cases answer_select hAnswer
      cases r with
      | error e =>
        refine .ret ⟨h₁.wf, fun ev hev c hReports => ?_⟩
        rcases List.mem_append.mp hev with hev | hev
        · exact h₁.closed ev hev c hReports
        · cases List.mem_singleton.mp hev
          exact hReports.elim
      | ok ready =>
        refine (serves_record h₁.wf ((service_quiet serverFd).dispatch_safe _ trivial) ?_).bind
          fun _ _ hk => .ret hk.2
        intro ev hev c hReports
        rcases List.mem_append.mp hev with hev | hev
        · exact finished_safe _ (h₁.finished hev hReports)
        · cases List.mem_singleton.mp hev
          obtain ⟨hServer, fd, hfd, hOpen⟩ := hReports
          have hListed : fd ∈ srv.mClientFds := by
            refine ((hAll.mem_iff fd).mp (hReady ready rfl hfd)).resolve_left fun hEq => ?_
            exact hServer (Finset.mem_singleton.mp hEq ▸ hfd)
          exact dispatch_closes hServer hListed hfd ⟨h₁.wf, .inl hOpen⟩
  · rw [SelectSocketServer.turn, if_neg hRunning]
    exact .ret h

open EPollSocketServer in
theorem runLoop_served {srv : AbstractSocketServer} {epollfd : Option Fd}
    (h : Served serverFd (k, hist)) :
    Safe (environment threads admits).record (fun x s => waits x = true → Served serverFd s)
      (fun _ s => Served serverFd s) (runLoop srv epollfd serverFd) (k, hist) := by
  refine Safe.loop (I := fun _ s => Served serverFd s) h ?_
  rintro srv ⟨k, hist⟩ h
  refine ⟨fun _ => h, ?_⟩
  rw [turn]
  split
  · refine .call_record (fun _ hMoves _ => h.moves hMoves) ?_
    intro k₁ r k₂ hMoves _ hAnswer
    have h₁ := h.moves hMoves
    have hWf := (answer_connStep h₁.wf hAnswer).wf
    have hTold (fd : Fd) (c : ConnId) (hOpen : k₁.table fd = some (.client c)) : Told fd c k₂ :=
      Told.answer ⟨h₁.wf, .inl hOpen⟩ hAnswer
    refine (serves_record hWf ((events_quiet serverFd epollfd).handleEvent_safe trivial) ?_).bind
      fun _ _ hk => .ret hk.2
    intro ev hev c hReports
    rcases List.mem_append.mp hev with hev | hev
    · exact finished_safe _ ((h₁.finished hev hReports).answer hAnswer)
    · cases List.mem_singleton.mp hev
      cases r with
      | error e => exact hReports.elim
      | ok events =>
        obtain ⟨e, he, hOther, hIn, hOpen⟩ := hReports
        exact handleEvent_closes he hOther hIn (hTold e.fd c hOpen)
  · exact .ret h

open EPollSocketServer in
theorem epoll_served {srv : AbstractSocketServer} (h : Served serverFd (k, hist)) :
    Safe (environment threads admits).record (fun x s => waits x = true → Served serverFd s)
      (fun _ _ => True) (processClientConnect srv serverFd) (k, hist) := by
  refine .call_record nofun fun k₁ r k₂ hMoves _ hAnswer => ?_
  have h₂ := (h.moves hMoves).answer rfl hAnswer
  refine .call_record nofun fun k₃ r' k₄ hMoves _ hAnswer => ?_
  refine (runLoop_served ((h₂.moves hMoves).answer rfl hAnswer)).bind fun srv s hs => ?_
  cases r.toOption with
  | none => exact .ret trivial
  | some ep => exact .call nofun fun _ _ _ _ _ _ => .ret trivial

/-- Whatever the process and its kernel do, a server waits only when every
client that it was told of is closed. -/
theorem reported_closed (kind : ServerKind) {ip : Option String} {port : BitVec 32} {k' : Kernel}
    (hWf : k.Wf) {t : List (Event Syscall Reply Kernel)} {q : Server Unit}
    (hRun : Run (environment threads admits) (kind.processClientConnect ip port serverFd) k t q k')
    {x : Point Syscall Mark} (hx : q.point? = some x) (hWaits : waits x = true)
    {ev : Event Syscall Reply Kernel} (hev : ev ∈ t) {c : ConnId}
    (hReports : Reports serverFd ev c) : (k'.conns c).closed = true := by
  have hStart : Served serverFd (k, []) := ⟨hWf, by simp⟩
  have hSafe : Safe (environment threads admits).record
      (fun x s => waits x = true → Served serverFd s) (fun _ _ => True)
      (kind.processClientConnect ip port serverFd) (k, []) := by
    cases kind with
    | select => exact (select_served hStart).bind fun _ _ _ => .ret trivial
    | epoll => exact (epoll_served hStart).bind fun _ _ _ => .ret trivial
  exact (hSafe.point_record hRun hx hWaits).closed ev hev c hReports

end

end AndroidDemo.Socket
