import AndroidDemo.Socket.Echo
import AndroidDemo.Socket.EpollArmed
import AndroidDemo.Socket.ReportedClients
import AndroidDemo.Socket.SelectClients

/-! # The two servers send the same answers

Both event loops serve each connection as `echo` says, whatever the order of
connections, of readiness and of chunks.
-/

namespace AndroidDemo.Socket

open Interaction Program Kernel

/-! ## Calls that leave the connections alone -/

def transfersData : Syscall → Bool
  | .read _ _ | .write _ _ | .close _ => true
  | _ => false

theorem Kernel.answer_conns {k k' : Kernel} {e : Syscall} {r : Reply e}
    (he : transfersData e = false) (h : k.answer e r = some k') : k'.conns = k.conns := by
  cases e with
  | read fd count | write fd buf | close fd => cases he
  | setsockopt fd | bind fd addr | listen fd backlog | malloc size =>
    cases h
    rfl
  | socket | accept fd | select nfds readFds | epollCreate size | epollCtlAdd epollfd fd events
  | epollCtlDel epollfd fd events =>
    cases r with
    | error e =>
      cases h
      rfl
    | ok value =>
      simp only [answer, Option.ite_none_right_eq_some, Option.some.injEq] at h
      obtain ⟨_, rfl⟩ := h
      rfl
  | epollWait epollfd maxEvents =>
    cases r with
    | error e =>
      cases h
      rfl
    | ok events =>
      simp only [answer, Option.ite_none_right_eq_some, Option.some.injEq] at h
      obtain ⟨_, rfl⟩ := h
      exact (foldl_report events k).2.1

variable {stream : ConnId → List UInt8}

theorem Settled.answer {k k' : Kernel} {e : Syscall} {r : Reply e} (h : Settled stream k)
    (he : transfersData e = false) (hAnswer : k.answer e r = some k') : Settled stream k' :=
  h.of_conns (answer_connStep h.wf hAnswer).wf (answer_conns he hAnswer)

/-! ## Under the assumptions of a quiet process -/

/-- What both servers guarantee at each point. Whenever they wait, each open
client is one they wait for, and nobody is served halfway. -/
def EchoGuarantee (stream : ConnId → List UInt8) : Point Syscall Mark → Kernel → Prop
  | .loop (.whileRunning _), k => Settled stream k
  | .call (.select nfds readFds), k =>
    Settled stream k ∧ ∀ fd, k.IsClient fd → fd ∈ readFds ∧ fd < nfds
  | .call (.epollWait _ _), k =>
    Settled stream k ∧ ∀ fd, k.IsClient fd → ∃ i, k.interest fd = some i ∧ i.armed = true
  | .call (.read fd _), k => Echoes stream k ∧ k.IsClient fd
  | .call (.write fd buf), k =>
    Echoes stream k ∧ ∃ c, k.table fd = some (.client c) ∧
      (k.conns c).output ++ buf <+: echo (stream c)
  | .call (.close fd), k =>
    Echoes stream k ∧ ∃ c, k.table fd = some (.client c) ∧ (k.conns c).output = echo (stream c)
  | .undefined _, _ => False
  | _, k => Echoes stream k

theorem echoGuarantee_points : EchoPoints (EchoGuarantee stream) stream where
  read _ c _ _ hEchoes hOpen := ⟨hEchoes, c, hOpen⟩
  write _ c _ _ hEchoes hOpen hSent := ⟨hEchoes, c, hOpen, hSent⟩
  close _ c _ hEchoes hOpen hSent := ⟨hEchoes, c, hOpen, hSent⟩
  malloc _ _ hEchoes := hEchoes
  readnLoop _ _ hEchoes := hEchoes

/-- The select server at its loop head. -/
structure Listed (stream : ConnId → List UInt8) (serverFd : Fd) (fds : List Fd) (k : Kernel) :
    Prop where
  clients : Clients serverFd fds k
  settled : Settled stream k
  fits : ∀ fd ∈ fds, fd < FD_SETSIZE

def SelectEcho (stream : ConnId → List UInt8) (serverFd : Fd) (x : Point Syscall Mark)
    (k : Kernel) : Prop :=
  EchoGuarantee stream x k ∧ ∀ fds, x = .loop (.whileRunning fds) → Listed stream serverFd fds k

theorem selectEcho_points {serverFd : Fd} : EchoPoints (SelectEcho stream serverFd) stream where
  read _ c _ _ hEchoes hOpen := ⟨⟨hEchoes, c, hOpen⟩, nofun⟩
  write _ c _ _ hEchoes hOpen hSent := ⟨⟨hEchoes, c, hOpen, hSent⟩, nofun⟩
  close _ c _ hEchoes hOpen hSent := ⟨⟨hEchoes, c, hOpen, hSent⟩, nofun⟩
  malloc _ _ hEchoes := ⟨hEchoes, nofun⟩
  readnLoop _ _ hEchoes := ⟨hEchoes, nofun⟩

section
variable (hFits : ∀ c, FrameFits (stream c))
include hFits

theorem serve_blocking {G : Point Syscall Mark → Kernel → Prop} (hG : EchoPoints G stream)
    {k : Kernel} (h : Settled stream k) {fd : Fd} (hOpen : k.IsClient fd)
    {α : Type} {Q : α → Kernel → Prop} {next : Reply (.close fd) → Server α}
    (hNext : ∀ k₁ r k₂, Frame false k k₁ → k₁.answer (.close fd) r = some k₂ →
      Settled stream k₂ → Total (environment false Blocking) G Q (next r) k₂) :
    Total (environment false Blocking) G Q
      ((echoFrame fd).bind fun _ => .call (.close fd) next) k := by
  obtain ⟨c, hc⟩ := hOpen
  refine serve_data (fun _ _ _ hAdmits => hAdmits.1) hG h hc (.inr ⟨hFits c, ?_⟩) hNext
  intro k size hAdmits
  cases hAdmits.2.2.2

theorem select_echo_rules {serverFd : Fd} (hServer : serverFd < FD_SETSIZE) :
    SelectRules false Blocking (SelectEcho stream serverFd) serverFd (Listed stream serverFd) where
  moves fds k k' h hMoves :=
    ⟨Clients.frameStable.moves _ _ h.clients hMoves, h.settled.moves hMoves, h.fits⟩
  head fds k h := ⟨h.settled, fun _ hEq => by cases hEq; exact h⟩
  fits fds k fd h hfd hFit := by
    rcases hfd with rfl | hfd
    · exact absurd hServer (Nat.not_lt.mpr hFit)
    · exact absurd (h.fits fd hfd) (Nat.not_lt.mpr hFit)
  select fds k nfds readFds h hMem hLt _ := by
    refine ⟨⟨h.settled, fun fd hfd => ?_⟩, nofun⟩
    have hIn := (hMem fd).mpr (.inr ((h.clients.mem_iff fd).mpr hfd))
    exact ⟨hIn, hLt fd hIn⟩
  accept srv k h := by
    refine acceptClient_safe (I := fun k => Clients serverFd srv.mClientFds k ∧ Settled stream k)
      (fun k k' h hMoves => ⟨Clients.frameStable.moves _ _ h.1 hMoves, h.2.moves hMoves⟩)
      (fun _ h => ⟨⟨h.2.echoes, nofun⟩, ⟨h.2.echoes, nofun⟩⟩)
      (fun _ h' => ⟨rfl, h'.1, h'.2, h.fits⟩) ?_ k ⟨h.clients, h.settled⟩
    intro k clientFD k' hk hAdmits hAnswer
    refine ⟨rfl, hk.1.accept hAnswer, hk.2.answer rfl hAnswer, ?_⟩
    intro fd hfd
    rcases List.mem_append.mp hfd with hfd | hfd
    · exact h.fits fd hfd
    · rw [List.mem_singleton.mp hfd]
      exact hAdmits.2.2.2
  serve before fd rest k h := by
    apply serve_blocking hFits selectEcho_points h.settled ((h.clients.mem_iff fd).mp (by simp))
    intro k₁ r k₂ hFrame hAnswer hSettled
    refine .ret ⟨(Clients.frameStable _ _ hFrame h.clients).close hAnswer, hSettled, ?_⟩
    intro fd' hfd'
    apply h.fits fd'
    rcases List.mem_append.mp hfd' with hfd' | hfd'
    · exact List.mem_append_left _ hfd'
    · exact List.mem_append_right _ (List.mem_cons_of_mem _ hfd')

theorem epoll_echo_rules (serverFd : Fd) (epollfd : Option Fd) :
    EpollRules false Blocking (EchoGuarantee stream) serverFd epollfd fun fds batch todo k =>
      ArmedInv serverFd epollfd fds batch todo k ∧ Settled stream k where
  moves _ _ _ _ _ h hMoves := ⟨ArmedInv.frameStable.moves _ _ h.1 hMoves, h.2.moves hMoves⟩
  head _ _ h := h.2
  wait _ _ h := ⟨h.2, h.1.all_armed⟩
  waited _ _ _ _ h hAdmits hAnswer := ⟨h.1.waited hAdmits.2.2.1 hAnswer, h.2.answer rfl hAnswer⟩
  accept srv ev rest k h hev := by
    refine acceptClient_safe
      (I := fun k => ArmedInv serverFd epollfd srv.mClientFds (ev :: rest) [] k ∧ Settled stream k)
      (fun k k' h hMoves => ⟨ArmedInv.frameStable.moves _ _ h.1 hMoves, h.2.moves hMoves⟩)
      (fun _ h => ⟨h.2.echoes, h.2.echoes⟩) ?_ ?_ k h
    · exact fun k hk => ⟨rfl, (hk.1.tail (hk.1.not_client hev)).listAll, hk.2⟩
    · intro k clientFD k' hk _ hAnswer
      exact ⟨rfl, (hk.1.tail (hk.1.not_client hev)).accept hk.1.isEpoll hAnswer,
        hk.2.answer rfl hAnswer⟩
  add _ _ _ _ _ h := h.2.echoes
  added _ _ _ _ _ _ _ h hAdmits hAnswer := ⟨h.1.added hAdmits.2.1 hAnswer, h.2.answer rfl hAnswer⟩
  skip _ ev _ _ h hev := ⟨h.1.tail fun hfd => h.1.hasIn ev List.mem_cons_self hfd hev, h.2⟩
  receive fds ev rest k h hev := by
    have hClient := (h.1.base.pending ev List.mem_cons_self).resolve_left hev
    apply serve_blocking hFits echoGuarantee_points h.2 hClient
    intro k₁ r k₂ hFrame hAnswer hSettled
    obtain ⟨h₂, hNone⟩ := (ArmedInv.frameStable _ _ hFrame h.1).close hev hAnswer
    refine .call (fun _ hMoves => (hSettled.moves hMoves).echoes) ?_
    intro k₃ r k₄ hMoves _ hAnswer
    cases alone_interferes hMoves
    have hSettled₄ := hSettled.answer rfl hAnswer
    exact .ret ⟨h₂.del hNone hAnswer, hSettled₄⟩

theorem select_echo {serverFd : Fd} (hServer : serverFd < FD_SETSIZE) (ip : Option String)
    (port : BitVec 32) {k : Kernel} (hStart : k.Listening serverFd) (hSettled : Settled stream k) :
    Safe (environment false Blocking) (SelectEcho stream serverFd) (fun _ k' => Settled stream k')
      (ServerKind.select.processClientConnect ip port serverFd) k := by
  refine ((select_echo_rules hFits hServer).safe (.new ip port) rfl
    ⟨Clients.start hStart, hSettled, ?_⟩).bind fun _ _ h => .ret h.settled
  intro fd hfd
  cases hfd

/-- Every run of a server, in every order of connections, readiness and chunks,
keeps to `EchoGuarantee`. -/
theorem processClientConnect_safe (kind : ServerKind) (ip : Option String) (port : BitVec 32)
    {serverFd : Fd} (hServer : serverFd < FD_SETSIZE) {k : Kernel} (hStart : k.Listening serverFd)
    (hSettled : Settled stream k) :
    Safe (environment false Blocking) (EchoGuarantee stream) (fun _ k' => Settled stream k')
      (kind.processClientConnect ip port serverFd) k := by
  cases kind with
  | select =>
    exact (select_echo hFits hServer ip port hStart hSettled).mono (fun _ _ h => h.1) fun _ _ h => h
  | epoll =>
    refine (epoll_safe (.new ip port) rfl (epoll_echo_rules hFits serverFd) ?_ ?_).bind
      fun _ _ h => h.elim
    · intro k₁ hMoves
      cases alone_interferes hMoves
      exact ⟨hSettled.echoes, fun r k₂ _ hAnswer =>
        ⟨.created hStart hAnswer, hSettled.answer rfl hAnswer⟩⟩
    · exact fun epollfd k₁ h₁ => ⟨h₁.2.echoes, fun r k₂ _ hAnswer =>
        ⟨h₁.1.addServer hAnswer, h₁.2.answer rfl hAnswer⟩⟩

/-- The service of an open client ends and sends the echo of its stream. -/
theorem serve_echo {k : Kernel} (h : Settled stream k) {fd : Fd} {c : ConnId}
    (hOpen : k.table fd = some (.client c)) {α : Type} {next : Reply (.close fd) → Server α}
    (hNext : ∀ r k₂, Settled stream k₂ → (k₂.conns c).closed = true →
      Total (environment false Blocking) (EchoGuarantee stream)
        (fun _ k' => (k'.conns c).closed = true ∧ (k'.conns c).output = echo (stream c))
        (next r) k₂) :
    Total (environment false Blocking) (EchoGuarantee stream)
      (fun _ k' => (k'.conns c).closed = true ∧ (k'.conns c).output = echo (stream c))
      ((echoFrame fd).bind fun _ => .call (.close fd) next) k := by
  apply serve_blocking hFits echoGuarantee_points h ⟨c, hOpen⟩
  intro k₁ r k₂ hFrame hAnswer hSettled
  apply hNext r k₂ hSettled
  rw [answer_close hAnswer]
  exact closed_closeFd ((hFrame.own fd _ (by simp)).mpr hOpen)

/-- The select server goes through its whole list and serves whoever is ready. -/
theorem receiveClientMsg_echo {serverFd : Fd} (hServer : serverFd < FD_SETSIZE)
    {srv : SelectSocketServer} {k : Kernel} (h : Listed stream serverFd srv.mClientFds k)
    (readFds : FdSet) :
    Total (environment false Blocking) (EchoGuarantee stream)
      (fun _ k' => ∀ fd ∈ readFds, ∀ c, k.table fd = some (.client c) →
        (k'.conns c).closed = true ∧ (k'.conns c).output = echo (stream c))
      (srv.receiveClientMsg readFds) k := by
  have hTotal : Total (environment false Blocking) (SelectEcho stream serverFd)
      (fun srv' k' => srv'.mRunning = srv.mRunning ∧ Listed stream serverFd srv'.mClientFds k')
      (srv.receiveClientMsg readFds) k :=
    (select_echo_rules hFits hServer).receiveClients_total [] h
  refine (hTotal.mono (fun _ _ hx => hx.1) fun _ _ hk => hk).of_runs fun t srv' k' hRun => ?_
  have hSettled := (hTotal.safe.result hRun).2.settled
  intro fd hfd c hOpen
  have hListed : fd ∈ srv.mClientFds := (h.clients.mem_iff fd).mpr ⟨c, hOpen⟩
  have hClosed := (receiveClients_closes hListed hfd ⟨h.settled.wf, .inl hOpen⟩).result hRun
  exact ⟨hClosed.closed, hSettled.echoes.complete c hClosed.closed⟩

end

theorem settled_of_waits {x : Point Syscall Mark} {k : Kernel} (h : EchoGuarantee stream x k)
    (hWaits : waits x = true) : Settled stream k := by
  unfold waits at hWaits
  split at hWaits
  · exact h
  · exact h.1
  · exact h.1
  · cases hWaits

/-- In every run of either server each connection is sent the echo of its own
stream and nothing else, is closed when all of it was sent, and is closed once.
Whoever is reported to be ready is closed so when the server waits again, and
from every loop head the service of clients that are ready ends that way. -/
theorem servers_echo (kind : ServerKind) (ip : Option String) (port : BitVec 32) {serverFd : Fd}
    (hServer : serverFd < FD_SETSIZE) {k k' : Kernel} (hStart : k.Listening serverFd)
    (hFits : ∀ c, FrameFits (k.conns c).input) {t : List (Event Syscall Reply Kernel)}
    {q : Server Unit}
    (hRun : Run (environment false Blocking) (kind.processClientConnect ip port serverFd) k t q k') :
    (∀ ev ∈ t, EchoGuarantee (fun c => (k.conns c).input) (.call ev.call) ev.before) ∧
      (∀ x, q.point? = some x → EchoGuarantee (fun c => (k.conns c).input) x k') ∧
      (t.filterMap closedConn).Nodup ∧
      (∀ x, q.point? = some x → waits x = true → ∀ ev ∈ t, ∀ c, Reports serverFd ev c →
        (k'.conns c).closed = true ∧ (k'.conns c).output = echo (k.conns c).input) ∧
      ∀ fds, q.point? = some (.loop (.whileRunning fds)) →
        (∀ fd c, k'.table fd = some (.client c) →
          Total (environment false Blocking) (EchoGuarantee fun c => (k.conns c).input)
            (fun _ k'' =>
              (k''.conns c).closed = true ∧ (k''.conns c).output = echo (k.conns c).input)
            ((echoFrame fd).bind fun _ => sys (.close fd)) k') ∧
        (kind = .select → ∀ (srv : SelectSocketServer) (readFds : FdSet), srv.mClientFds = fds →
          Total (environment false Blocking) (EchoGuarantee fun c => (k.conns c).input)
            (fun _ k'' => ∀ fd ∈ readFds, ∀ c, k'.table fd = some (.client c) →
              (k''.conns c).closed = true ∧ (k''.conns c).output = echo (k.conns c).input)
            (srv.receiveClientMsg readFds) k') ∧
        (kind = .epoll → ∀ (epollfd : Option Fd) (fd : Fd) (c : ConnId),
          k'.table fd = some (.client c) →
          Total (environment false Blocking) (EchoGuarantee fun c => (k.conns c).input)
            (fun _ k'' =>
              (k''.conns c).closed = true ∧ (k''.conns c).output = echo (k.conns c).input)
            (EPollSocketServer.receiveClientMsg epollfd fd) k') := by
  have hSettled := Settled.start hStart
  have hSafe := processClientConnect_safe hFits kind ip port hServer hStart hSettled
  refine ⟨fun ev hev => hSafe.event hRun hev, fun x hx => hSafe.point hRun hx,
    (closedConns_nodup hRun hStart.wf).1, ?_, fun fds hHead => ⟨?_, ?_, ?_⟩⟩
  · intro x hx hWaits ev hev c hReports
    have hClosed := reported_closed kind hStart.wf hRun hx hWaits hev hReports
    exact ⟨hClosed, (settled_of_waits (hSafe.point hRun hx) hWaits).echoes.complete c hClosed⟩
  · intro fd c hOpen
    apply serve_echo hFits (hSafe.point hRun hHead) hOpen
    exact fun _ k₂ hSettled₂ hClosed => .ret ⟨hClosed, hSettled₂.echoes.complete c hClosed⟩
  · rintro rfl srv readFds rfl
    have hListed := ((select_echo hFits hServer ip port hStart hSettled).point hRun hHead).2 _ rfl
    exact receiveClientMsg_echo hFits hServer hListed readFds
  · rintro rfl epollfd fd c hOpen
    apply serve_echo hFits (hSafe.point hRun hHead) hOpen
    intro r k₂ hSettled₂ hClosed
    refine .call (fun _ hMoves => (hSettled₂.moves hMoves).echoes) ?_
    intro k₃ r k₄ hMoves _ hAnswer
    have hSettled₄ := (hSettled₂.moves hMoves).answer rfl hAnswer
    have hClosed₄ := ((Finished.mk hSettled₂.wf hClosed).moves hMoves).answer hAnswer
    exact .ret ⟨hClosed₄.closed, hSettled₄.echoes.complete c hClosed₄.closed⟩

def sameRoundScript : List (Answer Syscall Reply Move) :=
  [⟨[], .epollCreate EPOLLEVENTS, .ok 4⟩, ⟨[], .epollCtlAdd (some 4) 3 EPOLLIN, .ok ()⟩,
    ⟨[], .epollWait (some 4) EPOLLEVENTS, .ok [⟨3, EPOLLIN⟩]⟩, ⟨[], .accept 3, .ok 5⟩,
    ⟨[], .epollCtlAdd (some 4) 5 (EPOLLIN ||| EPOLLONESHOT), .ok ()⟩,
    ⟨[], .epollWait (some 4) EPOLLEVENTS, .ok [⟨3, EPOLLIN⟩, ⟨5, EPOLLIN⟩]⟩, ⟨[], .accept 3, .ok 6⟩,
    ⟨[], .epollCtlAdd (some 4) 5 (EPOLLIN ||| EPOLLONESHOT), .error (.other 17)⟩,
    ⟨[], .epollCtlAdd (some 4) 6 (EPOLLIN ||| EPOLLONESHOT), .ok ()⟩,
    ⟨[], .read 5 4, .ok [0, 0]⟩, ⟨[], .read 5 2, .ok [0, 1]⟩, ⟨[], .write 5 [0, 0, 0, 1], .ok 4⟩,
    ⟨[], .malloc 2, true⟩, ⟨[], .read 5 1, .ok [65]⟩, ⟨[], .write 5 [65], .ok 1⟩,
    ⟨[], .close 5, .ok ()⟩, ⟨[], .epollCtlDel (some 4) 5 EPOLLIN, .error (.other 9)⟩]

/-- The second client connects in the round in which the first is ready, and is
served with it in the next one. -/
def sameRoundSelectScript : List (Answer Syscall Reply Move) :=
  [⟨[], .select 4 {3}, .ok {3}⟩, ⟨[], .accept 3, .ok 4⟩, ⟨[], .select 5 {4, 3}, .ok {4, 3}⟩,
    ⟨[], .accept 3, .ok 5⟩, ⟨[], .select 6 {5, 4, 3}, .ok {4, 5}⟩, ⟨[], .read 4 4, .ok [0, 0]⟩,
    ⟨[], .read 4 2, .ok [0, 1]⟩, ⟨[], .write 4 [0, 0, 0, 1], .ok 4⟩, ⟨[], .malloc 2, true⟩,
    ⟨[], .read 4 1, .ok [65]⟩, ⟨[], .write 4 [65], .ok 1⟩, ⟨[], .close 4, .ok ()⟩,
    ⟨[], .read 5 4, .ok [0, 0, 0, 1]⟩, ⟨[], .write 5 [0, 0, 0, 1], .ok 4⟩, ⟨[], .malloc 2, true⟩,
    ⟨[], .read 5 1, .ok [65]⟩, ⟨[], .write 5 [65], .ok 1⟩, ⟨[], .close 5, .ok ()⟩]

theorem servers_echo_same_round :
    (∃ t q k', Run (environment false Blocking) (ServerKind.epoll.processClientConnect none 9001 3)
        (listening 3 fun _ => [0, 0, 0, 1, 65]) t q k' ∧
      (t.filterMap closedConn = [0] ∧ k'.IsClient 6) ∧
      ∀ x, q.point? = some x → EchoGuarantee (fun _ => [0, 0, 0, 1, 65]) x k') ∧
    ∃ t q k', Run (environment false Blocking) (ServerKind.select.processClientConnect none 9000 3)
        (listening 3 fun _ => [0, 0, 0, 1, 65]) t q k' ∧ t.filterMap closedConn = [0, 1] ∧
      (k'.conns 1).closed = true ∧ (k'.conns 1).output = echo [0, 0, 0, 1, 65] := by
  have hFits : FrameFits [0, 0, 0, 1, 65] := fun _ => by decide
  have hStart := listening_start 3 fun _ => [0, 0, 0, 1, 65]
  constructor
  · obtain ⟨t, q, k', hRun, hGood⟩ := exists_run_of_replay (environment false Blocking)
      (ServerKind.epoll.processClientConnect none 9001 3) (listening 3 fun _ => [0, 0, 0, 1, 65]) 60
      sameRoundScript (fun t _ k' => decide (t.filterMap closedConn = [0] ∧ k'.IsClient 6))
      (by decide)
    have hAll := servers_echo .epoll none 9001 (by decide) hStart (fun _ => hFits) hRun
    exact ⟨t, q, k', hRun, of_decide_eq_true hGood, hAll.2.1⟩
  · obtain ⟨t, q, k', hRun, hGood⟩ := exists_run_of_replay (environment false Blocking)
      (ServerKind.select.processClientConnect none 9000 3) (listening 3 fun _ => [0, 0, 0, 1, 65]) 60
      sameRoundSelectScript
      (fun t q _ => decide (t.filterMap closedConn = [0, 1] ∧
        q.point? = some (.call (.select 4 {3})) ∧ ∃ ev ∈ t, Reports 3 ev 1)) (by decide)
    obtain ⟨hClosed, hWaits, ev, hev, hReports⟩ := of_decide_eq_true hGood
    have hAll := servers_echo .select none 9000 (by decide) hStart (fun _ => hFits) hRun
    exact ⟨t, q, k', hRun, hClosed, hAll.2.2.2.1 _ hWaits rfl ev hev 1 hReports⟩

/-! ## In any process -/

section
variable {threads : Bool}

theorem echoes_points : EchoPoints (fun _ => Echoes stream) stream where
  read _ _ _ _ hEchoes _ := hEchoes
  write _ _ _ _ hEchoes _ _ := hEchoes
  close _ _ _ hEchoes _ _ := hEchoes
  malloc _ _ hEchoes := hEchoes
  readnLoop _ _ hEchoes := hEchoes

theorem settled_echoStable {fd : Fd} :
    EchoStable threads Uninterrupted fd fun k => Settled stream k ∧ ¬ k.IsClient fd where
  moves _ _ h hMoves :=
    ⟨h.1.moves hMoves, fun hfd => h.2 (((interferes_frame hMoves).isClient fd).mp hfd)⟩
  read k count r k' h hAnswer := by
    refine ⟨h.1.of_conns (answer_connStep h.1.wf hAnswer).wf ?_,
      fun hfd => h.2 (((answer_read threads hAnswer).isClient fd).mp hfd)⟩
    cases r with
    | error e =>
      cases hAnswer
      rfl
    | ok bytes =>
      simp only [answer, Option.ite_none_right_eq_some, readFd] at hAnswer
      obtain ⟨_, hAnswer⟩ := hAnswer
      split at hAnswer
      · rename_i c hc
        exact (h.2 ⟨c, hc⟩).elim
      · cases hAnswer
        rfl
      · cases hAnswer
  write k buf r k' h hAnswer := by
    refine ⟨h.1.of_conns (answer_connStep h.1.wf hAnswer).wf ?_,
      fun hfd => h.2 (((answer_write threads hAnswer).isClient fd).mp hfd)⟩
    cases r with
    | error e =>
      cases hAnswer
      rfl
    | ok n =>
      simp only [answer, Option.ite_none_right_eq_some, writeFd] at hAnswer
      obtain ⟨_, hAnswer⟩ := hAnswer
      split at hAnswer
      · rename_i c hc
        exact (h.2 ⟨c, hc⟩).elim
      · cases hAnswer
        rfl
      · cases hAnswer

theorem serve_settled {k : Kernel} (h : Settled stream k) (fd : Fd) {α : Type}
    {Q : α → Kernel → Prop} {next : Reply (.close fd) → Server α}
    (hNext : ∀ r k', Settled stream k' →
      Total (environment threads Uninterrupted) (fun _ => Echoes stream) Q (next r) k') :
    Total (environment threads Uninterrupted) (fun _ => Echoes stream) Q
      ((echoFrame fd).bind fun _ => .call (.close fd) next) k := by
  by_cases hfd : k.IsClient fd
  · obtain ⟨c, hc⟩ := hfd
    exact serve_data (fun _ _ _ hAdmits => hAdmits) echoes_points h hc (.inl fun _ _ hk => hk)
      fun _ r k' _ _ hSettled => hNext r k' hSettled
  · apply serve_total settled_echoStable (fun _ hk => .of_forall (fun _ => hk.1.echoes) fd)
      (fun _ hk => hk.1.echoes) ⟨h, hfd⟩
    intro k₁ r k₂ h₁ hAnswer
    refine hNext r k₂ (h₁.1.of_conns (answer_connStep h₁.1.wf hAnswer).wf ?_)
    rw [answer_close hAnswer, Kernel.closeFd]
    split
    · rename_i c hc
      exact (h₁.2 ⟨c, hc⟩).elim
    · rfl

theorem accept_settled {srv : AbstractSocketServer} {serverFd : Fd} {k : Kernel}
    (h : Settled stream k) :
    Safe (environment threads Uninterrupted) (fun _ => Echoes stream)
      (fun srv' k' => srv'.mRunning = srv.mRunning ∧ Settled stream k') (acceptClient srv serverFd) k :=
  acceptClient_safe (fun _ _ h hMoves => h.moves hMoves) (fun _ h => ⟨h.echoes, h.echoes⟩)
    (fun _ h => ⟨rfl, h⟩) (fun _ _ _ h _ hAnswer => ⟨rfl, h.answer rfl hAnswer⟩) k h

theorem select_settled_rules (serverFd : Fd) :
    SelectRules threads Uninterrupted (fun _ => Echoes stream) serverFd fun _ => Settled stream where
  moves _ _ _ h hMoves := h.moves hMoves
  head _ _ h := h.echoes
  fits _ _ _ h _ _ := h.echoes
  select _ _ _ _ h _ _ _ := h.echoes
  accept _ _ h := accept_settled h
  serve _ fd _ _ h := serve_settled h fd fun _ _ hk => .ret hk

theorem epoll_settled_rules (serverFd : Fd) (epollfd : Option Fd) :
    EpollRules threads Uninterrupted (fun _ => Echoes stream) serverFd epollfd
      fun _ _ _ => Settled stream where
  moves _ _ _ _ _ h hMoves := h.moves hMoves
  head _ _ h := h.echoes
  wait _ _ h := h.echoes
  waited _ _ _ _ h _ hAnswer := h.answer rfl hAnswer
  accept _ _ _ _ h _ := accept_settled h
  add _ _ _ _ _ h := h.echoes
  added _ _ _ _ _ _ _ h _ hAnswer := h.answer rfl hAnswer
  skip _ _ _ _ h _ := h
  receive _ ev _ _ h _ := serve_settled h ev.fd fun _ _ hk =>
    .call (fun _ hMoves => (hk.moves hMoves).echoes)
      fun _ _ _ hMoves _ hAnswer => .ret ((hk.moves hMoves).answer rfl hAnswer)

/-- Whatever other threads do, a connection that a server has closed was sent the
echo of its stream. -/
theorem closed_output (kind : ServerKind) {ip : Option String} {port : BitVec 32} {serverFd : Fd}
    {k k' : Kernel} (h : Settled stream k) {t : List (Event Syscall Reply Kernel)} {q : Server Unit}
    (hRun : Run (environment threads Uninterrupted) (kind.processClientConnect ip port serverFd)
      k t q k') {c : ConnId} (hClosed : (k'.conns c).closed = true) :
    (k'.conns c).output = echo (stream c) := by
  have hSafe : Safe (environment threads Uninterrupted) (fun _ => Echoes stream)
      (fun _ => Echoes stream) (kind.processClientConnect ip port serverFd) k := by
    cases kind with
    | select =>
      exact ((select_settled_rules serverFd).safe (.new ip port) rfl h).bind
        fun _ _ hk => .ret hk.echoes
    | epoll =>
      refine (epoll_safe (.new ip port) rfl (epoll_settled_rules serverFd) ?_ ?_).bind
        fun _ _ hk => hk.elim
      · exact fun k₁ hMoves => ⟨(h.moves hMoves).echoes,
          fun r k₂ _ hAnswer => (h.moves hMoves).answer rfl hAnswer⟩
      · exact fun _ k₁ h₁ => ⟨h₁.echoes, fun r k₂ _ hAnswer => h₁.answer rfl hAnswer⟩
  exact (hSafe.always hRun).complete c hClosed

end

end AndroidDemo.Socket
