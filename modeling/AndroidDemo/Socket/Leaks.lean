import AndroidDemo.Interaction.Replay
import AndroidDemo.Socket.EpollRules
import AndroidDemo.Socket.SelectClients
import AndroidDemo.Socket.SelectExit

/-! # The descriptors a server leaves open

`startServer` returns after a failure only. Which failures leave descriptors
open can be read off the history of the run.
-/

namespace AndroidDemo.Socket

open Interaction Program Kernel

/-- Every open descriptor of the process belongs to somebody else. -/
def OwnsNothing (k : Kernel) : Prop := ∀ fd o, k.table fd = some o → o = .foreign

/-- A failure behind which the source returns without closing what it opened:
the early returns of `createServer`, and the one of the select loop while a
client is open. -/
def Leaks : Event Syscall Reply Kernel → Prop
  | ⟨_, .setsockopt _, .error _, _⟩ => True
  | ⟨_, .bind _ _, .error _, _⟩ => True
  | ⟨k, .select _ _, .error _, _⟩ => ∃ fd, k.IsClient fd
  | _ => False

theorem not_leaks_of_fails {ev : Event Syscall Reply Kernel} (h : fails ev = false) : ¬ Leaks ev := by
  intro hLeaks
  unfold Leaks at hLeaks
  split at hLeaks
  · cases h
  · cases h
  · cases h
  · exact hLeaks

/-- The listening socket and the listed clients are all the server has open. -/
structure Owned (serverFd : Fd) (fds : List Fd) (k : Kernel) : Prop where
  clients : Clients serverFd fds k
  others : ∀ fd o, k.table fd = some o → o = .foreign ∨ fd = serverFd ∨ fd ∈ fds

namespace Owned

variable {threads : Bool} {serverFd : Fd} {fds : List Fd}

theorem frameStable : FrameStable threads (Owned serverFd fds) := by
  intro k k' hFrame h
  refine ⟨Clients.frameStable _ _ hFrame h.clients, ?_⟩
  intro fd o ho
  by_cases hForeign : o = .foreign
  · exact .inl hForeign
  · exact h.others fd o ((hFrame.own fd o hForeign).mp ho)

theorem created {k : Kernel} (h : OwnsNothing k) {fd : Fd} : Owned fd [] (k.install fd .listener) := by
  refine ⟨⟨by simp [install], ?_, List.nodup_nil⟩, ?_⟩
  · intro fd'
    apply iff_of_false List.not_mem_nil
    rintro ⟨c, hc⟩
    by_cases hne : fd' = fd
    · simp [install, hne] at hc
    · cases h fd' _ (by simpa [install, hne] using hc)
  · intro fd' o ho
    by_cases hne : fd' = fd
    · exact .inr (.inl hne)
    · exact .inl (h fd' o (by simpa [install, hne] using ho))

theorem not_ownsNothing {k : Kernel} (h : Owned serverFd fds k) : ¬ OwnsNothing k := by
  intro hNothing
  cases hNothing serverFd _ h.clients.listener

theorem accept {k k' : Kernel} (h : Owned serverFd fds k) {fd : Fd}
    (hAnswer : k.answer (.accept serverFd) (.ok fd) = some k') : Owned serverFd (fds ++ [fd]) k' := by
  refine ⟨h.clients.accept hAnswer, ?_⟩
  obtain ⟨_, rfl⟩ := answer_accept hAnswer
  intro fd' o ho
  by_cases hne : fd' = fd
  · exact .inr (.inr (by simp [hne]))
  · refine (h.others fd' o (by simpa [install, hne] using ho)).imp_right (Or.imp_right fun hMem => ?_)
    exact List.mem_append_left _ hMem

theorem close {before rest : List Fd} {fd : Fd} {k k' : Kernel} {r : Reply (.close fd)}
    (h : Owned serverFd (before ++ fd :: rest) k) (hAnswer : k.answer (.close fd) r = some k') :
    Owned serverFd (before ++ rest) k' := by
  refine ⟨h.clients.close hAnswer, ?_⟩
  rw [answer_close hAnswer]
  intro fd' o ho
  by_cases hne : fd' = fd
  · simp [hne] at ho
  · refine (h.others fd' o (by simpa [hne] using ho)).imp_right (Or.imp_right fun hMem => ?_)
    simpa [hne] using hMem

theorem close_server {k : Kernel} (h : Owned serverFd fds k) :
    OwnsNothing (k.closeFd serverFd) ↔ fds = [] := by
  constructor
  · intro hNothing
    refine List.eq_nil_iff_forall_not_mem.mpr fun fd hfd => ?_
    obtain ⟨c, hc⟩ := (h.clients.mem_iff fd).mp hfd
    have hne : fd ≠ serverFd := by
      rintro rfl
      cases hc.symm.trans h.clients.listener
    cases hNothing fd (.client c) (by simpa [hne] using hc)
  · rintro rfl fd o ho
    by_cases hne : fd = serverFd
    · simp [hne] at ho
    · rcases h.others fd o (by simpa [hne] using ho) with hForeign | hServer | hMem
      · exact hForeign
      · exact (hne hServer).elim
      · cases hMem

end Owned

theorem OwnsNothing.frame {threads : Bool} {k k' : Kernel} (hFrame : Frame threads k k')
    (h : OwnsNothing k) : OwnsNothing k' := by
  intro fd o ho
  by_contra hForeign
  exact hForeign (h fd o ((hFrame.own fd o hForeign).mp ho))

variable {threads : Bool} {admits : Kernel → (e : Syscall) → Reply e → Prop}

theorem owned_rules (threads : Bool) (admits : Kernel → (e : Syscall) → Reply e → Prop)
    (serverFd : Fd) :
    SelectRules threads admits (fun _ _ => True) serverFd (Owned serverFd) where
  moves _ _ _ h hMoves := Owned.frameStable.moves _ _ h hMoves
  head _ _ _ := trivial
  fits _ _ _ _ _ _ := trivial
  select _ _ _ _ _ _ _ _ := trivial
  accept _ k h :=
    acceptClient_safe Owned.frameStable.moves (fun _ _ => ⟨trivial, trivial⟩)
      (fun _ hk => ⟨rfl, hk⟩) (fun _ _ _ hk _ hAnswer => ⟨rfl, hk.accept hAnswer⟩) k h
  serve before fd rest k h := by
    apply serve_total (Owned.frameStable.echoStable fd)
      (fun _ _ => .of_forall (fun _ => trivial) fd) (fun _ _ => trivial) h
    intro k₁ r k₂ h₁ hAnswer
    exact .ret (h₁.close hAnswer)

theorem trivial_epollRules (serverFd : Fd) (epollfd : Option Fd) :
    EpollRules threads admits (fun _ _ => True) serverFd epollfd fun _ _ _ _ => True where
  moves _ _ _ _ _ _ _ := trivial
  head _ _ _ := trivial
  wait _ _ _ := trivial
  waited _ _ _ _ _ _ _ := trivial
  accept _ _ _ k _ _ :=
    acceptClient_safe frameStable_true.moves (fun _ _ => ⟨trivial, trivial⟩)
      (fun _ _ => ⟨rfl, trivial⟩) (fun _ _ _ _ _ _ => ⟨rfl, trivial⟩) k trivial
  add _ _ _ _ _ _ := trivial
  added _ _ _ _ _ _ _ _ _ _ := trivial
  skip _ _ _ _ _ _ := trivial
  receive _ ev _ _ _ _ :=
    serve_total (frameStable_true.echoStable ev.fd) (fun _ _ => .of_forall (fun _ => trivial) ev.fd)
      (fun _ _ => trivial) trivial fun _ _ _ _ _ =>
        .call (fun _ _ => trivial) fun _ _ _ _ _ _ => .ret trivial

/-- The epoll server never returns from `processClientConnect`. -/
theorem epoll_never_returns (ip : Option String) (port : BitVec 32) (serverFd : Fd) (k : Kernel) :
    Safe (environment threads admits) (fun _ _ => True) (fun _ _ => False)
      (ServerKind.epoll.processClientConnect ip port serverFd) k :=
  (epoll_safe (.new ip port) rfl (trivial_epollRules serverFd)
    (fun _ _ => ⟨trivial, fun _ _ _ _ => trivial⟩)
    fun _ _ _ => ⟨trivial, fun _ _ _ _ => trivial⟩).bind fun _ _ h => h.elim

/-! ## startServer -/

def CreateResult (result : Option Fd) (s : Kernel × List (Event Syscall Reply Kernel)) : Prop :=
  match result with
  | none => OwnsNothing s.1 ↔ ∀ ev ∈ s.2, ¬ Leaks ev
  | some fd => Owned fd [] s.1 ∧ ∀ ev ∈ s.2, ¬ Leaks ev

theorem createServer_record (ip : Option String) (port : BitVec 32) {k : Kernel}
    (h : OwnsNothing k) :
    Safe (environment threads admits).record (fun _ _ => True) CreateResult
      (createServer ip port) (k, []) := by
  refine .call_record (fun _ _ => trivial) ?_
  intro k₁ r k₂ hMoves _ hAnswer
  have h₁ := h.frame (interferes_frame hMoves)
  cases r with
  | error e =>
    cases hAnswer
    exact .ret (iff_of_true h₁ (by simp [Leaks]))
  | ok fd =>
    simp only [environment, answer, Option.ite_none_right_eq_some, Option.some.injEq] at hAnswer
    obtain ⟨_, rfl⟩ := hAnswer
    have h₂ : Owned fd [] (k₁.install fd .listener) := .created h₁
    refine .call_record (fun _ _ => trivial) ?_
    intro k₃ r k₄ hMoves _ hAnswer
    cases hAnswer
    have h₃ := Owned.frameStable.moves _ _ h₂ hMoves
    cases r with
    | error e =>
      exact .ret (iff_of_false h₃.not_ownsNothing fun hNone =>
        hNone ⟨k₃, .setsockopt fd, .error e, k₃⟩ (by simp) trivial)
    | ok u =>
      refine .call_record (fun _ _ => trivial) ?_
      intro k₅ r k₆ hMoves _ hAnswer
      cases hAnswer
      have h₅ := Owned.frameStable.moves _ _ h₃ hMoves
      cases r with
      | error e =>
        exact .ret (iff_of_false h₅.not_ownsNothing fun hNone =>
          hNone ⟨k₅, .bind fd ⟨ip, port.setWidth 16⟩, .error e, k₅⟩ (by simp) trivial)
      | ok u =>
        refine .call_record (fun _ _ => trivial) ?_
        intro k₇ r k₈ hMoves _ hAnswer
        cases hAnswer
        exact .ret ⟨Owned.frameStable.moves _ _ h₅ hMoves, by simp [Leaks]⟩

theorem Ended.close {serverFd : Fd} {hist h : List (Event Syscall Reply Kernel)}
    {srv : SelectSocketServer} {k k₁ k₂ : Kernel} {r : Reply (.close serverFd)}
    (hEnded : Ended (Owned serverFd) hist srv k h) (hHist : ∀ ev ∈ hist, ¬ Leaks ev)
    (hMoves : (environment threads admits).Interferes k k₁)
    (hAnswer : k₁.answer (.close serverFd) r = some k₂) :
    OwnsNothing k₂ ↔ ∀ ev ∈ h ++ [⟨k₁, .close serverFd, r, k₂⟩], ¬ Leaks ev := by
  obtain ⟨hOwned, h₀, nfds, readFds, e, rfl, t, rfl, hWaits⟩ := hEnded
  have hClosed := (Owned.frameStable.moves _ _ hOwned hMoves).close_server
  rw [← answer_close hAnswer] at hClosed
  have hBefore : ∀ ev ∈ hist ++ t, ¬ Leaks ev := List.forall_mem_append.mpr
    ⟨hHist, fun ev hev => not_leaks_of_fails (hWaits ev hev)⟩
  have hLast : ¬ Leaks ⟨k, .select nfds readFds, .error e, k⟩ ↔ srv.mClientFds = [] := by
    simp only [Leaks, ← hOwned.clients.mem_iff]
    rw [List.eq_nil_iff_forall_not_mem, not_exists]
  rw [hClosed, ← hLast]
  constructor
  · intro hNot
    refine List.forall_mem_append.mpr ⟨List.forall_mem_append.mpr ⟨hBefore, ?_⟩, ?_⟩
    · simpa using hNot
    · simp [Leaks]
  · intro hNone
    exact hNone _ (by simp)

theorem startServer_record (kind : ServerKind) (ip : Option String) (port : BitVec 32) {k : Kernel}
    (h : OwnsNothing k) :
    Safe (environment threads admits).record (fun _ _ => True)
      (fun _ s => OwnsNothing s.1 ↔ ∀ ev ∈ s.2, ¬ Leaks ev) (kind.startServer ip port) (k, []) := by
  apply (createServer_record ip port h).bind
  rintro (_ | serverFd) ⟨k₁, hist⟩ h₁
  · exact .ret h₁
  · cases kind with
    | select =>
      have hLoop := (owned_rules threads admits serverFd).processClientConnect_record
        (.new ip port) rfl h₁.1 hist
      have hEnd : Safe (environment threads admits).record (fun _ _ => True)
          (fun _ s => ∃ srv, Ended (Owned serverFd) hist srv s.1 s.2)
          (ServerKind.select.processClientConnect ip port serverFd) (k₁, hist) :=
        (hLoop.mono (fun _ _ _ => trivial) fun _ _ hEnded => hEnded).bind
          fun srv _ hEnded => .ret ⟨srv, hEnded⟩
      apply hEnd.bind
      rintro ⟨⟩ ⟨k₂, h₂⟩ ⟨srv, hEnded⟩
      refine .call_record (fun _ _ => trivial) ?_
      intro k₃ r k₄ hMoves _ hAnswer
      exact .ret (hEnded.close h₁.2 hMoves hAnswer)
    | epoll =>
      refine (((epoll_never_returns ip port serverFd k₁).record hist).mono (fun _ _ _ => trivial)
        fun _ _ hReturn => hReturn).bind ?_
      rintro _ _ ⟨hFalse, _⟩
      exact hFalse.elim

/-- For either server and every run that returns: all descriptors the call
obtained are closed just when neither `setsockopt` nor `bind` failed and no
`select` failed while a client was open. -/
theorem startServer_leak_free_iff (kind : ServerKind) (threads : Bool) {ip : Option String}
    {port : BitVec 32} {k k' : Kernel} (hStart : OwnsNothing k)
    {t : List (Event Syscall Reply Kernel)} {result : Bool}
    (hRun : Run (environment threads fun _ _ _ => True) (kind.startServer ip port)
      k t (.ret result) k') :
    OwnsNothing k' ↔ ∀ ev ∈ t, ¬ Leaks ev :=
  (startServer_record kind ip port hStart).result_record hRun

def idle : Kernel where
  table _ := none
  interest _ := none
  conns _ := { input := [], output := [], closed := false }
  nextConn := 0

theorem idle_ownsNothing : OwnsNothing idle := by
  rintro fd o ⟨⟩

theorem startServer_leak_free_select :
    ∃ t k', Run (environment true fun _ _ _ => True) (ServerKind.select.startServer none 9000)
        idle t (.ret false) k' ∧
      t.length = 6 ∧ (OwnsNothing k' ↔ ∀ ev ∈ t, ¬ Leaks ev) := by
  obtain ⟨t, q, k', hRun, hGood⟩ := exists_run_of_replay (environment true fun _ _ _ => True)
    (ServerKind.select.startServer none 9000) idle 40
    [⟨[], .socket, .ok 3⟩, ⟨[], .setsockopt 3, .ok ()⟩, ⟨[], .bind 3 ⟨none, 9000⟩, .ok ()⟩,
      ⟨[], .listen 3 10, .ok ()⟩, ⟨[], .select 4 {3}, .error (.other 9)⟩, ⟨[], .close 3, .ok ()⟩]
    (fun t q _ => decide (q.result? = some false ∧ t.length = 6)) (by decide)
  obtain ⟨hReturn, hLength⟩ := of_decide_eq_true hGood
  cases eq_ret_of_result? hReturn
  exact ⟨t, k', hRun, hLength, startServer_leak_free_iff .select true idle_ownsNothing hRun⟩

/-- The native methods hide what `startServer` returns: a call that returns has
returned `true`, whether the server was created or not, and leaks in the same runs. -/
theorem startServerNative_leak_free_iff (kind : ServerKind) (threads : Bool) {ip : Option String}
    {port : BitVec 32} {k k' : Kernel} (hStart : OwnsNothing k)
    {t : List (Event Syscall Reply Kernel)} {result : Bool}
    (hRun : Run (environment threads fun _ _ _ => True) (kind.startServerNative ip port)
      k t (.ret result) k') :
    result = true ∧ (OwnsNothing k' ↔ ∀ ev ∈ t, ¬ Leaks ev) := by
  have hSafe : Safe (environment threads fun _ _ _ => True).record (fun _ _ => True)
      (fun result s => result = true ∧ (OwnsNothing s.1 ↔ ∀ ev ∈ s.2, ¬ Leaks ev))
      (kind.startServerNative ip port) (k, []) :=
    (startServer_record kind ip port hStart).bind fun _ _ hLeaks => .ret ⟨rfl, hLeaks⟩
  exact hSafe.result_record hRun

/-- The port is in use, and `createServer` returns without closing its socket. -/
theorem startServer_leaks :
    ¬ ∀ (kind : ServerKind) (threads : Bool) (ip : Option String) (port : BitVec 32) (k k' : Kernel)
      (t : List (Event Syscall Reply Kernel)) (result : Bool), OwnsNothing k →
      Run (environment threads fun _ _ _ => True) (kind.startServer ip port) k t (.ret result) k' →
      OwnsNothing k' := by
  intro hAll
  obtain ⟨t, q, k', hRun, hGood⟩ := exists_run_of_replay (environment true fun _ _ _ => True)
    (ServerKind.select.startServer none 9000) idle 40
    [⟨[], .socket, .ok 3⟩, ⟨[], .setsockopt 3, .ok ()⟩, ⟨[], .bind 3 ⟨none, 9000⟩,
      .error (.other 98)⟩] (fun _ q k' => decide (q.result? = some false ∧ k'.table 3 = some .listener))
    (by decide)
  obtain ⟨hReturn, hOpen⟩ := of_decide_eq_true hGood
  cases eq_ret_of_result? hReturn
  cases hAll .select true none 9000 idle k' t false idle_ownsNothing hRun 3 _ hOpen

end AndroidDemo.Socket
