import AndroidDemo.Interaction.Simulation
import AndroidDemo.Socket.SelectExit
import AndroidDemo.Socket.Servers
import Mathlib.Algebra.Order.BigOperators.Group.List

/-! # Writes that accept less than they are given

The servers do not look at what `write` returns. A run with short writes is
compared with the run that makes the same calls and has all of them accepted.
-/

namespace AndroidDemo.Socket

open Interaction Program Kernel EPollSocketServer

/-! ## The servers ignore the results of write -/

def isWrite : Syscall → Prop
  | .write _ _ => True
  | _ => False

theorem compositional_ignores : Compositional (fun e => ¬ isWrite e)
    fun α (p : Server α) => p.Ignores isWrite := Ignores.compositional _

theorem echoFrame_ignores (fd : Fd) : (echoFrame fd).Ignores isWrite :=
  echoFrame_parts compositional_ignores (fun _ _ => False.elim) (fun _ => False.elim)
    (fun _ _ _ hNext => ⟨fun _ _ _ => rfl, fun _ => hNext⟩) fd

theorem acceptClient_ignores (srv : AbstractSocketServer) (serverFd : Fd) :
    (acceptClient srv serverFd).Ignores isWrite := by
  refine .loop (fun _ => ?_) ()
  exact ⟨False.elim, fun _ => trivial⟩

theorem select_ignores (srv : SelectSocketServer) (serverFd : Fd) :
    (srv.processClientConnect serverFd).Ignores isWrite :=
  select_parts compositional_ignores echoFrame_ignores (fun _ => False.elim) acceptClient_ignores
    (fun _ _ => False.elim) srv serverFd

theorem epoll_ignores (srv : AbstractSocketServer) (serverFd : Fd) :
    (processClientConnect srv serverFd).Ignores isWrite := by
  refine epoll_parts compositional_ignores (fun _ => False.elim) (fun _ _ _ => False.elim)
    (fun _ => False.elim) serverFd ?_ srv
  intro srv epollfd
  refine runLoop_parts compositional_ignores (fun _ _ => False.elim) serverFd epollfd ?_ srv
  exact fun srv events => handleEvent_parts compositional_ignores echoFrame_ignores
    (fun _ => False.elim) acceptClient_ignores (fun _ _ _ => False.elim) (fun _ _ _ => False.elim)
    srv epollfd events serverFd

theorem processClientConnect_ignores (kind : ServerKind) (ip : Option String) (port : BitVec 32)
    (serverFd : Fd) : (kind.processClientConnect ip port serverFd).Ignores isWrite := by
  cases kind with
  | select => exact (select_ignores _ serverFd).bind fun _ => trivial
  | epoll => exact (epoll_ignores _ serverFd).bind fun _ => trivial

/-! ## Kernels that differ in what write accepted -/

namespace Kernel

def setConns (k : Kernel) (conns : ConnId → Conn) : Kernel := { k with conns := conns }

theorem interfere_setConns {k k₁ : Kernel} {m : Move} (conns : ConnId → Conn)
    (h : k.interfere m = some k₁) : (k.setConns conns).interfere m = some (k₁.setConns conns) := by
  cases m <;>
  · simp only [interfere, Option.ite_none_right_eq_some, Option.some.injEq] at h ⊢
    obtain ⟨hAllowed, rfl⟩ := h
    exact ⟨hAllowed, rfl⟩

theorem report_setConns (k : Kernel) (conns : ConnId → Conn) (ev : EpollEvent) :
    (k.setConns conns).report ev = (k.report ev).setConns conns := by
  simp only [report, setConns]
  split
  · split <;> rfl
  · rfl

theorem foldl_report_setConns (events : List EpollEvent) (k : Kernel) (conns : ConnId → Conn) :
    events.foldl report (k.setConns conns) = (events.foldl report k).setConns conns := by
  induction events generalizing k with
  | nil => rfl
  | cons ev events ih => rw [List.foldl_cons, List.foldl_cons, report_setConns, ih]

theorem answer_setConns {k k₁ : Kernel} {e : Syscall} {r : Reply e} (conns : ConnId → Conn)
    (he : transfersData e = false) (h : k.answer e r = some k₁) :
    (k.setConns conns).answer e r = some (k₁.setConns conns) := by
  cases e with
  | read fd count | write fd buf | close fd => cases he
  | setsockopt fd | bind fd addr | listen fd backlog | malloc size =>
    cases h
    rfl
  | socket | accept fd | select nfds readFds | epollCreate size | epollCtlAdd epollfd fd events
  | epollCtlDel epollfd fd events =>
    cases r with
    | error e =>
      cases h
      rfl
    | ok value =>
      simp only [answer, Option.ite_none_right_eq_some, Option.some.injEq] at h ⊢
      obtain ⟨hAllowed, rfl⟩ := h
      exact ⟨hAllowed, rfl⟩
  | epollWait epollfd maxEvents =>
    cases r with
    | error e =>
      cases h
      rfl
    | ok events =>
      simp only [answer, Option.ite_none_right_eq_some, Option.some.injEq] at h ⊢
      obtain ⟨hAllowed, rfl⟩ := h
      exact ⟨hAllowed, foldl_report_setConns events k conns⟩

/-- The kernels agree but for the bytes that were accepted. -/
structure SameButOutput (k k' : Kernel) : Prop where
  table : k'.table = k.table
  interest : k'.interest = k.interest
  nextConn : k'.nextConn = k.nextConn
  input : ∀ c, (k'.conns c).input = (k.conns c).input
  closed : ∀ c, (k'.conns c).closed = (k.conns c).closed

namespace SameButOutput

variable {k k₁ k' : Kernel}

theorem refl (k : Kernel) : SameButOutput k k := ⟨rfl, rfl, rfl, fun _ => rfl, fun _ => rfl⟩

theorem eq_setConns (h : SameButOutput k k') : k' = k.setConns k'.conns := by
  obtain ⟨table, interest, conns, nextConn⟩ := k'
  obtain ⟨rfl, rfl, rfl, _, _⟩ := h
  rfl

theorem setConns (h : SameButOutput k k') (hConns : k₁.conns = k.conns) :
    SameButOutput k₁ (k₁.setConns k'.conns) where
  table := rfl
  interest := rfl
  nextConn := rfl
  input c := by rw [hConns]; exact h.input c
  closed c := by rw [hConns]; exact h.closed c

theorem isClient (h : SameButOutput k k') (fd : Fd) : k'.IsClient fd ↔ k.IsClient fd := by
  rw [IsClient, IsClient, h.table]

theorem unread (h : SameButOutput k k') (fd : Fd) : k'.unread fd = k.unread fd := by
  rw [Kernel.unread, Kernel.unread, h.table]
  split
  · exact h.input _
  · rfl

theorem updateConn (h : SameButOutput k k') (c : ConnId) {f g : Conn → Conn}
    (hInput : ∀ conn conn', conn'.input = conn.input → (g conn').input = (f conn).input)
    (hClosed : ∀ conn conn', conn'.closed = conn.closed → (g conn').closed = (f conn).closed) :
    SameButOutput (k.updateConn c f) (k'.updateConn c g) where
  table := h.table
  interest := h.interest
  nextConn := h.nextConn
  input c' := by
    by_cases hc : c' = c
    · subst hc
      simpa [Kernel.updateConn] using hInput _ _ (h.input c')
    · simpa [Kernel.updateConn, hc] using h.input c'
  closed c' := by
    by_cases hc : c' = c
    · subst hc
      simpa [Kernel.updateConn] using hClosed _ _ (h.closed c')
    · simpa [Kernel.updateConn, hc] using h.closed c'

theorem release (h : SameButOutput k k') (fd : Fd) : SameButOutput (k.release fd) (k'.release fd) where
  table := by simp only [Kernel.release, h.table]
  interest := by simp only [Kernel.release, h.interest]
  nextConn := h.nextConn
  input := h.input
  closed := h.closed

theorem closeFd (h : SameButOutput k k') (fd : Fd) : SameButOutput (k.closeFd fd) (k'.closeFd fd) := by
  rw [Kernel.closeFd, Kernel.closeFd, h.table]
  split
  · exact (h.release fd).updateConn _ (fun _ _ hConn => hConn) fun _ _ _ => rfl
  · exact h.release fd

theorem read (h : SameButOutput k k') {fd : Fd} {count : SizeT} {r : Reply (.read fd count)}
    (hAnswer : k.answer (.read fd count) r = some k₁) :
    ∃ k₁', k'.answer (.read fd count) r = some k₁' ∧ SameButOutput k₁ k₁' := by
  cases r with
  | error e =>
    cases hAnswer
    exact ⟨k', rfl, h⟩
  | ok bytes =>
    simp only [answer, Option.ite_none_right_eq_some] at hAnswer ⊢
    obtain ⟨hLen, hAnswer⟩ := hAnswer
    rw [readFd] at hAnswer
    rw [readFd, h.table]
    split at hAnswer
    · rename_i c hc
      simp only [h.input, Option.ite_none_right_eq_some, Option.some.injEq] at hAnswer ⊢
      obtain ⟨hPrefix, rfl⟩ := hAnswer
      refine ⟨_, ⟨hLen, hPrefix, rfl⟩, h.updateConn c ?_ fun _ _ hConn => hConn⟩
      intro conn conn' hConn
      exact congrArg (List.drop bytes.length) hConn
    · cases hAnswer
      exact ⟨k', ⟨hLen, rfl⟩, h⟩
    · cases hAnswer

/-- Whatever `write` answers on the one side, it can accept everything on the other. -/
theorem write (h : SameButOutput k k') {fd : Fd} {buf : List UInt8} {r : Reply (.write fd buf)}
    (hAnswer : k.answer (.write fd buf) r = some k₁) :
    ∃ r' k₁', Uninterrupted k' (.write fd buf) r' ∧ k'.answer (.write fd buf) r' = some k₁' ∧
      SameButOutput k₁ k₁' := by
  by_cases hClient : k.IsClient fd
  · obtain ⟨c, hc⟩ := hClient
    have hAll : k'.answer (.write fd buf) (.ok buf.length) =
        some (k'.updateConn c fun conn => { conn with output := conn.output ++ buf }) := by
      simp [answer, writeFd, h.table, hc]
    refine ⟨.ok buf.length, _, fun _ => rfl, hAll, ?_⟩
    cases r with
    | error e =>
      cases hAnswer
      have hSame : k.updateConn c (fun conn => conn) = k := by simp [Kernel.updateConn]
      rw [← hSame]
      exact h.updateConn c (fun _ _ hConn => hConn) fun _ _ hConn => hConn
    | ok n =>
      simp only [answer, Option.ite_none_right_eq_some, writeFd, hc, Option.some.injEq] at hAnswer
      obtain ⟨_, rfl⟩ := hAnswer
      exact h.updateConn c (fun _ _ hConn => hConn) fun _ _ hConn => hConn
  · have hClient' : ¬ k'.IsClient fd := by rwa [h.isClient]
    cases r with
    | error e =>
      cases hAnswer
      exact ⟨.error e, k', hClient', rfl, h⟩
    | ok n =>
      simp only [answer, Option.ite_none_right_eq_some] at hAnswer
      obtain ⟨hLen, hAnswer⟩ := hAnswer
      rw [writeFd] at hAnswer
      split at hAnswer
      · rename_i c hc
        exact (hClient ⟨c, hc⟩).elim
      · rename_i hForeign
        cases hAnswer
        refine ⟨.ok n, k', fun hc => (hClient' hc).elim, ?_, h⟩
        simp [answer, writeFd, h.table, hForeign, hLen]
      · cases hAnswer

theorem close (h : SameButOutput k k') {fd : Fd} {r : Reply (.close fd)}
    (hAnswer : k.answer (.close fd) r = some k₁) :
    ∃ k₁', k'.answer (.close fd) r = some k₁' ∧ SameButOutput k₁ k₁' := by
  refine ⟨k'.closeFd fd, ?_, answer_close hAnswer ▸ h.closeFd fd⟩
  cases r with
  | error e => rfl
  | ok u =>
    simp only [answer, h.table] at hAnswer ⊢
    split at hAnswer
    · cases hAnswer
    · rename_i hOpen
      rw [if_neg hOpen]

end SameButOutput

theorem uninterrupted_of_not_transfers (k : Kernel) {e : Syscall} (r : Reply e)
    (he : transfersData e = false) : Uninterrupted k e r := by
  cases e with
  | read fd count | write fd buf | close fd => cases he
  | _ => trivial

theorem readsArrive_simulates (threads : Bool) :
    Simulates (environment threads ReadsArrive) (environment threads Uninterrupted) isWrite
      SameButOutput where
  moves k m k₁ k' h hMove := by
    have hConns : k₁.conns = k.conns := interferes_conns (.single ⟨m, hMove⟩)
    refine ⟨k₁.setConns k'.conns, .single ⟨m, ?_⟩, h.setConns hConns⟩
    simp only [environment, Option.ite_none_right_eq_some] at hMove ⊢
    rw [h.eq_setConns]
    exact ⟨hMove.1, interfere_setConns _ hMove.2⟩
  answer k k' e r k₁ h hAdmits hAnswer := by
    cases he : transfersData e with
    | false =>
      refine ⟨r, k₁.setConns k'.conns, .inr rfl, uninterrupted_of_not_transfers k' r he, ?_,
        h.setConns (answer_conns he hAnswer)⟩
      rw [h.eq_setConns]
      exact answer_setConns _ he hAnswer
    | true =>
      cases e with
      | read fd count =>
        obtain ⟨k₁', hAnswer', h₁⟩ := h.read hAnswer
        refine ⟨r, k₁', .inr rfl, ?_, hAnswer', h₁⟩
        cases r with
        | error e => exact fun hClient => hAdmits ((h.isClient fd).mp hClient)
        | ok bytes => exact fun hNil => (h.unread fd).trans (hAdmits hNil)
      | write fd buf =>
        obtain ⟨r', k₁', hAdmits', hAnswer', h₁⟩ := h.write hAnswer
        exact ⟨r', k₁', .inl trivial, hAdmits', hAnswer', h₁⟩
      | close fd =>
        obtain ⟨k₁', hAnswer', h₁⟩ := h.close hAnswer
        exact ⟨r, k₁', .inr rfl, trivial, hAnswer', h₁⟩
      | _ => cases he

end Kernel

/-! ## What is accepted of what is offered -/

def offered (c : ConnId) : Event Syscall Reply Kernel → List UInt8
  | ⟨k, .write fd buf, _, _⟩ => if k.table fd = some (.client c) then buf else []
  | _ => []

def accepted (c : ConnId) : Event Syscall Reply Kernel → List UInt8
  | ⟨k, .write fd buf, .ok n, _⟩ => if k.table fd = some (.client c) then buf.take n else []
  | _ => []

theorem accepted_prefix (c : ConnId) (ev : Event Syscall Reply Kernel) :
    accepted c ev <+: offered c ev := by
  obtain ⟨k, e, r, k₁⟩ := ev
  cases e with
  | write fd buf =>
    cases r with
    | error e => exact List.nil_prefix
    | ok n =>
      simp only [accepted, offered]
      split
      · exact List.take_prefix n buf
      · exact List.prefix_rfl
  | _ => exact List.nil_prefix

theorem flatMap_eq_iff_of_prefixes {α β : Type} {f g : α → List β} {l : List α}
    (h : ∀ a ∈ l, f a <+: g a) : l.flatMap f = l.flatMap g ↔ ∀ a ∈ l, f a = g a := by
  induction l with
  | nil => simp
  | cons a l ih =>
    rw [List.forall_mem_cons] at h ⊢
    rw [← ih h.2, List.flatMap_cons, List.flatMap_cons]
    constructor
    · intro hEq
      obtain ⟨rest, hRest⟩ := h.1
      rw [← hRest, List.append_assoc, List.append_cancel_left_eq] at hEq
      have hLen : (l.flatMap f).length ≤ (l.flatMap g).length := by
        rw [List.length_flatMap, List.length_flatMap]
        exact List.sum_le_sum fun b hb => (h.2 b hb).length_le
      have hNil : rest = [] := by
        apply List.eq_nil_of_length_eq_zero
        rw [hEq, List.length_append] at hLen
        omega
      subst hNil
      exact ⟨by simpa using hRest, hEq⟩
    · rintro ⟨hHead, hTail⟩
      rw [hHead, hTail]

theorem output_updateConn (k : Kernel) (c c' : ConnId) {f : Conn → Conn}
    (hf : ∀ conn, (f conn).output = conn.output) :
    ((k.updateConn c' f).conns c).output = (k.conns c).output := by
  by_cases hc : c = c'
  · subst hc
    simp [updateConn, hf]
  · simp [updateConn, hc]

theorem answer_output {k k₁ : Kernel} {e : Syscall} {r : Reply e} (h : k.answer e r = some k₁)
    (c : ConnId) : (k₁.conns c).output = (k.conns c).output ++ accepted c ⟨k, e, r, k₁⟩ := by
  cases he : transfersData e with
  | false =>
    rw [answer_conns he h]
    cases e with
    | read fd count | write fd buf | close fd => cases he
    | _ => exact (List.append_nil _).symm
  | true =>
    cases e with
    | read fd count =>
      refine Eq.trans ?_ (List.append_nil _).symm
      cases r with
      | error e =>
        cases h
        rfl
      | ok bytes =>
        simp only [answer, Option.ite_none_right_eq_some, readFd] at h
        obtain ⟨_, h⟩ := h
        split at h
        · rename_i c' _
          simp only [Option.ite_none_right_eq_some, Option.some.injEq] at h
          obtain ⟨_, rfl⟩ := h
          exact output_updateConn k c c' fun _ => rfl
        · cases h
          rfl
        · cases h
    | write fd buf =>
      cases r with
      | error e =>
        cases h
        exact (List.append_nil _).symm
      | ok n =>
        simp only [answer, Option.ite_none_right_eq_some, writeFd] at h
        obtain ⟨_, h⟩ := h
        rw [accepted]
        split at h
        · rename_i c' hOpen
          cases h
          by_cases hc : c = c'
          · subst hc
            simp [updateConn, hOpen]
          · simp [updateConn, hOpen, hc, Ne.symm hc]
        · rename_i hForeign
          cases h
          simp [hForeign]
        · cases h
    | close fd =>
      refine Eq.trans ?_ (List.append_nil _).symm
      rw [answer_close h, closeFd]
      split
      · rename_i c' _
        exact output_updateConn (k.release fd) c c' fun _ => rfl
      · rfl
    | _ => cases he

theorem run_output {threads : Bool} {admits : Kernel → (e : Syscall) → Reply e → Prop} {α : Type}
    {p q : Server α} {k k' : Kernel} {t : List (Event Syscall Reply Kernel)}
    (h : Run (environment threads admits) p k t q k') (c : ConnId) :
    (k'.conns c).output = (k.conns c).output ++ t.flatMap (accepted c) := by
  induction h with
  | refl p k => simp
  | call hMoves _ hAnswer _ ih =>
    rw [ih, answer_output hAnswer c, interferes_conns hMoves, List.flatMap_cons, List.append_assoc]
  | iter _ ih => exact ih

theorem accepted_eq_offered {c : ConnId} {ev : Event Syscall Reply Kernel}
    (h : Uninterrupted ev.before ev.call ev.reply) : accepted c ev = offered c ev := by
  obtain ⟨k, e, r, k₁⟩ := ev
  cases e with
  | write fd buf =>
    by_cases hOpen : k.table fd = some (.client c)
    · cases r with
      | error e => exact (h ⟨c, hOpen⟩).elim
      | ok n =>
        have hAll : n = buf.length := h ⟨c, hOpen⟩
        simp [accepted, offered, hOpen, hAll]
    · cases r <;> simp [accepted, offered, hOpen]
  | _ => rfl

theorem offered_eq_of_sameCall {c : ConnId} {ev ev' : Event Syscall Reply Kernel}
    (h : SameCall SameButOutput ev ev') : offered c ev = offered c ev' := by
  obtain ⟨k, e, r, k₁⟩ := ev
  obtain ⟨k', e', r', k₁'⟩ := ev'
  obtain ⟨hCall, hBefore⟩ := h
  cases hCall
  cases e with
  | write fd buf =>
    have hTable : k'.table = k.table := hBefore.table
    simp only [offered, hTable]
  | _ => rfl

/-- What a server offers to a connection is its echo, whatever is accepted of it. -/
theorem offered_eq_echo (kind : ServerKind) {ip : Option String} {port : BitVec 32}
    {threads : Bool} {serverFd : Fd} {k k' : Kernel} (hStart : k.Listening serverFd)
    {t : List (Event Syscall Reply Kernel)} {q : Server Unit}
    (hRun : Run (environment threads ReadsArrive) (kind.processClientConnect ip port serverFd)
      k t q k') {c : ConnId} (hClosed : (k'.conns c).closed = true) :
    t.flatMap (offered c) = echo (k.conns c).input := by
  obtain ⟨t', k₁, hRun', hSame, hEvents⟩ := (readsArrive_simulates threads).run hRun
    (processClientConnect_ignores kind ip port serverFd) (.refl k)
  have hEcho := closed_output kind (Settled.start hStart) hRun' ((hSame.closed c).trans hClosed)
  have hAll : ∀ ev ∈ t', accepted c ev = offered c ev :=
    fun ev hev => accepted_eq_offered (hRun'.admits ev hev).1
  have hOffered : t.flatMap (offered c) = t'.flatMap (offered c) := by
    clear hRun hRun' hAll
    induction hEvents with
    | nil => rfl
    | cons hHead _ ih => rw [List.flatMap_cons, List.flatMap_cons, offered_eq_of_sameCall hHead, ih]
  rw [hOffered, ← (flatMap_eq_iff_of_prefixes fun ev _ => accepted_prefix c ev).mpr hAll, ← hEcho,
    run_output hRun' c, (hStart.conns c).1, List.nil_append]

/-- When a connection is closed, the whole of its first frame was sent back just
when no `write` to it was cut short. -/
theorem echo_complete_iff (kind : ServerKind) {ip : Option String} {port : BitVec 32}
    {threads : Bool} {serverFd : Fd} {k k' : Kernel} (hStart : k.Listening serverFd)
    {t : List (Event Syscall Reply Kernel)} {q : Server Unit}
    (hRun : Run (environment threads ReadsArrive) (kind.processClientConnect ip port serverFd)
      k t q k') {c : ConnId} {header body rest : List UInt8}
    (hStream : (k.conns c).input = header ++ body ++ rest) (hHeader : header.length = 4)
    (hBody : body.length = bigEndian header) (hClosed : (k'.conns c).closed = true) :
    (k'.conns c).output = header ++ body ↔ ∀ ev ∈ t, accepted c ev = offered c ev := by
  have hEcho : echo (k.conns c).input = header ++ body := by
    rw [hStream, List.append_assoc]
    have hTake : (header ++ (body ++ rest)).take 4 = header := by rw [← hHeader, List.take_left]
    have hDrop : (header ++ (body ++ rest)).drop 4 = body ++ rest := by
      rw [← hHeader, List.drop_left]
    rw [echo_of_complete (n := body.length) (by simp [hHeader]) (by rw [hBody, hTake])
      (by simp [hDrop]), hTake, hDrop, List.take_left]
  rw [← flatMap_eq_iff_of_prefixes fun ev _ => accepted_prefix c ev,
    offered_eq_echo kind hStart hRun hClosed, hEcho, run_output hRun c, (hStart.conns c).1, List.nil_append]

/-- Two clients of the epoll server; the frame of the first is accepted as a whole. -/
theorem echo_complete_letter :
    ∃ t q k', Run (environment false ReadsArrive) (ServerKind.epoll.processClientConnect none 9001 3)
        (listening 3 fun _ => [0, 0, 0, 1, 65]) t q k' ∧
      (∀ ev ∈ t, accepted 0 ev = offered 0 ev) ∧ (k'.conns 0).output = [0, 0, 0, 1] ++ [65] := by
  obtain ⟨t, q, k', hRun, hGood⟩ := exists_run_of_replay (environment false ReadsArrive)
    (ServerKind.epoll.processClientConnect none 9001 3) (listening 3 fun _ => [0, 0, 0, 1, 65]) 60
    sameRoundScript (fun t _ k' => decide ((k'.conns 0).closed = true ∧
      ∀ ev ∈ t, accepted 0 ev = offered 0 ev)) (by decide)
  obtain ⟨hClosed, hAll⟩ := of_decide_eq_true hGood
  have hStream : ((listening 3 fun _ => [0, 0, 0, 1, 65]).conns 0).input =
      [0, 0, 0, 1] ++ [65] ++ [] := rfl
  exact ⟨t, q, k', hRun, hAll, (echo_complete_iff .epoll (listening_start 3 _) hRun hStream rfl rfl
    hClosed).mpr hAll⟩

def shortWriteScript : List (Answer Syscall Reply Move) :=
  [⟨[], .select 4 {3}, .ok {3}⟩, ⟨[], .accept 3, .ok 5⟩, ⟨[], .select 6 {5, 3}, .ok {5}⟩,
    ⟨[], .read 5 4, .ok [0, 0, 0, 2]⟩, ⟨[], .write 5 [0, 0, 0, 2], .ok 4⟩, ⟨[], .malloc 3, true⟩,
    ⟨[], .read 5 2, .ok [65, 66]⟩, ⟨[], .write 5 [65, 66], .ok 1⟩, ⟨[], .close 5, .ok ()⟩]

/-- The second `write` accepts one byte of two, and the other one is lost. -/
theorem not_echo_complete :
    ¬ ∀ (kind : ServerKind) (ip : Option String) (port : BitVec 32) (threads : Bool) (serverFd : Fd)
      (k k' : Kernel) (t : List (Event Syscall Reply Kernel)) (q : Server Unit) (c : ConnId)
      (header body rest : List UInt8), k.Listening serverFd →
      Run (environment threads fun k e r => ReadsArrive k e r ∧ WritesSome k e r)
        (kind.processClientConnect ip port serverFd) k t q k' →
      (k.conns c).input = header ++ body ++ rest → header.length = 4 →
      body.length = bigEndian header → body.length ≤ 2 ^ 31 - 2 → (k'.conns c).closed = true →
      (k'.conns c).output = header ++ body := by
  intro h
  obtain ⟨t, q, k', hRun, hGood⟩ := exists_run_of_replay
    (environment false fun k e r => ReadsArrive k e r ∧ WritesSome k e r)
    (ServerKind.select.processClientConnect none 9001 3)
    (listening 3 fun _ => [0, 0, 0, 2, 65, 66]) 60 shortWriteScript
    (fun _ _ k' => decide ((k'.conns 0).closed = true ∧
      (k'.conns 0).output = [0, 0, 0, 2, 65])) (by decide)
  obtain ⟨hClosed, hOutput⟩ := of_decide_eq_true hGood
  have hFrame := h .select none 9001 false 3 _ k' t q 0 [0, 0, 0, 2] [65, 66] []
    (listening_start 3 _) hRun rfl rfl rfl (by decide) hClosed
  rw [hOutput] at hFrame
  cases hFrame

end AndroidDemo.Socket
