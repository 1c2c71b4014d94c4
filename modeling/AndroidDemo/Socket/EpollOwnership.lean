import AndroidDemo.Interaction.Replay
import AndroidDemo.Socket.Connections
import AndroidDemo.Socket.EpollRules

/-! # Whose descriptors the epoll server serves

`mClientFds` keeps the numbers of closed clients, and `handleAccept` registers
every number of the list again. As long as none of them has passed to another
owner meanwhile, the server reads, writes and closes its own clients only.
-/

namespace AndroidDemo.Socket

open Interaction Program Kernel EPollSocketServer

namespace Kernel

theorem report_interest_of_ne {k : Kernel} {ev : EpollEvent} {fd : Fd} (h : fd ≠ ev.fd) :
    (k.report ev).interest fd = k.interest fd := by
  unfold report
  split
  · split
    · rfl
    · simp [register, h]
  · rfl

theorem report_interest {k : Kernel} {ev : EpollEvent} {fd : Fd} {i : Interest}
    (h : (k.report ev).interest fd = some i) : ∃ j, k.interest fd = some j := by
  by_cases hfd : fd = ev.fd
  · subst hfd
    unfold report at h
    split at h
    · exact ⟨_, ‹_›⟩
    · exact ⟨i, h⟩
  · exact ⟨i, report_interest_of_ne hfd ▸ h⟩

theorem foldl_report_interest_of_notMem {events : List EpollEvent} {k : Kernel} {fd : Fd}
    (h : fd ∉ events.map EpollEvent.fd) :
    (events.foldl report k).interest fd = k.interest fd := by
  induction events generalizing k with
  | nil => rfl
  | cons ev events ih =>
    simp only [List.map_cons, List.mem_cons, not_or] at h
    rw [List.foldl_cons, ih h.2, report_interest_of_ne h.1]

theorem foldl_report_interest {events : List EpollEvent} {k : Kernel} {fd : Fd} {i : Interest}
    (h : (events.foldl report k).interest fd = some i) : ∃ j, k.interest fd = some j := by
  induction events generalizing k i with
  | nil => exact ⟨i, h⟩
  | cons ev events ih =>
    obtain ⟨j, hj⟩ := ih h
    exact report_interest hj

theorem report_registered {k : Kernel} (ev : EpollEvent) {fd : Fd} {i : Interest}
    (h : k.interest fd = some i) : ∃ j, (k.report ev).interest fd = some j := by
  by_cases hfd : fd = ev.fd
  · subst hfd
    simp only [report, h]
    split
    · exact ⟨i, h⟩
    · exact ⟨{ i with armed := false }, by simp [register]⟩
  · exact ⟨i, by rw [report_interest_of_ne hfd, h]⟩

theorem foldl_report_registered {events : List EpollEvent} {k : Kernel} {fd : Fd} {i : Interest}
    (h : k.interest fd = some i) : (events.foldl report k).interest fd ≠ none := by
  induction events generalizing k i with
  | nil => simp [h]
  | cons ev events ih =>
    obtain ⟨j, hj⟩ := report_registered ev h
    exact ih hj

theorem ready_interest {k : Kernel} {ev : EpollEvent} (h : k.ready ev = true) :
    ∃ i, k.interest ev.fd = some i ∧ i.armed = true := by
  unfold ready at h
  split at h
  · rename_i i hi
    simp only [Bool.and_eq_true] at h
    exact ⟨i, hi, h.1.1⟩
  · cases h

end Kernel

/-- What is registered or reported is the listening socket or an open client. -/
structure EpollInv (serverFd : Fd) (fds : List Fd) (batch : List EpollEvent) (k : Kernel) :
    Prop where
  listener : k.table serverFd = some .listener
  listed : ∀ fd ∈ fds, ∀ o, k.table fd = some o → o = .foreign ∨ ∃ c, o = .client c
  interest : ∀ fd i, k.interest fd = some i → fd = serverFd ∨ k.IsClient fd
  pending : ∀ ev ∈ batch, ev.fd = serverFd ∨ k.IsClient ev.fd
  nodup : (batch.map EpollEvent.fd).Nodup

namespace EpollInv

variable {threads : Bool} {serverFd : Fd} {fds : List Fd} {batch : List EpollEvent}

theorem frameStable : FrameStable threads (EpollInv serverFd fds batch) := by
  intro k k' hFrame h
  refine ⟨(hFrame.own serverFd .listener (by simp)).mpr h.listener, ?_, ?_, ?_, h.nodup⟩
  · intro fd hfd o ho
    by_cases hForeign : o = .foreign
    · exact .inl hForeign
    · exact h.listed fd hfd o ((hFrame.own fd o hForeign).mp ho)
  · intro fd i hi
    exact (h.interest fd i (hFrame.interest fd i hi)).imp_right (hFrame.isClient fd).mpr
  · intro ev hev
    exact (h.pending ev hev).imp_right (hFrame.isClient ev.fd).mpr

theorem start {k : Kernel} (h : k.Listening serverFd) : EpollInv serverFd [] [] k where
  listener := h.listener
  listed _ hfd := by cases hfd
  interest fd i hi := by simp [h.interest fd] at hi
  pending _ hev := by cases hev
  nodup := List.nodup_nil

theorem tail {ev : EpollEvent} {k : Kernel} (h : EpollInv serverFd fds (ev :: batch) k) :
    EpollInv serverFd fds batch k where
  listener := h.listener
  listed := h.listed
  interest := h.interest
  pending x hx := h.pending x (List.mem_cons_of_mem _ hx)
  nodup := (List.nodup_cons.mp h.nodup).2

theorem accept {k k' : Kernel} (h : EpollInv serverFd fds batch k) {fd : Fd}
    (hAnswer : k.answer (.accept serverFd) (.ok fd) = some k') :
    EpollInv serverFd (fds ++ [fd]) batch k' := by
  obtain ⟨hFree, rfl⟩ := answer_accept hAnswer
  have hServer : serverFd ≠ fd := by
    rintro rfl
    cases hFree.symm.trans h.listener
  have hClient (fd' : Fd) (hfd' : k.IsClient fd') :
      IsClient { k.install fd (.client k.nextConn) with nextConn := k.nextConn + 1 } fd' := by
    obtain ⟨c, hc⟩ := hfd'
    have hne : fd' ≠ fd := by
      rintro rfl
      cases hFree.symm.trans hc
    exact ⟨c, by simpa [install, hne] using hc⟩
  refine ⟨by simpa [install, hServer] using h.listener, ?_, ?_, ?_, h.nodup⟩
  · intro fd' hfd' o ho
    by_cases hfd : fd' = fd
    · subst hfd
      simp only [install, Function.update_self, Option.some.injEq] at ho
      exact .inr ⟨_, ho.symm⟩
    · refine h.listed fd' ?_ o (by simpa [install, hfd] using ho)
      simpa [hfd] using hfd'
  · exact fun fd' i hi => (h.interest fd' i hi).imp_right (hClient fd')
  · exact fun ev hev => (h.pending ev hev).imp_right (hClient ev.fd)

theorem add {k k' : Kernel} (h : EpollInv serverFd fds batch k) {epollfd : Option Fd} {fd : Fd}
    {events : BitVec 32} {r : Reply (.epollCtlAdd epollfd fd events)}
    (hfd : fd = serverFd ∨ fd ∈ fds) (hOwn : NoForeignAdd k (.epollCtlAdd epollfd fd events) r)
    (hAnswer : k.answer (.epollCtlAdd epollfd fd events) r = some k') :
    EpollInv serverFd fds batch k' := by
  cases r with
  | error e =>
    cases hAnswer
    exact h
  | ok u =>
    obtain ⟨⟨_, hOpen, _⟩, rfl⟩ := answer_epollCtlAdd hAnswer
    refine ⟨h.listener, h.listed, ?_, h.pending, h.nodup⟩
    intro fd' i hi
    by_cases hne : fd' = fd
    · subst hne
      refine hfd.imp_right fun hMem => ?_
      obtain ⟨o, ho⟩ := Option.ne_none_iff_exists'.mp hOpen
      rcases h.listed fd' hMem o ho with rfl | ⟨c, rfl⟩
      · exact (hOwn ho).elim
      · exact ⟨c, ho⟩
    · exact h.interest fd' i (by simpa [register, hne] using hi)

theorem close {ev : EpollEvent} {k k' : Kernel} (h : EpollInv serverFd fds (ev :: batch) k)
    (hev : ev.fd ≠ serverFd) {r : Reply (.close ev.fd)}
    (hAnswer : k.answer (.close ev.fd) r = some k') : EpollInv serverFd fds batch k' := by
  rw [answer_close hAnswer]
  have hClient (fd : Fd) (hne : fd ≠ ev.fd) (hfd : k.IsClient fd) :
      (k.closeFd ev.fd).IsClient fd := by
    obtain ⟨c, hc⟩ := hfd
    exact ⟨c, by rw [closeFd_table, Function.update_of_ne hne, hc]⟩
  obtain ⟨hNot, hNodup⟩ := List.nodup_cons.mp h.nodup
  refine ⟨by rw [closeFd_table, Function.update_of_ne hev.symm, h.listener], ?_, ?_, ?_, hNodup⟩
  · intro fd hfd o ho
    by_cases hne : fd = ev.fd
    · simp [hne] at ho
    · exact h.listed fd hfd o (by simpa [hne] using ho)
  · intro fd i hi
    by_cases hne : fd = ev.fd
    · simp [hne] at hi
    · refine (h.interest fd i ?_).imp_right (hClient fd hne)
      simpa [hne] using hi
  · intro x hx
    have hne : x.fd ≠ ev.fd := fun hEq => hNot (hEq ▸ List.mem_map_of_mem hx)
    exact (h.pending x (List.mem_cons_of_mem _ hx)).imp_right (hClient x.fd hne)

theorem del {k k' : Kernel} (h : EpollInv serverFd fds batch k) {epollfd : Option Fd} {fd : Fd}
    {events : BitVec 32} {r : Reply (.epollCtlDel epollfd fd events)}
    (hAnswer : k.answer (.epollCtlDel epollfd fd events) r = some k') :
    EpollInv serverFd fds batch k' := by
  cases r with
  | error e =>
    cases hAnswer
    exact h
  | ok u =>
    obtain ⟨_, rfl⟩ := answer_epollCtlDel hAnswer
    refine ⟨h.listener, h.listed, ?_, h.pending, h.nodup⟩
    intro fd' i hi
    by_cases hne : fd' = fd
    · simp [unregister, hne] at hi
    · exact h.interest fd' i (by simpa [unregister, hne] using hi)

theorem waited {k k' : Kernel} (h : EpollInv serverFd fds [] k) {epollfd : Option Fd} {n : Nat}
    {r : Reply (.epollWait epollfd n)} (hAnswer : k.answer (.epollWait epollfd n) r = some k') :
    EpollInv serverFd fds (reported r) k' := by
  cases r with
  | error e =>
    cases hAnswer
    exact h
  | ok events =>
    obtain ⟨⟨_, _, hNodup, hReady⟩, rfl⟩ := answer_epollWait hAnswer
    obtain ⟨hTable, _, _⟩ := foldl_report events k
    have hOwned (fd : Fd) (hfd : fd = serverFd ∨ k.IsClient fd) :
        fd = serverFd ∨ (events.foldl report k).IsClient fd := by
      apply hfd.imp_right
      rintro ⟨c, hc⟩
      exact ⟨c, by rw [hTable, hc]⟩
    refine ⟨by rw [hTable, h.listener], by rw [hTable]; exact h.listed, ?_, ?_, hNodup⟩
    · intro fd i hi
      obtain ⟨j, hj⟩ := foldl_report_interest hi
      exact hOwned fd (h.interest fd j hj)
    · intro ev hev
      obtain ⟨i, hi, _⟩ := ready_interest (hReady ev hev)
      exact hOwned ev.fd (h.interest ev.fd i hi)

end EpollInv

/-! ## Ownership along every run -/

def EpollGuarantee : Point Syscall Mark → Kernel → Prop
  | .call (.read fd _), k => k.IsClient fd
  | .call (.write fd _), k => k.IsClient fd
  | .call (.close fd), k => k.IsClient fd
  | _, _ => True

theorem echoAllowed_of_client {fd : Fd} {k : Kernel} (h : k.IsClient fd) :
    EchoAllowed EpollGuarantee fd k where
  read _ := h
  write _ := h
  malloc _ := trivial
  readnLoop _ := trivial
  lenOverflow _ := trivial
  msgTerminator _ := trivial

theorem ownership_rules (serverFd : Fd) (epollfd : Option Fd) :
    EpollRules true (fun k e r => True ∧ NoForeignAdd k e r) EpollGuarantee serverFd epollfd
      (fun fds batch todo k => EpollInv serverFd fds batch k ∧ todo ⊆ fds) where
  moves _ _ _ _ _ h hMoves := ⟨EpollInv.frameStable _ _ (interferes_frame hMoves) h.1, h.2⟩
  head _ _ _ := trivial
  wait _ _ _ := trivial
  waited _ _ _ _ h _ hAnswer := ⟨h.1.waited hAnswer, h.2⟩
  accept srv ev rest k h _ := by
    refine acceptClient_safe EpollInv.frameStable.moves (fun _ _ => ⟨trivial, trivial⟩)
      (fun _ hk => ⟨rfl, hk, List.Subset.refl _⟩) ?_ k h.1.tail
    intro k clientFD k' hk _ hAnswer
    exact ⟨rfl, hk.accept hAnswer, List.Subset.refl _⟩
  add _ _ _ _ _ _ := trivial
  added _ _ fd todo _ _ _ h hAdmits hAnswer :=
    ⟨h.1.add (.inr (h.2 List.mem_cons_self)) hAdmits.2 hAnswer,
      fun x hx => h.2 (List.mem_cons_of_mem _ hx)⟩
  skip _ _ _ _ h _ := ⟨h.1.tail, h.2⟩
  receive fds ev rest k h hev := by
    have hClient (k : Kernel) (hk : EpollInv serverFd fds (ev :: rest) k) : k.IsClient ev.fd :=
      (hk.pending ev List.mem_cons_self).resolve_left hev
    apply serve_total (EpollInv.frameStable.echoStable _)
      (fun k hk => echoAllowed_of_client (hClient k hk)) hClient h.1
    intro k₁ r k₂ h₁ hAnswer
    have h₂ := h₁.close hev hAnswer
    refine .call (fun _ _ => trivial) ?_
    intro k₃ r k₄ hMoves _ hAnswer
    exact .ret ⟨(EpollInv.frameStable _ _ (interferes_frame hMoves) h₂).del hAnswer, h.2⟩

theorem EpollInv.created {serverFd : Fd} {k k' : Kernel} (h : EpollInv serverFd [] [] k) {n : Nat}
    {r : Reply (.epollCreate n)} (hAnswer : k.answer (.epollCreate n) r = some k') :
    EpollInv serverFd [] [] k' := by
  cases r with
  | error e =>
    cases hAnswer
    exact h
  | ok fd =>
    obtain ⟨hFree, rfl⟩ := answer_epollCreate hAnswer
    have hServer : serverFd ≠ fd := by
      rintro rfl
      cases hFree.symm.trans h.listener
    exact ⟨by simpa [install, hServer] using h.listener, by simp, by simp, by simp, List.nodup_nil⟩

/-- In every run of the epoll server in which no number that has passed to
another owner is registered, `receiveClientMsg` touches open clients only. -/
theorem epoll_ownership {serverFd : Fd} (ip : Option String) (port : BitVec 32) {k k' : Kernel}
    (hStart : k.Listening serverFd) {t : List (Event Syscall Reply Kernel)}
    {q : Server AbstractSocketServer}
    (hRun : Run (environment true fun _ _ _ => True)
      (processClientConnect (.new ip port) serverFd) k t q k')
    (hOwn : ∀ ev ∈ t, NoForeignAdd ev.before ev.call ev.reply) :
    (∀ ev ∈ t, EpollGuarantee (.call ev.call) ev.before) ∧
      ∀ x, q.point? = some x → EpollGuarantee x k' := by
  have hSafe := epoll_safe (.new ip port) (k := k) rfl
    (ownership_rules serverFd) ?_ ?_
  · exact ⟨fun ev hev => hSafe.event (hRun.restrict hOwn) hev,
      fun x hx => hSafe.point (hRun.restrict hOwn) hx⟩
  · refine fun k₁ hMoves => ⟨trivial, fun r k₂ _ hAnswer => ⟨?_, List.Subset.refl _⟩⟩
    exact (EpollInv.frameStable.moves _ _ (EpollInv.start hStart) hMoves).created hAnswer
  · refine fun epollfd k₁ h₁ => ⟨trivial, fun r k₂ hAdmits hAnswer => ⟨?_, h₁.2⟩⟩
    exact h₁.1.add (.inl rfl) hAdmits.2 hAnswer

def serveOneScript : List (Answer Syscall Reply Move) :=
  [⟨[], .epollCreate EPOLLEVENTS, .ok 4⟩, ⟨[], .epollCtlAdd (some 4) 3 EPOLLIN, .ok ()⟩,
    ⟨[], .epollWait (some 4) EPOLLEVENTS, .ok [⟨3, EPOLLIN⟩]⟩, ⟨[], .accept 3, .ok 5⟩,
    ⟨[], .epollCtlAdd (some 4) 5 (EPOLLIN ||| EPOLLONESHOT), .ok ()⟩,
    ⟨[], .epollWait (some 4) EPOLLEVENTS, .ok [⟨5, EPOLLIN⟩]⟩,
    ⟨[], .read 5 4, .ok [0, 0, 0, 1]⟩, ⟨[], .write 5 [0, 0, 0, 1], .ok 4⟩, ⟨[], .malloc 2, true⟩,
    ⟨[], .read 5 1, .ok [65]⟩, ⟨[], .write 5 [65], .ok 1⟩, ⟨[], .close 5, .ok ()⟩,
    ⟨[], .epollCtlDel (some 4) 5 EPOLLIN, .error (.other 9)⟩]

theorem epoll_ownership_served :
    ∃ t q k', Run (environment true fun _ _ _ => True) (processClientConnect (.new none 9001) 3)
        (listening 3 fun _ => [0, 0, 0, 1, 65]) t q k' ∧
      t.filterMap closedConn = [0] ∧ (∀ ev ∈ t, EpollGuarantee (.call ev.call) ev.before) := by
  obtain ⟨t, q, k', hRun, hGood⟩ := exists_run_of_replay (environment true fun _ _ _ => True)
    (processClientConnect (.new none 9001) 3) (listening 3 fun _ => [0, 0, 0, 1, 65]) 40
    serveOneScript (fun t _ _ => decide (t.filterMap closedConn = [0] ∧
      ∀ ev ∈ t, NoForeignAdd ev.before ev.call ev.reply)) (by decide)
  obtain ⟨hClosed, hOwn⟩ := of_decide_eq_true hGood
  exact ⟨t, q, k', hRun, hClosed, (epoll_ownership none 9001 (listening_start 3 _) hRun hOwn).1⟩

/-- The freed number 5 goes to another thread, a second client is accepted, and
the registration of the whole list subscribes to the foreign descriptor 5. -/
def foreignScript : List (Answer Syscall Reply Move) :=
  serveOneScript ++
    [⟨[.openFd 5], .epollWait (some 4) EPOLLEVENTS, .ok [⟨3, EPOLLIN⟩]⟩, ⟨[], .accept 3, .ok 6⟩,
      ⟨[], .epollCtlAdd (some 4) 5 (EPOLLIN ||| EPOLLONESHOT), .ok ()⟩,
      ⟨[], .epollCtlAdd (some 4) 6 (EPOLLIN ||| EPOLLONESHOT), .ok ()⟩,
      ⟨[], .epollWait (some 4) EPOLLEVENTS, .ok [⟨5, EPOLLIN⟩]⟩, ⟨[], .read 5 4, .ok [1, 2, 3, 4]⟩]

def readsForeign (ev : Event Syscall Reply Kernel) : Bool :=
  match ev.call with
  | .read fd _ => ev.before.table fd = some .foreign
  | _ => false

theorem readsForeign_not_allowed {ev : Event Syscall Reply Kernel} (h : readsForeign ev = true) :
    ¬ EpollGuarantee (.call ev.call) ev.before := by
  obtain ⟨k, e, r, k'⟩ := ev
  cases e with
  | read fd count =>
    rintro ⟨c, hc⟩
    have hForeign : k.table fd = some .foreign := by simpa [readsForeign] using h
    cases hc.symm.trans hForeign
  | _ => cases h

theorem epoll_ownership_lost :
    ¬ ∀ (serverFd : Fd) (ip : Option String) (port : BitVec 32) (k k' : Kernel)
      (t : List (Event Syscall Reply Kernel)) (q : Server AbstractSocketServer),
      k.Listening serverFd →
      Run (environment true fun _ _ _ => True) (processClientConnect (.new ip port) serverFd)
        k t q k' →
      (∀ ev ∈ t, EpollGuarantee (.call ev.call) ev.before) ∧
        ∀ x, q.point? = some x → EpollGuarantee x k' := by
  intro hAll
  obtain ⟨t, q, k', hRun, hGood⟩ := exists_run_of_replay (environment true fun _ _ _ => True)
    (processClientConnect (.new none 9001) 3) (listening 3 fun _ => [0, 0, 0, 1, 65]) 60
    foreignScript (fun t _ _ => t.any readsForeign) (by decide)
  obtain ⟨ev, hev, hReads⟩ := List.any_eq_true.mp hGood
  exact readsForeign_not_allowed hReads ((hAll 3 none 9001 _ k' t q (listening_start 3 _) hRun).1 ev hev)

end AndroidDemo.Socket
