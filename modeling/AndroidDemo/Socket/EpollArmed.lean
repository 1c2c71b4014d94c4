import AndroidDemo.Socket.EpollOwnership

/-! # Which clients the epoll server still hears of

A client is registered with `EPOLLONESHOT`, so the first event reported for it
disarms it, and only `receiveClientMsg` gets rid of a client. As long as each of
these events has `EPOLLIN` set, no open client is left behind disarmed.
-/

namespace AndroidDemo.Socket

open Interaction Program Kernel EPollSocketServer

namespace Kernel

theorem isEpoll_congr {k k' : Kernel} (h : k'.table = k.table) (epollfd : Option Fd) :
    k'.isEpoll epollfd = k.isEpoll epollfd := by
  cases epollfd with
  | none => rfl
  | some ep => simp only [isEpoll, h]

theorem isClient_congr {k k' : Kernel} (h : k'.table = k.table) (fd : Fd) :
    k'.IsClient fd ↔ k.IsClient fd := by
  rw [IsClient, IsClient, h]

end Kernel

/-- `fds`, `batch` and `todo` stand for `mClientFds`, the events that are still
to be handled and the descriptors `handleAccept` has still to register. -/
structure ArmedInv (serverFd : Fd) (epollfd : Option Fd) (fds : List Fd) (batch : List EpollEvent)
    (todo : List Fd) (k : Kernel) : Prop where
  base : EpollInv serverFd fds batch k
  ours : ∀ fd ∈ fds, k.table fd ≠ some .foreign
  within : todo ⊆ fds
  epoll : k.isEpoll epollfd = true ∨ fds = [] ∧ batch = []
  armed : ∀ fd i, k.IsClient fd → k.interest fd = some i →
    i.armed = true ∨ fd ∈ batch.map EpollEvent.fd
  covered : ∀ fd, k.IsClient fd → k.interest fd ≠ none ∨ fd ∈ todo
  hasIn : ∀ ev ∈ batch, k.IsClient ev.fd → ev.events &&& EPOLLIN ≠ 0

namespace ArmedInv

variable {serverFd : Fd} {epollfd : Option Fd} {fds : List Fd} {batch : List EpollEvent}
  {todo : List Fd}

theorem frameStable : FrameStable false (ArmedInv serverFd epollfd fds batch todo) := by
  intro k k' hFrame h
  have hTable := hFrame.alone rfl
  have hInterest (fd : Fd) (hfd : k'.IsClient fd) : k'.interest fd = k.interest fd := by
    obtain ⟨c, hc⟩ := (hFrame.isClient fd).mp hfd
    exact hFrame.kept fd _ (by simp) hc
  refine ⟨EpollInv.frameStable _ _ hFrame h.base, by rw [hTable]; exact h.ours, h.within, ?_, ?_, ?_, ?_⟩
  · rw [isEpoll_congr hTable]
    exact h.epoll
  · intro fd i hfd hi
    exact h.armed fd i ((hFrame.isClient fd).mp hfd) (hInterest fd hfd ▸ hi)
  · intro fd hfd
    rw [hInterest fd hfd]
    exact h.covered fd ((hFrame.isClient fd).mp hfd)
  · exact fun ev hev hfd => h.hasIn ev hev ((hFrame.isClient ev.fd).mp hfd)

theorem isEpoll {ev : EpollEvent} {k : Kernel}
    (h : ArmedInv serverFd epollfd fds (ev :: batch) todo k) : k.isEpoll epollfd = true :=
  h.epoll.resolve_right fun hNil => List.cons_ne_nil _ _ hNil.2

theorem tail {ev : EpollEvent} {k : Kernel}
    (h : ArmedInv serverFd epollfd fds (ev :: batch) todo k) (hev : ¬ k.IsClient ev.fd) :
    ArmedInv serverFd epollfd fds batch todo k where
  base := h.base.tail
  ours := h.ours
  within := h.within
  epoll := .inl h.isEpoll
  armed fd i hfd hi := by
    refine (h.armed fd i hfd hi).imp_right fun hMem => ?_
    rcases List.mem_cons.mp hMem with rfl | hMem
    · exact (hev hfd).elim
    · exact hMem
  covered := h.covered
  hasIn x hx := h.hasIn x (List.mem_cons_of_mem _ hx)

theorem listAll {k : Kernel} (h : ArmedInv serverFd epollfd fds batch [] k) :
    ArmedInv serverFd epollfd fds batch fds k :=
  { h with
    within := List.Subset.refl _
    covered := fun fd hfd => .inl ((h.covered fd hfd).resolve_right List.not_mem_nil) }

theorem accept {k k' : Kernel} (h : ArmedInv serverFd epollfd fds batch [] k)
    (hEpoll : k.isEpoll epollfd = true) {fd : Fd}
    (hAnswer : k.answer (.accept serverFd) (.ok fd) = some k') :
    ArmedInv serverFd epollfd (fds ++ [fd]) batch (fds ++ [fd]) k' := by
  have hBase := h.base.accept hAnswer
  obtain ⟨hFree, rfl⟩ := answer_accept hAnswer
  have hNew : k.interest fd = none := by
    rw [Option.eq_none_iff_forall_ne_some]
    intro i hi
    rcases h.base.interest fd i hi with rfl | ⟨c, hc⟩
    · cases hFree.symm.trans h.base.listener
    · cases hFree.symm.trans hc
  have hOld (fd' : Fd) (hne : fd' ≠ fd)
      (hfd' : IsClient { k.install fd (.client k.nextConn) with nextConn := k.nextConn + 1 } fd') :
      k.IsClient fd' := by
    obtain ⟨c, hc⟩ := hfd'
    exact ⟨c, by simpa [install, hne] using hc⟩
  refine ⟨hBase, ?_, List.Subset.refl _, ?_, ?_, ?_, ?_⟩
  · intro fd' hfd'
    by_cases hne : fd' = fd
    · simp [install, hne]
    · have hMem : fd' ∈ fds := by simpa [hne] using hfd'
      simpa [install, hne] using h.ours fd' hMem
  · cases epollfd with
    | none => cases hEpoll
    | some ep =>
      have hne : ep ≠ fd := by
        rintro rfl
        simp [Kernel.isEpoll, hFree] at hEpoll
      exact .inl (by simpa [Kernel.isEpoll, install, hne] using hEpoll)
  · intro fd' i hfd' hi
    by_cases hne : fd' = fd
    · subst hne
      cases hNew.symm.trans hi
    · exact h.armed fd' i (hOld fd' hne hfd') hi
  · intro fd' hfd'
    by_cases hne : fd' = fd
    · exact .inr (by simp [hne])
    · exact .inl ((h.covered fd' (hOld fd' hne hfd')).resolve_right List.not_mem_nil)
  · intro ev hev hfd'
    by_cases hne : ev.fd = fd
    · rcases h.base.pending ev hev with hServer | ⟨c, hc⟩
      · cases (hne ▸ hFree).symm.trans (hServer ▸ h.base.listener)
      · cases (hne ▸ hFree).symm.trans hc
    · exact h.hasIn ev hev (hOld ev.fd hne hfd')

theorem added {k k' : Kernel} {fd : Fd} (h : ArmedInv serverFd epollfd fds batch (fd :: todo) k)
    {events : BitVec 32} {r : Reply (.epollCtlAdd epollfd fd events)}
    (hFresh : AddsFresh k (.epollCtlAdd epollfd fd events) r)
    (hAnswer : k.answer (.epollCtlAdd epollfd fd events) r = some k') :
    ArmedInv serverFd epollfd fds batch todo k' := by
  have hfd : fd ∈ fds := h.within List.mem_cons_self
  have hTodo : todo ⊆ fds := fun x hx => h.within (List.mem_cons_of_mem _ hx)
  have hOwn : NoForeignAdd k (.epollCtlAdd epollfd fd events) r := by
    cases r with
    | error e => trivial
    | ok u => exact h.ours fd hfd
  have hBase := h.base.add (.inr hfd) hOwn hAnswer
  cases r with
  | error e =>
    cases hAnswer
    refine { h with within := hTodo, covered := ?_ }
    intro fd' hfd'
    rcases h.covered fd' hfd' with hReg | hMem
    · exact .inl hReg
    · rcases List.mem_cons.mp hMem with rfl | hMem
      · refine .inl fun hNone => hFresh ⟨?_, ?_, hNone⟩
        · exact h.epoll.resolve_right fun hNil => List.not_mem_nil (hNil.1 ▸ hfd)
        · obtain ⟨c, hc⟩ := hfd'
          simp [hc]
      · exact .inr hMem
  | ok u =>
    obtain ⟨_, rfl⟩ := answer_epollCtlAdd hAnswer
    refine ⟨hBase, h.ours, hTodo, h.epoll, ?_, ?_, h.hasIn⟩
    · intro fd' i hfd' hi
      by_cases hne : fd' = fd
      · simp only [register, hne, Function.update_self, Option.some.injEq] at hi
        exact .inl (by rw [← hi])
      · exact h.armed fd' i hfd' (by simpa [register, hne] using hi)
    · intro fd' hfd'
      by_cases hne : fd' = fd
      · exact .inl (by simp [register, hne])
      · refine (h.covered fd' hfd').imp ?_ ?_
        · intro hReg
          simpa [register, hne] using hReg
        · intro hMem
          simpa [hne] using hMem

theorem close {ev : EpollEvent} {k k' : Kernel}
    (h : ArmedInv serverFd epollfd fds (ev :: batch) [] k) (hev : ev.fd ≠ serverFd)
    {r : Reply (.close ev.fd)} (hAnswer : k.answer (.close ev.fd) r = some k') :
    ArmedInv serverFd epollfd fds batch [] k' ∧ k'.interest ev.fd = none := by
  have hBase := h.base.close hev hAnswer
  have hClient := (h.base.pending ev List.mem_cons_self).resolve_left hev
  cases answer_close hAnswer
  have hOld (fd : Fd) (hfd : (k.closeFd ev.fd).IsClient fd) : fd ≠ ev.fd ∧ k.IsClient fd := by
    obtain ⟨c, hc⟩ := hfd
    have hne : fd ≠ ev.fd := by
      rintro rfl
      simp at hc
    exact ⟨hne, c, by simpa [hne] using hc⟩
  refine ⟨⟨hBase, ?_, h.within, ?_, ?_, ?_, ?_⟩, by simp⟩
  · intro fd hfd
    by_cases hne : fd = ev.fd
    · simp [hne]
    · simpa [hne] using h.ours fd hfd
  · have hEpoll := h.isEpoll
    cases epollfd with
    | none => cases hEpoll
    | some ep =>
      have hne : ep ≠ ev.fd := by
        rintro rfl
        obtain ⟨c, hc⟩ := hClient
        simp [Kernel.isEpoll, hc] at hEpoll
      exact .inl (by simpa [Kernel.isEpoll, hne] using hEpoll)
  · intro fd i hfd hi
    obtain ⟨hne, hfd⟩ := hOld fd hfd
    refine (h.armed fd i hfd (by simpa [hne] using hi)).imp_right fun hMem => ?_
    simpa [hne] using hMem
  · intro fd hfd
    obtain ⟨hne, hfd⟩ := hOld fd hfd
    simpa [hne] using h.covered fd hfd
  · exact fun x hx hfd => h.hasIn x (List.mem_cons_of_mem _ hx) (hOld x.fd hfd).2

theorem waited {k k' : Kernel} (h : ArmedInv serverFd epollfd fds [] [] k) {n : Nat}
    {r : Reply (.epollWait epollfd n)} (hIn : ReportsIn k (.epollWait epollfd n) r)
    (hAnswer : k.answer (.epollWait epollfd n) r = some k') :
    ArmedInv serverFd epollfd fds (reported r) [] k' := by
  have hBase := h.base.waited hAnswer
  cases r with
  | error e =>
    cases hAnswer
    exact h
  | ok events =>
    obtain ⟨⟨hEpoll, _, _, _⟩, rfl⟩ := answer_epollWait hAnswer
    have hTable := (foldl_report events k).1
    refine ⟨hBase, by rw [hTable]; exact h.ours, h.within, ?_, ?_, ?_, ?_⟩
    · rw [isEpoll_congr hTable]
      exact .inl hEpoll
    · intro fd i hfd hi
      by_cases hMem : fd ∈ events.map EpollEvent.fd
      · exact .inr hMem
      · rw [foldl_report_interest_of_notMem hMem] at hi
        exact .inl ((h.armed fd i ((isClient_congr hTable fd).mp hfd) hi).resolve_right
          List.not_mem_nil)
    · intro fd hfd
      obtain ⟨i, hi⟩ := Option.ne_none_iff_exists'.mp
        ((h.covered fd ((isClient_congr hTable fd).mp hfd)).resolve_right List.not_mem_nil)
      exact .inl (foldl_report_registered hi)
    · exact fun ev hev hfd => hIn ev hev ((isClient_congr hTable ev.fd).mp hfd)

theorem del {k k' : Kernel} {fd : Fd} (h : ArmedInv serverFd epollfd fds batch todo k)
    (hNone : k.interest fd = none) {events : BitVec 32} {r : Reply (.epollCtlDel epollfd fd events)}
    (hAnswer : k.answer (.epollCtlDel epollfd fd events) r = some k') :
    ArmedInv serverFd epollfd fds batch todo k' := by
  cases r with
  | error e =>
    cases hAnswer
    exact h
  | ok u =>
    exact absurd hNone (answer_epollCtlDel hAnswer).1.2

theorem not_client {ev : EpollEvent} {k : Kernel} (h : ArmedInv serverFd epollfd fds batch todo k)
    (hev : ev.fd = serverFd) : ¬ k.IsClient ev.fd := by
  rintro ⟨c, hc⟩
  cases (hev ▸ hc).symm.trans h.base.listener

theorem all_armed {k : Kernel} (h : ArmedInv serverFd epollfd fds [] [] k) (fd : Fd)
    (hfd : k.IsClient fd) : ∃ i, k.interest fd = some i ∧ i.armed = true := by
  obtain ⟨i, hi⟩ := Option.ne_none_iff_exists'.mp
    ((h.covered fd hfd).resolve_right List.not_mem_nil)
  exact ⟨i, hi, (h.armed fd i hfd hi).resolve_right List.not_mem_nil⟩

end ArmedInv

def ArmedGuarantee : Point Syscall Mark → Kernel → Prop
  | .call (.epollWait _ _), k => ∀ fd, k.IsClient fd → ∃ i, k.interest fd = some i ∧ i.armed = true
  | _, _ => True

theorem armed_rules (serverFd : Fd) (epollfd : Option Fd) :
    EpollRules false (fun k e r => AddsFresh k e r ∧ ReportsIn k e r) ArmedGuarantee serverFd epollfd
      (ArmedInv serverFd epollfd) where
  moves _ _ _ _ _ h hMoves := ArmedInv.frameStable _ _ (interferes_frame hMoves) h
  head _ _ _ := trivial
  wait _ _ h := h.all_armed
  waited _ _ _ _ h hAdmits hAnswer := h.waited hAdmits.2 hAnswer
  accept srv ev rest k h hev := by
    refine acceptClient_safe ArmedInv.frameStable.moves (fun _ _ => ⟨trivial, trivial⟩) ?_ ?_ k h
    · exact fun k hk => ⟨rfl, (hk.tail (hk.not_client hev)).listAll⟩
    · intro k clientFD k' hk _ hAnswer
      exact ⟨rfl, (hk.tail (hk.not_client hev)).accept hk.isEpoll hAnswer⟩
  add _ _ _ _ _ _ := trivial
  added _ _ _ _ _ _ _ h hAdmits hAnswer := h.added hAdmits.1 hAnswer
  skip _ ev _ _ h hev := h.tail fun hfd => h.hasIn ev List.mem_cons_self hfd hev
  receive fds ev rest k h hev := by
    apply serve_total (ArmedInv.frameStable.echoStable _)
      (fun _ _ => ⟨fun _ => trivial, fun _ => trivial, fun _ => trivial, fun _ => trivial,
        fun _ => trivial, fun _ => trivial⟩) (fun _ _ => trivial) h
    intro k₁ r k₂ h₁ hAnswer
    obtain ⟨h₂, hNone⟩ := h₁.close hev hAnswer
    refine .call (fun _ _ => trivial) ?_
    intro k₃ r k₄ hMoves _ hAnswer
    cases alone_interferes hMoves
    exact .ret (h₂.del hNone hAnswer)

theorem ArmedInv.created {serverFd : Fd} {k k' : Kernel} (h : k.Listening serverFd)
    {r : Reply (.epollCreate EPOLLEVENTS)}
    (hAnswer : k.answer (.epollCreate EPOLLEVENTS) r = some k') :
    ArmedInv serverFd r.toOption [] [] [] k' := by
  have hBase := (EpollInv.start h).created hAnswer
  have hNot (fd : Fd) : ¬ k'.IsClient fd := by
    cases r with
    | error e =>
      cases hAnswer
      exact h.not_client fd
    | ok ep =>
      obtain ⟨_, rfl⟩ := answer_epollCreate hAnswer
      rintro ⟨c, hc⟩
      by_cases hne : fd = ep
      · simp [install, hne] at hc
      · exact h.not_client fd ⟨c, by simpa [install, hne] using hc⟩
  exact ⟨hBase, by simp, List.nil_subset _, .inr ⟨rfl, rfl⟩, fun fd _ hfd => (hNot fd hfd).elim,
    fun fd hfd => (hNot fd hfd).elim, by simp⟩

theorem ArmedInv.addServer {serverFd : Fd} {epollfd : Option Fd} {k k' : Kernel}
    (h : ArmedInv serverFd epollfd [] [] [] k) {events : BitVec 32}
    {r : Reply (.epollCtlAdd epollfd serverFd events)}
    (hAnswer : k.answer (.epollCtlAdd epollfd serverFd events) r = some k') :
    ArmedInv serverFd epollfd [] [] [] k' := by
  have hServer (fd : Fd) (hfd : k.IsClient fd) : fd ≠ serverFd := by
    rintro rfl
    obtain ⟨c, hc⟩ := hfd
    cases hc.symm.trans h.base.listener
  have hOwn : NoForeignAdd k (.epollCtlAdd epollfd serverFd events) r := by
    cases r with
    | error e => trivial
    | ok u => simp [NoForeignAdd, h.base.listener]
  have hBase := h.base.add (.inl rfl) hOwn hAnswer
  cases r with
  | error e =>
    cases hAnswer
    exact h
  | ok u =>
    obtain ⟨_, rfl⟩ := answer_epollCtlAdd hAnswer
    refine ⟨hBase, h.ours, h.within, h.epoll, ?_, ?_, h.hasIn⟩
    · intro fd i hfd hi
      exact h.armed fd i hfd (by simpa [register, hServer fd hfd] using hi)
    · intro fd hfd
      simpa [register, hServer fd hfd] using h.covered fd hfd

/-- In every run of the epoll server in which each event reported for a client
has `EPOLLIN` set, all open clients are registered and armed at each `epoll_wait`. -/
theorem epoll_armed {serverFd : Fd} (ip : Option String) (port : BitVec 32) {k k' : Kernel}
    (hStart : k.Listening serverFd) {t : List (Event Syscall Reply Kernel)}
    {q : Server AbstractSocketServer}
    (hRun : Run (environment false AddsFresh) (processClientConnect (.new ip port) serverFd) k t q k')
    (hIn : ∀ ev ∈ t, ReportsIn ev.before ev.call ev.reply) :
    (∀ ev ∈ t, ArmedGuarantee (.call ev.call) ev.before) ∧
      ∀ x, q.point? = some x → ArmedGuarantee x k' := by
  have hSafe := epoll_safe (.new ip port) (k := k) rfl (armed_rules serverFd) ?_ ?_
  · exact ⟨fun ev hev => hSafe.event (hRun.restrict hIn) hev,
      fun x hx => hSafe.point (hRun.restrict hIn) hx⟩
  · intro k₁ hMoves
    cases alone_interferes hMoves
    exact ⟨trivial, fun r k₂ _ hAnswer => .created hStart hAnswer⟩
  · exact fun epollfd k₁ h₁ => ⟨trivial, fun r k₂ _ hAnswer => h₁.addServer hAnswer⟩

def acceptOneScript : List (Answer Syscall Reply Move) :=
  [⟨[], .epollCreate EPOLLEVENTS, .ok 4⟩, ⟨[], .epollCtlAdd (some 4) 3 EPOLLIN, .ok ()⟩,
    ⟨[], .epollWait (some 4) EPOLLEVENTS, .ok [⟨3, EPOLLIN⟩]⟩, ⟨[], .accept 3, .ok 5⟩,
    ⟨[], .epollCtlAdd (some 4) 5 (EPOLLIN ||| EPOLLONESHOT), .ok ()⟩]

theorem epoll_armed_waiting :
    ∃ t q k', Run (environment false AddsFresh) (processClientConnect (.new none 9001) 3)
        (listening 3 fun _ => []) t q k' ∧
      k'.IsClient 5 ∧ ∀ x, q.point? = some x → ArmedGuarantee x k' := by
  obtain ⟨t, q, k', hRun, hGood⟩ := exists_run_of_replay (environment false AddsFresh)
    (processClientConnect (.new none 9001) 3) (listening 3 fun _ => []) 40 acceptOneScript
    (fun t _ k' => decide (k'.IsClient 5 ∧ ∀ ev ∈ t, ReportsIn ev.before ev.call ev.reply))
    (by decide)
  obtain ⟨hClient, hIn⟩ := of_decide_eq_true hGood
  exact ⟨t, q, k', hRun, hClient, (epoll_armed none 9001 (listening_start 3 _) hRun hIn).2⟩

/-- The peer resets the connection before it is served. -/
def resetScript : List (Answer Syscall Reply Move) :=
  acceptOneScript ++ [⟨[], .epollWait (some 4) EPOLLEVENTS, .ok [⟨5, EPOLLERR ||| EPOLLHUP⟩]⟩]

def waitsDisarmed (x : Option (Point Syscall Mark)) (k : Kernel) (fd : Fd) : Bool :=
  match x with
  | some (.call (.epollWait _ _)) =>
    decide (k.IsClient fd) && (k.interest fd).all fun i => !i.armed
  | _ => false

theorem waitsDisarmed_not_allowed {x : Option (Point Syscall Mark)} {k : Kernel} {fd : Fd}
    (h : waitsDisarmed x k fd = true) : ¬ ∀ y, x = some y → ArmedGuarantee y k := by
  intro hAll
  unfold waitsDisarmed at h
  split at h
  · simp only [Bool.and_eq_true, decide_eq_true_eq] at h
    obtain ⟨hClient, hDisarmed⟩ := h
    obtain ⟨i, hi, hArmed⟩ := hAll _ rfl fd hClient
    simp [hi, hArmed] at hDisarmed
  · cases h

theorem epoll_armed_lost :
    ¬ ∀ (serverFd : Fd) (ip : Option String) (port : BitVec 32) (k k' : Kernel)
      (t : List (Event Syscall Reply Kernel)) (q : Server AbstractSocketServer),
      k.Listening serverFd →
      Run (environment false AddsFresh) (processClientConnect (.new ip port) serverFd) k t q k' →
      (∀ ev ∈ t, ArmedGuarantee (.call ev.call) ev.before) ∧
        ∀ x, q.point? = some x → ArmedGuarantee x k' := by
  intro hAll
  obtain ⟨t, q, k', hRun, hGood⟩ := exists_run_of_replay (environment false AddsFresh)
    (processClientConnect (.new none 9001) 3) (listening 3 fun _ => []) 40 resetScript
    (fun _ q k' => waitsDisarmed q.point? k' 5) (by decide)
  exact waitsDisarmed_not_allowed hGood (hAll 3 none 9001 _ k' t q (listening_start 3 _) hRun).2

end AndroidDemo.Socket
