import AndroidDemo.Socket.Frame

/-! # Connections and the descriptors they are reached by

An open connection has exactly one descriptor, and a closed one is never open
again. This holds of the kernel alone, whatever program runs on it.
-/

namespace AndroidDemo.Socket

open Interaction

namespace Kernel

/-- The state in which a server starts to serve: the listening socket is open,
every other open descriptor belongs to somebody else, nothing is registered. -/
structure Listening (serverFd : Fd) (k : Kernel) : Prop where
  listener : k.table serverFd = some .listener
  others : ∀ fd o, k.table fd = some o → fd = serverFd ∨ o = .foreign
  conns : ∀ c, (k.conns c).output = [] ∧ (k.conns c).closed = false
  interest : ∀ fd, k.interest fd = none

/-- A process with nothing open but a listening socket, and the data its clients send. -/
def listening (serverFd : Fd) (stream : ConnId → List UInt8) : Kernel where
  table fd := if fd = serverFd then some .listener else none
  interest _ := none
  conns c := { input := stream c, output := [], closed := false }
  nextConn := 0

theorem listening_start (serverFd : Fd) (stream : ConnId → List UInt8) :
    (listening serverFd stream).Listening serverFd where
  listener := if_pos rfl
  others fd o h := by
    simp only [listening, Option.ite_none_right_eq_some] at h
    exact .inl h.1
  conns _ := ⟨rfl, rfl⟩
  interest _ := rfl

structure Wf (k : Kernel) : Prop where
  openConn : ∀ fd c, k.table fd = some (.client c) → c < k.nextConn ∧ (k.conns c).closed = false
  unique : ∀ fd fd' c, k.table fd = some (.client c) → k.table fd' = some (.client c) → fd = fd'
  fresh : ∀ c, k.nextConn ≤ c → (k.conns c).closed = false

theorem Listening.not_client {serverFd : Fd} {k : Kernel} (h : k.Listening serverFd) (fd : Fd) :
    ¬ k.IsClient fd := by
  rintro ⟨c, hc⟩
  rcases h.others fd _ hc with rfl | ho
  · cases h.listener.symm.trans hc
  · cases ho

theorem Listening.wf {serverFd : Fd} {k : Kernel} (h : k.Listening serverFd) : k.Wf where
  openConn fd c hc := (h.not_client fd ⟨c, hc⟩).elim
  unique fd _ c hc _ := (h.not_client fd ⟨c, hc⟩).elim
  fresh c _ := (h.conns c).2

namespace Wf

theorem of_table {k k' : Kernel} (hk : k.Wf) (hNext : k'.nextConn = k.nextConn)
    (hTable : ∀ fd c, k'.table fd = some (.client c) → k.table fd = some (.client c))
    (hClosed : ∀ c, (k'.conns c).closed = (k.conns c).closed) : k'.Wf where
  openConn fd c hc := by
    rw [hNext, hClosed]
    exact hk.openConn fd c (hTable fd c hc)
  unique fd fd' c hc hc' := hk.unique fd fd' c (hTable fd c hc) (hTable fd' c hc')
  fresh c hc := by
    rw [hClosed]
    exact hk.fresh c (hNext ▸ hc)

theorem install {k : Kernel} (hk : k.Wf) (fd : Fd) {o : Owner} (ho : ∀ c, o ≠ .client c) :
    (k.install fd o).Wf := by
  refine hk.of_table rfl ?_ fun _ => rfl
  intro fd' c hc
  by_cases hfd : fd' = fd
  · subst hfd
    simp only [Kernel.install, Function.update_self, Option.some.injEq] at hc
    exact (ho c hc).elim
  · simpa [Kernel.install, hfd] using hc

theorem release {k : Kernel} (hk : k.Wf) (fd : Fd) : (k.release fd).Wf := by
  refine hk.of_table rfl ?_ fun _ => rfl
  intro fd' c hc
  by_cases hfd : fd' = fd
  · simp [Kernel.release, hfd] at hc
  · simpa [Kernel.release, hfd] using hc

theorem accept {k : Kernel} (hk : k.Wf) {fd : Fd} (hFree : k.table fd = none) :
    Wf { k.install fd (.client k.nextConn) with nextConn := k.nextConn + 1 } := by
  have hOld (fd' : Fd) (c : ConnId) (hne : fd' ≠ fd)
      (hc : (k.install fd (.client k.nextConn)).table fd' = some (.client c)) :
      k.table fd' = some (.client c) := by
    simpa [Kernel.install, hne] using hc
  have hNew (c : ConnId) (hc : (k.install fd (.client k.nextConn)).table fd = some (.client c)) :
      c = k.nextConn := by
    simpa [Kernel.install, eq_comm] using hc
  refine ⟨?_, ?_, fun c hc => hk.fresh c (Nat.le_of_succ_le hc)⟩
  · intro fd' c hc
    by_cases hfd : fd' = fd
    · subst hfd
      rw [hNew c hc]
      exact ⟨Nat.lt_succ_self _, hk.fresh _ le_rfl⟩
    · obtain ⟨hLt, hOpen⟩ := hk.openConn fd' c (hOld fd' c hfd hc)
      exact ⟨Nat.lt_succ_of_lt hLt, hOpen⟩
  · intro fd₁ fd₂ c h₁ h₂
    by_cases hfd₁ : fd₁ = fd
    · by_cases hfd₂ : fd₂ = fd
      · rw [hfd₁, hfd₂]
      · have hLt := (hk.openConn fd₂ c (hOld fd₂ c hfd₂ h₂)).1
        rw [hNew c (hfd₁ ▸ h₁)] at hLt
        exact (Nat.lt_irrefl _ hLt).elim
    · by_cases hfd₂ : fd₂ = fd
      · have hLt := (hk.openConn fd₁ c (hOld fd₁ c hfd₁ h₁)).1
        rw [hNew c (hfd₂ ▸ h₂)] at hLt
        exact (Nat.lt_irrefl _ hLt).elim
      · exact hk.unique fd₁ fd₂ c (hOld fd₁ c hfd₁ h₁) (hOld fd₂ c hfd₂ h₂)

theorem closeFd {k : Kernel} (hk : k.Wf) (fd : Fd) : (k.closeFd fd).Wf := by
  rw [Kernel.closeFd]
  split
  · rename_i c hc
    have hOther (fd' : Fd) (c' : ConnId)
        (h : (k.release fd).table fd' = some (.client c')) :
        k.table fd' = some (.client c') ∧ c' ≠ c := by
      have hfd : fd' ≠ fd := by
        rintro rfl
        simp [Kernel.release] at h
      have hTable : k.table fd' = some (.client c') := by simpa [Kernel.release, hfd] using h
      exact ⟨hTable, fun hcc => hfd (hk.unique fd' fd c (hcc ▸ hTable) hc)⟩
    refine ⟨?_, fun fd₁ fd₂ c' h₁ h₂ => hk.unique fd₁ fd₂ c' (hOther _ _ h₁).1 (hOther _ _ h₂).1, ?_⟩
    · intro fd' c' h
      obtain ⟨hTable, hne⟩ := hOther fd' c' h
      simpa [updateConn, hne, Kernel.release] using hk.openConn fd' c' hTable
    · intro c' hc'
      have hne : c' ≠ c := by
        rintro rfl
        exact absurd (hk.openConn fd c' hc).1 (Nat.not_lt.mpr hc')
      simpa [updateConn, hne, Kernel.release] using hk.fresh c' hc'
  · exact hk.release fd

theorem updateConn {k : Kernel} (hk : k.Wf) (c : ConnId) {f : Conn → Conn}
    (hf : ∀ conn, (f conn).closed = conn.closed) : (k.updateConn c f).Wf := by
  refine hk.of_table rfl (fun _ _ h => h) ?_
  intro c'
  by_cases hc : c' = c
  · subst hc
    simp [Kernel.updateConn, hf]
  · simp [Kernel.updateConn, hc]

end Wf

theorem closed_closeFd {k : Kernel} {fd : Fd} {c : ConnId} (h : k.table fd = some (.client c)) :
    ((k.closeFd fd).conns c).closed = true := by
  simp [Kernel.closeFd, h, updateConn]

/-- What any single answer does to connections: it keeps them well formed and
does not reopen a closed one. -/
structure ConnStep (k k' : Kernel) : Prop where
  wf : k'.Wf
  closed : ∀ c, (k.conns c).closed = true → (k'.conns c).closed = true

namespace ConnStep

theorem refl {k : Kernel} (hk : k.Wf) : ConnStep k k := ⟨hk, fun _ h => h⟩

theorem updateConn {k : Kernel} (hk : k.Wf) (c : ConnId) {f : Conn → Conn}
    (hf : ∀ conn, (f conn).closed = conn.closed) : ConnStep k (k.updateConn c f) := by
  refine ⟨hk.updateConn c hf, ?_⟩
  intro c' h
  by_cases hc : c' = c
  · subst hc
    simpa [Kernel.updateConn, hf] using h
  · simpa [Kernel.updateConn, hc] using h

theorem closeFd {k : Kernel} (hk : k.Wf) (fd : Fd) : ConnStep k (k.closeFd fd) := by
  refine ⟨hk.closeFd fd, ?_⟩
  intro c' h
  rw [Kernel.closeFd]
  split
  · rename_i c hc
    by_cases hcc : c' = c
    · simp [Kernel.updateConn, hcc]
    · simpa [Kernel.updateConn, hcc, release] using h
  · exact h

theorem of_interest {k k' : Kernel} (hk : k.Wf) (hTable : k'.table = k.table)
    (hConns : k'.conns = k.conns) (hNext : k'.nextConn = k.nextConn) : ConnStep k k' :=
  ⟨hk.of_table hNext (fun fd c h => by rwa [hTable] at h) (fun c => by rw [hConns]),
    fun c h => by rwa [hConns]⟩

end ConnStep

@[simp] theorem report_table (k : Kernel) (ev : EpollEvent) : (k.report ev).table = k.table := by
  unfold report
  split
  · split <;> rfl
  · rfl

@[simp] theorem report_conns (k : Kernel) (ev : EpollEvent) : (k.report ev).conns = k.conns := by
  unfold report
  split
  · split <;> rfl
  · rfl

@[simp] theorem report_nextConn (k : Kernel) (ev : EpollEvent) :
    (k.report ev).nextConn = k.nextConn := by
  unfold report
  split
  · split <;> rfl
  · rfl

theorem foldl_report (events : List EpollEvent) (k : Kernel) :
    (events.foldl report k).table = k.table ∧ (events.foldl report k).conns = k.conns ∧
      (events.foldl report k).nextConn = k.nextConn := by
  induction events generalizing k with
  | nil => exact ⟨rfl, rfl, rfl⟩
  | cons ev events ih => simpa using ih (k.report ev)

theorem answer_connStep {k k' : Kernel} {e : Syscall} {r : Reply e} (hk : k.Wf)
    (h : k.answer e r = some k') : ConnStep k k' := by
  cases e with
  | socket =>
    cases r with
    | error e =>
      cases h
      exact .refl hk
    | ok fd =>
      simp only [answer, Option.ite_none_right_eq_some, Option.some.injEq] at h
      obtain ⟨_, rfl⟩ := h
      exact ⟨hk.install fd (by simp), fun _ h => h⟩
  | setsockopt fd | bind fd addr | listen fd backlog | malloc size =>
    cases h
    exact .refl hk
  | accept serverFd =>
    cases r with
    | error e =>
      cases h
      exact .refl hk
    | ok fd =>
      obtain ⟨hFree, rfl⟩ := answer_accept h
      exact ⟨hk.accept hFree, fun _ h => h⟩
  | select nfds readFds =>
    cases answer_select h
    exact .refl hk
  | epollCreate size =>
    cases r with
    | error e =>
      cases h
      exact .refl hk
    | ok fd =>
      obtain ⟨_, rfl⟩ := answer_epollCreate h
      exact ⟨(hk.install fd (by simp)).of_table rfl (fun _ _ h => h) fun _ => rfl, fun _ h => h⟩
  | epollCtlAdd epollfd fd events =>
    cases r with
    | error e =>
      cases h
      exact .refl hk
    | ok u =>
      obtain ⟨_, rfl⟩ := answer_epollCtlAdd h
      exact .of_interest hk rfl rfl rfl
  | epollCtlDel epollfd fd events =>
    cases r with
    | error e =>
      cases h
      exact .refl hk
    | ok u =>
      obtain ⟨_, rfl⟩ := answer_epollCtlDel h
      exact .of_interest hk rfl rfl rfl
  | epollWait epollfd maxEvents =>
    cases r with
    | error e =>
      cases h
      exact .refl hk
    | ok events =>
      obtain ⟨_, rfl⟩ := answer_epollWait h
      obtain ⟨hTable, hConns, hNext⟩ := foldl_report events k
      exact .of_interest hk hTable hConns hNext
  | read fd count =>
    cases r with
    | error e =>
      cases h
      exact .refl hk
    | ok bytes =>
      simp only [answer, Option.ite_none_right_eq_some, readFd] at h
      obtain ⟨_, h⟩ := h
      split at h
      · split at h
        · cases h
          exact .updateConn hk _ fun _ => rfl
        · cases h
      · cases h
        exact .refl hk
      · cases h
  | write fd buf =>
    cases r with
    | error e =>
      cases h
      exact .refl hk
    | ok n =>
      simp only [answer, Option.ite_none_right_eq_some, writeFd] at h
      obtain ⟨_, h⟩ := h
      split at h
      · cases h
        exact .updateConn hk _ fun _ => rfl
      · cases h
        exact .refl hk
      · cases h
  | close fd =>
    rw [answer_close h]
    exact .closeFd hk fd

theorem interferes_connStep {threads : Bool} {admits : Kernel → (e : Syscall) → Reply e → Prop}
    {k k' : Kernel} (hk : k.Wf) (h : (environment threads admits).Interferes k k') :
    ConnStep k k' := by
  refine h.preserves (I := ConnStep k) ?_ (.refl hk)
  intro k₁ m k₂ hk₁ hMove
  simp only [environment, Option.ite_none_right_eq_some] at hMove
  obtain ⟨_, hMove⟩ := hMove
  cases m with
  | openFd fd =>
    simp only [Kernel.interfere, Option.ite_none_right_eq_some, Option.some.injEq] at hMove
    obtain ⟨_, rfl⟩ := hMove
    exact ⟨hk₁.wf.install fd (by simp), hk₁.closed⟩
  | closeFd fd =>
    simp only [Kernel.interfere, Option.ite_none_right_eq_some, Option.some.injEq] at hMove
    obtain ⟨_, rfl⟩ := hMove
    exact ⟨hk₁.wf.release fd, hk₁.closed⟩

end Kernel

open Kernel

def closedConn (ev : Event Syscall Reply Kernel) : Option ConnId :=
  match ev.call with
  | .close fd =>
    match ev.before.table fd with
    | some (.client c) => some c
    | _ => none
  | _ => none

theorem closedConn_eq_some {ev : Event Syscall Reply Kernel} {c : ConnId}
    (h : closedConn ev = some c) :
    ∃ fd, ev.call = .close fd ∧ ev.before.table fd = some (.client c) := by
  unfold closedConn at h
  split at h
  · rename_i fd hCall
    split at h
    · rename_i c' hc
      cases h
      exact ⟨fd, hCall, hc⟩
    · cases h
  · cases h

/-- In any run of any program a connection is closed at most once. -/
theorem closedConns_nodup {threads : Bool} {admits : Kernel → (e : Syscall) → Reply e → Prop}
    {α : Type} {p q : Server α} {k k' : Kernel} {t : List (Event Syscall Reply Kernel)}
    (h : Run (environment threads admits) p k t q k') (hk : k.Wf) :
    (t.filterMap closedConn).Nodup ∧
      ∀ c ∈ t.filterMap closedConn, (k.conns c).closed = false := by
  induction h with
  | refl p k => exact ⟨List.nodup_nil, by simp⟩
  | @call e next k k₁ k₂ k' r t q hMoves hAdmits hAnswer _ ih =>
    have hStep₁ := interferes_connStep hk hMoves
    have hStep₂ := answer_connStep hStep₁.wf hAnswer
    obtain ⟨hNodup, hOpen⟩ := ih hStep₂.wf
    have hBack (c : ConnId) (hc : (k₂.conns c).closed = false) : (k.conns c).closed = false := by
      rw [Bool.eq_false_iff] at hc ⊢
      exact fun hClosed => hc (hStep₂.closed c (hStep₁.closed c hClosed))
    cases hConn : closedConn ⟨k₁, e, r, k₂⟩ with
    | none =>
      rw [List.filterMap_cons_none hConn]
      exact ⟨hNodup, fun c hc => hBack c (hOpen c hc)⟩
    | some c =>
      obtain ⟨fd, rfl, hTable⟩ := closedConn_eq_some hConn
      have hClosed : (k₂.conns c).closed = true := by
        rw [answer_close hAnswer]
        exact closed_closeFd hTable
      rw [List.filterMap_cons_some hConn]
      refine ⟨List.nodup_cons.mpr ⟨?_, hNodup⟩, ?_⟩
      · intro hMem
        rw [hOpen c hMem] at hClosed
        cases hClosed
      · intro c' hc'
        rcases List.mem_cons.mp hc' with rfl | hc'
        · rw [Bool.eq_false_iff]
          intro hOld
          have hNow := (hStep₁.wf.openConn fd c' hTable).2
          rw [hStep₁.closed c' hOld] at hNow
          cases hNow
        · exact hBack c' (hOpen c' hc')
  | iter _ ih => exact ih hk

end AndroidDemo.Socket
