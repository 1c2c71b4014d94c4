import AndroidDemo.Interaction.Replay
import AndroidDemo.Socket.Connections
import AndroidDemo.Socket.SelectRules

/-! # The descriptors that enter an fd_set

Nothing in the loop of the select server keeps a descriptor out of the set. The
test `mMaxFd == FD_SETSIZE` comes after the bits are set and only writes a log.
-/

namespace AndroidDemo.Socket

open Interaction Program Kernel

/-- `FD_SET`, `FD_ISSET` and `FD_CLR` get an index of the set, and `select` a
bound that is not above its size. -/
def FdSetGuarantee : Point Syscall Mark → Kernel → Prop
  | .undefined (.fdSetIndex _), _ => False
  | .call (.select nfds readFds), _ => nfds ≤ FD_SETSIZE ∧ ∀ fd ∈ readFds, fd < FD_SETSIZE
  | _, _ => True

theorem fdSet_rules {serverFd : Fd} (hServer : serverFd < FD_SETSIZE) :
    SelectRules true AcceptsFit FdSetGuarantee serverFd
      fun fds _ => ∀ fd ∈ fds, fd < FD_SETSIZE where
  moves _ _ _ h _ := h
  head _ _ _ := trivial
  fits _ _ fd h hfd hBig := by
    rcases hfd with rfl | hfd
    · exact absurd hServer (Nat.not_lt.mpr hBig)
    · exact absurd (h fd hfd) (Nat.not_lt.mpr hBig)
  select fds _ nfds readFds h hMem _ hMax := by
    have hFits : ∀ fd ∈ readFds, fd < FD_SETSIZE := by
      intro fd hfd
      rcases (hMem fd).mp hfd with rfl | hfd
      · exact hServer
      · exact h fd hfd
    obtain ⟨maxFd, hMaxFd, rfl⟩ := hMax
    exact ⟨hFits maxFd hMaxFd, hFits⟩
  accept srv k h := by
    apply acceptClient_safe (I := fun _ => True) (fun _ _ _ _ => trivial)
      (fun _ _ => ⟨trivial, trivial⟩) (fun _ _ => ⟨rfl, h⟩) _ k trivial
    intro k clientFD k' _ hAdmits _
    refine ⟨rfl, fun fd hfd => ?_⟩
    rcases List.mem_append.mp hfd with hfd | hfd
    · exact h fd hfd
    · rw [List.mem_singleton.mp hfd]
      exact hAdmits
  serve before fd rest k h := by
    apply serve_total (frameStable_true.echoStable fd) (fun _ _ => ⟨fun _ => trivial,
      fun _ => trivial, fun _ => trivial, fun _ => trivial, fun _ => trivial, fun _ => trivial⟩)
      (fun _ _ => trivial) trivial
    intro k₁ r k₂ _ _
    refine .ret fun fd' hfd' => h fd' ?_
    rcases List.mem_append.mp hfd' with hfd' | hfd'
    · exact List.mem_append_left _ hfd'
    · exact List.mem_append_right _ (List.mem_cons_of_mem _ hfd')

/-- In every run of the select server in which the listening socket and every
accepted descriptor are small enough, nothing else enters the set. -/
theorem fdSet_fits {serverFd : Fd} (ip : Option String) (port : BitVec 32) {k k' : Kernel}
    {t : List (Event Syscall Reply Kernel)} {q : Server SelectSocketServer}
    (hServer : serverFd < FD_SETSIZE)
    (hRun : Run (environment true fun _ _ _ => True)
      ((SelectSocketServer.new ip port).processClientConnect serverFd) k t q k')
    (hAccepts : ∀ ev ∈ t, AcceptsFit ev.before ev.call ev.reply) :
    (∀ ev ∈ t, FdSetGuarantee (.call ev.call) ev.before) ∧
      ∀ x, q.point? = some x → FdSetGuarantee x k' := by
  have hSafe := (fdSet_rules hServer).safe (.new ip port) rfl (k := k) (by
    intro fd hfd
    cases hfd)
  have hFit : Run (environment true AcceptsFit)
      ((SelectSocketServer.new ip port).processClientConnect serverFd) k t q k' :=
    hRun.weaken (fun _ _ _ => rfl) (fun _ _ hMoves => hMoves) fun ev hev _ => hAccepts ev hev
  exact ⟨fun ev hev => hSafe.event hFit hev, fun x hx => hSafe.point hFit hx⟩

/-- A process that has opened every number below `FD_SETSIZE`. -/
def crowded : Kernel where
  table fd := if fd = 3 then some .listener else if fd < FD_SETSIZE then some .foreign else none
  interest _ := none
  conns _ := { input := [], output := [], closed := false }
  nextConn := 0

theorem crowded_start : crowded.Listening 3 where
  listener := by simp [crowded]
  others fd o h := by
    simp only [crowded] at h
    split at h
    · exact .inl ‹_›
    · split at h
      · exact .inr (Option.some.inj h).symm
      · cases h
  conns _ := ⟨rfl, rfl⟩
  interest _ := rfl

def acceptScript (fd : Fd) : List (Answer Syscall Reply Move) :=
  [⟨[], .select 4 {3}, .ok {3}⟩, ⟨[], .accept 3, .ok fd⟩]

theorem fdSet_fits_accepted :
    ∃ t q k', Run (environment true fun _ _ _ => True)
        ((SelectSocketServer.new none 9001).processClientConnect 3) (listening 3 fun _ => []) t q k' ∧
      k'.IsClient 1023 ∧ ∀ x, q.point? = some x → FdSetGuarantee x k' := by
  obtain ⟨t, q, k', hRun, hGood⟩ := exists_run_of_replay (environment true fun _ _ _ => True)
    ((SelectSocketServer.new none 9001).processClientConnect 3) (listening 3 fun _ => []) 20
    (acceptScript 1023)
    (fun t _ k' => decide (k'.IsClient 1023 ∧ ∀ ev ∈ t, AcceptsFit ev.before ev.call ev.reply))
    (by decide)
  obtain ⟨hClient, hAccepts⟩ := of_decide_eq_true hGood
  exact ⟨t, q, k', hRun, hClient, (fdSet_fits none 9001 (by decide) hRun hAccepts).2⟩

theorem fdSet_overrun :
    ¬ ∀ (serverFd : Fd) (ip : Option String) (port : BitVec 32) (k k' : Kernel)
      (t : List (Event Syscall Reply Kernel)) (q : Server SelectSocketServer),
      k.Listening serverFd →
      Run (environment true fun _ _ _ => True)
        ((SelectSocketServer.new ip port).processClientConnect serverFd) k t q k' →
      (∀ ev ∈ t, FdSetGuarantee (.call ev.call) ev.before) ∧
        ∀ x, q.point? = some x → FdSetGuarantee x k' := by
  intro hAll
  obtain ⟨t, q, k', hRun, hGood⟩ := exists_run_of_replay (environment true fun _ _ _ => True)
    ((SelectSocketServer.new none 9001).processClientConnect 3) crowded 20 (acceptScript 1024)
    (fun _ q _ => decide (q.point? = some (.undefined (.fdSetIndex 1024)))) (by decide)
  exact (hAll 3 none 9001 _ k' t q crowded_start hRun).2 _ (of_decide_eq_true hGood)

end AndroidDemo.Socket
