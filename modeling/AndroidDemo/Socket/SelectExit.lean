import AndroidDemo.Interaction.History
import AndroidDemo.Socket.ServerParts

/-! # How the loop of the select server ends

The loop has one way out: a `select` that fails. Everything before it succeeds,
and nothing follows it.
-/

namespace AndroidDemo.Socket

open Interaction Program Kernel

/-! ## Which calls occur where -/

def echoCall : Syscall → Bool
  | .read _ _ | .write _ _ | .malloc _ => true
  | _ => false

def servesClients : Syscall → Bool
  | .accept _ | .close _ => true
  | e => echoCall e

theorem echoFrame_calls (fd : Fd) : (echoFrame fd).Calls fun e => echoCall e = true :=
  echoFrame_parts (Calls.compositional _) (fun _ _ => rfl) (fun _ => rfl)
    (fun _ _ _ hNext => ⟨rfl, fun _ => hNext⟩) fd

theorem acceptClient_calls (srv : AbstractSocketServer) (serverFd : Fd) :
    (acceptClient srv serverFd).Calls fun e => servesClients e = true := by
  refine .loop (fun _ => ?_) ()
  exact ⟨rfl, fun _ => trivial⟩

theorem servesClients_of_echoCall {e : Syscall} (h : echoCall e = true) : servesClients e = true := by
  cases e <;> first | rfl | cases h

theorem dispatch_calls (srv : SelectSocketServer) (serverFd : Fd) (readFds : FdSet) :
    (srv.dispatch serverFd readFds).Calls fun e => servesClients e = true :=
  dispatch_parts (Calls.compositional _)
    (fun fd => (echoFrame_calls fd).mono fun _ => servesClients_of_echoCall) (fun _ => rfl)
    acceptClient_calls srv serverFd readFds

/-! ## The history of a run -/

/-- A call failed that a server gives up on. -/
def fails : Event Syscall Reply Kernel → Bool
  | ⟨_, .setsockopt _, .error _, _⟩ => true
  | ⟨_, .bind _ _, .error _, _⟩ => true
  | ⟨_, .select _ _, .error _, _⟩ => true
  | _ => false

theorem fails_of_serves {ev : Event Syscall Reply Kernel} (h : servesClients ev.call = true) :
    fails ev = false := by
  obtain ⟨k, e, r, k'⟩ := ev
  cases e <;> first | rfl | cases h

def Waits (hist h : List (Event Syscall Reply Kernel)) : Prop :=
  ∃ t, h = hist ++ t ∧ ∀ ev ∈ t, fails ev = false

theorem Waits.snoc {hist h : List (Event Syscall Reply Kernel)} (hWaits : Waits hist h)
    {ev : Event Syscall Reply Kernel} (hev : fails ev = false) : Waits hist (h ++ [ev]) := by
  obtain ⟨t, rfl, hAll⟩ := hWaits
  refine ⟨t ++ [ev], by simp, ?_⟩
  intro x hx
  rcases List.mem_append.mp hx with hx | hx
  · exact hAll x hx
  · rwa [List.mem_singleton.mp hx]

theorem Waits.trans {hist h h' : List (Event Syscall Reply Kernel)} (hWaits : Waits hist h)
    (hMore : Waits h h') : Waits hist h' := by
  obtain ⟨t, rfl, hAll⟩ := hWaits
  obtain ⟨t', rfl, hAll'⟩ := hMore
  exact ⟨t ++ t', by simp, List.forall_mem_append.mpr ⟨hAll, hAll'⟩⟩

variable {threads : Bool} {admits : Kernel → (e : Syscall) → Reply e → Prop}
  {G : Point Syscall Mark → Kernel → Prop} {serverFd : Fd} {J : List Fd → Kernel → Prop}

/-- The history when the loop ends: its last event is a failed `select`, the
only one. -/
structure Ended (J : List Fd → Kernel → Prop) (hist : List (Event Syscall Reply Kernel))
    (srv : SelectSocketServer) (k : Kernel) (h : List (Event Syscall Reply Kernel)) : Prop where
  inv : J srv.mClientFds k
  last : ∃ h₀ nfds readFds e, h = h₀ ++ [⟨k, .select nfds readFds, .error e, k⟩] ∧ Waits hist h₀

theorem SelectRules.dispatch_record (rules : SelectRules threads admits G serverFd J)
    (srv : SelectSocketServer) (readFds : FdSet) {k : Kernel} (h : J srv.mClientFds k)
    (hist : List (Event Syscall Reply Kernel)) :
    Safe (environment threads admits).record (fun _ s => Waits hist s.2)
      (fun srv' s => (srv'.mRunning = srv.mRunning ∧ J srv'.mClientFds s.1) ∧ Waits hist s.2)
      (srv.dispatch serverFd readFds) (k, hist) := by
  have hWaits {t h : List (Event Syscall Reply Kernel)} (hEq : h = hist ++ t)
      (hAll : ∀ ev ∈ t, G (.call ev.call) ev.before ∧
        ∀ c, (.call ev.call : Point Syscall Mark) = .call c → servesClients c = true) :
      Waits hist h :=
    ⟨t, hEq, fun ev hev => fails_of_serves ((hAll ev hev).2 _ rfl)⟩
  refine (((rules.dispatch_safe srv h).and (.of_calls (dispatch_calls srv serverFd readFds))).record
    hist).mono ?_ ?_
  · rintro x s ⟨_, t, hEq, hAll⟩
    exact hWaits hEq hAll
  · rintro srv' s ⟨⟨hInv, _⟩, t, hEq, hAll⟩
    exact ⟨hInv, hWaits hEq hAll⟩

theorem SelectRules.processClientConnect_record (rules : SelectRules threads admits G serverFd J)
    (srv : SelectSocketServer) (hRunning : srv.mRunning = true) {k : Kernel}
    (h : J srv.mClientFds k) (hist : List (Event Syscall Reply Kernel)) :
    Safe (environment threads admits).record (fun _ s => Waits hist s.2)
      (fun srv' s => Ended J hist srv' s.1 s.2) (srv.processClientConnect serverFd) (k, hist) := by
  refine Safe.loop (I := fun srv s => (srv.mRunning = true ∧ J srv.mClientFds s.1) ∧ Waits hist s.2)
    ⟨⟨hRunning, h⟩, [], by simp⟩ ?_
  rintro srv ⟨k, hist₁⟩ ⟨⟨hRunning, h⟩, hWaits⟩
  refine ⟨hWaits, ?_⟩
  rcases turn_cases serverFd hRunning with ⟨fd, _, _, hEq⟩ | ⟨readFds, mMaxFd, _, hEq⟩
  · rw [hEq]
    exact .undefined hWaits
  · rw [hEq]
    refine .call_record (fun _ _ => hWaits) ?_
    intro k₁ r k₂ hMoves _ hAnswer
    have h₁ := rules.moves _ _ _ h hMoves
    cases answer_select hAnswer
    cases r with
    | error e => exact .ret ⟨h₁, hist₁, _, _, e, rfl, hWaits⟩
    | ok ready =>
      let ev : Event Syscall Reply Kernel := ⟨k₁, .select (mMaxFd + 1) readFds, .ok ready, k₁⟩
      have hSnoc : Waits hist (hist₁ ++ [ev]) := hWaits.snoc rfl
      have hDispatch := rules.dispatch_record
        { srv with mAllFds := readFds, mMaxFd := mMaxFd } ready h₁ (hist₁ ++ [ev])
      apply (hDispatch.mono (fun _ _ hMore => hSnoc.trans hMore) fun _ _ hMore => hMore).bind
      exact fun _ _ hMore => .ret ⟨⟨hMore.1.1.trans hRunning, hMore.1.2⟩, hSnoc.trans hMore.2⟩

theorem trivial_rules (threads : Bool) (admits : Kernel → (e : Syscall) → Reply e → Prop)
    (serverFd : Fd) :
    SelectRules threads admits (fun _ _ => True) serverFd fun _ _ => True where
  moves _ _ _ _ _ := trivial
  head _ _ _ := trivial
  fits _ _ _ _ _ _ := trivial
  select _ _ _ _ _ _ _ _ := trivial
  accept _ k _ :=
    acceptClient_safe frameStable_true.moves (fun _ _ => ⟨trivial, trivial⟩)
      (fun _ _ => ⟨rfl, trivial⟩) (fun _ _ _ _ _ _ => ⟨rfl, trivial⟩) k trivial
  serve _ fd _ _ _ :=
    serve_total (frameStable_true.echoStable fd) (fun _ _ => .of_forall (fun _ => trivial) fd)
      (fun _ _ => trivial) trivial fun _ _ _ _ _ => .ret trivial

/-- While the select server runs nothing has failed; when it returns the last
event was the only failure. -/
theorem select_history {ip : Option String} {port : BitVec 32} {k k' : Kernel}
    {t : List (Event Syscall Reply Kernel)} {q : Server Unit}
    (hRun : Run (environment threads admits)
      (ServerKind.select.processClientConnect ip port serverFd) k t q k') :
    (∀ x, q.point? = some x → ∀ ev ∈ t, fails ev = false) ∧
      (q.point? = none → ∃ h₀ ev, t = h₀ ++ [ev] ∧ fails ev = true ∧
        ∀ ev ∈ h₀, fails ev = false) := by
  have hSafe : Safe (environment threads admits).record (fun _ s => Waits [] s.2)
      (fun _ s => ∃ h₀ ev, s.2 = h₀ ++ [ev] ∧ fails ev = true ∧ Waits [] h₀)
      (ServerKind.select.processClientConnect ip port serverFd) (k, []) := by
    refine ((trivial_rules threads admits serverFd).processClientConnect_record
      (.new ip port) rfl trivial []).bind ?_
    rintro _ s ⟨_, h₀, nfds, readFds, e, hEq, hWaits⟩
    exact .ret ⟨h₀, _, hEq, rfl, hWaits⟩
  have hAll {h : List (Event Syscall Reply Kernel)} (hWaits : Waits [] h) :
      ∀ ev ∈ h, fails ev = false := by
    obtain ⟨t, rfl, hAll⟩ := hWaits
    exact hAll
  refine ⟨fun x hx => hAll (hSafe.point_record hRun hx), fun hNone => ?_⟩
  obtain ⟨a, rfl⟩ := eq_ret_of_point? hNone
  obtain ⟨h₀, ev, hEq, hFails, hWaits⟩ := hSafe.result_record hRun
  exact ⟨h₀, ev, hEq, hFails, hAll hWaits⟩

end AndroidDemo.Socket
