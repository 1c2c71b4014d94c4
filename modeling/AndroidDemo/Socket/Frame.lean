import AndroidDemo.Interaction.Safety
import AndroidDemo.Socket.AbstractSocketServer
import AndroidDemo.Socket.Answers

/-! # What a server keeps of its descriptors

Other threads, and the calls on data, leave the descriptors of the server as
they are. A predicate about descriptors that is stable under this relation
survives the shared functions of the servers.
-/

namespace AndroidDemo.Socket

open Interaction Program

namespace Kernel

/-- `k'` differs from `k` in data only and, where there are other threads, in
the descriptors of other owners. -/
structure Frame (threads : Bool) (k k' : Kernel) : Prop where
  alone : threads = false → k'.table = k.table
  own : ∀ fd o, o ≠ .foreign → (k'.table fd = some o ↔ k.table fd = some o)
  interest : ∀ fd i, k'.interest fd = some i → k.interest fd = some i
  kept : ∀ fd o, o ≠ .foreign → k.table fd = some o → k'.interest fd = k.interest fd
  nextConn : k'.nextConn = k.nextConn

namespace Frame

variable {threads : Bool}

theorem refl (k : Kernel) : Frame threads k k where
  alone _ := rfl
  own _ _ _ := Iff.rfl
  interest _ _ h := h
  kept _ _ _ _ := rfl
  nextConn := rfl

theorem trans {k k₁ k₂ : Kernel} (h : Frame threads k k₁) (h' : Frame threads k₁ k₂) :
    Frame threads k k₂ where
  alone hAlone := (h'.alone hAlone).trans (h.alone hAlone)
  own fd o ho := (h'.own fd o ho).trans (h.own fd o ho)
  interest fd i hi := h.interest fd i (h'.interest fd i hi)
  kept fd o ho hfd := (h'.kept fd o ho ((h.own fd o ho).mpr hfd)).trans (h.kept fd o ho hfd)
  nextConn := h'.nextConn.trans h.nextConn

theorem of_data {k k' : Kernel} (hTable : k'.table = k.table) (hInterest : k'.interest = k.interest)
    (hNext : k'.nextConn = k.nextConn) : Frame threads k k' where
  alone _ := hTable
  own fd o _ := by rw [hTable]
  interest fd i h := by rwa [hInterest] at h
  kept fd o _ _ := by rw [hInterest]
  nextConn := hNext

theorem isClient {k k' : Kernel} (h : Frame threads k k') (fd : Fd) :
    k'.IsClient fd ↔ k.IsClient fd :=
  exists_congr fun c => h.own fd (.client c) (by simp)

theorem interfere {k k' : Kernel} {m : Move} (h : k.interfere m = some k') :
    Frame true k k' := by
  cases m with
  | openFd x =>
    simp only [Kernel.interfere, Option.ite_none_right_eq_some, Option.some.injEq] at h
    obtain ⟨hFree, rfl⟩ := h
    refine ⟨by simp, ?_, fun _ _ hi => hi, fun _ _ _ _ => rfl, rfl⟩
    intro fd o ho
    by_cases hfd : fd = x
    · subst hfd
      simp [install, hFree, ho.symm]
    · simp [install, hfd]
  | closeFd x =>
    simp only [Kernel.interfere, Option.ite_none_right_eq_some, Option.some.injEq] at h
    obtain ⟨hForeign, rfl⟩ := h
    refine ⟨by simp, ?_, ?_, ?_, rfl⟩
    · intro fd o ho
      by_cases hfd : fd = x
      · subst hfd
        simp [release, hForeign, ho.symm]
      · simp [release, hfd]
    · intro fd i hi
      by_cases hfd : fd = x
      · simp [release, hfd] at hi
      · simpa [release, hfd] using hi
    · intro fd o ho hOwner
      have hfd : fd ≠ x := by
        rintro rfl
        exact ho (Option.some.inj (hOwner.symm.trans hForeign))
      simp [release, hfd]

end Frame

theorem answer_read (threads : Bool) {k k' : Kernel} {fd : Fd} {count : SizeT} {r : Reply (.read fd count)}
    (h : k.answer (.read fd count) r = some k') : Frame threads k k' := by
  cases r with
  | error e =>
    cases h
    exact .refl k
  | ok bytes =>
    simp only [answer, Option.ite_none_right_eq_some, readFd] at h
    obtain ⟨_, h⟩ := h
    split at h
    · split at h
      · cases h
        exact .of_data rfl rfl rfl
      · cases h
    · cases h
      exact .refl k
    · cases h

theorem answer_read_length {k k' : Kernel} {fd : Fd} {count : SizeT} {bytes : List UInt8}
    (h : k.answer (.read fd count) (.ok bytes) = some k') : bytes.length ≤ count.toNat := by
  simp only [answer, Option.ite_none_right_eq_some] at h
  exact h.1.1

theorem answer_write (threads : Bool) {k k' : Kernel} {fd : Fd} {buf : List UInt8} {r : Reply (.write fd buf)}
    (h : k.answer (.write fd buf) r = some k') : Frame threads k k' := by
  cases r with
  | error e =>
    cases h
    exact .refl k
  | ok n =>
    simp only [answer, Option.ite_none_right_eq_some, writeFd] at h
    obtain ⟨_, h⟩ := h
    split at h
    · cases h
      exact .of_data rfl rfl rfl
    · cases h
      exact .refl k
    · cases h

theorem answer_select {k k' : Kernel} {nfds : Nat} {readFds : FdSet}
    {r : Reply (.select nfds readFds)} (h : k.answer (.select nfds readFds) r = some k') : k' = k := by
  cases r with
  | error e => exact (Option.some.inj h).symm
  | ok ready =>
    simp only [answer, Option.ite_none_right_eq_some, Option.some.injEq] at h
    exact h.2.symm

@[simp] theorem closeFd_table (k : Kernel) (fd : Fd) :
    (k.closeFd fd).table = Function.update k.table fd none := by
  unfold closeFd
  split <;> rfl

@[simp] theorem closeFd_interest (k : Kernel) (fd : Fd) :
    (k.closeFd fd).interest = Function.update k.interest fd none := by
  unfold closeFd
  split <;> rfl

theorem answer_close {k k' : Kernel} {fd : Fd} {r : Reply (.close fd)}
    (h : k.answer (.close fd) r = some k') : k' = k.closeFd fd := by
  cases r with
  | error e => exact (Option.some.inj h).symm
  | ok u =>
    simp only [answer] at h
    split at h
    · cases h
    · exact (Option.some.inj h).symm

theorem alone_interferes {admits : Kernel → (e : Syscall) → Reply e → Prop} {k k' : Kernel}
    (h : (environment false admits).Interferes k k') : k' = k :=
  h.preserves (I := (· = k)) (fun _ _ _ _ hMove => by simp [environment] at hMove) rfl

theorem interferes_frame {threads : Bool} {admits : Kernel → (e : Syscall) → Reply e → Prop}
    {k k' : Kernel} (h : (environment threads admits).Interferes k k') : Frame threads k k' := by
  cases threads with
  | false =>
    rw [alone_interferes h]
    exact .refl k
  | true =>
    refine h.preserves (I := Frame true k) ?_ (.refl k)
    intro k₁ m k₂ hk₁ hMove
    exact hk₁.trans (.interfere hMove)

end Kernel

open Kernel

/-! ## The shared functions under a stable predicate -/

def FrameStable (threads : Bool) (I : Kernel → Prop) : Prop :=
  ∀ k k', Frame threads k k' → I k → I k'

structure EchoStable (threads : Bool) (admits : Kernel → (e : Syscall) → Reply e → Prop) (fd : Fd)
    (I : Kernel → Prop) : Prop where
  moves : ∀ k k', I k → (environment threads admits).Interferes k k' → I k'
  read : ∀ k count r k', I k → k.answer (.read fd count) r = some k' → I k'
  write : ∀ k buf r k', I k → k.answer (.write fd buf) r = some k' → I k'

variable {threads : Bool} {admits : Kernel → (e : Syscall) → Reply e → Prop}
  {G : Point Syscall Mark → Kernel → Prop} {I : Kernel → Prop}

theorem frameStable_true : FrameStable threads fun _ => True := fun _ _ _ _ => trivial

theorem FrameStable.moves (hI : FrameStable threads I) (k k' : Kernel) (hk : I k)
    (hMoves : (environment threads admits).Interferes k k') : I k' :=
  hI k k' (interferes_frame hMoves) hk

theorem FrameStable.echoStable (hI : FrameStable threads I) (fd : Fd) :
    EchoStable threads admits fd I where
  moves := hI.moves
  read _ _ _ _ hk hAnswer := hI _ _ (answer_read threads hAnswer) hk
  write _ _ _ _ hk hAnswer := hI _ _ (answer_write threads hAnswer) hk

structure EchoAllowed (G : Point Syscall Mark → Kernel → Prop) (fd : Fd) (k : Kernel) : Prop where
  read : ∀ count, G (.call (.read fd count)) k
  write : ∀ buf, G (.call (.write fd buf)) k
  malloc : ∀ size, G (.call (.malloc size)) k
  readnLoop : ∀ st, G (.loop (.readnLoop st)) k
  lenOverflow : ∀ len, G (.undefined (.lenOverflow len)) k
  msgTerminator : ∀ len, G (.undefined (.msgTerminator len)) k

theorem EchoAllowed.of_forall {k : Kernel} (h : ∀ x, G x k) (fd : Fd) : EchoAllowed G fd k where
  read _ := h _
  write _ := h _
  malloc _ := h _
  readnLoop _ := h _
  lenOverflow _ := h _
  msgTerminator _ := h _

theorem remainLen_pos_iff {st : ReadnLocals} : st.remainLen > 0 ↔ 0 < st.remainLen.toNat := by
  rw [gt_iff_lt, BitVec.lt_def]
  exact Iff.rfl

theorem incomplete_of_pos {st : ReadnLocals} (h : st.remainLen > 0) :
    (st.remainLen == 0) = false := by
  rw [beq_eq_false_iff_ne]
  intro hZero
  rw [hZero] at h
  exact absurd h (by decide)

def readnMeasure (st : ReadnLocals) : Nat := st.remainLen.toNat + (10 - st.retryCount)

theorem readnStep_ok (st : ReadnLocals) (bytes : List UInt8) :
    readnStep st (.ok bytes) =
      if bytes = [] ∧ 10 ≤ st.retryCount then .inr (st.buf, st.remainLen == 0)
      else .inl
        { buf := st.buf ++ bytes
          remainLen := st.remainLen - BitVec.ofNat 32 bytes.length
          retryCount := if bytes = [] then st.retryCount + 1 else st.retryCount } := by
  cases bytes with
  | nil =>
    have hLt : 10 < st.retryCount + 1 ↔ 10 ≤ st.retryCount := Nat.lt_succ_iff
    simp [readnStep, hLt]
  | cons b bytes => simp [readnStep]

theorem readnStep_inl {st st' : ReadnLocals} {bytes : List UInt8}
    (h : readnStep st (.ok bytes) = .inl st') :
    ¬ (bytes = [] ∧ 10 ≤ st.retryCount) ∧
      st' =
        { buf := st.buf ++ bytes
          remainLen := st.remainLen - BitVec.ofNat 32 bytes.length
          retryCount := if bytes = [] then st.retryCount + 1 else st.retryCount } := by
  rw [readnStep_ok] at h
  by_cases hLeave : bytes = [] ∧ 10 ≤ st.retryCount
  · rw [if_pos hLeave] at h
    cases h
  · rw [if_neg hLeave] at h
    exact ⟨hLeave, (Sum.inl.inj h).symm⟩

theorem readnStep_inr {st : ReadnLocals} {bytes : List UInt8} {r : List UInt8 × Bool}
    (h : readnStep st (.ok bytes) = .inr r) :
    bytes = [] ∧ 10 ≤ st.retryCount ∧ r = (st.buf, st.remainLen == 0) := by
  rw [readnStep_ok] at h
  by_cases hLeave : bytes = [] ∧ 10 ≤ st.retryCount
  · rw [if_pos hLeave] at h
    exact ⟨hLeave.1, hLeave.2, (Sum.inr.inj h).symm⟩
  · rw [if_neg hLeave] at h
    cases h

theorem readnStep_progress {st st' : ReadnLocals} {bytes : List UInt8}
    (hRetry : st.retryCount ≤ 10) (hLen : bytes.length ≤ st.remainLen.toNat)
    (h : readnStep st (.ok bytes) = .inl st') :
    st'.retryCount ≤ 10 ∧ st'.remainLen.toNat = st.remainLen.toNat - bytes.length ∧
      readnMeasure st' < readnMeasure st := by
  have hLt := st.remainLen.isLt
  have hRemain : (st.remainLen - BitVec.ofNat 32 bytes.length).toNat =
      st.remainLen.toNat - bytes.length := by
    rw [BitVec.toNat_sub, BitVec.toNat_ofNat, Nat.mod_eq_of_lt (a := bytes.length) (by omega)]
    omega
  obtain ⟨hStay, rfl⟩ := readnStep_inl h
  refine ⟨?_, hRemain, ?_⟩
  · split
    · rename_i hNil
      exact Nat.lt_of_not_le fun hRoom => hStay ⟨hNil, hRoom⟩
    · exact hRetry
  · simp only [readnMeasure, hRemain]
    split
    · rename_i hNil
      have hRoom : ¬ 10 ≤ st.retryCount := fun hRoom => hStay ⟨hNil, hRoom⟩
      rw [hNil, List.length_nil]
      omega
    · rename_i hNil
      have hPos := List.length_pos_of_ne_nil hNil
      omega

/-- `allocMsg` goes through where the length is small and memory does not run
out; elsewhere it may end in an operation without a meaning. -/
theorem allocMsg_total {len : BitVec 32}
    (hI : ∀ k k', I k → (environment threads admits).Interferes k k' → I k')
    (hMalloc : ∀ k, I k → G (.call (.malloc (len + 1))) k)
    (hUndefined : (∀ k, I k → G (.undefined (.lenOverflow len)) k ∧
        G (.undefined (.msgTerminator len)) k) ∨
      len.toNat ≤ 2 ^ 31 - 2 ∧ ∀ k, ¬ admits k (.malloc (len + 1)) false)
    (k : Kernel) (hk : I k) :
    Total (environment threads admits) G (fun _ k' => I k') (allocMsg len) k := by
  have hToInt (hFits : len.toNat ≤ 2 ^ 31 - 2) : len.toInt = len.toNat :=
    BitVec.toInt_eq_toNat_of_lt (by omega)
  rw [allocMsg]
  split
  · rename_i hOverflow
    rcases hUndefined with hAllowed | ⟨hFits, _⟩
    · exact .undefined (hAllowed k hk).1
    · rw [hToInt hFits] at hOverflow
      omega
  · refine .call (fun k₁ hMoves => hMalloc k₁ (hI _ _ hk hMoves)) ?_
    intro k₁ msg k₂ hMoves hAdmits hAnswer
    have hk₁ := hI _ _ hk hMoves
    cases hAnswer
    rw [ret_bind]
    split
    · exact .ret hk₁
    · rename_i hBad
      rcases hUndefined with hAllowed | ⟨hFits, hMemory⟩
      · exact .undefined (hAllowed _ hk₁).2
      · cases msg with
        | false => exact (hMemory _ hAdmits).elim
        | true => exact (hBad ⟨rfl, hToInt hFits ▸ Int.natCast_nonneg _⟩).elim

section
variable {fd : Fd} (hI : EchoStable threads admits fd I) (hG : ∀ k, I k → EchoAllowed G fd k)
include hI hG

theorem readn_total (len : SizeT) (k : Kernel) (hk : I k) :
    Total (environment threads admits) G (fun _ k' => I k') (readn fd len) k := by
  refine Total.loop (I := fun st k => I k ∧ st.retryCount ≤ 10) readnMeasure ?_ _ k
    ⟨hk, Nat.zero_le _⟩
  rintro st k ⟨hk, hRetry⟩
  refine ⟨(hG k hk).readnLoop st, ?_⟩
  rw [readnTurn]
  split
  · refine .call (fun k₁ hMoves => (hG k₁ (hI.moves _ _ hk hMoves)).read _) ?_
    intro k₁ r k₂ hMoves _ hAnswer
    have hk₂ : I k₂ := hI.read _ _ _ _ (hI.moves _ _ hk hMoves) hAnswer
    refine .ret ?_
    cases hStep : readnStep st r with
    | inr result => exact hk₂
    | inl st' =>
      cases r with
      | error e => cases e <;> cases hStep
      | ok bytes =>
        have hLen := answer_read_length hAnswer
        obtain ⟨hRetry', _, hMeasure⟩ := readnStep_progress hRetry hLen hStep
        exact ⟨⟨hk₂, hRetry'⟩, hMeasure⟩
  · exact .ret hk

theorem echoFrame_total (k : Kernel) (hk : I k) :
    Total (environment threads admits) G (fun _ k' => I k') (echoFrame fd) k := by
  have hWrite (buf : List UInt8) (k : Kernel) (hk : I k) {next : Reply (.write fd buf) → Server Unit}
      (h : ∀ r k', I k' → Total (environment threads admits) G (fun _ k' => I k') (next r) k') :
      Total (environment threads admits) G (fun _ k' => I k') (.call (.write fd buf) next) k := by
    refine .call (fun k₁ hMoves => (hG k₁ (hI.moves _ _ hk hMoves)).write _) ?_
    intro k₁ r k₂ hMoves _ hAnswer
    exact h r k₂ (hI.write _ _ _ _ (hI.moves _ _ hk hMoves) hAnswer)
  apply (readn_total hI hG 4 k hk).bind
  rintro ⟨buf, complete⟩ k hk
  dsimp only
  split
  · refine hWrite buf k hk fun _ k hk => ?_
    refine (allocMsg_total hI.moves (fun k hk => (hG k hk).malloc _)
      (.inl fun k hk => ⟨(hG k hk).lenOverflow _, (hG k hk).msgTerminator _⟩) k hk).bind ?_
    rintro ⟨⟩ k hk
    apply (readn_total hI hG _ k hk).bind
    rintro ⟨msg, complete⟩ k hk
    dsimp only
    split
    · exact hWrite msg k hk fun _ _ hk => .ret hk
    · exact .ret hk
  · exact .ret hk

/-- A service is the echo of one frame and the `close` behind it. -/
theorem serve_total (hClose : ∀ k, I k → G (.call (.close fd)) k) {α : Type}
    {Q : α → Kernel → Prop} {next : Reply (.close fd) → Server α} {k : Kernel} (hk : I k)
    (hNext : ∀ k₁ r k₂, I k₁ → k₁.answer (.close fd) r = some k₂ →
      Total (environment threads admits) G Q (next r) k₂) :
    Total (environment threads admits) G Q
      ((echoFrame fd).bind fun _ => .call (.close fd) next) k := by
  apply (echoFrame_total hI hG k hk).bind
  rintro ⟨⟩ k hk
  refine .call (fun k₁ hMoves => hClose k₁ (hI.moves _ _ hk hMoves)) ?_
  intro k₁ r k₂ hMoves _ hAnswer
  exact hNext k₁ r k₂ (hI.moves _ _ hk hMoves) hAnswer

end

theorem acceptClient_safe {srv : AbstractSocketServer} {serverFd : Fd}
    {Q : AbstractSocketServer → Kernel → Prop}
    (hI : ∀ k k', I k → (environment threads admits).Interferes k k' → I k')
    (hG : ∀ k, I k → G (.loop .acceptRetry) k ∧ G (.call (.accept serverFd)) k)
    (hNone : ∀ k, I k → Q srv k)
    (hSome : ∀ k clientFD k', I k → admits k (.accept serverFd) (.ok clientFD) →
      k.answer (.accept serverFd) (.ok clientFD) = some k' →
      Q { srv with mClientFds := srv.mClientFds ++ [clientFD] } k')
    (k : Kernel) (hk : I k) :
    Safe (environment threads admits) G Q (acceptClient srv serverFd) k := by
  apply Safe.loop (I := fun _ k => I k) hk
  intro _ k hk
  refine ⟨(hG k hk).1, ?_⟩
  refine .call (fun k₁ hMoves => (hG k₁ (hI _ _ hk hMoves)).2) ?_
  intro k₁ r k₂ hMoves hAdmits hAnswer
  have hk₁ := hI _ _ hk hMoves
  refine .ret ?_
  cases r with
  | ok clientFD => exact hSome k₁ clientFD k₂ hk₁ hAdmits hAnswer
  | error e =>
    cases hAnswer
    cases e with
    | EINTR => exact hk₁
    | other code => exact hNone _ hk₁

end AndroidDemo.Socket
