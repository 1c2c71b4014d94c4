import AndroidDemo.Interaction.Replay
import AndroidDemo.Socket.Echo

/-! # readn on a schedule of results

A run of `readn` is decided by the results of its `read` calls, one after the
other. What `readn` stores and returns is compared over schedules.
-/

namespace AndroidDemo.Socket

open Interaction Program Kernel

abbrev ReadResult := Except Errno (List UInt8)

def readResult : Event Syscall Reply Kernel → Option ReadResult
  | ⟨_, .read _ _, r, _⟩ => some r
  | _ => none

def readResults (t : List (Event Syscall Reply Kernel)) : List ReadResult := t.filterMap readResult

def readnLoop (fd : Fd) (st : ReadnLocals) : Server (List UInt8 × Bool) :=
  loop .readnLoop (readnTurn fd) st

variable {threads : Bool} {admits : Kernel → (e : Syscall) → Reply e → Prop} {fd : Fd}
  {st st' : ReadnLocals} {k k' : Kernel} {ρ : List ReadResult} {res : List UInt8 × Bool}

/-- From the head of its loop in `st` and `k`, `readn` consumes the results `ρ`
and returns `res`. -/
inductive Reading (threads : Bool) (admits : Kernel → (e : Syscall) → Reply e → Prop) (fd : Fd) :
    ReadnLocals → Kernel → List ReadResult → List UInt8 × Bool → Kernel → Prop
  | done {st : ReadnLocals} {k : Kernel} (h : ¬ st.remainLen > 0) :
    Reading threads admits fd st k [] (st.buf, st.remainLen == 0) k
  | stop {st : ReadnLocals} {k k₁ k₂ : Kernel} {r : ReadResult} {res : List UInt8 × Bool}
    (h : st.remainLen > 0) (hMoves : (environment threads admits).Interferes k k₁)
    (hAdmits : admits k₁ (.read fd st.remainLen) r)
    (hAnswer : k₁.answer (.read fd st.remainLen) r = some k₂) (hStep : readnStep st r = .inr res) :
    Reading threads admits fd st k [r] res k₂
  | more {st st' : ReadnLocals} {k k₁ k₂ k' : Kernel} {r : ReadResult} {ρ : List ReadResult}
    {res : List UInt8 × Bool} (h : st.remainLen > 0)
    (hMoves : (environment threads admits).Interferes k k₁)
    (hAdmits : admits k₁ (.read fd st.remainLen) r)
    (hAnswer : k₁.answer (.read fd st.remainLen) r = some k₂) (hStep : readnStep st r = .inl st')
    (hRest : Reading threads admits fd st' k₂ ρ res k') :
    Reading threads admits fd st k (r :: ρ) res k'

theorem unroll_readn_done (h : ¬ st.remainLen > 0) :
    Program.unroll .readnLoop (readnTurn fd) st .ret =
      (.ret (st.buf, st.remainLen == 0) : Server (List UInt8 × Bool)) := by
  rw [Program.unroll, readnTurn, if_neg h]
  rfl

theorem unroll_readn_read (h : st.remainLen > 0) :
    Program.unroll .readnLoop (readnTurn fd) st .ret =
      (.call (.read fd st.remainLen) fun r => Sum.elim (readnLoop fd) .ret (readnStep st r) :
        Server (List UInt8 × Bool)) := by
  rw [Program.unroll, readnTurn, if_pos h]
  rfl

theorem reading_of_run {t : List (Event Syscall Reply Kernel)}
    (h : Run (environment threads admits) (readnLoop fd st) k t (.ret res) k') :
    Reading threads admits fd st k (readResults t) res k' := by
  induction t generalizing st k with
  | nil =>
    cases h with
    | iter h =>
      by_cases hMore : st.remainLen > 0
      · rw [unroll_readn_read hMore] at h
        cases h
      · rw [unroll_readn_done hMore] at h
        cases h
        exact .done hMore
  | cons ev t ih =>
    cases h with
    | iter h =>
      by_cases hMore : st.remainLen > 0
      · rw [unroll_readn_read hMore] at h
        cases h with
        | @call _ _ _ k₁ k₂ _ r _ _ hMoves hAdmits hAnswer h =>
          dsimp only at h
          cases hStep : readnStep st r with
          | inl st' =>
            rw [hStep] at h
            exact .more hMore hMoves hAdmits hAnswer hStep (ih h)
          | inr res' =>
            rw [hStep] at h
            obtain ⟨rfl, hRet, rfl⟩ := Run.ret_inv h
            cases hRet
            exact .stop hMore hMoves hAdmits hAnswer hStep
      · rw [unroll_readn_done hMore] at h
        cases h

theorem run_of_reading (h : Reading threads admits fd st k ρ res k') :
    ∃ t, Run (environment threads admits) (readnLoop fd st) k t (.ret res) k' ∧
      readResults t = ρ := by
  induction h with
  | done hDone =>
    refine ⟨[], .iter ?_, rfl⟩
    rw [unroll_readn_done hDone]
    exact .refl _ _
  | @stop st k k₁ k₂ r res hMore hMoves hAdmits hAnswer hStep =>
    refine ⟨[⟨k₁, .read fd st.remainLen, r, k₂⟩], .iter ?_, rfl⟩
    rw [unroll_readn_read hMore]
    refine .call hMoves hAdmits hAnswer ?_
    rw [hStep]
    exact .refl _ _
  | @more st st' k k₁ k₂ k' r ρ res hMore hMoves hAdmits hAnswer hStep _ ih =>
    obtain ⟨t, hRun, rfl⟩ := ih
    refine ⟨⟨k₁, .read fd st.remainLen, r, k₂⟩ :: t, .iter ?_, rfl⟩
    rw [unroll_readn_read hMore]
    refine .call hMoves hAdmits hAnswer ?_
    rw [hStep]
    exact hRun

/-! ## Segmentation -/

def received (ρ : List ReadResult) : List UInt8 := ρ.flatMap fun r => r.toOption.getD []

def zeros (ρ : List ReadResult) : Nat := ρ.count (.ok [])

theorem received_ok (bytes : List UInt8) (ρ : List ReadResult) :
    (received (.ok bytes :: ρ)).length = bytes.length + (received ρ).length := by
  simp [received, Except.toOption]

theorem zeros_ok (z : Nat) (bytes : List UInt8) (ρ : List ReadResult) :
    z + zeros (.ok bytes :: ρ) = (if bytes = [] then z + 1 else z) + zeros ρ := by
  rw [zeros, List.count_cons]
  by_cases hNil : bytes = []
  · simp only [hNil, beq_self_eq_true, if_true, zeros]
    omega
  · simp [hNil, zeros]

/-- `n` bytes are delivered before any failure and before the eleventh zero
result, of which `z` came earlier. -/
def Delivers (z n : Nat) (ρ : List ReadResult) : Prop :=
  ∃ pre, pre <+: ρ ∧ (received pre).length = n ∧ z + zeros pre ≤ 10 ∧ ∀ e, .error e ∉ pre

theorem delivers_zero {z : Nat} : Delivers z 0 ρ ↔ z ≤ 10 := by
  constructor
  · rintro ⟨pre, _, _, hZeros, _⟩
    omega
  · intro hz
    exact ⟨[], List.nil_prefix, rfl, hz, fun _ => List.not_mem_nil⟩

theorem exists_cons_of_delivers {z n : Nat} {r : ReadResult} (hn : 0 < n)
    (h : Delivers z n (r :: ρ)) :
    ∃ pre, pre <+: ρ ∧ (received (r :: pre)).length = n ∧ z + zeros (r :: pre) ≤ 10 ∧
      ∀ e, .error e ∉ r :: pre := by
  obtain ⟨pre, hPrefix, hLength, hRest⟩ := h
  rcases List.prefix_cons_iff.mp hPrefix with rfl | ⟨pre, rfl, hTail⟩
  · cases hLength
    cases hn
  · exact ⟨pre, hTail, hLength, hRest⟩

theorem not_delivers_error {z n : Nat} {e : Errno} (hn : 0 < n) :
    ¬ Delivers z n (.error e :: ρ) := by
  intro h
  obtain ⟨pre, _, _, _, hNone⟩ := exists_cons_of_delivers hn h
  exact hNone e List.mem_cons_self

theorem delivers_ok {z n : Nat} {bytes : List UInt8} (hn : 0 < n) (hLen : bytes.length ≤ n) :
    Delivers z n (.ok bytes :: ρ) ↔
      Delivers (if bytes = [] then z + 1 else z) (n - bytes.length) ρ := by
  constructor
  · intro h
    obtain ⟨pre, hPrefix, hLength, hCount, hNone⟩ := exists_cons_of_delivers hn h
    rw [received_ok] at hLength
    rw [zeros_ok] at hCount
    exact ⟨pre, hPrefix, by omega, hCount, fun e he => hNone e (List.mem_cons_of_mem _ he)⟩
  · rintro ⟨pre, hPrefix, hLength, hCount, hNone⟩
    refine ⟨.ok bytes :: pre, List.cons_prefix_cons.mpr ⟨rfl, hPrefix⟩, ?_, ?_, ?_⟩
    · rw [received_ok]
      omega
    · rwa [zeros_ok]
    · intro e he
      rcases List.mem_cons.mp he with he | he
      · cases he
      · exact hNone e he

theorem Reading.complete_iff (h : Reading threads ReadsUnsignalled fd st k ρ res k')
    (hRetry : st.retryCount ≤ 10) {σ : List ReadResult} (hσ : ρ <+: σ) :
    res.2 = true ↔ Delivers st.retryCount st.remainLen.toNat σ := by
  induction h generalizing σ with
  | @done st k hDone =>
    have hZero : st.remainLen = 0 := by
      rw [remainLen_pos_iff] at hDone
      exact BitVec.eq_of_toNat_eq (by simpa using hDone)
    rw [hZero]
    exact iff_of_true rfl (delivers_zero.mpr hRetry)
  | @stop st k k₁ k₂ r res hMore _ hAdmits _ hStep =>
    have hPos := remainLen_pos_iff.mp hMore
    obtain ⟨rest, rfl⟩ := hσ
    cases r with
    | error e =>
      cases e with
      | EINTR => exact (hAdmits rfl).elim
      | other code =>
        cases hStep
        exact iff_of_false Bool.false_ne_true (not_delivers_error hPos)
    | ok bytes =>
      obtain ⟨rfl, hLast, rfl⟩ := readnStep_inr hStep
      rw [incomplete_of_pos hMore, List.singleton_append, delivers_ok hPos (Nat.zero_le _), if_pos rfl]
      apply iff_of_false Bool.false_ne_true
      rintro ⟨_, _, _, hZeros, _⟩
      omega
  | @more st st' k k₁ k₂ k' r ρ res hMore _ _ hAnswer hStep _ ih =>
    obtain ⟨σ, rfl, hTail⟩ := List.cons_prefix_iff.mp hσ
    cases r with
    | error e => cases e <;> cases hStep
    | ok bytes =>
      have hLen := answer_read_length hAnswer
      obtain ⟨hRetry', hRemain, _⟩ := readnStep_progress hRetry hLen hStep
      rw [ih hRetry' hTail, delivers_ok (remainLen_pos_iff.mp hMore) hLen, hRemain,
        (readnStep_inl hStep).2]

theorem readn_takes (threads : Bool) {c : ConnId} (hOpen : k.table fd = some (.client c)) (n : SizeT) :
    Total (environment threads ReadsUnsignalled) (fun x _ => ∀ p, x ≠ .undefined p)
      (fun r k' => ∃ m ≤ n.toNat, m ≤ (k.conns c).input.length ∧
        r = ((k.conns c).input.take m, decide (m = n.toNat)) ∧
        (k'.conns c).input = (k.conns c).input.drop m) (readn fd n) k := by
  apply (readn_reads hOpen n (fun _ _ _ _ _ => ⟨by simp, by simp⟩) (.start threads k c)).mono
    (fun _ _ h => h)
  rintro r k' ⟨m, hLe, hLe', hRes, _, hk'⟩
  exact ⟨m, hLe, hLe', hRes, by rw [hk'.conn_eq]⟩

/-- Whatever the chunks, `readn` ends and returns `true` just when all bytes are
delivered in time. It takes from the stream exactly what it stores. -/
theorem readn_segmentation (threads : Bool) {k : Kernel} {fd : Fd} {c : ConnId}
    (hOpen : k.table fd = some (.client c)) (n : SizeT) :
    Total (environment threads ReadsUnsignalled) (fun x _ => ∀ p, x ≠ .undefined p)
      (fun _ _ => True) (readn fd n) k ∧
    ∀ (t : List (Event Syscall Reply Kernel)) (buf : List UInt8) (complete : Bool) (k' : Kernel),
      Run (environment threads ReadsUnsignalled) (readn fd n) k t (.ret (buf, complete)) k' →
      ∀ schedule, readResults t <+: schedule →
        (complete = true ↔ Delivers 0 n.toNat schedule) ∧
        (complete = true → n.toNat ≤ (k.conns c).input.length ∧ buf = (k.conns c).input.take n.toNat ∧
          (k'.conns c).input = (k.conns c).input.drop n.toNat) ∧
        (complete = false → ∃ m < n.toNat, m ≤ (k.conns c).input.length ∧
          buf = (k.conns c).input.take m ∧ (k'.conns c).input = (k.conns c).input.drop m) := by
  have hTakes := readn_takes threads hOpen n
  refine ⟨hTakes.mono (fun _ _ h => h) fun _ _ _ => trivial,
    fun t buf complete k' hRun schedule hSchedule => ?_⟩
  have hIff := (reading_of_run hRun).complete_iff (Nat.zero_le _) hSchedule
  obtain ⟨m, hLe, hLe', hRes, hRest⟩ := hTakes.safe.result hRun
  obtain ⟨rfl, rfl⟩ := Prod.mk.inj hRes
  refine ⟨hIff, fun hDone => ?_, fun hPart => ?_⟩
  · obtain rfl := of_decide_eq_true hDone
    exact ⟨hLe', rfl, hRest⟩
  · exact ⟨m, lt_of_le_of_ne hLe (of_decide_eq_false hPart), hLe', rfl, hRest⟩

/-- A process with one open connection, on descriptor 5. -/
def oneClient (stream : List UInt8) : Kernel where
  table fd := if fd = 5 then some (.client 0) else none
  interest _ := none
  conns _ := { input := stream, output := [], closed := false }
  nextConn := 1

/-- Two bytes come one by one, with an empty read in between. -/
theorem readn_segmentation_chunks :
    ∃ t k', Run (environment false ReadsUnsignalled) (readn 5 2) (oneClient [65, 66, 67]) t
        (.ret ([65, 66], true)) k' ∧ readResults t = [.ok [65], .ok [], .ok [66]] ∧
      Delivers 0 2 [.ok [65], .ok [], .ok [66]] ∧ (k'.conns 0).input = [67] := by
  obtain ⟨t, q, k', hRun, hGood⟩ := exists_run_of_replay (environment false ReadsUnsignalled)
    (readn 5 2) (oneClient [65, 66, 67]) 10
    [⟨[], .read 5 2, .ok [65]⟩, ⟨[], .read 5 1, .ok []⟩, ⟨[], .read 5 1, .ok [66]⟩]
    (fun t q _ => decide (q.result? = some ([65, 66], true) ∧
      readResults t = [.ok [65], .ok [], .ok [66]])) (by decide)
  obtain ⟨hRet, hResults⟩ := of_decide_eq_true hGood
  rw [eq_ret_of_result? hRet] at hRun
  have hOpen : (oneClient [65, 66, 67]).table 5 = some (.client 0) := rfl
  have hSchedule : readResults t <+: [.ok [65], .ok [], .ok [66]] := by rw [hResults]
  obtain ⟨hIff, hDone, _⟩ := (readn_segmentation false hOpen 2).2 t _ _ k' hRun _ hSchedule
  exact ⟨t, k', hRun, hResults, hIff.mp rfl, (hDone rfl).2.2⟩

end AndroidDemo.Socket
