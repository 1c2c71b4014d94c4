import AndroidDemo.Socket.ReadSchedule

/-! # Reads that a signal interrupts

`readn` leaves its loop when a read is interrupted. Its result on a schedule is
compared with the result on the same schedule without the interruptions.
-/

namespace AndroidDemo.Socket

open Interaction Program Kernel

variable {threads : Bool} {admits : Kernel → (e : Syscall) → Reply e → Prop} {fd : Fd}
  {st : ReadnLocals} {k k' : Kernel} {ρ : List ReadResult} {res : List UInt8 × Bool}

/-- On a schedule that may go on behind what it needs, `readn` returns `res`. -/
def Returns (k : Kernel) (fd : Fd) (st : ReadnLocals) (ρ : List ReadResult)
    (res : List UInt8 × Bool) : Prop :=
  ∃ t k', Run (environment false fun _ _ _ => True) (readnLoop fd st) k t (.ret res) k' ∧
    readResults t <+: ρ

theorem returns_iff_reading : Returns k fd st ρ res ↔
    ∃ ρ₀ k', Reading false (fun _ _ _ => True) fd st k ρ₀ res k' ∧ ρ₀ <+: ρ := by
  constructor
  · rintro ⟨t, k', hRun, hPrefix⟩
    exact ⟨_, k', reading_of_run hRun, hPrefix⟩
  · rintro ⟨ρ₀, k', hReading, hPrefix⟩
    obtain ⟨t, hRun, rfl⟩ := run_of_reading hReading
    exact ⟨t, k', hRun, hPrefix⟩

theorem returns_done (h : ¬ st.remainLen > 0) :
    Returns k fd st ρ res ↔ res = (st.buf, st.remainLen == 0) := by
  rw [returns_iff_reading]
  constructor
  · rintro ⟨ρ₀, k', hReading, _⟩
    cases hReading with
    | done => rfl
    | stop hMore => exact absurd hMore h
    | more hMore => exact absurd hMore h
  · rintro rfl
    exact ⟨[], k, .done h, List.nil_prefix⟩

theorem not_returns_nil (h : st.remainLen > 0) : ¬ Returns k fd st [] res := by
  rw [returns_iff_reading]
  rintro ⟨ρ₀, k', hReading, hPrefix⟩
  rw [List.prefix_nil.mp hPrefix] at hReading
  cases hReading with
  | done hDone => exact hDone h

theorem returns_cons {r : ReadResult} (h : st.remainLen > 0) :
    Returns k fd st (r :: ρ) res ↔ ∃ k₁, k.answer (.read fd st.remainLen) r = some k₁ ∧
      Sum.elim (fun st' => Returns k₁ fd st' ρ res) (fun res' => res = res') (readnStep st r) := by
  constructor
  · rw [returns_iff_reading]
    rintro ⟨ρ₀, k', hReading, hPrefix⟩
    cases hReading with
    | done hDone => exact absurd h hDone
    | @stop _ _ k₁ k₂ r' _ _ hMoves _ hAnswer hStep =>
      obtain ⟨rfl, _⟩ := List.cons_prefix_cons.mp hPrefix
      cases alone_interferes hMoves
      exact ⟨_, hAnswer, by rw [hStep]; rfl⟩
    | @more _ st' _ k₁ k₂ _ r' ρ' _ _ hMoves _ hAnswer hStep hRest =>
      obtain ⟨rfl, hTail⟩ := List.cons_prefix_cons.mp hPrefix
      cases alone_interferes hMoves
      refine ⟨_, hAnswer, ?_⟩
      rw [hStep]
      exact returns_iff_reading.mpr ⟨ρ', k', hRest, hTail⟩
  · rintro ⟨k₁, hAnswer, hRest⟩
    rw [returns_iff_reading]
    cases hStep : readnStep st r with
    | inr res' =>
      rw [hStep] at hRest
      obtain rfl : res = res' := hRest
      exact ⟨[r], k₁, .stop h (Environment.Interferes.refl _ k) trivial hAnswer hStep, by simp⟩
    | inl st' =>
      rw [hStep] at hRest
      obtain ⟨ρ₀, k', hReading, hPrefix⟩ := returns_iff_reading.mp hRest
      exact ⟨r :: ρ₀, k', .more h (Environment.Interferes.refl _ k) trivial hAnswer hStep hReading,
        List.cons_prefix_cons.mpr ⟨rfl, hPrefix⟩⟩

def uninterrupted (ρ : List ReadResult) : List ReadResult := ρ.filter fun r => r ≠ .error .EINTR

/-- The results `pre` end `readn` with `n` bytes to go and `z` zero results behind. -/
def Ends (z n : Nat) (pre : List ReadResult) : Prop :=
  n ≤ (received pre).length ∨ 10 < z + zeros pre ∨ ∃ e, .error e ∈ pre

/-- With `z` zero results behind, `readn` ends on `ρ` without another byte. -/
def Silent (z : Nat) (ρ : List ReadResult) : Prop :=
  ∃ i, (∃ e, List.replicate i (.ok []) ++ [.error e] <+: ρ) ∨
    10 < z + i ∧ List.replicate i (.ok []) <+: ρ

/-- The first interruption finds `readn` at its end, or with no byte to come. -/
def Harmless (z n : Nat) (ρ : List ReadResult) : Prop :=
  ∀ pre post, ρ = pre ++ .error .EINTR :: post → .error .EINTR ∉ pre →
    Ends z n pre ∨ Silent (z + zeros pre) (uninterrupted post)

theorem silent_of_lt {z : Nat} (h : 10 < z) : Silent z ρ :=
  ⟨0, .inr ⟨h, List.nil_prefix⟩⟩

theorem silent_error (z : Nat) (e : Errno) : Silent z (.error e :: ρ) :=
  ⟨0, .inl ⟨e, List.cons_prefix_cons.mpr ⟨rfl, List.nil_prefix⟩⟩⟩

theorem silent_zero {z : Nat} (hz : z ≤ 10) : Silent z (.ok [] :: ρ) ↔ Silent (z + 1) ρ := by
  constructor
  · rintro ⟨i, hEnd⟩
    cases i with
    | zero =>
      rcases hEnd with ⟨e, hPrefix⟩ | ⟨hLast, _⟩
      · cases (List.cons_prefix_cons.mp hPrefix).1
      · omega
    | succ i =>
      simp only [List.replicate_succ, List.cons_append, List.cons_prefix_cons, true_and] at hEnd
      exact ⟨i, hEnd.imp_right fun ⟨hLast, hPrefix⟩ => ⟨by omega, hPrefix⟩⟩
  · rintro ⟨i, hEnd⟩
    refine ⟨i + 1, ?_⟩
    simp only [List.replicate_succ, List.cons_append, List.cons_prefix_cons, true_and]
    exact hEnd.imp_right fun ⟨hLast, hPrefix⟩ => ⟨by omega, hPrefix⟩

theorem not_silent_byte {z : Nat} (hz : z ≤ 10) (b : UInt8) (bytes : List UInt8) :
    ¬ Silent z (.ok (b :: bytes) :: ρ) := by
  rintro ⟨i, hEnd⟩
  cases i with
  | zero =>
    rcases hEnd with ⟨e, hPrefix⟩ | ⟨hLast, _⟩
    · cases (List.cons_prefix_cons.mp hPrefix).1
    · omega
  | succ i =>
    simp [List.replicate_succ] at hEnd

theorem Reading.buf_prefix (h : Reading threads admits fd st k ρ res k') : st.buf <+: res.1 := by
  induction h with
  | done => exact List.prefix_rfl
  | @stop st _ _ _ r res _ _ _ _ hStep =>
    cases r with
    | error e => cases e <;> cases hStep <;> exact List.prefix_rfl
    | ok bytes =>
      obtain ⟨_, _, rfl⟩ := readnStep_inr hStep
      exact List.prefix_rfl
  | @more st st' _ _ _ _ r _ _ _ _ _ _ hStep _ ih =>
    cases r with
    | error e => cases e <;> cases hStep
    | ok bytes =>
      rw [(readnStep_inl hStep).2] at ih
      exact (List.prefix_append _ _).trans ih

theorem silent_iff (hMore : st.remainLen > 0) (hRetry : st.retryCount ≤ 10)
    (hρ : .error .EINTR ∉ ρ) (h : Returns k fd st ρ res) :
    res = (st.buf, false) ↔ Silent st.retryCount ρ := by
  induction ρ generalizing st k with
  | nil => exact absurd h (not_returns_nil hMore)
  | cons r ρ ih =>
    obtain ⟨k₁, hAnswer, hRest⟩ := (returns_cons hMore).mp h
    cases r with
    | error e =>
      cases e with
      | EINTR => exact absurd List.mem_cons_self hρ
      | other code => exact iff_of_true hRest (silent_error _ _)
    | ok bytes =>
      cases hStep : readnStep st (.ok bytes) with
      | inr res' =>
        rw [hStep] at hRest
        obtain ⟨rfl, hLast, rfl⟩ := readnStep_inr hStep
        refine iff_of_true ?_ ((silent_zero hRetry).mpr (silent_of_lt (by omega)))
        rw [incomplete_of_pos hMore] at hRest
        exact hRest
      | inl st' =>
        rw [hStep] at hRest
        obtain ⟨hStay, rfl⟩ := readnStep_inl hStep
        have hRest : Returns k₁ fd _ ρ res := hRest
        cases bytes with
        | nil =>
          rw [silent_zero hRetry]
          have hRoom : ¬ 10 ≤ st.retryCount := fun hLast => hStay ⟨rfl, hLast⟩
          simpa using ih (by simpa using hMore) (by simp; omega)
            (fun hMem => hρ (List.mem_cons_of_mem _ hMem)) hRest
        | cons b bytes =>
          refine iff_of_false ?_ (not_silent_byte hRetry b bytes)
          rintro rfl
          obtain ⟨_, _, hReading, _⟩ := returns_iff_reading.mp hRest
          have hLonger := hReading.buf_prefix.length_le
          simp at hLonger

theorem harmless_eintr {z n : Nat} (hn : 0 < n) (hz : z ≤ 10) :
    Harmless z n (.error .EINTR :: ρ) ↔ Silent z (uninterrupted ρ) := by
  constructor
  · intro h
    rcases h [] ρ rfl List.not_mem_nil with (hAll | hLast | ⟨e, he⟩) | hSilent
    · cases hn.not_ge hAll
    · cases hz.not_gt hLast
    · cases he
    · exact hSilent
  · intro h pre post hSplit hFirst
    cases pre with
    | nil =>
      cases hSplit
      exact .inr h
    | cons r pre =>
      cases hSplit
      cases hFirst List.mem_cons_self

theorem harmless_ok {z n : Nat} (bytes : List UInt8) :
    Harmless z n (.ok bytes :: ρ) ↔
      Harmless (if bytes = [] then z + 1 else z) (n - bytes.length) ρ := by
  have hEnds (pre : List ReadResult) : Ends z n (.ok bytes :: pre) ↔
      Ends (if bytes = [] then z + 1 else z) (n - bytes.length) pre := by
    simp only [Ends, received_ok, zeros_ok, List.mem_cons, reduceCtorEq, false_or,
      Nat.sub_le_iff_le_add']
  constructor
  · intro h pre post hSplit hFirst
    have hEnd := h (.ok bytes :: pre) post (by rw [hSplit]; rfl) (by simpa using hFirst)
    rwa [hEnds, zeros_ok] at hEnd
  · intro h pre post hSplit hFirst
    cases pre with
    | nil => cases hSplit
    | cons r pre =>
      cases hSplit
      rw [hEnds, zeros_ok]
      exact h pre post rfl fun hMem => hFirst (List.mem_cons_of_mem _ hMem)

theorem harmless_of_stop {r : ReadResult} {res' : List UInt8 × Bool}
    (hStep : readnStep st r = .inr res') (hr : r ≠ .error .EINTR) (n : Nat) :
    Harmless st.retryCount n (r :: ρ) := by
  intro pre post hSplit _
  cases pre with
  | nil => exact absurd (List.cons.inj hSplit).1 hr
  | cons r' pre =>
    cases hSplit
    cases r with
    | error e => exact .inl (.inr (.inr ⟨e, List.mem_cons_self⟩))
    | ok bytes =>
      obtain ⟨rfl, hLast, _⟩ := readnStep_inr hStep
      refine .inl (.inr (.inl ?_))
      rw [zeros_ok, if_pos rfl]
      omega

theorem returns_interrupted_iff (hRetry : st.retryCount ≤ 10)
    (h : Returns k fd st (uninterrupted ρ) res) :
    Returns k fd st ρ res ↔ Harmless st.retryCount st.remainLen.toNat ρ := by
  induction ρ generalizing st k with
  | nil =>
    apply iff_of_true h
    intro pre post hSplit
    simp at hSplit
  | cons r ρ ih =>
    by_cases hMore : st.remainLen > 0
    · by_cases hr : r = .error .EINTR
      · subst hr
        have h : Returns k fd st (uninterrupted ρ) res := h
        have hNone : .error .EINTR ∉ uninterrupted ρ := by simp [uninterrupted]
        rw [harmless_eintr (remainLen_pos_iff.mp hMore) hRetry,
          ← silent_iff hMore hRetry hNone h, returns_cons hMore, ← incomplete_of_pos hMore]
        constructor
        · rintro ⟨_, _, hRes⟩
          exact hRes
        · intro hRes
          exact ⟨k, rfl, hRes⟩
      · have hKeep : uninterrupted (r :: ρ) = r :: uninterrupted ρ := by
          simp [uninterrupted, hr]
        rw [hKeep, returns_cons hMore] at h
        rw [returns_cons hMore]
        obtain ⟨k₁, hAnswer, hRest⟩ := h
        cases hStep : readnStep st r with
        | inr res' =>
          rw [hStep] at hRest
          exact iff_of_true ⟨k₁, hAnswer, hRest⟩ (harmless_of_stop hStep hr _)
        | inl st' =>
          rw [hStep] at hRest
          cases r with
          | error e => cases e <;> cases hStep
          | ok bytes =>
            have hLen := answer_read_length hAnswer
            obtain ⟨hRetry', hRemain, _⟩ := readnStep_progress hRetry hLen hStep
            have hIff := ih hRetry' hRest
            rw [hRemain, (readnStep_inl hStep).2] at hIff
            rw [harmless_ok, ← hIff]
            constructor
            · rintro ⟨k₂, hAnswer', hReturns⟩
              cases hAnswer.symm.trans hAnswer'
              rwa [(readnStep_inl hStep).2] at hReturns
            · intro hReturns
              refine ⟨k₁, hAnswer, ?_⟩
              rwa [(readnStep_inl hStep).2]
    · rw [returns_done hMore] at h ⊢
      refine iff_of_true h fun pre _ _ _ => .inl (.inl ?_)
      rw [remainLen_pos_iff] at hMore
      omega

theorem Returns.unique {res' : List UInt8 × Bool} (h : Returns k fd st ρ res)
    (h' : Returns k fd st ρ res') : res = res' := by
  induction ρ generalizing st k with
  | nil =>
    by_cases hMore : st.remainLen > 0
    · exact absurd h (not_returns_nil hMore)
    · exact ((returns_done hMore).mp h).trans ((returns_done hMore).mp h').symm
  | cons r ρ ih =>
    by_cases hMore : st.remainLen > 0
    · obtain ⟨k₁, hAnswer, hRest⟩ := (returns_cons hMore).mp h
      obtain ⟨k₂, hAnswer', hRest'⟩ := (returns_cons hMore).mp h'
      cases hAnswer.symm.trans hAnswer'
      cases hStep : readnStep st r with
      | inl st' =>
        rw [hStep] at hRest hRest'
        exact ih hRest hRest'
      | inr res₀ =>
        rw [hStep] at hRest hRest'
        exact Eq.trans hRest (Eq.symm hRest')
    · exact ((returns_done hMore).mp h).trans ((returns_done hMore).mp h').symm

/-- Interruptions can only make `readn` return earlier. -/
theorem Returns.interrupted (h : Returns k fd st (uninterrupted ρ) res) :
    ∃ res', Returns k fd st ρ res' := by
  induction ρ generalizing st k with
  | nil => exact ⟨res, h⟩
  | cons r ρ ih =>
    by_cases hMore : st.remainLen > 0
    · by_cases hr : r = .error .EINTR
      · subst hr
        exact ⟨_, (returns_cons hMore).mpr ⟨k, rfl, rfl⟩⟩
      · have hKeep : uninterrupted (r :: ρ) = r :: uninterrupted ρ := by simp [uninterrupted, hr]
        rw [hKeep] at h
        obtain ⟨k₁, hAnswer, hRest⟩ := (returns_cons hMore).mp h
        cases hStep : readnStep st r with
        | inl st' =>
          rw [hStep] at hRest
          obtain ⟨res', hRest'⟩ := ih hRest
          exact ⟨res', (returns_cons hMore).mpr ⟨k₁, hAnswer, by rwa [hStep]⟩⟩
        | inr res₀ => exact ⟨res₀, (returns_cons hMore).mpr ⟨k₁, hAnswer, by rw [hStep]; rfl⟩⟩
    · exact ⟨_, (returns_done hMore).mpr rfl⟩

def readnReturns (k : Kernel) (fd : Fd) (n : SizeT) (ρ : List ReadResult)
    (res : List UInt8 × Bool) : Prop :=
  ∃ t k', Run (environment false fun _ _ _ => True) (readn fd n) k t (.ret res) k' ∧
    readResults t <+: ρ

/-- On an interrupted schedule `readn` has one result. It is the result on the
schedule without the interruptions just when they are harmless. -/
theorem readn_interrupted_iff (k : Kernel) (fd : Fd) (n : SizeT) (ρ : List ReadResult)
    (res : List UInt8 × Bool) (h : readnReturns k fd n (uninterrupted ρ) res) :
    ∃ res', (∀ r, readnReturns k fd n ρ r ↔ r = res') ∧ (res' = res ↔ Harmless 0 n.toNat ρ) := by
  have h : Returns k fd { buf := [], remainLen := n, retryCount := 0 } (uninterrupted ρ) res := h
  obtain ⟨res', h'⟩ := h.interrupted
  refine ⟨res', fun r => ⟨fun hr => Returns.unique hr h', fun hr => hr ▸ h'⟩, ?_⟩
  rw [← returns_interrupted_iff (Nat.zero_le _) h]
  constructor
  · rintro rfl
    exact h'
  · exact h'.unique

/-- The signal arrives when one byte is stored and the peer resets the
connection next, which leaves the same byte. -/
theorem readn_interrupted_reset :
    readnReturns (oneClient [65, 66]) 5 2 [.ok [65], .error .EINTR, .error (.other 104)]
      ([65], false) := by
  obtain ⟨t, q, k', hRun, hGood⟩ := exists_run_of_replay (environment false fun _ _ _ => True)
    (readn 5 2) (oneClient [65, 66]) 10
    [⟨[], .read 5 2, .ok [65]⟩, ⟨[], .read 5 1, .error (.other 104)⟩]
    (fun t q _ => decide (q.result? = some ([65], false) ∧
      readResults t = [.ok [65], .error (.other 104)])) (by decide)
  obtain ⟨hRet, hResults⟩ := of_decide_eq_true hGood
  rw [eq_ret_of_result? hRet] at hRun
  have hErased : readnReturns (oneClient [65, 66]) 5 2
      (uninterrupted [.ok [65], .error .EINTR, .error (.other 104)]) ([65], false) :=
    ⟨t, k', hRun, by rw [hResults]; exact List.prefix_rfl⟩
  obtain ⟨res', hUnique, hIff⟩ := readn_interrupted_iff _ _ _ _ _ hErased
  have hHarmless : Harmless 0 2 [.ok [65], .error .EINTR, .error (.other 104)] := by
    rw [harmless_ok, if_neg (by simp)]
    exact (harmless_eintr (by decide) (by decide)).mpr (silent_error _ _)
  exact (hUnique _).mpr (hIff.mpr hHarmless).symm

/-- A signal before the only byte makes `readn` give up. -/
theorem not_readn_interrupted :
    ¬ ∀ (k : Kernel) (fd : Fd) (n : SizeT) (ρ : List ReadResult) (res : List UInt8 × Bool),
      readnReturns k fd n (uninterrupted ρ) res → readnReturns k fd n ρ res := by
  intro h
  obtain ⟨t, q, k', hRun, hGood⟩ := exists_run_of_replay (environment false fun _ _ _ => True)
    (readn 5 1) (oneClient [65]) 10 [⟨[], .read 5 1, .ok [65]⟩]
    (fun t q _ => decide (q.result? = some ([65], true) ∧ readResults t = [.ok [65]])) (by decide)
  obtain ⟨hRet, hResults⟩ := of_decide_eq_true hGood
  rw [eq_ret_of_result? hRet] at hRun
  have hErased : readnReturns (oneClient [65]) 5 1 (uninterrupted [.error .EINTR, .ok [65]])
      ([65], true) := ⟨t, k', hRun, by rw [hResults]; exact List.prefix_rfl⟩
  have hReturns : Returns (oneClient [65]) 5 { buf := [], remainLen := 1, retryCount := 0 }
      [.error .EINTR, .ok [65]] ([65], true) := h _ _ _ _ _ hErased
  obtain ⟨_, _, hRes⟩ := (returns_cons (by decide)).mp hReturns
  cases hRes

end AndroidDemo.Socket
