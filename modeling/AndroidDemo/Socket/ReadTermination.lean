import AndroidDemo.Socket.ReadSchedule

/-! # readn ends, and its counters stay in range

Every result either takes bytes off `remainLen`, counts in `retryCount`, or ends
the loop.
-/

namespace AndroidDemo.Socket

open Interaction Program Kernel

variable {threads : Bool} {admits : Kernel → (e : Syscall) → Reply e → Prop} {fd : Fd}
  {st st' : ReadnLocals} {k k' : Kernel} {ρ : List ReadResult}
  {t : List (Event Syscall Reply Kernel)} {q : Server (List UInt8 × Bool)}

/-- The locals `st'` come from `st` by counting the results `ρ`. The subtraction
from `remainLen` has not wrapped. -/
structure Counted (st : ReadnLocals) (ρ : List ReadResult) (st' : ReadnLocals) : Prop where
  remainLen : st'.remainLen.toNat + (received ρ).length = st.remainLen.toNat
  retryCount : st'.retryCount = st.retryCount + zeros ρ
  retryCount_le : st'.retryCount ≤ 10

theorem Counted.nil (hRetry : st.retryCount ≤ 10) : Counted st [] st := ⟨rfl, rfl, hRetry⟩

theorem Counted.cons {bytes : List UInt8} (hRetry : st.retryCount ≤ 10)
    (hLen : bytes.length ≤ st.remainLen.toNat) (hStep : readnStep st (.ok bytes) = .inl st')
    {st'' : ReadnLocals} (h : Counted st' ρ st'') : Counted st (.ok bytes :: ρ) st'' where
  remainLen := by
    obtain ⟨_, hRemain, _⟩ := readnStep_progress hRetry hLen hStep
    have hRest := h.remainLen
    rw [received_ok]
    omega
  retryCount := by
    rw [zeros_ok, h.retryCount, (readnStep_inl hStep).2]
  retryCount_le := h.retryCount_le

/-- What holds of a run of the loop of `readn` that begins in `st`. -/
structure Bounded (st : ReadnLocals) (t : List (Event Syscall Reply Kernel))
    (q : Server (List UInt8 × Bool)) : Prop where
  reads : (readResults t).length = t.length
  length_le : t.length ≤ readnMeasure st
  zeros_le : st.retryCount + zeros (readResults t) ≤ 11
  loop : ∀ st', q.point? = some (.loop (.readnLoop st')) → Counted st (readResults t) st'
  defined : ∀ p, q.point? ≠ some (.undefined p)

theorem Bounded.nil (hRetry : st.retryCount ≤ 10)
    (hLoop : ∀ st', q.point? = some (.loop (.readnLoop st')) → st' = st)
    (hDefined : ∀ p, q.point? ≠ some (.undefined p)) : Bounded st [] q where
  reads := rfl
  length_le := Nat.zero_le _
  zeros_le := Nat.le_succ_of_le hRetry
  loop st' hPoint := by
    obtain rfl := hLoop st' hPoint
    exact .nil hRetry
  defined := hDefined

theorem run_bounded (hRetry : st.retryCount ≤ 10)
    (hRun : Run (environment threads admits) (readnLoop fd st) k t q k') : Bounded st t q := by
  induction t generalizing st k with
  | nil =>
    cases hRun with
    | refl =>
      refine .nil hRetry (fun st' hPoint => ?_) fun p hPoint => by cases hPoint
      cases hPoint
      rfl
    | iter hRun =>
      by_cases hMore : st.remainLen > 0
      · rw [unroll_readn_read hMore] at hRun
        cases hRun
        exact .nil hRetry (fun st' hPoint => by cases hPoint) fun p hPoint => by cases hPoint
      · rw [unroll_readn_done hMore] at hRun
        cases hRun
        exact .nil hRetry (fun st' hPoint => by cases hPoint) fun p hPoint => by cases hPoint
  | cons ev t ih =>
    cases hRun with
    | iter hRun =>
      by_cases hMore : st.remainLen > 0
      · rw [unroll_readn_read hMore] at hRun
        have hPos := remainLen_pos_iff.mp hMore
        cases hRun with
        | @call _ _ _ k₁ k₂ _ r _ _ _ _ hAnswer hRun =>
          dsimp only at hRun
          cases hStep : readnStep st r with
          | inr res =>
            rw [hStep] at hRun
            obtain ⟨rfl, rfl, rfl⟩ := Run.ret_inv hRun
            -- the last result is an error or the eleventh zero
            have hZeros : zeros [r] ≤ 1 := List.count_le_length
            exact
              { reads := rfl
                length_le := by
                  simp only [List.length_singleton, readnMeasure]
                  omega
                zeros_le := Nat.add_le_add hRetry hZeros
                loop := fun st' hPoint => by cases hPoint
                defined := fun p hPoint => by cases hPoint }
          | inl st' =>
            rw [hStep] at hRun
            cases r with
            | error e => cases e <;> cases hStep
            | ok bytes =>
              have hLen := answer_read_length hAnswer
              obtain ⟨hRetry', _, hMeasure⟩ := readnStep_progress hRetry hLen hStep
              have hRest := ih hRetry' hRun
              exact
                { reads := congrArg Nat.succ hRest.reads
                  length_le := Nat.lt_of_le_of_lt hRest.length_le hMeasure
                  zeros_le := by
                    have hZeros := hRest.zeros_le
                    rw [(readnStep_inl hStep).2] at hZeros
                    change st.retryCount + zeros (.ok bytes :: readResults t) ≤ 11
                    rwa [zeros_ok]
                  loop := fun st'' hPoint => (hRest.loop st'' hPoint).cons hRetry hLen hStep
                  defined := hRest.defined }
      · rw [unroll_readn_done hMore] at hRun
        cases hRun

/-- In every run `readn` ends after at most `n + 10` reads. `retryCount` is the
number of empty reads and is never above 11, and at every head of the loop
`remainLen` is what is left of `n`. -/
theorem readn_terminates (threads : Bool) (admits : Kernel → (e : Syscall) → Reply e → Prop)
    (k : Kernel) (fd : Fd) (n : SizeT) :
    Total (environment threads admits) (fun _ _ => True) (fun _ _ => True) (readn fd n) k ∧
    ∀ (t : List (Event Syscall Reply Kernel)) (q : Server (List UInt8 × Bool)) (k' : Kernel),
      Run (environment threads admits) (readn fd n) k t q k' →
        (∀ p, q.point? ≠ some (.undefined p)) ∧
        (readResults t).length = t.length ∧ t.length ≤ n.toNat + 10 ∧ zeros (readResults t) ≤ 11 ∧
        ∀ st, q.point? = some (.loop (.readnLoop st)) →
          st.remainLen.toNat + (received (readResults t)).length = n.toNat ∧
          st.retryCount = zeros (readResults t) ∧ st.retryCount ≤ 10 := by
  have hTotal : Total (environment threads admits) (fun _ _ => True) (fun _ _ => True)
      (readn fd n) k :=
    readn_total (frameStable_true.echoStable fd) (fun _ _ => .of_forall (fun _ => trivial) fd) n k
      trivial
  refine ⟨hTotal, fun t q k' hRun => ?_⟩
  have hBounded : Bounded { buf := [], remainLen := n, retryCount := 0 } t q :=
    run_bounded (Nat.zero_le _) hRun
  refine ⟨hBounded.defined, hBounded.reads, hBounded.length_le, ?_, fun st hPoint => ?_⟩
  · have hZeros := hBounded.zeros_le
    rwa [Nat.zero_add] at hZeros
  · have hCounted := hBounded.loop st hPoint
    exact ⟨hCounted.remainLen, hCounted.retryCount.trans (Nat.zero_add _), hCounted.retryCount_le⟩

/-- Ten empty reads and then the byte: the bound is reached. -/
theorem readn_terminates_ten_zeros :
    ∃ t k', Run (environment false fun _ _ _ => True) (readn 5 1) (oneClient [65]) t
        (.ret ([65], true)) k' ∧ t.length = 11 ∧ t.length ≤ (1 : SizeT).toNat + 10 := by
  obtain ⟨t, q, k', hRun, hGood⟩ := exists_run_of_replay (environment false fun _ _ _ => True)
    (readn 5 1) (oneClient [65]) 40
    (List.replicate 10 ⟨[], .read 5 1, .ok []⟩ ++ [⟨[], .read 5 1, .ok [65]⟩])
    (fun t q _ => decide (q.result? = some ([65], true) ∧ t.length = 11)) (by decide)
  obtain ⟨hRet, hLength⟩ := of_decide_eq_true hGood
  rw [eq_ret_of_result? hRet] at hRun
  exact ⟨t, k', hRun, hLength,
    ((readn_terminates false (fun _ _ _ => True) (oneClient [65]) 5 1).2 t _ k' hRun).2.2.1⟩

end AndroidDemo.Socket
