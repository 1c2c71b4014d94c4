import AndroidDemo.Socket.Connections

/-! # What one service does to its connection

Where reads are not interrupted and writes are accepted in full, the bytes sent
back are a function of the stream of the client, however `read` cuts it.
-/

namespace AndroidDemo.Socket

open Interaction Program Kernel

/-- The bytes sent back on a stream `s`: nothing without a complete header, the
header alone if the message behind it is incomplete. -/
def echo (s : List UInt8) : List UInt8 :=
  if s.length < 4 then []
  else if 4 + bigEndian (s.take 4) ≤ s.length then s.take (4 + bigEndian (s.take 4))
  else s.take 4

/-- The length field of a stream is small enough for `malloc(len + 1)`. -/
def FrameFits (s : List UInt8) : Prop := 4 ≤ s.length → bigEndian (s.take 4) ≤ 2 ^ 31 - 2

namespace Kernel

theorem interferes_conns {threads : Bool} {admits : Kernel → (e : Syscall) → Reply e → Prop}
    {k k' : Kernel} (h : (environment threads admits).Interferes k k') : k'.conns = k.conns := by
  refine h.preserves (I := fun k' => k'.conns = k.conns) ?_ rfl
  intro k₁ m k₂ hk₁ hMove
  simp only [environment, Option.ite_none_right_eq_some] at hMove
  obtain ⟨_, hMove⟩ := hMove
  cases m <;>
  · simp only [Kernel.interfere, Option.ite_none_right_eq_some, Option.some.injEq] at hMove
    obtain ⟨_, rfl⟩ := hMove
    exact hk₁

/-- Since `k` nothing but connection `c` has changed, which is now `conn`. -/
structure Serving (threads : Bool) (k : Kernel) (c : ConnId) (conn : Conn) (k' : Kernel) : Prop where
  frame : Frame threads k k'
  conns : k'.conns = Function.update k.conns c conn

namespace Serving

variable {threads : Bool} {admits : Kernel → (e : Syscall) → Reply e → Prop} {k k₁ k₂ : Kernel}
  {fd : Fd} {c : ConnId} {conn : Conn}

theorem start (threads : Bool) (k : Kernel) (c : ConnId) : Serving threads k c (k.conns c) k :=
  ⟨.refl k, (Function.update_eq_self c k.conns).symm⟩

theorem moves (h : Serving threads k c conn k₁)
    (hMoves : (environment threads admits).Interferes k₁ k₂) : Serving threads k c conn k₂ :=
  ⟨h.frame.trans (interferes_frame hMoves), (interferes_conns hMoves).trans h.conns⟩

theorem conn_eq (h : Serving threads k c conn k₁) : k₁.conns c = conn := by
  rw [h.conns, Function.update_self]

theorem conns_of_ne (h : Serving threads k c conn k₁) {c' : ConnId} (hne : c' ≠ c) :
    k₁.conns c' = k.conns c' := by
  rw [h.conns, Function.update_of_ne hne]

theorem table (h : Serving threads k c conn k₁) (hOpen : k.table fd = some (.client c)) :
    k₁.table fd = some (.client c) :=
  (h.frame.own fd _ (by simp)).mpr hOpen

theorem read (h : Serving threads k c conn k₁) (hOpen : k.table fd = some (.client c))
    {count : SizeT} {bytes : List UInt8} (hAnswer : k₁.answer (.read fd count) (.ok bytes) = some k₂) :
    bytes.length ≤ count.toNat ∧ bytes <+: conn.input ∧
      Serving threads k c { conn with input := conn.input.drop bytes.length } k₂ := by
  have hFrame := answer_read threads hAnswer
  simp only [answer, Option.ite_none_right_eq_some, readFd, h.table hOpen, h.conn_eq,
    Option.some.injEq] at hAnswer
  obtain ⟨⟨hLen, _⟩, hPrefix, rfl⟩ := hAnswer
  refine ⟨hLen, hPrefix, h.frame.trans hFrame, ?_⟩
  simp only [updateConn, h.conns, Function.update_self, Function.update_idem]

theorem write_ok (h : Serving threads k c conn k₁) (hOpen : k.table fd = some (.client c))
    {buf : List UInt8} {n : Nat} (hAnswer : k₁.answer (.write fd buf) (.ok n) = some k₂) :
    Serving threads k c { conn with output := conn.output ++ buf.take n } k₂ := by
  have hFrame := answer_write threads hAnswer
  simp only [answer, Option.ite_none_right_eq_some, writeFd, h.table hOpen,
    Option.some.injEq] at hAnswer
  obtain ⟨_, rfl⟩ := hAnswer
  refine ⟨h.frame.trans hFrame, ?_⟩
  simp only [updateConn, h.conns, Function.update_self, Function.update_idem]

theorem write (h : Serving threads k c conn k₁) (hOpen : k.table fd = some (.client c))
    {buf : List UInt8} {r : Reply (.write fd buf)} (hAnswer : k₁.answer (.write fd buf) r = some k₂) :
    ∃ output, Serving threads k c { conn with output := output } k₂ := by
  cases r with
  | error e =>
    cases hAnswer
    exact ⟨_, h⟩
  | ok n => exact ⟨_, h.write_ok hOpen hAnswer⟩

theorem wf (h : Serving threads k c conn k₁) (hk : k.Wf) (hConn : conn.closed = (k.conns c).closed) :
    k₁.Wf := by
  apply hk.of_table h.frame.nextConn (fun fd c => (h.frame.own fd _ (by simp)).mp)
  intro c'
  by_cases hne : c' = c
  · subst hne
    rw [h.conn_eq, hConn]
  · rw [h.conns_of_ne hne]

end Serving

end Kernel

variable {threads : Bool} {admits : Kernel → (e : Syscall) → Reply e → Prop}
  {G : Point Syscall Mark → Kernel → Prop}

/-! ## readn -/

structure ReadnInv (input : List UInt8) (len : SizeT) (st : ReadnLocals) (m : Nat) : Prop where
  le : m ≤ input.length
  buf : st.buf = input.take m
  remain : m + st.remainLen.toNat = len.toNat
  retry : st.retryCount ≤ 10

theorem ReadnInv.step {input bytes : List UInt8} {len : SizeT} {st st' : ReadnLocals} {m : Nat}
    (h : ReadnInv input len st m) (hPrefix : bytes <+: input.drop m)
    (hLen : bytes.length ≤ st.remainLen.toNat) (hStep : readnStep st (.ok bytes) = .inl st') :
    ReadnInv input len st' (m + bytes.length) := by
  obtain ⟨hRetry, hRemain, _⟩ := readnStep_progress h.retry hLen hStep
  have hDrop := hPrefix.length_le
  have hBuf : st'.buf = st.buf ++ bytes := by
    rw [(readnStep_inl hStep).2]
  refine ⟨?_, ?_, ?_, hRetry⟩
  · have := h.le
    rw [List.length_drop] at hDrop
    omega
  · rw [hBuf, h.buf, List.take_add, ← List.prefix_iff_eq_take.mp hPrefix]
  · have := h.remain
    omega

/-- Reads of a client do not fail, and are empty at the end of its stream only. -/
def ReadsThrough (admits : Kernel → (e : Syscall) → Reply e → Prop) : Prop :=
  ∀ k fd count r, admits k (.read fd count) r → Uninterrupted k (.read fd count) r

theorem ReadnInv.complete_eq {input : List UInt8} {len : SizeT} {st : ReadnLocals} {m : Nat}
    (h : ReadnInv input len st m) : (st.remainLen == 0) = decide (m = len.toNat) := by
  have hRemain := h.remain
  have hZero : st.remainLen = 0 ↔ st.remainLen.toNat = 0 := BitVec.toNat_eq
  rw [beq_eq_decide]
  exact decide_eq_decide.mpr (hZero.trans (by omega))

/-- Whatever the results of its reads, `readn` stores what they take from the
stream, and reports whether that is all it was asked for. -/
theorem readn_reads {k₀ k : Kernel} {fd : Fd} {c : ConnId}
    (hOpen : k₀.table fd = some (.client c)) {conn : Conn} (len : SizeT)
    (hG : ∀ m st k, ReadnInv conn.input len st m →
      Serving threads k₀ c { conn with input := conn.input.drop m } k →
      G (.call (.read fd st.remainLen)) k ∧ G (.loop (.readnLoop st)) k)
    (hk : Serving threads k₀ c conn k) :
    Total (environment threads admits) G
      (fun r k' => ∃ m, m ≤ len.toNat ∧ m ≤ conn.input.length ∧
        r = (conn.input.take m, decide (m = len.toNat)) ∧
        (ReadsThrough admits → m = len.toNat ∨ conn.input.length ≤ m) ∧
        Serving threads k₀ c { conn with input := conn.input.drop m } k') (readn fd len) k := by
  refine Total.loop (I := fun st k => ∃ m, ReadnInv conn.input len st m ∧
    Serving threads k₀ c { conn with input := conn.input.drop m } k) readnMeasure ?_ _ k
    ⟨0, ⟨Nat.zero_le _, rfl, Nat.zero_add _, Nat.zero_le _⟩, hk⟩
  rintro st k ⟨m, hInv, hk⟩
  have hRemain := hInv.remain
  refine ⟨(hG m st k hInv hk).2, ?_⟩
  rw [readnTurn]
  split
  · rename_i hMore
    refine .call (fun k₁ hMoves => (hG m st k₁ hInv (hk.moves hMoves)).1) ?_
    intro k₁ r k₂ hMoves hAdmits hAnswer
    have hk₁ := hk.moves hMoves
    have hPart : m ≠ len.toNat := by
      have hPos := remainLen_pos_iff.mp hMore
      omega
    refine .ret ?_
    cases r with
    | error e =>
      cases hAnswer
      have hStep : readnStep st (.error e) = .inr (st.buf, false) := by
        cases e with
        | EINTR => rw [readnStep, incomplete_of_pos hMore]
        | other code => rfl
      rw [hStep]
      refine ⟨m, by omega, hInv.le, by rw [hInv.buf, decide_eq_false hPart], fun hThrough => ?_, hk₁⟩
      exact (hThrough _ _ _ _ hAdmits ⟨c, hk₁.table hOpen⟩).elim
    | ok bytes =>
      obtain ⟨hLen, hPrefix, hk₂⟩ := hk₁.read hOpen hAnswer
      cases hStep : readnStep st (.ok bytes) with
      | inl st' =>
        refine ⟨⟨m + bytes.length, hInv.step hPrefix hLen hStep, ?_⟩,
          (readnStep_progress hInv.retry hLen hStep).2.2⟩
        simpa only [List.drop_drop] using hk₂
      | inr result =>
        obtain ⟨rfl, _, rfl⟩ := readnStep_inr hStep
        refine ⟨m, by omega, hInv.le, by rw [hInv.buf, hInv.complete_eq], fun hThrough => ?_,
          by simpa using hk₂⟩
        have hEnd := hThrough _ _ _ _ hAdmits rfl
        simp only [unread, hk₁.table hOpen, hk₁.conn_eq] at hEnd
        exact .inr (List.drop_eq_nil_iff.mp hEnd)
  · rename_i hDone
    have hAll : m = len.toNat := by
      rw [remainLen_pos_iff] at hDone
      omega
    exact .ret ⟨m, hAll.le, hInv.le, by rw [hInv.buf, hInv.complete_eq], fun _ => .inl hAll, hk⟩

/-- Whatever the chunks, `readn` stores the first `len` bytes of what is left of
the stream, or all of it and reports failure. -/
theorem readn_data (hData : ∀ k e r, admits k e r → Uninterrupted k e r) {k₀ k : Kernel} {fd : Fd}
    {c : ConnId} (hOpen : k₀.table fd = some (.client c)) {conn : Conn} (len : SizeT)
    (hG : ∀ m k, Serving threads k₀ c { conn with input := conn.input.drop m } k →
      (∀ count, G (.call (.read fd count)) k) ∧ ∀ st, G (.loop (.readnLoop st)) k)
    (hk : Serving threads k₀ c conn k) :
    Total (environment threads admits) G
      (fun r k' => r = (conn.input.take len.toNat, decide (len.toNat ≤ conn.input.length)) ∧
        Serving threads k₀ c { conn with input := conn.input.drop len.toNat } k') (readn fd len) k := by
  refine Total.mono (readn_reads hOpen len
    (fun m st k _ hk => ⟨(hG m k hk).1 st.remainLen, (hG m k hk).2 st⟩) hk) (fun _ _ h => h) ?_
  rintro r k' ⟨m, hLe, hLe', rfl, hThrough, hk'⟩
  rcases hThrough fun k fd count r => hData k _ r with rfl | hEnd
  · exact ⟨by rw [decide_eq_true rfl, decide_eq_true hLe'], hk'⟩
  · have hAll : m = conn.input.length := by omega
    rw [hAll] at hk' hLe
    constructor
    · rw [hAll, List.take_of_length_le le_rfl, List.take_of_length_le hLe]
      congr 1
      exact decide_eq_decide.mpr ⟨fun h => h.ge, fun h => hLe.antisymm h⟩
    · rw [List.drop_of_length_le hLe]
      rwa [List.drop_of_length_le le_rfl] at hk'

/-! ## One service -/

/-- Between two services a connection is untouched, or closed with its echo sent. -/
structure Settled (stream : ConnId → List UInt8) (k : Kernel) : Prop where
  wf : k.Wf
  conns : ∀ c, k.conns c = { input := stream c, output := [], closed := false } ∨
    (k.conns c).closed = true ∧ (k.conns c).output = echo (stream c)

/-- What holds at every moment: nothing but the echo is sent, and all of it
before the connection is closed. -/
structure Echoes (stream : ConnId → List UInt8) (k : Kernel) : Prop where
  sent : ∀ c, (k.conns c).output <+: echo (stream c)
  complete : ∀ c, (k.conns c).closed = true → (k.conns c).output = echo (stream c)

variable {stream : ConnId → List UInt8}

namespace Settled

theorem start {serverFd : Fd} {k : Kernel} (h : k.Listening serverFd) :
    Settled (fun c => (k.conns c).input) k where
  wf := h.wf
  conns c := by
    obtain ⟨hOutput, hClosed⟩ := h.conns c
    refine .inl ?_
    rw [← hOutput, ← hClosed]

theorem echoes {k : Kernel} (h : Settled stream k) : Echoes stream k where
  sent c := by
    rcases h.conns c with hOpen | ⟨_, hOutput⟩
    · simp [hOpen]
    · rw [hOutput]
  complete c hClosed := by
    rcases h.conns c with hOpen | ⟨_, hOutput⟩
    · simp [hOpen] at hClosed
    · exact hOutput

theorem of_conns {k k' : Kernel} (h : Settled stream k) (hWf : k'.Wf) (hConns : k'.conns = k.conns) :
    Settled stream k' :=
  ⟨hWf, by rw [hConns]; exact h.conns⟩

theorem moves {k k' : Kernel} (h : Settled stream k)
    (hMoves : (environment threads admits).Interferes k k') : Settled stream k' :=
  h.of_conns (interferes_connStep h.wf hMoves).wf (interferes_conns hMoves)

theorem untouched {k : Kernel} (h : Settled stream k) {fd : Fd} {c : ConnId}
    (hOpen : k.table fd = some (.client c)) :
    k.conns c = { input := stream c, output := [], closed := false } := by
  refine (h.conns c).resolve_right fun hClosed => ?_
  rw [(h.wf.openConn fd c hOpen).2] at hClosed
  cases hClosed.1

theorem serving {k₀ k : Kernel} {c : ConnId} {conn : Conn} (h : Settled stream k₀)
    (hk : Serving threads k₀ c conn k) (hSent : conn.output <+: echo (stream c))
    (hClosed : conn.closed = false) : Echoes stream k where
  sent c' := by
    by_cases hne : c' = c
    · subst hne
      rwa [hk.conn_eq]
    · rw [hk.conns_of_ne hne]
      exact h.echoes.sent c'
  complete c' hClosed' := by
    by_cases hne : c' = c
    · subst hne
      rw [hk.conn_eq, hClosed] at hClosed'
      cases hClosed'
    · rw [hk.conns_of_ne hne] at hClosed' ⊢
      exact h.echoes.complete c' hClosed'

theorem closed {k₀ k : Kernel} {fd : Fd} {c : ConnId} {conn : Conn} (h : Settled stream k₀)
    (hOpen : k₀.table fd = some (.client c)) (hk : Serving threads k₀ c conn k)
    (hSent : conn.output = echo (stream c)) (hClosed : conn.closed = false) :
    Settled stream (k.closeFd fd) := by
  have hWf := hk.wf h.wf (by rw [hClosed, (h.wf.openConn fd c hOpen).2])
  refine ⟨hWf.closeFd fd, ?_⟩
  intro c'
  rw [Kernel.closeFd, hk.table hOpen]
  by_cases hne : c' = c
  · subst hne
    right
    simp [Kernel.updateConn, release, hk.conn_eq, hSent]
  · simpa [Kernel.updateConn, release, hne, hk.conns_of_ne hne] using h.conns c'

end Settled

structure EchoPoints (G : Point Syscall Mark → Kernel → Prop) (stream : ConnId → List UInt8) : Prop where
  read : ∀ fd c k count, Echoes stream k → k.table fd = some (.client c) →
    G (.call (.read fd count)) k
  write : ∀ fd c k buf, Echoes stream k → k.table fd = some (.client c) →
    (k.conns c).output ++ buf <+: echo (stream c) → G (.call (.write fd buf)) k
  close : ∀ fd c k, Echoes stream k → k.table fd = some (.client c) →
    (k.conns c).output = echo (stream c) → G (.call (.close fd)) k
  malloc : ∀ k size, Echoes stream k → G (.call (.malloc size)) k
  readnLoop : ∀ k st, Echoes stream k → G (.loop (.readnLoop st)) k

theorem echo_of_short {s : List UInt8} (h : ¬ 4 ≤ s.length) : echo s = [] :=
  if_pos (Nat.lt_of_not_le h)

theorem header_prefix_echo {s : List UInt8} (h : 4 ≤ s.length) : s.take 4 <+: echo s := by
  rw [echo, if_neg (Nat.not_lt.mpr h)]
  split
  · exact List.take_prefix_take_left (Nat.le_add_right 4 _)
  · exact List.prefix_refl _

theorem echo_of_complete {s : List UInt8} (h : 4 ≤ s.length) {n : Nat} (hn : n = bigEndian (s.take 4))
    (hAll : n ≤ (s.drop 4).length) : echo s = s.take 4 ++ (s.drop 4).take n := by
  rw [List.length_drop] at hAll
  rw [echo, if_neg (Nat.not_lt.mpr h), ← hn, if_pos (by omega), List.take_add]

theorem echo_of_incomplete {s : List UInt8} (h : 4 ≤ s.length) {n : Nat}
    (hn : n = bigEndian (s.take 4)) (hPart : ¬ n ≤ (s.drop 4).length) : echo s = s.take 4 := by
  rw [List.length_drop] at hPart
  rw [echo, if_neg (Nat.not_lt.mpr h), ← hn, if_neg (by omega)]

example : echo [0, 0, 0, 1, 65, 66] = [0, 0, 0, 1, 65] := by decide
example : echo [0, 0, 0, 3, 65, 66] = [0, 0, 0, 3] := by decide

section
variable (hData : ∀ k e r, admits k e r → Uninterrupted k e r) (hG : EchoPoints G stream)
include hData hG

theorem write_data {k₀ k : Kernel} (hSettled : Settled stream k₀) {fd : Fd} {c : ConnId}
    (hOpen : k₀.table fd = some (.client c)) {conn : Conn} {buf : List UInt8}
    (hk : Serving threads k₀ c conn k) (hClosed : conn.closed = false)
    (hSent : conn.output ++ buf <+: echo (stream c)) {α : Type} {Q : α → Kernel → Prop}
    {next : Reply (.write fd buf) → Server α}
    (h : ∀ r k', Serving threads k₀ c { conn with output := conn.output ++ buf } k' →
      Total (environment threads admits) G Q (next r) k') :
    Total (environment threads admits) G Q (.call (.write fd buf) next) k := by
  have hOutput : conn.output <+: echo (stream c) := (List.prefix_append _ _).trans hSent
  refine .call (fun k₁ hMoves => ?_) ?_
  · have hk₁ := hk.moves hMoves
    apply hG.write fd c k₁ buf (hSettled.serving hk₁ hOutput hClosed) (hk₁.table hOpen)
    rwa [hk₁.conn_eq]
  · intro k₁ r k₂ hMoves hAdmits hAnswer
    have hk₁ := hk.moves hMoves
    have hClient : k₁.IsClient fd := ⟨c, hk₁.table hOpen⟩
    cases r with
    | error e => exact (hData _ _ _ hAdmits hClient).elim
    | ok n =>
      cases hData _ _ _ hAdmits hClient
      have hk₂ := hk₁.write_ok hOpen hAnswer
      rw [List.take_length] at hk₂
      exact h _ k₂ hk₂

theorem echoFrame_data {k₀ : Kernel} (hSettled : Settled stream k₀) {fd : Fd} {c : ConnId}
    (hOpen : k₀.table fd = some (.client c))
    (hUndefined : (∀ x k, Echoes stream k → G (.undefined x) k) ∨
      FrameFits (stream c) ∧ ∀ k size, ¬ admits k (.malloc size) false) :
    Total (environment threads admits) G
      (fun _ k => ∃ input, Serving threads k₀ c ⟨input, echo (stream c), false⟩ k)
      (echoFrame fd) k₀ := by
  have hStart : Serving threads k₀ c ⟨stream c, [], false⟩ k₀ := by
    rw [← hSettled.untouched hOpen]
    exact .start threads k₀ c
  have hDone (input out : List UInt8) (k : Kernel) (hOut : out = echo (stream c))
      (hk : Serving threads k₀ c ⟨input, out, false⟩ k) :
      Total (environment threads admits) G
        (fun _ k => ∃ input, Serving threads k₀ c ⟨input, echo (stream c), false⟩ k)
        (.ret () : Server Unit) k := .ret ⟨input, hOut ▸ hk⟩
  have hRead (out : List UInt8) (hOut : out <+: echo (stream c)) (input : List UInt8) (k : Kernel)
      (hk : Serving threads k₀ c ⟨input, out, false⟩ k) :
      (∀ count, G (.call (.read fd count)) k) ∧ ∀ st, G (.loop (.readnLoop st)) k := by
    have hEchoes := hSettled.serving hk hOut rfl
    exact ⟨fun count => hG.read fd c k count hEchoes (hk.table hOpen),
      fun st => hG.readnLoop k st hEchoes⟩
  apply (readn_data hData hOpen 4 (fun m k => hRead [] List.nil_prefix _ k) hStart).bind
  rintro ⟨buf, complete⟩ k ⟨hResult, hk⟩
  cases hResult
  dsimp only
  split
  · rename_i hHeader
    have hLen : 4 ≤ (stream c).length := of_decide_eq_true hHeader
    have hPrefix := header_prefix_echo hLen
    refine write_data hData hG hSettled hOpen hk rfl hPrefix fun _ k hk => ?_
    have hSwap := swapEndian_toNat (w := 4) ((stream c).take 4) (by simpa using hLen)
    refine (allocMsg_total (I := Serving threads k₀ c ⟨(stream c).drop 4, (stream c).take 4, false⟩)
      (fun _ _ hk hMoves => hk.moves hMoves)
      (fun k hk => hG.malloc k _ (hSettled.serving hk hPrefix rfl)) ?_ k hk).bind ?_
    · refine hUndefined.imp ?_ ?_
      · exact fun hAllowed k hk => ⟨hAllowed _ k (hSettled.serving hk hPrefix rfl),
          hAllowed _ k (hSettled.serving hk hPrefix rfl)⟩
      · exact fun hFits => ⟨hSwap.trans_le (hFits.1 hLen), fun k => hFits.2 k _⟩
    · rintro ⟨⟩ k hk
      apply (readn_data hData hOpen _ (fun m k => hRead _ hPrefix _ k) hk).bind
      rintro ⟨msg, complete⟩ k ⟨hResult, hk⟩
      cases hResult
      dsimp only at hk ⊢
      split
      · rename_i hAll
        have hEcho := echo_of_complete hLen hSwap (of_decide_eq_true hAll)
        refine write_data hData hG hSettled hOpen hk rfl ?_ ?_
        · rw [hEcho]
          exact List.prefix_refl _
        · exact fun _ k hk => hDone _ _ k hEcho.symm hk
      · rename_i hPart
        exact hDone _ _ k
          (echo_of_incomplete hLen hSwap fun hAll => hPart (decide_eq_true hAll)).symm hk
  · rename_i hHeader
    exact hDone _ _ k (echo_of_short fun hLen => hHeader (decide_eq_true hLen)).symm hk

/-- A service leaves every connection settled, whoever owns the descriptor. -/
theorem serve_data {k : Kernel} (h : Settled stream k) {fd : Fd} {c : ConnId}
    (hOpen : k.table fd = some (.client c))
    (hUndefined : (∀ x k, Echoes stream k → G (.undefined x) k) ∨
      FrameFits (stream c) ∧ ∀ k size, ¬ admits k (.malloc size) false)
    {α : Type} {Q : α → Kernel → Prop} {next : Reply (.close fd) → Server α}
    (hNext : ∀ k₁ r k₂, Frame threads k k₁ → k₁.answer (.close fd) r = some k₂ →
      Settled stream k₂ → Total (environment threads admits) G Q (next r) k₂) :
    Total (environment threads admits) G Q
      ((echoFrame fd).bind fun _ => .call (.close fd) next) k := by
  apply (echoFrame_data hData hG h hOpen hUndefined).bind
  rintro ⟨⟩ k₁ ⟨input, hk₁⟩
  refine .call (fun k₂ hMoves => ?_) ?_
  · have hk₂ := hk₁.moves hMoves
    apply hG.close fd c k₂ (h.serving hk₂ (List.prefix_refl _) rfl) (hk₂.table hOpen)
    rw [hk₂.conn_eq]
  · intro k₂ r k₃ hMoves _ hAnswer
    have hk₂ := hk₁.moves hMoves
    apply hNext k₂ r k₃ hk₂.frame hAnswer
    rw [answer_close hAnswer]
    exact h.closed hOpen hk₂ rfl rfl

end

end AndroidDemo.Socket
