import AndroidDemo.Socket.NativeLib
import AndroidDemo.Socket.ReadSchedule

/-! # The message buffer

The peer chooses the length of the message, and with it the size of the buffer
and how much of the stream is stored there.
-/

namespace AndroidDemo.Socket

open Interaction Program Kernel

/-- `readn` is to store `len` bytes of the stream `s`, of which `unread` is left. -/
def Fills (s : List UInt8) (len : Nat) (st : ReadnLocals) (unread : List UInt8) : Prop :=
  st.buf ++ unread = s ∧ st.buf.length + st.remainLen.toNat = len

/-- On the stream `s` of connection `c`, `len + 1` is the length field plus one
as an `int`, the terminator lies in the buffer, and `readn` fills the header and
then as many bytes of the buffer as the length field says. -/
def BufferSafe (s : List UInt8) (c : ConnId) : Point Syscall Mark → Kernel → Prop
  | .call (.malloc size), _ => size.toInt = bigEndian (s.take 4) + 1
  | .loop (.readnLoop st), k =>
    Fills s 4 st (k.conns c).input ∨
      Fills (s.drop 4) (bigEndian (s.take 4)) st (k.conns c).input
  | .undefined (.lenOverflow _), _ => False
  | .undefined (.msgTerminator _), _ => False
  | _, _ => True

variable {threads : Bool} {fd : Fd} {c : ConnId} {k : Kernel}

theorem ReadnInv.fills {input : List UInt8} {len : SizeT} {st : ReadnLocals} {m : Nat}
    (h : ReadnInv input len st m) : Fills input len.toNat st (input.drop m) := by
  constructor
  · rw [h.buf, List.take_append_drop]
  · rw [h.buf, List.length_take_of_le h.le, h.remain]

theorem readn_bufferSafe {s : List UInt8} {k₁ : Kernel} {conn : Conn} {len : SizeT}
    (hOpen : k.table fd = some (.client c))
    (hPhase : conn.input = s ∧ len.toNat = 4 ∨
      conn.input = s.drop 4 ∧ len.toNat = bigEndian (s.take 4))
    (hk : Serving threads k c conn k₁) :
    Total (environment threads MallocServes) (BufferSafe s c)
      (fun r k' => ∃ m ≤ conn.input.length, r = (conn.input.take m, decide (m = len.toNat)) ∧
        Serving threads k c { conn with input := conn.input.drop m } k') (readn fd len) k₁ := by
  have hPoints (m : Nat) (st : ReadnLocals) (k' : Kernel) (hInv : ReadnInv conn.input len st m)
      (hk' : Serving threads k c { conn with input := conn.input.drop m } k') :
      BufferSafe s c (.call (.read fd st.remainLen)) k' ∧ BufferSafe s c (.loop (.readnLoop st)) k' := by
    have hFills := hInv.fills
    refine ⟨trivial, ?_⟩
    rw [BufferSafe, hk'.conn_eq]
    rcases hPhase with ⟨hInput, hLen⟩ | ⟨hInput, hLen⟩
    · rw [hLen, hInput] at hFills
      rw [hInput]
      exact .inl hFills
    · rw [hLen, hInput] at hFills
      rw [hInput]
      exact .inr hFills
  apply Total.mono (readn_reads hOpen len hPoints hk) (fun _ _ h => h)
  rintro r k' ⟨m, _, hLe, hResult, _, hk'⟩
  exact ⟨m, hLe, hResult, hk'⟩

theorem echoFrame_bufferSafe (hOpen : k.table fd = some (.client c))
    (hFits : FrameFits (k.conns c).input) :
    Total (environment threads MallocServes) (BufferSafe (k.conns c).input c) (fun _ _ => True)
      (echoFrame fd) k := by
  apply (readn_bufferSafe hOpen (.inl ⟨rfl, rfl⟩) (.start threads k c)).bind
  rintro ⟨buf, complete⟩ k₁ ⟨m, hLe, hResult, hk₁⟩
  cases hResult
  dsimp only
  split
  · rename_i hComplete
    obtain rfl : m = 4 := of_decide_eq_true hComplete
    have hSwap := swapEndian_toNat (w := 4) ((k.conns c).input.take 4) (by simpa using hLe)
    have hSmall := hFits hLe
    generalize swapEndian 4 (loadInt 4 ((k.conns c).input.take 4)) = len at *
    have hSize : (len + 1).toNat = bigEndian ((k.conns c).input.take 4) + 1 := by
      rw [BitVec.toNat_add, hSwap]
      exact Nat.mod_eq_of_lt (by simp; omega)
    have hInt : (len + 1).toInt = bigEndian ((k.conns c).input.take 4) + 1 := by
      rw [BitVec.toInt_eq_toNat_of_lt (by omega), hSize]
      rfl
    refine .call (fun _ _ => trivial) fun k₂ r k₃ hMoves _ hAnswer => ?_
    obtain ⟨output, hk₃⟩ := (hk₁.moves hMoves).write hOpen hAnswer
    refine (allocMsg_total (I := Serving threads k c _) (fun _ _ hk hMoves => hk.moves hMoves)
      (fun _ _ => hInt) (.inr ⟨hSwap.trans_le hSmall, fun _ hFalse => ?_⟩) k₃ hk₃).bind ?_
    · have hNonneg : 0 ≤ (len + 1).toInt := by omega
      cases hFalse hNonneg
    · rintro ⟨⟩ k₄ hk₄
      apply (readn_bufferSafe hOpen (.inr ⟨rfl, hSwap⟩) hk₄).bind
      rintro ⟨msg, complete⟩ k₅ _
      dsimp only
      split
      · exact .call (fun _ _ => trivial) fun _ _ _ _ _ _ => .ret trivial
      · exact .ret trivial
  · exact .ret trivial

theorem echoFrame_header (fd : Fd) :
    ∃ next, echoFrame fd = (readn fd 4).bind next ∧ ∀ buf, ∃ rest, next (buf, true) =
      .call (.write fd buf) fun _ => (allocMsg (swapEndian 4 (loadInt 4 buf))).bind rest :=
  ⟨_, rfl, fun _ => ⟨_, rfl⟩⟩

/-- The peer sends the header in one piece and the server gets as far as
`malloc(len + 1)`. -/
theorem exists_run_allocMsg (threads : Bool) (hOpen : k.table fd = some (.client c))
    (hLen : 4 ≤ (k.conns c).input.length) :
    ∃ t k' next, Run (environment threads MallocServes) (echoFrame fd) k t
      ((allocMsg (swapEndian 4 (loadInt 4 ((k.conns c).input.take 4)))).bind next) k' := by
  have hTake : ((k.conns c).input.take 4).length = 4 := List.length_take_of_le hLen
  obtain ⟨k₁, hAnswer⟩ : ∃ k₁,
      k.answer (.read fd 4) (.ok ((k.conns c).input.take 4)) = some k₁ := by
    simp [answer, readFd, hOpen, List.take_prefix]
  have hStep : readnStep { buf := [], remainLen := 4, retryCount := 0 }
      (.ok ((k.conns c).input.take 4)) =
        .inl { buf := (k.conns c).input.take 4, remainLen := 0, retryCount := 0 } := by
    rw [readnStep_ok, if_neg (by simp), hTake, if_neg (List.ne_nil_of_length_pos (by omega))]
    rfl
  have hReading : Reading threads MallocServes fd { buf := [], remainLen := 4, retryCount := 0 } k
      [.ok ((k.conns c).input.take 4)] ((k.conns c).input.take 4, true) k₁ :=
    .more (by decide) (.refl _ k) trivial hAnswer hStep (.done (by simp))
  obtain ⟨t, hRead, _⟩ := run_of_reading hReading
  obtain ⟨next, hEcho, hNext⟩ := echoFrame_header fd
  obtain ⟨rest, hRest⟩ := hNext ((k.conns c).input.take 4)
  have hHeader := hRead.bind next
  rw [ret_bind, hRest] at hHeader
  rw [hEcho]
  exact ⟨_, k₁, rest, hHeader.trans
    (.call (r := .error .EINTR) (.refl _ k₁) trivial rfl (.refl _ _))⟩

theorem frameFits_of_bufferSafe {Q : Unit → Kernel → Prop} {next : Unit → Server Unit}
    (hOpen : k.table fd = some (.client c))
    (h : Safe (environment threads MallocServes) (BufferSafe (k.conns c).input c) Q
      ((echoFrame fd).bind next) k) : FrameFits (k.conns c).input := by
  intro hLen
  obtain ⟨t, k', rest, hRun⟩ := exists_run_allocMsg threads hOpen hLen
  have hSwap := swapEndian_toNat (w := 4) ((k.conns c).input.take 4) (by simpa using hLen)
  generalize swapEndian 4 (loadInt 4 ((k.conns c).input.take 4)) = len at *
  have hPoint := hRun.bind next
  rw [allocMsg] at hPoint
  split at hPoint
  · exact (h.point hPoint rfl).elim
  · have hInt : (len + 1).toInt = bigEndian ((k.conns c).input.take 4) + 1 := h.point hPoint rfl
    have hLt := BitVec.two_mul_toInt_lt (x := len + 1)
    omega

theorem receiveClientMsg_eq (threads : Bool) (kind : ServerKind) (ip : Option String) (port : BitVec 32)
    (epollfd : Option Fd) (hFit : kind = .select → fd < FD_SETSIZE) (s : List UInt8) (c : ConnId) :
    ∃ next : Unit → Server Unit,
      kind.receiveClientMsg ip port epollfd fd = (echoFrame fd).bind next ∧
      ∀ k, Total (environment threads MallocServes) (BufferSafe s c) (fun _ _ => True) (next ()) k := by
  cases kind with
  | epoll =>
    refine ⟨_, rfl, fun k => ?_⟩
    exact .call (fun _ _ => trivial) fun _ _ _ _ _ _ => .call (fun _ _ => trivial)
      fun _ _ _ _ _ _ => .ret trivial
  | select =>
    have hSet : FD_ISSET fd {fd} = .ret true := by
      rw [FD_ISSET, if_pos (hFit rfl), decide_eq_true (Finset.mem_singleton_self fd)]
      rfl
    have hClr : FD_CLR fd {fd} = .ret (({fd} : FdSet).erase fd) := if_pos (hFit rfl)
    refine ⟨fun _ => .call (.close fd) fun _ => .ret (), ?_, fun k => ?_⟩
    · rw [ServerKind.receiveClientMsg, SelectSocketServer.receiveClientMsg,
        SelectSocketServer.receiveClients]
      simp only [bind_eq, hSet, hClr, ret_bind, if_true, bind_assoc]
      rfl
    · exact .call (fun _ _ => trivial) fun _ _ _ _ _ _ => .ret trivial

theorem receiveClientMsg_unfit {ip : Option String} {port : BitVec 32} {epollfd : Option Fd}
    (hUnfit : FD_SETSIZE ≤ fd) :
    ServerKind.select.receiveClientMsg ip port epollfd fd = .undefined (.fdSetIndex fd) := by
  have hSet : FD_ISSET fd {fd} = .undefined (.fdSetIndex fd) := if_neg (Nat.not_lt.mpr hUnfit)
  rw [ServerKind.receiveClientMsg, SelectSocketServer.receiveClientMsg,
    SelectSocketServer.receiveClients]
  simp only [bind_eq, hSet, undefined_bind]

/-- The message buffer is safe just when the length field of the stream is at
most `2 ^ 31 - 2`; `select` cannot even look at a descriptor beyond the set. -/
theorem receiveClientMsg_bufferSafe_iff (kind : ServerKind) (ip : Option String) (port : BitVec 32)
    (epollfd : Option Fd) (threads : Bool) {k : Kernel} {fd : Fd} {c : ConnId}
    (hOpen : k.table fd = some (.client c)) :
    Safe (environment threads MallocServes) (BufferSafe (k.conns c).input c) (fun _ _ => True)
        (kind.receiveClientMsg ip port epollfd fd) k ↔
      FrameFits (k.conns c).input ∨ kind = .select ∧ FD_SETSIZE ≤ fd := by
  by_cases hFit : kind = .select → fd < FD_SETSIZE
  · obtain ⟨next, hEq, hNext⟩ := receiveClientMsg_eq threads kind ip port epollfd hFit
      (k.conns c).input c
    rw [hEq, or_iff_left fun ⟨hSelect, hUnfit⟩ => Nat.not_lt.mpr hUnfit (hFit hSelect)]
    constructor
    · exact frameFits_of_bufferSafe hOpen
    · intro hFits
      exact ((echoFrame_bufferSafe hOpen hFits).bind fun _ k' _ => hNext k').safe
  · obtain ⟨rfl, hUnfit⟩ : kind = .select ∧ FD_SETSIZE ≤ fd := by
      simpa only [Classical.not_imp, Nat.not_lt] using hFit
    rw [receiveClientMsg_unfit hUnfit]
    exact iff_of_true (.undefined trivial) (.inr ⟨rfl, hUnfit⟩)

theorem receiveClientMsg_bufferSafe_letter :
    FrameFits [0, 0, 0, 1, 65] ∧
      Safe (environment true MallocServes) (BufferSafe [0, 0, 0, 1, 65] 0) (fun _ _ => True)
        (ServerKind.select.receiveClientMsg none 9001 none 5) (oneClient [0, 0, 0, 1, 65]) := by
  have hFits : FrameFits [0, 0, 0, 1, 65] := fun _ => by decide
  have hOpen : (oneClient [0, 0, 0, 1, 65]).table 5 = some (.client 0) := rfl
  exact ⟨hFits, (receiveClientMsg_bufferSafe_iff .select none 9001 none true hOpen).mpr (.inl hFits)⟩

/-- The length field `-1` asks for an empty buffer. -/
theorem not_receiveClientMsg_bufferSafe :
    ¬ ∀ (kind : ServerKind) (ip : Option String) (port : BitVec 32) (epollfd : Option Fd)
      (threads : Bool) (k : Kernel) (fd : Fd) (c : ConnId), k.table fd = some (.client c) →
      Safe (environment threads MallocServes) (BufferSafe (k.conns c).input c) (fun _ _ => True)
        (kind.receiveClientMsg ip port epollfd fd) k := by
  intro h
  obtain ⟨t, q, k', hRun, hGood⟩ := exists_run_of_replay (environment false MallocServes)
    (ServerKind.epoll.receiveClientMsg none 9001 (some 4) 5) (oneClient [255, 255, 255, 255]) 10
    [⟨[], .read 5 4, .ok [255, 255, 255, 255]⟩, ⟨[], .write 5 [255, 255, 255, 255], .ok 4⟩]
    (fun _ q _ => decide (q.point? = some (.call (.malloc 0)))) (by decide)
  have hSize := (h _ _ _ _ _ _ _ 0 rfl).point hRun (of_decide_eq_true hGood)
  cases hSize

end AndroidDemo.Socket
