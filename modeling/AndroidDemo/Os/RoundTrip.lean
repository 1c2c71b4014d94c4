import AndroidDemo.Os.MockSocketIntentService
import AndroidDemo.Socket.Servers

/-! # The round trip between sendMsg and a native server

The length field of a frame counts the units of the message, the server takes it
for a number of bytes. The reply is complete just when the two agree.
-/

namespace AndroidDemo.Os

open AndroidDemo.Java AndroidDemo.Socket Interaction Kernel

theorem bigEndian_writeInt (v : BitVec 32) : bigEndian (writeInt v) = v.toNat := by
  have hLt := v.isLt
  simp only [bigEndian, writeInt, List.foldl_cons, List.foldl_nil, UInt8.toNat_ofNat']
  omega

theorem echo_frame {msg : JString} (hLen : msg.length < 2 ^ 32) :
    echo (frame msg) =
      writeInt (BitVec.ofNat 32 msg.length) ++ (getBytes msg).take msg.length := by
  have hHeader : (writeInt (BitVec.ofNat 32 msg.length)).length = 4 := rfl
  have hTake : (frame msg).take 4 = writeInt (BitVec.ofNat 32 msg.length) :=
    List.take_left' hHeader
  have hDrop : (frame msg).drop 4 = getBytes msg := List.drop_left' hHeader
  have hCount : msg.length = bigEndian ((frame msg).take 4) := by
    rw [hTake, bigEndian_writeInt, BitVec.toNat_ofNat, Nat.mod_eq_of_lt hLen]
  have hLong : 4 ≤ (frame msg).length := by
    rw [frame, List.length_append, hHeader]
    exact Nat.le_add_right 4 _
  rw [echo_of_complete hLong hCount (hDrop ▸ length_le_getBytes msg), hTake, hDrop]

theorem readBack_echo_iff {msg : JString} (hLen : (getBytes msg).length < 2 ^ 31 - 1) :
    readBack (echo (frame msg)) = some (getBytes msg) ↔ OneByteUnits msg := by
  have hLe := length_le_getBytes msg
  have hCount : (BitVec.ofNat 32 msg.length).toNat = msg.length := by
    rw [BitVec.toNat_ofNat]
    omega
  have hTake : ((getBytes msg).take msg.length).length = msg.length := by
    rw [List.length_take]
    omega
  rw [echo_frame (by omega), readBack_writeInt (by omega) (by omega), hCount, List.take_take,
    min_self, Option.some.injEq, ← getBytes_length_eq_iff]
  constructor
  · intro hEq
    rw [← hEq, hTake]
  · intro hEq
    rw [← hEq, List.take_length]

/-- For every message, either server, and every way `read` cuts the stream: the
client of a served connection reads back the bytes it sent just when each unit
of its message is encoded in one byte. -/
theorem round_trip_iff (kind : ServerKind) (threads : Bool) {ip : Option String} {port : BitVec 32}
    {serverFd : Fd} {k k' : Kernel} (hStart : k.Listening serverFd) {msg : JString}
    (hLen : (getBytes msg).length < 2 ^ 31 - 1) {t : List (Event Syscall Reply Kernel)}
    {q : Server Unit}
    (hRun : Run (environment threads Uninterrupted) (kind.processClientConnect ip port serverFd)
      k t q k') {c : ConnId} (hSent : (k.conns c).input = frame msg)
    (hServed : (k'.conns c).closed = true) :
    readBack (k'.conns c).output = some (getBytes msg) ↔ OneByteUnits msg := by
  rw [closed_output kind (Settled.start hStart) hRun hServed, hSent]
  exact readBack_echo_iff hLen

def serveFrameScript (header message : List UInt8) (size : SizeT) :
    List (Answer Syscall Reply Move) :=
  [⟨[], .select 4 {3}, .ok {3}⟩, ⟨[], .accept 3, .ok 4⟩, ⟨[], .select 5 {4, 3}, .ok {4}⟩,
    ⟨[], .read 4 4, .ok header⟩, ⟨[], .write 4 header, .ok 4⟩, ⟨[], .malloc (size + 1), true⟩,
    ⟨[], .read 4 size, .ok message⟩, ⟨[], .write 4 message, .ok message.length⟩,
    ⟨[], .close 4, .ok ()⟩]

theorem round_trip_ascii :
    ∃ t q k', Run (environment false Uninterrupted)
        (ServerKind.select.processClientConnect none 9000 3) (listening 3 fun _ => frame [72, 105])
        t q k' ∧
      (readBack (k'.conns 0).output = some (getBytes [72, 105]) ↔ OneByteUnits [72, 105]) := by
  obtain ⟨t, q, k', hRun, hGood⟩ := exists_run_of_replay (environment false Uninterrupted)
    (ServerKind.select.processClientConnect none 9000 3) (listening 3 fun _ => frame [72, 105]) 40
    (serveFrameScript [0, 0, 0, 2] [72, 105] 2) (fun _ _ k' => (k'.conns 0).closed) (by decide)
  exact ⟨t, q, k', hRun,
    round_trip_iff .select false (listening_start 3 _) (by decide) hRun rfl hGood⟩

/-- The message `é` has one unit and two bytes, of which the server returns one. -/
theorem round_trip_lost :
    ¬ ∀ (kind : ServerKind) (threads : Bool) (ip : Option String) (port : BitVec 32) (serverFd : Fd)
      (k k' : Kernel) (msg : JString) (t : List (Event Syscall Reply Kernel)) (q : Server Unit)
      (c : ConnId), k.Listening serverFd → (getBytes msg).length < 2 ^ 31 - 1 →
      Run (environment threads Uninterrupted) (kind.processClientConnect ip port serverFd) k t q k' →
      (k.conns c).input = frame msg → (k'.conns c).closed = true →
      readBack (k'.conns c).output = some (getBytes msg) := by
  intro hAll
  obtain ⟨t, q, k', hRun, hGood⟩ := exists_run_of_replay (environment false Uninterrupted)
    (ServerKind.select.processClientConnect none 9000 3) (listening 3 fun _ => frame [0xE9]) 40
    (serveFrameScript [0, 0, 0, 1] [0xC3] 1)
    (fun _ _ k' => decide ((k'.conns 0).closed = true ∧ readBack (k'.conns 0).output = some [0xC3]))
    (by decide)
  obtain ⟨hServed, hRead⟩ := of_decide_eq_true hGood
  have hSame := hAll .select false none 9000 3 _ k' [0xE9] t q 0 (listening_start 3 _) (by decide)
    hRun rfl hServed
  rw [hRead] at hSame
  revert hSame
  decide

end AndroidDemo.Os
