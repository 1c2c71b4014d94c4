import AndroidDemo.Java.JString
import Mathlib.Algebra.Group.Nat.Defs

/-! # MockSocketIntentService.java

The bytes `sendMsg` writes to the server, and what it reads back. The buffers of
the streams, the connection timeout and the log have no effect on the bytes.
-/

namespace AndroidDemo.Os

open AndroidDemo.Java

/-- `DataOutputStream.writeInt`. -/
def writeInt (v : BitVec 32) : List UInt8 :=
  [UInt8.ofNat (v.toNat / 2 ^ 24), UInt8.ofNat (v.toNat / 2 ^ 16), UInt8.ofNat (v.toNat / 2 ^ 8),
    UInt8.ofNat v.toNat]

/-- What `sendMsg` writes: `msg.length()`, then `msg.getBytes()`. -/
def frame (msg : JString) : List UInt8 :=
  writeInt (BitVec.ofNat 32 msg.length) ++ getBytes msg

/-- `DataInputStream.readInt`; `none` is an `EOFException`. -/
def readInt : List UInt8 → Option (BitVec 32 × List UInt8)
  | a :: b :: c :: d :: rest =>
    some (BitVec.ofNat 32 (2 ^ 24 * a.toNat + 2 ^ 16 * b.toNat + 2 ^ 8 * c.toNat + d.toNat), rest)
  | _ => none

def readFully (n : Nat) (bytes : List UInt8) : Option (List UInt8) :=
  if n ≤ bytes.length then some (bytes.take n) else none

/-- The buffer `sendMsg` fills from the reply. A negative length makes the
allocation of the buffer throw. -/
def readBack (reply : List UInt8) : Option (List UInt8) := do
  let (len, rest) ← readInt reply
  if len.toInt < 0 then none else readFully len.toNat rest

theorem readInt_writeInt (v : BitVec 32) (rest : List UInt8) :
    readInt (writeInt v ++ rest) = some (v, rest) := by
  have hLt := v.isLt
  simp only [writeInt, List.cons_append, List.nil_append, readInt, UInt8.toNat_ofNat', Option.some.injEq,
    Prod.mk.injEq, and_true]
  apply BitVec.eq_of_toNat_eq
  rw [BitVec.toNat_ofNat]
  omega

theorem readBack_writeInt {v : BitVec 32} (hv : v.toNat < 2 ^ 31) {rest : List UInt8}
    (hAll : v.toNat ≤ rest.length) : readBack (writeInt v ++ rest) = some (rest.take v.toNat) := by
  have hToInt : v.toInt = v.toNat := BitVec.toInt_eq_toNat_of_lt (by omega)
  simp [readBack, readInt_writeInt, readFully, hAll, hToInt]

end AndroidDemo.Os
