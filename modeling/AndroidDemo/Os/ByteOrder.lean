import AndroidDemo.Os.MockSocketIntentService
import AndroidDemo.Socket.Tool

/-! # The byte order of the length field

`swap_endian` works on bytes and not on the value, so what it does is the same
on every host. The decoding of a Java `int` needs a little-endian one.
-/

namespace AndroidDemo.Os

open AndroidDemo.Socket

inductive ByteOrder
  | little
  | big

namespace ByteOrder

def store : ByteOrder → (w : Nat) → BitVec (8 * w) → List UInt8
  | .little, w, t => storeInt w t
  | .big, w, t => (storeInt w t).reverse

def load : ByteOrder → (w : Nat) → List UInt8 → BitVec (8 * w)
  | .little, w, bytes => loadInt w bytes
  | .big, w, bytes => loadInt w bytes.reverse

/-- `Tool::swap_endian` on a host of this byte order. -/
def swapEndian (order : ByteOrder) (w : Nat) (t : BitVec (8 * w)) : BitVec (8 * w) :=
  order.load w (swapLoop (order.store w t) w 0 (List.replicate w 0))

/-- The two servers decode the length with `swapEndian`. -/
theorem swapEndian_little : little.swapEndian = Socket.swapEndian := rfl

end ByteOrder

theorem ofDigits_range_div (n w : Nat) :
    Nat.ofDigits 256 ((List.range w).map fun i => n / 256 ^ i % 256) = n % 256 ^ w := by
  induction w with
  | zero => simp [Nat.mod_one]
  | succ w ih =>
    rw [List.range_succ, List.map_append, Nat.ofDigits_append, ih, List.length_map,
      List.length_range, List.map_singleton, Nat.ofDigits_singleton, Nat.mod_pow_succ]

theorem loadInt_storeInt (w : Nat) (t : BitVec (8 * w)) : loadInt w (storeInt w t) = t := by
  apply BitVec.eq_of_toNat_eq
  have hBytes : (storeInt w t).map UInt8.toNat =
      (List.range w).map fun i => t.toNat / 256 ^ i % 256 := by
    simp [storeInt]
  have hLt : t.toNat < 256 ^ w := by
    have hLt := t.isLt
    rwa [Nat.pow_mul] at hLt
  rw [loadInt_toNat (storeInt_length w t), hBytes, ofDigits_range_div, Nat.mod_eq_of_lt hLt]

namespace ByteOrder

variable (order : ByteOrder)

theorem store_length (w : Nat) (t : BitVec (8 * w)) : (order.store w t).length = w := by
  cases order with
  | little => exact storeInt_length w t
  | big => rw [store, List.length_reverse, storeInt_length]

theorem load_store (w : Nat) (t : BitVec (8 * w)) : order.load w (order.store w t) = t := by
  cases order with
  | little => exact loadInt_storeInt w t
  | big => rw [load, store, List.reverse_reverse, loadInt_storeInt]

theorem store_load {w : Nat} {bytes : List UInt8} (h : bytes.length = w) :
    order.store w (order.load w bytes) = bytes := by
  cases order with
  | little => exact storeInt_loadInt h
  | big => rw [load, store, storeInt_loadInt (by rwa [List.length_reverse]), List.reverse_reverse]

theorem swapEndian_eq (w : Nat) (t : BitVec (8 * w)) :
    order.swapEndian w t = order.load w (order.store w t).reverse := by
  have hLoop := swapLoop_eq_reverse (order.store w t)
  rw [store_length] at hLoop
  rw [swapEndian, hLoop]

theorem store_swapEndian (w : Nat) (t : BitVec (8 * w)) :
    order.store w (order.swapEndian w t) = (order.store w t).reverse := by
  rw [swapEndian_eq, store_load]
  rw [List.length_reverse, store_length]

end ByteOrder

theorem writeInt_eq_reverse (v : BitVec 32) : writeInt v = (storeInt 4 v).reverse := by
  simp [writeInt, storeInt, List.range_succ]

/-- `swap_endian` reverses the bytes of an integer of any width, and with them
undoes the order of `writeInt` on the hosts the library is built for. -/
theorem swap_endian_reverses :
    (∀ (order : ByteOrder) (w : Nat) (t : BitVec (8 * w)),
      order.store w (order.swapEndian w t) = (order.store w t).reverse ∧
        order.swapEndian w (order.swapEndian w t) = t) ∧
    ∀ v : BitVec 32, ByteOrder.little.swapEndian 4 (ByteOrder.little.load 4 (writeInt v)) = v := by
  constructor
  · intro order w t
    have hStore := order.store_swapEndian w t
    refine ⟨hStore, ?_⟩
    rw [order.swapEndian_eq w (order.swapEndian w t), hStore, List.reverse_reverse, order.load_store]
  · intro v
    have hLength : (writeInt v).length = 4 := rfl
    rw [ByteOrder.swapEndian_little, ByteOrder.load, swapEndian_loadInt hLength, writeInt_eq_reverse,
      List.reverse_reverse]
    exact loadInt_storeInt 4 v

end AndroidDemo.Os
