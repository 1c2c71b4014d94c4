import AndroidDemo.Bytes.Blocks

/-! # Output without copying

`StringOutputStream` and `ArrayOutputStream` of io/zero_copy_stream_impl_lite.cc.
Both hand out their memory in blocks. Writes outside of what they have handed out
are not followed.
-/

namespace AndroidDemo.Protobuf

open AndroidDemo.Blocks

/-- `std::numeric_limits<int>::max()` -/
def intMax : Nat := 2147483647

/-- The capacity that the standard library gives a string for a length. -/
structure Growth where
  capacity : Nat → Nat
  le_capacity : ∀ size, size ≤ capacity size
  capacity_le : ∀ size, size ≤ intMax → capacity size ≤ intMax

/-- `target_`, whose sizes are `int`s. -/
structure StringOutputStream where
  target : List UInt8
  capacity : Nat
  length_le : target.length ≤ capacity
  capacity_le : capacity ≤ intMax

namespace StringOutputStream

def kMinimumSize : Nat := 16

def resize (growth : Growth) (stream : StringOutputStream) (size : Nat) (hSize : size ≤ intMax) :
    StringOutputStream where
  target := stream.target.take size ++ List.replicate (size - stream.target.length) 0
  capacity := if size ≤ stream.capacity then stream.capacity else growth.capacity size
  length_le := by
    have hGrowth := growth.le_capacity size
    have hOld := stream.length_le
    rw [List.length_append, List.length_take, List.length_replicate]
    split <;> omega
  capacity_le := by
    split
    · exact stream.capacity_le
    · exact growth.capacity_le size hSize

/-- The block starts at the old size. Where the string is full and too long to be
doubled there is none. -/
def next (growth : Growth) (stream : StringOutputStream) :
    Option (Nat × Nat) × StringOutputStream :=
  let oldSize := stream.target.length
  if oldSize < stream.capacity then
    let stream := stream.resize growth stream.capacity stream.capacity_le
    (some (oldSize, stream.target.length - oldSize), stream)
  else if hDouble : oldSize > intMax / 2 then (none, stream)
  else
    let stream := stream.resize growth (max (oldSize * 2) kMinimumSize) (by
      simp only [intMax, kMinimumSize] at hDouble ⊢
      omega)
    (some (oldSize, stream.target.length - oldSize), stream)

def backUp (growth : Growth) (stream : StringOutputStream) (count : Nat) :
    Option StringOutputStream :=
  if count ≤ stream.target.length then
    some (stream.resize growth (stream.target.length - count) (by
      have hLength := stream.length_le
      have hCapacity := stream.capacity_le
      omega))
  else none

def store (stream : StringOutputStream) (offset : Nat) (bytes : List UInt8) : StringOutputStream :=
  if h : offset + bytes.length ≤ stream.target.length then
    { stream with
      target := overwrite stream.target offset bytes
      length_le := by
        rw [length_overwrite h]
        exact stream.length_le }
  else stream

variable {growth : Growth} {stream : StringOutputStream}

theorem ext_target {stream stream' : StringOutputStream} (hTarget : stream.target = stream'.target)
    (hCapacity : stream.capacity = stream'.capacity) : stream = stream' := by
  cases stream
  cases stream'
  congr

theorem resize_target {size : Nat} (hSize : size ≤ intMax) :
    (stream.resize growth size hSize).target =
      stream.target.take size ++ List.replicate (size - stream.target.length) 0 := rfl

theorem resize_grow {size : Nat} (hSize : size ≤ intMax) (hGrow : stream.target.length ≤ size) :
    (stream.resize growth size hSize).target =
      stream.target ++ List.replicate (size - stream.target.length) 0 := by
  rw [resize_target, List.take_of_length_le hGrow]

theorem resize_shrink {size : Nat} (hSize : size ≤ intMax) (hShrink : size ≤ stream.target.length) :
    (stream.resize growth size hSize).target = stream.target.take size := by
  rw [resize_target, Nat.sub_eq_zero_of_le hShrink, List.replicate_zero, List.append_nil]

/-- A block is new memory behind the old. -/
theorem next_resized {size : Nat} (hSize : size ≤ intMax) (hGrow : stream.target.length < size) :
    let stream' := stream.resize growth size hSize
    0 < stream'.target.length - stream.target.length ∧
      ∃ block, block.length = stream'.target.length - stream.target.length ∧
        stream'.target = stream.target ++ block := by
  have hTarget : (stream.resize growth size hSize).target = _ :=
    resize_grow hSize (Nat.le_of_lt hGrow)
  have hLength := congrArg List.length hTarget
  rw [List.length_append, List.length_replicate] at hLength
  refine ⟨by omega, _, ?_, hTarget⟩
  rw [List.length_replicate]
  omega

/-- Any part of the string can be taken back. -/
def sink (growth : Growth) : Sink UInt8 StringOutputStream where
  memory := target
  room stream := stream.target.length
  limit := intMax / 2 + 1
  store := store
  next := next growth
  backUp := backUp growth
  store_nil stream offset := by
    rw [store]
    split
    · exact ext_target (overwrite_nil _ _) rfl
    · rfl
  store_inside stream offset bytes hInside := by
    rw [store, dif_pos hInside]
    exact ⟨rfl, length_overwrite hInside⟩
  next_block stream offset size stream' hNext := by
    simp only [next] at hNext
    split at hNext
    · rename_i hRoom
      cases hNext
      obtain ⟨hSize, hBlock⟩ := next_resized stream.capacity_le hRoom
      exact ⟨rfl, hSize, Nat.sub_le _ _, hBlock⟩
    · split at hNext
      · cases hNext
      · rename_i hFull hDouble
        cases hNext
        have hGrow : stream.target.length < max (stream.target.length * 2) kMinimumSize := by
          simp only [kMinimumSize]
          omega
        obtain ⟨hSize, hBlock⟩ := next_resized _ hGrow
        exact ⟨rfl, hSize, Nat.sub_le _ _, hBlock⟩
  next_refused stream stream' hNext := by
    have hStuck := hNext
    simp only [next] at hNext
    split at hNext
    · cases hNext
    · split at hNext
      · rename_i hFull hDouble
        cases hNext
        exact ⟨rfl, hDouble, congrArg Prod.fst hStuck⟩
      · cases hNext
  backUp_room stream count hCount hRoom := by
    rw [backUp, if_pos hRoom]
    exact ⟨_, rfl, resize_shrink _ (Nat.sub_le _ _)⟩

end StringOutputStream

/-! ## Arrays -/

/-- `data_` of `size_` bytes. A block size that is not positive stands for the
whole array. -/
structure ArrayOutputStream (size : Nat) where
  data : List UInt8
  blockSize : Nat
  position : Nat
  lastReturnedSize : Nat
  length_eq : data.length = size
  position_le : position ≤ size
  blockSize_pos : 0 < size → 0 < blockSize

namespace ArrayOutputStream

def ofData (data : List UInt8) (blockSize : Int) : ArrayOutputStream data.length where
  data := data
  blockSize := if 0 < blockSize then blockSize.toNat else data.length
  position := 0
  lastReturnedSize := 0
  length_eq := rfl
  position_le := Nat.zero_le _
  blockSize_pos := by
    intro hSize
    split <;> omega

variable {size : Nat}

def next (stream : ArrayOutputStream size) : Option (Nat × Nat) × ArrayOutputStream size :=
  if h : stream.position < size then
    let lastReturnedSize := min stream.blockSize (size - stream.position)
    (some (stream.position, lastReturnedSize),
      { stream with
        lastReturnedSize := lastReturnedSize
        position := stream.position + lastReturnedSize
        position_le := by omega })
  else (none, { stream with lastReturnedSize := 0 })

/-- The `GOOGLE_CHECK`s end the program. -/
def backUp (stream : ArrayOutputStream size) (count : Nat) : Option (ArrayOutputStream size) :=
  if stream.lastReturnedSize > 0 ∧ count ≤ stream.lastReturnedSize then
    some { stream with
      position := stream.position - count
      lastReturnedSize := 0
      position_le := by
        have hPosition := stream.position_le
        omega }
  else none

def store (stream : ArrayOutputStream size) (offset : Nat) (bytes : List UInt8) :
    ArrayOutputStream size :=
  if h : offset + bytes.length ≤ stream.position then
    { stream with
      data := overwrite stream.data offset bytes
      length_eq := by
        have hPosition := stream.position_le
        rw [length_overwrite (by rw [stream.length_eq]; omega), stream.length_eq] }
  else stream

theorem ext_data {stream stream' : ArrayOutputStream size} (hData : stream.data = stream'.data)
    (hBlockSize : stream.blockSize = stream'.blockSize) (hPosition : stream.position = stream'.position)
    (hLast : stream.lastReturnedSize = stream'.lastReturnedSize) : stream = stream' := by
  cases stream
  cases stream'
  congr

def sink (size : Nat) : Sink UInt8 (ArrayOutputStream size) where
  memory stream := stream.data.take stream.position
  room stream := min stream.lastReturnedSize stream.position
  limit := size
  store := store
  next := next
  backUp := backUp
  store_nil stream offset := by
    rw [store]
    split
    · exact ext_data (overwrite_nil _ _) rfl rfl rfl
    · rfl
  store_inside stream offset bytes hInside := by
    have hPosition := stream.position_le
    have hLength := stream.length_eq
    rw [List.length_take] at hInside
    have hStored : offset + bytes.length ≤ stream.position := by omega
    rw [store, dif_pos hStored]
    exact ⟨take_overwrite hStored (by rw [hLength]; exact hPosition), rfl⟩
  next_block stream offset size' stream' hNext := by
    rw [next] at hNext
    split at hNext
    · rename_i hRoom
      cases hNext
      have hBlock := stream.blockSize_pos (by omega)
      have hLength := stream.length_eq
      refine ⟨?_, by omega, by dsimp only; omega, _, ?_, List.take_add⟩
      · rw [List.length_take]
        omega
      · rw [List.length_take, List.length_drop]
        dsimp only
        omega
    · cases hNext
  next_refused stream stream' hNext := by
    rw [next] at hNext
    split at hNext
    · cases hNext
    · rename_i hFull
      cases hNext
      have hLength := stream.length_eq
      refine ⟨rfl, ?_, ?_⟩
      · rw [List.length_take]
        omega
      · rw [next, dif_neg hFull]
  backUp_room stream count hCount hRoom := by
    rw [backUp, if_pos (by omega)]
    have hPosition := stream.position_le
    have hLength := stream.length_eq
    refine ⟨_, rfl, ?_⟩
    rw [List.take_take, List.length_take]
    congr 1
    dsimp only
    omega

end ArrayOutputStream

end AndroidDemo.Protobuf
