import Mathlib.Data.List.Basic

/-! # Writing through blocks

A sink hands out memory in blocks, each behind the one before, and takes back the
end of the last one. A writer fills the block it has been given and asks for the
next one when that is full.
-/

namespace AndroidDemo.Blocks

variable {α σ : Type}

/-- The memory with the bytes laid over it at an offset. -/
def overwrite (memory : List α) (offset : Nat) (bytes : List α) : List α :=
  memory.take offset ++ bytes ++ memory.drop (offset + bytes.length)

theorem overwrite_end (all rest bytes : List α) :
    overwrite (all ++ rest) all.length bytes = all ++ bytes ++ rest.drop bytes.length := by
  rw [overwrite, List.take_left, List.drop_length_add_append]

@[simp]
theorem overwrite_nil (memory : List α) (offset : Nat) : overwrite memory offset [] = memory := by
  rw [overwrite, List.append_nil, List.length_nil, Nat.add_zero, List.take_append_drop]

theorem length_overwrite {memory bytes : List α} {offset : Nat}
    (hFits : offset + bytes.length ≤ memory.length) :
    (overwrite memory offset bytes).length = memory.length := by
  rw [overwrite, List.length_append, List.length_append, List.length_take, List.length_drop]
  omega

theorem take_overwrite {memory bytes : List α} {offset count : Nat}
    (hInside : offset + bytes.length ≤ count) (hCount : count ≤ memory.length) :
    (overwrite memory offset bytes).take count = overwrite (memory.take count) offset bytes := by
  have hFront : (memory.take offset ++ bytes).length = offset + bytes.length := by
    rw [List.length_append, List.length_take]
    omega
  rw [overwrite, overwrite, List.take_append, List.take_of_length_le (by omega), hFront,
    List.take_take, Nat.min_eq_left (by omega), List.drop_take]

/-- `memory` is all that has been handed out, `room` how much of its end can be
taken back, `limit` what is handed out at least. `next` gives the offset and the
size of a block. A sink that has refused one goes on refusing. -/
structure Sink (α σ : Type) where
  memory : σ → List α
  room : σ → Nat
  limit : Nat
  store : σ → Nat → List α → σ
  next : σ → Option (Nat × Nat) × σ
  backUp : σ → Nat → Option σ
  store_nil : ∀ s offset, store s offset [] = s
  store_inside : ∀ s offset bytes, offset + bytes.length ≤ (memory s).length →
    memory (store s offset bytes) = overwrite (memory s) offset bytes ∧
      room (store s offset bytes) = room s
  next_block : ∀ s offset size s', next s = (some (offset, size), s') →
    offset = (memory s).length ∧ 0 < size ∧ size ≤ room s' ∧
      ∃ block, block.length = size ∧ memory s' = memory s ++ block
  next_refused : ∀ s s', next s = (none, s') →
    memory s' = memory s ∧ limit ≤ (memory s).length ∧ (next s').1 = none
  backUp_room : ∀ s count, 0 < count → count ≤ room s → ∃ s', backUp s count = some s' ∧
    memory s' = (memory s).take ((memory s).length - count)

/-- A writer in the last block: `size` bytes from `offset` on are free, and before
them stands what has been written. -/
structure Holds (S : Sink α σ) (s : σ) (offset size : Nat) (all : List α) : Prop where
  block : ∃ rest, S.memory s = all ++ rest ∧ rest.length = size
  offset : 0 < size → offset = all.length
  room : size ≤ S.room s

variable {S : Sink α σ} {s s' : σ} {offset size : Nat} {all bytes : List α}

theorem Holds.memory (h : Holds S s offset 0 all) : S.memory s = all := by
  obtain ⟨rest, hMemory, hRest⟩ := h.block
  rw [hMemory, List.eq_nil_of_length_eq_zero hRest, List.append_nil]

theorem Holds.length (h : Holds S s offset size all) :
    (S.memory s).length = all.length + size := by
  obtain ⟨rest, hMemory, hRest⟩ := h.block
  rw [hMemory, List.length_append, hRest]

theorem Holds.full (hMemory : S.memory s = all) : Holds S s offset 0 all where
  block := ⟨[], by rw [hMemory, List.append_nil], rfl⟩
  offset := fun h => absurd h (Nat.lt_irrefl 0)
  room := Nat.zero_le _

theorem Holds.store (h : Holds S s offset size all) (hFits : bytes.length ≤ size) :
    Holds S (S.store s offset bytes) (offset + bytes.length) (size - bytes.length)
      (all ++ bytes) := by
  cases bytes with
  | nil =>
    rw [S.store_nil, List.append_nil]
    exact h
  | cons b bytes =>
    obtain ⟨rest, hMemory, hRest⟩ := h.block
    have hOffset : offset = all.length := h.offset (Nat.lt_of_lt_of_le (Nat.succ_pos _) hFits)
    have hInside : offset + (b :: bytes).length ≤ (S.memory s).length := by
      rw [h.length]
      omega
    obtain ⟨hStore, hRoom⟩ := S.store_inside s offset (b :: bytes) hInside
    constructor
    · refine ⟨rest.drop (b :: bytes).length, ?_, by rw [List.length_drop, hRest]⟩
      rw [hStore, hMemory, hOffset, overwrite_end]
    · intro _
      rw [List.length_append, hOffset]
    · have hOld := h.room
      rw [hRoom]
      omega

theorem Holds.next (h : Holds S s offset 0 all) {offset' size' : Nat}
    (hNext : S.next s = (some (offset', size'), s')) : Holds S s' offset' size' all := by
  obtain ⟨hOffset, _, hRoom, block, hBlock, hMemory⟩ := S.next_block s offset' size' s' hNext
  rw [h.memory] at hOffset hMemory
  exact ⟨⟨block, hMemory, hBlock⟩, fun _ => hOffset, hRoom⟩

theorem Holds.refused (h : Holds S s offset 0 all) (hNext : S.next s = (none, s')) :
    S.memory s' = all ∧ S.limit ≤ all.length ∧ (S.next s').1 = none := by
  obtain ⟨hMemory, hLimit, hStuck⟩ := S.next_refused s s' hNext
  rw [h.memory] at hMemory hLimit
  exact ⟨hMemory, hLimit, hStuck⟩

/-- Taking back what is free leaves what has been written. -/
theorem Holds.backUp (h : Holds S s offset size all) (hSize : 0 < size) :
    ∃ s', S.backUp s size = some s' ∧ S.memory s' = all := by
  obtain ⟨s', hBackUp, hMemory⟩ := S.backUp_room s size hSize h.room
  obtain ⟨rest, hAll, hRest⟩ := h.block
  refine ⟨s', hBackUp, ?_⟩
  rw [hMemory, h.length, Nat.add_sub_cancel, hAll, List.take_left]

end AndroidDemo.Blocks
