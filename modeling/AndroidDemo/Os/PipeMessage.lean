import AndroidDemo.Interaction.History
import AndroidDemo.Os.PipeDescriptors
import Mathlib.Data.List.TakeWhile

/-! # The text that readFromChildPipe returns

Each turn of the loop reads to the start of the same buffer, so that a later
piece overwrites an earlier one.
-/

namespace AndroidDemo.Os.PipeDemo

open AndroidDemo.Socket Interaction Program

/-- The bytes that a read has taken out of the pipe. -/
def chunk : PipeEvent → Option (List UInt8)
  | ⟨_, .read _ _, .ok (b :: bytes), _⟩ => some (b :: bytes)
  | _ => none

def chunks (t : List PipeEvent) : List (List UInt8) := t.filterMap chunk

/-- The pieces laid over each other from the same start. -/
def overlay (chunks : List (List UInt8)) : List UInt8 :=
  chunks.foldl (fun shown chunk => chunk ++ shown.drop chunk.length) []

theorem overlay_concat (cs : List (List UInt8)) (c : List UInt8) :
    overlay (cs ++ [c]) = c ++ (overlay cs).drop c.length := by
  rw [overlay, List.foldl_append]
  rfl

theorem chunks_concat (t : List PipeEvent) (ev : PipeEvent) :
    chunks (t ++ [ev]) = chunks t ++ (chunk ev).toList := by
  rw [chunks, List.filterMap_append]
  cases h : chunk ev <;> simp [chunks, h]

theorem chunk_of_call {ev : PipeEvent} (h : ∀ fd count, ev.call ≠ .read fd count) :
    chunk ev = none := by
  obtain ⟨p, c, r, p'⟩ := ev
  cases c <;> first | rfl | exact absurd rfl (h _ _)

/-! ## The buffer in the loop -/

/-- Every format of the log is made of bytes that were read. -/
def Logs (t : List PipeEvent) : Prop :=
  ∀ ev ∈ t, ∀ format, ev.call = .log format → ∀ b ∈ format, b ∈ (chunks t).flatten

theorem Logs.concat {t : List PipeEvent} (h : Logs t) {ev : PipeEvent}
    (hev : ∀ format, ev.call = .log format → ∀ b ∈ format, b ∈ (chunks t).flatten) :
    Logs (t ++ [ev]) := by
  have hMore {b : UInt8} (hb : b ∈ (chunks t).flatten) : b ∈ (chunks (t ++ [ev])).flatten := by
    rw [chunks_concat, List.flatten_append]
    exact List.mem_append_left _ hb
  intro ev' hIn format hCall b hb
  rcases List.mem_append.mp hIn with hOld | hNew
  · exact hMore (h ev' hOld format hCall b hb)
  · cases List.mem_singleton.mp hNew
    exact hMore (hev format hCall b hb)

/-- Nothing has been read. -/
structure Unread (t : List PipeEvent) : Prop where
  chunks_nil : chunks t = []
  logs : Logs t

theorem Unread.nil : Unread [] := ⟨rfl, by simp [Logs]⟩

theorem Unread.call {t : List PipeEvent} (h : Unread t) {ev : PipeEvent}
    (hRead : ∀ fd count, ev.call ≠ .read fd count) (hLog : ∀ format, ev.call ≠ .log format) :
    Unread (t ++ [ev]) where
  chunks_nil := by
    rw [chunks_concat, h.chunks_nil, chunk_of_call hRead]
    rfl
  logs := h.logs.concat fun format hCall => absurd hCall (hLog format)

/-- The buffer holds what has been read, laid over zeros, and never fills up. -/
structure Shows (buff : List UInt8) (t : List PipeEvent) : Prop where
  buffer : buff = overlay (chunks t) ++ List.replicate (5 - (overlay (chunks t)).length) 0
  room : (overlay (chunks t)).length ≤ 4
  logs : Logs t

variable {buff : List UInt8} {t : List PipeEvent}

theorem Shows.start (h : Unread t) : Shows (List.replicate 5 0) t where
  buffer := by rw [h.chunks_nil]; rfl
  room := by rw [h.chunks_nil]; exact Nat.zero_le 4
  logs := h.logs

/-- A call that takes nothing out of the pipe leaves the text as it is. -/
theorem Shows.other (h : Shows buff t) {ev : PipeEvent}
    (hOther : ∀ fd count, ev.call ≠ .read fd count)
    (hev : ∀ format, ev.call = .log format → ∀ b ∈ format, b ∈ (chunks t).flatten) :
    Shows buff (t ++ [ev]) := by
  have hSame : chunks (t ++ [ev]) = chunks t := by
    rw [chunks_concat, chunk_of_call hOther]
    exact List.append_nil _
  constructor
  · rw [hSame]
    exact h.buffer
  · rw [hSame]
    exact h.room
  · exact h.logs.concat hev

theorem Shows.stop (h : Shows buff t) {ev : PipeEvent} (hNone : chunk ev = none)
    {fd : Fd} (hCall : ev.call = .read fd 4) : Shows buff (t ++ [ev]) := by
  have hSame : chunks (t ++ [ev]) = chunks t := by
    rw [chunks_concat, hNone]
    exact List.append_nil _
  constructor
  · rw [hSame]
    exact h.buffer
  · rw [hSame]
    exact h.room
  · exact h.logs.concat fun format hLog => by rw [hCall] at hLog; cases hLog

theorem Shows.read (h : Shows buff t) {ev : PipeEvent} {c : List UInt8} (hev : chunk ev = some c)
    {fd : Fd} (hCall : ev.call = .read fd 4) (hRoom : c.length ≤ 4) :
    Shows (c ++ buff.drop c.length) (t ++ [ev]) := by
  have hNext : overlay (chunks (t ++ [ev])) = c ++ (overlay (chunks t)).drop c.length := by
    rw [chunks_concat, hev]
    exact overlay_concat _ c
  have hOld := h.room
  constructor
  · rw [hNext, h.buffer, List.drop_append, List.drop_replicate, List.append_assoc,
      List.length_append, List.length_drop]
    congr 3
    omega
  · rw [hNext, List.length_append, List.length_drop]
    omega
  · exact h.logs.concat fun format hLog => by rw [hCall] at hLog; cases hLog

/-- `NewStringUTF` stops at the zeros behind the text. -/
theorem Shows.cString (h : Shows buff t) :
    cString buff = PipeDemo.cString (overlay (chunks t)) := by
  have hRoom := h.room
  obtain ⟨n, hn⟩ : ∃ n, 5 - (overlay (chunks t)).length = n + 1 :=
    ⟨4 - (overlay (chunks t)).length, by omega⟩
  rw [h.buffer, hn, List.replicate_succ, PipeDemo.cString, PipeDemo.cString]
  generalize overlay (chunks t) = shown
  induction shown with
  | nil => rfl
  | cons b shown ih =>
    rw [List.cons_append, List.takeWhile_cons, List.takeWhile_cons, ih]

section Runs

variable {threads : Bool} {admits : Process → (c : PipeCall) → Reply c → Prop} {p p' : Process}

theorem Shows.call (c : PipeCall) (hOther : ∀ fd count, c ≠ .read fd count)
    (hLog : ∀ format, c ≠ .log format) (h : Shows buff t) :
    Safe (Process.environment threads admits).record (fun _ _ => True)
      (fun _ st => Shows buff st.2) (sys c) (p, t) :=
  .call_record (fun _ _ => trivial) fun _ _ _ _ _ _ =>
    .ret (h.other hOther fun format hCall => absurd hCall (hLog format))

/-- What the text is behind the pipe. -/
def Told (s : List UInt8) (t : List PipeEvent) : Prop :=
  s = cString (overlay (chunks t)) ∧ Logs t

/-- A byte that `printf` and modified UTF-8 both take for itself. -/
def Plain (b : UInt8) : Prop := b ≠ 0x25 ∧ b < 0x80

end Runs

end AndroidDemo.Os.PipeDemo
