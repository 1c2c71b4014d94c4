import Mathlib.Data.List.Basic

/-! # Readers in a loop

A reader takes a state and the input and gives the next state and the input it has
left. `toEnd` repeats one until the input is used up, `upTo` until it stops by
itself. A turn that reads nothing is a refusal.
-/

namespace AndroidDemo.Readers

variable {α β σ τ : Type}

def toEnd (step : σ → List β → Option (σ × List β)) (s : σ) : List β → Option σ
  | [] => some s
  | b :: tail =>
    match step s (b :: tail) with
    | none => none
    | some (s', rest) => if rest.length < (b :: tail).length then toEnd step s' rest else none
termination_by input => input.length
decreasing_by
  rename_i hLt
  exact hLt

def upTo (step : σ → List β → Option ((σ ⊕ τ) × List β)) (s : σ) (input : List β) :
    Option (τ × List β) :=
  match step s input with
  | none => none
  | some (.inr t, rest) => some (t, rest)
  | some (.inl s', rest) => if rest.length < input.length then upTo step s' rest else none
termination_by input.length
decreasing_by
  rename_i hLt
  exact hLt

/-! ## To the end of the input -/

section ToEnd

variable {step : σ → List β → Option (σ × List β)} {s s' : σ} {input rest : List β}

@[simp]
theorem toEnd_nil : toEnd step s [] = some s := by
  rw [toEnd]

theorem toEnd_step (h : step s input = some (s', rest)) (hLt : rest.length < input.length) :
    toEnd step s input = toEnd step s' rest := by
  cases input with
  | nil => exact absurd hLt (Nat.not_lt_zero _)
  | cons b tail =>
    rw [toEnd, h]
    exact if_pos hLt

theorem toEnd_refused (h : step s input = none) (hInput : input ≠ []) :
    toEnd step s input = none := by
  cases input with
  | nil => exact absurd rfl hInput
  | cons b tail => rw [toEnd, h]

/-- A loop that reaches the end has gone through its first turn. -/
theorem toEnd_cases {final : σ} (h : toEnd step s input = some final) :
    input = [] ∧ final = s ∨ ∃ s' rest, step s input = some (s', rest) ∧
      rest.length < input.length ∧ toEnd step s' rest = some final := by
  cases input with
  | nil =>
    rw [toEnd_nil] at h
    cases h
    exact Or.inl ⟨rfl, rfl⟩
  | cons b tail =>
    rw [toEnd] at h
    cases hStep : step s (b :: tail) with
    | none =>
      rw [hStep] at h
      cases h
    | some next =>
      obtain ⟨s', rest⟩ := next
      rw [hStep] at h
      simp only [Option.ite_none_right_eq_some] at h
      exact Or.inr ⟨s', rest, rfl, h.1, h.2⟩

/-- What every turn preserves holds where the loop ends. -/
theorem toEnd_invariant {P : σ → Prop}
    (hStep : ∀ s input s' rest, P s → step s input = some (s', rest) → P s') {final : σ}
    (hStart : P s) (h : toEnd step s input = some final) : P final := by
  induction hLength : input.length using Nat.strongRecOn generalizing s input with
  | ind n ih =>
    rcases toEnd_cases h with ⟨-, rfl⟩ | ⟨s', rest, hTurn, hLt, hRest⟩
    · exact hStart
    · exact ih rest.length (hLength ▸ hLt) (hStep s input s' rest hStart hTurn) hRest rfl

/-- Turns that pay for what they put into the state with what they read. -/
theorem toEnd_cost_le {cost : σ → Nat}
    (hStep : ∀ s input s' rest, step s input = some (s', rest) →
      cost s' + rest.length ≤ cost s + input.length) {final : σ}
    (h : toEnd step s input = some final) : cost final ≤ cost s + input.length := by
  induction hLength : input.length using Nat.strongRecOn generalizing s input with
  | ind n ih =>
    rcases toEnd_cases h with ⟨-, rfl⟩ | ⟨s', rest, hTurn, hLt, hRest⟩
    · exact Nat.le_add_right _ _
    · have hTail := ih rest.length (hLength ▸ hLt) hRest rfl
      have hHead := hStep s input s' rest hTurn
      omega

/-- A map of the states that goes through every turn goes through the loop. -/
theorem toEnd_map {f : σ → σ}
    (hStep : ∀ s input, step (f s) input = (step s input).map fun (s', rest) => (f s', rest))
    (s : σ) (input : List β) : toEnd step (f s) input = (toEnd step s input).map f := by
  induction hLength : input.length using Nat.strongRecOn generalizing s input with
  | ind n ih =>
    subst hLength
    cases input with
    | nil => rw [toEnd_nil, toEnd_nil, Option.map_some]
    | cons b tail =>
      rw [toEnd, toEnd, hStep]
      cases step s (b :: tail) with
      | none => rfl
      | some next =>
        obtain ⟨s', rest⟩ := next
        rcases Nat.lt_or_ge rest.length (b :: tail).length with hLt | hGe
        · simp only [Option.map_some, if_pos hLt]
          exact ih rest.length hLt s' rest rfl
        · simp only [Option.map_some, if_neg (Nat.not_lt.mpr hGe), Option.map_none]

end ToEnd

/-! ## Up to a stop -/

section UpTo

variable {step : σ → List β → Option ((σ ⊕ τ) × List β)} {s s' : σ} {t : τ} {input rest : List β}

theorem upTo_stop (h : step s input = some (.inr t, rest)) :
    upTo step s input = some (t, rest) := by
  rw [upTo, h]

theorem upTo_step (h : step s input = some (.inl s', rest)) (hLt : rest.length < input.length) :
    upTo step s input = upTo step s' rest := by
  rw [upTo, h]
  exact if_pos hLt

theorem upTo_refused (h : step s input = none) : upTo step s input = none := by
  rw [upTo, h]

theorem upTo_cases (h : upTo step s input = some (t, rest)) :
    step s input = some (.inr t, rest) ∨ ∃ s' left, step s input = some (.inl s', left) ∧
      left.length < input.length ∧ upTo step s' left = some (t, rest) := by
  rw [upTo] at h
  cases hStep : step s input with
  | none =>
    rw [hStep] at h
    cases h
  | some next =>
    obtain ⟨s' | t', left⟩ := next
    · rw [hStep] at h
      simp only [Option.ite_none_right_eq_some] at h
      exact Or.inr ⟨s', left, rfl, h.1, h.2⟩
    · rw [hStep] at h
      cases h
      exact Or.inl rfl

/-- An invariant of the turns, and what the stopping turn makes of it. -/
theorem upTo_invariant {P : σ → List β → Prop} {Q : τ → List β → Prop}
    (hStep : ∀ s input s' left, P s input → step s input = some (.inl s', left) → P s' left)
    (hStop : ∀ s input t rest, P s input → step s input = some (.inr t, rest) → Q t rest)
    (hStart : P s input) (h : upTo step s input = some (t, rest)) : Q t rest := by
  induction hLength : input.length using Nat.strongRecOn generalizing s input with
  | ind n ih =>
    rcases upTo_cases h with hTurn | ⟨s', left, hTurn, hLt, hRest⟩
    · exact hStop s input t rest hStart hTurn
    · exact ih left.length (hLength ▸ hLt) (hStep s input s' left hStart hTurn) hRest rfl

end UpTo

/-! ## Input that acts on the state -/

/-- The loop goes through `bytes` from any state, whatever follows, and has then done `f`. -/
def Acts {ρ : Type} (loop : σ → List β → ρ) (bytes : List β) (f : σ → σ) : Prop :=
  ∀ s more, loop s (bytes ++ more) = loop (f s) more

namespace Acts

variable {ρ : Type} {loop : σ → List β → ρ} {bytes bytes' : List β} {f g : σ → σ}

theorem nil : Acts loop [] id := fun _ _ => rfl

theorem append (h : Acts loop bytes f) (h' : Acts loop bytes' g) :
    Acts loop (bytes ++ bytes') (g ∘ f) := by
  intro s more
  rw [List.append_assoc, h s (bytes' ++ more), h' (f s) more]
  rfl

/-- Items written one behind the other, where each is put behind those before it. -/
theorem flatMap {write : α → List β} {put : List α → σ → σ} (hNil : put [] = id)
    (hCons : ∀ a as, put (a :: as) = put as ∘ put [a]) {items : List α}
    (h : ∀ a ∈ items, Acts loop (write a) (put [a])) :
    Acts loop (items.flatMap write) (put items) := by
  induction items with
  | nil =>
    rw [hNil]
    exact nil
  | cons a items ih =>
    rw [List.flatMap_cons, hCons]
    exact append (h a List.mem_cons_self) (ih fun b hb => h b (List.mem_cons_of_mem a hb))

theorem apply_eq (h : Acts loop bytes f) (s : σ) : loop s bytes = loop (f s) [] := by
  have hEnd := h s []
  rwa [List.append_nil] at hEnd

end Acts

theorem toEnd_acts {step : σ → List β → Option (σ × List β)} {bytes : List β} {f : σ → σ}
    (hBytes : bytes ≠ []) (hTurn : ∀ s more, step s (bytes ++ more) = some (f s, more)) :
    Acts (toEnd step) bytes f := by
  intro s more
  have hPos := List.length_pos_iff.mpr hBytes
  exact toEnd_step (hTurn s more) (by rw [List.length_append]; omega)

theorem upTo_acts {step : σ → List β → Option ((σ ⊕ τ) × List β)} {bytes : List β} {f : σ → σ}
    (hBytes : bytes ≠ []) (hTurn : ∀ s more, step s (bytes ++ more) = some (.inl (f s), more)) :
    Acts (upTo step) bytes f := by
  intro s more
  have hPos := List.length_pos_iff.mpr hBytes
  exact upTo_step (hTurn s more) (by rw [List.length_append]; omega)

end AndroidDemo.Readers
