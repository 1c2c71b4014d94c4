import AndroidDemo.Interaction.Program

/-! # Replaying a script of answers

Runs are a relation; on a concrete script they can be computed. The script
lists the answers in order, each with the moves the others make before it.
-/

namespace Interaction

variable {C : Type} {R : C → Type} {P W A : Type} {α : Type}

structure Answer (C : Type) (R : C → Type) (A : Type) where
  moves : List A
  call : C
  reply : R call

def Environment.moveAll (E : Environment C R W A) : W → List A → Option W
  | w, [] => some w
  | w, a :: moves =>
    match E.interfere w a with
    | some w' => E.moveAll w' moves
    | none => none

theorem Environment.moveAll_interferes (E : Environment C R W A) {moves : List A} {w w' : W}
    (h : E.moveAll w moves = some w') : E.Interferes w w' := by
  induction moves generalizing w with
  | nil =>
    cases h
    exact Environment.Interferes.refl E _
  | cons a moves ih =>
    rw [moveAll] at h
    split at h
    · rename_i w₁ hMove
      exact Relation.ReflTransGen.head ⟨a, hMove⟩ (ih h)
    · cases h

/-- Answers the calls of a program from a script, until the script is used up.
The fuel bounds the calls and the silent turns of loops together. -/
def replay [DecidableEq C] (E : Environment C R W A)
    [∀ w c r, Decidable (E.admits w c r)] : Nat → Program C R P α → W → List (Answer C R A) →
      Option (List (Event C R W) × Program C R P α × W)
  | 0, _, _, _ => none
  | fuel + 1, .iter point body s next, w, script =>
    replay E fuel (.unroll point body s next) w script
  | _ + 1, p, w, [] => some ([], p, w)
  | fuel + 1, .call c next, w, ⟨moves, c', reply⟩ :: script =>
    if h : c' = c then
      match E.moveAll w moves with
      | some w₁ =>
        if E.admits w₁ c (h ▸ reply) then
          match E.answer w₁ c (h ▸ reply) with
          | some w₂ =>
            match replay E fuel (next (h ▸ reply)) w₂ script with
            | some (t, q, w') => some (⟨w₁, c, h ▸ reply, w₂⟩ :: t, q, w')
            | none => none
          | none => none
        else none
      | none => none
    else none
  | _ + 1, _, _, _ => none

variable [DecidableEq C] {E : Environment C R W A} [∀ w c r, Decidable (E.admits w c r)]

theorem replay_run {fuel : Nat} {p q : Program C R P α} {w w' : W} {script : List (Answer C R A)}
    {t : List (Event C R W)} (h : replay E fuel p w script = some (t, q, w')) :
    Run E p w t q w' := by
  induction fuel generalizing p w script t with
  | zero => cases h
  | succ fuel ih =>
    cases p with
    | iter point body s next => exact .iter (ih h)
    | ret a =>
      cases script with
      | nil =>
        cases h
        exact .refl _ _
      | cons line script => cases h
    | undefined x =>
      cases script with
      | nil =>
        cases h
        exact .refl _ _
      | cons line script => cases h
    | call c next =>
      cases script with
      | nil =>
        cases h
        exact .refl _ _
      | cons line script =>
        obtain ⟨moves, c', reply⟩ := line
        rw [replay] at h
        split at h
        · rename_i hCall
          subst hCall
          split at h
          · rename_i w₁ hMoves
            split at h
            · rename_i hAdmits
              split at h
              · rename_i w₂ hAnswer
                split at h
                · rename_i t₁ q₁ w₁' hRest
                  cases h
                  exact .call (E.moveAll_interferes hMoves) hAdmits hAnswer (ih hRest)
                · cases h
              · cases h
            · cases h
          · cases h
        · cases h

theorem exists_run_of_replay (E : Environment C R W A) [∀ w c r, Decidable (E.admits w c r)]
    (p : Program C R P α) (w : W) (fuel : Nat) (script : List (Answer C R A))
    (good : List (Event C R W) → Program C R P α → W → Bool)
    (h : (replay E fuel p w script).any (fun x => good x.1 x.2.1 x.2.2) = true) :
    ∃ t q w', Run E p w t q w' ∧ good t q w' = true := by
  cases hReplay : replay E fuel p w script with
  | none => simp [hReplay] at h
  | some x =>
    obtain ⟨t, q, w'⟩ := x
    rw [hReplay] at h
    exact ⟨t, q, w', replay_run hReplay, by simpa using h⟩

end Interaction
