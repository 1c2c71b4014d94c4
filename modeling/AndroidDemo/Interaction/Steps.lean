import Mathlib.Data.List.Induction
import Mathlib.Data.List.Infix

/-! # Runs of a step function

A component that reacts to one action after the other. An action it cannot take
has no result.
-/

namespace Interaction.Steps

variable {S A : Type} (step : S → A → Option S)

def run : S → List A → Option S
  | s, [] => some s
  | s, a :: acts => (step s a).bind fun s' => run s' acts

variable {step}

theorem run_concat {s s' : S} {acts : List A} {a : A} :
    run step s (acts ++ [a]) = some s' ↔
      ∃ s₁, run step s acts = some s₁ ∧ step s₁ a = some s' := by
  induction acts generalizing s with
  | nil => simp [run]
  | cons b acts ih =>
    cases hStep : step s b with
    | none => simp [run, hStep]
    | some s₁ => simpa [run, hStep] using ih

/-- Runs of a step function that forgets a part of the state. -/
theorem run_map {T : Type} {step' : T → A → Option T} {g : S → T}
    (hStep : ∀ s a, step' (g s) a = (step s a).map g) (s : S) (acts : List A) :
    run step' (g s) acts = (run step s acts).map g := by
  induction acts generalizing s with
  | nil => rfl
  | cons a acts ih =>
    rw [run, hStep, run]
    cases step s a with
    | none => rfl
    | some s₁ => exact ih s₁

/-- An invariant of the state that may speak of the actions so far. -/
theorem invariant {I : List A → S → Prop} {s₀ : S} (hInit : I [] s₀)
    (hStep : ∀ acts s a s', I acts s → step s a = some s' → I (acts ++ [a]) s')
    {acts : List A} {s : S} (hRun : run step s₀ acts = some s) : I acts s := by
  induction acts using List.reverseRecOn generalizing s with
  | nil =>
    cases hRun
    exact hInit
  | append_singleton acts a ih =>
    obtain ⟨s₁, hRun, hLast⟩ := run_concat.mp hRun
    exact hStep acts s₁ a s (ih hRun) hLast

/-- What a step keeps exactly under the condition `ok` holds all along a run
just when every step of the run meets the condition. -/
theorem forall_prefix_iff {I : S → Prop} {ok : S → A → Prop} {s₀ : S} (hInit : I s₀)
    (hStep : ∀ acts s a s', run step s₀ acts = some s → I s → step s a = some s' → (I s' ↔ ok s a))
    (acts : List A) :
    (∀ pre s, pre <+: acts → run step s₀ pre = some s → I s) ↔
      ∀ pre a s s', pre ++ [a] <+: acts → run step s₀ pre = some s → step s a = some s' → ok s a := by
  constructor
  · intro hAll pre a s s' hPrefix hRun hLast
    have hBefore := hAll pre s ((List.prefix_append pre [a]).trans hPrefix) hRun
    have hAfter := hAll _ s' hPrefix (run_concat.mpr ⟨s, hRun, hLast⟩)
    exact (hStep pre s a s' hRun hBefore hLast).mp hAfter
  · intro hOk pre
    induction pre using List.reverseRecOn with
    | nil =>
      rintro s _ ⟨⟩
      exact hInit
    | append_singleton pre a ih =>
      intro s hPrefix hRun
      obtain ⟨s₁, hRun, hLast⟩ := run_concat.mp hRun
      have hBefore := ih s₁ ((List.prefix_append pre [a]).trans hPrefix) hRun
      exact (hStep pre s₁ a s hRun hBefore hLast).mpr (hOk pre a s₁ s hPrefix hRun hLast)

end Interaction.Steps
