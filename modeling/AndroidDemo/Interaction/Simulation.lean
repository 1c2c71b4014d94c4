import AndroidDemo.Interaction.Calls
import Mathlib.Data.List.Forall2

/-! # Runs carried from one environment to another

A run is repeated call by call in a second environment. The answers may differ
where the program does not look at them.
-/

namespace Interaction

variable {C : Type} {R : C → Type} {P W A V B : Type} {α β σ : Type}

namespace Program

/-- The program goes on in the same way whatever a call in `φ` is answered. -/
def Ignores (φ : C → Prop) : {α : Type} → Program C R P α → Prop
  | _, .ret _ => True
  | _, .call c next => (φ c → ∀ r r', next r = next r') ∧ ∀ r, Ignores φ (next r)
  | _, .iter _ body _ next => (∀ s, Ignores φ (body s)) ∧ ∀ b, Ignores φ (next b)
  | _, .undefined _ => True

namespace Ignores

variable {φ : C → Prop}

theorem bind {p : Program C R P α} (h : p.Ignores φ) {f : α → Program C R P β}
    (hf : ∀ a, (f a).Ignores φ) : (p.bind f).Ignores φ := by
  induction p with
  | ret a => exact hf a
  | call c next ih =>
    refine ⟨fun hc r r' => ?_, fun r => ih r (h.2 r) hf⟩
    dsimp only
    rw [h.1 hc r r']
  | iter point body s next _ ih => exact ⟨h.1, fun b => ih b (h.2 b) hf⟩
  | undefined p => trivial

theorem unroll {point : σ → P} {body : σ → Program C R P (σ ⊕ β)} {s : σ}
    {next : β → Program C R P α} (h : (iter point body s next).Ignores φ) :
    (Program.unroll point body s next).Ignores φ := by
  apply (h.1 s).bind
  rintro (s' | b)
  · exact h
  · exact h.2 b

theorem loop {point : σ → P} {body : σ → Program C R P (σ ⊕ β)} (h : ∀ s, (body s).Ignores φ)
    (s : σ) : (Program.loop point body s).Ignores φ :=
  ⟨h, fun _ => trivial⟩

theorem compositional (φ : C → Prop) :
    Compositional (fun c => ¬ φ c) fun α (p : Program C R P α) => p.Ignores φ where
  ret _ := trivial
  undefined _ := trivial
  call hc hNext := ⟨fun hφ => absurd hφ hc, hNext⟩
  bind hp hf := hp.bind hf
  loop hBody s := .loop hBody s

end Ignores

end Program

/-- From states related by `S`, the second environment can follow the first one,
with the same answers outside `φ`. -/
structure Simulates (E : Environment C R W A) (F : Environment C R V B) (φ : C → Prop)
    (S : W → V → Prop) : Prop where
  moves : ∀ w a w₁ v, S w v → E.interfere w a = some w₁ → ∃ v₁, F.Interferes v v₁ ∧ S w₁ v₁
  answer : ∀ w v c r w₁, S w v → E.admits w c r → E.answer w c r = some w₁ →
    ∃ r' v₁, (φ c ∨ r' = r) ∧ F.admits v c r' ∧ F.answer v c r' = some v₁ ∧ S w₁ v₁

/-- The same call, in related states. -/
structure SameCall (S : W → V → Prop) (ev : Event C R W) (ev' : Event C R V) : Prop where
  call : ev'.call = ev.call
  before : S ev.before ev'.before

namespace Simulates

variable {E : Environment C R W A} {F : Environment C R V B} {φ : C → Prop} {S : W → V → Prop}

theorem interferes (h : Simulates E F φ S) {w w₁ : W} {v : V} (hS : S w v)
    (hMoves : E.Interferes w w₁) : ∃ v₁, F.Interferes v v₁ ∧ S w₁ v₁ := by
  induction hMoves with
  | refl => exact ⟨v, Environment.Interferes.refl F v, hS⟩
  | tail _ hMove ih =>
    obtain ⟨v₁, hMoves, hS₁⟩ := ih
    obtain ⟨a, hMove⟩ := hMove
    obtain ⟨v₂, hMoves', hS₂⟩ := h.moves _ a _ v₁ hS₁ hMove
    exact ⟨v₂, hMoves.trans hMoves', hS₂⟩

theorem run (h : Simulates E F φ S) {p q : Program C R P α} {w w' : W} {t : List (Event C R W)}
    (hRun : Run E p w t q w') (hp : p.Ignores φ) {v : V} (hS : S w v) :
    ∃ t' v', Run F p v t' q v' ∧ S w' v' ∧ List.Forall₂ (SameCall S) t t' := by
  induction hRun generalizing v with
  | refl p w => exact ⟨[], v, .refl _ _, hS, .nil⟩
  | @call c next w w₁ w₂ w' r t q hMoves hAdmits hAnswer _ ih =>
    obtain ⟨v₁, hMoves', hS₁⟩ := h.interferes hS hMoves
    obtain ⟨r', v₂, hReply, hAdmits', hAnswer', hS₂⟩ := h.answer _ _ c r _ hS₁ hAdmits hAnswer
    obtain ⟨t', v', hRest, hS', hEvents⟩ := ih (hp.2 r) hS₂
    have hNext : next r = next r' := by
      rcases hReply with hc | rfl
      · exact hp.1 hc r r'
      · rfl
    rw [hNext] at hRest
    exact ⟨_, v', .call hMoves' hAdmits' hAnswer' hRest, hS', .cons ⟨rfl, hS₁⟩ hEvents⟩
  | iter _ ih =>
    obtain ⟨t', v', hRest, hS', hEvents⟩ := ih hp.unroll hS
    exact ⟨t', v', .iter hRest, hS', hEvents⟩

end Simulates

end Interaction
