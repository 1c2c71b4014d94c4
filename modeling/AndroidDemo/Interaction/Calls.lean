import AndroidDemo.Interaction.Program

/-! # The calls a program may issue

Which calls occur in a program at all can be read off its tree, whatever the
environment answers.
-/

namespace Interaction

variable {C : Type} {R : C → Type} {P W A : Type} {α β σ : Type}

namespace Program

def Calls (φ : C → Prop) : {α : Type} → Program C R P α → Prop
  | _, .ret _ => True
  | _, .call c next => φ c ∧ ∀ r, Calls φ (next r)
  | _, .iter _ body _ next => (∀ s, Calls φ (body s)) ∧ ∀ b, Calls φ (next b)
  | _, .undefined _ => True

namespace Calls

variable {φ : C → Prop}

theorem mono {ψ : C → Prop} (hφ : ∀ c, φ c → ψ c) {p : Program C R P α} (h : p.Calls φ) :
    p.Calls ψ := by
  induction p with
  | ret a => trivial
  | call c next ih => exact ⟨hφ c h.1, fun r => ih r (h.2 r)⟩
  | iter point body s next ihBody ihNext =>
    exact ⟨fun s => ihBody s (h.1 s), fun b => ihNext b (h.2 b)⟩
  | undefined p => trivial

theorem bind {p : Program C R P α} (h : p.Calls φ) {f : α → Program C R P β}
    (hf : ∀ a, (f a).Calls φ) : (p.bind f).Calls φ := by
  induction p with
  | ret a => exact hf a
  | call c next ih => exact ⟨h.1, fun r => ih r (h.2 r) hf⟩
  | iter point body s next _ ih => exact ⟨h.1, fun b => ih b (h.2 b) hf⟩
  | undefined p => trivial

theorem unroll {point : σ → P} {body : σ → Program C R P (σ ⊕ β)} {s : σ}
    {next : β → Program C R P α} (h : (iter point body s next).Calls φ) :
    (Program.unroll point body s next).Calls φ := by
  apply (h.1 s).bind
  rintro (s' | b)
  · exact h
  · exact h.2 b

theorem loop {point : σ → P} {body : σ → Program C R P (σ ⊕ β)} (h : ∀ s, (body s).Calls φ) (s : σ) :
    (Program.loop point body s).Calls φ :=
  ⟨h, fun _ => trivial⟩

theorem run {E : Environment C R W A} {p q : Program C R P α} {w w' : W}
    {t : List (Event C R W)} (h : p.Calls φ) (hRun : Run E p w t q w') :
    (∀ ev ∈ t, φ ev.call) ∧ q.Calls φ := by
  induction hRun with
  | refl p w => exact ⟨by simp, h⟩
  | call _ _ _ _ ih =>
    obtain ⟨hEvents, hRest⟩ := ih (h.2 _)
    exact ⟨List.forall_mem_cons.mpr ⟨h.1, hEvents⟩, hRest⟩
  | iter _ ih => exact ih h.unroll

end Calls

/-- A property of programs that a program has when its parts have it and its own
calls are in `φ`. -/
structure Compositional (φ : C → Prop) (X : (α : Type) → Program C R P α → Prop) : Prop where
  ret : ∀ {α : Type} (a : α), X α (.ret a)
  undefined : ∀ {α : Type} (p : P), X α (.undefined p)
  call : ∀ {α : Type} {c : C} {next : R c → Program C R P α}, φ c → (∀ r, X α (next r)) →
    X α (.call c next)
  bind : ∀ {α β : Type} {p : Program C R P α} {f : α → Program C R P β}, X α p →
    (∀ a, X β (f a)) → X β (p.bind f)
  loop : ∀ {β σ : Type} {point : σ → P} {body : σ → Program C R P (σ ⊕ β)},
    (∀ s, X (σ ⊕ β) (body s)) → ∀ s, X β (Program.loop point body s)

theorem Calls.compositional (φ : C → Prop) :
    Compositional φ fun α (p : Program C R P α) => p.Calls φ where
  ret _ := trivial
  undefined _ := trivial
  call hc hNext := ⟨hc, hNext⟩
  bind hp hf := hp.bind hf
  loop hBody s := .loop hBody s

end Program

end Interaction
