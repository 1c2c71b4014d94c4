import Mathlib.Logic.Relation
import Mathlib.Data.Sum.Basic

/-! # Programs that interact with an environment

A program is a tree of calls: it issues a call, the environment answers, and the
answer selects the rest of the program. A loop is a node of its own, so that a
program may run forever although the tree is finite. Nothing here fixes the
calls, the answers or the state of the environment.
-/

namespace Interaction

/-- Programs issuing calls `c : C` answered in `R c`. Loop heads carry an
observation of type `P`, and so does `undefined`, which is reached when the
source leaves the meaning of the next operation open. -/
inductive Program (C : Type) (R : C → Type) (P : Type) : Type → Type 1
  | ret {α : Type} (value : α) : Program C R P α
  | call {α : Type} (c : C) (next : R c → Program C R P α) : Program C R P α
  | iter {α β σ : Type} (point : σ → P) (body : σ → Program C R P (σ ⊕ β)) (s : σ)
      (next : β → Program C R P α) : Program C R P α
  | undefined {α : Type} (p : P) : Program C R P α

/-- What can be observed of the next operation of a program. -/
inductive Point (C P : Type)
  | call (c : C)
  | loop (p : P)
  | undefined (p : P)
  deriving DecidableEq

namespace Program

variable {C : Type} {R : C → Type} {P : Type} {α β γ σ : Type}

def bind : {α β : Type} → Program C R P α → (α → Program C R P β) → Program C R P β
  | _, _, .ret a, f => f a
  | _, _, .call c next, f => .call c (fun r => bind (next r) f)
  | _, _, .iter point body s next, f => .iter point body s (fun b => bind (next b) f)
  | _, _, .undefined p, _ => .undefined p

instance : Monad (Program C R P) where
  pure := .ret
  bind := bind

def perform (c : C) : Program C R P (R c) := .call c .ret

def loop (point : σ → P) (body : σ → Program C R P (σ ⊕ β)) (s : σ) : Program C R P β :=
  .iter point body s .ret

def unroll (point : σ → P) (body : σ → Program C R P (σ ⊕ β)) (s : σ)
    (next : β → Program C R P α) : Program C R P α :=
  (body s).bind (Sum.elim (fun s' => .iter point body s' next) next)

def point? : Program C R P α → Option (Point C P)
  | .ret _ => none
  | .call c _ => some (.call c)
  | .iter point _ s _ => some (.loop (point s))
  | .undefined p => some (.undefined p)

def result? : Program C R P α → Option α
  | .ret a => some a
  | _ => none

@[simp] theorem ret_bind (a : α) (f : α → Program C R P β) : (ret a).bind f = f a := rfl

@[simp] theorem call_bind (c : C) (next : R c → Program C R P α) (f : α → Program C R P β) :
    (call c next).bind f = .call c (fun r => (next r).bind f) := rfl

@[simp] theorem undefined_bind (p : P) (f : α → Program C R P β) :
    (undefined p : Program C R P α).bind f = .undefined p := rfl

@[simp] theorem perform_bind (c : C) (f : R c → Program C R P β) :
    (perform c).bind f = .call c f := rfl

@[simp] theorem pure_eq (a : α) : (pure a : Program C R P α) = .ret a := rfl

@[simp] theorem bind_eq (p : Program C R P α) (f : α → Program C R P β) : p >>= f = p.bind f := rfl

theorem bind_assoc (p : Program C R P α) (f : α → Program C R P β) (g : β → Program C R P γ) :
    (p.bind f).bind g = p.bind (fun a => (f a).bind g) := by
  induction p with
  | ret a => rfl
  | call c next ih => exact congrArg (call c) (funext fun r => ih r f)
  | iter point body s next _ ih => exact congrArg (iter point body s) (funext fun b => ih b f)
  | undefined p => rfl

theorem unroll_bind (point : σ → P) (body : σ → Program C R P (σ ⊕ β)) (s : σ)
    (next : β → Program C R P α) (f : α → Program C R P γ) :
    (unroll point body s next).bind f = unroll point body s (fun b => (next b).bind f) := by
  rw [unroll, unroll, bind_assoc]
  refine congrArg (bind (body s)) (funext fun turn => ?_)
  cases turn <;> rfl

theorem eq_ret_of_result? {p : Program C R P α} {a : α} (h : p.result? = some a) : p = .ret a := by
  cases p with
  | ret b => rw [Option.some.inj h]
  | call c next => cases h
  | iter point body s next => cases h
  | undefined p => cases h

theorem eq_ret_of_point? {p : Program C R P α} (h : p.point? = none) : ∃ a, p = .ret a := by
  cases p with
  | ret a => exact ⟨a, rfl⟩
  | call c next => cases h
  | iter point body s next => cases h
  | undefined p => cases h

end Program

/-- The environment of a program: how its state changes when it answers a call,
which answers a group of results admits, and what moves others make in between. -/
structure Environment (C : Type) (R : C → Type) (W A : Type) where
  answer : W → (c : C) → R c → Option W
  admits : W → (c : C) → R c → Prop
  interfere : W → A → Option W

/-- One answered call, with the state right before and right after the answer. -/
structure Event (C : Type) (R : C → Type) (W : Type) where
  before : W
  call : C
  reply : R call
  after : W

section
variable {C : Type} {R : C → Type} {P W A : Type} {α β : Type}

/-- Any number of moves of the others. -/
def Environment.Interferes (E : Environment C R W A) : W → W → Prop :=
  Relation.ReflTransGen fun w w' => ∃ a, E.interfere w a = some w'

theorem Environment.Interferes.refl (E : Environment C R W A) (w : W) : E.Interferes w w :=
  Relation.ReflTransGen.refl

theorem Environment.Interferes.preserves {E : Environment C R W A} {I : W → Prop}
    (step : ∀ w a w', I w → E.interfere w a = some w' → I w') {w w' : W}
    (h : E.Interferes w w') (hw : I w) : I w' := by
  induction h with
  | refl => exact hw
  | tail _ hMove ih =>
    obtain ⟨a, hMove⟩ := hMove
    exact step _ a _ ih hMove

def Environment.restrict (E : Environment C R W A) (keep : W → (c : C) → R c → Prop) :
    Environment C R W A :=
  { E with admits := fun w c r => E.admits w c r ∧ keep w c r }

/-- `Run E p w t q w'`: from program `p` and state `w`, the calls in `t` are
issued and answered in this order and leave program `q` and state `w'`. -/
inductive Run (E : Environment C R W A) {α : Type} :
    Program C R P α → W → List (Event C R W) → Program C R P α → W → Prop
  | refl (p : Program C R P α) (w : W) : Run E p w [] p w
  | call {c : C} {next : R c → Program C R P α} {w w₁ w₂ w' : W} {r : R c}
      {t : List (Event C R W)} {q : Program C R P α}
      (hMoves : E.Interferes w w₁) (hAdmits : E.admits w₁ c r) (hAnswer : E.answer w₁ c r = some w₂)
      (h : Run E (next r) w₂ t q w') : Run E (.call c next) w (⟨w₁, c, r, w₂⟩ :: t) q w'
  | iter {β σ : Type} {point : σ → P} {body : σ → Program C R P (σ ⊕ β)} {s : σ}
      {next : β → Program C R P α} {w w' : W} {t : List (Event C R W)} {q : Program C R P α}
      (h : Run E (Program.unroll point body s next) w t q w') :
      Run E (.iter point body s next) w t q w'

namespace Run

variable {E : Environment C R W A}

theorem trans {p q q' : Program C R P α} {w w₁ w₂ : W} {t t' : List (Event C R W)}
    (h : Run E p w t q w₁) (h' : Run E q w₁ t' q' w₂) : Run E p w (t ++ t') q' w₂ := by
  induction h with
  | refl p w => exact h'
  | call hMoves hAdmits hAnswer _ ih => exact .call hMoves hAdmits hAnswer (ih h')
  | iter _ ih => exact .iter (ih h')

theorem bind {p q : Program C R P α} {w w' : W} {t : List (Event C R W)}
    (h : Run E p w t q w') (f : α → Program C R P β) : Run E (p.bind f) w t (q.bind f) w' := by
  induction h with
  | refl p w => exact .refl _ _
  | call hMoves hAdmits hAnswer _ ih => exact .call hMoves hAdmits hAnswer ih
  | iter _ ih =>
    refine .iter ?_
    rw [← Program.unroll_bind]
    exact ih

/-- A run of a sequence either stays inside the first program or completes it. -/
theorem bind_cases {p : Program C R P α} {f : α → Program C R P β} {w w' : W}
    {t : List (Event C R W)} {q : Program C R P β} (h : Run E (p.bind f) w t q w') :
    (∃ p', Run E p w t p' w' ∧ q = p'.bind f) ∨
    ∃ a t₁ t₂ w₁, t = t₁ ++ t₂ ∧ Run E p w t₁ (.ret a) w₁ ∧ Run E (f a) w₁ t₂ q w' := by
  generalize hx : p.bind f = x at h
  induction h generalizing p with
  | refl x w => exact .inl ⟨p, .refl _ _, hx.symm⟩
  | @call c next w w₁ w₂ w' r t q hMoves hAdmits hAnswer hRun ih =>
    cases p with
    | ret a =>
      refine .inr ⟨a, [], _, w, rfl, .refl _ _, ?_⟩
      rw [← Program.ret_bind a f, hx]
      exact .call hMoves hAdmits hAnswer hRun
    | call c' next' =>
      cases hx
      rcases ih rfl with ⟨p', hp', rfl⟩ | ⟨a, t₁, t₂, w₁, rfl, h₁, h₂⟩
      · exact .inl ⟨p', .call hMoves hAdmits hAnswer hp', rfl⟩
      · exact .inr ⟨a, _ :: t₁, t₂, w₁, rfl, .call hMoves hAdmits hAnswer h₁, h₂⟩
    | iter point body s next' => cases hx
    | undefined p => cases hx
  | @iter β σ point body s next w w' t q hRun ih =>
    cases p with
    | ret a =>
      refine .inr ⟨a, [], _, w, rfl, .refl _ _, ?_⟩
      rw [← Program.ret_bind a f, hx]
      exact .iter hRun
    | call c' next' => cases hx
    | iter point' body' s' next' =>
      cases hx
      rcases ih (Program.unroll_bind _ _ _ _ _) with ⟨p', hp', rfl⟩ | ⟨a, t₁, t₂, w₁, rfl, h₁, h₂⟩
      · exact .inl ⟨p', .iter hp', rfl⟩
      · exact .inr ⟨a, t₁, t₂, w₁, rfl, .iter h₁, h₂⟩
    | undefined p => cases hx

theorem bind_ret {p : Program C R P α} {f : α → Program C R P β} {w w' : W}
    {t : List (Event C R W)} {b : β} (h : Run E (p.bind f) w t (.ret b) w') :
    ∃ a t₁ t₂ w₁, t = t₁ ++ t₂ ∧ Run E p w t₁ (.ret a) w₁ ∧ Run E (f a) w₁ t₂ (.ret b) w' := by
  rcases h.bind_cases with ⟨p', hp', hq⟩ | h
  · cases p' with
    | ret a =>
      have hq : f a = .ret b := hq.symm
      exact ⟨a, t, [], w', (List.append_nil t).symm, hp', hq ▸ .refl _ _⟩
    | call c next => cases hq
    | iter point body s next => cases hq
    | undefined p => cases hq
  · exact h

theorem call_ret {c : C} {next : R c → Program C R P α} {w w' : W} {t : List (Event C R W)} {a : α}
    (h : Run E (.call c next) w t (.ret a) w') :
    ∃ w₁ r w₂ t', t = ⟨w₁, c, r, w₂⟩ :: t' ∧ E.answer w₁ c r = some w₂ ∧
      Run E (next r) w₂ t' (.ret a) w' := by
  cases h with
  | call _ _ hAnswer h => exact ⟨_, _, _, _, rfl, hAnswer, h⟩

theorem weaken {E' : Environment C R W A} {p q : Program C R P α} {w w' : W}
    {t : List (Event C R W)} (h : Run E p w t q w')
    (hAnswer : ∀ w c r, E'.answer w c r = E.answer w c r)
    (hMoves : ∀ w w', E.Interferes w w' → E'.Interferes w w')
    (hAdmits : ∀ ev ∈ t, E.admits ev.before ev.call ev.reply →
      E'.admits ev.before ev.call ev.reply) : Run E' p w t q w' := by
  induction h with
  | refl p w => exact .refl _ _
  | call hm ha hans _ ih =>
    exact .call (hMoves _ _ hm) (hAdmits _ List.mem_cons_self ha) ((hAnswer _ _ _).trans hans)
      (ih fun ev hev => hAdmits ev (List.mem_cons_of_mem _ hev))
  | iter _ ih => exact .iter (ih hAdmits)

theorem restrict {keep : W → (c : C) → R c → Prop} {p q : Program C R P α} {w w' : W}
    {t : List (Event C R W)} (h : Run E p w t q w')
    (hKeep : ∀ ev ∈ t, keep ev.before ev.call ev.reply) : Run (E.restrict keep) p w t q w' :=
  h.weaken (fun _ _ _ => rfl) (fun _ _ hm => hm) (fun ev hev ha => ⟨ha, hKeep ev hev⟩)

theorem admits {p q : Program C R P α} {w w' : W} {t : List (Event C R W)}
    (h : Run E p w t q w') : ∀ ev ∈ t, E.admits ev.before ev.call ev.reply ∧
      E.answer ev.before ev.call ev.reply = some ev.after := by
  induction h with
  | refl p w => simp
  | call hm ha hans _ ih =>
    intro ev hev
    rcases List.mem_cons.mp hev with rfl | hev
    · exact ⟨ha, hans⟩
    · exact ih ev hev
  | iter _ ih => exact ih

theorem ret_inv {a : α} {w w' : W} {t : List (Event C R W)} {q : Program C R P α}
    (h : Run E (.ret a) w t q w') : t = [] ∧ q = .ret a ∧ w' = w := by
  cases h
  exact ⟨rfl, rfl, rfl⟩

end Run
end

end Interaction
