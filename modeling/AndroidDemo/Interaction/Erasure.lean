import AndroidDemo.Interaction.Calls

/-! # Erasing calls that a program repeats

Some answers change nothing and make the program issue the same call again. A
run without these events is a run as well, and leads to the same place.
-/

namespace Interaction

variable {C : Type} {R : C → Type} {P W A : Type} {α β σ : Type}

/-- `q` is reached from `p` by opening loops, without a call. -/
inductive Program.Unrolls {α : Type} : Program C R P α → Program C R P α → Prop
  | refl (p : Program C R P α) : Unrolls p p
  | iter {β σ : Type} {point : σ → P} {body : σ → Program C R P (σ ⊕ β)} {s : σ}
      {next : β → Program C R P α} {q : Program C R P α}
      (h : Unrolls (Program.unroll point body s next) q) : Unrolls (.iter point body s next) q

namespace Program.Unrolls

theorem bind {p q : Program C R P α} (h : p.Unrolls q) (f : α → Program C R P β) :
    (p.bind f).Unrolls (q.bind f) := by
  induction h with
  | refl p => exact .refl _
  | iter _ ih =>
    refine .iter ?_
    rw [← unroll_bind]
    exact ih

theorem ret_inv {a : α} {q : Program C R P α} (h : (ret a : Program C R P α).Unrolls q) :
    q = .ret a := by
  cases h
  rfl

end Program.Unrolls

def erase (drop : (c : C) → R c → Bool) (t : List (Event C R W)) : List (Event C R W) :=
  t.filter fun ev => !drop ev.call ev.reply

/-- An answer `r` to the call in `.call c next` either is dropped and leads back
to the call, or leads into `I`. -/
def Repeated (drop : (c : C) → R c → Bool) (I : Program C R P α → Prop) (c : C)
    (next : R c → Program C R P α) (r : R c) : Prop :=
  drop c r = true ∧ (next r).Unrolls (.call c next) ∨ drop c r = false ∧ I (next r)

theorem Repeated.mono {drop : (c : C) → R c → Bool} {I I' : Program C R P α → Prop} {c : C}
    {next : R c → Program C R P α} {r : R c} (h : Repeated drop I c next r)
    (hI : I (next r) → I' (next r)) : Repeated drop I' c next r :=
  h.imp_right (And.imp_right hI)

theorem Repeated.bind {drop : (c : C) → R c → Bool} {I : Program C R P α → Prop}
    {J : Program C R P β → Prop} {c : C} {next : R c → Program C R P α} {r : R c}
    (h : Repeated drop I c next r) {f : α → Program C R P β} (hI : ∀ p, I p → J (p.bind f)) :
    Repeated drop J c (fun r => (next r).bind f) r :=
  h.imp (And.imp_right fun hBack => hBack.bind f) (And.imp_right fun hNext => hI _ hNext)

/-- A set of programs that is closed under steps, but for dropped answers. -/
structure ClosedUnder (E : Environment C R W A) (drop : (c : C) → R c → Bool)
    (I : Program C R P α → Prop) : Prop where
  call : ∀ c next, I (.call c next) → ∀ w r, E.admits w c r → Repeated drop I c next r
  iter : ∀ (β σ : Type) (point : σ → P) (body : σ → Program C R P (σ ⊕ β)) (s : σ)
    (next : β → Program C R P α), I (.iter point body s next) → I (Program.unroll point body s next)

/-- From here on every dropped answer makes the program issue the call again. -/
def Repeats (E : Environment C R W A) (drop : (c : C) → R c → Bool) (p : Program C R P α) : Prop :=
  ∃ I : Program C R P α → Prop, ClosedUnder E drop I ∧ I p

variable {E : Environment C R W A} {drop : (c : C) → R c → Bool}

theorem Run.absorb {p q : Program C R P α} {w w₁ w' : W} {t : List (Event C R W)}
    (hMoves : E.Interferes w w₁) (h : Run E p w₁ t q w') :
    ∃ w₀, Run E p w t q w₀ ∧ E.Interferes w₀ w' := by
  induction h with
  | refl p w₁ => exact ⟨w, .refl _ _, hMoves⟩
  | @call _ _ _ _ _ w' _ _ _ hMoves' hAdmits hAnswer hRest _ =>
    exact ⟨w', .call (hMoves.trans hMoves') hAdmits hAnswer hRest, Environment.Interferes.refl E w'⟩
  | iter _ ih =>
    obtain ⟨w₀, hRun, hAfter⟩ := ih hMoves
    exact ⟨w₀, .iter hRun, hAfter⟩

namespace Repeats

theorem step_call {c : C} {next : R c → Program C R P α} (h : Repeats E drop (.call c next)) {w : W}
    {r : R c} (hAdmits : E.admits w c r) : Repeated drop (Repeats E drop) c next r := by
  obtain ⟨I, hClosed, hI⟩ := h
  exact (hClosed.call c next hI w r hAdmits).mono fun hNext => ⟨I, hClosed, hNext⟩

theorem step_iter {point : σ → P} {body : σ → Program C R P (σ ⊕ β)} {s : σ}
    {next : β → Program C R P α} (h : Repeats E drop (.iter point body s next)) :
    Repeats E drop (Program.unroll point body s next) := by
  obtain ⟨I, hClosed, hI⟩ := h
  exact ⟨I, hClosed, hClosed.iter β σ point body s next hI⟩

theorem of_calls {φ : C → Prop} (hφ : ∀ c r w, φ c → E.admits w c r → drop c r = false)
    {p : Program C R P α} (h : p.Calls φ) : Repeats E drop p :=
  ⟨Program.Calls φ, ⟨fun c _ hI w r hAdmits => .inr ⟨hφ c r w hI.1 hAdmits, hI.2 r⟩,
    fun _ _ _ _ _ _ hI => hI.unroll⟩, h⟩

theorem ret (a : α) : Repeats E drop (.ret a : Program C R P α) :=
  of_calls (φ := fun _ => False) (fun _ _ _ h => h.elim) trivial

theorem undefined (p : P) : Repeats E drop (.undefined p : Program C R P α) :=
  of_calls (φ := fun _ => False) (fun _ _ _ h => h.elim) trivial

theorem call {c : C} {next : R c → Program C R P α}
    (hDrop : ∀ w r, E.admits w c r → drop c r = false) (h : ∀ r, Repeats E drop (next r)) :
    Repeats E drop (.call c next) := by
  refine ⟨fun p => p = .call c next ∨ Repeats E drop p, ⟨?_, ?_⟩, .inl rfl⟩
  · rintro c' next' (hEq | hI) w r hAdmits
    · cases hEq
      exact .inr ⟨hDrop w r hAdmits, .inr (h r)⟩
    · exact (hI.step_call hAdmits).mono .inr
  · rintro β σ point body s next' (hEq | hI)
    · cases hEq
    · exact .inr hI.step_iter

theorem bind {p : Program C R P α} (h : Repeats E drop p) {f : α → Program C R P β}
    (hf : ∀ a, Repeats E drop (f a)) : Repeats E drop (p.bind f) := by
  refine ⟨fun x => (∃ p, Repeats E drop p ∧ x = p.bind f) ∨ Repeats E drop x, ⟨?_, ?_⟩,
    .inl ⟨p, h, rfl⟩⟩
  · rintro c next (⟨p, hp, hEq⟩ | hI) w r hAdmits
    · cases p with
      | ret a =>
        have hEq : f a = .call c next := hEq.symm
        exact ((hEq ▸ hf a).step_call hAdmits).mono .inr
      | call c' next' =>
        cases hEq
        exact (hp.step_call hAdmits).bind fun p hp => .inl ⟨p, hp, rfl⟩
      | iter point body s next' => cases hEq
      | undefined p => cases hEq
    · exact (hI.step_call hAdmits).mono .inr
  · rintro β' σ' point body s next (⟨p, hp, hEq⟩ | hI)
    · cases p with
      | ret a =>
        have hEq : f a = .iter point body s next := hEq.symm
        exact .inr (hEq ▸ hf a).step_iter
      | call c next' => cases hEq
      | iter point' body' s' next' =>
        cases hEq
        exact .inl ⟨_, hp.step_iter, (Program.unroll_bind _ _ _ _ _).symm⟩
      | undefined p => cases hEq
    · exact .inr hI.step_iter

/-- A turn of a loop in state `s`: either it repeats its calls by itself, or it
starts with a call whose dropped answers end the turn in the same state. -/
inductive Turn (E : Environment C R W A) (drop : (c : C) → R c → Bool) (s : σ) :
    Program C R P (σ ⊕ β) → Prop
  | inner {p : Program C R P (σ ⊕ β)} (h : Repeats E drop p) : Turn E drop s p
  | again {c : C} {next : R c → Program C R P (σ ⊕ β)}
      (h : ∀ w r, E.admits w c r → drop c r = true ∧ next r = .ret (.inl s) ∨
        drop c r = false ∧ Repeats E drop (next r)) : Turn E drop s (.call c next)

theorem iter {point : σ → P} {body : σ → Program C R P (σ ⊕ β)} {next : β → Program C R P α}
    (hTurn : ∀ s, Turn E drop s (body s)) (hNext : ∀ b, Repeats E drop (next b)) (s : σ) :
    Repeats E drop (.iter point body s next) := by
  let rest := Sum.elim (fun s => Program.iter point body s next) next
  -- the loop stands behind the rest `p` of a turn, or behind a turn that has not begun
  refine ⟨fun x => (∃ p, (Repeats E drop p ∨ ∃ s, p = body s) ∧ x = p.bind rest) ∨
    Repeats E drop x, ⟨?_, ?_⟩, .inl ⟨.ret (.inl s), .inl (.ret _), rfl⟩⟩
  · rintro c next' (⟨p, hp, hEq⟩ | hI) w r hAdmits
    · cases p with
      | ret turn =>
        cases turn with
        | inl s => cases hEq
        | inr b =>
          have hEq : next b = .call c next' := hEq.symm
          exact ((hEq ▸ hNext b).step_call hAdmits).mono .inr
      | call c' next'' =>
        cases hEq
        have hInner (hp : Repeats E drop (.call c next'')) :=
          (hp.step_call hAdmits).bind (f := rest)
            (J := fun x => (∃ p, (Repeats E drop p ∨ ∃ s, p = body s) ∧ x = p.bind rest) ∨
              Repeats E drop x) fun p hp => .inl ⟨p, .inl hp, rfl⟩
        rcases hp with hp | ⟨s, hs⟩
        · exact hInner hp
        · have hBody := hTurn s
          rw [← hs] at hBody
          cases hBody with
          | inner hp => exact hInner hp
          | again hAgain =>
            rcases hAgain w r hAdmits with ⟨hDrop, hBack⟩ | ⟨hKeep, hp⟩
            · refine .inl ⟨hDrop, ?_⟩
              dsimp only
              rw [hBack]
              refine .iter ?_
              rw [Program.unroll, ← hs]
              exact .refl _
            · exact .inr ⟨hKeep, .inl ⟨_, .inl hp, rfl⟩⟩
      | iter point' body' s' next'' => cases hEq
      | undefined p => cases hEq
    · exact (hI.step_call hAdmits).mono .inr
  · rintro β' σ' point' body' s' next' (⟨p, hp, hEq⟩ | hI)
    · cases p with
      | ret turn =>
        cases turn with
        | inl s =>
          cases hEq
          exact .inl ⟨_, .inr ⟨_, rfl⟩, rfl⟩
        | inr b =>
          have hEq : next b = .iter point' body' s' next' := hEq.symm
          exact .inr (hEq ▸ hNext b).step_iter
      | call c next'' => cases hEq
      | iter point'' body'' s'' next'' =>
        have hp : Repeats E drop (.iter point'' body'' s'' next'') := by
          rcases hp with hp | ⟨s, hs⟩
          · exact hp
          · have hBody := hTurn s
            rw [← hs] at hBody
            cases hBody with
            | inner hp => exact hp
        cases hEq
        exact .inl ⟨_, .inl hp.step_iter, (Program.unroll_bind _ _ _ _ _).symm⟩
      | undefined p => cases hEq
    · exact .inr hI.step_iter

theorem loop {point : σ → P} {body : σ → Program C R P (σ ⊕ β)}
    (hTurn : ∀ s, Turn E drop s (body s)) (s : σ) : Repeats E drop (Program.loop point body s) :=
  iter hTurn (fun _ => .ret _) s

theorem compositional (E : Environment C R W A) (drop : (c : C) → R c → Bool) :
    Program.Compositional (fun c => ∀ w r, E.admits w c r → drop c r = false)
      fun α (p : Program C R P α) => Repeats E drop p where
  ret := ret
  undefined := undefined
  call hc hNext := .call hc hNext
  bind hp hf := hp.bind hf
  loop hBody s := loop (fun s => .inner (hBody s)) s

/-- The run without the dropped events. It may stop before moves that stand at
the end, and where it stops the loops may already be opened. -/
theorem erase_run (hStay : ∀ w c r w', drop c r = true → E.answer w c r = some w' → w' = w)
    {p q : Program C R P α} (h : Repeats E drop p) {w w' : W} {t : List (Event C R W)}
    (hRun : Run E p w t q w') :
    ∃ q' w₀, Run E p w (erase drop t) q' w₀ ∧ E.Interferes w₀ w' ∧ q.Unrolls q' := by
  suffices hAll : ∀ x : Program C R P α, Repeats E drop x → p.Unrolls x →
      ∃ q' w₀, Run E x w (erase drop t) q' w₀ ∧ E.Interferes w₀ w' ∧ q.Unrolls q' from
    hAll p h (.refl p)
  clear h
  induction hRun with
  | refl p w => exact fun x _ hx => ⟨x, w, .refl _ _, Environment.Interferes.refl E w, hx⟩
  | @call c next w w₁ w₂ w' r t q hMoves hAdmits hAnswer _ ih =>
    intro x hRepeats hx
    cases hx
    rcases hRepeats.step_call hAdmits with ⟨hDrop, hStep⟩ | ⟨hKeep, hStep⟩
    · cases hStay _ _ _ _ hDrop hAnswer
      obtain ⟨q', w₀, hRun, hAfter, hq⟩ := ih _ hRepeats hStep
      obtain ⟨w₀', hRun, hBefore⟩ := hRun.absorb hMoves
      refine ⟨q', w₀', ?_, hBefore.trans hAfter, hq⟩
      rwa [erase, List.filter_cons_of_neg (by simp [hDrop])]
    · obtain ⟨q', w₀, hRun, hAfter, hq⟩ := ih _ hStep (.refl _)
      refine ⟨q', w₀, ?_, hAfter, hq⟩
      rw [erase, List.filter_cons_of_pos (by simpa using hKeep)]
      exact .call hMoves hAdmits hAnswer hRun
  | iter _ ih =>
    intro x hRepeats hx
    cases hx with
    | refl =>
      obtain ⟨q', w₀, hRun, hAfter, hq⟩ := ih _ hRepeats.step_iter (.refl _)
      exact ⟨q', w₀, .iter hRun, hAfter, hq⟩
    | iter hx => exact ih x hRepeats hx

end Repeats

end Interaction
