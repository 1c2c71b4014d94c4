import AndroidDemo.Interaction.Calls

/-! # Guarantees of interactive programs

`Safe` speaks of every run, finite or not: each call is issued in a state where
it is allowed, each loop head is met in a state where its observation holds, and
a returned value satisfies the postcondition. `Total` adds that every run ends.
-/

namespace Interaction

variable {C : Type} {R : C → Type} {P W A : Type} {α β γ σ : Type}

/-- `Safe E G Q p w`: whatever the environment does, `G` holds at every point
the program reaches from `w`, and `Q` holds of its result. -/
def Safe (E : Environment C R W A) (G : Point C P → W → Prop) (Q : α → W → Prop)
    (p : Program C R P α) (w : W) : Prop :=
  ∀ t q w', Run E p w t q w' →
    (∀ ev ∈ t, G (.call ev.call) ev.before) ∧ (∀ x, q.point? = some x → G x w') ∧
      ∀ a, q = .ret a → Q a w'

/-- As `Safe`, and the program issues finitely many calls in every run. -/
inductive Total (E : Environment C R W A) (G : Point C P → W → Prop) {α : Type}
    (Q : α → W → Prop) : Program C R P α → W → Prop
  | ret {a : α} {w : W} (h : Q a w) : Total E G Q (.ret a) w
  | call {c : C} {next : R c → Program C R P α} {w : W}
      (hAllowed : ∀ w₁, E.Interferes w w₁ → G (.call c) w₁)
      (h : ∀ w₁ r w₂, E.Interferes w w₁ → E.admits w₁ c r → E.answer w₁ c r = some w₂ →
        Total E G Q (next r) w₂) : Total E G Q (.call c next) w
  | iter {β σ : Type} {point : σ → P} {body : σ → Program C R P (σ ⊕ β)} {s : σ}
      {next : β → Program C R P α} {w : W} (hHead : G (.loop (point s)) w)
      (h : Total E G Q (Program.unroll point body s next) w) :
      Total E G Q (.iter point body s next) w
  | undefined {x : P} {w : W} (h : G (.undefined x) w) : Total E G Q (.undefined x) w

variable {E : Environment C R W A} {G : Point C P → W → Prop}

namespace Safe

variable {Q : α → W → Prop} {p : Program C R P α} {w : W}

theorem result (h : Safe E G Q p w) {t : List (Event C R W)} {a : α} {w' : W}
    (hRun : Run E p w t (.ret a) w') : Q a w' :=
  (h t _ w' hRun).2.2 a rfl

theorem event (h : Safe E G Q p w) {t : List (Event C R W)} {q : Program C R P α} {w' : W}
    (hRun : Run E p w t q w') {ev : Event C R W} (hev : ev ∈ t) : G (.call ev.call) ev.before :=
  (h t q w' hRun).1 ev hev

theorem point (h : Safe E G Q p w) {t : List (Event C R W)} {q : Program C R P α} {w' : W}
    (hRun : Run E p w t q w') {x : Point C P} (hx : q.point? = some x) : G x w' :=
  (h t q w' hRun).2.1 x hx

theorem always {I : W → Prop} (h : Safe E (fun _ => I) (fun _ => I) p w) {t : List (Event C R W)}
    {q : Program C R P α} {w' : W} (hRun : Run E p w t q w') : I w' := by
  cases hx : q.point? with
  | some x => exact h.point hRun hx
  | none =>
    obtain ⟨a, rfl⟩ := Program.eq_ret_of_point? hx
    exact h.result hRun

theorem ret {a : α} (h : Q a w) : Safe E G Q (.ret a) w := by
  intro t q w' hRun
  obtain ⟨rfl, rfl, rfl⟩ := hRun.ret_inv
  refine ⟨by simp, by simp [Program.point?], ?_⟩
  rintro b ⟨⟩
  exact h

theorem call {c : C} {next : R c → Program C R P α}
    (hAllowed : ∀ w₁, E.Interferes w w₁ → G (.call c) w₁)
    (h : ∀ w₁ r w₂, E.Interferes w w₁ → E.admits w₁ c r → E.answer w₁ c r = some w₂ →
      Safe E G Q (next r) w₂) : Safe E G Q (.call c next) w := by
  intro t q w' hRun
  cases hRun with
  | refl =>
    refine ⟨by simp, ?_, by simp⟩
    rintro x ⟨⟩
    exact hAllowed _ (Environment.Interferes.refl E w)
  | call hMoves hAdmits hAnswer hRest =>
    obtain ⟨hEvents, hPoint, hResult⟩ := h _ _ _ hMoves hAdmits hAnswer _ _ _ hRest
    refine ⟨?_, hPoint, hResult⟩
    intro ev hev
    rcases List.mem_cons.mp hev with rfl | hev
    · exact hAllowed _ hMoves
    · exact hEvents ev hev

theorem undefined {x : P} (h : G (.undefined x) w) :
    Safe E G Q (.undefined x : Program C R P α) w := by
  intro t q w' hRun
  cases hRun
  refine ⟨by simp, ?_, by simp⟩
  rintro x ⟨⟩
  exact h

theorem after_call {c : C} {next : R c → Program C R P α} (h : Safe E G Q (.call c next) w)
    {w₁ w₂ : W} {r : R c} (hMoves : E.Interferes w w₁) (hAdmits : E.admits w₁ c r)
    (hAnswer : E.answer w₁ c r = some w₂) : Safe E G Q (next r) w₂ := by
  intro t q w' hRun
  obtain ⟨hEvents, hRest⟩ := h _ _ _ (.call hMoves hAdmits hAnswer hRun)
  exact ⟨fun ev hev => hEvents ev (List.mem_cons_of_mem _ hev), hRest⟩

theorem after_unroll {point : σ → P} {body : σ → Program C R P (σ ⊕ β)} {s : σ}
    {next : β → Program C R P α} (h : Safe E G Q (.iter point body s next) w) :
    Safe E G Q (Program.unroll point body s next) w :=
  fun t q w' hRun => h t q w' (.iter hRun)

theorem allowed {c : C} {next : R c → Program C R P α} (h : Safe E G Q (.call c next) w)
    {w₁ w₂ : W} {r : R c} (hMoves : E.Interferes w w₁) (hAdmits : E.admits w₁ c r)
    (hAnswer : E.answer w₁ c r = some w₂) : G (.call c) w₁ :=
  (h _ _ _ (.call hMoves hAdmits hAnswer (.refl _ _))).1 _ List.mem_cons_self

theorem mono {G' : Point C P → W → Prop} {Q' : α → W → Prop} (h : Safe E G Q p w)
    (hG : ∀ x w, G x w → G' x w) (hQ : ∀ a w, Q a w → Q' a w) : Safe E G' Q' p w := by
  intro t q w' hRun
  obtain ⟨hEvents, hPoint, hResult⟩ := h t q w' hRun
  exact ⟨fun ev hev => hG _ _ (hEvents ev hev), fun x hx => hG _ _ (hPoint x hx),
    fun a ha => hQ _ _ (hResult a ha)⟩

theorem and {G' : Point C P → W → Prop} {Q' : α → W → Prop} (h : Safe E G Q p w)
    (h' : Safe E G' Q' p w) :
    Safe E (fun x w => G x w ∧ G' x w) (fun a w => Q a w ∧ Q' a w) p w := by
  intro t q w' hRun
  obtain ⟨hEvents, hPoint, hResult⟩ := h t q w' hRun
  obtain ⟨hEvents', hPoint', hResult'⟩ := h' t q w' hRun
  exact ⟨fun ev hev => ⟨hEvents ev hev, hEvents' ev hev⟩, fun x hx => ⟨hPoint x hx, hPoint' x hx⟩,
    fun a ha => ⟨hResult a ha, hResult' a ha⟩⟩

/-- Postconditions may be shown one at a time. -/
theorem forall_post {ι : Sort*} {Q : ι → α → W → Prop} {Q' : α → W → Prop} (h : Safe E G Q' p w)
    (hEach : ∀ i, Safe E (fun _ _ => True) (Q i) p w) :
    Safe E G (fun a w => Q' a w ∧ ∀ i, Q i a w) p w := by
  intro t q w' hRun
  obtain ⟨hEvents, hPoint, hResult⟩ := h t q w' hRun
  exact ⟨hEvents, hPoint, fun a ha => ⟨hResult a ha, fun i => (hEach i t q w' hRun).2.2 a ha⟩⟩

theorem of_calls {φ : C → Prop} (h : p.Calls φ) :
    Safe E (fun x _ => ∀ c, x = .call c → φ c) (fun _ _ => True) p w := by
  intro t q w' hRun
  obtain ⟨hEvents, hRest⟩ := h.run hRun
  refine ⟨?_, ?_, fun _ _ => trivial⟩
  · rintro ev hev c ⟨⟩
    exact hEvents ev hev
  · rintro x hx c rfl
    cases q with
    | call c' next =>
      cases hx
      exact hRest.1
    | ret a => cases hx
    | iter point body s next => cases hx
    | undefined p => cases hx

/-- What every answer and every move of the others keeps, every program keeps. -/
theorem of_kept {I : W → Prop} (hMoves : ∀ w w', I w → E.Interferes w w' → I w')
    (hAnswer : ∀ w c r w', I w → E.answer w c r = some w' → I w') (h : I w) :
    Safe E (fun _ => I) (fun _ => I) p w := by
  intro t q w' hRun
  induction hRun with
  | refl p w => exact ⟨by simp, fun _ _ => h, fun _ _ => h⟩
  | call hMove _ hReply _ ih =>
    have hBefore := hMoves _ _ h hMove
    obtain ⟨hEvents, hRest⟩ := ih (hAnswer _ _ _ _ hBefore hReply)
    exact ⟨List.forall_mem_cons.mpr ⟨hBefore, hEvents⟩, hRest⟩
  | iter _ ih => exact ih h

theorem bind {S : β → W → Prop} {f : α → Program C R P β} (h : Safe E G Q p w)
    (hf : ∀ a w', Q a w' → Safe E G S (f a) w') : Safe E G S (p.bind f) w := by
  intro t q w' hRun
  rcases hRun.bind_cases with ⟨p', hp', rfl⟩ | ⟨a, t₁, t₂, w₁, rfl, h₁, h₂⟩
  · obtain ⟨hEvents, hPoint, hResult⟩ := h _ _ _ hp'
    cases p' with
    | ret a => exact ⟨hEvents, (hf a w' (hResult a rfl) _ _ _ (.refl _ _)).2⟩
    | call c next => exact ⟨hEvents, hPoint, by simp⟩
    | iter point body s next =>
      refine ⟨hEvents, hPoint, ?_⟩
      rintro a ⟨⟩
    | undefined p => exact ⟨hEvents, hPoint, by simp⟩
  · obtain ⟨hEvents, _, hResult⟩ := h _ _ _ h₁
    obtain ⟨hEvents', hRest⟩ := hf a w₁ (hResult a rfl) _ _ _ h₂
    refine ⟨?_, hRest⟩
    intro ev hev
    rcases List.mem_append.mp hev with hev | hev
    · exact hEvents ev hev
    · exact hEvents' ev hev

/-- The induction behind `Safe.iter`, on the run: `p` is what is left of the
current turn and the loop stands behind it. -/
theorem turn {I : σ → W → Prop} {B : β → W → Prop} {point : σ → P}
    {body : σ → Program C R P (σ ⊕ β)} {next : β → Program C R P α}
    (hTurn : ∀ s w, I s w → G (.loop (point s)) w ∧ Safe E G (Sum.elim I B) (body s) w)
    (hNext : ∀ b w, B b w → Safe E G Q (next b) w) {p : Program C R P (σ ⊕ β)}
    (h : Safe E G (Sum.elim I B) p w) :
    Safe E G Q (p.bind (Sum.elim (fun s => .iter point body s next) next)) w := by
  intro t q w' hRun
  generalize hx : p.bind (Sum.elim (fun s => .iter point body s next) next) = x at hRun
  induction hRun generalizing p with
  | refl x w =>
    subst hx
    obtain ⟨_, hPoint, hResult⟩ := h _ _ _ (.refl _ _)
    cases p with
    | ret turn =>
      cases turn with
      | inl s =>
        refine ⟨by simp, ?_, by rintro a ⟨⟩⟩
        rintro x ⟨⟩
        exact (hTurn s w (hResult _ rfl)).1
      | inr b => exact hNext b w (hResult _ rfl) _ _ _ (.refl _ _)
    | call c next => exact ⟨by simp, hPoint, by simp⟩
    | iter point body s next =>
      refine ⟨by simp, hPoint, ?_⟩
      rintro a ⟨⟩
    | undefined p => exact ⟨by simp, hPoint, by simp⟩
  | @call c next' w w₁ w₂ w' r t q hMoves hAdmits hAnswer hRest ih =>
    cases p with
    | ret turn =>
      have hResult := h.result (.refl _ _)
      cases turn with
      | inl s => cases hx
      | inr b =>
        have hx : next b = .call c next' := hx
        exact hNext b w hResult _ _ _ (hx ▸ .call hMoves hAdmits hAnswer hRest)
    | call c' next'' =>
      cases hx
      obtain ⟨hEvents, hRest⟩ := ih (h.after_call hMoves hAdmits hAnswer) rfl
      refine ⟨?_, hRest⟩
      intro ev hev
      rcases List.mem_cons.mp hev with rfl | hev
      · exact h.allowed hMoves hAdmits hAnswer
      · exact hEvents ev hev
    | iter point' body' s' next'' => cases hx
    | undefined p => cases hx
  | @iter β' σ' point' body' s' next' w w' t q hRest ih =>
    cases p with
    | ret turn =>
      have hResult := h.result (.refl _ _)
      cases turn with
      | inl s =>
        cases hx
        exact ih (hTurn s w hResult).2 rfl
      | inr b =>
        have hx : next b = .iter point' body' s' next' := hx
        exact hNext b w hResult _ _ _ (hx ▸ .iter hRest)
    | call c' next'' => cases hx
    | iter point'' body'' s'' next'' =>
      cases hx
      exact ih h.after_unroll (Program.unroll_bind _ _ _ _ _)
    | undefined p => cases hx

/-- A loop is safe when its invariant `I` holds initially and every turn keeps it. -/
theorem iter {I : σ → W → Prop} {B : β → W → Prop} {point : σ → P}
    {body : σ → Program C R P (σ ⊕ β)} {s : σ} {next : β → Program C R P α} (hInit : I s w)
    (hTurn : ∀ s w, I s w → G (.loop (point s)) w ∧ Safe E G (Sum.elim I B) (body s) w)
    (hNext : ∀ b w, B b w → Safe E G Q (next b) w) :
    Safe E G Q (.iter point body s next) w :=
  turn hTurn hNext (p := .ret (.inl s)) (.ret hInit)

theorem loop {I : σ → W → Prop} {B : β → W → Prop} {point : σ → P}
    {body : σ → Program C R P (σ ⊕ β)} {s : σ} (hInit : I s w)
    (hTurn : ∀ s w, I s w → G (.loop (point s)) w ∧ Safe E G (Sum.elim I B) (body s) w) :
    Safe E G B (Program.loop point body s) w :=
  iter hInit hTurn fun _ _ hb => .ret hb

end Safe

namespace Total

variable {Q : α → W → Prop} {p : Program C R P α} {w : W}

theorem safe (h : Total E G Q p w) : Safe E G Q p w := by
  induction h with
  | ret h => exact .ret h
  | call hAllowed _ ih => exact .call hAllowed ih
  | iter hHead _ ih =>
    intro t q w' hRun
    cases hRun with
    | refl =>
      refine ⟨by simp, ?_, by simp⟩
      rintro x ⟨⟩
      exact hHead
    | iter hRest => exact ih _ _ _ hRest
  | undefined h => exact .undefined h

theorem mono {G' : Point C P → W → Prop} {Q' : α → W → Prop} (h : Total E G Q p w)
    (hG : ∀ x w, G x w → G' x w) (hQ : ∀ a w, Q a w → Q' a w) : Total E G' Q' p w := by
  induction h with
  | ret h => exact .ret (hQ _ _ h)
  | call hAllowed _ ih => exact .call (fun w₁ hm => hG _ _ (hAllowed w₁ hm)) ih
  | iter hHead _ ih => exact .iter (hG _ _ hHead) ih
  | undefined h => exact .undefined (hG _ _ h)

/-- The result of a program that ends, from all runs that return. -/
theorem of_runs {S : α → W → Prop} (h : Total E G Q p w)
    (hRuns : ∀ t a w', Run E p w t (.ret a) w' → S a w') : Total E G S p w := by
  induction h with
  | ret h => exact .ret (hRuns _ _ _ (.refl _ _))
  | call hAllowed _ ih =>
    refine .call hAllowed fun w₁ r w₂ hMoves hAdmits hAnswer => ?_
    exact ih w₁ r w₂ hMoves hAdmits hAnswer fun t a w' hRun =>
      hRuns _ a w' (.call hMoves hAdmits hAnswer hRun)
  | iter hHead _ ih => exact .iter hHead (ih fun t a w' hRun => hRuns t a w' (.iter hRun))
  | undefined h => exact .undefined h

theorem bind {S : β → W → Prop} {f : α → Program C R P β} (h : Total E G Q p w)
    (hf : ∀ a w', Q a w' → Total E G S (f a) w') : Total E G S (p.bind f) w := by
  induction h with
  | ret h => exact hf _ _ h
  | call hAllowed _ ih => exact .call hAllowed ih
  | iter hHead _ ih =>
    refine .iter hHead ?_
    rw [← Program.unroll_bind]
    exact ih
  | undefined h => exact .undefined h

theorem loop {I : σ → W → Prop} {B : β → W → Prop} {point : σ → P}
    {body : σ → Program C R P (σ ⊕ β)} (measure : σ → Nat)
    (hTurn : ∀ s w, I s w → G (.loop (point s)) w ∧
      Total E G (Sum.elim (fun s' w' => I s' w' ∧ measure s' < measure s) B) (body s) w)
    (s : σ) (w : W) (hInit : I s w) : Total E G B (Program.loop point body s) w := by
  induction hm : measure s using Nat.strongRecOn generalizing s w with
  | ind n ih =>
    obtain ⟨hHead, hBody⟩ := hTurn s w hInit
    refine .iter hHead (hBody.bind ?_)
    rintro (s' | b) w' h
    · exact ih _ (hm ▸ h.2) s' w' h.1 rfl
    · exact .ret h

end Total

end Interaction
