import AndroidDemo.Interaction.Safety

/-! # Guarantees about histories

An environment can remember every event. A guarantee about the program in the
remembering environment speaks of the whole history at each point.
-/

namespace Interaction

variable {C : Type} {R : C → Type} {P W A : Type} {α β : Type}

/-- The same environment, with the events so far beside the state. -/
def Environment.record (E : Environment C R W A) :
    Environment C R (W × List (Event C R W)) A where
  answer s c r := (E.answer s.1 c r).map fun w => (w, s.2 ++ [⟨s.1, c, r, w⟩])
  admits s c r := E.admits s.1 c r
  interfere s a := (E.interfere s.1 a).map fun w => (w, s.2)

variable {E : Environment C R W A}

theorem Environment.interferes_record {w w' : W} (h : E.Interferes w w')
    (hist : List (Event C R W)) : E.record.Interferes (w, hist) (w', hist) := by
  induction h with
  | refl => exact Environment.Interferes.refl _ _
  | tail _ hMove ih =>
    obtain ⟨a, hMove⟩ := hMove
    exact ih.tail ⟨a, by simp [record, hMove]⟩

theorem Environment.record_interferes {s s' : W × List (Event C R W)}
    (h : E.record.Interferes s s') : E.Interferes s.1 s'.1 ∧ s'.2 = s.2 := by
  induction h with
  | refl => exact ⟨Environment.Interferes.refl _ _, rfl⟩
  | tail _ hMove ih =>
    obtain ⟨a, hMove⟩ := hMove
    simp only [record, Option.map_eq_some_iff] at hMove
    obtain ⟨w, hMove, rfl⟩ := hMove
    exact ⟨ih.1.tail ⟨a, hMove⟩, ih.2⟩

theorem Run.record {p q : Program C R P α} {w w' : W} {t : List (Event C R W)} (h : Run E p w t q w')
    (hist : List (Event C R W)) : ∃ t', Run E.record p (w, hist) t' q (w', hist ++ t) := by
  induction h generalizing hist with
  | refl p w => exact ⟨[], by rw [List.append_nil]; exact .refl _ _⟩
  | @call c next w w₁ w₂ w' r t q hMoves hAdmits hAnswer _ ih =>
    obtain ⟨t', hRest⟩ := ih (hist ++ [⟨w₁, c, r, w₂⟩])
    rw [List.append_assoc, List.singleton_append] at hRest
    exact ⟨_, .call (E.interferes_record hMoves hist) hAdmits
      (by simp [Environment.record, hAnswer]) hRest⟩
  | iter _ ih =>
    obtain ⟨t', hRest⟩ := ih hist
    exact ⟨t', .iter hRest⟩

/-- A run that is remembered is a run, and the memory has its events. -/
theorem Run.of_record {p q : Program C R P α} {s s' : W × List (Event C R W)}
    {t : List (Event C R (W × List (Event C R W)))} (h : Run E.record p s t q s') :
    ∃ t', s'.2 = s.2 ++ t' ∧ Run E p s.1 t' q s'.1 := by
  induction h with
  | refl p s => exact ⟨[], (List.append_nil _).symm, .refl _ _⟩
  | @call c next s s₁ s₂ s' r t q hMoves hAdmits hAnswer _ ih =>
    obtain ⟨w₁, hist₁⟩ := s₁
    obtain ⟨hMoves, hHist⟩ := Environment.record_interferes hMoves
    simp only [Environment.record, Option.map_eq_some_iff] at hAnswer
    obtain ⟨w₂, hAnswer, rfl⟩ := hAnswer
    obtain ⟨t', hEq, hRun⟩ := ih
    refine ⟨⟨w₁, c, r, w₂⟩ :: t', ?_, .call hMoves hAdmits hAnswer hRun⟩
    rw [hEq, ← hHist]
    exact List.append_assoc hist₁ _ t'
  | iter _ ih =>
    obtain ⟨t', hEq, hRun⟩ := ih
    exact ⟨t', hEq, .iter hRun⟩

namespace Safe

theorem point_record {G : Point C P → W × List (Event C R W) → Prop}
    {Q : α → W × List (Event C R W) → Prop} {p q : Program C R P α} {w w' : W}
    {t : List (Event C R W)} (h : Safe E.record G Q p (w, [])) (hRun : Run E p w t q w')
    {x : Point C P} (hx : q.point? = some x) : G x (w', t) := by
  obtain ⟨t', hRun⟩ := hRun.record []
  exact h.point hRun hx

theorem result_record {G : Point C P → W × List (Event C R W) → Prop}
    {Q : α → W × List (Event C R W) → Prop} {p : Program C R P α} {w w' : W}
    {t : List (Event C R W)} {a : α} (h : Safe E.record G Q p (w, []))
    (hRun : Run E p w t (.ret a) w') : Q a (w', t) := by
  obtain ⟨t', hRun⟩ := hRun.record []
  exact h.result hRun

theorem call_record {G : Point C P → W × List (Event C R W) → Prop}
    {Q : α → W × List (Event C R W) → Prop} {c : C} {next : R c → Program C R P α} {w : W}
    {hist : List (Event C R W)} (hAllowed : ∀ w₁, E.Interferes w w₁ → G (.call c) (w₁, hist))
    (h : ∀ w₁ r w₂, E.Interferes w w₁ → E.admits w₁ c r → E.answer w₁ c r = some w₂ →
      Safe E.record G Q (next r) (w₂, hist ++ [⟨w₁, c, r, w₂⟩])) :
    Safe E.record G Q (.call c next) (w, hist) := by
  refine .call ?_ ?_
  · rintro ⟨w₁, hist₁⟩ hMoves
    obtain ⟨hMoves, rfl⟩ := Environment.record_interferes hMoves
    exact hAllowed w₁ hMoves
  · rintro ⟨w₁, hist₁⟩ r s₂ hMoves hAdmits hAnswer
    obtain ⟨hMoves, rfl⟩ := Environment.record_interferes hMoves
    simp only [Environment.record, Option.map_eq_some_iff] at hAnswer
    obtain ⟨w₂, hAnswer, rfl⟩ := hAnswer
    exact h w₁ r w₂ hMoves hAdmits hAnswer

/-- A guarantee holds in the remembering environment as well, and there it
speaks of all events that have been added. -/
theorem record {G : Point C P → W → Prop} {Q : α → W → Prop} {p : Program C R P α} {w : W}
    (h : Safe E G Q p w) (hist : List (Event C R W)) :
    Safe E.record
      (fun x s => G x s.1 ∧ ∃ t, s.2 = hist ++ t ∧ ∀ ev ∈ t, G (.call ev.call) ev.before)
      (fun a s => Q a s.1 ∧ ∃ t, s.2 = hist ++ t ∧ ∀ ev ∈ t, G (.call ev.call) ev.before)
      p (w, hist) := by
  intro t' q s' hRun
  generalize hs : (w, hist) = s at hRun
  induction hRun generalizing w hist with
  | refl p s =>
    subst hs
    obtain ⟨_, hPoint, hResult⟩ := h _ _ _ (.refl _ _)
    exact ⟨by simp, fun x hx => ⟨hPoint x hx, [], by simp⟩, fun a ha => ⟨hResult a ha, [], by simp⟩⟩
  | @call c next s s₁ s₂ s' r t q hMoves hAdmits hAnswer _ ih =>
    subst hs
    obtain ⟨w₁, hist₁⟩ := s₁
    obtain ⟨hMoves, rfl⟩ := Environment.record_interferes hMoves
    simp only [Environment.record, Option.map_eq_some_iff] at hAnswer
    obtain ⟨w₂, hAnswer, rfl⟩ := hAnswer
    have hAllowed := h.allowed hMoves hAdmits hAnswer
    have hBack (s : W × List (Event C R W))
        (hs : ∃ t, s.2 = (hist₁ ++ [⟨w₁, c, r, w₂⟩]) ++ t ∧ ∀ ev ∈ t, G (.call ev.call) ev.before) :
        ∃ t, s.2 = hist₁ ++ t ∧ ∀ ev ∈ t, G (.call ev.call) ev.before := by
      obtain ⟨t, hEq, hAll⟩ := hs
      exact ⟨⟨w₁, c, r, w₂⟩ :: t, by simpa using hEq, List.forall_mem_cons.mpr ⟨hAllowed, hAll⟩⟩
    obtain ⟨hEvents, hPoint, hResult⟩ := ih (h.after_call hMoves hAdmits hAnswer) _ rfl
    refine ⟨?_, fun x hx => ⟨(hPoint x hx).1, hBack _ (hPoint x hx).2⟩,
      fun a ha => ⟨(hResult a ha).1, hBack _ (hResult a ha).2⟩⟩
    intro ev hev
    rcases List.mem_cons.mp hev with rfl | hev
    · exact ⟨hAllowed, [], by simp⟩
    · exact ⟨(hEvents ev hev).1, hBack _ (hEvents ev hev).2⟩
  | iter _ ih => exact ih h.after_unroll _ hs

end Safe

/-! ## Runs that end -/

namespace Total

theorem call_record {G : Point C P → W × List (Event C R W) → Prop}
    {Q : α → W × List (Event C R W) → Prop} {c : C} {next : R c → Program C R P α} {w : W}
    {hist : List (Event C R W)} (hAllowed : ∀ w₁, E.Interferes w w₁ → G (.call c) (w₁, hist))
    (h : ∀ w₁ r w₂, E.Interferes w w₁ → E.admits w₁ c r → E.answer w₁ c r = some w₂ →
      Total E.record G Q (next r) (w₂, hist ++ [⟨w₁, c, r, w₂⟩])) :
    Total E.record G Q (.call c next) (w, hist) := by
  refine .call ?_ ?_
  · rintro ⟨w₁, hist₁⟩ hMoves
    obtain ⟨hMoves, rfl⟩ := Environment.record_interferes hMoves
    exact hAllowed w₁ hMoves
  · rintro ⟨w₁, hist₁⟩ r s₂ hMoves hAdmits hAnswer
    obtain ⟨hMoves, rfl⟩ := Environment.record_interferes hMoves
    simp only [Environment.record, Option.map_eq_some_iff] at hAnswer
    obtain ⟨w₂, hAnswer, rfl⟩ := hAnswer
    exact h w₁ r w₂ hMoves hAdmits hAnswer

/-- What ends in the remembering environment ends without the memory. -/
theorem of_record {G : Point C P → W → Prop} {Q : α → W → Prop} {p : Program C R P α} {w : W}
    {hist : List (Event C R W)}
    (h : Total E.record (fun x s => G x s.1) (fun a s => Q a s.1) p (w, hist)) :
    Total E G Q p w := by
  generalize hs : (w, hist) = s at h
  induction h generalizing w hist with
  | ret h =>
    subst hs
    exact .ret h
  | call hAllowed _ ih =>
    subst hs
    refine .call (fun w₁ hMoves => hAllowed _ (E.interferes_record hMoves hist))
      fun w₁ r w₂ hMoves hAdmits hAnswer => ?_
    exact ih (w₁, hist) r (w₂, hist ++ [⟨w₁, _, r, w₂⟩]) (E.interferes_record hMoves hist) hAdmits
      (by simp [Environment.record, hAnswer]) rfl
  | iter hHead _ ih =>
    subst hs
    exact .iter hHead (ih rfl)
  | undefined h =>
    subst hs
    exact .undefined h

end Total

end Interaction
