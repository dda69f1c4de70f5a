import Mathlib.Data.List.Forall2

set_option autoImplicit false

/-! # Computations that can fail

A sequence of computations succeeds iff each of them does (`Outcome.bind_eq_ok_iff`); what each step
of a loop preserves holds at its end (`Outcome.foldlM_induction`). -/

namespace RuleMatching.Outcome

variable {ε α β : Type}

theorem bind_eq_ok_iff {x : Except ε α} {f : α → Except ε β} {b : β} :
    (x >>= f) = .ok b ↔ ∃ a, x = .ok a ∧ f a = .ok b := by
  cases x with
  | error err =>
      constructor
      · intro h
        cases h
      · rintro ⟨_, h, _⟩
        cases h
  | ok a =>
      constructor
      · intro h
        exact ⟨a, rfl, h⟩
      · rintro ⟨_, h, hf⟩
        cases h
        exact hf

theorem bind_eq_error_iff {x : Except ε α} {f : α → Except ε β} {err : ε} :
    (x >>= f) = .error err ↔ x = .error err ∨ ∃ a, x = .ok a ∧ f a = .error err := by
  cases x with
  | error err' =>
      exact ⟨fun h => Or.inl (by cases h; rfl), fun h => h.elim (fun h => by cases h; rfl) fun ⟨_,
        h, _⟩ => nomatch h⟩
  | ok a => exact ⟨fun h => Or.inr ⟨a, rfl, h⟩, fun h => h.elim (fun h => nomatch h)
      fun ⟨_, h, hf⟩ => by cases h; exact hf⟩

theorem pure_eq_ok_iff {a b : α} : (pure a : Except ε α) = .ok b ↔ b = a := by
  constructor
  · intro h
    cases h
    rfl
  · rintro rfl
    rfl

theorem map_eq_error_iff {x : Except ε α} {f : α → β} {err : ε} :
    x.map f = .error err ↔ x = .error err := by
  cases x with
  | error err' => exact ⟨fun h => by cases h; rfl, fun h => by cases h; rfl⟩
  | ok a => exact ⟨fun h => (nomatch h), fun h => (nomatch h)⟩

/-- A list of computations succeeds as a whole, or the first of them that fails tells why. -/
theorem mapM_cases (f : α → Except ε β) (l : List α) :
    (∃ bs, l.mapM f = .ok bs ∧ ∀ a ∈ l, ∃ b, f a = .ok b) ∨
      ∃ a ∈ l, ∃ err, f a = .error err ∧ l.mapM f = .error err := by
  induction l with
  | nil => exact Or.inl ⟨[], rfl, fun a ha => (List.not_mem_nil ha).elim⟩
  | cons a rest ih =>
      rw [List.mapM_cons]
      cases ha : f a with
      | error err => exact Or.inr ⟨a, List.mem_cons_self, err, ha, rfl⟩
      | ok b =>
          rcases ih with ⟨bs, hbs, hall⟩ | ⟨c, hc, err, hcerr, herr⟩
          · refine Or.inl ⟨b :: bs, by rw [hbs]; rfl, fun c hc => ?_⟩
            rcases List.mem_cons.mp hc with rfl | hc
            · exact ⟨b, ha⟩
            · exact hall c hc
          · exact Or.inr ⟨c, List.mem_cons_of_mem a hc, err, hcerr, by rw [herr]; rfl⟩

/-- What holds at the start of a loop and is preserved by its steps holds at its end. -/
theorem foldlM_induction {step : β → α → Except ε β} {P : List α → β → Prop}
    (hstep : ∀ done b a b', P done b → step b a = .ok b' → P (done ++ [a]) b') (done : List α)
    {l : List α} {b b' : β} (hb : P done b) (h : l.foldlM step b = .ok b') : P (done ++ l) b' := by
  induction l generalizing done b with
  | nil =>
      rw [List.foldlM_nil, pure_eq_ok_iff] at h
      rwa [h, List.append_nil]
  | cons a rest ih =>
      rw [List.foldlM_cons, bind_eq_ok_iff] at h
      obtain ⟨b₁, h₁, h₂⟩ := h
      have := ih (done ++ [a]) (hstep done b a b₁ hb h₁) h₂
      rwa [List.append_assoc] at this

end RuleMatching.Outcome
