import CssSelect.Loop

/-!
Loops. A step either goes on to a next state or gives the result, or fails where that is
possible; a lemma says what the loop does after each kind of step. A loop whose states satisfy
an invariant, and come nearer to an end with every step, has a result.
-/
namespace CssSelect

variable {ε σ ρ : Type} [Nonempty ρ] {step : σ → Except ε (σ ⊕ ρ)} {state : σ}

theorem repeatM_of_next {next : σ} (taken : step state = .ok (.inl next)) :
    repeatM step state = repeatM step next := by
  rw [repeatM_eq_of_monadTail, repeatM.body, taken]
  rfl

theorem repeatM_of_result {result : ρ} (taken : step state = .ok (.inr result)) :
    repeatM step state = .ok result := by
  rw [repeatM_eq_of_monadTail, repeatM.body, taken]
  rfl

theorem repeatM_of_error {error : ε} (taken : step state = .error error) :
    repeatM step state = .error error := by
  rw [repeatM_eq_of_monadTail, repeatM.body, taken]
  rfl

/-- The induction is on the variant, which every step that goes on makes smaller. -/
theorem repeatM_total {invariant : σ → Prop} {post : ρ → Prop} (variant : σ → Nat)
    (each : ∀ state, invariant state →
      (∃ result, step state = .ok (.inr result) ∧ post result) ∨
        ∃ next, step state = .ok (.inl next) ∧ invariant next ∧ variant next < variant state)
    (start : invariant state) : ∃ result, repeatM step state = .ok result ∧ post result := by
  induction size : variant state using Nat.strongRecOn generalizing state with
  | ind size ih =>
    rcases each state start with ⟨result, taken, holds⟩ | ⟨next, taken, kept, smaller⟩
    · exact ⟨result, repeatM_of_result taken, holds⟩
    · rw [repeatM_of_next taken]
      apply ih (variant next) _ kept rfl
      omega

section Iterate

variable {σ ρ : Type} [Inhabited ρ] {step : σ → σ ⊕ ρ} {state : σ}

theorem iterate_of_next {next : σ} (taken : step state = .inl next) :
    iterate step state = iterate step next := by
  rw [iterate, repeatM_eq_of_monadTail, repeatM.body, taken]
  rfl

theorem iterate_of_result {result : ρ} (taken : step state = .inr result) :
    iterate step state = result := by
  rw [iterate, repeatM_eq_of_monadTail, repeatM.body, taken]
  rfl

end Iterate

end CssSelect
