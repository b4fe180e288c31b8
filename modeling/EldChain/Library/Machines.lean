-- Machines that answer calls. A machine refines another one when related
-- states answer a call alike and stay related, for the calls that are fine
-- in the state they meet. Then the two answer every list of such calls
-- alike, and what is proved of the plain one holds of the other.
import Mathlib.Tactic.Common

namespace machines

variable {S T E R : Type}

/-- The state after a list of calls. -/
def after (step : S → E → S × R) : S → List E → S
  | s, [] => s
  | s, e :: es => after step (step s e).1 es

/-- The answers to a list of calls. -/
def answers (step : S → E → S × R) : S → List E → List R
  | _, [] => []
  | s, e :: es => (step s e).2 :: answers step (step s e).1 es

/-- Every call is fine in the state that it meets. -/
def Throughout (step : S → E → S × R) (Fine : S → E → Prop) : S → List E → Prop
  | _, [] => True
  | s, e :: es => Fine s e ∧ Throughout step Fine (step s e).1 es

instance decidableThroughout (step : S → E → S × R) (Fine : S → E → Prop)
    [∀ s e, Decidable (Fine s e)] : (s : S) → (es : List E) → Decidable (Throughout step Fine s es)
  | _, [] => inferInstanceAs (Decidable True)
  | s, e :: es =>
    have := decidableThroughout step Fine (step s e).1 es
    inferInstanceAs (Decidable (Fine s e ∧ Throughout step Fine (step s e).1 es))

variable {step : S → E → S × R} {plain : T → E → T × R}

theorem after_append (s : S) (es fs : List E) :
    after step s (es ++ fs) = after step (after step s es) fs := by
  induction es generalizing s with
  | nil => rfl
  | cons e es ih => exact ih _

/-- One call of the machine is one call of the plain one. -/
structure Refines (plain : T → E → T × R) (step : S → E → S × R) (Rel : T → S → Prop)
    (Fine : T → E → Prop) : Prop where
  keeps : ∀ t s e, Rel t s → Fine t e → Rel (plain t e).1 (step s e).1
  answer : ∀ t s e, Rel t s → Fine t e → (step s e).2 = (plain t e).2

variable {Rel : T → S → Prop} {Fine : T → E → Prop}

/-- Related states stay related, and all the answers are the same. -/
theorem Refines.run (h : Refines plain step Rel Fine) {t : T} {s : S} (hrel : Rel t s)
    {es : List E} (hfine : Throughout plain Fine t es) :
    Rel (after plain t es) (after step s es) ∧ answers step s es = answers plain t es := by
  induction es generalizing t s with
  | nil => exact ⟨hrel, rfl⟩
  | cons e es ih =>
    obtain ⟨hrest, hanswers⟩ := ih (h.keeps t s e hrel hfine.1) hfine.2
    refine ⟨hrest, ?_⟩
    simp only [answers, h.answer t s e hrel hfine.1, hanswers]

end machines
