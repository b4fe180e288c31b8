-- Runs of a partial step function: where a run ends, the steps it takes
-- on the way, and the two rules by which a law of every run is proved
-- from a law of every step.
import Mathlib.Data.List.Induction

namespace runs

variable {S E : Type} (step : S → E → Option S)

/-- The state after a list of events, if every step succeeds. -/
def run : List E → S → Option S
  | [], s => some s
  | e :: es, s => (step s e).bind (run es)

/-- The steps of a run: each event with the state it met. -/
def visits : List E → S → List (S × E)
  | [], _ => []
  | e :: es, s => (s, e) :: (match step s e with
    | some s' => visits es s'
    | none => [])

theorem run_append (es fs : List E) (s : S) :
    run step (es ++ fs) s = (run step es s).bind (run step fs) := by
  induction es generalizing s with
  | nil => rfl
  | cons e es ih =>
    rw [List.cons_append, run, run]
    rcases step s e with _ | s'
    · rfl
    · exact ih s'

theorem run_snoc (es : List E) (e : E) (s : S) :
    run step (es ++ [e]) s = (run step es s).bind (fun t => step t e) := by
  rw [run_append]
  rcases run step es s with _ | t
  · rfl
  · change (step t e).bind some = step t e
    rcases step t e with _ | u <;> rfl

/-- The last event of a run meets the state that the events before it lead to. -/
theorem visits_snoc {es : List E} {s t : S} (e : E) (h : run step es s = some t) :
    visits step (es ++ [e]) s = visits step es s ++ [(t, e)] := by
  induction es generalizing s with
  | nil =>
    cases h
    rw [List.nil_append, visits, visits, List.nil_append]
    rcases step t e with _ | s' <;> rfl
  | cons f es ih =>
    obtain ⟨s', hs, hr⟩ := Option.bind_eq_some_iff.mp h
    rw [List.cons_append, visits, visits, hs]
    simp only [List.cons_append, List.cons.injEq, true_and]
    exact ih hr

/-- The steps of an earlier part come first. -/
theorem visits_of_earlier {es fs : List E} (h : fs <+: es) (s : S) :
    visits step fs s <+: visits step es s := by
  obtain ⟨gs, rfl⟩ := h
  induction fs generalizing s with
  | nil => exact List.nil_prefix
  | cons f fs ih =>
    rw [List.cons_append, visits, visits, List.prefix_cons_inj]
    rcases step s f with _ | s'
    · exact List.prefix_rfl
    · exact ih s'

/-- A law of the events so far and the state they lead to holds of every run when each
step keeps it. -/
theorem run_induction (Law : List E → S → Prop) {s₀ : S} (h₀ : Law [] s₀)
    (hstep : ∀ es s e s', run step es s₀ = some s → Law es s → step s e = some s' →
      Law (es ++ [e]) s') {es : List E} {s : S} (h : run step es s₀ = some s) : Law es s := by
  induction es using List.reverseRecOn generalizing s with
  | nil => cases h; exact h₀
  | append_singleton es e ih =>
    rw [run_snoc] at h
    obtain ⟨t, ht, hs⟩ := Option.bind_eq_some_iff.mp h
    exact hstep es t e s ht (ih ht) hs

/-- What every step keeps holds in every state of a run. -/
theorem run_invariant (Inv : S → Prop) (hstep : ∀ s e s', Inv s → step s e = some s' → Inv s')
    {s₀ : S} (h₀ : Inv s₀) {es : List E} {s : S} (h : run step es s₀ = some s) : Inv s :=
  run_induction step (fun _ s => Inv s) h₀ (fun _ s e s' _ => hstep s e s') h

/-- A run takes every step of its own. -/
theorem step_of_earlier {es fs : List E} {s₀ s t : S} {e : E} (h : run step es s₀ = some s)
    (hp : fs ++ [e] <+: es) (ht : run step fs s₀ = some t) : ∃ u, step t e = some u := by
  obtain ⟨gs, rfl⟩ := hp
  rw [run_append, run_snoc, ht] at h
  obtain ⟨u, hu, _⟩ := Option.bind_eq_some_iff.mp h
  exact ⟨u, hu⟩

/-- Each step of a run meets a state that an earlier part of the run leads to. -/
theorem mem_visits {es : List E} {s₀ s : S} {e : E} (h : (s, e) ∈ visits step es s₀) :
    ∃ fs, run step fs s₀ = some s ∧ (fs ++ [e]) <+: es := by
  induction es generalizing s₀ with
  | nil => cases h
  | cons f es ih =>
    rw [visits, List.mem_cons] at h
    rcases h with h | h
    · cases h
      exact ⟨[], rfl, by simp⟩
    · rcases hs : step s₀ f with _ | s₁
      · rw [hs] at h; cases h
      · rw [hs] at h
        obtain ⟨fs, hr, hp⟩ := ih h
        refine ⟨f :: fs, ?_, ?_⟩
        · rw [run, hs]; exact hr
        · rw [List.cons_append, List.cons_prefix_cons]
          exact ⟨rfl, hp⟩

/-- Where a law and a condition on one step agree in good states, and the law leads from
good states to good states, a run keeps the law at every step exactly when it meets the
condition at every step. -/
theorem visits_iff {Good : S → Prop} {Law Cond : S → E → Prop}
    (hiff : ∀ s e, Good s → (Law s e ↔ Cond s e))
    (hkeep : ∀ s e s', Good s → Law s e → step s e = some s' → Good s')
    {s₀ : S} (h₀ : Good s₀) (es : List E) :
    (∀ p ∈ visits step es s₀, Law p.1 p.2) ↔ ∀ p ∈ visits step es s₀, Cond p.1 p.2 := by
  induction es generalizing s₀ with
  | nil => simp [visits]
  | cons e es ih =>
    rw [visits, List.forall_mem_cons, List.forall_mem_cons]
    simp only
    rw [hiff s₀ e h₀]
    apply and_congr_right
    intro hcond
    cases hs : step s₀ e with
    | none => simp
    | some s₁ => exact ih (hkeep s₀ e s₁ h₀ ((hiff s₀ e h₀).mpr hcond) hs)

theorem mem_visits_of_earlier {es fs : List E} {s₀ s : S} {e : E} (h : run step fs s₀ = some s)
    (hp : fs ++ [e] <+: es) : (s, e) ∈ visits step es s₀ := by
  refine (visits_of_earlier step hp s₀).subset ?_
  rw [visits_snoc step e h]
  exact List.mem_append_right _ (List.mem_singleton.mpr rfl)

end runs
