-- Runs that show the same events. Some events of a machine are seen from
-- outside and others are not, and of a state only a part is seen. Where
-- hidden events leave this part alone, and a seen event makes the same of
-- equal parts, two runs that show the same events end alike.
import EldChain.Library.Runs

namespace traces

open runs

variable {S E V P : Type} {step : S → E → Option S} {visible : E → Option V} {view : S → P}
variable {Inv : S → Prop} {Fine : S → E → Prop}

/-- What the events of a machine do to the part of the state that is seen, where the events
are fine in the states that they meet. -/
structure Shows (step : S → E → Option S) (visible : E → Option V) (view : S → P)
    (Inv : S → Prop) (Fine : S → E → Prop) : Prop where
  keeps : ∀ {s e s'}, Inv s → Fine s e → step s e = some s' → Inv s'
  hides : ∀ {s e s'}, Inv s → Fine s e → visible e = none → step s e = some s' →
    view s' = view s
  agrees : ∀ {s t e f s' t' v}, Inv s → Inv t → view s = view t → visible e = some v →
    visible f = some v → step s e = some s' → step t f = some t' → view s' = view t'

/-- A run whose events are all fine keeps the invariant. -/
theorem Shows.inv (h : Shows step visible view Inv Fine) {es : List E} {s s' : S} (hs : Inv s)
    (hfine : ∀ p ∈ visits step es s, Fine p.1 p.2) (hrun : run step es s = some s') : Inv s' := by
  induction es generalizing s with
  | nil =>
    cases hrun
    exact hs
  | cons e es ih =>
    obtain ⟨t, ht, hrest⟩ := Option.bind_eq_some_iff.mp hrun
    simp only [visits, ht, List.forall_mem_cons] at hfine
    exact ih (h.keeps hs hfine.1 ht) hfine.2 hrest

/-- Hidden events change nothing that is seen. -/
theorem Shows.hidden (h : Shows step visible view Inv Fine) {es : List E} {s s' : S} (hs : Inv s)
    (hfine : ∀ p ∈ visits step es s, Fine p.1 p.2) (hrun : run step es s = some s')
    (hnone : ∀ e ∈ es, visible e = none) : view s' = view s := by
  induction es generalizing s with
  | nil =>
    cases hrun
    rfl
  | cons e es ih =>
    obtain ⟨t, ht, hrest⟩ := Option.bind_eq_some_iff.mp hrun
    simp only [visits, ht, List.forall_mem_cons] at hfine
    rw [List.forall_mem_cons] at hnone
    rw [ih (h.keeps hs hfine.1 ht) hfine.2 hrest hnone.2]
    exact h.hides hs hfine.1 hnone.1 ht

/-- The steps of a run, part by part. -/
theorem fine_append {es fs : List E} {s t : S} (hrun : run step es s = some t)
    (hfine : ∀ p ∈ visits step (es ++ fs) s, Fine p.1 p.2) :
    (∀ p ∈ visits step es s, Fine p.1 p.2) ∧ ∀ p ∈ visits step fs t, Fine p.1 p.2 := by
  induction es generalizing s with
  | nil =>
    cases hrun
    exact ⟨by simp [visits], hfine⟩
  | cons e es ih =>
    obtain ⟨u, hu, hrest⟩ := Option.bind_eq_some_iff.mp hrun
    simp only [List.cons_append, visits, hu, List.forall_mem_cons] at hfine ⊢
    obtain ⟨hearlier, hlater⟩ := ih hrest hfine.2
    exact ⟨⟨hfine.1, hearlier⟩, hlater⟩

/-- Two runs from states that look alike end alike when they show the same events. -/
theorem Shows.run_agrees (h : Shows step visible view Inv Fine) {es fs : List E} {s t s' t' : S}
    (hs : Inv s) (ht : Inv t) (hview : view s = view t)
    (hfine : ∀ p ∈ visits step es s, Fine p.1 p.2) (hfine' : ∀ p ∈ visits step fs t, Fine p.1 p.2)
    (hrun : run step es s = some s') (hrun' : run step fs t = some t')
    (htrace : es.filterMap visible = fs.filterMap visible) : view s' = view t' := by
  induction es generalizing s t fs with
  | nil =>
    cases hrun
    rw [hview]
    exact (h.hidden ht hfine' hrun' (List.filterMap_eq_nil_iff.mp htrace.symm)).symm
  | cons e es ih =>
    obtain ⟨s₁, hs₁, hrest⟩ := Option.bind_eq_some_iff.mp hrun
    simp only [visits, hs₁, List.forall_mem_cons] at hfine
    have hinv := h.keeps hs hfine.1 hs₁
    cases he : visible e with
    | none =>
      have hsame := h.hides hs hfine.1 he hs₁
      rw [List.filterMap_cons_none he] at htrace
      exact ih hinv ht (hsame.trans hview) hfine.2 hfine' hrest hrun' htrace
    | some v =>
      -- the other run shows the event after some hidden ones
      rw [List.filterMap_cons_some he] at htrace
      obtain ⟨gs, f, fs', rfl, hgs, hf, htail⟩ := List.filterMap_eq_cons_iff.mp htrace.symm
      rw [run_append] at hrun'
      obtain ⟨t₁, ht₁, hrest'⟩ := Option.bind_eq_some_iff.mp hrun'
      obtain ⟨t₂, ht₂, hlast⟩ := Option.bind_eq_some_iff.mp hrest'
      obtain ⟨hbefore, hafter⟩ := fine_append ht₁ hfine'
      simp only [visits, ht₂, List.forall_mem_cons] at hafter
      have hinv₁ := h.inv ht hbefore ht₁
      have hview₁ : view s = view t₁ := hview.trans (h.hidden ht hbefore ht₁ hgs).symm
      have hview₂ := h.agrees hs hinv₁ hview₁ he hf hs₁ ht₂
      exact ih hinv (h.keeps hinv₁ hafter.1 ht₂) hview₂ hfine.2 hafter.2 hrest hlast htail.symm

end traces
