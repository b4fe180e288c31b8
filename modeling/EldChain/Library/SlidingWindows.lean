-- Sliding windows over a log of times: what a log still holds of the last
-- span of time, and logs with at most so many entries in any stretch
-- shorter than the span.
import Mathlib.Algebra.Order.Group.Defs
import Mathlib.Data.List.Basic
import Mathlib.Tactic.Abel

namespace windows

variable {T : Type} [AddCommGroup T] [LinearOrder T] (span : T)

/-- The entries of a log that are later than a span before now. -/
def recent (now : T) (log : List T) : List T := log.filter (now - span < ·)

/-- A stretch of time: any two moments in it are less than a span apart. -/
def Narrow (w : T → Bool) : Prop := ∀ s t, w s → w t → s - t < span

/-- At most `m` entries of a log lie in any narrow stretch. -/
def Sparse (m : Nat) (log : List T) : Prop := ∀ w, Narrow span w → log.countP w ≤ m

variable {span}

theorem recent_append (now : T) (log log' : List T) :
    recent span now (log ++ log') = recent span now log ++ recent span now log' :=
  List.filter_append ..

theorem Sparse.nil (m : Nat) : Sparse span m ([] : List T) := fun _ _ => Nat.zero_le m

variable [IsOrderedAddMonoid T]

/-- What an earlier moment has dropped, a later one drops as well. -/
theorem recent_recent {earlier now : T} (h : earlier ≤ now) (log : List T) :
    recent span now (recent span earlier log) = recent span now log := by
  unfold recent
  rw [List.filter_filter]
  apply List.filter_congr
  intro t _
  have himp : now - span < t → earlier - span < t :=
    lt_of_le_of_lt (sub_le_sub_right h span)
  by_cases ht : now - span < t
  · simp [ht, himp ht]
  · simp [ht]

/-- The stretch from a moment on, without its end. -/
theorem narrow_from (a : T) : Narrow span (fun t => a ≤ t ∧ t < a + span) := by
  intro s t hs ht
  have hs' := (of_decide_eq_true hs).2
  have ht' := (of_decide_eq_true ht).1
  rw [sub_lt_iff_lt_add']
  exact lt_of_lt_of_le hs' (add_le_add_left ht' span)

/-- The stretch after a moment, with its end. -/
theorem narrow_after (a : T) : Narrow span (fun t => a < t ∧ t ≤ a + span) := by
  intro s t hs ht
  have hs' := (of_decide_eq_true hs).2
  have ht' := (of_decide_eq_true ht).1
  rw [sub_lt_iff_lt_add']
  exact lt_of_le_of_lt hs' (add_lt_add_left ht' span)

/-- The recent entries of a sparse log without later ones lie in one narrow stretch. -/
theorem Sparse.recent_le {m : Nat} {log : List T} (h : Sparse span m log) {now : T}
    (hpast : ∀ t ∈ log, t ≤ now) : (recent span now log).length ≤ m := by
  have hcount := h _ (narrow_after (now - span))
  unfold recent
  rw [← List.countP_eq_length_filter]
  refine Nat.le_trans (List.countP_mono_left ?_) hcount
  intro t ht hlate
  rw [sub_add_cancel]
  exact decide_eq_true ⟨of_decide_eq_true hlate, hpast t ht⟩

/-- A sparse log takes one more entry while it has fewer than `m` recent ones. -/
theorem Sparse.append {m : Nat} {log : List T} (h : Sparse span m log) {now : T}
    (hroom : (recent span now log).length < m) : Sparse span m (log ++ [now]) := by
  intro w hw
  rw [List.countP_append, List.countP_singleton]
  by_cases hnow : w now = true
  · -- A stretch around now holds recent entries only.
    have hrecent : log.countP w ≤ (recent span now log).length := by
      unfold recent
      rw [← List.countP_eq_length_filter]
      apply List.countP_mono_left
      intro t _ ht
      apply decide_eq_true
      rw [sub_lt_comm]
      exact hw now t hnow ht
    rw [if_pos hnow]
    exact Nat.lt_of_le_of_lt hrecent hroom
  · rw [if_neg hnow]
    exact h w hw

end windows
