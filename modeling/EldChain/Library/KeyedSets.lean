-- A set of keys with weights that one party keeps from the updates of
-- another: an update replaces the weight of its key, and weight 0 takes
-- the key out. What the set holds after a list of updates that take
-- nothing out.
import Mathlib.Data.List.Basic

namespace keyed

variable {K : Type} [DecidableEq K]

/-- One update. -/
def put (set : List (K × Int)) (key : K) (weight : Int) : List (K × Int) :=
  let rest := set.filter (fun p => p.1 ≠ key)
  if weight = 0 then rest else rest ++ [(key, weight)]

/-- The updates, one after another. -/
def putAll (set : List (K × Int)) (updates : List (K × Int)) : List (K × Int) :=
  updates.foldl (fun set u => put set u.1 u.2) set

/-- The keys of a set. -/
def keys (set : List (K × Int)) : List K := set.map Prod.fst

theorem mem_keys_put (set : List (K × Int)) (key k : K) {weight : Int} (h : weight ≠ 0) :
    k ∈ keys (put set key weight) ↔ k ∈ keys set ∨ k = key := by
  unfold put keys
  rw [if_neg h, List.map_append, List.mem_append, List.map_singleton, List.mem_singleton]
  by_cases hk : k = key
  · simp [hk]
  · simp only [hk, or_false, List.mem_map, List.mem_filter, decide_eq_true_eq]
    constructor
    · rintro ⟨p, ⟨hp, _⟩, rfl⟩
      exact ⟨p, hp, rfl⟩
    · rintro ⟨p, hp, rfl⟩
      exact ⟨p, ⟨hp, hk⟩, rfl⟩

/-- Updates that take nothing out leave every key that was there. -/
theorem mem_keys_putAll {updates : List (K × Int)} (h : ∀ u ∈ updates, u.2 ≠ 0)
    (set : List (K × Int)) (k : K) :
    k ∈ keys (putAll set updates) ↔ k ∈ keys set ∨ k ∈ keys updates := by
  induction updates generalizing set with
  | nil => simp [putAll, keys]
  | cons u updates ih =>
    have hrest := ih (fun v hv => h v (List.mem_cons_of_mem _ hv)) (put set u.1 u.2)
    have hfirst := mem_keys_put set u.1 k (h u List.mem_cons_self)
    change k ∈ keys (putAll (put set u.1 u.2) updates) ↔ k ∈ keys set ∨ k ∈ keys (u :: updates)
    rw [hrest, hfirst]
    simp only [keys, List.map_cons, List.mem_cons]
    rw [or_assoc]

/-- The set is the last list of updates exactly when that list names every key it held. -/
theorem keys_putAll_eq_iff {updates : List (K × Int)} (h : ∀ u ∈ updates, u.2 ≠ 0)
    (set : List (K × Int)) :
    (∀ k, k ∈ keys (putAll set updates) ↔ k ∈ keys updates) ↔ keys set ⊆ keys updates := by
  constructor
  · intro heq k hk
    exact (heq k).mp ((mem_keys_putAll h set k).mpr (Or.inl hk))
  · intro hsub k
    rw [mem_keys_putAll h set k]
    exact ⟨fun hk => hk.elim (fun hold => hsub hold) id, Or.inr⟩

end keyed
