-- The last write to each key of a list of writes: what a key reads after
-- them, the list of the writes that are still there, and how many these are
-- under two different keys.
import Mathlib.Data.List.Find
import Mathlib.Data.List.Nodup
import Mathlib.Data.List.Perm.Subperm

namespace last_writes

variable {A K K' : Type} [DecidableEq K] [DecidableEq K'] (f : A → K) (g : A → K')

/-- The last write to a key. -/
def lastBy (l : List A) (k : K) : Option A := l.reverse.find? (fun a => f a = k)

/-- The writes that no later one replaces, in their order. -/
def keepLast : List A → List A
  | [] => []
  | a :: rest => if f a ∈ rest.map f then keepLast rest else a :: keepLast rest

variable {f g}

theorem lastBy_snoc (l : List A) (a : A) (k : K) :
    lastBy f (l ++ [a]) k = if f a = k then some a else lastBy f l k := by
  unfold lastBy
  rw [List.reverse_append, List.reverse_singleton, List.singleton_append, List.find?_cons]
  by_cases h : f a = k
  · simp [h]
  · simp [h]

theorem lastBy_cons (a : A) (l : List A) (k : K) :
    lastBy f (a :: l) k = (lastBy f l k).or (if f a = k then some a else none) := by
  unfold lastBy
  rw [List.reverse_cons, List.find?_append, List.find?_singleton]
  simp only [decide_eq_true_eq]

theorem lastBy_append (l m : List A) (k : K) :
    lastBy f (l ++ m) k = (lastBy f m k).or (lastBy f l k) := by
  unfold lastBy
  rw [List.reverse_append, List.find?_append]

theorem lastBy_eq_some {l : List A} {k : K} {a : A} (h : lastBy f l k = some a) :
    a ∈ l ∧ f a = k :=
  ⟨List.mem_reverse.mp (List.mem_of_find?_eq_some h), by simpa using List.find?_some h⟩

theorem lastBy_isSome_iff {l : List A} {k : K} : (lastBy f l k).isSome ↔ k ∈ l.map f := by
  unfold lastBy
  rw [List.find?_isSome, List.mem_map]
  simp only [List.mem_reverse, decide_eq_true_eq]

theorem lastBy_of_mem {l : List A} {a : A} (h : a ∈ l) : ∃ last, lastBy f l (f a) = some last :=
  Option.isSome_iff_exists.mp (lastBy_isSome_iff.mpr (List.mem_map_of_mem h))

/-- The last write to a key is none of those to other keys. -/
theorem lastBy_eq_none {l : List A} {k : K} (h : ∀ a ∈ l, f a ≠ k) : lastBy f l k = none := by
  rw [← Option.not_isSome_iff_eq_none, lastBy_isSome_iff, List.mem_map]
  rintro ⟨a, ha, hkey⟩
  exact h a ha hkey

/-- Of writes to different keys each is the last one to its own. -/
theorem lastBy_of_nodup {l : List A} (h : (l.map f).Nodup) {a : A} (ha : a ∈ l) :
    lastBy f l (f a) = some a := by
  obtain ⟨last, hlast⟩ := lastBy_of_mem (f := f) ha
  obtain ⟨hmem, hkey⟩ := lastBy_eq_some hlast
  rw [hlast, List.inj_on_of_nodup_map h hmem ha hkey]

/-- Two keys that single out the same writes have the same last write. -/
theorem lastBy_congr {l : List A} {k : K} {k' : K'} (h : ∀ a ∈ l, f a = k ↔ g a = k') :
    lastBy f l k = lastBy g l k' := by
  unfold lastBy
  apply List.find?_congr
  intro a ha
  rw [decide_eq_decide]
  exact h a (List.mem_reverse.mp ha)

theorem mem_keepLast {l : List A} {a : A} : a ∈ keepLast f l ↔ lastBy f l (f a) = some a := by
  induction l with
  | nil =>
    rw [keepLast]
    exact ⟨fun h => absurd h List.not_mem_nil, fun h => absurd (lastBy_eq_some h).1 List.not_mem_nil⟩
  | cons b rest ih =>
    rw [keepLast, lastBy_cons]
    by_cases hlater : f b ∈ rest.map f
    · rw [if_pos hlater, ih]
      by_cases hkey : f b = f a
      · -- a later write to the f of `b` is the last one
        obtain ⟨last, hlast⟩ := Option.isSome_iff_exists.mp (lastBy_isSome_iff.mpr hlater)
        rw [hkey] at hlast
        rw [hlast, Option.some_or]
      · rw [if_neg hkey, Option.or_none]
    · rw [if_neg hlater, List.mem_cons, ih]
      by_cases hkey : f b = f a
      · have hnone : lastBy f rest (f a) = none := by
          rw [← Option.not_isSome_iff_eq_none, lastBy_isSome_iff, ← hkey]
          exact hlater
        rw [hnone, if_pos hkey, Option.none_or, Option.some.injEq]
        simp [eq_comm]
      · rw [if_neg hkey, Option.or_none]
        have hne : a ≠ b := fun heq => hkey (heq ▸ rfl)
        simp [hne]

theorem mem_of_keepLast {l : List A} {a : A} (h : a ∈ keepLast f l) : a ∈ l :=
  (lastBy_eq_some (mem_keepLast.mp h)).1

/-- Every key that is written is still there. -/
theorem exists_keepLast {l : List A} {a : A} (h : a ∈ l) : ∃ b ∈ keepLast f l, f b = f a := by
  obtain ⟨last, hlast⟩ := lastBy_of_mem (f := f) h
  have hkey := (lastBy_eq_some hlast).2
  refine ⟨last, mem_keepLast.mpr ?_, hkey⟩
  rw [hkey]
  exact hlast

theorem nodup_keepLast (l : List A) : ((keepLast f l).map f).Nodup := by
  induction l with
  | nil => exact List.nodup_nil
  | cons a rest ih =>
    rw [keepLast]
    by_cases hlater : f a ∈ rest.map f
    · rw [if_pos hlater]
      exact ih
    · rw [if_neg hlater, List.map_cons, List.nodup_cons]
      refine ⟨fun hmem => hlater ?_, ih⟩
      obtain ⟨b, hb, hkey⟩ := List.mem_map.mp hmem
      exact List.mem_map.mpr ⟨b, mem_of_keepLast hb, hkey⟩

/-- Where one key decides the other, as many writes are left under both exactly when the other
decides the one. -/
theorem length_keepLast_eq_iff {l : List A}
    (h : ∀ a ∈ l, ∀ b ∈ l, f a = f b → g a = g b) :
    (keepLast f l).length = (keepLast g l).length ↔
      ∀ a ∈ l, ∀ b ∈ l, g a = g b → f a = f b := by
  have hcover : (keepLast g l).map g ⊆ (keepLast f l).map g := by
    intro k hk
    obtain ⟨a, ha, rfl⟩ := List.mem_map.mp hk
    obtain ⟨b, hb, hkey⟩ := exists_keepLast (f := f) (mem_of_keepLast ha)
    exact List.mem_map.mpr ⟨b, hb, h b (mem_of_keepLast hb) a (mem_of_keepLast ha) hkey⟩
  have hback : (keepLast f l).map g ⊆ (keepLast g l).map g := by
    intro k hk
    obtain ⟨a, ha, rfl⟩ := List.mem_map.mp hk
    obtain ⟨b, hb, hkey⟩ := exists_keepLast (f := g) (mem_of_keepLast ha)
    exact List.mem_map.mpr ⟨b, hb, hkey⟩
  have hsub := List.subperm_of_subset (nodup_keepLast (f := g) l) hcover
  constructor
  · intro hlen a ha b hb heq
    -- as many keys, so the other key has no value twice
    have hnodup : ((keepLast f l).map g).Nodup :=
      (hsub.perm_of_length_le (by simp [hlen])).nodup_iff.mp (nodup_keepLast l)
    obtain ⟨a', ha', hka⟩ := exists_keepLast (f := f) ha
    obtain ⟨b', hb', hkb⟩ := exists_keepLast (f := f) hb
    have hka' := h a' (mem_of_keepLast ha') a ha hka
    have hkb' := h b' (mem_of_keepLast hb') b hb hkb
    have hsame := List.inj_on_of_nodup_map hnodup ha' hb' (by rw [hka', hkb', heq])
    rw [← hka, ← hkb, hsame]
  · intro hinj
    have hnodup : ((keepLast f l).map g).Nodup := by
      refine List.Nodup.map_on ?_ (List.Nodup.of_map _ (nodup_keepLast (f := f) l))
      intro a ha b hb heq
      exact List.inj_on_of_nodup_map (nodup_keepLast l) ha hb
        (hinj a (mem_of_keepLast ha) b (mem_of_keepLast hb) heq)
    have hle := (List.subperm_of_subset hnodup hback).length_le
    have hge := hsub.length_le
    rw [List.length_map, List.length_map] at hle hge
    exact Nat.le_antisymm hle hge

end last_writes
