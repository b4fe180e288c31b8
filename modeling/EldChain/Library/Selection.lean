-- The first elements of an ordered list: as many as a count allows, or as
-- many as a budget allows. An element is among them exactly when few
-- enough others come before it.
import Mathlib.Algebra.Order.Ring.Nat
import Mathlib.Data.List.Basic
import Mathlib.Data.List.Sort
import Std.Data.ExtTreeSet

open Std

namespace selection

variable {A : Type} {before : A → A → Prop}

/-- A list in a strict order. -/
structure Strict (before : A → A → Prop) (l : List A) : Prop where
  sorted : l.Pairwise before
  asymm : ∀ x y, before x y → ¬ before y x

theorem Strict.tail {x : A} {l : List A} (h : Strict before (x :: l)) : Strict before l :=
  ⟨(List.pairwise_cons.mp h.sorted).2, h.asymm⟩

theorem Strict.head {x : A} {l : List A} (h : Strict before (x :: l)) : ∀ y ∈ l, before x y :=
  (List.pairwise_cons.mp h.sorted).1

theorem Strict.head_notMem {x : A} {l : List A} (h : Strict before (x :: l)) : x ∉ l := by
  intro hx
  exact h.asymm _ _ (h.head x hx) (h.head x hx)

/-- Lists of the same elements, both in one strict order, are equal. -/
theorem Strict.ext {l m : List A} (hl : Strict before l)
    (hm : Strict before m) (hmem : ∀ x, x ∈ l ↔ x ∈ m) : l = m := by
  have hnodup : ∀ {l : List A}, Strict before l → l.Nodup := by
    intro l h
    refine List.Pairwise.imp ?_ h.sorted
    rintro a b hab rfl
    exact h.asymm _ _ hab hab
  refine List.Perm.eq_of_pairwise ?_ hl.sorted hm.sorted
    ((List.perm_ext_iff_of_nodup (hnodup hl) (hnodup hm)).mpr hmem)
  intro a b _ _ hab hba
  exact absurd hba (hl.asymm _ _ hab)

variable [DecidableRel before]

/-- How many elements of a list come before one. -/
def rank (before : A → A → Prop) [DecidableRel before] (l : List A) (x : A) : Nat :=
  l.countP (fun y => before y x)

/-- Nothing comes before the first element. -/
theorem Strict.rank_head {x : A} {l : List A} (h : Strict before (x :: l)) :
    rank before (x :: l) x = 0 := by
  unfold rank
  rw [List.countP_eq_zero]
  intro y hy
  rw [decide_eq_true_eq]
  intro hbefore
  rcases List.mem_cons.mp hy with rfl | hy
  · exact h.asymm _ _ hbefore hbefore
  · exact h.asymm _ _ hbefore (h.head y hy)

theorem Strict.rank_tail {x y : A} {l : List A} (h : Strict before (x :: l)) (hy : y ∈ l) :
    rank before (x :: l) y = rank before l y + 1 := by
  unfold rank
  rw [List.countP_cons, if_pos (decide_eq_true (h.head y hy))]

/-- The place of an element is the number of those before it. -/
theorem Strict.getElem?_iff {l : List A} (h : Strict before l) (i : Nat) (x : A) :
    l[i]? = some x ↔ x ∈ l ∧ rank before l x = i := by
  induction l generalizing i with
  | nil => simp
  | cons y l ih =>
    cases i with
    | zero =>
      rw [List.getElem?_cons_zero, Option.some.injEq]
      constructor
      · rintro rfl
        exact ⟨List.mem_cons_self, h.rank_head⟩
      · rintro ⟨hx, hrank⟩
        rcases List.mem_cons.mp hx with rfl | hx
        · rfl
        · rw [h.rank_tail hx] at hrank
          exact absurd hrank (Nat.succ_ne_zero _)
    | succ i =>
      rw [List.getElem?_cons_succ, ih h.tail]
      constructor
      · rintro ⟨hx, hrank⟩
        exact ⟨List.mem_cons_of_mem _ hx, by rw [h.rank_tail hx, hrank]⟩
      · rintro ⟨hx, hrank⟩
        rcases List.mem_cons.mp hx with rfl | hx
        · rw [h.rank_head] at hrank
          exact absurd hrank.symm (Nat.succ_ne_zero _)
        · rw [h.rank_tail hx] at hrank
          exact ⟨hx, Nat.succ_inj.mp hrank⟩

/-- Two orders of the same elements agree on a slice exactly when each element of the slice has
as many elements before it in both. -/
theorem Strict.slice_eq_iff {before' : A → A → Prop} [DecidableRel before'] {l m : List A}
    (hl : Strict before l) (hm : Strict before' m) (hmem : ∀ x, x ∈ l ↔ x ∈ m)
    (hlen : l.length = m.length) (k n : Nat) :
    (l.drop k).take n = (m.drop k).take n ↔
      ∀ x ∈ m, k ≤ rank before' m x → rank before' m x < k + n →
        rank before l x = rank before' m x := by
  constructor
  · intro heq x hx hlow hhigh
    have hplace := congrArg (·[rank before' m x - k]?) heq
    have hin : rank before' m x - k < n := by omega
    have hback : k + (rank before' m x - k) = rank before' m x := by omega
    simp only [List.getElem?_take_of_lt hin, List.getElem?_drop, hback] at hplace
    rw [(hm.getElem?_iff _ x).mpr ⟨hx, rfl⟩] at hplace
    exact ((hl.getElem?_iff _ x).mp hplace).2
  · intro hranks
    apply List.ext_getElem?
    intro i
    by_cases hi : i < n
    · rw [List.getElem?_take_of_lt hi, List.getElem?_take_of_lt hi, List.getElem?_drop,
        List.getElem?_drop]
      cases hx : m[k + i]? with
      | none =>
        rw [List.getElem?_eq_none_iff] at hx ⊢
        omega
      | some x =>
        obtain ⟨hxm, hrank⟩ := (hm.getElem?_iff _ x).mp hx
        refine (hl.getElem?_iff _ x).mpr ⟨(hmem x).mpr hxm, ?_⟩
        rw [hranks x hxm (by omega) (by omega), hrank]
    · rw [List.getElem?_eq_none, List.getElem?_eq_none]
      · rw [List.length_take]
        omega
      · rw [List.length_take]
        omega

/-- The first `k` elements are those with fewer than `k` before them. -/
theorem Strict.mem_take_iff {l : List A} (h : Strict before l) (k : Nat) (x : A) :
    x ∈ l.take k ↔ x ∈ l ∧ rank before l x < k := by
  rw [List.mem_iff_getElem?]
  constructor
  · rintro ⟨i, hi⟩
    rw [List.getElem?_take] at hi
    split at hi
    · rename_i hik
      obtain ⟨hx, hrank⟩ := (h.getElem?_iff i x).mp hi
      exact ⟨hx, by rwa [hrank]⟩
    · cases hi
  · rintro ⟨hx, hrank⟩
    refine ⟨rank before l x, ?_⟩
    rw [List.getElem?_take_of_lt hrank]
    exact (h.getElem?_iff _ x).mpr ⟨hx, rfl⟩

/-! ## A budget -/

variable (weight : A → Nat) (limit : Nat)

/-- The elements of a list while their total weight stays within the limit. -/
def within : Nat → List A → List A
  | _, [] => []
  | used, x :: l => if limit < used + weight x then [] else x :: within (used + weight x) l

/-- The weight of an element and of all that come before it. -/
def weightUpTo [DecidableEq A] (before : A → A → Prop) [DecidableRel before] (weight : A → Nat)
    (l : List A) (x : A) : Nat :=
  ((l.filter (fun y => decide (y = x ∨ before y x))).map weight).sum

variable {weight limit}

theorem within_prefix (used : Nat) (l : List A) : within weight limit used l <+: l := by
  induction l generalizing used with
  | nil => exact List.prefix_rfl
  | cons x l ih =>
    rw [within]
    split
    · exact List.nil_prefix
    · exact (List.prefix_cons_inj x).mpr (ih _)

/-- All elements stay within the limit when their total weight does. -/
theorem within_eq_iff {used : Nat} (hused : used ≤ limit) (l : List A) :
    within weight limit used l = l ↔ used + (l.map weight).sum ≤ limit := by
  induction l generalizing used with
  | nil => simpa [within] using hused
  | cons x l ih =>
    rw [within, List.map_cons, List.sum_cons, ← Nat.add_assoc]
    by_cases hover : limit < used + weight x
    · rw [if_pos hover]
      constructor
      · intro hall
        cases hall
      · intro hsum
        omega
    · rw [if_neg hover, List.cons_inj_right, ih (by omega)]

variable [DecidableEq A]

theorem Strict.weight_head {x : A} {l : List A} (h : Strict before (x :: l)) :
    weightUpTo before weight (x :: l) x = weight x := by
  unfold weightUpTo
  have hrest : l.filter (fun y => decide (y = x ∨ before y x)) = [] := by
    rw [List.filter_eq_nil_iff]
    intro y hy
    rw [decide_eq_true_eq]
    rintro (rfl | hbefore)
    · exact h.head_notMem hy
    · exact h.asymm _ _ hbefore (h.head y hy)
  rw [List.filter_cons_of_pos (by simp), hrest]
  simp

theorem Strict.weight_tail {x y : A} {l : List A} (h : Strict before (x :: l)) (hy : y ∈ l) :
    weightUpTo before weight (x :: l) y = weight x + weightUpTo before weight l y := by
  unfold weightUpTo
  rw [List.filter_cons_of_pos (by simp [h.head y hy]), List.map_cons, List.sum_cons]

/-- An element is within the limit when it fits together with all that come before it. -/
theorem Strict.mem_within_iff {l : List A} (h : Strict before l) (used : Nat) (x : A) :
    x ∈ within weight limit used l ↔
      x ∈ l ∧ used + weightUpTo before weight l x ≤ limit := by
  induction l generalizing used with
  | nil => simp [within]
  | cons y l ih =>
    rw [within]
    by_cases hfits : limit < used + weight y
    · rw [if_pos hfits, List.mem_cons]
      simp only [List.not_mem_nil, false_iff, not_and]
      rintro (rfl | hx)
      · rw [h.weight_head]
        omega
      · rw [h.weight_tail hx]
        omega
    · rw [if_neg hfits, List.mem_cons, List.mem_cons, ih h.tail]
      by_cases hxy : x = y
      · subst hxy
        rw [h.weight_head]
        simp only [true_or, true_and, true_iff]
        omega
      · simp only [hxy, false_or]
        apply and_congr_right
        intro hx
        rw [h.weight_tail hx, Nat.add_assoc]

/-- Both limits at once. -/
theorem Strict.mem_take_within_iff {l : List A} (h : Strict before l) (k : Nat) (x : A) :
    x ∈ (within weight limit 0 l).take k ↔
      x ∈ l ∧ rank before l x < k ∧ weightUpTo before weight l x ≤ limit := by
  have htake : within weight limit 0 l = l.take (within weight limit 0 l).length :=
    (List.prefix_iff_eq_take.mp ( within_prefix 0 l))
  have hwithin := @Strict.mem_within_iff A before _ weight limit _ l h 0 x
  rw [Nat.zero_add, htake, h.mem_take_iff] at hwithin
  rw [htake, List.take_take, h.mem_take_iff, Nat.lt_min]
  constructor
  · rintro ⟨hx, hk, hlimit⟩
    exact ⟨hx, hk, (hwithin.mp ⟨hx, hlimit⟩).2⟩
  · rintro ⟨hx, hk, hlimit⟩
    exact ⟨hx, hk, (hwithin.mpr ⟨hx, hlimit⟩).2⟩

/-! ## Lists sorted by a comparison -/

section Sorted

variable {A B : Type} {cmp : A → A → Ordering} [TransCmp cmp]

/-- An order turned around. -/
def reversed (cmp : A → A → Ordering) : A → A → Ordering := fun a b => cmp b a

instance : TransCmp (reversed cmp) where
  eq_swap {a b} := @OrientedCmp.eq_swap A cmp _ b a
  isLE_trans {a b c} hab hbc := @TransCmp.isLE_trans A cmp _ c b a hbc hab

instance [LawfulEqCmp cmp] : LawfulEqCmp (reversed cmp) where
  compare_self {a} := @ReflCmp.compare_self A cmp _ a
  eq_of_compare {a b} h := (@LawfulEqCmp.eq_of_compare A cmp _ b a h).symm

theorem isLE_iff_not_lt {a b : A} :
    (cmp a b).isLE = true ↔ cmp b a ≠ .lt := by
  rw [@OrientedCmp.eq_swap A cmp _ b a]
  cases cmp a b <;> decide

instance isLE_total (key : B → A) :
    Std.Total (fun a b => (cmp (key a) (key b)).isLE = true) where
  total a b := by
    cases h : cmp (key a) (key b) with
    | lt => exact Or.inl rfl
    | eq => exact Or.inl rfl
    | gt =>
      right
      rw [@OrientedCmp.eq_swap A cmp _ (key b) (key a), h]
      rfl

instance isLE_trans (key : B → A) :
    IsTrans B (fun a b => (cmp (key a) (key b)).isLE = true) where
  trans _ _ _ hab hbc := TransCmp.isLE_trans hab hbc

theorem strict_of_sorted {l : List A} (h : l.Pairwise (fun a b => cmp a b = .lt)) :
    Strict (fun a b => cmp a b = .lt) l :=
  ⟨h, fun _ _ hxy hyx => OrientedCmp.not_lt_of_lt hxy hyx⟩

theorem strict_reverse {l : List A} (h : l.Pairwise (fun a b => cmp a b = .lt)) :
    Strict (fun a b => cmp b a = .lt) l.reverse :=
  ⟨List.pairwise_reverse.mpr h, fun _ _ hxy hyx => OrientedCmp.not_lt_of_lt hxy hyx⟩

/-- Sorting keeps distinct keys distinct. -/
theorem sorted_apart {K : Type} (le : B → B → Prop) [DecidableRel le] [Std.Total le]
    [IsTrans B le] (key : B → K) {l : List B} (hnodup : (l.map key).Nodup) :
    (l.insertionSort le).Pairwise (fun a b => le a b ∧ key a ≠ key b) := by
  have hsorted := List.pairwise_insertionSort le l
  have hkeys : (l.insertionSort le).Pairwise (fun a b => key a ≠ key b) := by
    rw [← List.pairwise_map]
    exact ((List.perm_insertionSort le l).map key).nodup_iff.mpr hnodup
  exact hsorted.and hkeys

/-- Sorting by a key puts a list with distinct keys in a strict order. -/
theorem strict_sorted_by_key [LawfulEqCmp cmp] (key : B → A) {l : List B}
    (hnodup : (l.map key).Nodup) :
    Strict (fun a b => cmp (key a) (key b) = .lt)
      (l.insertionSort (fun a b => (cmp (key a) (key b)).isLE = true)) := by
  have hapart := sorted_apart (fun a b => (cmp (key a) (key b)).isLE = true) key hnodup
  refine ⟨hapart.imp ?_, fun _ _ hxy hyx => OrientedCmp.not_lt_of_lt hxy hyx⟩
  rintro a b ⟨hle, hne⟩
  rcases hcmp : cmp (key a) (key b) with _ | _ | _
  · rfl
  · exact absurd (LawfulEqCmp.eq_of_compare hcmp) hne
  · rw [hcmp] at hle
    cases hle

/-- Sorting a list without duplicates puts it in a strict order. -/
theorem strict_insertionSort [LawfulEqCmp cmp] {l : List A} (h : l.Nodup) :
    Strict (fun a b => cmp a b = .lt)
      (l.insertionSort (fun a b => (cmp a b).isLE = true)) :=
  @strict_sorted_by_key A A cmp _ _ id l (by rwa [List.map_id])

/-- Sorting by a key forgets the order of a list whose keys are distinct. -/
theorem sorted_by_key_eq [LawfulEqCmp cmp] (key : B → A) {l l' : List B}
    (hperm : l.Perm l') (hnodup : (l.map key).Nodup) :
    l.insertionSort (fun a b => (cmp (key a) (key b)).isLE = true) =
      l'.insertionSort (fun a b => (cmp (key a) (key b)).isLE = true) := by
  apply Strict.ext (strict_sorted_by_key key hnodup)
  · exact strict_sorted_by_key key ((hperm.map key).nodup_iff.mp hnodup)
  · intro x
    rw [List.mem_insertionSort, List.mem_insertionSort]
    exact hperm.mem_iff

/-- Sorting from the largest key down puts a list with distinct keys in a strict order. -/
theorem strict_falling {P : Type} [LinearOrder P] (pos : B → P) {l : List B}
    (hnodup : (l.map pos).Nodup) :
    Strict (fun a b => pos b < pos a) (l.insertionSort (fun a b => pos b ≤ pos a)) := by
  have : Std.Total (fun a b => pos b ≤ pos a) := ⟨fun a b => le_total (pos b) (pos a)⟩
  have : IsTrans B (fun a b => pos b ≤ pos a) := ⟨fun _ _ _ hab hbc => hbc.trans hab⟩
  have hapart := sorted_apart (fun a b => pos b ≤ pos a) pos hnodup
  refine ⟨hapart.imp ?_, fun _ _ hxy hyx => lt_asymm hxy hyx⟩
  rintro a b ⟨hle, hne⟩
  exact hle.lt_of_ne (Ne.symm hne)

/-- Some of the elements of a list, sorted, are its first ones in that order exactly when the
first ones are among them. -/
theorem sort_eq_take_iff [LawfulEqCmp cmp] (key : B → A) {l some : List B} {n : Nat}
    (hnodup : (l.map key).Nodup) (hsub : some ⊆ l) (hsome : some.Nodup)
    (hlen : some.length ≤ n) :
    some.insertionSort (fun a b => (cmp (key a) (key b)).isLE = true) =
        (l.insertionSort (fun a b => (cmp (key a) (key b)).isLE = true)).take n ↔
      ∀ x ∈ l, rank (fun a b => cmp (key a) (key b) = .lt) l x < n → x ∈ some := by
  have hstrict := @strict_sorted_by_key A B cmp _ _ key l hnodup
  have hperm := List.perm_insertionSort (fun a b => (cmp (key a) (key b)).isLE = true) l
  have hfirst : ∀ x, x ∈ (l.insertionSort
      (fun a b => (cmp (key a) (key b)).isLE = true)).take n ↔
        x ∈ l ∧ rank (fun a b => cmp (key a) (key b) = .lt) l x < n := by
    intro x
    rw [hstrict.mem_take_iff, hperm.mem_iff]
    unfold rank
    rw [hperm.countP_eq]
  constructor
  · intro heq x hx hrank
    have hmem := (hfirst x).mpr ⟨hx, hrank⟩
    rw [← heq] at hmem
    exact (List.mem_insertionSort _).mp hmem
  · intro hall
    have htop : ((l.insertionSort
        (fun a b => (cmp (key a) (key b)).isLE = true)).take n).Subperm some := by
      apply List.subperm_of_subset
      · exact (hperm.nodup_iff.mpr hnodup.of_map).sublist (List.take_sublist _ _)
      · intro x hx
        obtain ⟨hxl, hrank⟩ := (hfirst x).mp hx
        exact hall x hxl hrank
    -- the first ones are as many as there can be among `some`
    have hcount : some.length ≤ ((l.insertionSort
        (fun a b => (cmp (key a) (key b)).isLE = true)).take n).length := by
      have hle := (List.subperm_of_subset hsome hsub).length_le
      rw [List.length_take, hperm.length_eq]
      exact Nat.le_min.mpr ⟨hlen, hle⟩
    have hsame := htop.perm_of_length_le hcount
    have hkeys : (some.map key).Nodup :=
      hsome.map_on (fun x hx y hy => List.inj_on_of_nodup_map hnodup (hsub hx) (hsub hy))
    have htop : Strict (fun a b => cmp (key a) (key b) = .lt) ((l.insertionSort
        (fun a b => (cmp (key a) (key b)).isLE = true)).take n) :=
      ⟨hstrict.sorted.sublist (List.take_sublist _ _), hstrict.asymm⟩
    apply Strict.ext (strict_sorted_by_key key hkeys) htop
    intro x
    rw [List.mem_insertionSort]
    exact hsame.mem_iff.symm

/-- Among the first elements of a list, those before one of them are those of the whole list. -/
theorem Strict.rank_take {before : B → B → Prop} [DecidableRel before] {l : List B}
    (h : Strict before l) (keep : B → Bool) (k : Nat) {x : B} (hx : x ∈ l.take k) :
    rank before ((l.take k).filter keep) x = rank before (l.filter keep) x := by
  have hlater : rank before ((l.drop k).filter keep) x = 0 := by
    unfold rank
    rw [List.countP_eq_zero]
    intro y hy hbefore
    have hsplit := h.sorted
    rw [← List.take_append_drop k l, List.pairwise_append] at hsplit
    exact h.asymm _ _ (of_decide_eq_true hbefore)
      (hsplit.2.2 x hx y (List.mem_of_mem_filter hy))
  conv => rhs; rw [← List.take_append_drop k l, List.filter_append]
  unfold rank at hlater ⊢
  rw [List.countP_append, hlater, Nat.add_zero]

end Sorted

end selection
