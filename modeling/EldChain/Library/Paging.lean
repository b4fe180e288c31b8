-- Keyset paging: a list in a strictly falling order is read page by page,
-- each page strictly below the last row of the one before. The pages
-- together are the list.
import Mathlib.Data.List.Basic
import Mathlib.Order.Lattice

namespace paging

variable {A P : Type} [LinearOrder P] (pos : A → P)

/-- The rows strictly below a cursor. -/
def below (rows : List A) : Option P → List A
  | none => rows
  | some cursor => rows.filter (fun a => pos a < cursor)

/-- Reads page after page. A fetch gives one row more than a page shows when there are more
rows, and the next page starts below the last row shown. None when the fuel runs out. -/
def follow (fetch : Option P → List A) (limit : Nat) : Nat → Option P → Option (List A)
  | 0, _ => none
  | fuel + 1, cursor =>
    let rows := fetch cursor
    if limit < rows.length then
      match (rows.take limit).getLast? with
      | none => none
      | some last => (follow fetch limit fuel (some (pos last))).map (rows.take limit ++ ·)
    else some rows

/-- Newest first: each row is strictly below the rows before it. -/
def Falling (rows : List A) : Prop := rows.Pairwise (fun a b => pos b < pos a)

variable {pos}

/-- In a falling list the rows below a row are those after it. -/
theorem below_last {shown rest : List A} {last : A}
    (h : Falling pos (shown ++ last :: rest)) :
    below pos (shown ++ last :: rest) (some (pos last)) = rest := by
  unfold Falling at h
  rw [List.pairwise_append, List.pairwise_cons] at h
  obtain ⟨_, ⟨hrest, _⟩, hshown⟩ := h
  have hbefore : ∀ a ∈ shown, ¬ pos a < pos last := by
    intro a ha hlt
    exact absurd hlt (lt_asymm (hshown a ha last List.mem_cons_self))
  rw [below, List.filter_append, List.filter_cons_of_neg (by simp)]
  have hnone : shown.filter (fun a => pos a < pos last) = [] := by
    rw [List.filter_eq_nil_iff]
    intro a ha
    simpa using hbefore a ha
  have hall : rest.filter (fun a => pos a < pos last) = rest := by
    rw [List.filter_eq_self]
    intro a ha
    simpa using hrest a ha
  rw [hnone, hall, List.nil_append]

/-- From a cursor at the last row shown, the pages give the rest. -/
theorem follow_rest {rows : List A} {limit : Nat} {fetch : Option P → List A}
    (hfalling : Falling pos rows) (hlimit : 0 < limit)
    (hfetch : ∀ cursor, fetch cursor = (below pos rows cursor).take (limit + 1)) (fuel : Nat)
    {shown rest : List A} {cursor : Option P} (hrows : rows = shown ++ rest)
    (hbelow : below pos rows cursor = rest) (hfuel : rest.length < fuel) :
    follow pos fetch limit fuel cursor = some rest := by
  induction fuel generalizing shown rest cursor with
  | zero => exact absurd hfuel (Nat.not_lt_zero _)
  | succ fuel ih =>
    rw [follow, hfetch, hbelow]
    by_cases hmore : limit < (rest.take (limit + 1)).length
    · -- a full page, and the extra row says that there is another
      rw [if_pos hmore]
      rw [List.length_take] at hmore
      have hpage : (rest.take (limit + 1)).take limit = rest.take limit := by
        rw [List.take_take, Nat.min_eq_left (by omega)]
      have hne : rest.take limit ≠ [] := by
        intro hnil
        have := congrArg List.length hnil
        rw [List.length_take, List.length_nil] at this
        omega
      have hsplit : rest.take limit = (rest.take limit).dropLast ++
          [(rest.take limit).getLast hne] := (List.dropLast_append_getLast hne).symm
      have hrest : rest = (rest.take limit).dropLast ++
          (rest.take limit).getLast hne :: rest.drop limit := by
        conv_lhs => rw [← List.take_append_drop limit rest, hsplit, List.append_assoc]
        rfl
      have hrows' : rows = (shown ++ (rest.take limit).dropLast) ++
          (rest.take limit).getLast hne :: rest.drop limit := by
        rw [List.append_assoc, ← hrest]
        exact hrows
      have hnext : below pos rows (some (pos ((rest.take limit).getLast hne))) =
          rest.drop limit := by
        rw [hrows'] at hfalling ⊢
        exact below_last hfalling
      have hshown : rows = (shown ++ rest.take limit) ++ rest.drop limit := by
        rw [List.append_assoc, List.take_append_drop]
        exact hrows
      rw [hpage, List.getLast?_eq_some_getLast hne]
      simp only
      rw [ih hshown hnext (by rw [List.length_drop]; omega), Option.map_some,
        List.take_append_drop]
    · rw [if_neg hmore, List.take_of_length_le]
      rw [List.length_take] at hmore
      omega

/-- Following the pages from the first one ends, and gives every row once, in order. -/
theorem follow_all {rows : List A} {limit : Nat} {fetch : Option P → List A}
    (hfalling : Falling pos rows) (hlimit : 0 < limit)
    (hfetch : ∀ cursor, fetch cursor = (below pos rows cursor).take (limit + 1)) {fuel : Nat}
    (hfuel : rows.length < fuel) : follow pos fetch limit fuel none = some rows :=
  follow_rest hfalling hlimit hfetch fuel (List.nil_append rows).symm rfl hfuel

end paging
