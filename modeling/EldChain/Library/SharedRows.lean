-- Names that lead to rows through keys. Names with one key read one row, so
-- a change of the rows leaves a name as it was exactly when the row under
-- its key stays the same. Here a row can be told from what is read of it.
import Mathlib.Logic.Function.Basic

namespace shared_rows

variable {Q K V R : Type} (absent : Q → R) (read : Q → K → Option V → R)

/-- What a name reads: the row under its key, or what is read without a key. -/
def get (index : Q → Option K) (rows : K → Option V) (q : Q) : R :=
  match index q with
  | none => absent q
  | some key => read q key (rows key)

/-- No other row is read as this one is. -/
def Shows (q : Q) (key : K) (row : Option V) : Prop :=
  ∀ row', read q key row' = read q key row → row' = row

variable {absent read} {index index' : Q → Option K} {rows rows' : K → Option V} {other : Q → Prop}

theorem get_of_key {q : Q} {key : K} (h : index q = some key) :
    get absent read index rows q = read q key (rows key) := by
  unfold get
  rw [h]

theorem get_eq_iff {q : Q} (hindex : index' q = index q)
    (hshows : ∀ key, index q = some key → Shows read q key (rows key)) :
    get absent read index' rows' q = get absent read index rows q ↔
      ∀ key, index q = some key → rows' key = rows key := by
  cases hkey : index q with
  | none =>
    unfold get
    rw [hindex, hkey]
    simp
  | some key =>
    rw [get_of_key (hindex.trans hkey), get_of_key hkey]
    constructor
    · rintro hread _ ⟨⟩
      exact hshows key hkey _ hread
    · intro hrow
      rw [hrow key rfl]

/-- The names of a kind whose keys stay read the same exactly when their rows stay. -/
theorem gets_eq_iff (hindex : ∀ q, other q → index' q = index q)
    (hshows : ∀ q key, other q → index q = some key → Shows read q key (rows key)) :
    (∀ q, other q → get absent read index' rows' q = get absent read index rows q) ↔
      ∀ q, other q → ∀ key, index q = some key → rows' key = rows key := by
  apply forall₂_congr
  intro q hq
  exact get_eq_iff (hindex q hq) (fun key => hshows q key hq)

/-! ## What a step assigns -/

/-- The rows after a step: what it assigns to a key, or what was there. -/
def assign (assigned : K → Option (Option V)) (rows : K → Option V) (key : K) : Option V :=
  (assigned key).getD (rows key)

/-- The rows of some names stay exactly when a step assigns to them what they have. -/
theorem kept_assign_iff {assigned : K → Option (Option V)} :
    (∀ q, other q → ∀ key, index q = some key → assign assigned rows key = rows key) ↔
      ∀ q, other q → ∀ key, index q = some key → ∀ row, assigned key = some row →
        rows key = row := by
  apply forall₂_congr
  intro q _
  apply forall₂_congr
  intro key _
  unfold assign
  cases assigned key with
  | none => simp
  | some row => simp [eq_comm]

end shared_rows
