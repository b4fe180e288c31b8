-- Reading an ordered list of keys. A scan that starts at a lead and stops
-- at the first key without it meets the keys with the lead, and no other.
-- A list that is read in pages of one size, until a page says that no
-- more follow, is read once.
import EldChain.Library.Selection
import Mathlib.Data.List.Basic

open Std

namespace scans

/-! ## Keys with a lead -/

variable {A : Type} [Ord A] [LawfulEqOrd A]

theorem compare_append_same (t l m : List A) :
    compare (t ++ l) (t ++ m) = compare l m := by
  induction t with
  | nil => rfl
  | cons a t ih =>
    rw [List.cons_append, List.cons_append, List.compare_cons_cons, ih, ReflOrd.compare_self]
    rfl

variable [BEq A] [LawfulBEq A]

/-- The keys from `start` on. -/
def seek (start : List A) (keys : List (List A)) : List (List A) :=
  keys.dropWhile (fun key => (compare key start).isLT)

/-- The keys that a scan from `lead` meets before the first one without it. -/
def withLead (lead : List A) (keys : List (List A)) : List (List A) :=
  (seek lead keys).takeWhile (fun key => lead.isPrefixOf key)

/-- Each key is below the keys after it. -/
def Rising (keys : List (List A)) : Prop := keys.Pairwise (fun a b => compare a b = .lt)

/-- A key below a lead does not have it. -/
theorem not_lead_of_lt {lead key : List A} (h : compare key lead = .lt) :
    lead.isPrefixOf key = false := by
  rw [Bool.eq_false_iff]
  intro hlead
  obtain ⟨rest, rfl⟩ := List.isPrefixOf_iff_prefix.mp hlead
  have hrest := compare_append_same lead rest []
  rw [List.append_nil, h] at hrest
  cases rest with
  | nil => cases hrest
  | cons a rest => cases hrest

variable [TransOrd A]

/-- Past a key that is above the lead without having it, no key has the lead. -/
theorem not_lead_of_past {lead key later : List A} (habove : compare key lead ≠ .lt)
    (hkey : lead.isPrefixOf key = false) (hlater : compare key later = .lt) :
    lead.isPrefixOf later = false := by
  induction lead generalizing key later with
  | nil => simp at hkey
  | cons a lead ih =>
    cases key with
    | nil => exact absurd rfl habove
    | cons b key =>
      cases later with
      | nil => cases hlater
      | cons c later =>
        rw [List.compare_cons_cons] at habove hlater
        rw [List.isPrefixOf_cons_cons] at hkey ⊢
        by_cases hca : a = c
        · subst hca
          cases hcmp : compare b a with
          | lt =>
            rw [hcmp] at habove
            exact absurd rfl habove
          | gt =>
            rw [hcmp] at hlater
            cases hlater
          | eq =>
            obtain rfl := LawfulEqOrd.eq_of_compare hcmp
            rw [ReflOrd.compare_self] at habove hlater
            rw [beq_self_eq_true, Bool.true_and] at hkey ⊢
            exact ih habove hkey hlater
        · rw [beq_eq_false_iff_ne.mpr hca, Bool.false_and]

/-- The keys above a lead that stand together at the start are all that have it. -/
theorem takeWhile_lead {lead : List A} {keys : List (List A)} (hrising : Rising keys)
    (habove : ∀ key ∈ keys, compare key lead ≠ .lt) :
    keys.takeWhile (fun key => lead.isPrefixOf key) =
      keys.filter (fun key => lead.isPrefixOf key) := by
  induction keys with
  | nil => rfl
  | cons key keys ih =>
    unfold Rising at hrising ih
    rw [List.pairwise_cons] at hrising
    cases hkey : lead.isPrefixOf key with
    | true =>
      rw [List.takeWhile_cons_of_pos hkey, List.filter_cons_of_pos hkey,
        ih hrising.2 (fun k hk => habove k (List.mem_cons_of_mem _ hk))]
    | false =>
      have hnone : keys.filter (fun key => lead.isPrefixOf key) = [] := by
        rw [List.filter_eq_nil_iff]
        intro later hlater
        rw [not_lead_of_past (habove key List.mem_cons_self) hkey (hrising.1 later hlater)]
        exact Bool.false_ne_true
      rw [List.takeWhile_cons_of_neg (by simp [hkey]), List.filter_cons_of_neg (by simp [hkey]),
        hnone]

/-- The scan meets the keys with the lead, in their order. -/
theorem withLead_eq_filter (lead : List A) {keys : List (List A)} (hrising : Rising keys) :
    withLead lead keys = keys.filter (fun key => lead.isPrefixOf key) := by
  unfold withLead seek
  induction keys with
  | nil => rfl
  | cons key keys ih =>
    cases hcmp : (compare key lead).isLT with
    | true =>
      have hkey := not_lead_of_lt (Ordering.isLT_iff_eq_lt.mp hcmp)
      rw [List.dropWhile_cons, if_pos hcmp, ih (List.Pairwise.of_cons hrising),
        List.filter_cons_of_neg (by simp [hkey])]
    | false =>
      have hfirst : compare key lead ≠ .lt := by
        intro hlt
        rw [hlt] at hcmp
        cases hcmp
      rw [List.dropWhile_cons, if_neg (by simp [hcmp]), takeWhile_lead hrising]
      intro later hlater
      rcases List.mem_cons.mp hlater with rfl | hlater
      · exact hfirst
      · intro hlt
        have hbelow := (List.pairwise_cons.mp hrising).1 later hlater
        exact hfirst (TransCmp.lt_trans hbelow hlt)

omit [LawfulEqOrd A] [BEq A] [LawfulBEq A] in
/-- Lists of the same keys, both in their order, are equal. -/
theorem Rising.ext {l m : List (List A)} (hl : Rising l) (hm : Rising m)
    (hmem : ∀ key, key ∈ l ↔ key ∈ m) : l = m :=
  selection.Strict.ext (selection.strict_of_sorted hl) (selection.strict_of_sorted hm) hmem

omit [LawfulEqOrd A] [BEq A] [LawfulBEq A] in
/-- A walk from a key on meets the keys that are not below it. -/
theorem seek_eq_filter (start : List A) {keys : List (List A)} (hrising : Rising keys) :
    seek start keys = keys.filter (fun key => !(compare key start).isLT) := by
  unfold seek
  induction keys with
  | nil => rfl
  | cons key keys ih =>
    have hrest := ih (List.Pairwise.of_cons hrising)
    cases hcmp : (compare key start).isLT with
    | true =>
      rw [List.dropWhile_cons, if_pos hcmp, List.filter_cons_of_neg (by simp [hcmp]), hrest]
    | false =>
      have hall : ∀ later ∈ key :: keys, (!(compare later start).isLT) = true := by
        intro later hlater
        rw [Bool.not_eq_true', Bool.eq_false_iff]
        intro hbelow
        rcases List.mem_cons.mp hlater with rfl | hlater
        · rw [hcmp] at hbelow
          cases hbelow
        · have habove := (List.pairwise_cons.mp hrising).1 later hlater
          have hlt := TransCmp.lt_trans habove (Ordering.isLT_iff_eq_lt.mp hbelow)
          rw [hlt] at hcmp
          cases hcmp
      rw [List.dropWhile_cons, if_neg (by simp [hcmp]), List.filter_eq_self.mpr hall]

omit [BEq A] [LawfulBEq A] in
/-- A key between two bounds that differ in their last symbol has the lead of both, and then a
symbol between the two. -/
theorem split_of_between {lead key : List A} {c d : A}
    (hlower : (compare (lead ++ [c]) key).isLE = true)
    (hupper : (compare key (lead ++ [d])).isLT = true) :
    ∃ b rest, key = lead ++ b :: rest ∧ (compare c b).isLE = true ∧ compare b d = .lt := by
  induction lead generalizing key with
  | nil =>
    cases key with
    | nil => cases hlower
    | cons b rest =>
      rw [List.nil_append, List.compare_cons_cons] at hlower hupper
      refine ⟨b, rest, rfl, ?_, ?_⟩
      · cases hcmp : compare c b with
        | lt => rfl
        | eq => rfl
        | gt =>
          rw [hcmp] at hlower
          cases hlower
      · cases hcmp : compare b d with
        | lt => rfl
        | gt =>
          rw [hcmp] at hupper
          cases hupper
        | eq =>
          rw [hcmp] at hupper
          cases rest with
          | nil => cases hupper
          | cons _ _ => cases hupper
  | cons a lead ih =>
    cases key with
    | nil => cases hlower
    | cons b rest =>
      rw [List.cons_append, List.compare_cons_cons] at hlower hupper
      have hab : a = b := by
        cases hcmp : compare a b with
        | eq => exact LawfulEqOrd.eq_of_compare hcmp
        | lt =>
          rw [OrientedCmp.gt_of_lt hcmp] at hupper
          cases hupper
        | gt =>
          rw [hcmp] at hlower
          cases hlower
      subst hab
      rw [ReflOrd.compare_self] at hlower hupper
      obtain ⟨s, tail, htail, hbetween⟩ := ih hlower hupper
      exact ⟨s, tail, by rw [htail, List.cons_append], hbetween⟩

/-! ## Pages of one size -/

section Pages

variable {B E : Type}

/-- The page with this number. -/
def slice (rows : List B) (size page : Nat) : List B := (rows.drop (page * size)).take size

/-- Reads page after page until one says that no more follow. None when the fuel runs out. -/
def collect (fetch : Nat → Except E (List B × Bool)) : Nat → Nat → Option (Except E (List B))
  | 0, _ => none
  | fuel + 1, page =>
    match fetch page with
    | .error e => some (.error e)
    | .ok (items, false) => some (.ok items)
    | .ok (items, true) => (collect fetch fuel (page + 1)).map (fun r => r.map (items ++ ·))

/-- There is a later row exactly when a later page is not empty. -/
theorem more_iff {rows : List B} {size : Nat} (hsize : 0 < size) (page : Nat) :
    (page + 1) * size < rows.length ↔ ∃ later, page < later ∧ slice rows size later ≠ [] := by
  have hne : ∀ later, slice rows size later ≠ [] ↔ later * size < rows.length := by
    intro later
    unfold slice
    rw [ne_eq, ← List.length_eq_zero_iff, List.length_take, List.length_drop]
    omega
  constructor
  · intro hmore
    exact ⟨page + 1, Nat.lt_succ_self page, (hne _).mpr hmore⟩
  · rintro ⟨later, hlater, hrows⟩
    exact Nat.lt_of_le_of_lt (Nat.mul_le_mul_right size hlater) ((hne later).mp hrows)

variable {fetch : Nat → Except E (List B × Bool)} {rows : List B} {size : Nat}
variable {Refused : Nat → Prop} {refusal : E}

/-- From a page on, the pages give the rest, unless one of them is refused. -/
theorem collect_rest (hsize : 0 < size)
    (hfetch : ∀ page, fetch page = .ok (slice rows size page, decide ((page + 1) * size < rows.length)) ∨
      Refused page ∧ fetch page = .error refusal)
    (fuel page : Nat) (hfuel : rows.length < fuel + page * size) (hfuel' : 0 < fuel) :
    collect fetch fuel page = some (.ok (rows.drop (page * size))) ∨
      (∃ refused, Refused refused) ∧ collect fetch fuel page = some (.error refusal) := by
  induction fuel generalizing page with
  | zero => cases hfuel'
  | succ fuel ih =>
    rw [collect]
    rcases hfetch page with hpage | ⟨hrefused, hpage⟩
    · rw [hpage]
      by_cases hmore : (page + 1) * size < rows.length
      · rw [decide_eq_true hmore]
        rw [Nat.add_one_mul] at hmore
        have hnext : rows.length < fuel + (page + 1) * size := by
          rw [Nat.add_one_mul]
          omega
        rcases ih (page + 1) hnext (by omega) with hrest | ⟨hrefused, hrest⟩
        · left
          simp only [hrest, Option.map_some, Except.map]
          unfold slice
          rw [Nat.add_one_mul, ← List.drop_drop, List.take_append_drop]
        · right
          simp only [hrest, Option.map_some, Except.map]
          exact ⟨hrefused, trivial⟩
      · rw [decide_eq_false hmore]
        left
        unfold slice
        rw [Nat.add_one_mul] at hmore
        simp only
        rw [List.take_of_length_le]
        rw [List.length_drop]
        omega
    · rw [hpage]
      exact Or.inr ⟨⟨page, hrefused⟩, rfl⟩

/-- Where the pages show what they have of some rows, and say that more follow at least while rows
are left, they show them all, if one of them says that no more follow. -/
theorem collect_shown {C : Type} {fetch : Nat → Except E (List C × Bool)} (shown : List B → List C)
    (happend : ∀ l m, shown (l ++ m) = shown l ++ shown m) {more : Nat → Bool}
    (hfetch : ∀ page, fetch page = .ok (shown (slice rows size page), more page))
    (hmore : ∀ page, (page + 1) * size < rows.length → more page = true) {last : Nat}
    (hlast : more last = false) (fuel page : Nat) (hpage : page ≤ last) (hfuel : last < fuel + page) :
    collect fetch fuel page = some (.ok (shown (rows.drop (page * size)))) := by
  induction fuel generalizing page with
  | zero => omega
  | succ fuel ih =>
    rw [collect, hfetch page]
    cases hpage' : more page with
    | false =>
      have hend : ¬ (page + 1) * size < rows.length := by
        intro hleft
        rw [hmore page hleft] at hpage'
        cases hpage'
      rw [Nat.add_one_mul] at hend
      simp only [Option.some.injEq, Except.ok.injEq]
      unfold slice
      rw [List.take_of_length_le (by rw [List.length_drop]; omega)]
    | true =>
      have hnext : page + 1 ≤ last := by
        rcases Nat.lt_or_eq_of_le hpage with hlt | rfl
        · exact hlt
        · rw [hlast] at hpage'
          cases hpage'
      simp only [ih (page + 1) hnext (by omega), Option.map_some, Except.map]
      rw [← happend]
      unfold slice
      rw [Nat.add_one_mul, ← List.drop_drop, List.take_append_drop]

end Pages

end scans
