-- Binary hash trees over a row of leaves: a node at the end of an odd row
-- is joined with itself. How a leaf climbs to the root, how writing a few
-- leaves and the nodes above them rebuilds the tree, and what a root can
-- stand over when the join has no collision among the pairs that were
-- joined.
import Mathlib.Data.List.Basic
import Mathlib.Data.Nat.Bitwise
import Mathlib.Data.Nat.Log

namespace hash_tree

variable {H : Type} (join : H → H → H)

/-! ## Rows -/

/-- The row above a row. -/
def levelUp : List H → List H
  | [] => []
  | [a] => [join a a]
  | a :: b :: rest => join a b :: levelUp rest

/-- The row `d` levels above a row. -/
def above : Nat → List H → List H
  | 0, row => row
  | d + 1, row => above d (levelUp join row)

/-- A row and the `d` rows above it, lowest first. -/
def rows : Nat → List H → List (List H)
  | 0, row => [row]
  | d + 1, row => row :: rows d (levelUp join row)

theorem length_levelUp (row : List H) : (levelUp join row).length = (row.length + 1) / 2 := by
  induction row using levelUp.induct with
  | case1 => simp [levelUp]
  | case2 a => simp [levelUp]
  | case3 a b rest ih =>
    simp only [levelUp, List.length_cons, ih]
    omega

/-- A node stands over the two nodes below it, or over one node twice. -/
theorem levelUp_get (row : List H) (k : Nat) :
    (levelUp join row)[k]? = row[2 * k]?.map (fun a => join a (row[2 * k + 1]?.getD a)) := by
  induction row using levelUp.induct generalizing k with
  | case1 => simp [levelUp]
  | case2 a =>
    cases k with
    | zero => simp [levelUp]
    | succ k => simp [levelUp, show 2 * (k + 1) = (2 * k + 1) + 1 by omega]
  | case3 a b rest ih =>
    cases k with
    | zero => simp [levelUp]
    | succ k =>
      rw [levelUp, List.getElem?_cons_succ, ih, show 2 * (k + 1) = 2 * k + 1 + 1 by omega]
      rfl

theorem above_succ (d : Nat) (row : List H) :
    above join (d + 1) row = levelUp join (above join d row) := by
  induction d generalizing row with
  | zero => rfl
  | succ d ih => exact ih (levelUp join row)

theorem length_rows (d : Nat) (row : List H) : (rows join d row).length = d + 1 := by
  induction d generalizing row with
  | zero => rfl
  | succ d ih => rw [rows, List.length_cons, ih]

theorem rows_get (d : Nat) (row : List H) {e : Nat} (h : e ≤ d) :
    (rows join d row)[e]? = some (above join e row) := by
  induction d generalizing row e with
  | zero =>
    have he : e = 0 := by omega
    subst he
    rfl
  | succ d ih =>
    cases e with
    | zero => rfl
    | succ e =>
      rw [rows, List.getElem?_cons_succ]
      exact ih _ (by omega)

/-- A row of `n` nodes has one node left after `Nat.clog 2 n` levels. -/
theorem length_above_clog (row : List H) (h : row ≠ []) :
    (above join (Nat.clog 2 row.length) row).length = 1 := by
  induction hn : row.length using Nat.strongRecOn generalizing row with
  | _ n ih =>
    have hpos : 0 < row.length := List.length_pos_of_ne_nil h
    by_cases hone : n ≤ 1
    · rw [Nat.clog_of_right_le_one hone]
      change row.length = 1
      omega
    · have hup := length_levelUp join row
      rw [Nat.clog_of_two_le (by omega) (by omega), above]
      have hne : levelUp join row ≠ [] := by
        intro hnil
        rw [hnil] at hup
        simp only [List.length_nil] at hup
        omega
      have hlen : (levelUp join row).length = (n + 2 - 1) / 2 := by omega
      rw [← hlen]
      exact ih _ (by omega) _ hne rfl

/-! ## Climbing from a leaf -/

/-- The two sides of the node above `a`, when `a` stands at place `i` and `s` beside it. -/
def sides (i : Nat) (a s : H) : H × H := if i % 2 = 0 then (a, s) else (s, a)

/-- The node above `a`. -/
def joinAt (i : Nat) (a s : H) : H := join (sides i a s).1 (sides i a s).2

/-- What stands beside place `i`: at the end of an odd row, the node itself. -/
def sibling (row : List H) (i : Nat) : Option H :=
  (row[if i % 2 = 0 then i + 1 else i - 1]?).or row[i]?

/-- The siblings on the way up from place `i`. -/
def path : Nat → List H → Nat → Option (List H)
  | 0, _, _ => some []
  | d + 1, row, i =>
    match sibling row i with
    | none => none
    | some s => (path d (levelUp join row) (i / 2)).map (s :: ·)

/-- The node that a leaf at place `i` and its siblings lead to. -/
def climb : H → Nat → List H → H
  | a, _, [] => a
  | a, i, s :: rest => climb (joinAt join i a s) (i / 2) rest

theorem parent_of_sibling {row : List H} {i : Nat} {a : H} (h : row[i]? = some a) :
    ∃ s, sibling row i = some s ∧ (levelUp join row)[i / 2]? = some (joinAt join i a s) := by
  unfold sibling joinAt sides
  rw [levelUp_get]
  by_cases heven : i % 2 = 0
  · have hi : 2 * (i / 2) = i := by omega
    rw [if_pos heven, hi, h]
    cases hs : row[i + 1]? with
    | none => exact ⟨a, rfl, by simp [heven]⟩
    | some s => exact ⟨s, rfl, by simp [heven]⟩
  · have hi : 2 * (i / 2) = i - 1 := by omega
    have hi' : i - 1 + 1 = i := by omega
    obtain ⟨hlt, _⟩ := List.getElem?_eq_some_iff.mp h
    have hs : row[i - 1]? = some (row.get ⟨i - 1, by omega⟩) :=
      List.getElem?_eq_getElem (by omega)
    rw [if_neg heven, hi, hi', h, hs]
    exact ⟨row.get ⟨i - 1, by omega⟩, rfl, by simp [heven]⟩

/-- Every leaf of a row has a path, and the path leads to the node over it. -/
theorem climb_path (d : Nat) {row : List H} {i : Nat} {a : H} (h : row[i]? = some a) :
    ∃ p, path join d row i = some p ∧ p.length = d ∧
      (above join d row)[i / 2 ^ d]? = some (climb join a i p) := by
  induction d generalizing row i a with
  | zero => exact ⟨[], rfl, rfl, by simpa [above, climb] using h⟩
  | succ d ih =>
    obtain ⟨s, hs, hup⟩ := parent_of_sibling join h
    obtain ⟨p, hp, hlen, htop⟩ := ih hup
    refine ⟨s :: p, ?_, ?_, ?_⟩
    · rw [path, hs]
      simp only [hp, Option.map_some]
    · rw [List.length_cons, hlen]
    · rw [above, climb, Nat.pow_succ', ← Nat.div_div_eq_div_mul]
      exact htop

/-- Every leaf of a row leads to the one node at the top. -/
theorem climb_path_top {row : List H} {i : Nat} {a top : H} (h : row[i]? = some a)
    (htop : (above join (Nat.clog 2 row.length) row)[0]? = some top) :
    ∃ p, path join (Nat.clog 2 row.length) row i = some p ∧
      p.length = Nat.clog 2 row.length ∧ climb join a i p = top := by
  obtain ⟨p, hp, hlen, hclimb⟩ := climb_path join (Nat.clog 2 row.length) h
  have hlt : i < 2 ^ Nat.clog 2 row.length := by
    have hi := (List.getElem?_eq_some_iff.mp h).1
    exact lt_of_lt_of_le hi (Nat.le_pow_clog (by omega) _)
  rw [Nat.div_eq_of_lt hlt, htop] at hclimb
  exact ⟨p, hp, hlen, (Option.some.inj hclimb).symm⟩

/-! ## Writing some nodes of a row -/

/-- Writes one value after another. A place outside the row is passed over. -/
def setAll (writes : List (Nat × H)) (row : List H) : List H :=
  writes.foldl (fun row w => row.set w.1 w.2) row

@[simp] theorem setAll_nil (row : List H) : setAll [] row = row := rfl

@[simp] theorem setAll_cons (w : Nat × H) (writes : List (Nat × H)) (row : List H) :
    setAll (w :: writes) row = setAll writes (row.set w.1 w.2) := rfl

@[simp] theorem length_setAll (writes : List (Nat × H)) (row : List H) :
    (setAll writes row).length = row.length := by
  induction writes generalizing row with
  | nil => rfl
  | cons w writes ih => rw [setAll_cons, ih, List.length_set]

theorem setAll_get_of_untouched {writes : List (Nat × H)} {k : Nat}
    (h : k ∉ writes.map Prod.fst) (row : List H) : (setAll writes row)[k]? = row[k]? := by
  induction writes generalizing row with
  | nil => rfl
  | cons w writes ih =>
    rw [List.map_cons, List.mem_cons, not_or] at h
    rw [setAll_cons, ih h.2, List.getElem?_set_ne (fun hw => h.1 hw.symm)]

/-- A place that is written with one value only holds that value. -/
theorem setAll_get_of_written {writes : List (Nat × H)} {k : Nat} {v : H}
    (h : k ∈ writes.map Prod.fst) (hv : ∀ w ∈ writes, w.1 = k → w.2 = v) {row : List H}
    (hk : k < row.length) : (setAll writes row)[k]? = some v := by
  induction writes generalizing row with
  | nil => cases h
  | cons w writes ih =>
    rw [setAll_cons]
    by_cases hlater : k ∈ writes.map Prod.fst
    · refine ih hlater (fun u hu => hv u (List.mem_cons_of_mem _ hu)) ?_
      rw [List.length_set]
      exact hk
    · -- the first write is the only one at this place
      have hw : w.1 = k := by
        rcases List.mem_cons.mp (List.map_cons ▸ h) with h | h
        · exact h.symm
        · exact absurd h hlater
      rw [setAll_get_of_untouched hlater, hw, List.getElem?_set_self hk,
        hv w List.mem_cons_self hw]

/-- Writes at other places may be made in either order. -/
theorem setAll_comm {ws us : List (Nat × H)}
    (h : ∀ w ∈ ws, ∀ u ∈ us, w.1 ≠ u.1) (row : List H) :
    setAll ws (setAll us row) = setAll us (setAll ws row) := by
  induction ws generalizing row with
  | nil => rfl
  | cons w ws ih =>
    have hone : ∀ (us : List (Nat × H)), (∀ u ∈ us, w.1 ≠ u.1) → ∀ row : List H,
        (setAll us row).set w.1 w.2 = setAll us (row.set w.1 w.2) := by
      intro us
      induction us with
      | nil => intro _ row; rfl
      | cons u us ihu =>
        intro hne row
        rw [setAll_cons, setAll_cons, ihu (fun v hv => hne v (List.mem_cons_of_mem _ hv)),
          List.set_comm _ _ (fun hu => hne u List.mem_cons_self hu.symm)]
    rw [setAll_cons, setAll_cons, hone us (h w List.mem_cons_self)]
    exact ih (fun v hv => h v (List.mem_cons_of_mem _ hv)) _

theorem setAll_append (ws us : List (Nat × H)) (row : List H) :
    setAll (ws ++ us) row = setAll us (setAll ws row) := by
  rw [setAll, List.foldl_append]
  rfl

/-- Writing the places where two functions differ turns the row of the one into the row of
the other. -/
theorem setAll_map_range {f g : Nat → H} {writes : List (Nat × H)}
    (hsame : ∀ k, k ∉ writes.map Prod.fst → g k = f k) (hright : ∀ w ∈ writes, w.2 = g w.1)
    (n : Nat) : setAll writes ((List.range n).map f) = (List.range n).map g := by
  apply List.ext_getElem?
  intro k
  by_cases hk : k < n
  · rw [List.getElem?_map (f := g), List.getElem?_range hk]
    by_cases hw : k ∈ writes.map Prod.fst
    · refine setAll_get_of_written hw (fun w hmem hwk => ?_) (by simpa using hk)
      rw [hright w hmem, hwk]
    · rw [setAll_get_of_untouched hw, List.getElem?_map, List.getElem?_range hk, Option.map_some,
        Option.map_some, hsame k hw]
  · rw [List.getElem?_eq_none (by simpa using hk), List.getElem?_eq_none (by simpa using hk)]

/-- Writing the nodes over the changed places, and no others, gives the row above the
changed row. -/
theorem setAll_parents {row row' : List H} {nodes : List Nat} {writes : List (Nat × H)}
    (hlen : row'.length = row.length) (hsame : ∀ i, i ∉ nodes → row'[i]? = row[i]?)
    (hright : ∀ w ∈ writes, (levelUp join row')[w.1]? = some w.2)
    (hcover : ∀ i ∈ nodes, i / 2 ∈ writes.map Prod.fst) :
    setAll writes (levelUp join row) = levelUp join row' := by
  apply List.ext_getElem?
  intro k
  by_cases hk : k ∈ writes.map Prod.fst
  · obtain ⟨w, hw, rfl⟩ := List.mem_map.mp hk
    have hget := hright w hw
    rw [hget]
    apply setAll_get_of_written hk
    · intro u hu huw
      have hu' := hright u hu
      rw [huw, hget] at hu'
      exact (Option.some.inj hu').symm
    · have hin := (List.getElem?_eq_some_iff.mp hget).1
      rw [length_levelUp] at hin ⊢
      omega
  · rw [setAll_get_of_untouched hk, levelUp_get, levelUp_get]
    have hleft : 2 * k ∉ nodes := by
      intro hin
      have := hcover _ hin
      rw [show 2 * k / 2 = k by omega] at this
      exact hk this
    have hright' : 2 * k + 1 ∉ nodes := by
      intro hin
      have := hcover _ hin
      rw [show (2 * k + 1) / 2 = k by omega] at this
      exact hk this
    rw [hsame _ hleft, hsame _ hright']

/-! ## What a root stands over -/

section Asked

-- `asked a b`: the pair `(a, b)` is one that was joined by somebody. Only these pairs are
-- assumed to be free of collisions.
variable (asked : H → H → Prop)

/-- No two of the pairs that were joined have one join. -/
def CollisionFree : Prop :=
  ∀ a b a' b', asked a b → asked a' b' → join a b = join a' b' → a = a' ∧ b = b'

/-- `c` stands `d` levels below `top`, on the way that the low `d` bits of `i` give. -/
def Under : Nat → Nat → H → H → Prop
  | 0, _, top, c => top = c
  | d + 1, i, top, c =>
    ∃ l r, asked l r ∧ top = join l r ∧ Under d i (if i.testBit d then r else l) c

/-- Every pair that a climb joins was asked. -/
def ClimbAsked : H → Nat → List H → Prop
  | _, _, [] => True
  | a, i, s :: rest =>
    asked (sides i a s).1 (sides i a s).2 ∧ ClimbAsked (joinAt join i a s) (i / 2) rest

/-- Every pair that the `d` rows above a row join was asked. -/
def TreeAsked (d : Nat) (row : List H) : Prop :=
  ∀ e < d, ∀ k a, (above join e row)[2 * k]? = some a →
    asked a ((above join e row)[2 * k + 1]?.getD a)

variable {join asked}

theorem climb_snoc (a : H) (i : Nat) (p : List H) (s : H) :
    climb join a i (p ++ [s]) = joinAt join (i / 2 ^ p.length) (climb join a i p) s := by
  induction p generalizing a i with
  | nil => simp [climb]
  | cons t p ih =>
    rw [List.cons_append, climb, ih, climb, List.length_cons, Nat.pow_succ',
      Nat.div_div_eq_div_mul]

theorem climbAsked_snoc (a : H) (i : Nat) (p : List H) (s : H) :
    ClimbAsked join asked a i (p ++ [s]) ↔ ClimbAsked join asked a i p ∧
      asked (sides (i / 2 ^ p.length) (climb join a i p) s).1
        (sides (i / 2 ^ p.length) (climb join a i p) s).2 := by
  induction p generalizing a i with
  | nil => simp [ClimbAsked, climb]
  | cons t p ih =>
    rw [List.cons_append, ClimbAsked, ih, ClimbAsked, climb, List.length_cons, Nat.pow_succ',
      Nat.div_div_eq_div_mul, and_assoc]

/-- The verifier's climb from below and the way down from the root meet: a leaf stands under
`top` exactly when some path of that length leads from it to `top`. -/
theorem under_iff_climb {d i : Nat} {top c : H} :
    Under join asked d i top c ↔
      ∃ p, p.length = d ∧ ClimbAsked join asked c i p ∧ climb join c i p = top := by
  induction d generalizing top with
  | zero =>
    constructor
    · intro h
      exact ⟨[], rfl, trivial, h.symm⟩
    · rintro ⟨p, hlen, _, hclimb⟩
      rw [List.length_eq_zero_iff.mp hlen] at hclimb
      exact hclimb.symm
  | succ d ih =>
    have hodd : i.testBit d = true ↔ ¬ i / 2 ^ d % 2 = 0 := by
      rw [Nat.testBit_eq_decide_div_mod_eq, decide_eq_true_iff]
      omega
    constructor
    · rintro ⟨l, r, hasked, rfl, hchild⟩
      obtain ⟨p, hlen, hpasked, hclimb⟩ := ih.mp hchild
      refine ⟨p ++ [if i.testBit d then l else r], by simp [hlen], ?_, ?_⟩
      · rw [climbAsked_snoc, hlen, hclimb]
        refine ⟨hpasked, ?_⟩
        by_cases hb : i.testBit d = true
        · rw [sides, if_neg (hodd.mp hb), if_pos hb, if_pos hb]
          exact hasked
        · rw [sides, if_pos (not_not.mp (fun hn => hb (hodd.mpr hn))), if_neg hb, if_neg hb]
          exact hasked
      · rw [climb_snoc, hlen, hclimb, joinAt]
        by_cases hb : i.testBit d = true
        · rw [sides, if_neg (hodd.mp hb), if_pos hb, if_pos hb]
        · rw [sides, if_pos (not_not.mp (fun hn => hb (hodd.mpr hn))), if_neg hb, if_neg hb]
    · rintro ⟨q, hlen, hasked, hclimb⟩
      obtain ⟨p, s, rfl⟩ : ∃ p s, q = p ++ [s] := by
        refine ⟨q.dropLast, q.getLast ?_, (List.dropLast_append_getLast _).symm⟩
        intro hnil
        rw [hnil] at hlen
        cases hlen
      have hp : p.length = d := by
        rw [List.length_append, List.length_singleton] at hlen
        omega
      rw [climbAsked_snoc, hp] at hasked
      rw [climb_snoc, hp, joinAt] at hclimb
      refine ⟨_, _, hasked.2, hclimb.symm, ih.mpr ⟨p, hp, hasked.1, ?_⟩⟩
      by_cases hb : i.testBit d = true
      · rw [sides, if_neg (hodd.mp hb), if_pos hb]
      · rw [sides, if_pos (not_not.mp (fun hn => hb (hodd.mpr hn))), if_neg hb]

/-- At one depth a place holds one node only. -/
theorem Under.unique (hfree : CollisionFree join asked) {d i : Nat} {top c c' : H}
    (h : Under join asked d i top c) (h' : Under join asked d i top c') : c = c' := by
  induction d generalizing top with
  | zero => exact h.symm.trans h'
  | succ d ih =>
    obtain ⟨l, r, hasked, rfl, hchild⟩ := h
    obtain ⟨l', r', hasked', hjoin, hchild'⟩ := h'
    obtain ⟨rfl, rfl⟩ := hfree l r l' r' hasked hasked' hjoin
    exact ih hchild hchild'

/-- A way down may be cut in two. -/
theorem under_add {d e i : Nat} {top c : H} (h : Under join asked (d + e) i top c) :
    ∃ mid, Under join asked d (i / 2 ^ e) top mid ∧ Under join asked e i mid c := by
  induction d generalizing top with
  | zero => exact ⟨top, rfl, by simpa using h⟩
  | succ d ih =>
    rw [show d + 1 + e = d + e + 1 by omega] at h
    obtain ⟨l, r, hasked, htop, hchild⟩ := h
    obtain ⟨mid, hmid, hrest⟩ := ih hchild
    refine ⟨mid, ⟨l, r, hasked, htop, ?_⟩, hrest⟩
    rw [Nat.testBit_div_two_pow]
    exact hmid

theorem mem_levelUp {row : List H} {top : H} (h : top ∈ levelUp join row) :
    ∃ k a, row[2 * k]? = some a ∧ top = join a (row[2 * k + 1]?.getD a) := by
  obtain ⟨k, hk⟩ := List.getElem?_of_mem h
  rw [levelUp_get] at hk
  obtain ⟨a, ha, htop⟩ := Option.map_eq_some_iff.mp hk
  exact ⟨k, a, ha, htop.symm⟩

theorem mem_pair {row : List H} {k : Nat} {a : H} (h : row[2 * k]? = some a) :
    a ∈ row ∧ row[2 * k + 1]?.getD a ∈ row := by
  have ha := List.mem_of_getElem? h
  refine ⟨ha, ?_⟩
  cases hb : row[2 * k + 1]? with
  | none => exact ha
  | some b => exact List.mem_of_getElem? hb

/-- Whatever stands `m` levels below a node of a tree is a node of the tree, `m` rows
further down. -/
theorem Under.mem_above (hfree : CollisionFree join asked) {d : Nat} {row : List H}
    (htree : TreeAsked join asked d row) {m e i : Nat} {top c : H} (hd : e + m ≤ d)
    (htop : top ∈ above join (e + m) row) (h : Under join asked m i top c) :
    c ∈ above join e row := by
  induction m generalizing top with
  | zero =>
    rw [← show top = c from h]
    exact htop
  | succ m ih =>
    obtain ⟨l, r, hasked, hjoin, hchild⟩ := h
    rw [← Nat.add_assoc, above_succ] at htop
    obtain ⟨k, a, ha, hup⟩ := mem_levelUp htop
    obtain ⟨hl, hr⟩ := hfree _ _ _ _ hasked (htree (e + m) (by omega) k a ha) (hjoin ▸ hup)
    refine ih (by omega) ?_ hchild
    have hmem := mem_pair ha
    by_cases hb : i.testBit m = true
    · rw [if_pos hb, hr]
      exact hmem.2
    · rw [if_neg hb, hl]
      exact hmem.1

/-- The siblings of a tree join only pairs that the tree joins. -/
theorem climbAsked_path {d : Nat} {row : List H} (htree : TreeAsked join asked d row)
    {i : Nat} {a : H} {p : List H} (ha : row[i]? = some a)
    (hp : path join d row i = some p) : ClimbAsked join asked a i p := by
  induction d generalizing row i a p with
  | zero => cases hp; trivial
  | succ d ih =>
    obtain ⟨s, hs, hup⟩ := parent_of_sibling join ha
    rw [path, hs] at hp
    obtain ⟨q, hq, rfl⟩ := Option.map_eq_some_iff.mp hp
    have hpair := htree 0 (by omega) (i / 2)
    have hrest : TreeAsked join asked d (levelUp join row) := fun e he => htree (e + 1) (by omega)
    refine ⟨?_, ih hrest hup hq⟩
    change ∀ b, row[2 * (i / 2)]? = some b → asked b (row[2 * (i / 2) + 1]?.getD b) at hpair
    unfold sibling at hs
    unfold sides
    by_cases heven : i % 2 = 0
    · rw [show 2 * (i / 2) = i by omega] at hpair
      rw [if_pos heven] at hs ⊢
      have hb := hpair a ha
      cases hsib : row[i + 1]? with
      | none => rw [hsib, ha] at hs; rw [hsib] at hb; cases hs; exact hb
      | some b => rw [hsib] at hs hb; cases hs; exact hb
    · rw [show 2 * (i / 2) = i - 1 by omega, show i - 1 + 1 = i by omega] at hpair
      rw [if_neg heven] at hs ⊢
      cases hsib : row[i - 1]? with
      | none =>
        have hlt := (List.getElem?_eq_some_iff.mp ha).1
        have := List.getElem?_eq_none_iff.mp hsib
        omega
      | some b =>
        have hb := hpair b hsib
        rw [ha] at hb
        rw [hsib] at hs
        cases hs
        exact hb

/-- Every leaf of a row stands under the node at the top. -/
theorem under_of_leaf {row : List H} {i : Nat} {a top : H}
    (htree : TreeAsked join asked (Nat.clog 2 row.length) row) (h : row[i]? = some a)
    (htop : (above join (Nat.clog 2 row.length) row)[0]? = some top) :
    Under join asked (Nat.clog 2 row.length) i top a := by
  obtain ⟨p, hp, hlen, hclimb⟩ := climb_path_top join h htop
  exact under_iff_climb.mpr ⟨p, hlen, climbAsked_path htree h hp, hclimb⟩

/-- In a tree whose leaves are no joins, what is no join stands at the depth of the leaves
only: neither an inner node nor anything below a leaf. -/
theorem Under.depth_eq (hfree : CollisionFree join asked) {row : List H}
    (htree : TreeAsked join asked (Nat.clog 2 row.length) row)
    (hleaf : ∀ x ∈ row, ∀ l r, asked l r → x ≠ join l r) {top c : H}
    (htop : (above join (Nat.clog 2 row.length) row)[0]? = some top)
    (hc : ∀ l r, asked l r → c ≠ join l r) {m i : Nat} (h : Under join asked m i top c) :
    m = Nat.clog 2 row.length := by
  have hmem := List.mem_of_getElem? htop
  rcases Nat.lt_trichotomy m (Nat.clog 2 row.length) with hlt | heq | hgt
  · -- too short: `c` would be an inner node
    have hin : c ∈ above join (Nat.clog 2 row.length - m) row := by
      refine h.mem_above hfree htree (by omega) ?_
      rw [show Nat.clog 2 row.length - m + m = Nat.clog 2 row.length by omega]
      exact hmem
    rw [show Nat.clog 2 row.length - m = (Nat.clog 2 row.length - m - 1) + 1 by omega,
      above_succ] at hin
    obtain ⟨k, a, ha, hjoin⟩ := mem_levelUp hin
    exact absurd hjoin (hc _ _ (htree _ (by omega) k a ha))
  · exact heq
  · -- too long: a leaf would be a join
    rw [show m = Nat.clog 2 row.length + (m - Nat.clog 2 row.length - 1 + 1) by omega] at h
    obtain ⟨mid, hmid, l, r, hasked, hjoin, _⟩ := under_add h
    have hrow : mid ∈ row := by
      refine Under.mem_above (e := 0) hfree htree (by omega) ?_ hmid
      rw [Nat.zero_add]
      exact hmem
    exact absurd hjoin (hleaf mid hrow l r hasked)

end Asked

end hash_tree
