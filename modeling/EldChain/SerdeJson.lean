-- serde_json, as the chain uses it: a text is read as a syntax tree, a
-- tree as a `Value`, and the members of an object as the fields of a
-- struct. The reader of texts is a parameter, and what it is relied on
-- for is that it reads back what was written.
import EldChain.Library.Json
import EldChain.Types
import Mathlib.Data.List.Forall2

open json

namespace eld_chain

abbrev Members := List (Text × Json)

/-! ## Texts -/

structure SerdeJson where
  /-- The syntax tree of a text. A number that is no integer and a string that spells no
  text are raw literals. -/
  tree : Text → Option Json
  /-- How a number that is kept as `f64` is printed, unless it is out of range. -/
  float_text : Text → Option Text
  /-- The message of a text that is no `Value`. -/
  value_error : Text → String
  /-- The message of a text that is no `Tx`. -/
  tx_error : Text → String
  tree_compact : ∀ j : Json, j.whole = true → tree j.compact = some j

/-- The reader of compact texts. -/
def SerdeJson.plain : SerdeJson where
  tree := json.read
  float_text s := some s
  value_error _ := "expected value at line 1 column 1"
  tx_error _ := "expected value at line 1 column 1"
  tree_compact _ h := read_compact h

variable (s : SerdeJson)

/-! ## Values -/

def isMachineInt (n : Int) : Bool := -2 ^ 63 ≤ n && n < 2 ^ 64

mutual

/-- The `Value` of a tree: an integer of neither `i64` nor `u64` becomes a float, and an
object keeps the last member of each key, sorted by the keys. -/
def SerdeJson.value : Json → Option Json
  | .int n =>
    if isMachineInt n then some (.int n) else (s.float_text (intText n)).map Json.raw
  | .raw literal => (s.float_text literal).map Json.raw
  | .arr items => (SerdeJson.valueItems items).map Json.arr
  | .obj members => (SerdeJson.valueMembers [] members).map Json.obj
  | j => some j

def SerdeJson.valueItems : List Json → Option (List Json)
  | [] => some []
  | j :: rest =>
    match SerdeJson.value j, SerdeJson.valueItems rest with
    | some v, some vs => some (v :: vs)
    | _, _ => none

def SerdeJson.valueMembers (map : Members) : Members → Option Members
  | [] => some map
  | (k, j) :: rest =>
    match SerdeJson.value j with
    | none => none
    | some v => SerdeJson.valueMembers (put k v map) rest

end

/-- `serde_json` gives up at the 128th open bracket. -/
def RECURSION_LIMIT : Nat := 127

/-- `serde_json::from_str::<Value>`. -/
def SerdeJson.from_str_value (text : Text) : Except String Json :=
  match s.tree text with
  | none => .error (s.value_error text)
  | some j =>
    if RECURSION_LIMIT < j.depth then .error (s.value_error text)
    else
      match s.value j with
      | none => .error (s.value_error text)
      | some v => .ok v

/-- `Value::to_string`. -/
def valueText (v : Json) : String := String.ofList v.compact

/-! ## The primitive types -/

def asStr : Json → Option Text
  | .str t => some t
  | _ => none

def asBool : Json → Option Bool
  | .bool b => some b
  | _ => none

/-- An unsigned integer of so many bits. -/
def asUnsigned (bits : Nat) : Json → Option Nat
  | .int n => if 0 ≤ n ∧ n.toNat < 2 ^ bits then some n.toNat else none
  | _ => none

theorem asUnsigned_int {bits n : Nat} (h : n < 2 ^ bits) : asUnsigned bits (.int n) = some n := by
  simp [asUnsigned, h]

def asI64 : Json → Option I64
  | .int n => if h : -2 ^ 63 ≤ n ∧ n < 2 ^ 63 then some ⟨n, h.1, h.2⟩ else none
  | _ => none

def asSeq {α : Type} (item : Json → Option α) : Json → Option (List α)
  | .arr items => items.mapM item
  | _ => none

/-- `Option<T>`: nothing for `null`. -/
def asOption {α : Type} (item : Json → Option α) : Json → Option (Option α)
  | .null => some none
  | j => (item j).map some

/-! ## The fields of a struct -/

variable {α : Type}

/-- A field that has to be there, and once. -/
def required (item : Json → Option α) (members : Members) (name : String) : Option α :=
  match entries members (key name) with
  | [j] => item j
  | _ => none

/-- A field that has a default. -/
def defaulted (default : α) (item : Json → Option α) (members : Members) (name : String) :
    Option α :=
  match entries members (key name) with
  | [] => some default
  | [j] => item j
  | _ => none

/-- `deny_unknown_fields`. -/
def onlyFields (names : List String) (members : Members) : Bool :=
  members.all (fun m => (names.map key).contains m.1)

theorem required_eq_some {item : Json → Option α} {members : Members} {name : String} {a : α} :
    required item members name = some a ↔
      ∃ j, entries members (key name) = [j] ∧ item j = some a := by
  unfold required
  split
  · rename_i j heq
    simp [heq]
  · rename_i hne
    simp only [reduceCtorEq, false_iff, not_exists, not_and]
    intro j heq
    exact absurd heq (hne j)

theorem defaulted_eq_some {default : α} {item : Json → Option α} {members : Members}
    {name : String} {a : α} :
    defaulted default item members name = some a ↔
      (entries members (key name) = [] ∧ a = default) ∨
        ∃ j, entries members (key name) = [j] ∧ item j = some a := by
  unfold defaulted
  split
  · rename_i heq
    simp [heq, eq_comm]
  · rename_i j heq
    simp [heq]
  · rename_i hnil hone
    simp only [reduceCtorEq, false_iff, not_or, not_and, not_exists]
    exact ⟨fun h => absurd h hnil, fun j h => absurd h (hone j)⟩

/-! ## Looking up a value -/

/-- A key of a `Value` stands for its last member in the tree. -/
theorem SerdeJson.get_valueMembers {map members out : Members} (k : Text)
    (h : s.valueMembers map members = some out) :
    get out k = match (entries members k).getLast? with
      | some j => s.value j
      | none => get map k := by
  induction members generalizing map with
  | nil =>
    rw [SerdeJson.valueMembers] at h
    cases h
    rfl
  | cons m rest ih =>
    obtain ⟨k', j⟩ := m
    rw [SerdeJson.valueMembers] at h
    rcases hv : s.value j with _ | v
    · simp [hv] at h
    · simp only [hv] at h
      rw [ih h, get_put, entries_cons]
      by_cases hk : k' = k
      · simp only [hk, if_true]
        rcases hlast : (entries rest k).getLast? with _ | j'
        · rw [List.getLast?_eq_none_iff] at hlast
          simp [hlast, hv]
        · simp [List.getLast?_cons, hlast]
      · simp only [hk, if_false]

theorem SerdeJson.valueMembers_built {map members out : Members}
    (h : s.valueMembers map members = some out) : ∀ m ∈ members, (s.value m.2).isSome = true := by
  induction members generalizing map with
  | nil =>
    intro m hm
    cases hm
  | cons m rest ih =>
    obtain ⟨k, j⟩ := m
    rw [SerdeJson.valueMembers] at h
    rcases hv : s.value j with _ | v
    · simp [hv] at h
    · simp only [hv] at h
      intro m hm
      rw [List.mem_cons] at hm
      rcases hm with rfl | hm
      · rw [hv]
        rfl
      · exact ih h m hm

theorem mem_of_mem_entries {members : Members} {k : Text} {j : Json} (h : j ∈ entries members k) :
    (k, j) ∈ members := by
  unfold entries at h
  rw [List.mem_filterMap] at h
  obtain ⟨m, hm, hif⟩ := h
  split at hif
  · rename_i hk
    cases hif
    rw [← hk]
    exact hm
  · cases hif

/-- A key that stands once in the tree has the value of its member. -/
theorem SerdeJson.value_of_once {members out : Members} {k : Text} {j : Json}
    (h : s.valueMembers [] members = some out) (hj : entries members k = [j]) :
    ∃ v, get out k = some v ∧ s.value j = some v := by
  have hmem : (k, j) ∈ members := mem_of_mem_entries (by rw [hj]; exact List.mem_singleton_self j)
  obtain ⟨v, hv⟩ := Option.isSome_iff_exists.mp (s.valueMembers_built h _ hmem)
  refine ⟨v, ?_, hv⟩
  rw [s.get_valueMembers k h, hj]
  exact hv

/-- A `Value` has exactly the keys of its tree. -/
theorem SerdeJson.get_eq_none {members out : Members} {k : Text}
    (h : s.valueMembers [] members = some out) : get out k = none ↔ entries members k = [] := by
  rw [s.get_valueMembers k h]
  rcases hlast : (entries members k).getLast? with _ | j
  · rw [List.getLast?_eq_none_iff] at hlast
    simp [hlast, json.get]
  · have hmem := List.mem_of_getLast? hlast
    have hbuilt := s.valueMembers_built h _ (mem_of_mem_entries hmem)
    obtain ⟨v, hv⟩ := Option.isSome_iff_exists.mp hbuilt
    simp only at hv
    simp only [hv, reduceCtorEq, false_iff]
    intro hnil
    rw [hnil] at hmem
    cases hmem

/-! ## Tidy trees -/

mutual

/-- Every integer of the tree fits a machine word, no literal is raw and no object has a key
twice. -/
def tidy : Json → Bool
  | .int n => isMachineInt n
  | .raw _ => false
  | .arr items => tidyItems items
  | .obj members => decide (members.map Prod.fst).Nodup && tidyMembers members
  | _ => true

def tidyItems : List Json → Bool
  | [] => true
  | j :: rest => tidy j && tidyItems rest

def tidyMembers : Members → Bool
  | [] => true
  | (_, j) :: rest => tidy j && tidyMembers rest

end

mutual

theorem whole_of_tidy : (j : Json) → tidy j = true → j.whole = true
  | .null, _ => by simp [Json.whole]
  | .bool _, _ => by simp [Json.whole]
  | .int _, _ => by simp [Json.whole]
  | .str _, _ => by simp [Json.whole]
  | .arr items, h => by
    rw [tidy] at h
    rw [Json.whole]
    exact wholeItems_of_tidy items h
  | .obj members, h => by
    rw [tidy, Bool.and_eq_true] at h
    rw [Json.whole]
    exact wholeMembers_of_tidy members h.2

theorem wholeItems_of_tidy : (items : List Json) → tidyItems items = true → wholeItems items = true
  | [], _ => by rw [wholeItems]
  | j :: rest, h => by
    rw [tidyItems, Bool.and_eq_true] at h
    rw [wholeItems, whole_of_tidy j h.1, wholeItems_of_tidy rest h.2]
    rfl

theorem wholeMembers_of_tidy : (members : Members) → tidyMembers members = true →
    wholeMembers members = true
  | [], _ => by rw [wholeMembers]
  | (_, j) :: rest, h => by
    rw [tidyMembers, Bool.and_eq_true] at h
    rw [wholeMembers, whole_of_tidy j h.1, wholeMembers_of_tidy rest h.2]
    rfl

end

theorem tidyItems_iff {items : List Json} :
    tidyItems items = true ↔ ∀ j ∈ items, tidy j = true := by
  induction items with
  | nil => simp [tidyItems]
  | cons j rest ih => simp [tidyItems, ih]

/-- Two members with the same key and the same characters. -/
def SameText (m m' : Text × Json) : Prop := m.1 = m'.1 ∧ m.2.compact.Perm m'.2.compact

theorem compactMembers_congr {members members' : Members}
    (h : List.Forall₂ SameText members members') :
    (compactMembers members).Perm (compactMembers members') := by
  induction h with
  | nil => exact List.Perm.refl _
  | @cons m m' l l' hm hl ih =>
    have hnil : l = [] ↔ l' = [] := by
      rw [← List.length_eq_zero_iff, ← List.length_eq_zero_iff, hl.length_eq]
    have htext : (memberText m).Perm (memberText m') := by
      rw [memberText, memberText, hm.1]
      exact (hm.2.cons ':').append_left _
    rw [compactMembers_cons, compactMembers_cons]
    apply htext.append
    by_cases hl' : l = []
    · rw [if_pos hl', if_pos (hnil.mp hl')]
    · rw [if_neg hl', if_neg (fun h => hl' (hnil.mpr h))]
      exact ih.cons ','

theorem compactItems_cons (j : Json) (items : List Json) :
    compactItems (j :: items)
      = j.compact ++ (if items = [] then [] else ',' :: compactItems items) := by
  cases items <;> simp [compactItems]

mutual

/-- A tidy tree is a `Value`, whose text has the same characters. -/
theorem SerdeJson.value_tidy : (j : Json) → tidy j = true →
    ∃ v, s.value j = some v ∧ v.compact.Perm j.compact
  | .null, _ => ⟨.null, by simp [SerdeJson.value], List.Perm.refl _⟩
  | .bool b, _ => ⟨.bool b, by simp [SerdeJson.value], List.Perm.refl _⟩
  | .int n, h => by
    rw [tidy] at h
    exact ⟨.int n, by rw [SerdeJson.value, if_pos h], List.Perm.refl _⟩
  | .str t, _ => ⟨.str t, by simp [SerdeJson.value], List.Perm.refl _⟩
  | .arr items, h => by
    rw [tidy] at h
    obtain ⟨vs, hvs, _, hperm⟩ := SerdeJson.valueItems_tidy items h
    refine ⟨.arr vs, by rw [SerdeJson.value, hvs]; rfl, ?_⟩
    rw [Json.compact, Json.compact]
    exact (hperm.append_right _).cons _
  | .obj members, h => by
    rw [tidy, Bool.and_eq_true, decide_eq_true_eq] at h
    obtain ⟨out, vs, hout, hsame, hperm⟩ := SerdeJson.valueMembers_tidy members [] h.2
      (by simpa using h.1)
    refine ⟨.obj out, by rw [SerdeJson.value, hout]; rfl, ?_⟩
    rw [Json.compact, Json.compact]
    refine List.Perm.cons _ (List.Perm.append_right _ ?_)
    exact (compactMembers_perm hperm).trans (compactMembers_congr hsame)

theorem SerdeJson.valueItems_tidy : (items : List Json) → tidyItems items = true →
    ∃ vs, s.valueItems items = some vs ∧ (vs = [] ↔ items = []) ∧
      (compactItems vs).Perm (compactItems items)
  | [], _ => ⟨[], by rw [SerdeJson.valueItems], Iff.rfl, List.Perm.refl _⟩
  | j :: rest, h => by
    rw [tidyItems, Bool.and_eq_true] at h
    obtain ⟨v, hv, hperm⟩ := SerdeJson.value_tidy j h.1
    obtain ⟨vs, hvs, hnil, hrest⟩ := SerdeJson.valueItems_tidy rest h.2
    refine ⟨v :: vs, by rw [SerdeJson.valueItems, hv, hvs], by simp, ?_⟩
    rw [compactItems_cons, compactItems_cons]
    apply hperm.append
    by_cases hv' : vs = []
    · rw [if_pos hv', if_pos (hnil.mp hv')]
    · rw [if_neg hv', if_neg (fun h => hv' (hnil.mpr h))]
      exact hrest.cons _

theorem SerdeJson.valueMembers_tidy : (members map : Members) → tidyMembers members = true →
    ((map ++ members).map Prod.fst).Nodup →
    ∃ out vs, s.valueMembers map members = some out ∧ List.Forall₂ SameText vs members ∧
      out.Perm (map ++ vs)
  | [], map, _, _ => ⟨map, [], by rw [SerdeJson.valueMembers], List.Forall₂.nil, by simp⟩
  | (k, j) :: rest, map, h, hnodup => by
    rw [tidyMembers, Bool.and_eq_true] at h
    obtain ⟨v, hv, hperm⟩ := SerdeJson.value_tidy j h.1
    have hnew : ∀ m ∈ map, m.1 ≠ k := by
      rintro m hm rfl
      rw [List.map_append, List.nodup_append] at hnodup
      exact hnodup.2.2 _ (List.mem_map_of_mem hm) _ (by simp) rfl
    have hput := put_perm v hnew
    have hkeys : ((put k v map ++ rest).map Prod.fst).Nodup := by
      have hmoved : ((put k v map ++ rest).map Prod.fst).Perm ((map ++ (k, j) :: rest).map Prod.fst) := by
        rw [List.map_append, List.map_append, List.map_cons]
        refine ((hput.map Prod.fst).append_right _).trans ?_
        rw [List.map_cons]
        exact List.perm_middle.symm
      exact hmoved.nodup_iff.mpr hnodup
    obtain ⟨out, vs, hout, hsame, hall⟩ :=
      SerdeJson.valueMembers_tidy rest (put k v map) h.2 hkeys
    refine ⟨out, (k, v) :: vs, by rw [SerdeJson.valueMembers, hv]; exact hout,
      List.Forall₂.cons ⟨rfl, hperm⟩ hsame, ?_⟩
    exact hall.trans ((hput.append_right vs).trans List.perm_middle.symm)

end

/-- A text is a `Value` when its tree is not too deep and can be built. -/
theorem SerdeJson.from_str_value_eq_ok {s : SerdeJson} {text : Text} {v : Json} :
    s.from_str_value text = .ok v ↔
      ∃ j, s.tree text = some j ∧ j.depth ≤ RECURSION_LIMIT ∧ s.value j = some v := by
  unfold SerdeJson.from_str_value
  cases htree : s.tree text with
  | none => simp
  | some j =>
    by_cases hdepth : RECURSION_LIMIT < j.depth
    · simp only [if_pos hdepth, reduceCtorEq, Option.some.injEq, false_iff]
      rintro ⟨_, rfl, hle, _⟩
      omega
    · simp only [if_neg hdepth]
      cases hv : s.value j with
      | none => simp [hv]
      | some w => simp [hv, Nat.le_of_not_lt hdepth]

end eld_chain
