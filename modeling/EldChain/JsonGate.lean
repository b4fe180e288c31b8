-- The gate that every text of a transaction passes. Its scan counts the
-- brackets inside the string literals as well, so a tag with a bracket can
-- close the gate on a shallow text and open it to a deep one. Which texts
-- it treats as it should is read from the two counts.
import EldChain.Library.JsonText
import EldChain.StructureChecks

open json

namespace eld_chain

variable {s : SerdeJson} {text : Text}

/-! ## The scan -/

theorem scanBrackets_within {max_depth depth : Nat} :
    scanBrackets max_depth depth text = .ok 0 ↔ Within max_depth depth text := by
  induction text generalizing depth with
  | nil =>
    rw [scanBrackets, Within, Except.ok.injEq]
  | cons c rest ih =>
    have hopening : (c = '\x7b' ∨ c = '[') ↔ isOpening c = true := by
      rw [isOpening, Bool.or_eq_true, beq_iff_eq, beq_iff_eq]
    have hclosing : (c = '\x7d' ∨ c = ']') ↔ isClosing c = true := by
      rw [isClosing, Bool.or_eq_true, beq_iff_eq, beq_iff_eq]
    rw [scanBrackets, Within]
    simp only [hopening, hclosing]
    split
    · split
      · rename_i hdeep
        apply iff_of_false
        · intro h
          cases h
        · intro h
          exact absurd h.1 (by omega)
      · rename_i hroom
        rw [ih]
        exact (and_iff_right (Nat.le_of_not_lt hroom)).symm
    · split
      · split
        · rename_i hzero
          apply iff_of_false
          · intro h
            cases h
          · intro h
            exact absurd h.1 (by omega)
        · rename_i hopen
          rw [ih]
          exact (and_iff_right (Nat.pos_of_ne_zero hopen)).symm
      · exact ih

/-! ## The gate -/

/-- `serde_json` reads this text as JSON: a tree is one that the text spells, a text that spells
a tree is read, and no number in it is out of range. -/
structure SerdeJson.ReadsAsJson (s : SerdeJson) (text : Text) : Prop where
  sound : ∀ j, s.tree text = some j → JsonText text j
  complete : ∀ j, JsonText text j → (s.tree text).isSome = true
  numbers : ∀ j, s.tree text = some j → (s.value j).isSome = true

/-- A JSON text of at most so many bytes that nests at most so deep. -/
def Admissible (text : Text) (max_size max_depth : Nat) : Prop :=
  text ≠ [] ∧ utf8Len text ≤ max_size ∧ ∃ j, JsonText text j ∧ j.depth ≤ max_depth

theorem SerdeJson.ReadsAsJson.from_str_value_iff (hs : s.ReadsAsJson text) {j : Json}
    (h : JsonText text j) :
    (∃ v, s.from_str_value text = .ok v) ↔ j.depth ≤ RECURSION_LIMIT := by
  obtain ⟨j', htree⟩ := Option.isSome_iff_exists.mp (hs.complete j h)
  obtain ⟨v, hv⟩ := Option.isSome_iff_exists.mp (hs.numbers j' htree)
  rw [h.depth_unique (hs.sound j' htree)]
  constructor
  · rintro ⟨v', hv'⟩
    obtain ⟨k, hk, hdepth, -⟩ := SerdeJson.from_str_value_eq_ok.mp hv'
    rw [htree] at hk
    rw [Option.some.inj hk]
    exact hdepth
  · intro hdepth
    exact ⟨v, SerdeJson.from_str_value_eq_ok.mpr ⟨j', htree, hdepth, hv⟩⟩

/-- The gate accepts exactly the admissible texts where its count of all brackets says the same
as the count outside the literals, short of the recursion limit of the reader. -/
theorem json_gate_is_exact_iff (hs : s.ReadsAsJson text) (max_size max_depth : Nat) :
    (validate_json_string s text max_size max_depth = .ok () ↔
      Admissible text max_size max_depth) ↔
    (utf8Len text ≤ max_size → ∀ j, JsonText text j →
      (Within max_depth 0 text ∧ j.depth ≤ RECURSION_LIMIT ↔
        Within max_depth 0 (unquoted text))) := by
  rw [validate_json_string_eq_ok, scanBrackets_within]
  constructor
  · intro hexact hsize j hj
    rw [hj.within]
    constructor
    · rintro ⟨hscan, hlimit⟩
      obtain ⟨-, -, j', hj', hdepth⟩ := hexact.mp
        ⟨hj.ne_nil, hsize, hscan, (hs.from_str_value_iff hj).mpr hlimit⟩
      rw [hj.depth_unique hj']
      exact hdepth
    · intro hdepth
      obtain ⟨-, -, hscan, hparse⟩ := hexact.mpr ⟨hj.ne_nil, hsize, j, hj, hdepth⟩
      exact ⟨hscan, (hs.from_str_value_iff hj).mp hparse⟩
  · intro hcounts
    constructor
    · rintro ⟨hne, hsize, hscan, v, hv⟩
      obtain ⟨j, htree, hlimit, -⟩ := SerdeJson.from_str_value_eq_ok.mp hv
      have hj := hs.sound j htree
      exact ⟨hne, hsize, j, hj, hj.within.mp ((hcounts hsize j hj).mp ⟨hscan, hlimit⟩)⟩
    · rintro ⟨hne, hsize, j, hj, hdepth⟩
      obtain ⟨hscan, hlimit⟩ := (hcounts hsize j hj).mpr (hj.within.mpr hdepth)
      exact ⟨hne, hsize, hscan, (hs.from_str_value_iff hj).mpr hlimit⟩

/-- Without a bracket in its literals a text has both counts alike, and within the recursion limit
for every depth up to 127. -/
theorem counts_agree_of_unbracketed {max_depth : Nat} (hmax : max_depth ≤ RECURSION_LIMIT)
    (hliterals : ∀ c ∈ quoted text, isOpening c = false ∧ isClosing c = false) {j : Json}
    (hj : JsonText text j) :
    Within max_depth 0 text ∧ j.depth ≤ RECURSION_LIMIT ↔ Within max_depth 0 (unquoted text) := by
  have hsame : Within max_depth 0 (unquoted text) ↔ Within max_depth 0 text :=
    within_unquotedFrom hliterals
  rw [hsame]
  refine and_iff_left_of_imp (fun hscan => ?_)
  exact Nat.le_trans (hj.within.mp (hsame.mpr hscan)) hmax

/-- The text `["["]`: one array that holds a bracket. -/
def bracketItem : Text := ['[', '"', '[', '"', ']']

theorem bracketItem_text : JsonText bracketItem (.arr [.str ['[']]) := by
  have hspells : Spells ['[', '"', ']'] ['['] [']'] :=
    .plain (by decide) (by decide) (by decide) .close
  exact .mk .stop (.arr (.last (.mk .stop (.str hspells) .stop))) .stop

theorem bracketItem_reads : SerdeJson.plain.ReadsAsJson bracketItem := by
  have htree : SerdeJson.plain.tree bracketItem = some (.arr [.str ['[']]) := rfl
  refine ⟨fun j hj => ?_, fun j _ => ?_, fun j hj => ?_⟩
  · rw [htree] at hj
    cases hj
    exact bracketItem_text
  · rw [htree]
    rfl
  · rw [htree] at hj
    cases hj
    rfl

/-- A gate for one level lets the text through only if it does not count the bracket inside. -/
theorem json_gate_is_exact_iff_of_bracketItem :
    ¬ (validate_json_string .plain bracketItem 5 1 = .ok () ↔
      Admissible bracketItem 5 1) := by
  rw [json_gate_is_exact_iff bracketItem_reads 5 1]
  intro hcounts
  have hdepth : Within 1 0 (unquoted bracketItem) := by
    rw [bracketItem_text.within]
    decide
  obtain ⟨hscan, -⟩ := (hcounts (by decide) _ bracketItem_text).mpr hdepth
  rw [← scanBrackets_within] at hscan
  cases hscan

/-- The text `["]",[1],"["]`: an array inside an array, between two strings that hold a bracket
each. -/
def hiddenItem : Text :=
  ['[', '"', ']', '"', ',', '[', '1', ']', ',', '"', '[', '"', ']']

theorem hiddenItem_text :
    JsonText hiddenItem (.arr [.str [']'], .arr [.int 1], .str ['[']]) := by
  have hclose (rest : Text) : Spells (']' :: '"' :: rest) [']'] rest :=
    .plain (by decide) (by decide) (by decide) .close
  have hopen (rest : Text) : Spells ('[' :: '"' :: rest) ['['] rest :=
    .plain (by decide) (by decide) (by decide) .close
  have hone (rest : Text) : Value ('1' :: rest) (.int 1) rest := .number (SpellsNumber.int 1)
  have hinner (rest : Text) : Value ('[' :: '1' :: ']' :: rest) (.arr [.int 1]) rest :=
    .arr (.last (.mk .stop (hone _) .stop))
  have hitems : Elements hiddenItem.tail [.str [']'], .arr [.int 1], .str ['[']] [] :=
    .more (.mk .stop (.str (hclose _)) .stop) (.more (.mk .stop (hinner _) .stop)
      (.last (.mk .stop (.str (hopen _)) .stop)))
  exact .mk .stop (.arr hitems) .stop

theorem brackets_in_literals_are_counted :
    (Admissible bracketItem 5 1 ∧
      validate_json_string .plain bracketItem 5 1 =
        .error (.ValidationError "JSON string" "[\"[\"]"
          "JSON nesting too deep: 2 levels (max 1)")) ∧
    ¬ Admissible hiddenItem 13 1 ∧
      validate_json_string .plain hiddenItem 13 1 = .ok () := by
  refine ⟨⟨⟨List.cons_ne_nil _ _, by decide, _, bracketItem_text, by decide⟩, rfl⟩, ?_, ?_⟩
  · rintro ⟨-, -, j, hj, hdepth⟩
    rw [hj.depth_unique hiddenItem_text] at hdepth
    exact absurd hdepth (by decide)
  · rw [validate_json_string_eq_ok]
    exact ⟨List.cons_ne_nil _ _, by decide, rfl, _, rfl⟩

end eld_chain
