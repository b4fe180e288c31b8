-- JSON texts: which lists of characters spell which tree. Every rule takes
-- a text apart from its front and names what is left of it. The brackets
-- of a text are counted beside its string literals, and what they show is
-- the depth of the tree.
import EldChain.Library.Json

namespace json

/-! ## White space, strings and numbers -/

def isBlank (c : Char) : Bool := c == ' ' || c == '\t' || c == '\n' || c == '\r'

/-- Some white space, none at all included. -/
inductive Blanks : List Char → List Char → Prop
  | stop {rest : List Char} : Blanks rest rest
  | more {c : Char} {t rest : List Char} : isBlank c = true → Blanks t rest → Blanks (c :: t) rest

/-- The character that a backslash and this one stand for. -/
def shortEscape : Char → Option Char
  | '/' => some '/'
  | c => unescape c

def hexNibble (c : Char) : Option Nat :=
  if '0' ≤ c ∧ c ≤ '9' then some (c.toNat - 48)
  else if 'a' ≤ c ∧ c ≤ 'f' then some (c.toNat - 87)
  else if 'A' ≤ c ∧ c ≤ 'F' then some (c.toNat - 55)
  else none

/-- The four hex digits of an escape. -/
def codeUnit (a b c d : Char) : Option Nat := do
  let a ← hexNibble a
  let b ← hexNibble b
  let c ← hexNibble c
  let d ← hexNibble d
  return ((16 * a + b) * 16 + c) * 16 + d

def isHighSurrogate (v : Nat) : Bool := 0xd800 ≤ v && v < 0xdc00

def isLowSurrogate (v : Nat) : Bool := 0xdc00 ≤ v && v < 0xe000

/-- The rest of a string literal, its closing quote included, and what it spells. A surrogate
stands in a pair. -/
inductive Spells : List Char → List Char → List Char → Prop
  | close {rest : List Char} : Spells ('"' :: rest) [] rest
  | plain {c : Char} {t s rest : List Char} : c ≠ '"' → c ≠ '\\' → 32 ≤ c.toNat → Spells t s rest →
      Spells (c :: t) (c :: s) rest
  | escape {e c : Char} {t s rest : List Char} : shortEscape e = some c → Spells t s rest →
      Spells ('\\' :: e :: t) (c :: s) rest
  | unicode {a b c d : Char} {v : Nat} {t s rest : List Char} :
      codeUnit a b c d = some v → isHighSurrogate v = false → isLowSurrogate v = false → Spells t s rest →
      Spells ('\\' :: 'u' :: a :: b :: c :: d :: t) (Char.ofNat v :: s) rest
  | pair {a b c d a' b' c' d' : Char} {v v' : Nat} {t s rest : List Char} :
      codeUnit a b c d = some v → isHighSurrogate v = true →
      codeUnit a' b' c' d' = some v' → isLowSurrogate v' = true → Spells t s rest →
      Spells ('\\' :: 'u' :: a :: b :: c :: d :: '\\' :: 'u' :: a' :: b' :: c' :: d' :: t)
        (Char.ofNat (0x10000 + (v - 0xd800) * 0x400 + (v' - 0xdc00)) :: s) rest

/-- At least one digit. -/
def IsDigits (digits : List Char) : Prop := digits ≠ [] ∧ ∀ c ∈ digits, c.isDigit = true

/-- A number: a sign, a whole part with no zero in front, a fraction and an exponent. -/
structure Numeral (sign fraction exponent : List Char) : Prop where
  sign : sign = [] ∨ sign = ['-']
  fraction : fraction = [] ∨ ∃ digits, fraction = '.' :: digits ∧ IsDigits digits
  exponent : exponent = [] ∨ ∃ e plus digits, exponent = e :: (plus ++ digits) ∧
    (e = 'e' ∨ e = 'E') ∧ (plus = [] ∨ plus = ['+'] ∨ plus = ['-']) ∧ IsDigits digits

/-- A number that is the text of an integer is that integer, and any other one is kept as it
stands. -/
inductive SpellsNumber : List Char → Json → Prop
  | int (n : Int) : SpellsNumber (intText n) (.int n)
  | raw {sign fraction exponent : List Char} (n : Nat) : Numeral sign fraction exponent →
      (∀ i, sign ++ (Nat.toDigits 10 n ++ (fraction ++ exponent)) ≠ intText i) →
      SpellsNumber (sign ++ (Nat.toDigits 10 n ++ (fraction ++ exponent)))
        (.raw (sign ++ (Nat.toDigits 10 n ++ (fraction ++ exponent))))

/-! ## Values -/

/-- A key with its colon, at the front of a member. -/
inductive KeyText : List Char → List Char → List Char → Prop
  | mk {t t₁ t₂ key rest : List Char} : Blanks t ('"' :: t₁) → Spells t₁ key t₂ →
      Blanks t₂ (':' :: rest) → KeyText t key rest

mutual

/-- A value at the front of a text. -/
inductive Value : List Char → Json → List Char → Prop
  | null {rest : List Char} : Value ('n' :: 'u' :: 'l' :: 'l' :: rest) .null rest
  | true {rest : List Char} : Value ('t' :: 'r' :: 'u' :: 'e' :: rest) (.bool Bool.true) rest
  | false {rest : List Char} :
      Value ('f' :: 'a' :: 'l' :: 's' :: 'e' :: rest) (.bool Bool.false) rest
  | number {literal rest : List Char} {j : Json} : SpellsNumber literal j →
      Value (literal ++ rest) j rest
  | str {t s rest : List Char} : Spells t s rest → Value ('"' :: t) (.str s) rest
  | emptyArr {t rest : List Char} : Blanks t (']' :: rest) → Value ('[' :: t) (.arr []) rest
  | arr {t rest : List Char} {items : List Json} : Elements t items rest →
      Value ('[' :: t) (.arr items) rest
  | emptyObj {t rest : List Char} : Blanks t ('}' :: rest) → Value ('{' :: t) (.obj []) rest
  | obj {t rest : List Char} {members : List (List Char × Json)} : MembersText t members rest →
      Value ('{' :: t) (.obj members) rest

/-- A value with white space on both sides. -/
inductive Element : List Char → Json → List Char → Prop
  | mk {t t₁ t₂ rest : List Char} {j : Json} : Blanks t t₁ → Value t₁ j t₂ → Blanks t₂ rest →
      Element t j rest

/-- The items of an array, up to its closing bracket. -/
inductive Elements : List Char → List Json → List Char → Prop
  | last {t rest : List Char} {j : Json} : Element t j (']' :: rest) → Elements t [j] rest
  | more {t t₁ rest : List Char} {j : Json} {items : List Json} : Element t j (',' :: t₁) →
      Elements t₁ items rest → Elements t (j :: items) rest

/-- The members of an object, up to its closing brace. -/
inductive MembersText : List Char → List (List Char × Json) → List Char → Prop
  | last {t t₁ key rest : List Char} {j : Json} : KeyText t key t₁ →
      Element t₁ j ('}' :: rest) → MembersText t [(key, j)] rest
  | more {t t₁ t₂ key rest : List Char} {j : Json} {members : List (List Char × Json)} :
      KeyText t key t₁ → Element t₁ j (',' :: t₂) → MembersText t₂ members rest →
      MembersText t ((key, j) :: members) rest

end

/-- The whole text is one value. -/
def JsonText (text : List Char) (j : Json) : Prop := Element text j []

variable {t rest : List Char}

theorem SpellsNumber.ne_nil {literal : List Char} {j : Json} (h : SpellsNumber literal j) :
    literal ≠ [] := by
  cases h with
  | int n =>
    unfold intText
    split
    · exact List.cons_ne_nil _ _
    · exact Nat.toDigits_ne_nil
  | raw n _ _ =>
    intro hnil
    have hdigits := (List.append_eq_nil_iff.mp (List.append_eq_nil_iff.mp hnil).2).1
    exact Nat.toDigits_ne_nil hdigits

theorem Value.ne_nil {j : Json} (h : Value t j rest) : t ≠ [] := by
  cases h with
  | number hnumber => exact fun hnil => hnumber.ne_nil (List.append_eq_nil_iff.mp hnil).1
  | _ => exact List.cons_ne_nil _ _

theorem JsonText.ne_nil {j : Json} (h : JsonText t j) : t ≠ [] := by
  rintro rfl
  obtain ⟨hbefore, hvalue, -⟩ := h
  cases hbefore
  exact hvalue.ne_nil rfl

/-! ## Outside the literals -/

/-- Where a reader stands: outside the literals, inside one, or behind a backslash. -/
inductive Place
  | outside
  | inside
  | escaped

/-- The characters that stand in no string literal. -/
def unquotedFrom : Place → List Char → List Char
  | _, [] => []
  | .outside, c :: t => if c = '"' then unquotedFrom .inside t else c :: unquotedFrom .outside t
  | .inside, c :: t =>
    if c = '"' then unquotedFrom .outside t
    else if c = '\\' then unquotedFrom .escaped t
    else unquotedFrom .inside t
  | .escaped, _ :: t => unquotedFrom .inside t

def unquoted (text : List Char) : List Char := unquotedFrom .outside text

/-- The characters that stand in a string literal. -/
def quotedFrom : Place → List Char → List Char
  | _, [] => []
  | .outside, c :: t => if c = '"' then quotedFrom .inside t else quotedFrom .outside t
  | .inside, c :: t =>
    if c = '"' then quotedFrom .outside t
    else if c = '\\' then c :: quotedFrom .escaped t
    else c :: quotedFrom .inside t
  | .escaped, c :: t => c :: quotedFrom .inside t

def quoted (text : List Char) : List Char := quotedFrom .outside text

theorem unquoted_quote : unquoted ('"' :: t) = unquotedFrom .inside t := by
  rw [unquoted, unquotedFrom, if_pos rfl]

theorem unquoted_cons {c : Char} (h : c ≠ '"') : unquoted (c :: t) = c :: unquoted t := by
  rw [unquoted, unquotedFrom, if_neg h]
  rfl

theorem inside_cons {c : Char} (hquote : c ≠ '"') (hslash : c ≠ '\\') :
    unquotedFrom .inside (c :: t) = unquotedFrom .inside t := by
  rw [unquotedFrom, if_neg hquote, if_neg hslash]

theorem inside_escape {e : Char} :
    unquotedFrom .inside ('\\' :: e :: t) = unquotedFrom .inside t := by
  rw [unquotedFrom, if_neg (by decide), if_pos rfl, unquotedFrom]

theorem hexNibble_plain {c : Char} {v : Nat} (h : hexNibble c = some v) : c ≠ '"' ∧ c ≠ '\\' := by
  constructor <;> rintro rfl <;> cases h

theorem codeUnit_plain {a b c d : Char} {v : Nat} (h : codeUnit a b c d = some v) :
    (a ≠ '"' ∧ a ≠ '\\') ∧ (b ≠ '"' ∧ b ≠ '\\') ∧ (c ≠ '"' ∧ c ≠ '\\') ∧ (d ≠ '"' ∧ d ≠ '\\') := by
  simp only [codeUnit, Option.bind_eq_bind, Option.bind_eq_some_iff] at h
  obtain ⟨_, ha, _, hb, _, hc, _, hd, -⟩ := h
  exact ⟨hexNibble_plain ha, hexNibble_plain hb, hexNibble_plain hc, hexNibble_plain hd⟩

theorem inside_unicode {a b c d : Char} {v : Nat} (h : codeUnit a b c d = some v) :
    unquotedFrom .inside ('\\' :: 'u' :: a :: b :: c :: d :: t) = unquotedFrom .inside t := by
  obtain ⟨ha, hb, hc, hd⟩ := codeUnit_plain h
  rw [inside_escape, inside_cons ha.1 ha.2, inside_cons hb.1 hb.2, inside_cons hc.1 hc.2,
    inside_cons hd.1 hd.2]

theorem Spells.unquoted {s : List Char} (h : Spells t s rest) :
    unquotedFrom .inside t = unquoted rest := by
  induction h with
  | close =>
    rw [unquotedFrom, if_pos rfl]
    rfl
  | plain hquote hslash _ _ ih => rw [inside_cons hquote hslash, ih]
  | escape _ _ ih => rw [inside_escape, ih]
  | unicode hv _ _ _ ih => rw [inside_unicode hv, ih]
  | pair hv _ hv' _ _ ih => rw [inside_unicode hv, inside_unicode hv', ih]

/-! ## Brackets -/

def isOpening (c : Char) : Bool := c == '{' || c == '['

def isClosing (c : Char) : Bool := c == '}' || c == ']'

/-- From this level on the brackets of a text never close more than is open, never open more
than `max` at once, and close all of it in the end. -/
def Within (max : Nat) : Nat → List Char → Prop
  | level, [] => level = 0
  | level, c :: t =>
    if isOpening c = true then level + 1 ≤ max ∧ Within max (level + 1) t
    else if isClosing c = true then 0 < level ∧ Within max (level - 1) t
    else Within max level t

variable {max level : Nat}

theorem within_open {c : Char} (h : isOpening c = true) :
    Within max level (c :: t) ↔ level + 1 ≤ max ∧ Within max (level + 1) t := by
  rw [Within, if_pos h]

theorem within_close {c : Char} (h : isClosing c = true) :
    Within max (level + 1) (c :: t) ↔ Within max level t := by
  have hopen : isOpening c ≠ true := by
    intro hc
    simp only [isOpening, isClosing, Bool.or_eq_true, beq_iff_eq] at h hc
    rcases h with rfl | rfl <;> rcases hc with hc | hc <;> cases hc
  rw [Within, if_neg hopen, if_pos h]
  exact and_iff_right (Nat.succ_pos level)

theorem within_passed {c : Char} (hopen : isOpening c = false) (hclose : isClosing c = false) :
    Within max level (c :: t) ↔ Within max level t := by
  rw [Within, if_neg (by rw [hopen]; exact Bool.false_ne_true),
    if_neg (by rw [hclose]; exact Bool.false_ne_true)]

/-- A character that does not leave the text takes part in both counts. -/
theorem within_congr {c : Char} {t' : List Char}
    (h : ∀ level, Within max level t ↔ Within max level t') :
    Within max level (c :: t) ↔ Within max level (c :: t') := by
  rw [Within, Within]
  split
  · rw [h]
  · split
    · rw [h]
    · exact h level

/-- Without a bracket in the literals all brackets of a text are counted outside them. -/
theorem within_unquotedFrom {place : Place}
    (h : ∀ c ∈ quotedFrom place t, isOpening c = false ∧ isClosing c = false) :
    Within max level (unquotedFrom place t) ↔ Within max level t := by
  induction t generalizing place level with
  | nil => cases place <;> rfl
  | cons c t ih =>
    have hquote : c = '"' → (Within max level (c :: t) ↔ Within max level t) := by
      rintro rfl
      exact within_passed rfl rfl
    -- what a literal hides is no bracket
    have hhidden : isOpening c = false ∧ isClosing c = false →
        (Within max level (c :: t) ↔ Within max level t) := by
      rintro ⟨hopen, hclose⟩
      exact within_passed hopen hclose
    cases place with
    | outside =>
      rw [quotedFrom] at h
      rw [unquotedFrom]
      by_cases hc : c = '"'
      · rw [if_pos hc] at h ⊢
        rw [hquote hc]
        exact ih h
      · rw [if_neg hc] at h ⊢
        exact within_congr (fun _ => ih h)
    | inside =>
      rw [quotedFrom] at h
      rw [unquotedFrom]
      by_cases hc : c = '"'
      · rw [if_pos hc] at h ⊢
        rw [hquote hc]
        exact ih h
      · rw [if_neg hc] at h ⊢
        by_cases hslash : c = '\\'
        · rw [if_pos hslash] at h ⊢
          rw [hhidden (h c List.mem_cons_self)]
          exact ih (fun d hd => h d (List.mem_cons_of_mem c hd))
        · rw [if_neg hslash] at h ⊢
          rw [hhidden (h c List.mem_cons_self)]
          exact ih (fun d hd => h d (List.mem_cons_of_mem c hd))
    | escaped =>
      rw [quotedFrom] at h
      rw [unquotedFrom]
      rw [hhidden (h c List.mem_cons_self)]
      exact ih (fun d hd => h d (List.mem_cons_of_mem c hd))

/-- A character that is neither a bracket nor a quote. -/
def isNeutral (c : Char) : Bool := !isOpening c && !isClosing c && !(c == '"')

theorem within_neutral {c : Char} (h : isNeutral c = true) :
    Within max level (unquoted (c :: t)) ↔ Within max level (unquoted t) := by
  simp only [isNeutral, Bool.and_eq_true, Bool.not_eq_true', beq_eq_false_iff_ne] at h
  obtain ⟨⟨hopen, hclose⟩, hquote⟩ := h
  rw [unquoted_cons hquote, within_passed hopen hclose]

theorem within_neutrals (literal : List Char) (h : ∀ c ∈ literal, isNeutral c = true) :
    Within max level (unquoted (literal ++ rest)) ↔ Within max level (unquoted rest) := by
  induction literal with
  | nil => rfl
  | cons c literal ih =>
    rw [List.cons_append, within_neutral (h c List.mem_cons_self)]
    exact ih fun d hd => h d (List.mem_cons_of_mem c hd)

theorem Blanks.within (h : Blanks t rest) :
    Within max level (unquoted t) ↔ Within max level (unquoted rest) := by
  induction h with
  | stop => rfl
  | more hc _ ih =>
    rw [within_neutral, ih]
    simp only [isBlank, Bool.or_eq_true, beq_iff_eq] at hc
    rcases hc with ((rfl | rfl) | rfl) | rfl <;> rfl

theorem digit_neutral {c : Char} (h : c.isDigit = true) : isNeutral c = true := by
  simp only [isNeutral, isOpening, isClosing, Bool.and_eq_true, Bool.not_eq_true',
    Bool.or_eq_false_iff, beq_eq_false_iff_ne]
  refine ⟨⟨⟨?_, ?_⟩, ?_, ?_⟩, ?_⟩ <;> rintro rfl <;> cases h

theorem digits_neutral {digits : List Char} (h : IsDigits digits) :
    ∀ c ∈ digits, isNeutral c = true := fun c hc => digit_neutral (h.2 c hc)

theorem decimal_neutral (n : Nat) : ∀ c ∈ Nat.toDigits 10 n, isNeutral c = true :=
  fun _ hc => digit_neutral (isDigit_toDigits hc)

theorem intText_neutral (n : Int) : ∀ c ∈ intText n, isNeutral c = true := by
  intro c hc
  unfold intText at hc
  split at hc
  · rcases List.mem_cons.mp hc with rfl | hc
    · rfl
    · exact decimal_neutral _ c hc
  · exact decimal_neutral _ c hc

theorem Numeral.neutral {sign fraction exponent : List Char} (h : Numeral sign fraction exponent) :
    ∀ c ∈ sign ++ (fraction ++ exponent), isNeutral c = true := by
  intro c hc
  rcases List.mem_append.mp hc with hsign | hc
  · rcases h.sign with rfl | rfl
    · cases hsign
    · rw [List.mem_singleton.mp hsign]
      rfl
  · rcases List.mem_append.mp hc with hfraction | hexponent
    · rcases h.fraction with rfl | ⟨digits, rfl, hdigits⟩
      · cases hfraction
      · rcases List.mem_cons.mp hfraction with rfl | hdigit
        · rfl
        · exact digits_neutral hdigits c hdigit
    · rcases h.exponent with rfl | ⟨e, plus, digits, rfl, he, hplus, hdigits⟩
      · cases hexponent
      · rcases List.mem_cons.mp hexponent with rfl | htail
        · rcases he with rfl | rfl <;> rfl
        · rcases List.mem_append.mp htail with hmem | hdigit
          · rcases hplus with rfl | rfl | rfl
            · cases hmem
            · rw [List.mem_singleton.mp hmem]
              rfl
            · rw [List.mem_singleton.mp hmem]
              rfl
          · exact digits_neutral hdigits c hdigit

theorem SpellsNumber.neutral {literal : List Char} {j : Json} (h : SpellsNumber literal j) :
    ∀ c ∈ literal, isNeutral c = true := by
  cases h with
  | int n => exact intText_neutral n
  | raw n hnumeral _ =>
    intro c hc
    simp only [List.mem_append] at hc
    rcases hc with hsign | hdigit | hrest
    · exact hnumeral.neutral c (List.mem_append_left _ hsign)
    · exact decimal_neutral n c hdigit
    · exact hnumeral.neutral c (List.mem_append_right _ (List.mem_append.mpr hrest))

theorem SpellsNumber.depth {literal : List Char} {j : Json} (h : SpellsNumber literal j) :
    j.depth = 0 := by
  cases h with
  | int n => rw [Json.depth] <;> exact fun _ => Json.noConfusion
  | raw n _ _ => rw [Json.depth] <;> exact fun _ => Json.noConfusion

theorem KeyText.within {key : List Char} (h : KeyText t key rest) :
    Within max level (unquoted t) ↔ Within max level (unquoted rest) := by
  obtain ⟨hbefore, hkey, hafter⟩ := h
  rw [hbefore.within, unquoted_quote, hkey.unquoted, hafter.within, within_neutral rfl]

/-- A value of no depth, once its characters are passed. -/
theorem within_flat {j : Json} (hlevel : level ≤ max) (hdepth : j.depth = 0) {P Q : Prop}
    (h : P ↔ Q) : P ↔ level + j.depth ≤ max ∧ Q := by
  rw [hdepth, Nat.add_zero, h]
  exact (and_iff_right hlevel).symm

/-- An opening bracket and all that follows it. -/
theorem within_bracket {c : Char} {depth : Nat} {Q : Prop} (hopen : isOpening c = true)
    (hquote : c ≠ '"') (h : level + 1 ≤ max →
      (Within max (level + 1) (unquoted t) ↔ level + 1 + depth ≤ max ∧ Q)) :
    Within max level (unquoted (c :: t)) ↔ level + (depth + 1) ≤ max ∧ Q := by
  rw [unquoted_cons hquote, within_open hopen]
  constructor
  · rintro ⟨hroom, hinside⟩
    obtain ⟨hdepth, hq⟩ := (h hroom).mp hinside
    exact ⟨by omega, hq⟩
  · rintro ⟨hdepth, hq⟩
    have hroom : level + 1 ≤ max := by omega
    exact ⟨hroom, (h hroom).mpr ⟨by omega, hq⟩⟩

theorem within_closing {c : Char} (hclose : isClosing c = true) (hquote : c ≠ '"') :
    Within max (level + 1) (unquoted (c :: rest)) ↔ Within max level (unquoted rest) := by
  rw [unquoted_cons hquote, within_close hclose]

/-- The empty array and the empty object. -/
theorem within_empty {c : Char} (hclose : isClosing c = true) (hquote : c ≠ '"')
    (hroom : level + 1 ≤ max) (h : Blanks t (c :: rest)) :
    Within max (level + 1) (unquoted t) ↔
      level + 1 + 0 ≤ max ∧ Within max level (unquoted rest) := by
  rw [h.within, within_closing hclose hquote, Nat.add_zero]
  exact (and_iff_right hroom).symm

mutual

/-- The brackets outside the literals of a value open as deep as its tree is, and close what
they open. -/
theorem Value.within {t rest : List Char} {j : Json} (h : Value t j rest) {max level : Nat}
    (hlevel : level ≤ max) :
    Within max level (unquoted t) ↔ level + j.depth ≤ max ∧ Within max level (unquoted rest) := by
  match h with
  | .null =>
    refine within_flat hlevel (by simp [Json.depth]) ?_
    exact within_neutrals ['n', 'u', 'l', 'l'] (List.all_eq_true.mp (by decide))
  | .true =>
    refine within_flat hlevel (by simp [Json.depth]) ?_
    exact within_neutrals ['t', 'r', 'u', 'e'] (List.all_eq_true.mp (by decide))
  | .false =>
    refine within_flat hlevel (by simp [Json.depth]) ?_
    exact within_neutrals ['f', 'a', 'l', 's', 'e'] (List.all_eq_true.mp (by decide))
  | .number hnumber => exact within_flat hlevel hnumber.depth (within_neutrals _ hnumber.neutral)
  | .str hspells =>
    refine within_flat hlevel (by simp [Json.depth]) ?_
    rw [unquoted_quote, hspells.unquoted]
  | .emptyArr hblanks =>
    rw [Json.depth, depthItems]
    exact within_bracket rfl (by decide) fun hroom => within_empty rfl (by decide) hroom hblanks
  | .arr hitems =>
    rw [Json.depth]
    exact within_bracket rfl (by decide) fun hroom => hitems.within hroom
  | .emptyObj hblanks =>
    rw [Json.depth, depthMembers]
    exact within_bracket rfl (by decide) fun hroom => within_empty rfl (by decide) hroom hblanks
  | .obj hmembers =>
    rw [Json.depth]
    exact within_bracket rfl (by decide) fun hroom => hmembers.within hroom

theorem Element.within {t rest : List Char} {j : Json} (h : Element t j rest) {max level : Nat}
    (hlevel : level ≤ max) :
    Within max level (unquoted t) ↔ level + j.depth ≤ max ∧ Within max level (unquoted rest) := by
  match h with
  | .mk hbefore hvalue hafter => rw [hbefore.within, hvalue.within hlevel, hafter.within]

theorem Elements.within {t rest : List Char} {items : List Json} (h : Elements t items rest)
    {max level : Nat} (hroom : level + 1 ≤ max) :
    Within max (level + 1) (unquoted t) ↔
      level + 1 + depthItems items ≤ max ∧ Within max level (unquoted rest) := by
  match h with
  | .last hlast =>
    rw [hlast.within hroom, within_closing rfl (by decide), depthItems, depthItems, Nat.max_zero]
  | .more hfirst hrest =>
    rw [hfirst.within hroom, within_neutral rfl, hrest.within hroom, depthItems, ← and_assoc]
    exact and_congr_left' (by omega)

theorem MembersText.within {t rest : List Char} {members : List (List Char × Json)}
    (h : MembersText t members rest) {max level : Nat} (hroom : level + 1 ≤ max) :
    Within max (level + 1) (unquoted t) ↔
      level + 1 + depthMembers members ≤ max ∧ Within max level (unquoted rest) := by
  match h with
  | .last hkey hlast =>
    rw [hkey.within, hlast.within hroom, within_closing rfl (by decide), depthMembers,
      depthMembers, Nat.max_zero]
  | .more hkey hfirst hrest =>
    rw [hkey.within, hfirst.within hroom, within_neutral rfl, hrest.within hroom, depthMembers,
      ← and_assoc]
    exact and_congr_left' (by omega)

end

/-- What stands outside the literals of a JSON text shows how deep it nests. -/
theorem JsonText.within {text : List Char} {j : Json} (h : JsonText text j) :
    Within max 0 (unquoted text) ↔ j.depth ≤ max := by
  rw [Element.within h (Nat.zero_le max), Nat.zero_add]
  exact and_iff_left rfl

/-- Two trees of one text are equally deep. -/
theorem JsonText.depth_unique {text : List Char} {j j' : Json} (h : JsonText text j)
    (h' : JsonText text j') : j.depth = j'.depth := by
  apply Nat.le_antisymm
  · exact h.within.mp (h'.within.mpr (Nat.le_refl _))
  · exact h'.within.mp (h.within.mpr (Nat.le_refl _))

end json
