-- The paths under the root scope. The constructor, the parser and the
-- checks of the storage each have rules for the names of a type, and they
-- agree: a name that one lets through the others do.
import EldChain.CadoPaths
import EldChain.MempoolAdmission

open Std

namespace eld_chain

/-! ## The characters of a path -/

/-- The characters of types and names. -/
def isNameChar (c : Char) : Bool := isAsciiLowercase c || isAsciiDigit c || c == '-' || c == '_'

/-- A character of a whole path. -/
def isPathChar (c : Char) : Bool := isNameChar c || c == '/' || c == '@'

theorem pathChar_range {c : Char} (h : isPathChar c = true) :
    (97 ≤ c.toNat ∧ c.toNat ≤ 122) ∨ (45 ≤ c.toNat ∧ c.toNat ≤ 57) ∨ c.toNat = 95 ∨
      c.toNat = 64 := by
  simp only [isPathChar, isNameChar, isAsciiLowercase, isAsciiDigit, Bool.or_eq_true,
    Bool.and_eq_true, decide_eq_true_eq, beq_iff_eq, Char.le_def, UInt32.le_iff_toNat_le] at h
  rcases h with ((((h | h) | rfl) | rfl) | rfl) | rfl
  · exact Or.inl h
  · have hlow : 48 ≤ c.toNat := h.1
    have hhigh : c.toNat ≤ 57 := h.2
    omega
  · decide
  · decide
  · decide
  · decide

/-- A character of a path is a plain one: of one byte, no control character and its own lower
case. -/
theorem pathChar_plain {c : Char} (h : isPathChar c = true) :
    isControl c = false ∧ toAsciiLowercase c = c ∧ c.utf8Size = 1 ∧ c ≠ Char.ofNat 0 := by
  have hc := pathChar_range h
  refine ⟨?_, ?_, ?_, ?_⟩
  · unfold isControl
    simp only [Bool.or_eq_false_iff, Bool.and_eq_false_iff, decide_eq_false_iff_not]
    omega
  · unfold toAsciiLowercase
    rw [if_neg]
    simp only [Char.le_def, UInt32.le_iff_toNat_le]
    intro hupper
    have hlow : 65 ≤ c.toNat := hupper.1
    have hhigh : c.toNat ≤ 90 := hupper.2
    omega
  · have hsmall : c.val.toNat ≤ 127 := by
      have : c.toNat ≤ 127 := by omega
      exact this
    unfold Char.utf8Size
    rw [if_pos (UInt32.le_iff_toNat_le.mpr hsmall)]
  · rintro rfl
    simp at hc

theorem nameChar_pathChar {c : Char} (h : isNameChar c = true) : isPathChar c = true := by
  unfold isPathChar
  rw [h, Bool.true_or, Bool.true_or]

theorem slash_not_nameChar {s : Text} (h : ∀ c ∈ s, isNameChar c = true) : '/' ∉ s := by
  intro hmem
  exact absurd (h '/' hmem) (by decide)

theorem type_chars (t : CadoType) : ∀ c ∈ t.as_str.toList, isNameChar c = true := by
  rw [← List.all_eq_true]
  cases t <;> decide

theorem type_length (t : CadoType) : t.as_str.toList.length ≤ 23 ∧ t.as_str.toList ≠ [] := by
  cases t <;> decide

/-- A character of a name as it may be written: the hex of a name can be in capitals. -/
def isWrittenChar (c : Char) : Bool := isNameChar (toAsciiLowercase c)

theorem written_lt {c : Char} (h : isWrittenChar c = true) : c.toNat < 128 := by
  by_contra hlarge
  have hsame : toAsciiLowercase c = c := by
    unfold toAsciiLowercase
    rw [if_neg]
    simp only [Char.le_def, UInt32.le_iff_toNat_le]
    intro hupper
    have hhigh : c.toNat ≤ 90 := hupper.2
    omega
  rw [isWrittenChar, hsame] at h
  have := pathChar_range (nameChar_pathChar h)
  omega

theorem written_plain {c : Char} (h : isWrittenChar c = true) :
    isControl c = false ∧ c.utf8Size = 1 ∧ c ≠ Char.ofNat 0 ∧ c ≠ '/' ∧ c ≠ '\\' := by
  have hall : ∀ n : Fin 128, isWrittenChar (Char.ofNat n) = true →
      isControl (Char.ofNat n) = false ∧ (Char.ofNat n).utf8Size = 1 ∧
        Char.ofNat n ≠ Char.ofNat 0 ∧ Char.ofNat n ≠ '/' ∧ Char.ofNat n ≠ '\\' := by decide
  have hc := hall ⟨c.toNat, written_lt h⟩
  simp only [Char.ofNat_toNat] at hc
  exact hc h

theorem hex_written {c : Char} (h : (hexVal c).isSome = true) : isWrittenChar c = true := by
  have hall : ∀ n : Fin 128, (hexVal (Char.ofNat n)).isSome = true →
      isWrittenChar (Char.ofNat n) = true := by decide
  have hc := hall ⟨c.toNat, hexVal_lt h⟩
  simp only [Char.ofNat_toNat] at hc
  exact hc h

theorem nameChar_written {c : Char} (h : isNameChar c = true) : isWrittenChar c = true := by
  unfold isWrittenChar
  rw [(pathChar_plain (nameChar_pathChar h)).2.1]
  exact h

/-! ## Names -/

@[simp]
theorem parse_type_as_str (t : CadoType) : CadoType.parse_type t.as_str.toList = some t := by
  cases t <;> decide

@[simp]
theorem valid_type (t : CadoType) : VALID_TYPES.contains t.as_str.toList = true := by
  cases t <;> decide

theorem is_address_type_as_str (t : CadoType) :
    is_address_type t.as_str.toList = t.is_address_type := by
  rw [is_address_type, parse_type_as_str, Option.any_some]

@[simp]
theorem starts_with_0x_cons (s : Text) : starts_with_0x ('0' :: 'x' :: s) = true := by
  unfold starts_with_0x
  simp

theorem starts_with_0x_iff {s : Text} : starts_with_0x s = true ↔ ∃ rest, s = '0' :: 'x' :: rest := by
  unfold starts_with_0x
  rw [List.isPrefixOf_iff_prefix]
  constructor
  · rintro ⟨rest, rfl⟩
    exact ⟨rest, rfl⟩
  · rintro ⟨rest, rfl⟩
    exact ⟨rest, rfl⟩

/-- `0x` and the hex of some bytes, in any case. -/
def HexName (n : Nat) (s : Text) : Prop :=
  ∃ rest bytes, s = '0' :: 'x' :: rest ∧ hex_decode rest = .ok bytes ∧ bytes.length = n

theorem validate_hex_eq_ok {s : Text} {n : Nat} {field_name : String} :
    validate_hex s n field_name = .ok () ↔ HexName n s := by
  unfold validate_hex
  constructor
  · intro h
    split at h
    · cases h
    · rename_i hstart
      obtain ⟨rest, rfl⟩ := starts_with_0x_iff.mp (Bool.not_eq_false _ ▸ hstart)
      rw [List.drop_succ_cons, List.drop_succ_cons, List.drop_zero] at h
      cases hdecode : hex_decode rest with
      | error e =>
        rw [hdecode] at h
        cases h
      | ok bytes =>
        rw [hdecode] at h
        simp only at h
        split at h
        · cases h
        · rename_i hlen
          exact ⟨rest, bytes, rfl, hdecode, Decidable.not_not.mp hlen⟩
  · rintro ⟨rest, bytes, rfl, hdecode, hlen⟩
    rw [starts_with_0x_cons, if_neg Bool.noConfusion]
    simp only [List.drop_succ_cons, List.drop_zero, hdecode, hlen, ne_eq, not_true_eq_false, if_false]

theorem HexName.chars {n : Nat} {s : Text} (h : HexName n s) : ∀ c ∈ s, isWrittenChar c = true := by
  obtain ⟨rest, bytes, rfl, hdecode, _⟩ := h
  intro c hc
  rw [List.mem_cons, List.mem_cons] at hc
  rcases hc with rfl | rfl | hc
  · decide
  · decide
  · exact hex_written ((hex_decode_digits hdecode).1 c hc)

theorem hexPairs_length {index : Nat} {b out : Bytes} (heven : b.length % 2 = 0)
    (h : hexPairs index b = .ok out) : b.length = 2 * out.length := by
  induction index, b using hexPairs.induct generalizing out with
  | case1 index high low rest ih =>
    simp only [hexPairs, bind_eq_ok] at h
    obtain ⟨a, _, b, _, rest', hrest, hout⟩ := h
    have hlater := ih (by simp only [List.length_cons] at heven; omega) hrest
    cases hout
    simp only [List.length_cons, hlater]
    omega
  | case2 b index hshort =>
    rcases b with _ | ⟨x, _ | ⟨y, rest⟩⟩
    · cases h
      rfl
    · simp at heven
    · exact absurd rfl (hshort x y rest)

theorem HexName.length {n : Nat} {s : Text} (h : HexName n s) : s.length = 2 * n + 2 := by
  obtain ⟨rest, bytes, rfl, hdecode, hlen⟩ := h
  have hdigits := (hex_decode_digits hdecode).1
  unfold hex_decode at hdecode
  simp only at hdecode
  split at hdecode
  · cases hdecode
  · rename_i heven
    have hpairs := hexPairs_length (by omega) hdecode
    rw [length_bytes, utf8Len_of_hex hdigits, hlen] at hpairs
    rw [List.length_cons, List.length_cons, hpairs]

/-- The names of a type that the parser lets through. -/
def CadoType.Names (t : CadoType) (name : Text) : Prop :=
  validate_name t.as_str.toList name = .ok ()

theorem names_namespace {name : Text} :
    CadoType.Namespace.Names name ↔ validate_namespace_slug name = .ok () := by
  unfold CadoType.Names validate_name
  rw [parse_type_as_str, if_pos rfl]

theorem names_hex {t : CadoType} (ht : t ≠ .Namespace) {name : Text} :
    t.Names name ↔ HexName (if t.is_address_type then 20 else 32) name := by
  unfold CadoType.Names validate_name
  rw [parse_type_as_str, if_neg (fun h => ht (Option.some.inj h)), is_address_type_as_str]
  exact validate_hex_eq_ok

theorem CadoType.Names.chars {t : CadoType} {name : Text} (h : t.Names name) :
    ∀ c ∈ name, isWrittenChar c = true := by
  by_cases ht : t = .Namespace
  · subst ht
    intro c hc
    have hplain := valid_slug_chars (names_namespace.mp h) c hc
    apply nameChar_written
    unfold isNameChar
    rw [hplain, Bool.true_or]
  · exact ((names_hex ht).mp h).chars

theorem CadoType.Names.no_slash {t : CadoType} {name : Text} (h : t.Names name) : '/' ∉ name :=
  fun hmem => (written_plain (h.chars '/' hmem)).2.2.2.1 rfl

theorem CadoType.Names.nonempty {t : CadoType} {name : Text} (h : t.Names name) : name ≠ [] := by
  rintro rfl
  by_cases ht : t = .Namespace
  · subst ht
    cases names_namespace.mp h
  · have hlen := ((names_hex ht).mp h).length
    simp at hlen

theorem utf8Len_written {s : Text} (h : ∀ c ∈ s, c.utf8Size = 1) : utf8Len s = s.length := by
  unfold utf8Len
  rw [List.map_congr_left h, List.map_const', List.sum_replicate_nat, Nat.mul_one]

theorem CadoType.Names.length {t : CadoType} {name : Text} (h : t.Names name) :
    name.length ≤ 66 := by
  by_cases ht : t = .Namespace
  · subst ht
    have hlen := utf8Len_written (fun c hc => (written_plain (h.chars c hc)).2.1)
    have hvalid := names_namespace.mp h
    unfold validate_namespace_slug at hvalid
    split at hvalid
    · cases hvalid
    · rename_i hsize
      unfold SLUG_MAX_LEN at hsize
      omega
  · rw [((names_hex ht).mp h).length]
    cases t.is_address_type <;> decide

/-! ## The text of a path -/

/-- A character of a path in its lower case is one of a plain path. -/
theorem path_lower {t : CadoType} {name : Text} (h : t.Names name) :
    ∀ c ∈ (PathText.ofName t name).path, isPathChar (toAsciiLowercase c) = true ∧
      isControl c = false ∧ c.utf8Size = 1 ∧ c ≠ Char.ofNat 0 ∧ c ≠ '\\' := by
  have hfixed : ∀ c, isPathChar c = true → isPathChar (toAsciiLowercase c) = true ∧
      isControl c = false ∧ c.utf8Size = 1 ∧ c ≠ Char.ofNat 0 ∧ c ≠ '\\' := by
    intro c hc
    obtain ⟨hcontrol, hlower, hsize, hnull⟩ := pathChar_plain hc
    rw [hlower]
    refine ⟨hc, hcontrol, hsize, hnull, ?_⟩
    rintro rfl
    cases hc
  have hscope : ∀ c ∈ SCOPE_ELD_ROOT, isPathChar c = true := List.all_eq_true.mp (by decide)
  intro c hc
  simp only [PathText.ofName, List.mem_cons, List.mem_append] at hc
  rcases hc with rfl | hc | rfl | hc | rfl | hc
  · exact hfixed '/' rfl
  · exact hfixed c (hscope c hc)
  · exact hfixed '/' rfl
  · exact hfixed c (nameChar_pathChar (type_chars t c hc))
  · exact hfixed '/' rfl
  · obtain ⟨hcontrol, hsize, hnull, _, hback⟩ := written_plain (h.chars c hc)
    exact ⟨nameChar_pathChar (h.chars c hc), hcontrol, hsize, hnull, hback⟩

theorem splitOn_path {t : CadoType} {name : Text} (h : t.Names name) :
    (PathText.ofName t name).path.splitOn '/' = [[], SCOPE_ELD_ROOT, t.as_str.toList, name] := by
  have hscope : '/' ∉ SCOPE_ELD_ROOT := by decide
  have htype := slash_not_nameChar (type_chars t)
  change List.splitOn '/' ([] ++ '/' :: _) = _
  rw [List.splitOn_append_cons_self_of_not_mem List.not_mem_nil,
    List.splitOn_append_cons_self_of_not_mem hscope,
    List.splitOn_append_cons_self_of_not_mem htype, List.splitOn_eq_singleton h.no_slash]

theorem splitn_path {t : CadoType} {name : Text} (h : t.Names name) :
    splitn 4 ((PathText.ofName t name).path.drop 1) = [SCOPE_ELD_ROOT, t.as_str.toList, name] := by
  have hparts := splitOn_path h
  change List.splitOn '/' ([] ++ '/' :: _) = _ at hparts
  rw [List.splitOn_append_cons_self_of_not_mem List.not_mem_nil] at hparts
  unfold splitn PathText.ofName
  rw [List.drop_one, List.tail_cons, (List.cons.inj hparts).2]
  rfl

/-- A path with a name of its type parses to its parts. -/
theorem parse_ofName {t : CadoType} {name : Text} (h : t.Names name) :
    PathText.parse (PathText.ofName t name).path = .ok (PathText.ofName t name) := by
  have hhead : (PathText.ofName t name).path.head? = some '/' := rfl
  have hscope : ¬ (SCOPE_ELD_ROOT.head? ≠ some '@' ∨ utf8Len SCOPE_ELD_ROOT ≤ 1) := by decide
  have hname : validate_name t.as_str.toList name = .ok () := h
  unfold PathText.parse
  rw [if_neg (not_ne_iff.mpr hhead), splitn_path h]
  simp only [if_neg hscope, valid_type, Bool.true_eq_false, if_false, ne_eq, not_true_eq_false,
    hname]
  rfl

/-! ## The checks of the storage -/

/-- No two slashes stand side by side. -/
def Unslashed (a b : Char) : Prop := ¬ (a = '/' ∧ b = '/')

theorem isChain_of_no_slash {s : Text} (h : '/' ∉ s) : s.IsChain Unslashed := by
  induction s with
  | nil => exact List.isChain_nil
  | cons c s ih =>
    have hc : c ≠ '/' := fun heq => h (heq ▸ List.mem_cons_self)
    apply List.isChain_cons.mpr
    exact ⟨fun _ _ hboth => hc hboth.1, ih (fun hmem => h (List.mem_cons_of_mem _ hmem))⟩

theorem isChain_slash_part {part : Text} (hpart : '/' ∉ part) :
    ('/' :: part).IsChain Unslashed := by
  apply List.isChain_cons.mpr
  refine ⟨fun c hc hboth => ?_, isChain_of_no_slash hpart⟩
  rw [hboth.2] at hc
  exact hpart (List.mem_of_mem_head? hc)

/-- A part before a path that begins with its slash. -/
theorem isChain_part {part rest : Text} (hpart : '/' ∉ part) (hne : part ≠ [])
    (hrest : ('/' :: rest).IsChain Unslashed) :
    ('/' :: (part ++ '/' :: rest)).IsChain Unslashed := by
  rw [← List.cons_append, List.isChain_append]
  refine ⟨isChain_slash_part hpart, hrest, fun c hc d _ hboth => ?_⟩
  rw [hboth.1, List.getLast?_cons_of_ne_nil hne] at hc
  exact hpart (List.mem_of_getLast? hc)

theorem no_double_slash {t : CadoType} {name : Text} (hname : '/' ∉ name) :
    ¬ "//".toList <:+: (PathText.ofName t name).path := by
  intro hsub
  have hchain : (PathText.ofName t name).path.IsChain Unslashed := by
    apply isChain_part (by decide) (by decide)
    apply isChain_part (slash_not_nameChar (type_chars t)) (type_length t).2
    exact isChain_slash_part hname
  have hpair : ['/', '/'].IsChain Unslashed := hchain.infix hsub
  rw [List.isChain_cons_cons] at hpair
  exact hpair.1 ⟨rfl, rfl⟩

/-- Every pattern but the two slashes holds a character that no path has. -/
theorem patterns_have_foreign : ∀ pattern ∈ traversal_patterns, pattern = "//" ∨
    ∃ c ∈ pattern.toList, isPathChar c = false := by
  have hall : traversal_patterns.all (fun pattern =>
      pattern == "//" || pattern.toList.any fun c => !isPathChar c) = true := by decide
  intro pattern hmem
  have hpattern := List.all_eq_true.mp hall pattern hmem
  simpa using hpattern

/-- In lower case a path is one with its name in lower case. -/
theorem path_toLower (t : CadoType) (name : Text) :
    (PathText.ofName t name).path.map toAsciiLowercase =
      (PathText.ofName t (name.map toAsciiLowercase)).path := by
  have hscope : SCOPE_ELD_ROOT.map toAsciiLowercase = SCOPE_ELD_ROOT := by decide
  have htype : t.as_str.toList.map toAsciiLowercase = t.as_str.toList := by
    rw [List.map_congr_left (fun c hc => (pathChar_plain (nameChar_pathChar (type_chars t c hc))).2.1),
      List.map_id']
  unfold PathText.ofName
  simp only [List.map_cons, List.map_append, hscope, htype]
  rfl

theorem no_pattern {t : CadoType} {name : Text} (h : t.Names name) :
    traversal_patterns.find? (contains_pattern (PathText.ofName t name).path) = none := by
  have hslash : '/' ∉ name.map toAsciiLowercase := by
    apply slash_not_nameChar
    intro c hc
    obtain ⟨d, hd, rfl⟩ := List.mem_map.mp hc
    exact h.chars d hd
  rw [List.find?_eq_none]
  intro pattern hmem
  unfold contains_pattern
  rw [decide_eq_true_iff]
  rcases patterns_have_foreign pattern hmem with rfl | ⟨c, hc, hforeign⟩
  · rw [path_toLower]
    exact no_double_slash hslash
  · intro hsub
    obtain ⟨d, hd, rfl⟩ := List.mem_map.mp (hsub.subset hc)
    rw [(path_lower h d hd).1] at hforeign
    cases hforeign

theorem path_length {t : CadoType} {name : Text} (h : t.Names name) :
    (PathText.ofName t name).path.length ≤ 96 := by
  have hname := h.length
  have htype := (type_length t).1
  simp only [PathText.ofName, List.length_cons, List.length_append, SCOPE_ELD_ROOT]
  change 3 + 1 + (_ + _) + 1 + 1 ≤ 96
  omega

theorem utf8Len_ofName {t : CadoType} {name : Text} (h : t.Names name) :
    utf8Len (PathText.ofName t name).path = (PathText.ofName t name).path.length :=
  utf8Len_written (fun c hc => (path_lower h c hc).2.2.1)

theorem validate_path_text_ofName {t : CadoType} {name : Text} (h : t.Names name) :
    validate_path_text (PathText.ofName t name).path = .ok () := by
  have hlen := path_length h
  have hsize : ¬ MAX_PATH_LENGTH < utf8Len (PathText.ofName t name).path := by
    rw [utf8Len_ofName h]
    unfold MAX_PATH_LENGTH
    omega
  have hnull : (PathText.ofName t name).path.contains (Char.ofNat 0) = false := by
    rw [List.contains_eq_mem, decide_eq_false_iff_not]
    exact fun hmem => (path_lower h _ hmem).2.2.2.1 rfl
  have hcontrol : (PathText.ofName t name).path.any
      (fun c => isControl c && c != '\t' && c != '\n' && c != '\r') = false := by
    rw [List.any_eq_false]
    intro c hc
    rw [(path_lower h c hc).2.1, Bool.false_and, Bool.false_and, Bool.false_and]
    exact Bool.false_ne_true
  have hparts : ¬ (((PathText.ofName t name).path.splitOn '/').filter (fun s => s != [])).length < 3 := by
    have hscope : SCOPE_ELD_ROOT ≠ [] := by decide
    rw [splitOn_path h]
    simp [(type_length t).2, h.nonempty, hscope]
  unfold validate_path_text
  rw [if_neg hsize, hnull, if_neg Bool.false_ne_true, hcontrol, if_neg Bool.false_ne_true,
    no_pattern h]
  exact if_neg hparts

theorem validate_address_name_ok (type_ : Text) {name : Text} (h : HexName 20 name) :
    validate_address_name type_ name = .ok () := by
  obtain ⟨rest, bytes, rfl, hdecode, hlen⟩ := h
  unfold validate_address_name
  rw [starts_with_0x_cons, if_neg Bool.noConfusion]
  simp only [List.drop_succ_cons, List.drop_zero, hdecode, hlen, ne_eq, not_true_eq_false, if_false]

theorem validate_hash_name_ok (type_ : Text) {name : Text} (h : HexName 32 name) :
    validate_hash_name type_ name = .ok () := by
  obtain ⟨rest, bytes, rfl, hdecode, hlen⟩ := h
  unfold validate_hash_name
  rw [starts_with_0x_cons, if_neg Bool.noConfusion]
  simp only [List.drop_succ_cons, List.drop_zero, hdecode, hlen, ne_eq, not_true_eq_false, if_false]

theorem validate_path_parts_ofName {t : CadoType} {name : Text} (h : t.Names name) :
    validate_path_parts (PathText.ofName t name) = .ok () := by
  have hscope : ALLOWED_SCOPES.contains SCOPE_ELD_ROOT = true := by decide
  unfold validate_path_parts PathText.ofName
  simp only [hscope, valid_type, Bool.true_eq_false, if_false, h.nonempty, is_address_type_as_str,
    parse_type_as_str, Option.some.injEq]
  by_cases ht : t = .Namespace
  · subst ht
    exact names_namespace.mp h
  · have hhex := (names_hex ht).mp h
    cases hkind : t.is_address_type with
    | true =>
      rw [hkind, if_pos rfl] at hhex
      rw [if_pos rfl]
      exact validate_address_name_ok _ hhex
    | false =>
      rw [hkind, if_neg Bool.false_ne_true] at hhex
      rw [if_neg Bool.false_ne_true, if_neg ht]
      exact validate_hash_name_ok _ hhex

theorem validate_path_ending_ofName {t : CadoType} {name : Text} (h : t.Names name) :
    validate_path_ending (PathText.ofName t name).path = .ok () := by
  have hbackslash : '\\' ∉ (PathText.ofName t name).path :=
    fun hmem => (path_lower h _ hmem).2.2.2.2 rfl
  have hdouble : ¬ ("//".toList <:+: (PathText.ofName t name).path ∨
      "\\\\".toList <:+: (PathText.ofName t name).path) := by
    rintro (hslashes | hbackslashes)
    · exact no_double_slash h.no_slash hslashes
    · exact hbackslash (hbackslashes.subset (by decide))
  have hlast : ¬ ((PathText.ofName t name).path.getLast? = some '/' ∨
      (PathText.ofName t name).path.getLast? = some '\\') := by
    rintro (hslash | hback)
    · have hsplit : (PathText.ofName t name).path =
          ('/' :: (SCOPE_ELD_ROOT ++ '/' :: (t.as_str.toList ++ ['/']))) ++ name := by
        unfold PathText.ofName
        simp
      rw [hsplit, List.getLast?_append_of_ne_nil _ h.nonempty] at hslash
      exact h.no_slash (List.mem_of_getLast? hslash)
    · exact hbackslash (List.mem_of_getLast? hback)
  unfold validate_path_ending
  rw [if_neg hdouble, if_neg hlast]

/-- A path with a name of its type passes the checks of the storage. -/
theorem validate_ofName {t : CadoType} {name : Text} (h : t.Names name) :
    validate_cado_path_internal (PathText.ofName t name) = .ok () := by
  unfold validate_cado_path_internal
  rw [validate_path_text_ofName h, validate_path_parts_ofName h, validate_path_ending_ofName h]
  rfl

/-! ## The constructor -/

/-- What the constructor makes is the path of its type with a name that the parser lets
through. -/
theorem names_of_new {strDebug : Text → String} {t : CadoType} {key : CadoPathKey} {p : PathText}
    (h : PathText.new strDebug t key = .ok p) :
    ∃ name, t.Names name ∧ p = PathText.ofName t name := by
  unfold PathText.new at h
  by_cases ht : t = .Namespace
  · subst ht
    rw [if_pos rfl] at h
    cases key with
    | NamespaceSlug slug =>
      obtain ⟨_, hslug, hp⟩ := bind_eq_ok.mp h
      cases hp
      exact ⟨slug, names_namespace.mpr hslug, rfl⟩
    | Name _ | NameAndId _ _ | Address _ | AddressAndId _ _ => cases h
  · rw [if_neg ht] at h
    obtain ⟨name, _, hrest⟩ := bind_eq_ok.mp h
    obtain ⟨_, hhex, hp⟩ := bind_eq_ok.mp hrest
    cases hp
    exact ⟨name, (names_hex ht).mpr (validate_hex_eq_ok.mp hhex), rfl⟩

/-- The key that makes the path of a name. -/
def CadoType.keyOf (t : CadoType) (name : Text) : CadoPathKey :=
  if t = .Namespace then .NamespaceSlug name else .Name name

theorem new_keyOf (strDebug : Text → String) {t : CadoType} {name : Text} (h : t.Names name) :
    PathText.new strDebug t (t.keyOf name) = .ok (PathText.ofName t name) := by
  unfold PathText.new CadoType.keyOf
  by_cases ht : t = .Namespace
  · subst ht
    rw [if_pos rfl, if_pos rfl]
    exact bind_eq_ok.mpr ⟨(), names_namespace.mp h, rfl⟩
  · rw [if_neg ht, if_neg ht]
    refine bind_eq_ok.mpr ⟨name, rfl, ?_⟩
    exact bind_eq_ok.mpr ⟨(), validate_hex_eq_ok.mpr ((names_hex ht).mp h), rfl⟩

/-! ## The parser -/

theorem valid_type_iff {type_ : Text} :
    VALID_TYPES.contains type_ = true ↔ ∃ t : CadoType, t.as_str.toList = type_ := by
  constructor
  · intro h
    rw [List.contains_eq_mem, decide_eq_true_iff] at h
    obtain ⟨t, _, ht⟩ := List.mem_map.mp h
    exact ⟨t, ht⟩
  · rintro ⟨t, rfl⟩
    exact valid_type t

/-- Three parts and no fourth are the whole text. -/
theorem splitn_three {s scope type_ name : Text} (h : splitn 4 s = [scope, type_, name]) :
    s = scope ++ '/' :: (type_ ++ '/' :: name) := by
  unfold splitn at h
  simp only at h
  split at h
  · have hjoin : ['/'].intercalate (s.splitOn '/') = s := List.intercalate_splitOn '/'
    rw [h] at hjoin
    rw [← hjoin]
    simp [List.intercalate]
  · rename_i hmany
    have hlen := congrArg List.length h
    rw [List.length_append, List.length_take] at hlen
    simp at hlen
    omega

/-- A path that parses is written from its parts, and they are a type and a name for it. -/
theorem parse_eq_ok {s : Text} {p : PathText} (h : PathText.parse s = .ok p) :
    p.path = s ∧ s = '/' :: (p.scope ++ '/' :: (p.type_ ++ '/' :: p.name)) ∧
      VALID_TYPES.contains p.type_ = true ∧ validate_name p.type_ p.name = .ok () := by
  unfold PathText.parse at h
  rw [unless_eq_ok] at h
  obtain ⟨hhead, h⟩ := h
  split at h
  · rename_i scope type_ name rest hsplit
    simp only [unless_eq_ok] at h
    obtain ⟨_, htype, hrest, h⟩ := h
    split at h
    · cases h
    · rename_i hname
      cases h
      rw [Decidable.not_not.mp hrest] at hsplit
      have hs : s = '/' :: s.drop 1 := by
        cases s with
        | nil => exact absurd hhead (by simp)
        | cons c s =>
          have hc : c = '/' := by simpa using hhead
          rw [hc]
          rfl
      rw [splitn_three hsplit] at hs
      exact ⟨rfl, hs, Bool.not_eq_false _ ▸ htype, hname⟩
  · cases h

/-- What the parser lets through under the root scope is the path of a type with one of its
names. -/
theorem names_of_parse {s : Text} {p : PathText} (h : PathText.parse s = .ok p)
    (hscope : p.scope = SCOPE_ELD_ROOT) :
    p.path = s ∧ ∃ (t : CadoType) (name : Text), t.Names name ∧ p = PathText.ofName t name := by
  obtain ⟨hpath, hs, htype, hname⟩ := parse_eq_ok h
  obtain ⟨t, ht⟩ := valid_type_iff.mp htype
  refine ⟨hpath, t, p.name, ?_, ?_⟩
  · unfold CadoType.Names
    rw [ht]
    exact hname
  · cases p with
    | mk path scope type_ name =>
      simp only at hpath hs ht hscope
      unfold PathText.ofName
      rw [hpath, hs, hscope, ht]

/-! ## One language -/

/-- The constructor, the parser and the storage agree on the paths under the root scope. What
the constructor makes, the parser takes apart into the same parts and the storage accepts; and
every text under that scope that the parser lets through is one that the constructor makes. -/
theorem paths_are_one_language (strDebug : Text → String) :
    (∀ (t : CadoType) (key : CadoPathKey) (p : PathText), PathText.new strDebug t key = .ok p →
      PathText.parse p.path = .ok p ∧ p.scope = SCOPE_ELD_ROOT ∧ p.type_ = t.as_str.toList ∧
        validate_cado_path_internal p = .ok ()) ∧
    ∀ (s : Text) (p : PathText), PathText.parse s = .ok p → p.scope = SCOPE_ELD_ROOT →
      ∃ (t : CadoType) (key : CadoPathKey), PathText.new strDebug t key = .ok p ∧ p.path = s := by
  constructor
  · intro t key p h
    obtain ⟨name, hname, rfl⟩ := names_of_new h
    exact ⟨parse_ofName hname, rfl, rfl, validate_ofName hname⟩
  · intro s p h hscope
    obtain ⟨hs, t, name, hname, rfl⟩ := names_of_parse h hscope
    exact ⟨t, t.keyOf name, new_keyOf strDebug hname, hs⟩

/-- The path of the namespace `abc`. -/
def namespaceAbc : PathText := .ofName .Namespace "abc".toList

theorem namespaceAbc_is_one_path :
    PathText.parse namespaceAbc.path = .ok namespaceAbc ∧
    ∃ (t : CadoType) (key : CadoPathKey), PathText.new (fun _ => "") t key = .ok namespaceAbc ∧
      namespaceAbc.path = "/@eld/namespace/abc".toList :=
  ⟨((paths_are_one_language (fun _ => "")).1 .Namespace (.NamespaceSlug "abc".toList) namespaceAbc
      rfl).1,
    (paths_are_one_language (fun _ => "")).2 "/@eld/namespace/abc".toList namespaceAbc rfl rfl⟩

end eld_chain
