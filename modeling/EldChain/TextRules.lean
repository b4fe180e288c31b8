-- The rules that the payload constructors set for text: safe strings,
-- hex strings, amounts written as decimal text, and the content type and
-- the tags of a message. What a constructor stores passes its own rule
-- again unchanged.
import EldChain.Namespaces

namespace eld_chain

/-! ## Safe strings -/

/-- `char::is_control`. -/
def isControl (c : Char) : Bool := c.toNat < 32 || (127 ≤ c.toNat && c.toNat < 160)

def dangerous_chars : List Char :=
  ['<', '>', '"', '\'', '&', ';', '|', '\x60', '$', '(', ')', '\x7b', '\x7d']

/-- `validate_safe_string`: not empty, not too long, no quotes or brackets of markup and no
control characters. -/
def validate_safe_string (input : Text) (max_length : Nat) : Except EldError Unit :=
  if input = [] then
    .error (.ValidationError "string" (String.ofList input) "String cannot be empty")
  else if max_length < utf8Len input then
    .error (.ValidationError "string" (String.ofList input)
      ("String exceeds maximum length of " ++ toString max_length))
  else match dangerous_chars.find? (fun c => c ∈ input) with
    | some ch => .error (.ValidationError "string" (String.ofList input)
        ("String contains potentially dangerous character: " ++ String.singleton ch))
    | none =>
      if input.any isControl then
        .error (.ValidationError "string" (String.ofList input)
          "String contains control characters")
      else .ok ()

/-- A character that no rule forbids, of one byte. -/
def isSafe (c : Char) : Bool := !dangerous_chars.contains c && !isControl c && c.utf8Size == 1

theorem utf8Len_of_safe {s : Text} (h : ∀ c ∈ s, isSafe c = true) : utf8Len s = s.length := by
  induction s with
  | nil => rfl
  | cons c s ih =>
    have hc := h c List.mem_cons_self
    simp only [isSafe, Bool.and_eq_true, beq_iff_eq] at hc
    have hs := ih (fun d hd => h d (List.mem_cons_of_mem _ hd))
    unfold utf8Len at hs ⊢
    rw [List.map_cons, List.sum_cons, hc.2, hs, List.length_cons, Nat.add_comm]

theorem safe_string {input : Text} {max_length : Nat} (hne : input ≠ [])
    (hlen : input.length ≤ max_length) (h : ∀ c ∈ input, isSafe c = true) :
    validate_safe_string input max_length = .ok () := by
  have hfind : dangerous_chars.find? (fun c => c ∈ input) = none := by
    rw [List.find?_eq_none]
    intro c hc
    simp only [decide_eq_true_eq]
    intro hmem
    have := h c hmem
    simp [isSafe, hc] at this
  have hcontrol : input.any isControl = false := by
    rw [List.any_eq_false]
    intro c hc
    have := h c hc
    simp only [isSafe, Bool.and_eq_true, Bool.not_eq_true'] at this
    simp [this.1.2]
  unfold validate_safe_string
  rw [if_neg hne, if_neg (by rw [utf8Len_of_safe h]; omega), hfind, hcontrol]
  rfl

/-- The same rules, for the id of a challenge. -/
def validate_verified_proof_challenge_id (challenge_id : Text) : Except EldError Unit :=
  validate_safe_string challenge_id 100

/-- Hex text is safe, with or without its prefix. -/
theorem hexDigits_safe {n v : Nat} : ∀ c ∈ hexDigits n v, isSafe c = true := by
  intro c hc
  obtain ⟨d, hd, rfl⟩ := mem_hexDigits hc
  have hall : ∀ i : Fin 16, isSafe (hexChar i) = true := by decide
  exact hall ⟨d, hd⟩

theorem hex_id_safe (n v : Nat) (hn : 0 < n ∧ n ≤ 100) :
    validate_verified_proof_challenge_id (hexDigits n v) = .ok () := by
  apply safe_string
  · rw [ne_eq, ← List.length_eq_zero_iff, length_hexDigits]
    omega
  · rw [length_hexDigits]
    exact hn.2
  · exact hexDigits_safe

theorem prefixed_id_safe (n v : Nat) (hn : n ≤ 98) :
    validate_verified_proof_challenge_id ('0' :: 'x' :: hexDigits n v) = .ok () := by
  apply safe_string
  · simp
  · rw [List.length_cons, List.length_cons, length_hexDigits]
    omega
  · intro c hc
    rw [List.mem_cons, List.mem_cons] at hc
    rcases hc with rfl | rfl | hc
    · decide
    · decide
    · exact hexDigits_safe c hc

/-! ## Hex strings -/

theorem hexVal_lt {c : Char} (h : (hexVal c).isSome = true) : c.toNat < 128 := by
  unfold hexVal at h
  simp only [Char.le_def, UInt32.le_iff_toNat_le] at h
  have hle : ∀ d : Char, d.toNat < 128 → c.val.toNat ≤ d.val.toNat → c.toNat < 128 :=
    fun d hd hcd => Nat.lt_of_le_of_lt hcd hd
  split at h
  · rename_i hr
    exact hle '9' (by decide) hr.2
  · split at h
    · rename_i hr
      exact hle 'f' (by decide) hr.2
    · split at h
      · rename_i hr
        exact hle 'F' (by decide) hr.2
      · cases h

theorem hex_safe {c : Char} (h : (hexVal c).isSome = true) : isSafe c = true := by
  have hall : ∀ i : Fin 128, (hexVal (Char.ofNat i)).isSome = true →
      isSafe (Char.ofNat i) = true := by decide
  have hc := hall ⟨c.toNat, hexVal_lt h⟩
  rw [Char.ofNat_toNat] at hc
  exact hc h

/-- Hex text has one byte for each character. -/
theorem utf8Len_of_hex {t : Text} (h : ∀ c ∈ t, (hexVal c).isSome = true) :
    utf8Len t = t.length :=
  utf8Len_of_safe (fun c hc => hex_safe (h c hc))

theorem hexNumber_isSome {t : Text} :
    (hexNumber t).isSome = true ↔ ∀ c ∈ t, (hexVal c).isSome = true := by
  have hfold : ∀ acc, (t.foldlM (fun acc c => (hexVal c).map (fun d => 16 * acc + d)) acc).isSome
      = true ↔ ∀ c ∈ t, (hexVal c).isSome = true := by
    induction t with
    | nil => simp
    | cons c t ih =>
      intro acc
      rw [List.foldlM_cons, List.forall_mem_cons]
      cases hc : hexVal c with
      | none => simp
      | some d => simpa using ih (16 * acc + d)
  exact hfold 0

/-- What was decoded had the right number of digits, and nothing else. -/
theorem decode_fixed_hex_chars {n : Nat} {t : Text} {field : String} {b : BitVec (8 * n)}
    (h : decode_fixed_hex n t field = .ok b) :
    ( strip_optional_hex_prefix t).length = 2 * n ∧
      ∀ c ∈ strip_optional_hex_prefix t, (hexVal c).isSome = true := by
  unfold decode_fixed_hex at h
  simp only at h
  split at h
  · cases h
  · split at h
    · cases h
    · split at h
      · cases h
      · rename_i v hv
        split at h
        · rename_i hlen
          exact ⟨hlen, hexNumber_isSome.mp (by rw [hv]; rfl)⟩
        · cases h

def validate_hex_string (hex_str : Text) (max_bytes : Nat) : Except EldError Unit :=
  let error := fun details => .error (.ValidationError "hex string" (String.ofList hex_str) details)
  if hex_str = [] then error "Hex string cannot be empty"
  else if max_bytes * 2 < utf8Len hex_str then
    error ("Hex string too long: " ++ toString (utf8Len hex_str) ++ " characters (max "
      ++ toString max_bytes ++ " bytes)")
  else if utf8Len hex_str % 2 ≠ 0 then error "Hex string must have even length"
  else if hex_str.all (fun c => (hexVal c).isSome) then .ok ()
  else error "Hex string contains invalid characters"

/-! ## Amounts -/

/-- `str::parse::<u128>`: decimal digits, with one `+` before them at most. -/
def parse_u128 (s : Text) : Option Nat :=
  let digits := if s.head? = some '+' then s.tail else s
  let value := Nat.ofDigitChars 10 digits 0
  if digits ≠ [] ∧ digits.all isAsciiDigit ∧ value < 2 ^ 128 then some value else none

theorem parse_u128_toDigits {n : Nat} (h : n < 2 ^ 128) :
    parse_u128 (Nat.toDigits 10 n) = some n := by
  have hdigit : ∀ c ∈ Nat.toDigits 10 n, isAsciiDigit c = true := by
    intro c hc
    have := Nat.isDigit_of_mem_toDigits (by omega) (by omega) hc
    simpa [Char.isDigit, isAsciiDigit, Char.le_def] using this
  have hplus : (Nat.toDigits 10 n).head? ≠ some '+' := by
    intro hhead
    have := hdigit '+' (List.mem_of_mem_head? hhead)
    exact absurd this (by decide)
  unfold parse_u128
  simp only [if_neg hplus, Nat.ofDigitChars_ten_toDigits]
  rw [if_pos]
  exact ⟨Nat.toDigits_ne_nil, List.all_eq_true.mpr hdigit, h⟩

/-! ## Messages -/

def POST_MESSAGE_MAX_TAGS : Nat := 4

def POST_MESSAGE_MAX_TAG_UTF8_BYTES : Nat := 64

/-- A tag that spells an address becomes the canonical text of the address. -/
def normalizeTag (tag : Text) : Text :=
  match decode_fixed_hex 20 tag "address" with
  | .ok a => '0' :: 'x' :: hexDigits 40 a.toNat
  | .error _ => tag

/-- One tag: the length is checked before and after it takes its normal form. -/
def canonicalizeTag (tag : Text) : Except EldError Text :=
  if POST_MESSAGE_MAX_TAG_UTF8_BYTES < utf8Len tag then
    .error (.ValidationError "tags" (String.ofList tag)
      ("tag exceeds maximum length of " ++ toString POST_MESSAGE_MAX_TAG_UTF8_BYTES ++ " bytes"))
  else if POST_MESSAGE_MAX_TAG_UTF8_BYTES < utf8Len (normalizeTag tag) then
    .error (.ValidationError "tags" (String.ofList (normalizeTag tag))
      ("normalized tag exceeds maximum length of " ++ toString POST_MESSAGE_MAX_TAG_UTF8_BYTES
        ++ " bytes"))
  else .ok (normalizeTag tag)

def canonicalizeTags : List Text → Except EldError (List Text)
  | [] => .ok []
  | tag :: rest =>
    match canonicalizeTag tag with
    | .error e => .error e
    | .ok normalized =>
      match canonicalizeTags rest with
      | .error e => .error e
      | .ok out => .ok (normalized :: out)

def canonicalize_post_message_tags (tags : List Text) : Except EldError (List Text) :=
  if POST_MESSAGE_MAX_TAGS < tags.length then
    .error (.ValidationError "tags" (toString tags.length ++ " tags")
      ("at most " ++ toString POST_MESSAGE_MAX_TAGS ++ " tags allowed"))
  else canonicalizeTags tags

def POST_MESSAGE_ALLOWED_CONTENT_TYPES : List Text :=
  ["text/plain", "application/json", "image/png"].map String.toList

def validate_post_message_content_type (content_type : Text) : Except EldError Unit :=
  let trimmed := trim content_type
  if trimmed = [] then
    .error (.ValidationError "content_type" (String.ofList content_type)
      "content_type must not be empty")
  else if POST_MESSAGE_ALLOWED_CONTENT_TYPES.contains trimmed then .ok ()
  else .error (.ValidationError "content_type" (String.ofList content_type)
    "unsupported mime type")

/-! ## Fixed points -/

theorem normalizeTag_idempotent (tag : Text) : normalizeTag (normalizeTag tag) = normalizeTag tag := by
  rcases h : decode_fixed_hex 20 tag "address" with e | a
  · simp only [normalizeTag, h]
  · have hcanonical : decode_fixed_hex 20 ('0' :: 'x' :: hexDigits 40 a.toNat) "address" = .ok a :=
      decode_fixed_hex_of_strip (by omega) a _ _ rfl
    simp only [normalizeTag, h, hcanonical]

theorem canonicalizeTag_fixed {tag normalized : Text} (h : canonicalizeTag tag = .ok normalized) :
    canonicalizeTag normalized = .ok normalized := by
  unfold canonicalizeTag at h
  split at h
  · cases h
  · split at h
    · cases h
    · rename_i hlen
      cases h
      unfold canonicalizeTag
      rw [normalizeTag_idempotent, if_neg hlen, if_neg hlen]

theorem canonicalizeTags_fixed {tags out : List Text} (h : canonicalizeTags tags = .ok out) :
    canonicalizeTags out = .ok out ∧ out.length = tags.length := by
  induction tags generalizing out with
  | nil =>
    cases h
    exact ⟨rfl, rfl⟩
  | cons tag rest ih =>
    rw [canonicalizeTags] at h
    split at h
    · cases h
    · rename_i normalized htag
      split at h
      · cases h
      · rename_i out' hrest
        cases h
        obtain ⟨hfixed, hlen⟩ := ih hrest
        refine ⟨?_, by rw [List.length_cons, List.length_cons, hlen]⟩
        rw [canonicalizeTags, canonicalizeTag_fixed htag, hfixed]

/-- Canonical tags stay as they are. -/
theorem canonicalize_tags_fixed {tags out : List Text}
    (h : canonicalize_post_message_tags tags = .ok out) :
    canonicalize_post_message_tags out = .ok out := by
  unfold canonicalize_post_message_tags at h
  split at h
  · cases h
  · rename_i hcount
    obtain ⟨hfixed, hlen⟩ := canonicalizeTags_fixed h
    unfold canonicalize_post_message_tags
    rw [hlen, if_neg hcount, hfixed]

/-- The letters of an upload namespace are plain: not white space, and lower case. -/
theorem upload_slug_plain {slug : Text}
    (h : validate_content_upload_namespace_slug slug = .ok ()) (c : Char) (hc : c ∈ slug) :
    isWhitespace c = false ∧ toAsciiLowercase c = c := by
  unfold validate_content_upload_namespace_slug at h
  split at h
  · cases h
  · split at h
    · rename_i hall
      apply slug_char_plain
      rw [List.all_eq_true.mp hall c hc, Bool.true_or, Bool.true_or]
    · cases h

/-- A resolved namespace resolves to itself. -/
theorem resolve_namespace_fixed {input resolved : Option Text}
    (h : resolve_optional_namespace input = .ok resolved) :
    resolve_optional_namespace resolved = .ok resolved := by
  unfold resolve_optional_namespace at h
  split at h
  · cases h
    rfl
  · split at h
    · cases h
      rfl
    · rename_i s _
      simp only at h
      split at h
      · cases h
      · rename_i hvalid
        cases h
        have hplain := upload_slug_plain hvalid
        generalize normalize_content_upload_namespace s = slug at hvalid hplain
        have htrim : trim slug = slug := trim_of_plain (fun c hc => (hplain c hc).1)
        have hlow : slug.map toAsciiLowercase = slug := by
          rw [List.map_congr_left (fun c hc => (hplain c hc).2), List.map_id']
        have hne : slug ≠ [] := by
          rintro rfl
          exact absurd hvalid (by decide)
        unfold resolve_optional_namespace normalize_content_upload_namespace
        simp only [htrim, if_neg hne, hlow, hvalid]

end eld_chain
