-- The rules of a namespace slug: how user input becomes a canonical
-- slug, which slugs are valid, and which are reserved. A canonical slug
-- is a fixed point of its own normalisation, so the processors can
-- normalise it again and change nothing.
import EldChain.Values

namespace eld_chain

/-! ## The slug rules -/

def SLUG_MIN_LEN : Nat := 3

def SLUG_MAX_LEN : Nat := 32

/-- The characters that `str::trim` removes: Unicode `White_Space`. -/
def isWhitespace (c : Char) : Bool :=
  let n := c.toNat
  (9 ≤ n && n ≤ 13) || n == 32 || n == 0x85 || n == 0xA0 || n == 0x1680 ||
    (0x2000 ≤ n && n ≤ 0x200A) || n == 0x2028 || n == 0x2029 || n == 0x202F ||
    n == 0x205F || n == 0x3000

def isAsciiLowercase (c : Char) : Bool := 'a' ≤ c && c ≤ 'z'

def isAsciiDigit (c : Char) : Bool := '0' ≤ c && c ≤ '9'

def toAsciiLowercase (c : Char) : Char :=
  if 'A' ≤ c ∧ c ≤ 'Z' then Char.ofNat (c.toNat + 32) else c

def trim (s : Text) : Text :=
  ((s.dropWhile isWhitespace).reverse.dropWhile isWhitespace).reverse

/-- The bytes of a text in UTF-8: what `str::len` counts. -/
def utf8Len (s : Text) : Nat := (s.map Char.utf8Size).sum

theorem utf8Len_append (a b : Text) : utf8Len (a ++ b) = utf8Len a + utf8Len b := by
  simp [utf8Len]

theorem utf8Len_cons (c : Char) (t : Text) : utf8Len (c :: t) = c.utf8Size + utf8Len t := by
  simp [utf8Len]

def slugError (slug : Text) (details : String) : EldError :=
  .ValidationError "namespace_slug" (String.ofList slug) details

/-- True when two hyphens stand side by side. -/
def hasDoubleHyphen : Text → Bool
  | '-' :: '-' :: _ => true
  | _ :: rest => hasDoubleHyphen rest
  | [] => false

def validate_namespace_slug (slug : Text) : Except EldError Unit :=
  if utf8Len slug < SLUG_MIN_LEN ∨ SLUG_MAX_LEN < utf8Len slug then
    .error (slugError slug "Namespace slug length must be between 3 and 32 characters")
  else if slug.head? = some '-' ∨ slug.getLast? = some '-' then
    .error (slugError slug "Namespace slug must not start or end with '-'")
  else if hasDoubleHyphen slug then
    .error (slugError slug "Namespace slug must not contain consecutive '-'")
  else if slug.all (fun c => isAsciiLowercase c || isAsciiDigit c || c == '-') then .ok ()
  else .error (slugError slug
    "Namespace slug may only contain lowercase letters, digits, and '-'")

def normalize_namespace_slug (input : Text) : Except EldError Text :=
  let slug := (trim input).map toAsciiLowercase
  match validate_namespace_slug slug with
  | .error e => .error e
  | .ok () => .ok slug

def RESERVED_NAMESPACE_SLUGS : List Text :=
  ["eld", "user", "public", "contract", "test", "other", "pinboard", "admin", "namespace"].map
    String.toList

def is_reserved_namespace_slug (slug : Text) : Bool := slug ∈ RESERVED_NAMESPACE_SLUGS

/-- The stricter rule of an upload: letters `a` to `z` only. -/
def validate_content_upload_namespace_slug (slug : Text) : Except EldError Unit :=
  if utf8Len slug < SLUG_MIN_LEN ∨ SLUG_MAX_LEN < utf8Len slug then
    .error (.ValidationError "namespace" (String.ofList slug)
      "Namespace length must be between 3 and 32 characters")
  else if slug.all isAsciiLowercase then .ok ()
  else .error (.ValidationError "namespace" (String.ofList slug)
    "Namespace may only contain lowercase letters a-z")

def normalize_content_upload_namespace (input : Text) : Text := (trim input).map toAsciiLowercase

def resolve_optional_namespace : Option Text → Except EldError (Option Text)
  | none => .ok none
  | some s =>
    if trim s = [] then .ok none
    else
      let normalized := normalize_content_upload_namespace s
      match validate_content_upload_namespace_slug normalized with
      | .error e => .error e
      | .ok () => .ok (some normalized)

/-! ## Canonical slugs -/

/-- A slug as `AddNamespaceTx` stores it: it passes its own check and is not reserved. -/
structure CanonicalSlug (slug : Text) : Prop where
  valid : validate_namespace_slug slug = .ok ()
  not_reserved : is_reserved_namespace_slug slug = false

theorem valid_slug_chars {slug : Text} (h : validate_namespace_slug slug = .ok ()) :
    ∀ c ∈ slug, (isAsciiLowercase c || isAsciiDigit c || c == '-') = true := by
  unfold validate_namespace_slug at h
  split at h
  · cases h
  · split at h
    · cases h
    · split at h
      · cases h
      · split at h
        · rename_i hall
          exact List.all_eq_true.mp hall
        · cases h

/-- A character of a slug is a plain one: not white space, and its own lower case. -/
theorem slug_char_plain {c : Char} (h : (isAsciiLowercase c || isAsciiDigit c || c == '-') = true) :
    isWhitespace c = false ∧ toAsciiLowercase c = c := by
  have hc : (97 ≤ c.toNat ∧ c.toNat ≤ 122) ∨ (48 ≤ c.toNat ∧ c.toNat ≤ 57) ∨ c.toNat = 45 := by
    simp only [isAsciiLowercase, isAsciiDigit, Bool.or_eq_true, Bool.and_eq_true, decide_eq_true_eq,
      beq_iff_eq, Char.le_def, UInt32.le_iff_toNat_le] at h
    rcases h with (h | h) | h
    · exact Or.inl h
    · exact Or.inr (Or.inl h)
    · subst h; exact Or.inr (Or.inr rfl)
  constructor
  · simp only [isWhitespace, Bool.or_eq_false_iff, Bool.and_eq_false_iff, decide_eq_false_iff_not,
      beq_eq_false_iff_ne]
    omega
  · unfold toAsciiLowercase
    rw [if_neg]
    simp only [Char.le_def, UInt32.le_iff_toNat_le]
    intro hA
    have h1 : 65 ≤ c.toNat := hA.1
    have h2 : c.toNat ≤ 90 := hA.2
    omega

theorem dropWhile_eq_self {p : Char → Bool} {s : Text} (h : ∀ c ∈ s, p c = false) :
    s.dropWhile p = s := by
  cases s with
  | nil => rfl
  | cons c s => rw [List.dropWhile_cons, if_neg]; simp [h c List.mem_cons_self]

theorem trim_of_plain {s : Text} (h : ∀ c ∈ s, isWhitespace c = false) : trim s = s := by
  unfold trim
  rw [dropWhile_eq_self h, dropWhile_eq_self (fun c hc => h c (List.mem_reverse.mp hc)),
    List.reverse_reverse]

/-- Normalising a slug that is already valid returns it as it is. -/
theorem normalize_of_valid {slug : Text} (h : validate_namespace_slug slug = .ok ()) :
    normalize_namespace_slug slug = .ok slug := by
  have hplain := fun c hc => slug_char_plain (valid_slug_chars h c hc)
  have hlow : slug.map toAsciiLowercase = slug := by
    rw [List.map_congr_left (fun c hc => (hplain c hc).2), List.map_id']
  unfold normalize_namespace_slug
  rw [trim_of_plain (fun c hc => (hplain c hc).1), hlow]
  simp only [h]

end eld_chain
