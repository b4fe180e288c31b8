-- JSON: values as trees, the compact text of a tree, and a reader of such
-- texts. An object keeps its members in the order of the text, a key may
-- come twice, and what reads a text that was written is the tree again.
import Mathlib.Data.List.Basic

namespace json

/-- A JSON value. A literal that is neither a keyword, an integer nor a text is kept as it
stands. -/
inductive Json
  | null
  | bool (b : Bool)
  | int (n : Int)
  | raw (literal : List Char)
  | str (s : List Char)
  | arr (items : List Json)
  | obj (members : List (List Char × Json))

/-! ## Members -/

/-- A name, as the key of a member. -/
def key (name : String) : List Char := name.toList

@[simp]
theorem key_inj {a b : String} : key a = key b ↔ a = b := String.toList_inj

/-- The values that stand under a key, in order. -/
def entries (members : List (List Char × Json)) (key : List Char) : List Json :=
  members.filterMap (fun p => if p.1 = key then some p.2 else none)

@[simp]
theorem entries_nil (key : List Char) : entries [] key = [] := rfl

theorem entries_cons (p : List Char × Json) (members : List (List Char × Json))
    (key : List Char) :
    entries (p :: members) key = if p.1 = key then p.2 :: entries members key
      else entries members key := by
  unfold entries
  rw [List.filterMap_cons]
  split <;> split at * <;> simp_all

@[simp]
theorem entries_cons_self (key : List Char) (j : Json) (members : List (List Char × Json)) :
    entries ((key, j) :: members) key = j :: entries members key := by
  rw [entries_cons, if_pos rfl]

theorem entries_cons_of_ne {key key' : List Char} (j : Json) (members : List (List Char × Json))
    (h : key ≠ key') : entries ((key, j) :: members) key' = entries members key' := by
  rw [entries_cons, if_neg h]

/-! ## Text -/

def hexDigit (d : Nat) : Char := if d < 10 then Char.ofNat (48 + d) else Char.ofNat (87 + d)

/-- A character inside a string: quotes, backslashes and control characters are escaped. -/
def escapeChar (c : Char) : List Char :=
  if c = '"' then ['\\', '"']
  else if c = '\\' then ['\\', '\\']
  else if c = '\n' then ['\\', 'n']
  else if c = '\r' then ['\\', 'r']
  else if c = '\t' then ['\\', 't']
  else if c = '\x08' then ['\\', 'b']
  else if c = '\x0c' then ['\\', 'f']
  else if c.toNat < 32 then
    ['\\', 'u', '0', '0', hexDigit (c.toNat / 16), hexDigit (c.toNat % 16)]
  else [c]

def quote (s : List Char) : List Char := '"' :: s.flatMap escapeChar ++ ['"']

def intText (n : Int) : List Char :=
  if n < 0 then '-' :: Nat.toDigits 10 n.natAbs else Nat.toDigits 10 n.natAbs

mutual

/-- The text without any white space. -/
def Json.compact : Json → List Char
  | .null => ['n', 'u', 'l', 'l']
  | .bool true => ['t', 'r', 'u', 'e']
  | .bool false => ['f', 'a', 'l', 's', 'e']
  | .int n => intText n
  | .raw literal => literal
  | .str s => quote s
  | .arr items => '[' :: (compactItems items ++ [']'])
  | .obj members => '{' :: (compactMembers members ++ ['}'])

def compactItems : List Json → List Char
  | [] => []
  | [j] => j.compact
  | j :: k :: rest => j.compact ++ ',' :: compactItems (k :: rest)

def compactMembers : List (List Char × Json) → List Char
  | [] => []
  | [(key, j)] => quote key ++ ':' :: j.compact
  | (key, j) :: m :: rest => quote key ++ ':' :: (j.compact ++ ',' :: compactMembers (m :: rest))

end

mutual

/-- No literal in the tree is raw. -/
def Json.whole : Json → Bool
  | .raw _ => false
  | .arr items => wholeItems items
  | .obj members => wholeMembers members
  | _ => true

def wholeItems : List Json → Bool
  | [] => true
  | j :: rest => j.whole && wholeItems rest

def wholeMembers : List (List Char × Json) → Bool
  | [] => true
  | (_, j) :: rest => j.whole && wholeMembers rest

end

mutual

/-- How many arrays and objects are open at once. -/
def Json.depth : Json → Nat
  | .arr items => depthItems items + 1
  | .obj members => depthMembers members + 1
  | _ => 0

def depthItems : List Json → Nat
  | [] => 0
  | j :: rest => max j.depth (depthItems rest)

def depthMembers : List (List Char × Json) → Nat
  | [] => 0
  | (_, j) :: rest => max j.depth (depthMembers rest)

end

theorem depthItems_le_iff {items : List Json} {n : Nat} :
    depthItems items ≤ n ↔ ∀ j ∈ items, j.depth ≤ n := by
  induction items with
  | nil => simp [depthItems]
  | cons j rest ih => rw [depthItems, Nat.max_le, ih, List.forall_mem_cons]

/-! ## Reading -/

def hexValue (c : Char) : Nat := if c.toNat < 58 then c.toNat - 48 else c.toNat - 87

/-- What a backslash and this character stand for. -/
def unescape : Char → Option Char
  | '"' => some '"'
  | '\\' => some '\\'
  | 'n' => some '\n'
  | 'r' => some '\r'
  | 't' => some '\t'
  | 'b' => some '\x08'
  | 'f' => some '\x0c'
  | _ => none

/-- The rest of a string, up to its closing quote. -/
def readString : List Char → Option (List Char × List Char)
  | [] => none
  | '"' :: rest => some ([], rest)
  | '\\' :: 'u' :: '0' :: '0' :: a :: b :: rest =>
    (readString rest).map (fun p => (Char.ofNat (16 * hexValue a + hexValue b) :: p.1, p.2))
  | '\\' :: c :: rest =>
    match unescape c with
    | none => none
    | some d => (readString rest).map (fun p => (d :: p.1, p.2))
  | c :: rest => (readString rest).map (fun p => (c :: p.1, p.2))

def readInt (s : List Char) : Option (Json × List Char) :=
  let body := if s.head? = some '-' then s.tail else s
  let digits := body.takeWhile Char.isDigit
  let value : Int := Nat.ofDigitChars 10 digits 0
  if digits = [] then none
  else some (.int (if s.head? = some '-' then -value else value), body.dropWhile Char.isDigit)

mutual

def readValue : Nat → List Char → Option (Json × List Char)
  | 0, _ => none
  | fuel + 1, s =>
    match s with
    | 'n' :: 'u' :: 'l' :: 'l' :: rest => some (.null, rest)
    | 't' :: 'r' :: 'u' :: 'e' :: rest => some (.bool true, rest)
    | 'f' :: 'a' :: 'l' :: 's' :: 'e' :: rest => some (.bool false, rest)
    | '"' :: rest => (readString rest).map (fun p => (.str p.1, p.2))
    | '[' :: rest =>
      if rest.head? = some ']' then some (.arr [], rest.tail)
      else (readItems fuel rest).map (fun p => (.arr p.1, p.2))
    | '{' :: rest =>
      if rest.head? = some '}' then some (.obj [], rest.tail)
      else (readMembers fuel rest).map (fun p => (.obj p.1, p.2))
    | s => readInt s

def readItems : Nat → List Char → Option (List Json × List Char)
  | 0, _ => none
  | fuel + 1, s =>
    match readValue fuel s with
    | some (j, ',' :: rest) => (readItems fuel rest).map (fun p => (j :: p.1, p.2))
    | some (j, ']' :: rest) => some ([j], rest)
    | _ => none

def readMembers : Nat → List Char → Option (List (List Char × Json) × List Char)
  | 0, _ => none
  | fuel + 1, s =>
    match s with
    | '"' :: rest =>
      match readString rest with
      | some (key, ':' :: rest) =>
        match readValue fuel rest with
        | some (j, ',' :: rest) => (readMembers fuel rest).map (fun p => ((key, j) :: p.1, p.2))
        | some (j, '}' :: rest) => some ([(key, j)], rest)
        | _ => none
      | _ => none
    | _ => none

end

/-- Reads a whole text. -/
def read (s : List Char) : Option Json :=
  match readValue (s.length + 1) s with
  | some (j, []) => some j
  | _ => none

/-! ## Reading back -/

theorem hexValue_hexDigit {d : Nat} (hd : d < 16) : hexValue (hexDigit d) = d := by
  have hall : ∀ i : Fin 16, hexValue (hexDigit i) = i.val := by decide
  exact hall ⟨d, hd⟩

/-- Reading undoes the escape of a character. -/
theorem readString_escape (c : Char) (rest : List Char) :
    readString (escapeChar c ++ rest) = (readString rest).map (fun p => (c :: p.1, p.2)) := by
  unfold escapeChar
  repeat' split
  all_goals simp_all [readString, unescape]
  have hchar : Char.ofNat (16 * (c.toNat / 16) + c.toNat % 16) = c := by
    rw [Nat.div_add_mod, Char.ofNat_toNat]
  rw [hexValue_hexDigit (by omega), hexValue_hexDigit (by omega), hchar]

theorem readString_escaped (s rest : List Char) :
    readString (s.flatMap escapeChar ++ '"' :: rest) = some (s, rest) := by
  induction s with
  | nil => simp [readString]
  | cons c s ih =>
    rw [List.flatMap_cons, List.append_assoc, readString_escape, ih]
    rfl

theorem isDigit_toDigits {n : Nat} {c : Char} (h : c ∈ Nat.toDigits 10 n) : c.isDigit = true :=
  Nat.isDigit_of_mem_toDigits (by omega) (by omega) h

/-- A text that does not go on with a digit. -/
def Stops (rest : List Char) : Prop := ∀ c ∈ rest.head?, c.isDigit = false

theorem digits_stop {n : Nat} {rest : List Char} (h : Stops rest) :
    (Nat.toDigits 10 n ++ rest).takeWhile Char.isDigit = Nat.toDigits 10 n ∧
      (Nat.toDigits 10 n ++ rest).dropWhile Char.isDigit = rest := by
  have hall : ∀ c ∈ Nat.toDigits 10 n, c.isDigit = true := fun c hc => isDigit_toDigits hc
  have hrest : rest.takeWhile Char.isDigit = [] ∧ rest.dropWhile Char.isDigit = rest := by
    cases rest with
    | nil => exact ⟨rfl, rfl⟩
    | cons c rest =>
      have hc : c.isDigit = false := h c (by simp)
      simp [hc]
  rw [List.takeWhile_append_of_pos hall, List.dropWhile_append_of_pos hall, hrest.1, hrest.2,
    List.append_nil]
  exact ⟨rfl, rfl⟩

theorem toDigits_head (n : Nat) (rest : List Char) :
    ∃ c t, Nat.toDigits 10 n ++ rest = c :: t ∧ c.isDigit = true := by
  rcases h : Nat.toDigits 10 n with _ | ⟨c, t⟩
  · exact absurd h Nat.toDigits_ne_nil
  · exact ⟨c, t ++ rest, rfl, isDigit_toDigits (n := n) (by rw [h]; exact List.mem_cons_self)⟩

theorem readInt_intText (n : Int) {rest : List Char} (h : Stops rest) :
    readInt (intText n ++ rest) = some (.int n, rest) := by
  obtain ⟨htake, hdrop⟩ := digits_stop (n := n.natAbs) h
  unfold readInt intText
  by_cases hneg : n < 0
  · simp only [if_pos hneg, List.cons_append, List.head?_cons, if_true, List.tail_cons, htake, hdrop,
      if_neg Nat.toDigits_ne_nil, Nat.ofDigitChars_ten_toDigits]
    rw [show -(n.natAbs : Int) = n by omega]
  · have hhead : (Nat.toDigits 10 n.natAbs ++ rest).head? ≠ some '-' := by
      obtain ⟨c, t, heq, hc⟩ := toDigits_head n.natAbs rest
      rw [heq]
      rintro ⟨⟩
      exact absurd hc (by decide)
    simp only [if_neg hneg, if_neg hhead, htake, hdrop, if_neg Nat.toDigits_ne_nil,
      Nat.ofDigitChars_ten_toDigits]
    rw [show (n.natAbs : Int) = n by omega]

mutual

/-- How many calls it takes to read a tree. -/
def Json.weight : Json → Nat
  | .arr items => weightItems items + 1
  | .obj members => weightMembers members + 1
  | _ => 1

def weightItems : List Json → Nat
  | [] => 0
  | j :: rest => j.weight + weightItems rest + 1

def weightMembers : List (List Char × Json) → Nat
  | [] => 0
  | (_, j) :: rest => j.weight + weightMembers rest + 1

end

/-- The first character of a value is no closing bracket. -/
theorem compact_head {j : Json} (h : j.whole = true) (rest : List Char) :
    (j.compact ++ rest).head? ≠ some ']' := by
  cases j with
  | null => simp [Json.compact]
  | bool b => cases b <;> simp [Json.compact]
  | int n =>
    unfold Json.compact intText
    split
    · simp
    · obtain ⟨c, t, heq, hc⟩ := toDigits_head n.natAbs rest
      rw [heq]
      rintro ⟨⟩
      exact absurd hc (by decide)
  | raw literal => simp [Json.whole] at h
  | str s => simp [Json.compact, quote]
  | arr items => simp [Json.compact]
  | obj members => simp [Json.compact]

/-- An integer text is read as such. -/
theorem readValue_int (n : Int) (fuel : Nat) {rest : List Char} (h : Stops rest) :
    readValue (fuel + 1) (intText n ++ rest) = some (.int n, rest) := by
  have hhead : ∃ c t, intText n ++ rest = c :: t ∧ (c = '-' ∨ c.isDigit = true) := by
    unfold intText
    split
    · exact ⟨'-', _, rfl, Or.inl rfl⟩
    · obtain ⟨c, t, heq, hc⟩ := toDigits_head n.natAbs rest
      exact ⟨c, t, heq, Or.inr hc⟩
  have hread := readInt_intText n h
  obtain ⟨c, t, heq, hc⟩ := hhead
  have hne : ∀ d : Char, d ≠ '-' → d.isDigit = false → c ≠ d := by
    rintro d hd hdigit rfl
    rcases hc with rfl | hc
    · exact hd rfl
    · rw [hdigit] at hc
      cases hc
  rw [heq] at hread ⊢
  rw [readValue]
  · exact hread
  · rintro rest ⟨⟩
    exact hne 'n' (by decide) (by decide) rfl
  · rintro rest ⟨⟩
    exact hne 't' (by decide) (by decide) rfl
  · rintro rest ⟨⟩
    exact hne 'f' (by decide) (by decide) rfl
  · rintro rest ⟨⟩
    exact hne '"' (by decide) (by decide) rfl
  · rintro rest ⟨⟩
    exact hne '[' (by decide) (by decide) rfl
  · rintro rest ⟨⟩
    exact hne '\x7b' (by decide) (by decide) rfl

theorem stops_of_close (c : Char) (rest : List Char) (h : c.isDigit = false) :
    Stops (c :: rest) := by
  intro d hd
  cases hd
  exact h

mutual

/-- Only a number needs to be told where it ends. -/
theorem readValue_compact : (j : Json) → j.whole = true → (fuel : Nat) → j.weight ≤ fuel →
    (rest : List Char) → (∀ n, j = .int n → Stops rest) →
    readValue fuel (j.compact ++ rest) = some (j, rest)
  | .null, _, fuel + 1, _, rest, _ => by simp [Json.compact, readValue]
  | .bool true, _, fuel + 1, _, rest, _ => by simp [Json.compact, readValue]
  | .bool false, _, fuel + 1, _, rest, _ => by simp [Json.compact, readValue]
  | .int n, _, fuel + 1, _, rest, hrest => by
    rw [Json.compact]
    exact readValue_int n fuel (hrest n rfl)
  | .str s, _, fuel + 1, _, rest, _ => by
    simp [Json.compact, readValue, quote, readString_escaped]
  | .arr [], _, fuel + 1, _, rest, _ => by simp [Json.compact, compactItems, readValue]
  | .arr (j :: items), hwhole, fuel + 1, hfuel, rest, _ => by
    rw [Json.weight] at hfuel
    have hread := readItems_compact j items hwhole fuel (by omega) rest
    have hhead : (compactItems (j :: items) ++ ']' :: rest).head? ≠ some ']' := by
      have hj : j.whole = true := (Bool.and_eq_true_iff.mp hwhole).1
      cases items with
      | nil =>
        rw [compactItems]
        exact compact_head hj _
      | cons k items =>
        rw [compactItems, List.append_assoc]
        exact compact_head hj _
    rw [Json.compact, List.cons_append, List.append_assoc, List.singleton_append, readValue,
      if_neg hhead, hread]
    rfl
  | .obj [], _, fuel + 1, _, rest, _ => by simp [Json.compact, compactMembers, readValue]
  | .obj (m :: members), hwhole, fuel + 1, hfuel, rest, _ => by
    rw [Json.weight] at hfuel
    have hread := readMembers_compact m members hwhole fuel (by omega) rest
    have hhead : (compactMembers (m :: members) ++ '}' :: rest).head? ≠ some '}' := by
      cases members <;> simp [compactMembers, quote]
    rw [Json.compact, List.cons_append, List.append_assoc, List.singleton_append, readValue,
      if_neg hhead, hread]
    rfl

theorem readItems_compact : (j : Json) → (items : List Json) →
    wholeItems (j :: items) = true → (fuel : Nat) → weightItems (j :: items) ≤ fuel →
    (rest : List Char) →
    readItems fuel (compactItems (j :: items) ++ ']' :: rest) = some (j :: items, rest)
  | j, [], hwhole, fuel + 1, hfuel, rest => by
    obtain ⟨hj, _⟩ := Bool.and_eq_true_iff.mp hwhole
    rw [weightItems] at hfuel
    have hread := readValue_compact j hj fuel (by omega) (']' :: rest)
      (fun _ _ => stops_of_close _ _ (by decide))
    rw [compactItems, readItems, hread]
    rfl
  | j, k :: items, hwhole, fuel + 1, hfuel, rest => by
    obtain ⟨hj, hrest⟩ := Bool.and_eq_true_iff.mp hwhole
    rw [weightItems] at hfuel
    have hread := readValue_compact j hj fuel (by omega)
      (',' :: (compactItems (k :: items) ++ ']' :: rest))
      (fun _ _ => stops_of_close _ _ (by decide))
    have hitems := readItems_compact k items hrest fuel (by omega) rest
    rw [compactItems, List.append_assoc, List.cons_append, readItems, hread]
    simp only [hitems]
    rfl

theorem readMembers_compact : (m : List Char × Json) → (members : List (List Char × Json)) →
    wholeMembers (m :: members) = true → (fuel : Nat) → weightMembers (m :: members) ≤ fuel →
    (rest : List Char) →
    readMembers fuel (compactMembers (m :: members) ++ '}' :: rest) = some (m :: members, rest)
  | (key, j), [], hwhole, fuel + 1, hfuel, rest => by
    obtain ⟨hj, _⟩ := Bool.and_eq_true_iff.mp hwhole
    rw [weightMembers] at hfuel
    have hread := readValue_compact j hj fuel (by omega) ('}' :: rest)
      (fun _ _ => stops_of_close _ _ (by decide))
    simp [compactMembers, quote, readMembers, readString_escaped, hread]
  | (key, j), m :: members, hwhole, fuel + 1, hfuel, rest => by
    obtain ⟨hj, hrest⟩ := Bool.and_eq_true_iff.mp hwhole
    rw [weightMembers] at hfuel
    have hread := readValue_compact j hj fuel (by omega)
      (',' :: (compactMembers (m :: members) ++ '}' :: rest))
      (fun _ _ => stops_of_close _ _ (by decide))
    have hmembers := readMembers_compact m members hrest fuel (by omega) rest
    simp [compactMembers, quote, readMembers, readString_escaped, hread, hmembers]

end

mutual

/-- A text is long enough to pay for its own reading. -/
theorem weight_le : (j : Json) → j.whole = true → j.weight ≤ j.compact.length
  | .null, _ => by simp [Json.weight, Json.compact]
  | .bool true, _ => by simp [Json.weight, Json.compact]
  | .bool false, _ => by simp [Json.weight, Json.compact]
  | .int n, _ => by
    obtain ⟨c, t, heq, _⟩ := toDigits_head n.natAbs []
    rw [List.append_nil] at heq
    simp only [Json.weight, Json.compact, intText]
    split <;> simp [heq]
  | .str s, _ => by simp [Json.weight, Json.compact, quote]
  | .arr items, hwhole => by
    have hitems := weightItems_le items hwhole
    simp only [Json.weight, Json.compact, List.length_cons, List.length_append, List.length_nil]
    omega
  | .obj members, hwhole => by
    have hmembers := weightMembers_le members hwhole
    simp only [Json.weight, Json.compact, List.length_cons, List.length_append, List.length_nil]
    omega

theorem weightItems_le : (items : List Json) → wholeItems items = true →
    weightItems items ≤ (compactItems items).length + 1
  | [], _ => by simp [weightItems]
  | [j], hwhole => by
    obtain ⟨hj, _⟩ := Bool.and_eq_true_iff.mp hwhole
    have hlen := weight_le j hj
    simp only [weightItems, compactItems]
    omega
  | j :: k :: items, hwhole => by
    obtain ⟨hj, hrest⟩ := Bool.and_eq_true_iff.mp hwhole
    have hlen := weight_le j hj
    have hitems := weightItems_le (k :: items) hrest
    rw [weightItems, compactItems, List.length_append, List.length_cons]
    omega

theorem weightMembers_le : (members : List (List Char × Json)) → wholeMembers members = true →
    weightMembers members ≤ (compactMembers members).length + 1
  | [], _ => by simp [weightMembers]
  | [(key, j)], hwhole => by
    obtain ⟨hj, _⟩ := Bool.and_eq_true_iff.mp hwhole
    have hlen := weight_le j hj
    simp only [weightMembers, compactMembers, List.length_append, List.length_cons]
    omega
  | (key, j) :: m :: members, hwhole => by
    obtain ⟨hj, hrest⟩ := Bool.and_eq_true_iff.mp hwhole
    have hlen := weight_le j hj
    have hmembers := weightMembers_le (m :: members) hrest
    simp only [weightMembers, compactMembers, List.length_append, List.length_cons] at hmembers ⊢
    omega

end

/-- A tree without raw literals is read back from its text. -/
theorem read_compact {j : Json} (h : j.whole = true) : read j.compact = some j := by
  have hlen := weight_le j h
  have hread := readValue_compact j h (j.compact.length + 1) (by omega) [] (by simp [Stops])
  rw [List.append_nil] at hread
  rw [read, hread]

/-- A text that is no number ends where its tree does, whatever stands behind it. -/
theorem compact_append_inj {j j' : Json} {rest rest' : List Char} (h : j.whole = true)
    (h' : j'.whole = true) (hint : ∀ n, j ≠ .int n) (hint' : ∀ n, j' ≠ .int n)
    (htext : j.compact ++ rest = j'.compact ++ rest') : j = j' ∧ rest = rest' := by
  have hread := readValue_compact j h (max j.weight j'.weight) (by omega) rest
    (fun n hn => absurd hn (hint n))
  have hread' := readValue_compact j' h' (max j.weight j'.weight) (by omega) rest'
    (fun n hn => absurd hn (hint' n))
  rw [htext, hread'] at hread
  cases hread
  exact ⟨rfl, rfl⟩

/-! ## Brackets -/

def isBracket (c : Char) : Bool := c == '\x7b' || c == '[' || c == '\x7d' || c == ']'

mutual

/-- The brackets of the text in order: those of the arrays and objects and those that stand
inside the strings. -/
def Json.brackets : Json → List Char
  | .str s => s.filter isBracket
  | .raw literal => literal.filter isBracket
  | .arr items => '[' :: (bracketsItems items ++ [']'])
  | .obj members => '\x7b' :: (bracketsMembers members ++ ['\x7d'])
  | _ => []

def bracketsItems : List Json → List Char
  | [] => []
  | j :: rest => j.brackets ++ bracketsItems rest

def bracketsMembers : List (List Char × Json) → List Char
  | [] => []
  | (key, j) :: rest => key.filter isBracket ++ (j.brackets ++ bracketsMembers rest)

end

theorem hexDigit_no_bracket {d : Nat} (hd : d < 16) : isBracket (hexDigit d) = false := by
  have hall : ∀ i : Fin 16, isBracket (hexDigit i) = false := by decide
  exact hall ⟨d, hd⟩

/-- No escape has a bracket in it. -/
theorem escape_no_bracket {c d : Char} (hc : isBracket c = false) (hd : d ∈ escapeChar c) :
    isBracket d = false := by
  by_cases hcontrol : c.toNat < 32
  · have hhigh := hexDigit_no_bracket (d := c.toNat / 16) (by omega)
    have hlow := hexDigit_no_bracket (d := c.toNat % 16) (by omega)
    unfold escapeChar at hd
    rw [if_pos hcontrol] at hd
    repeat' split at hd
    all_goals simp only [List.mem_cons, List.not_mem_nil, or_false] at hd
    iterate 7 (rcases hd with rfl | rfl <;> decide)
    rcases hd with rfl | rfl | rfl | rfl | rfl | rfl
    iterate 4 decide
    · exact hhigh
    · exact hlow
  · unfold escapeChar at hd
    rw [if_neg hcontrol] at hd
    repeat' split at hd
    all_goals simp only [List.mem_cons, List.not_mem_nil, or_false] at hd
    iterate 7 (rcases hd with rfl | rfl <;> decide)
    rw [hd, hc]

theorem filter_escapeChar (c : Char) :
    (escapeChar c).filter isBracket = if isBracket c then [c] else [] := by
  by_cases hbracket : isBracket c = true
  · have hc := hbracket
    simp only [isBracket, Bool.or_eq_true, beq_iff_eq] at hc
    rcases hc with ((rfl | rfl) | rfl) | rfl <;> rfl
  · rw [if_neg hbracket, List.filter_eq_nil_iff]
    rw [Bool.not_eq_true] at hbracket
    intro d hd
    rw [escape_no_bracket hbracket hd]
    decide

theorem filter_quote (s : List Char) : (quote s).filter isBracket = s.filter isBracket := by
  have hflat : (s.flatMap escapeChar).filter isBracket = s.filter isBracket := by
    induction s with
    | nil => rfl
    | cons c s ih =>
      rw [List.flatMap_cons, List.filter_append, filter_escapeChar, ih, List.filter_cons]
      split <;> rfl
  rw [quote, List.filter_append, List.filter_cons, hflat]
  simp [isBracket]

theorem filter_toDigits (n : Nat) : (Nat.toDigits 10 n).filter isBracket = [] := by
  rw [List.filter_eq_nil_iff]
  intro c hc
  have hdigit := isDigit_toDigits hc
  intro hbracket
  simp only [isBracket, Bool.or_eq_true, beq_iff_eq] at hbracket
  rcases hbracket with ((rfl | rfl) | rfl) | rfl <;> exact absurd hdigit (by decide)

theorem filter_intText (n : Int) : (intText n).filter isBracket = [] := by
  unfold intText
  split
  · rw [List.filter_cons, filter_toDigits]
    rfl
  · exact filter_toDigits _

mutual

theorem filter_compact : (j : Json) → j.compact.filter isBracket = j.brackets
  | .null => by simp [Json.compact, Json.brackets, isBracket]
  | .bool true => by simp [Json.compact, Json.brackets, isBracket]
  | .bool false => by simp [Json.compact, Json.brackets, isBracket]
  | .int n => by simp [Json.compact, Json.brackets, filter_intText]
  | .raw literal => by rw [Json.compact, Json.brackets]
  | .str s => by rw [Json.compact, filter_quote, Json.brackets]
  | .arr items => by
    rw [Json.compact, Json.brackets, List.filter_cons, List.filter_append, filter_compactItems]
    simp [isBracket]
  | .obj members => by
    rw [Json.compact, Json.brackets, List.filter_cons, List.filter_append, filter_compactMembers]
    simp [isBracket]

theorem filter_compactItems : (items : List Json) →
    (compactItems items).filter isBracket = bracketsItems items
  | [] => rfl
  | [j] => by rw [compactItems, filter_compact, bracketsItems, bracketsItems, List.append_nil]
  | j :: k :: items => by
    rw [compactItems, List.filter_append, filter_compact, List.filter_cons,
      filter_compactItems (k :: items), bracketsItems]
    rfl

theorem filter_compactMembers : (members : List (List Char × Json)) →
    (compactMembers members).filter isBracket = bracketsMembers members
  | [] => rfl
  | [(key, j)] => by
    rw [compactMembers, List.filter_append, List.filter_cons, filter_compact, filter_quote,
      bracketsMembers, bracketsMembers, List.append_nil]
    rfl
  | (key, j) :: m :: members => by
    rw [compactMembers, List.filter_append, List.filter_cons, List.filter_append, List.filter_cons,
      filter_compact, filter_quote, filter_compactMembers (m :: members), bracketsMembers]
    rfl

end

/-! ## Maps of members -/

/-- Sets a key in members that are sorted by their keys. -/
def put (key : List Char) (j : Json) : List (List Char × Json) → List (List Char × Json)
  | [] => [(key, j)]
  | (k, v) :: rest =>
    if k = key then (key, j) :: rest
    else if key < k then (key, j) :: (k, v) :: rest
    else (k, v) :: put key j rest

/-- The first value under a key. -/
def get (members : List (List Char × Json)) (key : List Char) : Option Json :=
  (entries members key).head?

theorem get_put (key key' : List Char) (j : Json) (members : List (List Char × Json)) :
    get (put key j members) key' = if key = key' then some j else get members key' := by
  unfold get
  induction members with
  | nil =>
    rw [put, entries_cons]
    split <;> rfl
  | cons m rest ih =>
    obtain ⟨k, v⟩ := m
    rw [put]
    by_cases hk : k = key
    · subst hk
      rw [if_pos rfl, entries_cons, entries_cons]
      by_cases hkey : k = key' <;> simp [hkey]
    · rw [if_neg hk]
      split
      · rw [entries_cons]
        split <;> rfl
      · rw [entries_cons, entries_cons]
        by_cases hkey : key = key'
        · subst hkey
          rw [if_neg hk, ih, if_pos rfl, if_pos rfl]
        · rw [if_neg hkey] at ih ⊢
          by_cases hk' : k = key'
          · simp [hk']
          · simp only [if_neg hk', ih]

/-- A new key is added. -/
theorem put_perm {key : List Char} {members : List (List Char × Json)} (j : Json)
    (h : ∀ m ∈ members, m.1 ≠ key) : (put key j members).Perm ((key, j) :: members) := by
  induction members with
  | nil => exact List.Perm.refl _
  | cons m rest ih =>
    obtain ⟨k, v⟩ := m
    have hk : k ≠ key := h _ List.mem_cons_self
    have hrest := ih (fun m hm => h m (List.mem_cons_of_mem _ hm))
    rw [put, if_neg hk]
    split
    · exact List.Perm.refl _
    · exact (hrest.cons (k, v)).trans (List.Perm.swap _ _ _)

def memberText (m : List Char × Json) : List Char := quote m.1 ++ ':' :: m.2.compact

theorem compactMembers_cons (m : List Char × Json) (members : List (List Char × Json)) :
    compactMembers (m :: members)
      = memberText m ++ (if members = [] then [] else ',' :: compactMembers members) := by
  cases members <;> simp [compactMembers, memberText]

/-- The order of the members does not change the characters of the text. -/
theorem compactMembers_perm {members members' : List (List Char × Json)}
    (h : members.Perm members') : (compactMembers members).Perm (compactMembers members') := by
  induction h with
  | nil => exact List.Perm.refl _
  | @cons m l l' hperm ih =>
    have hnil : l = [] ↔ l' = [] := by
      rw [← List.length_eq_zero_iff, ← List.length_eq_zero_iff, hperm.length_eq]
    rw [compactMembers_cons, compactMembers_cons]
    apply List.Perm.append_left
    by_cases hl : l = []
    · rw [if_pos hl, if_pos (hnil.mp hl)]
    · rw [if_neg hl, if_neg (fun hl' => hl (hnil.mpr hl'))]
      exact ih.cons ','
  | swap m m' l =>
    simp only [compactMembers_cons, reduceCtorEq, if_false]
    generalize (if l = [] then [] else ',' :: compactMembers l) = rest
    have hswap : ∀ a b : List Char, (a ++ ',' :: (b ++ rest)).Perm (',' :: (a ++ b ++ rest)) := by
      intro a b
      rw [List.append_assoc]
      exact List.perm_middle
    refine (hswap _ _).trans (List.Perm.trans ?_ (hswap _ _).symm)
    exact (List.perm_append_comm.append_right rest).cons ','
  | trans _ _ ih ih' => exact ih.trans ih'

end json
