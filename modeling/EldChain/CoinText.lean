-- The decimal text of a coin. The printer writes six decimals, and the
-- parser scales the decimals it reads to nine, so a fraction comes back a
-- thousand times as large. The parser multiplies and adds without a check
-- and cuts the decimals at a byte; where the program stops at one of these,
-- the parser here has no result.
import EldChain.TextRules

namespace eld_chain

/-! ## Printing and parsing -/

def MAX_COIN_DECIMALS : Nat := 1000000

/-- `format!("{n:0>6}")`. -/
def padded (n : Nat) : Text := List.leftpad 6 '0' (Nat.toDigits 10 n)

def Coin.to_decimal_string (c : Coin) : Text :=
  let whole := c.amount / MAX_COIN_DECIMALS
  let decimal := c.amount % MAX_COIN_DECIMALS
  if decimal = 0 then Nat.toDigits 10 whole else Nat.toDigits 10 whole ++ '.' :: padded decimal

/-- `&s[..n]`: nothing when no character starts at byte `n`. -/
def slice_to : Nat → Text → Option Text
  | 0, _ => some []
  | _ + 1, [] => none
  | n + 1, c :: s =>
    if c.utf8Size ≤ n + 1 then (slice_to (n + 1 - c.utf8Size) s).map (c :: ·) else none

/-- A `u128` of a build that checks: nothing when the value leaves the type. -/
def u128_checked (v : Nat) : Option Nat := if v < 2 ^ 128 then some v else none

/-- The decimals that `from_string` parses: the first nine bytes at most. -/
def decimal_str (decimal : Text) : Option Text :=
  if 9 < utf8Len decimal then slice_to 9 decimal else some decimal

def Coin.from_string (s : Text) : Option (Except EldError Coin) :=
  match s.splitOn '.' with
  | [whole] =>
    match parse_u128 whole with
    | none => some (.error (.CoinError ("Invalid whole number: " ++ String.ofList whole)))
    | some whole_val => do
      let amount ← u128_checked (whole_val * MAX_COIN_DECIMALS)
      return Coin.new amount
  | [whole, decimal] =>
    match parse_u128 whole with
    | none => some (.error (.CoinError ("Invalid whole number: " ++ String.ofList whole)))
    | some whole_val => do
      let decimal_str ← decimal_str decimal
      match parse_u128 decimal_str with
      | none =>
        return .error (.CoinError ("Invalid decimal number: " ++ String.ofList decimal_str))
      | some decimal_val =>
        let multiplier := 10 ^ (9 - utf8Len decimal_str)
        let wholes ← u128_checked (whole_val * MAX_COIN_DECIMALS)
        let decimals ← u128_checked (decimal_val * multiplier)
        let amount ← u128_checked (wholes + decimals)
        return Coin.new amount
  | _ => some (.error (.CoinError ("Invalid coin format: " ++ String.ofList s)))

/-! ## The parser's steps -/

theorem u128_checked_isSome {v : Nat} : (u128_checked v).isSome = true ↔ v < 2 ^ 128 := by
  unfold u128_checked
  split
  · exact iff_of_true rfl ‹_›
  · exact iff_of_false Bool.false_ne_true ‹_›

theorem u128_checked_of_lt {v : Nat} (h : v < 2 ^ 128) : u128_checked v = some v := if_pos h

theorem utf8Len_eq_zero {s : Text} : utf8Len s = 0 ↔ s = [] := by
  cases s with
  | nil => exact iff_of_true rfl rfl
  | cons c s =>
    have hpos := c.utf8Size_pos
    rw [utf8Len_cons]
    exact iff_of_false (by omega) (List.cons_ne_nil c s)

theorem eq_of_prefix_of_utf8Len {l s : Text} (h : l <+: s) (hlen : utf8Len l = utf8Len s) :
    l = s := by
  obtain ⟨t, rfl⟩ := h
  rw [utf8Len_append] at hlen
  have ht : t = [] := utf8Len_eq_zero.mp (by omega)
  rw [ht, List.append_nil]

theorem slice_to_eq_some {n : Nat} {s l : Text} :
    slice_to n s = some l ↔ l <+: s ∧ utf8Len l = n := by
  induction s generalizing n l with
  | nil =>
    rw [List.prefix_nil]
    cases n with
    | zero =>
      rw [utf8Len_eq_zero, and_self]
      simp only [slice_to, Option.some.injEq]
      exact eq_comm
    | succ n =>
      simp only [slice_to, reduceCtorEq, false_iff]
      rintro ⟨rfl, hlen⟩
      cases hlen
  | cons c s ih =>
    cases n with
    | zero =>
      rw [utf8Len_eq_zero]
      simp only [slice_to, Option.some.injEq]
      constructor
      · rintro rfl
        exact ⟨List.nil_prefix, rfl⟩
      · rintro ⟨-, rfl⟩
        rfl
    | succ n =>
      have hpos := c.utf8Size_pos
      unfold slice_to
      constructor
      · intro h
        split at h
        · obtain ⟨l', hl', rfl⟩ := Option.map_eq_some_iff.mp h
          obtain ⟨hlead, hlen⟩ := ih.mp hl'
          rw [List.cons_prefix_cons, utf8Len_cons]
          exact ⟨⟨rfl, hlead⟩, by omega⟩
        · cases h
      · rintro ⟨hlead, hlen⟩
        cases l with
        | nil => cases hlen
        | cons d l =>
          obtain ⟨rfl, htail⟩ := List.cons_prefix_cons.mp hlead
          rw [utf8Len_cons] at hlen
          have hcut : slice_to (n + 1 - d.utf8Size) s = some l := ih.mpr ⟨htail, by omega⟩
          rw [if_pos (by omega), hcut]
          rfl

theorem decimal_str_eq_some {decimal l : Text} :
    decimal_str decimal = some l ↔ l <+: decimal ∧ utf8Len l = min 9 (utf8Len decimal) := by
  unfold decimal_str
  split
  · rename_i hlong
    rw [slice_to_eq_some, Nat.min_eq_left (Nat.le_of_lt hlong)]
  · rename_i hshort
    rw [Nat.min_eq_right (Nat.le_of_not_lt hshort), Option.some.injEq]
    constructor
    · rintro rfl
      exact ⟨List.prefix_rfl, rfl⟩
    · rintro ⟨hlead, hlen⟩
      exact (eq_of_prefix_of_utf8Len hlead hlen).symm

/-! ## Where the parser stops -/

/-- The arithmetic of `from_string` stays in `u128`, and its cut falls between two characters:
read where the text before the point is a number. -/
structure CoinTextFits (s : Text) : Prop where
  whole : ∀ whole w, s.splitOn '.' = [whole] → parse_u128 whole = some w →
    w * MAX_COIN_DECIMALS < 2 ^ 128
  decimal : ∀ whole decimal w, s.splitOn '.' = [whole, decimal] → parse_u128 whole = some w →
    ∃ digits, digits <+: decimal ∧ utf8Len digits = min 9 (utf8Len decimal) ∧
      ∀ d, parse_u128 digits = some d →
        w * MAX_COIN_DECIMALS + d * 10 ^ (9 - utf8Len digits) < 2 ^ 128

theorem from_string_whole {s whole : Text} {w : Nat} (hsplit : s.splitOn '.' = [whole])
    (hwhole : parse_u128 whole = some w) :
    Coin.from_string s =
      (u128_checked (w * MAX_COIN_DECIMALS)).bind fun amount => some (Coin.new amount) := by
  unfold Coin.from_string
  simp only [hsplit, hwhole]
  rfl

/-- What the decimals add to the `w` coins before the point. -/
def decimal_amount (w : Nat) (decimal_str : Text) : Option (Except EldError Coin) :=
  match parse_u128 decimal_str with
  | none => some (.error (.CoinError ("Invalid decimal number: " ++ String.ofList decimal_str)))
  | some decimal_val =>
    (u128_checked (w * MAX_COIN_DECIMALS)).bind fun wholes =>
      (u128_checked (decimal_val * 10 ^ (9 - utf8Len decimal_str))).bind fun decimals =>
        (u128_checked (wholes + decimals)).bind fun amount => some (Coin.new amount)

theorem from_string_decimal {s whole decimal : Text} {w : Nat}
    (hsplit : s.splitOn '.' = [whole, decimal]) (hwhole : parse_u128 whole = some w) :
    Coin.from_string s = (decimal_str decimal).bind (decimal_amount w) := by
  unfold Coin.from_string
  simp only [hsplit, hwhole]
  rfl

theorem from_string_of_whole {s whole : Text} (hsplit : s.splitOn '.' = [whole]) :
    (Coin.from_string s).isSome = true ↔
      ∀ w, parse_u128 whole = some w → w * MAX_COIN_DECIMALS < 2 ^ 128 := by
  cases hwhole : parse_u128 whole with
  | none =>
    refine iff_of_true ?_ (fun w hw => nomatch hw)
    unfold Coin.from_string
    simp only [hsplit, hwhole, Option.isSome_some]
  | some w =>
    have hall : (∀ v, some w = some v → v * MAX_COIN_DECIMALS < 2 ^ 128) ↔
        w * MAX_COIN_DECIMALS < 2 ^ 128 :=
      ⟨fun h => h w rfl, fun h v hv => Option.some.inj hv ▸ h⟩
    rw [hall, ← u128_checked_isSome, from_string_whole hsplit hwhole]
    cases u128_checked (w * MAX_COIN_DECIMALS) with
    | none => rfl
    | some _ => rfl

theorem u128_sum_isSome (a b : Nat) {f : Nat → Except EldError Coin} :
    ((u128_checked a).bind fun wholes => (u128_checked b).bind fun decimals =>
      (u128_checked (wholes + decimals)).bind fun amount => some (f amount)).isSome = true ↔
      a + b < 2 ^ 128 := by
  by_cases hsum : a + b < 2 ^ 128
  · rw [u128_checked_of_lt (Nat.lt_of_le_of_lt (Nat.le_add_right a b) hsum), Option.bind_some,
      u128_checked_of_lt (Nat.lt_of_le_of_lt (Nat.le_add_left b a) hsum), Option.bind_some,
      u128_checked_of_lt hsum, Option.bind_some]
    exact iff_of_true rfl hsum
  · refine iff_of_false ?_ hsum
    have hnone : u128_checked (a + b) = none := if_neg hsum
    unfold u128_checked at hnone ⊢
    by_cases ha : a < 2 ^ 128
    · by_cases hb : b < 2 ^ 128
      · rw [if_pos ha, Option.bind_some, if_pos hb, Option.bind_some, hnone]
        exact Bool.false_ne_true
      · rw [if_pos ha, Option.bind_some, if_neg hb]
        exact Bool.false_ne_true
    · rw [if_neg ha]
      exact Bool.false_ne_true

theorem from_string_of_decimal {s whole decimal : Text} (hsplit : s.splitOn '.' = [whole, decimal]) :
    (Coin.from_string s).isSome = true ↔ ∀ w, parse_u128 whole = some w →
      ∃ digits, digits <+: decimal ∧ utf8Len digits = min 9 (utf8Len decimal) ∧
        ∀ d, parse_u128 digits = some d →
          w * MAX_COIN_DECIMALS + d * 10 ^ (9 - utf8Len digits) < 2 ^ 128 := by
  cases hwhole : parse_u128 whole with
  | none =>
    refine iff_of_true ?_ (fun w hw => nomatch hw)
    unfold Coin.from_string
    simp only [hsplit, hwhole, Option.isSome_some]
  | some w =>
    rw [from_string_decimal hsplit hwhole]
    cases hcut : decimal_str decimal with
    | none =>
      refine iff_of_false Bool.false_ne_true (fun h => ?_)
      obtain ⟨digits, hlead, hlen, -⟩ := h w rfl
      rw [decimal_str_eq_some.mpr ⟨hlead, hlen⟩] at hcut
      cases hcut
    | some digits =>
      have hdigits := decimal_str_eq_some.mp hcut
      have honly : ∀ l, l <+: decimal → utf8Len l = min 9 (utf8Len decimal) → l = digits := by
        intro l hlead hlen
        have hl := decimal_str_eq_some.mpr ⟨hlead, hlen⟩
        rw [hcut] at hl
        exact (Option.some.inj hl).symm
      rw [Option.bind_some, decimal_amount]
      cases hparse : parse_u128 digits with
      | none =>
        refine iff_of_true rfl (fun _ _ => ⟨digits, hdigits.1, hdigits.2, fun d hd => ?_⟩)
        rw [hparse] at hd
        cases hd
      | some d =>
        rw [u128_sum_isSome]
        constructor
        · intro hsum v hv
          refine ⟨digits, hdigits.1, hdigits.2, fun d' hd' => ?_⟩
          rw [hparse] at hd'
          rw [← Option.some.inj hv, ← Option.some.inj hd']
          exact hsum
        · intro h
          obtain ⟨l, hlead, hlen, hsum⟩ := h w rfl
          rw [honly l hlead hlen] at hsum
          exact hsum d hparse

theorem from_string_isSome_iff {s : Text} :
    (Coin.from_string s).isSome = true ↔ CoinTextFits s := by
  constructor
  · intro h
    exact ⟨fun whole w hsplit => (from_string_of_whole hsplit).mp h w,
      fun whole decimal w hsplit => (from_string_of_decimal hsplit).mp h w⟩
  · intro h
    match hsplit : s.splitOn '.' with
    | [] => exact absurd hsplit (List.splitOn_ne_nil '.' s)
    | [whole] => exact (from_string_of_whole hsplit).mpr fun w => h.whole whole w hsplit
    | [whole, decimal] =>
      exact (from_string_of_decimal hsplit).mpr fun w => h.decimal whole decimal w hsplit
    | whole :: decimal :: third :: rest =>
      unfold Coin.from_string
      simp only [hsplit, Option.isSome_some]

/-! ## What comes back -/

theorem digits_ascii {n : Nat} : ∀ c ∈ Nat.toDigits 10 n, isAsciiDigit c = true := by
  intro c hc
  have hdigit := Nat.isDigit_of_mem_toDigits (by omega) (by omega) hc
  simpa [Char.isDigit, isAsciiDigit, Char.le_def] using hdigit

theorem padded_ascii {n : Nat} : ∀ c ∈ padded n, isAsciiDigit c = true := by
  intro c hc
  unfold padded List.leftpad at hc
  rcases List.mem_append.mp hc with hzero | hdigit
  · rw [List.eq_of_mem_replicate hzero]
    rfl
  · exact digits_ascii c hdigit

theorem length_padded {n : Nat} (h : n < MAX_COIN_DECIMALS) : (padded n).length = 6 := by
  have hdigits : (Nat.toDigits 10 n).length ≤ 6 :=
    (Nat.length_toDigits_le_iff (by decide) (by decide)).mpr h
  rw [padded, List.length_leftpad, Nat.max_eq_left hdigits]

theorem value_padded (n : Nat) : Nat.ofDigitChars 10 (padded n) 0 = n := by
  rw [padded, List.leftpad, Nat.ofDigitChars_append, Nat.ofDigitChars_replicate_zero,
    Nat.mul_zero, Nat.ofDigitChars_ten_toDigits]

theorem dot_not_ascii {s : Text} (h : ∀ c ∈ s, isAsciiDigit c = true) : '.' ∉ s := by
  intro hdot
  exact absurd (h '.' hdot) (by decide)

theorem ascii_size {c : Char} (h : isAsciiDigit c = true) : c.utf8Size = 1 := by
  simp only [isAsciiDigit, Bool.and_eq_true, decide_eq_true_eq, Char.le_def] at h
  rw [Char.utf8Size_eq_one_iff]
  exact UInt32.le_trans h.2 (by decide)

theorem utf8Len_ascii {s : Text} (h : ∀ c ∈ s, isAsciiDigit c = true) : utf8Len s = s.length := by
  induction s with
  | nil => rfl
  | cons c s ih =>
    have hs := ih fun d hd => h d (List.mem_cons_of_mem c hd)
    rw [utf8Len_cons, ascii_size (h c List.mem_cons_self), hs, List.length_cons, Nat.add_comm]

theorem parse_u128_ascii {s : Text} (hne : s ≠ []) (h : ∀ c ∈ s, isAsciiDigit c = true)
    (hvalue : Nat.ofDigitChars 10 s 0 < 2 ^ 128) :
    parse_u128 s = some (Nat.ofDigitChars 10 s 0) := by
  have hplus : s.head? ≠ some '+' := by
    intro hhead
    exact absurd (h '+' (List.mem_of_mem_head? hhead)) (by decide)
  unfold parse_u128
  simp only [if_neg hplus]
  exact if_pos ⟨hne, List.all_eq_true.mpr h, hvalue⟩

/-- A printed coin is read back with its fraction a thousand times as large. -/
theorem from_string_to_decimal_string (c : Coin) :
    Coin.from_string c.to_decimal_string = some (Coin.new
      (c.amount / MAX_COIN_DECIMALS * MAX_COIN_DECIMALS + c.amount % MAX_COIN_DECIMALS * 1000)) := by
  have hmax := c.le_max
  have hrest : c.amount % MAX_COIN_DECIMALS < MAX_COIN_DECIMALS := Nat.mod_lt _ (by decide)
  have hwhole : parse_u128 (Nat.toDigits 10 (c.amount / MAX_COIN_DECIMALS)) =
      some (c.amount / MAX_COIN_DECIMALS) := by
    apply parse_u128_toDigits
    have hle := Nat.div_le_self c.amount MAX_COIN_DECIMALS
    simp only [MAX_COIN] at hmax
    omega
  have hdot : '.' ∉ Nat.toDigits 10 (c.amount / MAX_COIN_DECIMALS) := dot_not_ascii digits_ascii
  have hfits : c.amount / MAX_COIN_DECIMALS * MAX_COIN_DECIMALS +
      c.amount % MAX_COIN_DECIMALS * 1000 < 2 ^ 128 := by
    simp only [MAX_COIN, MAX_COIN_DECIMALS] at *
    omega
  unfold Coin.to_decimal_string
  simp only
  split
  · rename_i hzero
    rw [hzero, Nat.zero_mul, Nat.add_zero] at hfits ⊢
    rw [from_string_whole (List.splitOn_eq_singleton hdot) hwhole, u128_checked_of_lt hfits]
    rfl
  · have hsplit : (Nat.toDigits 10 (c.amount / MAX_COIN_DECIMALS) ++
        '.' :: padded (c.amount % MAX_COIN_DECIMALS)).splitOn '.' =
        [Nat.toDigits 10 (c.amount / MAX_COIN_DECIMALS),
          padded (c.amount % MAX_COIN_DECIMALS)] := by
      rw [List.splitOn_append_cons_self_of_not_mem hdot,
        List.splitOn_eq_singleton (dot_not_ascii padded_ascii)]
    have hlength := length_padded hrest
    have hsize : utf8Len (padded (c.amount % MAX_COIN_DECIMALS)) = 6 := by
      rw [utf8Len_ascii padded_ascii, hlength]
    have hcut : decimal_str (padded (c.amount % MAX_COIN_DECIMALS)) =
        some (padded (c.amount % MAX_COIN_DECIMALS)) := by
      rw [decimal_str_eq_some, hsize]
      exact ⟨List.prefix_rfl, rfl⟩
    have hparse : parse_u128 (padded (c.amount % MAX_COIN_DECIMALS)) =
        some (c.amount % MAX_COIN_DECIMALS) := by
      have hne : padded (c.amount % MAX_COIN_DECIMALS) ≠ [] :=
        List.ne_nil_of_length_pos (by omega)
      have hvalue := value_padded (c.amount % MAX_COIN_DECIMALS)
      rw [parse_u128_ascii hne padded_ascii (by rw [hvalue]; omega), hvalue]
    rw [from_string_decimal hsplit hwhole, hcut, Option.bind_some, decimal_amount, hparse]
    simp only
    rw [hsize, show 10 ^ (9 - 6) = 1000 from rfl,
      u128_checked_of_lt (Nat.lt_of_le_of_lt (Nat.le_add_right _ _) hfits), Option.bind_some,
      u128_checked_of_lt (Nat.lt_of_le_of_lt (Nat.le_add_left _ _) hfits), Option.bind_some,
      u128_checked_of_lt hfits, Option.bind_some]

/-- The text of a coin gives the coin back exactly when the coin has no fraction, and a text is
answered exactly when its numbers fit. -/
theorem coin_text_iff (c : Coin) (s : Text) :
    (Coin.from_string c.to_decimal_string = some (.ok c) ↔ c.amount % MAX_COIN_DECIMALS = 0) ∧
    ((∃ answer, Coin.from_string s = some answer) ↔ CoinTextFits s) := by
  constructor
  · have hdivision := Nat.div_add_mod' c.amount MAX_COIN_DECIMALS
    rw [from_string_to_decimal_string, Option.some.injEq, Coin.new_eq_ok]
    omega
  · rw [← Option.isSome_iff_exists]
    exact from_string_isSome_iff

/-- The smallest coin: its text is read as a thousand of it. -/
def oneUnit : Coin := ⟨1, by decide⟩

/-- `u128::MAX` coins: the product with the decimals leaves `u128`. -/
def hugeWhole : Text := "340282366920938463463374607431768211455".toList

/-- Nine decimals that end inside a character of two bytes. -/
def splitCharacter : Text := "1.12345678é".toList

theorem coin_text_is_lost : Coin.from_string oneUnit.to_decimal_string ≠ some (.ok oneUnit) ∧
    Coin.from_string hugeWhole = none ∧ Coin.from_string splitCharacter = none := by
  refine ⟨?_, ?_, ?_⟩
  · rw [from_string_to_decimal_string]
    decide
  · decide
  · decide

end eld_chain
