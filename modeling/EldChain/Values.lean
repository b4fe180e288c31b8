-- The small values the chain is made of: fixed-width bytes, hex text,
-- errors, coins, nonces and block numbers. A value that has a bound in
-- the Rust code carries the bound here, so a coin above the supply or a
-- height outside `i64` cannot be built.
import Mathlib.Data.List.Basic
import Mathlib.Tactic.Ring

open Std

namespace eld_chain

/-! ## Bytes and text -/

/-- `[u8; 20]`, read as one big-endian number: the byte order is the number order. -/
abbrev Address := BitVec 160

/-- `[u8; 32]`, read as one big-endian number. -/
abbrev Bytes32 := BitVec 256

/-- A Rust string that the chain compares or parses. -/
abbrev Text := List Char

abbrev Bytes := List UInt8

-- The orders of the two keys, named so that every map over them cites the same instance.
instance : TransOrd Address := inferInstanceAs (TransOrd (BitVec 160))

instance : TransOrd Bytes32 := inferInstanceAs (TransOrd (BitVec 256))

def hexChar (d : Nat) : Char :=
  if d < 10 then Char.ofNat (48 + d) else Char.ofNat (87 + d)

/-- The low `n` hex digits of a number, high digit first. -/
def hexDigits : Nat → Nat → Text
  | 0, _ => []
  | n + 1, v => hexDigits n (v / 16) ++ [hexChar (v % 16)]

theorem hexChar_inj {d d' : Nat} (hd : d < 16) (hd' : d' < 16) (h : hexChar d = hexChar d') :
    d = d' := by
  have hall : ∀ i j : Fin 16, hexChar i = hexChar j → i = j := by decide
  exact congrArg Fin.val (hall ⟨d, hd⟩ ⟨d', hd'⟩ h)

/-- Numbers that fit in the digits are never written alike. -/
theorem hexDigits_inj {n v v' : Nat} (hv : v < 16 ^ n) (hv' : v' < 16 ^ n)
    (h : hexDigits n v = hexDigits n v') : v = v' := by
  induction n generalizing v v' with
  | zero => omega
  | succ n ih =>
    rw [hexDigits, hexDigits] at h
    obtain ⟨hhigh, hlow⟩ := List.append_inj' h rfl
    have hdiv := ih (Nat.div_lt_of_lt_mul (by rw [← Nat.pow_succ']; exact hv))
      (Nat.div_lt_of_lt_mul (by rw [← Nat.pow_succ']; exact hv')) hhigh
    have hmod := hexChar_inj (Nat.mod_lt v (by decide)) (Nat.mod_lt v' (by decide))
      (List.head_eq_of_cons_eq hlow)
    omega

/-- The value of a hex digit of either case. -/
def hexVal (c : Char) : Option Nat :=
  if '0' ≤ c ∧ c ≤ '9' then some (c.toNat - 48)
  else if 'a' ≤ c ∧ c ≤ 'f' then some (c.toNat - 87)
  else if 'A' ≤ c ∧ c ≤ 'F' then some (c.toNat - 55)
  else none

def Address.hex_with_prefix (a : Address) : String :=
  String.ofList ('0' :: 'x' :: hexDigits 40 a.toNat)

/-! ## Errors -/

/-- The errors of `eld_common::error` that the modelled code returns. -/
inductive EldError
  | ValidationError (field value details : String)
  | BasicValidationError (details : String)
  | NotFoundError (resource_type identifier : String)
  | StorageError (operation details : String)
  | CoinError (details : String)
  | InitializationError (component details : String)
  | NetworkError (operation details : String)
  | TransactionError (tx_type details : String)
  | FeeError (operation details : String)
deriving DecidableEq, Repr

/-- The `Display` text of an error. A value that `sanitize_validation_value` hides is hidden
where the error is made. -/
def EldError.to_string : EldError → String
  | .ValidationError field value details =>
    "validation error for field '" ++ field ++ "' (value: " ++ value ++ "): " ++ details
  | .BasicValidationError details => "validation error: " ++ details
  | .NotFoundError resource_type identifier => resource_type ++ " not found: " ++ identifier
  | .StorageError operation details => "storage error during " ++ operation ++ ": " ++ details
  | .CoinError details => "coin error: " ++ details
  | .InitializationError component details =>
    "initialization error for " ++ component ++ ": " ++ details
  | .NetworkError operation details => "network error during " ++ operation ++ ": " ++ details
  | .TransactionError tx_type details => "transaction error for " ++ tx_type ++ ": " ++ details
  | .FeeError operation details => "fee error during " ++ operation ++ ": " ++ details

/-! ## Fixed-length hex -/

/-- Drops one leading `0x` or `0X`. -/
def strip_optional_hex_prefix : Text → Text
  | '0' :: 'x' :: rest => rest
  | '0' :: 'X' :: rest => rest
  | s => s

/-- The number that a text of hex digits spells. -/
def hexNumber (s : Text) : Option Nat :=
  s.foldlM (fun acc c => (hexVal c).map (fun d => 16 * acc + d)) 0

/-- Decodes `n` bytes of hex, upper or lower case, after an optional prefix. -/
def decode_fixed_hex (n : Nat) (s : Text) (field : String) : Except EldError (BitVec (8 * n)) :=
  let hex_body := strip_optional_hex_prefix s
  if hex_body = [] then
    .error (.ValidationError field (String.ofList s) (field ++ " hex cannot be empty"))
  else if hex_body.length % 2 = 1 then
    .error (.ValidationError field (String.ofList s)
      (field ++ " must be valid hex (optional 0x prefix): Odd number of digits"))
  else match hexNumber hex_body with
    | none =>
      let i := hex_body.findIdx (fun c => (hexVal c).isNone)
      .error (.ValidationError field (String.ofList s)
        (field ++ " must be valid hex (optional 0x prefix): Invalid character "
          ++ (hex_body.getD i ' ').quote ++ " at position " ++ toString i))
    | some v =>
      if hex_body.length = 2 * n then .ok (BitVec.ofNat (8 * n) v)
      else .error (.ValidationError field (String.ofList s)
        (field ++ " must be " ++ toString n ++ " bytes (" ++ toString (n * 2) ++
          " hex digits), got " ++ toString (hex_body.length / 2) ++ " bytes"))

theorem hexVal_hexChar {d : Nat} (hd : d < 16) : hexVal (hexChar d) = some d := by
  have hall : ∀ i : Fin 16, hexVal (hexChar i) = some i.val := by decide
  exact hall ⟨d, hd⟩

@[simp]
theorem length_hexDigits (n v : Nat) : (hexDigits n v).length = n := by
  induction n generalizing v with
  | zero => rfl
  | succ n ih => rw [hexDigits, List.length_append, ih, List.length_singleton]

theorem mem_hexDigits {n v : Nat} {c : Char} (h : c ∈ hexDigits n v) :
    ∃ d, d < 16 ∧ c = hexChar d := by
  induction n generalizing v with
  | zero => cases h
  | succ n ih =>
    rw [hexDigits, List.mem_append, List.mem_singleton] at h
    rcases h with h | rfl
    · exact ih h
    · exact ⟨v % 16, Nat.mod_lt _ (by decide), rfl⟩

/-- Digits read back as the number they were written from. -/
theorem hexNumber_hexDigits {n v : Nat} (hv : v < 16 ^ n) : hexNumber (hexDigits n v) = some v := by
  induction n generalizing v with
  | zero =>
    have : v = 0 := by omega
    subst this
    rfl
  | succ n ih =>
    have hhigh := ih (Nat.div_lt_of_lt_mul (by rw [← Nat.pow_succ']; exact hv))
    unfold hexNumber at hhigh ⊢
    rw [hexDigits, List.foldlM_append, hhigh]
    simp only [List.foldlM_cons, List.foldlM_nil, hexVal_hexChar (Nat.mod_lt v (by decide))]
    change some (16 * (v / 16) + v % 16) = some v
    rw [Nat.div_add_mod]

/-- No digits look like a prefix. -/
theorem strip_hexDigits (n v : Nat) : strip_optional_hex_prefix (hexDigits n v) = hexDigits n v := by
  have hx : 'x' ∉ hexDigits n v ∧ 'X' ∉ hexDigits n v := by
    have hall : ∀ i : Fin 16, 'x' ≠ hexChar i ∧ 'X' ≠ hexChar i := by decide
    constructor <;> intro h <;> obtain ⟨d, hd, heq⟩ := mem_hexDigits h
    · exact (hall ⟨d, hd⟩).1 heq
    · exact (hall ⟨d, hd⟩).2 heq
  generalize hexDigits n v = s at hx
  unfold strip_optional_hex_prefix
  split
  · simp at hx
  · simp at hx
  · rfl

theorem decode_fixed_hex_of_strip {n : Nat} (hn : 0 < n) (b : BitVec (8 * n)) (s : Text)
    (field : String) (hs : strip_optional_hex_prefix s = hexDigits (2 * n) b.toNat) :
    decode_fixed_hex n s field = .ok b := by
  have hlt : b.toNat < 16 ^ (2 * n) := by
    have := b.isLt
    rwa [show (16 : Nat) = 2 ^ 4 from rfl, ← Nat.pow_mul, show 4 * (2 * n) = 8 * n by omega]
  have hne : hexDigits (2 * n) b.toNat ≠ [] := by
    rw [ne_eq, ← List.length_eq_zero_iff, length_hexDigits]
    omega
  unfold decode_fixed_hex
  simp only [hs, if_neg hne, length_hexDigits, hexNumber_hexDigits hlt,
    if_neg (show ¬ 2 * n % 2 = 1 by omega), if_true, BitVec.ofNat_toNat, BitVec.setWidth_eq]

/-- Bytes that were written as hex read back as they were. -/
theorem decode_fixed_hex_hexDigits {n : Nat} (hn : 0 < n) (b : BitVec (8 * n)) (field : String) :
    decode_fixed_hex n (hexDigits (2 * n) b.toNat) field = .ok b :=
  decode_fixed_hex_of_strip hn b _ field (strip_hexDigits _ _)

/-! ## Coins -/

def MAX_COIN : Nat := 1000000000000000

/-- Every amount of 32 bits is within the maximum. -/
theorem toNat_le_maxCoin (n : UInt32) : n.toNat ≤ MAX_COIN := by
  have hn := n.toNat_lt
  unfold MAX_COIN
  omega

-- The bounds that the small runs have in common.
theorem five_pos : 0 < 5 := Nat.succ_pos 4

theorem five_le_maxCoin : 5 ≤ MAX_COIN := toNat_le_maxCoin 5

theorem thousand_le_maxCoin : 1000 ≤ MAX_COIN := toNat_le_maxCoin 1000

theorem zero_lt_u64 : 0 < 2 ^ 64 := Nat.two_pow_pos 64

theorem zero_lt_u128 : 0 < 2 ^ 128 := Nat.two_pow_pos 128

/-- An amount in base units. Every constructor of the Rust type checks the bound. -/
structure Coin where
  amount : Nat
  le_max : amount ≤ MAX_COIN
deriving Repr

theorem Coin.ext_amount {a b : Coin} (h : a.amount = b.amount) : a = b := by
  cases a; cases b; simpa using h

instance : DecidableEq Coin := fun _ _ =>
  decidable_of_iff _ ⟨Coin.ext_amount, congrArg Coin.amount⟩

def Coin.zero : Coin := ⟨0, Nat.zero_le _⟩

def Coin.is_zero (c : Coin) : Bool := c.amount == 0

def Coin.new (amount : Nat) : Except EldError Coin :=
  if h : MAX_COIN < amount then
    .error (.CoinError ("Amount " ++ toString amount ++ " exceeds maximum coin value "
      ++ toString MAX_COIN))
  else .ok ⟨amount, Nat.le_of_not_lt h⟩

/-- `a + b`. Two amounts below the supply never overflow `u128`, so the sum only fails at
the supply. -/
def Coin.add (a b : Coin) : Except EldError Coin := Coin.new (a.amount + b.amount)

/-- `a - b`. -/
def Coin.sub (a b : Coin) : Except EldError Coin :=
  if a.amount < b.amount then .error (.CoinError "Coin cannot hold a negative value")
  else Coin.new (a.amount - b.amount)

theorem Coin.new_eq_ok {n : Nat} {c : Coin} : Coin.new n = .ok c ↔ c.amount = n := by
  unfold Coin.new
  split
  · rename_i h
    simp only [reduceCtorEq, false_iff]
    intro hc
    have := c.le_max
    omega
  · simp only [Except.ok.injEq]
    constructor
    · rintro rfl; rfl
    · intro h; exact Coin.ext_amount h.symm

/-- An amount that a payload checked is a coin. -/
theorem Coin.new_of_le {n : Nat} (h : n ≤ MAX_COIN) : ∃ c, Coin.new n = .ok c ∧ c.amount = n :=
  ⟨⟨n, h⟩, Coin.new_eq_ok.mpr rfl, rfl⟩

theorem Coin.new_amount (c : Coin) : Coin.new c.amount = .ok c := Coin.new_eq_ok.mpr rfl

theorem Coin.add_eq_ok {a b c : Coin} : a.add b = .ok c ↔ c.amount = a.amount + b.amount :=
  Coin.new_eq_ok

theorem Coin.add_error_iff {a b : Coin} :
    (∃ e, a.add b = .error e) ↔ MAX_COIN < a.amount + b.amount := by
  unfold Coin.add Coin.new
  split <;> simp [*]

theorem Coin.sub_eq_ok {a b c : Coin} :
    a.sub b = .ok c ↔ c.amount + b.amount = a.amount := by
  unfold Coin.sub
  split
  · simp only [reduceCtorEq, false_iff]
    omega
  · rw [Coin.new_eq_ok]
    omega

/-- A debit that was checked against the balance never fails. -/
theorem Coin.sub_of_le {a b : Coin} (h : b.amount ≤ a.amount) :
    ∃ c, a.sub b = .ok c ∧ c.amount = a.amount - b.amount := by
  have hle : a.amount - b.amount ≤ MAX_COIN := (Nat.sub_le _ _).trans a.le_max
  refine ⟨⟨a.amount - b.amount, hle⟩, ?_, rfl⟩
  rw [Coin.sub_eq_ok]
  exact Nat.sub_add_cancel h

/-! ## Nonces -/

/-- A `u32` counter. -/
structure Nonce where
  value : UInt32
deriving DecidableEq, Repr

def Nonce.zero : Nonce := ⟨0⟩

/-- The next nonce, or nothing at `u32::MAX`. -/
def Nonce.next (n : Nonce) : Option Nonce :=
  if n.value.toNat + 1 < 2 ^ 32 then some ⟨n.value + 1⟩ else none

theorem Nonce.next_toNat {n m : Nonce} (h : n.next = some m) :
    m.value.toNat = n.value.toNat + 1 := by
  unfold Nonce.next at h
  split at h
  · rename_i hlt
    cases h
    simp only [UInt32.toNat_add, UInt32.toNat_ofNat]
    omega
  · cases h

/-! ## Block numbers -/

/-- An `i64`. -/
structure I64 where
  val : Int
  lo : -2 ^ 63 ≤ val
  hi : val < 2 ^ 63
deriving DecidableEq, Repr

theorem I64.ext_val {a b : I64} (h : a.val = b.val) : a = b := by
  cases a; cases b; simpa using h

instance : Ord I64 := ⟨compareOn I64.val⟩

instance : TransOrd I64 := inferInstanceAs (TransCmp (compareOn I64.val))

instance : LawfulEqOrd I64 where
  compare_self {a} := @ReflCmp.compare_self Int compare _ a.val
  eq_of_compare h := I64.ext_val (@LawfulEqCmp.eq_of_compare Int compare _ _ _ h)

def I64.zero : I64 := ⟨0, by decide, by decide⟩

/-- `a / b` for a positive `b`: the quotient rounds toward zero and never leaves `i64`. -/
def I64.div (a : I64) (b : Int) (hb : 0 < b) : I64 where
  val := a.val.tdiv b
  lo := by
    have h := a.lo
    rcases le_total 0 a.val with h0 | h0
    · have := Int.tdiv_nonneg h0 hb.le
      omega
    · have h1 : a.val ≤ a.val.tdiv b := by
        have hneg := Int.neg_tdiv a.val b
        have hle := Int.tdiv_le_self b (by omega : 0 ≤ -a.val)
        omega
      omega
  hi := by
    have h := a.hi
    rcases le_total 0 a.val with h0 | h0
    · have := Int.tdiv_le_self b h0
      omega
    · have hneg := Int.neg_tdiv a.val b
      have := Int.tdiv_nonneg (by omega : 0 ≤ -a.val) hb.le
      omega

/-- `x as u64` on a signed value wraps. -/
def asU64 (x : Int) : UInt64 := UInt64.ofInt x

theorem toNat_asU64 {x : Int} (hpos : 0 ≤ x) (hlt : x < 2 ^ 64) : ((asU64 x).toNat : Int) = x := by
  unfold asU64 UInt64.ofInt
  rw [Int.emod_eq_of_lt hpos hlt, UInt64.toNat_ofNat']
  omega

def UInt64.saturating_add (a b : UInt64) : UInt64 := UInt64.ofNat (min (a.toNat + b.toNat) (2 ^ 64 - 1))

def UInt64.saturating_sub (a b : UInt64) : UInt64 := UInt64.ofNat (a.toNat - b.toNat)

def UInt32.saturating_add (a b : UInt32) : UInt32 := UInt32.ofNat (min (a.toNat + b.toNat) (2 ^ 32 - 1))

end eld_chain
