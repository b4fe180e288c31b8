-- The standard base64 text of some bytes: four symbols for three bytes, six
-- bits a symbol, the last group filled up with equals signs. The decoder takes
-- no other padding and no set bits under it.
import Mathlib.Algebra.Order.Ring.Nat
import Mathlib.Tactic.Common

namespace base64

def alphabet : List Char :=
  "ABCDEFGHIJKLMNOPQRSTUVWXYZabcdefghijklmnopqrstuvwxyz0123456789+/".toList

/-- The symbol of six bits. -/
def symbol (n : Nat) : Char := alphabet.getD n '='

/-- The six bits of a symbol. -/
def value (c : Char) : Option Nat := alphabet.findIdx? (· == c)

/-- The low six bits of a number, its next six, and so on, `k` symbols with the highest first. -/
def symbols : Nat → Nat → List Char
  | 0, _ => []
  | k + 1, n => symbols k (n / 64) ++ [symbol (n % 64)]

def encode : List UInt8 → List Char
  | a :: b :: c :: rest =>
    symbols 4 (a.toNat * 65536 + b.toNat * 256 + c.toNat) ++ encode rest
  | [a, b] => symbols 3 (a.toNat * 1024 + b.toNat * 4) ++ ['=']
  | [a] => symbols 2 (a.toNat * 16) ++ ['=', '=']
  | [] => []

/-- The number that a group of symbols spells. -/
def number (group : List Char) : Option Nat :=
  group.foldl (fun n c => n.bind (fun n => (value c).map (n * 64 + ·))) (some 0)

def byte (n : Nat) : UInt8 := UInt8.ofNat (n % 256)

def decode : List Char → Option (List UInt8)
  | [] => some []
  | [w, x, '=', '='] =>
    (number [w, x]).bind fun n => if n % 16 = 0 then some [byte (n / 16)] else none
  | [w, x, y, '='] =>
    (number [w, x, y]).bind fun n =>
      if n % 4 = 0 then some [byte (n / 1024), byte (n / 4)] else none
  | w :: x :: y :: z :: rest =>
    (number [w, x, y, z]).bind fun n =>
      (decode rest).map ([byte (n / 65536), byte (n / 256), byte n] ++ ·)
  | _ => none

/-! ## The round trip -/

theorem value_symbol {n : Nat} (h : n < 64) : value (symbol n) = some n := by
  have hall : ∀ n : Fin 64, value (symbol n) = some n.val := by decide +kernel
  exact hall ⟨n, h⟩

/-- No symbol is the padding. -/
theorem symbol_ne_pad {n : Nat} (h : n < 64) : symbol n ≠ '=' := by
  intro heq
  have hvalue := value_symbol h
  rw [heq] at hvalue
  cases hvalue

theorem number_symbols (k n : Nat) (h : n < 64 ^ k) : number (symbols k n) = some n := by
  induction k generalizing n with
  | zero =>
    obtain rfl : n = 0 := by simpa using h
    rfl
  | succ k ih =>
    have hhigh : n / 64 < 64 ^ k := Nat.div_lt_of_lt_mul (by rwa [Nat.mul_comm, ← Nat.pow_succ])
    have hprefix := ih _ hhigh
    unfold number at hprefix ⊢
    rw [symbols, List.foldl_append, hprefix]
    simp only [List.foldl_cons, List.foldl_nil, Option.bind_some]
    rw [value_symbol (Nat.mod_lt n (by decide)), Option.map_some]
    congr 1
    omega

theorem symbols_two (n : Nat) : symbols 2 n = [symbol (n / 64 % 64), symbol (n % 64)] := rfl

theorem symbols_three (n : Nat) :
    symbols 3 n = [symbol (n / 64 / 64 % 64), symbol (n / 64 % 64), symbol (n % 64)] := rfl

theorem symbols_four (n : Nat) : symbols 4 n = [symbol (n / 64 / 64 / 64 % 64),
    symbol (n / 64 / 64 % 64), symbol (n / 64 % 64), symbol (n % 64)] := rfl

theorem byte_eq {n : Nat} {b : UInt8} (h : n % 256 = b.toNat) : byte n = b := by
  unfold byte
  rw [h]
  exact UInt8.ofNat_toNat

/-- A group whose last symbol is no padding is a whole one. -/
theorem decode_group {w x y z : Char} (hz : z ≠ '=') (rest : List Char) :
    decode (w :: x :: y :: z :: rest) = (number [w, x, y, z]).bind fun n =>
      (decode rest).map ([byte (n / 65536), byte (n / 256), byte n] ++ ·) := by
  rw [decode]
  · rintro rfl rfl -
    exact hz rfl
  · rintro rfl -
    exact hz rfl

theorem decode_encode (b : List UInt8) : decode (encode b) = some b := by
  induction b using encode.induct with
  | case1 a b c rest ih =>
    have ha := a.toNat_lt
    have hb := b.toNat_lt
    have hc := c.toNat_lt
    have hnumber := number_symbols 4 (a.toNat * 65536 + b.toNat * 256 + c.toNat) (by omega)
    rw [encode, symbols_four]
    rw [symbols_four] at hnumber
    simp only [List.cons_append, List.nil_append]
    rw [decode_group (symbol_ne_pad (Nat.mod_lt _ (by decide))), hnumber, ih]
    simp only [Option.bind_some, Option.map_some, List.cons_append, List.nil_append]
    rw [byte_eq (b := a) (by omega), byte_eq (b := b) (by omega), byte_eq (b := c) (by omega)]
  | case2 a b =>
    have ha := a.toNat_lt
    have hb := b.toNat_lt
    have hnumber := number_symbols 3 (a.toNat * 1024 + b.toNat * 4) (by omega)
    have hlast := symbol_ne_pad (Nat.mod_lt (a.toNat * 1024 + b.toNat * 4) (by decide : 0 < 64))
    rw [encode, symbols_three]
    rw [symbols_three] at hnumber
    simp only [List.cons_append, List.nil_append]
    rw [decode, hnumber, Option.bind_some, if_pos (by omega), byte_eq (b := a) (by omega),
      byte_eq (b := b) (by omega)]
    exact hlast
  | case3 a =>
    have ha := a.toNat_lt
    have hnumber := number_symbols 2 (a.toNat * 16) (by omega)
    rw [encode, symbols_two]
    rw [symbols_two] at hnumber
    simp only [List.cons_append, List.nil_append]
    rw [decode, hnumber, Option.bind_some, if_pos (by omega), byte_eq (b := a) (by omega)]
  | case4 => rfl

/-- Bytes that do not fill their last symbol, and texts that no encoder writes. -/
example : encode [77, 97] = "TWE=".toList ∧ decode "TWF=".toList = none ∧
    decode "TW=E".toList = none := by decide

end base64
