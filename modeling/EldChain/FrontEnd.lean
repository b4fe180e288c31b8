-- The front ends of the node: what CheckTx and DeliverTx make of the bytes
-- of a transaction. Both read them as UTF-8 text of hex digits that spell
-- JSON. DeliverTx also checks the hex and the JSON before it decodes them.
import EldChain.Blocks
import EldChain.Validation

open json Std

namespace eld_chain

variable (o : Outside) (pc : ProtocolConstants) (s : SerdeJson)

/-! ## UTF-8 -/

/-- `std::str::Utf8Error`. -/
structure Utf8Error where
  valid_up_to : Nat
  error_len : Option Nat

def Utf8Error.to_string (e : Utf8Error) : String :=
  match e.error_len with
  | some len => "invalid utf-8 sequence of " ++ toString len ++ " bytes from index "
      ++ toString e.valid_up_to
  | none => "incomplete utf-8 byte sequence from index " ++ toString e.valid_up_to

/-- The bytes of a character with this first byte: 0 if there is none. -/
def utf8CharWidth (first : UInt8) : Nat :=
  if first < 0x80 then 1
  else if 0xC2 ≤ first ∧ first ≤ 0xDF then 2
  else if 0xE0 ≤ first ∧ first ≤ 0xEF then 3
  else if 0xF0 ≤ first ∧ first ≤ 0xF4 then 4
  else 0

/-- The byte at a place behind the first one: overlong forms, surrogates and numbers above
the last character are ruled out by the second byte. -/
def utf8Continues (first : UInt8) (place : Nat) (b : UInt8) : Bool :=
  let low := if place = 1 ∧ first = 0xE0 then 0xA0 else if place = 1 ∧ first = 0xF0 then 0x90 else 0x80
  let high := if place = 1 ∧ first = 0xED then 0x9F else if place = 1 ∧ first = 0xF4 then 0x8F else 0xBF
  low ≤ b && b ≤ high

/-- The error among the bytes that are left of a character, if there is one. -/
def utf8Rest (first : UInt8) : Nat → Nat → Bytes → Option (Option Nat)
  | _, 0, _ => none
  | _, _ + 1, [] => some none
  | place, left + 1, b :: rest =>
    if utf8Continues first place b then utf8Rest first (place + 1) left rest else some (some place)

/-- The first error in bytes that are not UTF-8. The bytes to skip are those of a character
that was checked already. -/
def utf8ErrorFrom (index skip : Nat) : Bytes → Utf8Error
  | [] => ⟨index, none⟩
  | first :: rest =>
    if 0 < skip then utf8ErrorFrom (index + 1) (skip - 1) rest
    else if utf8CharWidth first = 0 then ⟨index, some 1⟩
    else
      match utf8Rest first 1 (utf8CharWidth first - 1) rest with
      | some error_len => ⟨index, error_len⟩
      | none => utf8ErrorFrom (index + 1) (utf8CharWidth first - 1) rest

/-- `String::from_utf8`. -/
def from_utf8 (b : Bytes) : Except String Text :=
  match b.toByteArray.utf8Decode? with
  | some chars => .ok chars.toList
  | none => .error (utf8ErrorFrom 0 0 b).to_string

/-! ## Hex -/

/-- `hex::FromHexError`. -/
inductive FromHexError
  | OddLength
  | InvalidHexCharacter (c : Char) (index : Nat)

/-- The `Debug` text of a character of one byte. -/
def charDebug (c : Char) : String :=
  let text :=
    if c.toNat = 0 then "\\0"
    else if c = '\t' then "\\t"
    else if c = '\r' then "\\r"
    else if c = '\n' then "\\n"
    else if c = '\'' then "\\'"
    else if c = '\\' then "\\\\"
    else if isControl c ∨ c.toNat = 0xA0 ∨ c.toNat = 0xAD then
      "\\u\x7b" ++ String.ofList (Nat.toDigits 16 c.toNat) ++ "\x7d"
    else String.singleton c
  "'" ++ text ++ "'"

def FromHexError.to_string : FromHexError → String
  | .OddLength => "Odd number of digits"
  | .InvalidHexCharacter c index =>
    "Invalid character " ++ charDebug c ++ " at position " ++ toString index

/-- The value of one hex digit. -/
def hexByte (b : UInt8) (index : Nat) : Except FromHexError Nat :=
  match hexVal (Char.ofNat b.toNat) with
  | some d => .ok d
  | none => .error (.InvalidHexCharacter (Char.ofNat b.toNat) index)

def hexPairs (index : Nat) : Bytes → Except FromHexError Bytes
  | high :: low :: rest => do
    let a ← hexByte high index
    let b ← hexByte low (index + 1)
    let out ← hexPairs (index + 2) rest
    .ok (UInt8.ofNat (16 * a + b) :: out)
  | _ => .ok []

/-- `hex::decode`, on the bytes of a string. -/
def hex_decode (hex_str : Text) : Except FromHexError Bytes :=
  let bytes := Text.bytes hex_str
  if bytes.length % 2 ≠ 0 then .error .OddLength else hexPairs 0 bytes

/-- `hex::encode`. -/
def hex_encode (b : Bytes) : Text := b.flatMap (fun x => hexDigits 2 x.toNat)

/-- A transaction as a client sends it. -/
def hex_encode_tx (tx : Tx) : Bytes := Text.bytes (hex_encode (Text.bytes tx.to_string))

/-! ## DeliverTx -/

def response_deliver_tx_error_tx_too_large (max_size actual_size : Nat) : ResponseDeliverTx :=
  let text := "Transaction too large. Max size is " ++ toString max_size ++ " bytes, but got "
    ++ toString actual_size ++ " bytes"
  errorResponse 8 text text

def response_deliver_tx_error_json_parsing_failed (error_details : String) : ResponseDeliverTx :=
  errorResponse 52 ("JSON parsing failed: " ++ error_details) "JSON parsing failed"

def response_deliver_tx_error_invalid_utf8_encoding (error_details : String) : ResponseDeliverTx :=
  errorResponse 62 ("Invalid UTF-8 encoding: " ++ error_details)
    "Transaction contains invalid UTF-8 bytes"

def response_deliver_tx_error_invalid_hex_encoding (error_details : String) : ResponseDeliverTx :=
  errorResponse 63 ("Invalid hex encoding: " ++ error_details)
    "Transaction contains invalid hex encoding"

def response_deliver_tx_error_hex_validation_failed (error_details : String) : ResponseDeliverTx :=
  errorResponse 71 ("Hex validation failed: " ++ error_details) "Hex validation failed"

def response_deliver_tx_error_json_validation_failed (error_details : String) :
    ResponseDeliverTx :=
  errorResponse 72 ("JSON validation failed: " ++ error_details) "JSON validation failed"

def response_deliver_tx_error_transaction_structure_invalid (error_details : String) :
    ResponseDeliverTx :=
  errorResponse 73 ("Transaction structure invalid: " ++ error_details)
    "Transaction structure invalid"

def MAX_HEX_BYTES : Nat := 1024 * 1024

def MAX_JSON_SIZE : Nat := 10 * 1024 * 1024

def MAX_JSON_DEPTH : Nat := 10

/-- The first half of `deliver_tx_inner`: the transaction that the bytes are, or the answer
to them. -/
def deliverDecode (tx_bytes : Bytes) : Except ResponseDeliverTx Tx :=
  if pc.max_tx_bytes < tx_bytes.length then
    .error (response_deliver_tx_error_tx_too_large pc.max_tx_bytes tx_bytes.length)
  else do
    let hex_str ← (from_utf8 tx_bytes).mapError response_deliver_tx_error_invalid_utf8_encoding
    (validate_hex_string hex_str MAX_HEX_BYTES).mapError
      (fun e => response_deliver_tx_error_hex_validation_failed e.to_string)
    let decoded_bytes ← (hex_decode hex_str).mapError
      (fun e => response_deliver_tx_error_invalid_hex_encoding e.to_string)
    let decoded_json ← (from_utf8 decoded_bytes).mapError
      response_deliver_tx_error_invalid_utf8_encoding
    (validate_json_string s decoded_json MAX_JSON_SIZE MAX_JSON_DEPTH).mapError
      (fun e => response_deliver_tx_error_json_validation_failed e.to_string)
    let json_value ← (s.from_str_value decoded_json).mapError
      response_deliver_tx_error_json_parsing_failed
    (validate_transaction_structure json_value).mapError
      (fun e => response_deliver_tx_error_transaction_structure_invalid e.to_string)
    (s.from_str_tx o decoded_json).mapError response_deliver_tx_error_json_parsing_failed

/-- `deliver_tx`, on the bytes of a transaction. -/
def deliver_tx (c : ConsensusConnection) (tx_bytes : Bytes) :
    ResponseDeliverTx × ConsensusConnection :=
  deliver_tx_inner o pc c (deliverDecode o pc s tx_bytes)

end eld_chain
