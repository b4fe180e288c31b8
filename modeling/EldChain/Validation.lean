-- The structural checks on a transaction before it is decoded: the size and
-- the brackets of the JSON text, and then the fields of the JSON value, type
-- by type. Each check names the field it looks at.
import EldChain.Codec

open json

namespace eld_chain

variable (s : SerdeJson)

/-! ## Checks -/

/-- Fails with the error unless the condition holds. -/
def ensure (p : Prop) [Decidable p] (e : EldError) : Except EldError Unit :=
  if p then .ok () else .error e

/-- The value at a key that is known to be there. -/
def valueAt (members : Members) (name : String) : Json := (get members (key name)).getD .null

/-- The first of the required fields that is missing is an error. -/
def requireFields (members : Members) (field value subject : String) :
    List String → Except EldError Unit
  | [] => .ok ()
  | name :: rest =>
    if (get members (key name)).isSome then requireFields members field value subject rest
    else .error (.ValidationError field value (subject ++ " missing required field: " ++ name))

/-- A field that has to read as a value of some kind. -/
def typedField {α : Type} (read : Json → Option α) (noun : String) (members : Members)
    (label subject name : String) : Except EldError α :=
  match read (valueAt members name) with
  | some a => .ok a
  | none => .error (.ValidationError (label ++ " " ++ name) (valueText (valueAt members name))
      (subject ++ " '" ++ name ++ "' field must be " ++ noun))

/-- A check of a field that may be missing. -/
def ifPresent (members : Members) (name : String) (check : Except EldError Unit) :
    Except EldError Unit :=
  if (get members (key name)).isSome then check else .ok ()

def parse_validated_address (address : Text) : Except EldError Address :=
  decode_fixed_hex 20 address "address"

def validate_address (address : Text) : Except EldError Unit := do
  let _ ← parse_validated_address address
  .ok ()

/-- The optional lower and upper bounds. A number of an unsigned type is never negative. -/
def validate_positive_integer (value : Nat) (min max : Option Nat) (field : String) :
    Except EldError Unit := do
  ensure (∀ m ∈ min, m ≤ value)
    (.ValidationError field (toString value) (field ++ " must be >= " ++ toString (min.getD 0)))
  ensure (∀ m ∈ max, value ≤ m)
    (.ValidationError field (toString value) (field ++ " must be <= " ++ toString (max.getD 0)))

/-- An amount: a decimal string, or a number of at most 64 bits. -/
def amountField (members : Members) (label subject adjective name : String) :
    Except EldError Nat :=
  let field := label ++ " " ++ name
  match valueAt members name with
  | .str t =>
    match parse_u128 t with
    | some n => .ok n
    | none => .error (.ValidationError field (String.ofList t)
        (subject ++ " must be a valid " ++ adjective ++ " integer string"))
  | .int i =>
    match asUnsigned 64 (.int i) with
    | some n => .ok n
    | none => .error (.ValidationError field (valueText (.int i))
        (subject ++ " must be a valid " ++ adjective ++ " integer"))
  | .raw literal => .error (.ValidationError field (String.ofList literal)
      (subject ++ " must be a valid " ++ adjective ++ " integer"))
  | j => .error (.ValidationError field (valueText j) (subject ++ " must be a string or number"))

/-- The amount of a transfer, a stake or an unstake. -/
def coinField (members : Members) (label subject zeroText : String) : Except EldError Unit := do
  let amount ← amountField members label (subject ++ " 'amount' field") "positive" "amount"
  ensure (amount ≠ 0) (.ValidationError (label ++ " amount") (toString amount)
    (subject ++ " 'amount' " ++ zeroText))
  ensure (amount ≤ MAX_COIN) (.ValidationError (label ++ " amount") (toString amount)
    (subject ++ " 'amount' exceeds maximum coin value " ++ toString MAX_COIN))

/-! ## The nine payloads -/

def validate_transfer_payload (payload : Members) : Except EldError Unit := do
  let label := "transfer payload"
  let subject := "Transfer payload"
  requireFields payload label "missing" subject ["sender", "recipient", "amount"]
  let sender ← typedField asStr "a string" payload label subject "sender"
  let sender ← parse_validated_address sender
  let recipient ← typedField asStr "a string" payload label subject "recipient"
  let recipient ← parse_validated_address recipient
  ensure (sender ≠ recipient) (.ValidationError "transfer addresses"
    ("sender: " ++ Address.hex_with_prefix sender ++ ", recipient: "
      ++ Address.hex_with_prefix recipient)
    "Transfer sender and recipient cannot be the same")
  coinField payload label subject "must be greater than zero"

def validate_stake_payload (payload : Members) : Except EldError Unit := do
  let label := "stake payload"
  let subject := "Stake payload"
  requireFields payload label "missing" subject ["sender", "amount"]
  let sender ← typedField asStr "a string" payload label subject "sender"
  let _ ← parse_validated_address sender
  coinField payload label subject "cannot be zero"
  ifPresent payload "public_key" (do
    let public_key ← typedField asStr "a string" payload label subject "public_key"
    validate_hex_string public_key 32)

def validate_unstake_payload (payload : Members) : Except EldError Unit := do
  let label := "unstake payload"
  let subject := "Unstake payload"
  requireFields payload label "missing" subject ["sender", "amount"]
  let sender ← typedField asStr "a string" payload label subject "sender"
  let _ ← parse_validated_address sender
  coinField payload label subject "must be greater than zero"

def validate_register_capacity_payload (payload : Members) : Except EldError Unit := do
  let label := "register capacity payload"
  let subject := "RegisterCapacity payload"
  requireFields payload label "missing" subject
    ["sender", "capacity_bytes", "merkle_root", "seed", "chunk_count"]
  let sender ← typedField asStr "a string" payload label subject "sender"
  validate_address sender
  validate_safe_string sender 100
  let capacity_bytes ← typedField (asUnsigned 64) "a positive integer" payload label subject
    "capacity_bytes"
  validate_positive_integer capacity_bytes (some 1) none "capacity_bytes"
  let merkle_root ← typedField asStr "a hex string" payload label subject "merkle_root"
  validate_hex_string merkle_root 32
  let seed ← typedField asStr "a hex string" payload label subject "seed"
  validate_hex_string seed 32
  let chunk_count ← typedField (asUnsigned 64) "a positive integer" payload label subject
    "chunk_count"
  validate_positive_integer chunk_count (some 1) none "chunk_count"

def validate_unregister_capacity_payload (payload : Members) : Except EldError Unit := do
  let label := "unregister capacity payload"
  let subject := "UnregisterCapacity payload"
  requireFields payload label "missing" subject ["sender", "unregister"]
  let sender ← typedField asStr "a string" payload label subject "sender"
  validate_address sender
  validate_safe_string sender 100
  let unregister ← typedField asBool "a boolean" payload label subject "unregister"
  ensure (unregister = true) (.ValidationError "unregister" "false"
    "UnregisterCapacity payload 'unregister' field must be true")

def validate_update_capacity_merkle_root_payload (payload : Members) : Except EldError Unit := do
  let label := "update capacity merkle root payload"
  let subject := "UpdateCapacityMerkleRoot payload"
  requireFields payload label "missing" subject ["sender", "merkle_root"]
  let sender ← typedField asStr "a string" payload label subject "sender"
  validate_address sender
  validate_safe_string sender 100
  let merkle_root ← typedField asStr "a hex string" payload label subject "merkle_root"
  validate_hex_string merkle_root 32

def asArray : Json → Option (List Json)
  | .arr items => some items
  | _ => none

def asObject : Json → Option Members
  | .obj members => some members
  | _ => none

/-- A time between the years 2020 and 2100. -/
def timestampField (members : Members) (label subject name : String) : Except EldError Unit := do
  let t ← typedField (asUnsigned 64) "a positive integer" members label subject name
  ensure (MIN_TIMESTAMP.toNat ≤ t ∧ t ≤ MAX_TIMESTAMP.toNat)
    (.ValidationError (label ++ " " ++ name) (toString t)
      (subject ++ " '" ++ name ++ "' must be between " ++ toString MIN_TIMESTAMP ++ " and "
        ++ toString MAX_TIMESTAMP))

/-- Hex that may not be empty. -/
def providerHexField (members : Members) (label subject name : String) (max_bytes : Nat) :
    Except EldError Unit := do
  let text ← typedField asStr "a string" members label subject name
  ensure (text ≠ []) (.ValidationError (label ++ " " ++ name) (String.ofList text)
    (subject ++ " '" ++ name ++ "' must be non-empty"))
  validate_hex_string text max_bytes

def validate_verified_proof_payload (payload : Members) : Except EldError Unit := do
  let label := "verified proof payload"
  let subject := "VerifiedProof payload"
  requireFields payload label "missing" subject
    ["sender", "capacity_provider", "challenge_id", "block_height", "verified_at_block",
      "verified_at_timestamp", "proofs", "generated_at", "provider_pubkey", "provider_signature"]
  let sender ← typedField asStr "a string" payload label subject "sender"
  let _ ← parse_validated_address sender
  let capacity_provider ← typedField asStr "a string" payload label subject "capacity_provider"
  let _ ← parse_validated_address capacity_provider
  let challenge_id ← typedField asStr "a string" payload label subject "challenge_id"
  validate_safe_string challenge_id 100
  let block_height ← typedField asI64 "an integer" payload label subject "block_height"
  ensure (0 < block_height.val) (.ValidationError (label ++ " block_height")
    (toString block_height.val) (subject ++ " 'block_height' must be positive"))
  let verified_at_block ← typedField asI64 "an integer" payload label subject "verified_at_block"
  ensure (0 < verified_at_block.val) (.ValidationError (label ++ " verified_at_block")
    (toString verified_at_block.val) (subject ++ " 'verified_at_block' must be positive"))
  ensure (block_height.val ≤ verified_at_block.val)
    (.ValidationError (label ++ " verified_at_block") (toString verified_at_block.val)
      (subject ++ " 'verified_at_block' must be >= block_height"))
  timestampField payload label subject "verified_at_timestamp"
  let proofs ← typedField asArray "an array" payload label subject "proofs"
  ensure (proofs.isEmpty = false) (.ValidationError (label ++ " proofs") "[]"
    (subject ++ " 'proofs' must be non-empty"))
  timestampField payload label subject "generated_at"
  providerHexField payload label subject "provider_pubkey" 32
  providerHexField payload label subject "provider_signature" 64
  ifPresent payload "failed" (do
    let _ ← typedField asBool "a boolean" payload label subject "failed"
    .ok ())

/-- Only presence is checked, and of neither the tags, the topic, the content type nor the
namespace. -/
def validate_post_message_payload (payload : Members) : Except EldError Unit :=
  requireFields payload "post_message payload" "missing" "PostMessage payload"
    ["sender", "original_signer", "original_signer_pubkey", "content_key", "message_id",
      "expires_height", "visibility", "fee_amount", "received_timestamp", "user_signature"]

def validate_add_namespace_payload (payload : Members) : Except EldError Unit := do
  let label := "add_namespace payload"
  let subject := "AddNamespace payload"
  requireFields payload label "missing" subject ["sender", "namespace_slug", "registration_fee"]
  let sender ← typedField asStr "a string" payload label subject "sender"
  let sender ← parse_validated_address sender
  let namespace_slug ← typedField asStr "a string" payload label subject "namespace_slug"
  validate_safe_string namespace_slug 64
  let registration_fee ← amountField payload label (subject ++ " 'registration_fee'")
    "non-negative" "registration_fee"
  ensure (registration_fee ≤ MAX_COIN) (.ValidationError (label ++ " registration_fee")
    (toString registration_fee)
    (subject ++ " 'registration_fee' exceeds maximum coin value " ++ toString MAX_COIN))
  let _ ← AddNamespaceTx.new sender namespace_slug registration_fee
  .ok ()

def validatePayloadOf (payload : Members) : TxType → Except EldError Unit
  | .Transfer => validate_transfer_payload payload
  | .Stake => validate_stake_payload payload
  | .Unstake => validate_unstake_payload payload
  | .RegisterCapacity => validate_register_capacity_payload payload
  | .UnregisterCapacity => validate_unregister_capacity_payload payload
  | .UpdateCapacityMerkleRoot => validate_update_capacity_merkle_root_payload payload
  | .VerifiedProof => validate_verified_proof_payload payload
  | .PostMessage => validate_post_message_payload payload
  | .AddNamespace => validate_add_namespace_payload payload

def validate_payload_content (payload : Members) (payload_type : Text) : Except EldError Unit :=
  match TxType.order.find? (fun t => key t.as_str = payload_type) with
  | some t => validatePayloadOf payload t
  | none => .error (.ValidationError "transaction payload type" (String.ofList payload_type)
      ("Unknown payload type: " ++ String.ofList payload_type))

/-! ## Transactions -/

def MAX_TRANSACTION_SIZE_BYTES : Nat := 10 * 1024 * 1024

def validate_transaction_size (json_value : Json) : Except EldError Unit :=
  let size := utf8Len json_value.compact
  ensure (size ≤ MAX_TRANSACTION_SIZE_BYTES)
    (.ValidationError "transaction" (valueText json_value)
      ("Transaction size " ++ toString size ++ " bytes exceeds maximum allowed size "
        ++ toString MAX_TRANSACTION_SIZE_BYTES ++ " bytes"))

/-- `Value::is_number`. -/
def asNumber : Json → Option Unit
  | .int _ => some ()
  | .raw _ => some ()
  | _ => none

/-- A number of the envelope: at most `u32::MAX`. -/
def envelopeNumber (members : Members) (name : String) : Except EldError Unit := do
  typedField asNumber "a number" members "transaction" "Transaction" name
  let n ← typedField (asUnsigned 64) "a positive integer" members "transaction" "Transaction" name
  validate_positive_integer n (some 0) (some (2 ^ 32 - 1)) name

/-- The `Debug` text of the allowed types. -/
def allowedTypes : String :=
  "[" ++ ", ".intercalate (TxType.order.map (fun t => "\"" ++ t.as_str ++ "\"")) ++ "]"

/-- The checks on the object of a transaction. -/
def validateEnvelope (json_value : Json) (obj : Members) : Except EldError Unit := do
  let label := "transaction"
  let subject := "Transaction"
  requireFields obj label (valueText json_value) subject
    ["sig", "nonce", "payload", "public_key", "fee"]
  let sig ← typedField asStr "a string" obj label subject "sig"
  validate_hex_string sig 64
  envelopeNumber obj "nonce"
  let payload ← typedField asObject "an object" obj label subject "payload"
  let public_key ← typedField asStr "a string" obj label subject "public_key"
  validate_hex_string public_key 32
  envelopeNumber obj "fee"
  ensure ((get payload (key "type")).isSome = true)
    (.ValidationError "transaction payload" (valueText (.obj payload))
      "Transaction payload missing 'type' field")
  let payload_type ← typedField asStr "a string" payload "transaction payload"
    "Transaction payload" "type"
  ensure ((TxType.order.any (fun t => key t.as_str = payload_type)) = true)
    (.ValidationError "transaction payload type" (String.ofList payload_type)
      ("Invalid transaction payload type: " ++ String.ofList payload_type ++ " (allowed: "
        ++ allowedTypes ++ ")"))
  validate_payload_content payload payload_type

def validate_transaction_structure (json_value : Json) : Except EldError Unit := do
  validate_transaction_size json_value
  match asObject json_value with
  | none => .error (.ValidationError "transaction" (valueText json_value)
      "Transaction must be a JSON object")
  | some obj => validateEnvelope json_value obj

/-! ## The text -/

/-- The depth after the brackets of a text, wherever they stand, from a depth on. -/
def scanBrackets (max_depth : Nat) : Nat → Text → Except String Nat
  | depth, [] => .ok depth
  | depth, ch :: rest =>
    if ch = '\x7b' ∨ ch = '[' then
      if max_depth < depth + 1 then
        .error ("JSON nesting too deep: " ++ toString (depth + 1) ++ " levels (max "
          ++ toString max_depth ++ ")")
      else scanBrackets max_depth (depth + 1) rest
    else if ch = '\x7d' ∨ ch = ']' then
      if depth = 0 then .error "JSON has mismatched brackets"
      else scanBrackets max_depth (depth - 1) rest
    else scanBrackets max_depth depth rest

def validate_json_string (json_str : Text) (max_size max_depth : Nat) : Except EldError Unit :=
  let error := fun details =>
    .error (.ValidationError "JSON string" (String.ofList json_str) details)
  if json_str = [] then error "JSON string cannot be empty"
  else if max_size < utf8Len json_str then
    error ("JSON string too large: " ++ toString (utf8Len json_str) ++ " bytes (max "
      ++ toString max_size ++ ")")
  else
    match scanBrackets max_depth 0 json_str with
    | .error details => error details
    | .ok depth =>
      if depth ≠ 0 then error "JSON has mismatched brackets"
      else
        match s.from_str_value json_str with
        | .error e => error ("Invalid JSON format: " ++ e)
        | .ok _ => .ok ()

end eld_chain
