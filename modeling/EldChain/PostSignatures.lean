-- The signature of a user over a post: what the user signs, how an upload
-- checks it, and the message that the upload then makes of the request.
import EldChain.FrontEnd

open json

namespace eld_chain

/-- The signature scheme, with the texts of its errors. -/
structure Ed25519 where
  /-- `VerifyingKey::from_bytes`, for bytes that are a key. -/
  from_bytes : Bytes32 → Except String Bytes32
  /-- The signature of a key over some bytes. -/
  verify : Bytes32 → Bytes → Bytes → Except String Unit

structure PostMessageUserRequest where
  original_signer : Text
  original_signer_pubkey : Text
  content_key : Text
  message_id : Text
  expires_height : UInt64
  visibility : Text
  topic : Option Text
  tags : List Text
  content_type : Text
  fee_amount : Nat
  user_signature : Text
  namespace_ : Option Text
  fee_amount_lt : fee_amount < 2 ^ 128

variable (o : Outside) (ed : Ed25519)

/-! ## What the user signs -/

/-- The namespace is left out when there is none. -/
def PostMessageUserRequest.signing_payload (request : PostMessageUserRequest) (tags : List Text) :
    Json :=
  .obj ([(key "original_signer", .str request.original_signer),
    (key "original_signer_pubkey", .str request.original_signer_pubkey),
    (key "content_key", .str request.content_key),
    (key "expires_height", .int request.expires_height.toNat),
    (key "visibility", .str request.visibility), (key "topic", optionJson request.topic),
    (key "tags", .arr (tags.map Json.str)), (key "content_type", .str request.content_type),
    (key "fee_amount", amountJson request.fee_amount)] ++
    (request.namespace_.map (fun namespace_ => (key "namespace", Json.str namespace_))).toList)

def post_message_user_signing_bytes_with_tags (message_bytes : Bytes)
    (request : PostMessageUserRequest) (tags : List Text) : Bytes :=
  Text.bytes (request.signing_payload tags).compact ++ message_bytes

/-- The name of a blob. -/
def calculate_message_content_key (message_bytes : Bytes) : Text :=
  hexDigits 64 (o.sha256 message_bytes).toNat

def post_message_id_from_signing_bytes (signing_bytes : Bytes) : Text :=
  hexDigits 64 (o.sha256 signing_bytes).toNat

/-! ## The check of an upload -/

/-- Bytes of a fixed length, from their hex text. -/
def fixedHex (n : Nat) (text : Text) (not_hex : String) (wrong_length : String) :
    Except String Bytes :=
  match hex_decode text with
  | .error e => .error (not_hex ++ e.to_string)
  | .ok bytes => if bytes.length = n then .ok bytes else .error wrong_length

def Address.verify_derives_from_pubkey_hex (a : Address) (pubkey_hex : Text) :
    Except EldError Unit :=
  match hex_decode pubkey_hex with
  | .error e => .error (.ValidationError "public_key" (String.ofList pubkey_hex)
      ("Invalid public key hex format: " ++ e.to_string))
  | .ok bytes =>
    if bytes.length ≠ 32 then
      .error (.ValidationError "public_key" (String.ofList pubkey_hex)
        "Public key must be exactly 32 bytes")
    else if a = o.address_of_key (BitVec.ofNat 256 (ofBeBytes bytes)) then .ok ()
    else .error (.ValidationError "address" (Address.hex_with_prefix a)
      "Address does not derive from the provided public key")

/-- An error keeps its text only. -/
def asText {A : Type} (x : Except EldError A) : Except String A := x.mapError EldError.to_string

def validate_post_message_user_signature (message_bytes : Bytes)
    (request : PostMessageUserRequest) : Except String Unit := do
  asText (validate_post_message_content_type request.content_type)
  let _ ← asText (resolve_optional_namespace request.namespace_)
  if calculate_message_content_key o message_bytes ≠ request.content_key then
    .error "content_key does not match SHA-256(message_bytes)"
  else do
    let pubkey_bytes ← fixedHex 32 request.original_signer_pubkey
      "invalid original_signer_pubkey hex: " "original_signer_pubkey must be 32 bytes"
    let verifying_key ← (ed.from_bytes (BitVec.ofNat 256 (ofBeBytes pubkey_bytes))).mapError
      (fun e => "invalid original_signer_pubkey: " ++ e)
    let signer ← asText (decode_fixed_hex 20 request.original_signer "address")
    (Address.verify_derives_from_pubkey_hex o signer request.original_signer_pubkey).mapError
      (fun _ => "original_signer does not match original_signer_pubkey")
    let tags ← asText (canonicalize_post_message_tags request.tags)
    let signing_bytes := post_message_user_signing_bytes_with_tags message_bytes request tags
    if post_message_id_from_signing_bytes o signing_bytes ≠ request.message_id then
      .error "message_id does not match commitment hash of signing preimage"
    else do
      let signature ← fixedHex 64 request.user_signature
        "invalid user_signature hex: " "user_signature must be 64 bytes"
      (ed.verify verifying_key signing_bytes signature).mapError
        (fun e => "user signature verification failed: " ++ e)

def PostMessageUserRequest.build_post_message (request : PostMessageUserRequest)
    (sender original_signer : Address) (received_timestamp : UInt64) :
    Except EldError PostMessageTx :=
  PostMessageTx.new ⟨sender, original_signer, request.original_signer_pubkey,
    request.content_key, request.message_id, request.expires_height, request.visibility,
    request.topic, request.tags, request.content_type, request.fee_amount, received_timestamp,
    request.user_signature, request.namespace_, request.fee_amount_lt⟩

/-- The message that an upload makes of a request, once the request is validated. -/
def validate_message_and_build_post_message (sender : Address) (received_timestamp : UInt64)
    (message_bytes : Bytes) (request : PostMessageUserRequest) : Except String PostMessageTx := do
  validate_post_message_user_signature o ed message_bytes request
  let original_signer ← asText (decode_fixed_hex 20 request.original_signer "address")
  asText (request.build_post_message sender original_signer received_timestamp)

end eld_chain
