-- A post from the user's key to the chain. The client puts the tags and
-- the namespace into their canonical forms before it signs, and each of
-- the three later steps does it again. The forms are fixed points, so the
-- message that the chain decodes is the one that was signed.
import EldChain.PathForms
import EldChain.PostAuthorisation
import EldChain.TxBuilders

open json

namespace eld_chain

variable {o : Outside} {ed : Ed25519}

/-! ## The client -/

structure SigningKey where
  verifying_key : Bytes32
  sign : Bytes → BitVec 512

/-- The key signs what the scheme verifies. -/
structure SigningKey.Signs (signing_key : SigningKey) (ed : Ed25519) : Prop where
  key : ed.from_bytes signing_key.verifying_key = .ok signing_key.verifying_key
  signature : ∀ bytes, ed.verify signing_key.verifying_key bytes
    (beBytes 64 (signing_key.sign bytes).toNat) = .ok ()

structure PostMessageUserRequestInput where
  expires_height : UInt64
  visibility : Text
  topic : Option Text
  tags : List Text
  content_type : Text
  fee_amount : Nat
  namespace_ : Option Text
  fee_amount_lt : fee_amount < 2 ^ 128

/-- The request before it is signed, without an id. -/
def PostMessageUserRequestInput.request (input : PostMessageUserRequestInput) (o : Outside)
    (verifying_key : Bytes32) (message_bytes : Bytes) (tags : List Text)
    (namespace_ : Option Text) : PostMessageUserRequest where
  original_signer := Address.text (o.address_of_key verifying_key)
  original_signer_pubkey := hexDigits 64 verifying_key.toNat
  content_key := calculate_message_content_key o message_bytes
  message_id := []
  expires_height := input.expires_height
  visibility := input.visibility
  topic := input.topic
  tags := tags
  content_type := input.content_type
  fee_amount := input.fee_amount
  user_signature := []
  namespace_ := namespace_
  fee_amount_lt := input.fee_amount_lt

def build_signed_post_message_user_request (o : Outside) (signing_key : SigningKey)
    (message_bytes : Bytes) (input : PostMessageUserRequestInput) :
    Except String PostMessageUserRequest := do
  asText (validate_post_message_content_type input.content_type)
  let tags ← asText (canonicalize_post_message_tags input.tags)
  let namespace_ ← asText (resolve_optional_namespace input.namespace_)
  let req := input.request o signing_key.verifying_key message_bytes tags namespace_
  let signing_bytes := post_message_user_signing_bytes_with_tags message_bytes req tags
  .ok { req with
    message_id := post_message_id_from_signing_bytes o signing_bytes
    user_signature := hexDigits 128 (signing_key.sign signing_bytes).toNat }

/-! ## The node of the upload -/

def SigningKey.wallet (o : Outside) (signing_key : SigningKey) : Wallet :=
  ⟨o.address_of_key signing_key.verifying_key, signing_key.verifying_key, signing_key.sign⟩

/-- The node sends the message of the request in a transaction of its own. -/
def validate_message_and_build_post_message_tx (o : Outside) (ed : Ed25519)
    (message_bytes : Bytes) (user_request : PostMessageUserRequest)
    (validator_signing_key : SigningKey) (validator_tx_nonce : Nonce)
    (received_timestamp : UInt64) (chain_id : String) (tx_fee : Nat) : Except String Tx := do
  let validator := validator_signing_key.wallet o
  let post_message ← validate_message_and_build_post_message o ed validator.address
    received_timestamp message_bytes user_request
  let tx := Tx.new validator_tx_nonce (Payload.new (.PostMessage post_message))
    validator.verifying_key
  .ok ({ tx with fee := tx_fee }.sign validator chain_id)

/-! ## The JSON of a message -/

/-- `serde_json::to_string` of a `PostMessageTx`. -/
def PostMessageTx.to_string (tx : PostMessageTx) : Text :=
  (Json.obj (PayloadInner.PostMessage tx).members).compact

/-- `serde_json::from_str::<PostMessageTx>`. -/
def SerdeJson.from_str_post_message (s : SerdeJson) (text : Text) : Option PostMessageTx :=
  match s.tree text with
  | some (.obj members) => PostMessageTx.decode members
  | _ => none

theorem PostMessageTx.from_to_string (s : SerdeJson) (tx : PostMessageTx) :
    s.from_str_post_message tx.to_string = some tx := by
  have hpayload := whole_of_tidy _ (Payload.json_tidy ⟨[], .PostMessage tx⟩)
  have hwhole : (Json.obj (PayloadInner.PostMessage tx).members).whole = true := by
    simpa [Payload.json, Json.whole, wholeMembers] using hpayload
  have hdecode := (PayloadInner.PostMessage tx).decodeAs_members
  simp only [PayloadInner.decodeAs, PayloadInner.tx_type, Option.map_eq_some_iff,
    PayloadInner.PostMessage.injEq] at hdecode
  obtain ⟨decoded, hdecoded, rfl⟩ := hdecode
  unfold SerdeJson.from_str_post_message PostMessageTx.to_string
  rw [s.tree_compact _ hwhole]
  exact hdecoded

/-! ## What was built -/

/-- A request that a key signed over a message: its parts are canonical, and its id and its
signature are those of the preimage that its own tags give. -/
structure PostMessageUserRequest.BuiltBy (o : Outside) (request : PostMessageUserRequest)
    (signing_key : SigningKey) (message_bytes : Bytes) : Prop where
  content_type : validate_post_message_content_type request.content_type = .ok ()
  tags : canonicalize_post_message_tags request.tags = .ok request.tags
  namespace_ : resolve_optional_namespace request.namespace_ = .ok request.namespace_
  signer : request.original_signer = Address.text (o.address_of_key signing_key.verifying_key)
  pubkey : request.original_signer_pubkey = hexDigits 64 signing_key.verifying_key.toNat
  content_key : request.content_key = calculate_message_content_key o message_bytes
  message_id : request.message_id = post_message_id_from_signing_bytes o
    (post_message_user_signing_bytes_with_tags message_bytes request request.tags)
  signature : request.user_signature = hexDigits 128 (signing_key.sign
    (post_message_user_signing_bytes_with_tags message_bytes request request.tags)).toNat

variable {signing_key : SigningKey} {message_bytes : Bytes} {request : PostMessageUserRequest}

/-- The preimage names neither the id nor the signature. -/
theorem signing_bytes_of_signed (req : PostMessageUserRequest) (message_id user_signature : Text)
    (tags : List Text) :
    post_message_user_signing_bytes_with_tags message_bytes
      { req with message_id := message_id, user_signature := user_signature } tags =
      post_message_user_signing_bytes_with_tags message_bytes req tags := rfl

theorem builtBy_of_signed {req : PostMessageUserRequest}
    (htype : validate_post_message_content_type req.content_type = .ok ())
    (htags : canonicalize_post_message_tags req.tags = .ok req.tags)
    (hnamespace : resolve_optional_namespace req.namespace_ = .ok req.namespace_)
    (hsigner : req.original_signer = Address.text (o.address_of_key signing_key.verifying_key))
    (hpubkey : req.original_signer_pubkey = hexDigits 64 signing_key.verifying_key.toNat)
    (hcontent : req.content_key = calculate_message_content_key o message_bytes)
    {signing_bytes : Bytes} (hbytes : signing_bytes =
      post_message_user_signing_bytes_with_tags message_bytes req req.tags) :
    ({ req with
      message_id := post_message_id_from_signing_bytes o signing_bytes
      user_signature := hexDigits 128 (signing_key.sign signing_bytes).toNat } :
      PostMessageUserRequest).BuiltBy o signing_key message_bytes where
  content_type := htype
  tags := htags
  namespace_ := hnamespace
  signer := hsigner
  pubkey := hpubkey
  content_key := hcontent
  message_id := by rw [signing_bytes_of_signed, hbytes]
  signature := by rw [signing_bytes_of_signed, hbytes]

theorem build_signed.spec {input : PostMessageUserRequestInput}
    (h : build_signed_post_message_user_request o signing_key message_bytes input = .ok request) :
    request.BuiltBy o signing_key message_bytes := by
  simp only [build_signed_post_message_user_request, bind_eq_ok, exists_unit, asText_eq_ok] at h
  obtain ⟨htype, tags, htags, namespace_, hnamespace, hrequest⟩ := h
  rw [← Except.ok.inj hrequest]
  apply builtBy_of_signed
  · exact htype
  · exact canonicalize_tags_fixed htags
  · exact resolve_namespace_fixed hnamespace
  · rfl
  · rfl
  · rfl
  · rfl

theorem fixedHex_hexDigits (n v : Nat) (not_hex wrong_length : String) :
    fixedHex n (hexDigits (2 * n) v) not_hex wrong_length = .ok (beBytes n v) := by
  unfold fixedHex
  rw [hex_decode_hexDigits]
  exact if_pos (length_beBytes n v)

/-- The address of a key derives from its hex text. -/
theorem derives_of_key (key : Bytes32) :
    Address.verify_derives_from_pubkey_hex o (o.address_of_key key) (hexDigits 64 key.toNat) =
      .ok () := by
  have hdecode : hex_decode (hexDigits 64 key.toNat) = .ok (beBytes 32 key.toNat) :=
    hex_decode_hexDigits 32 key.toNat
  unfold Address.verify_derives_from_pubkey_hex
  rw [hdecode]
  simp only [length_beBytes, ne_eq, not_true_eq_false, if_false, key_of_beBytes, if_true]

theorem PostMessageUserRequest.BuiltBy.validates (h : request.BuiltBy o signing_key message_bytes)
    (hkey : signing_key.Signs ed) :
    validate_post_message_user_signature o ed message_bytes request = .ok () := by
  have hpubkey : fixedHex 32 request.original_signer_pubkey
      "invalid original_signer_pubkey hex: " "original_signer_pubkey must be 32 bytes" =
      .ok (beBytes 32 signing_key.verifying_key.toNat) := by
    rw [h.pubkey]
    exact fixedHex_hexDigits 32 _ _ _
  have hsignature : fixedHex 64 request.user_signature
      "invalid user_signature hex: " "user_signature must be 64 bytes" =
      .ok (beBytes 64 (signing_key.sign (post_message_user_signing_bytes_with_tags message_bytes
        request request.tags)).toNat) := by
    rw [h.signature]
    exact fixedHex_hexDigits 64 _ _ _
  have hderives : Address.verify_derives_from_pubkey_hex o
      (o.address_of_key signing_key.verifying_key) request.original_signer_pubkey = .ok () := by
    rw [h.pubkey]
    exact derives_of_key _
  have hsigner : decode_fixed_hex 20 request.original_signer "address" =
      .ok (o.address_of_key signing_key.verifying_key) := by
    rw [h.signer]
    exact parse_address_text _ _
  have hfrom : ed.from_bytes (BitVec.ofNat 256
      (ofBeBytes (beBytes 32 signing_key.verifying_key.toNat))) = .ok signing_key.verifying_key := by
    rw [key_of_beBytes]
    exact hkey.key
  unfold validate_post_message_user_signature
  simp only [bind_eq_ok, asText_eq_ok]
  refine ⟨(), h.content_type, request.namespace_, h.namespace_, ?_⟩
  rw [if_neg (not_not_intro h.content_key.symm)]
  simp only [bind_eq_ok, asText_eq_ok, mapError_eq_ok]
  refine ⟨_, hpubkey, signing_key.verifying_key, hfrom, _, hsigner, (), hderives, request.tags,
    h.tags, ?_⟩
  rw [if_neg (not_not_intro h.message_id.symm)]
  simp only [bind_eq_ok, mapError_eq_ok]
  exact ⟨_, hsignature, hkey.signature _⟩

/-- The message of a built request, as the node makes it. -/
theorem PostMessageUserRequest.BuiltBy.message (h : request.BuiltBy o signing_key message_bytes)
    (sender original_signer : Address) (received_timestamp : UInt64) :
    ∃ pm, request.build_post_message sender original_signer received_timestamp = .ok pm ∧
      pm.tags = request.tags ∧ pm.namespace_ = request.namespace_ ∧
      pm.message_id = request.message_id ∧ pm.user_signature = request.user_signature := by
  let pm : PostMessageTx := {
    sender := sender
    original_signer := original_signer
    original_signer_pubkey := request.original_signer_pubkey
    content_key := request.content_key
    message_id := request.message_id
    expires_height := request.expires_height
    visibility := request.visibility
    topic := request.topic
    tags := request.tags
    content_type := request.content_type
    fee_amount := request.fee_amount
    received_timestamp := received_timestamp
    user_signature := request.user_signature
    namespace_ := request.namespace_
    fee_amount_lt := request.fee_amount_lt
    content_type_allowed := h.content_type
    tags_canonical := h.tags
    namespace_resolved := h.namespace_ }
  have hnew : PostMessageTx.new pm.unchecked = .ok pm := pm.new_self
  exact ⟨pm, hnew, rfl, rfl, rfl, rfl⟩

/-! ## From the user to the chain -/

/-- The message carries what the user signed: the canonical forms of his tags and of his
namespace, and the id and the signature of the preimage that they give. -/
structure PostMessageTx.CarriesSigned (o : Outside) (pm : PostMessageTx)
    (signing_key : SigningKey) (message_bytes : Bytes) (input : PostMessageUserRequestInput)
    (request : PostMessageUserRequest) : Prop where
  tags : canonicalize_post_message_tags input.tags = .ok pm.tags
  namespace_ : resolve_optional_namespace input.namespace_ = .ok pm.namespace_
  message_id : pm.message_id = post_message_id_from_signing_bytes o
    (post_message_user_signing_bytes_with_tags message_bytes request pm.tags)
  signature : pm.user_signature = hexDigits 128 (signing_key.sign
    (post_message_user_signing_bytes_with_tags message_bytes request pm.tags)).toNat

theorem build_signed.canonical {input : PostMessageUserRequestInput}
    (h : build_signed_post_message_user_request o signing_key message_bytes input = .ok request) :
    canonicalize_post_message_tags input.tags = .ok request.tags ∧
      resolve_optional_namespace input.namespace_ = .ok request.namespace_ := by
  simp only [build_signed_post_message_user_request, bind_eq_ok, exists_unit, asText_eq_ok] at h
  obtain ⟨_, tags, htags, namespace_, hnamespace, hrequest⟩ := h
  rw [← Except.ok.inj hrequest]
  exact ⟨htags, hnamespace⟩

/-- Every request that the client builds is accepted by the node, and the message that the node
makes of it survives its JSON and carries what the user signed. -/
theorem user_post_round_trips (hkey : signing_key.Signs ed) {input : PostMessageUserRequestInput}
    (h : build_signed_post_message_user_request o signing_key message_bytes input = .ok request)
    (s : SerdeJson) (validator : SigningKey) (nonce : Nonce) (received_timestamp : UInt64)
    (chain_id : String) (tx_fee : Nat) :
    validate_post_message_user_signature o ed message_bytes request = .ok () ∧
    ∃ tx pm, validate_message_and_build_post_message_tx o ed message_bytes request validator nonce
        received_timestamp chain_id tx_fee = .ok tx ∧
      tx.payload.inner = .PostMessage pm ∧
      s.from_str_post_message pm.to_string = some pm ∧
      pm.CarriesSigned o signing_key message_bytes input request := by
  have hbuilt := build_signed.spec h
  obtain ⟨htags, hnamespace⟩ := build_signed.canonical h
  have hvalid : validate_post_message_user_signature o ed message_bytes request = .ok () :=
    hbuilt.validates hkey
  have hsigner : decode_fixed_hex 20 request.original_signer "address" =
      .ok (o.address_of_key signing_key.verifying_key) := by
    rw [hbuilt.signer]
    exact parse_address_text _ _
  obtain ⟨pm, hmessage, hpmtags, hpmnamespace, hid, hsignature⟩ := hbuilt.message
    (validator.wallet o).address (o.address_of_key signing_key.verifying_key) received_timestamp
  have hmade : validate_message_and_build_post_message o ed (validator.wallet o).address
      received_timestamp message_bytes request = .ok pm := by
    simp only [validate_message_and_build_post_message, bind_eq_ok, exists_unit, asText_eq_ok]
    exact ⟨hvalid, _, hsigner, hmessage⟩
  have htx : ∃ tx, validate_message_and_build_post_message_tx o ed message_bytes request validator
      nonce received_timestamp chain_id tx_fee = .ok tx ∧ tx.payload.inner = .PostMessage pm := by
    simp only [validate_message_and_build_post_message_tx, bind_eq_ok]
    exact ⟨_, ⟨pm, hmade, rfl⟩, rfl⟩
  obtain ⟨tx, htx, hinner⟩ := htx
  refine ⟨hvalid, tx, pm, htx, hinner, pm.from_to_string s, ?_⟩
  refine ⟨?_, ?_, ?_, ?_⟩
  · rw [hpmtags]
    exact htags
  · rw [hpmnamespace]
    exact hnamespace
  · rw [hid, hpmtags]
    exact hbuilt.message_id
  · rw [hsignature, hpmtags]
    exact hbuilt.signature

/-- A key that signs for `Ed25519.toy`. -/
def toyKey : SigningKey := ⟨1, fun _ => 7⟩

theorem toyKey_signs : toyKey.Signs Ed25519.toy := ⟨rfl, fun _ => rfl⟩

/-- A post with an address in capitals among its tags, into a namespace with blanks around it. -/
def taggedInput : PostMessageUserRequestInput where
  expires_height := 10
  visibility := "public".toList
  topic := none
  tags := ["news".toList, "0X".toList ++ List.replicate 40 'A']
  content_type := "text/plain".toList
  fee_amount := 0
  namespace_ := some " Blog ".toList
  fee_amount_lt := zero_lt_u128

theorem user_post_round_trips_of_taggedInput : ∃ request,
    build_signed_post_message_user_request Outside.toy toyKey [1, 2] taggedInput = .ok request ∧
    validate_post_message_user_signature Outside.toy Ed25519.toy [1, 2] request = .ok () := by
  obtain ⟨request, hrequest⟩ : ∃ request, build_signed_post_message_user_request Outside.toy toyKey
      [1, 2] taggedInput = .ok request := ⟨_, rfl⟩
  exact ⟨request, hrequest,
    (user_post_round_trips toyKey_signs hrequest .plain toyKey ⟨1⟩ 0 "small" 1000).1⟩

end eld_chain
