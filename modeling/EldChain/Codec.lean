-- The wire form of a transaction: the constructors of the nine payloads,
-- the JSON tree that serde writes for a value and the value it reads from
-- a tree. A payload names its type, but its fields decide how it is read:
-- the nine forms are tried in a fixed order and the first that fits is it.
import EldChain.Outside
import EldChain.SerdeJson

open json

namespace eld_chain

variable (o : Outside) (s : SerdeJson)

/-! ## Types of transactions -/

inductive TxType
  | Transfer | Unstake | Stake | VerifiedProof | RegisterCapacity | UnregisterCapacity
  | UpdateCapacityMerkleRoot | PostMessage | AddNamespace
deriving DecidableEq

def TxType.as_str : TxType → String
  | .Transfer => "Transfer"
  | .Unstake => "Unstake"
  | .Stake => "Stake"
  | .VerifiedProof => "VerifiedProof"
  | .RegisterCapacity => "RegisterCapacity"
  | .UnregisterCapacity => "UnregisterCapacity"
  | .UpdateCapacityMerkleRoot => "UpdateCapacityMerkleRoot"
  | .PostMessage => "PostMessage"
  | .AddNamespace => "AddNamespace"

def PayloadInner.tx_type : PayloadInner → TxType
  | .Transfer _ => .Transfer
  | .Unstake _ => .Unstake
  | .Stake _ => .Stake
  | .VerifiedProof _ => .VerifiedProof
  | .RegisterCapacity _ => .RegisterCapacity
  | .UnregisterCapacity _ => .UnregisterCapacity
  | .UpdateCapacityMerkleRoot _ => .UpdateCapacityMerkleRoot
  | .PostMessage _ => .PostMessage
  | .AddNamespace _ => .AddNamespace

/-- `Payload::new`. -/
def Payload.new (inner : PayloadInner) : Payload := ⟨key inner.tx_type.as_str, inner⟩

/-! ## Constructors -/

def TransferTx.new (sender recipient : Address) (amount : Nat) : Except EldError TransferTx :=
  if hne : sender = recipient then
    .error (.ValidationError "transfer transaction"
      ("sender: " ++ Address.hex_with_prefix sender ++ ", recipient: "
        ++ Address.hex_with_prefix recipient)
      "Sender and recipient cannot be the same")
  else if hmax : MAX_COIN < amount then
    .error (.ValidationError "transfer amount" (toString amount)
      "Invalid transfer amount (must be non-negative and within bounds)")
  else if hzero : amount = 0 then
    .error (.ValidationError "transfer amount" "0" "Transfer amount cannot be zero")
  else .ok ⟨sender, recipient, amount, hne, Nat.pos_of_ne_zero hzero, Nat.le_of_not_lt hmax⟩

def UnstakeTx.new (sender : Address) (amount : Nat) : Except EldError UnstakeTx :=
  if hzero : amount = 0 then
    .error (.ValidationError "unstake amount" (toString amount) "Unstake amount cannot be zero")
  else if hmax : MAX_COIN < amount then
    .error (.CoinError ("Amount " ++ toString amount ++ " exceeds maximum coin value "
      ++ toString MAX_COIN))
  else .ok ⟨sender, amount, Nat.pos_of_ne_zero hzero, Nat.le_of_not_lt hmax⟩

/-- The key of a stake: 64 hex characters, or none. -/
def isStakeKey (public_key : Option Text) : Prop :=
  ∀ pk ∈ public_key, utf8Len pk = 64 ∧ ∀ c ∈ pk, (hexVal c).isSome

theorem isStakeKey.hex {public_key : Option Text} (h : isStakeKey public_key) :
    ∀ pk ∈ public_key, pk.length = 64 ∧ ∀ c ∈ pk, (hexVal c).isSome := by
  intro pk hpk
  obtain ⟨hlen, hhex⟩ := h pk hpk
  exact ⟨by rw [← utf8Len_of_hex hhex, hlen], hhex⟩

/-- What `stake_validate_public_key` says of a key that is not valid. -/
def stakeKeyError (pk : Text) : EldError :=
  if utf8Len pk ≠ 64 then
    .ValidationError "public key" (String.ofList pk)
      ("Public key must be 64 hex characters, got " ++ toString (utf8Len pk) ++ " characters")
  else .ValidationError "public key" (String.ofList pk) "Public key must be valid hex"

instance (public_key : Option Text) : Decidable (isStakeKey public_key) :=
  inferInstanceAs (Decidable (∀ pk ∈ public_key, utf8Len pk = 64 ∧ ∀ c ∈ pk, (hexVal c).isSome))

def StakeTx.new (sender : Address) (amount : Nat) (public_key : Option Text) :
    Except EldError StakeTx :=
  if hzero : amount = 0 then
    .error (.ValidationError "stake amount" (toString amount) "Stake amount cannot be zero")
  else if hmax : MAX_COIN < amount then
    .error (.CoinError ("Amount " ++ toString amount ++ " exceeds maximum coin value "
      ++ toString MAX_COIN))
  else if hkey : isStakeKey public_key then
    .ok ⟨sender, amount, public_key, Nat.pos_of_ne_zero hzero, Nat.le_of_not_lt hmax, hkey.hex⟩
  else .error (stakeKeyError (public_key.getD []))

def RegisterCapacityTx.new (sender : Address) (capacity_bytes : UInt64) (merkle_root seed : Bytes32)
    (chunk_count : UInt32) : Except EldError RegisterCapacityTx :=
  if hzero : capacity_bytes = 0 then
    .error (.ValidationError "capacity_bytes" "0"
      "RegisterCapacity capacity_bytes must be greater than zero")
  else .ok ⟨sender, capacity_bytes, merkle_root, seed, chunk_count, hzero⟩

def UnregisterCapacityTx.new (sender : Address) (unregister : Bool) :
    Except EldError UnregisterCapacityTx :=
  if htrue : unregister = true then .ok ⟨sender, unregister, htrue⟩
  else .error (.ValidationError "unregister" "false"
    "UnregisterCapacity transaction 'unregister' field must be true")

def UpdateCapacityMerkleRootTx.new (sender : Address) (merkle_root : Bytes32) :
    Except EldError UpdateCapacityMerkleRootTx :=
  .ok ⟨sender, merkle_root⟩

/-- What the wire of a message holds. -/
structure PostMessageTxUnchecked where
  sender : Address
  original_signer : Address
  original_signer_pubkey : Text
  content_key : Text
  message_id : Text
  expires_height : UInt64
  visibility : Text
  topic : Option Text
  tags : List Text
  content_type : Text
  fee_amount : Nat
  received_timestamp : UInt64
  user_signature : Text
  namespace_ : Option Text
  fee_amount_lt : fee_amount < 2 ^ 128

/-- `PostMessageTx::new`: the tags and the namespace take their canonical forms. -/
def PostMessageTx.new (u : PostMessageTxUnchecked) : Except EldError PostMessageTx :=
  match htype : validate_post_message_content_type u.content_type with
  | .error e => .error e
  | .ok () =>
    match htags : canonicalize_post_message_tags u.tags with
    | .error e => .error e
    | .ok tags =>
      match hname : resolve_optional_namespace u.namespace_ with
      | .error e => .error e
      | .ok namespace_ =>
        .ok ⟨u.sender, u.original_signer, u.original_signer_pubkey, u.content_key, u.message_id,
          u.expires_height, u.visibility, u.topic, tags, u.content_type, u.fee_amount,
          u.received_timestamp, u.user_signature, namespace_, u.fee_amount_lt, htype,
          canonicalize_tags_fixed htags, resolve_namespace_fixed hname⟩

theorem normalize_slug_valid {input canonical : Text}
    (h : normalize_namespace_slug input = .ok canonical) :
    validate_namespace_slug canonical = .ok () := by
  unfold normalize_namespace_slug at h
  simp only at h
  split at h
  · cases h
  · rename_i hvalid
    cases h
    exact hvalid

/-- `AddNamespaceTx::new`: the slug takes its canonical form. -/
def AddNamespaceTx.new (sender : Address) (namespace_slug : Text) (registration_fee : Nat) :
    Except EldError AddNamespaceTx :=
  match hslug : normalize_namespace_slug namespace_slug with
  | .error e => .error e
  | .ok canonical =>
    if hres : is_reserved_namespace_slug canonical = true then
      .error (.ValidationError "namespace_slug" (String.ofList canonical)
        "Namespace slug is reserved")
    else if hzero : registration_fee = 0 then
      .error (.ValidationError "registration_fee" (toString registration_fee)
        "registration_fee must be greater than zero")
    else if hmax : MAX_COIN < registration_fee then
      .error (.CoinError ("Amount " ++ toString registration_fee
        ++ " exceeds maximum coin value " ++ toString MAX_COIN))
    else .ok ⟨sender, canonical, registration_fee,
      ⟨normalize_slug_valid hslug, Bool.not_eq_true _ ▸ hres⟩, Nat.pos_of_ne_zero hzero,
      Nat.le_of_not_lt hmax⟩

/-- What the wire of a verified proof holds. -/
structure VerifiedProofTxUnchecked where
  sender : Address
  capacity_provider : Address
  challenge_id : Text
  block_height : I64
  verified_at_block : I64
  verified_at_timestamp : UInt64
  proofs : List ChunkProof
  generated_at : UInt64
  provider_pubkey : Text
  provider_signature : Text
  failed : Bool

def inTimestampRange (t : UInt64) : Prop := MIN_TIMESTAMP ≤ t ∧ t ≤ MAX_TIMESTAMP

instance (t : UInt64) : Decidable (inTimestampRange t) :=
  inferInstanceAs (Decidable (MIN_TIMESTAMP ≤ t ∧ t ≤ MAX_TIMESTAMP))

def timestampError (field subject : String) (t : UInt64) : EldError :=
  .ValidationError field (toString t) (subject ++ " must be between " ++ toString MIN_TIMESTAMP
    ++ " and " ++ toString MAX_TIMESTAMP)

/-- `VerifiedProofTx::new`, with the `failed` flag that decoding sets after it. -/
def VerifiedProofTx.new (u : VerifiedProofTxUnchecked) : Except EldError VerifiedProofTx :=
  match hid : validate_verified_proof_challenge_id u.challenge_id with
  | .error e => .error e
  | .ok () =>
    if hheight : u.block_height.val ≤ 0 then
      .error (.ValidationError "block_height" (toString u.block_height.val)
        "Block height must be positive")
    else if u.verified_at_block.val ≤ 0 then
      .error (.ValidationError "verified_at_block" (toString u.verified_at_block.val)
        "Verified at block must be positive")
    else if hafter : u.verified_at_block.val < u.block_height.val then
      .error (.ValidationError "verified_at_block" (toString u.verified_at_block.val)
        "Verified at block must be >= challenge block height")
    else if hverified : ¬ inTimestampRange u.verified_at_timestamp then
      .error (timestampError "verified_at_timestamp" "Verified at timestamp"
        u.verified_at_timestamp)
    else if hproofs : u.proofs = [] then
      .error (.ValidationError "proofs" "[]" "VerifiedProof proofs must be non-empty")
    else if hgenerated : ¬ inTimestampRange u.generated_at then
      .error (timestampError "generated_at" "generated_at" u.generated_at)
    else if hpubkey : u.provider_pubkey = [] then
      .error (.ValidationError "provider_pubkey" (String.ofList u.provider_pubkey)
        "provider_pubkey must be non-empty hex")
    else if hsignature : u.provider_signature = [] then
      .error (.ValidationError "provider_signature" (String.ofList u.provider_signature)
        "provider_signature must be non-empty hex")
    else .ok ⟨u.sender, u.capacity_provider, u.challenge_id, u.block_height, u.verified_at_block,
      u.verified_at_timestamp, u.proofs, u.generated_at, u.provider_pubkey, u.provider_signature,
      u.failed, hid, Int.not_le.mp hheight, Int.not_lt.mp hafter, Decidable.not_not.mp hverified,
      hproofs, Decidable.not_not.mp hgenerated, hpubkey, hsignature⟩

/-! ## The wire forms of single values -/

/-- `hex::decode` of so many bytes, without a prefix. -/
def isHexOf (bytes : Nat) (t : Text) : Bool :=
  t.length == 2 * bytes && t.all (fun c => (hexVal c).isSome)

def addressJson (a : Address) : Json := .str (Address.text a)

def asAddress : Json → Option Address
  | .str t => (decode_fixed_hex 20 t "address").toOption
  | _ => none

/-- `tx_amount_string` and `u128_string`. -/
def amountJson (n : Nat) : Json := .str (Nat.toDigits 10 n)

def asAmount : Json → Option Nat
  | .str t => parse_u128 t
  | _ => none

/-- `hex_vec_u8_32`. -/
def hex32Json (b : Bytes32) : Json := .str (hexDigits 64 b.toNat)

def asHex32 : Json → Option Bytes32
  | .str t => if isHexOf 32 t then (hexNumber t).map (BitVec.ofNat 256) else none
  | _ => none

def bytesJson (b : Bytes) : Json := .arr (b.map (fun x => .int x.toNat))

def asBytes (j : Json) : Option Bytes :=
  (asSeq (asUnsigned 8) j).map (fun l => l.map UInt8.ofNat)

/-- `[u8; 32]`. -/
def bytes32Json (b : Bytes32) : Json := bytesJson (beBytes 32 b.toNat)

def asBytes32 (j : Json) : Option Bytes32 :=
  match asBytes j with
  | none => none
  | some b => if b.length = 32 then some (BitVec.ofNat 256 (ofBeBytes b)) else none

def optionJson (t : Option Text) : Json :=
  match t with
  | none => .null
  | some t => .str t

/-- `TxSig`: 64 bytes of hex, or empty. -/
def asTxSig : Json → Option Text
  | .str t => if t = [] ∨ isHexOf 64 t then some t else none
  | _ => none

/-- `TxPublicKey`: 32 bytes of hex that are a point of the curve. -/
def asTxPublicKey : Json → Option Text
  | .str t => if isHexOf 32 t ∧ (o.verifying_key t).isSome then some t else none
  | _ => none

def asUInt64 (j : Json) : Option UInt64 := (asUnsigned 64 j).map UInt64.ofNat

def asUInt32 (j : Json) : Option UInt32 := (asUnsigned 32 j).map UInt32.ofNat

/-! ## Structs -/

/-- The members of a struct. In an array they stand in the order of the declaration. -/
def structMembers (names : List String) : Json → Option Members
  | .obj members => some members
  | .arr items => if items.length = names.length then some ((names.map key).zip items) else none
  | _ => none

def SlotState.json : SlotState → Json
  | .Proof => .str (key "Proof")
  | .Open => .str (key "Open")
  | .Content deal_id committed_hash =>
    .obj [(key "Content", .obj [(key "deal_id", .str deal_id),
      (key "committed_hash", bytes32Json committed_hash)])]

/-- The fields of `SlotState::Content`. -/
def SlotState.decodeContent (j : Json) : Option SlotState := do
  let members ← structMembers ["deal_id", "committed_hash"] j
  let deal_id ← required asStr members "deal_id"
  let committed_hash ← required asBytes32 members "committed_hash"
  some (.Content deal_id committed_hash)

def asUnit : Json → Option Unit
  | .null => some ()
  | _ => none

/-- An enum is its variant's name, or an object of one member. -/
def SlotState.decode : Json → Option SlotState
  | .str name =>
    if name = key "Proof" then some .Proof else if name = key "Open" then some .Open else none
  | .obj [(name, j)] =>
    if name = key "Proof" then (asUnit j).map (fun _ => .Proof)
    else if name = key "Open" then (asUnit j).map (fun _ => .Open)
    else if name = key "Content" then SlotState.decodeContent j
    else none
  | _ => none

def ChunkProof.json (p : ChunkProof) : Json :=
  .obj [(key "chunk_index", .int p.chunk_index), (key "chunk_data", bytesJson p.chunk_data),
    (key "chunk_hash", bytes32Json p.chunk_hash),
    (key "merkle_proof", .arr (p.merkle_proof.map bytes32Json)),
    (key "slot_state", p.slot_state.json)]

theorem asUnsigned_lt {bits n : Nat} {j : Json} (h : asUnsigned bits j = some n) : n < 2 ^ bits := by
  unfold asUnsigned at h
  split at h
  · split at h
    · rename_i hlt
      cases h
      exact hlt.2
    · cases h
  · cases h

/-- A `usize`, with its bound. -/
def asIndex (j : Json) : Option { n : Nat // n < 2 ^ 64 } :=
  match h : asUnsigned 64 j with
  | none => none
  | some n => some ⟨n, asUnsigned_lt h⟩

def ChunkProof.decode (j : Json) : Option ChunkProof := do
  let members ← structMembers
    ["chunk_index", "chunk_data", "chunk_hash", "merkle_proof", "slot_state"] j
  let chunk_index ← required asIndex members "chunk_index"
  let chunk_data ← required asBytes members "chunk_data"
  let chunk_hash ← required asBytes32 members "chunk_hash"
  let merkle_proof ← required (asSeq asBytes32) members "merkle_proof"
  let slot_state ← required SlotState.decode members "slot_state"
  some ⟨chunk_index.val, chunk_data, chunk_hash, merkle_proof, slot_state, chunk_index.property⟩

/-! ## The payloads -/

def PayloadInner.members : PayloadInner → Members
  | .Transfer tx => [(key "sender", addressJson tx.sender),
      (key "recipient", addressJson tx.recipient), (key "amount", amountJson tx.amount)]
  | .Unstake tx => [(key "sender", addressJson tx.sender), (key "amount", amountJson tx.amount)]
  | .Stake tx => [(key "sender", addressJson tx.sender), (key "amount", amountJson tx.amount),
      (key "public_key", optionJson tx.public_key)]
  | .VerifiedProof tx => [(key "sender", addressJson tx.sender),
      (key "capacity_provider", addressJson tx.capacity_provider),
      (key "challenge_id", .str tx.challenge_id), (key "block_height", .int tx.block_height.val),
      (key "verified_at_block", .int tx.verified_at_block.val),
      (key "verified_at_timestamp", .int tx.verified_at_timestamp.toNat),
      (key "proofs", .arr (tx.proofs.map ChunkProof.json)),
      (key "generated_at", .int tx.generated_at.toNat),
      (key "provider_pubkey", .str tx.provider_pubkey),
      (key "provider_signature", .str tx.provider_signature), (key "failed", .bool tx.failed)]
  | .RegisterCapacity tx => [(key "sender", addressJson tx.sender),
      (key "capacity_bytes", .int tx.capacity_bytes.toNat),
      (key "merkle_root", hex32Json tx.merkle_root), (key "seed", hex32Json tx.seed),
      (key "chunk_count", .int tx.chunk_count.toNat)]
  | .UnregisterCapacity tx => [(key "sender", addressJson tx.sender),
      (key "unregister", .bool tx.unregister)]
  | .UpdateCapacityMerkleRoot tx => [(key "sender", addressJson tx.sender),
      (key "merkle_root", hex32Json tx.merkle_root)]
  | .PostMessage tx => [(key "sender", addressJson tx.sender),
      (key "original_signer", addressJson tx.original_signer),
      (key "original_signer_pubkey", .str tx.original_signer_pubkey),
      (key "content_key", .str tx.content_key), (key "message_id", .str tx.message_id),
      (key "expires_height", .int tx.expires_height.toNat), (key "visibility", .str tx.visibility),
      (key "topic", optionJson tx.topic), (key "tags", .arr (tx.tags.map Json.str)),
      (key "content_type", .str tx.content_type), (key "fee_amount", amountJson tx.fee_amount),
      (key "received_timestamp", .int tx.received_timestamp.toNat),
      (key "user_signature", .str tx.user_signature), (key "namespace", optionJson tx.namespace_)]
  | .AddNamespace tx => [(key "sender", addressJson tx.sender),
      (key "namespace_slug", .str tx.namespace_slug),
      (key "registration_fee", amountJson tx.registration_fee)]

def TransferTx.decode (members : Members) : Option TransferTx := do
  let sender ← required asAddress members "sender"
  let recipient ← required asAddress members "recipient"
  let amount ← required asAmount members "amount"
  (TransferTx.new sender recipient amount).toOption

/-- Unknown fields are denied, so that a stake with a key is not read as an unstake. -/
def UnstakeTx.decode (members : Members) : Option UnstakeTx := do
  guard (onlyFields ["sender", "amount"] members)
  let sender ← required asAddress members "sender"
  let amount ← required asAmount members "amount"
  (UnstakeTx.new sender amount).toOption

def StakeTx.decode (members : Members) : Option StakeTx := do
  let sender ← required asAddress members "sender"
  let amount ← required asAmount members "amount"
  let public_key ← defaulted none (asOption asStr) members "public_key"
  (StakeTx.new sender amount public_key).toOption

def VerifiedProofTx.decode (members : Members) : Option VerifiedProofTx := do
  let sender ← required asAddress members "sender"
  let capacity_provider ← required asAddress members "capacity_provider"
  let challenge_id ← required asStr members "challenge_id"
  let block_height ← required asI64 members "block_height"
  let verified_at_block ← required asI64 members "verified_at_block"
  let verified_at_timestamp ← required asUInt64 members "verified_at_timestamp"
  let proofs ← required (asSeq ChunkProof.decode) members "proofs"
  let generated_at ← required asUInt64 members "generated_at"
  let provider_pubkey ← required asStr members "provider_pubkey"
  let provider_signature ← required asStr members "provider_signature"
  let failed ← defaulted false asBool members "failed"
  (VerifiedProofTx.new ⟨sender, capacity_provider, challenge_id, block_height, verified_at_block,
    verified_at_timestamp, proofs, generated_at, provider_pubkey, provider_signature,
    failed⟩).toOption

def RegisterCapacityTx.decode (members : Members) : Option RegisterCapacityTx := do
  let sender ← required asAddress members "sender"
  let capacity_bytes ← required asUInt64 members "capacity_bytes"
  let merkle_root ← required asHex32 members "merkle_root"
  let seed ← required asHex32 members "seed"
  let chunk_count ← required asUInt32 members "chunk_count"
  (RegisterCapacityTx.new sender capacity_bytes merkle_root seed chunk_count).toOption

/-- `deny_unknown_fields` stands on the checked struct only, so unknown fields pass. -/
def UnregisterCapacityTx.decode (members : Members) : Option UnregisterCapacityTx := do
  let sender ← required asAddress members "sender"
  let unregister ← required asBool members "unregister"
  (UnregisterCapacityTx.new sender unregister).toOption

def UpdateCapacityMerkleRootTx.decode (members : Members) : Option UpdateCapacityMerkleRootTx := do
  let sender ← required asAddress members "sender"
  let merkle_root ← required asHex32 members "merkle_root"
  (UpdateCapacityMerkleRootTx.new sender merkle_root).toOption

theorem parse_u128_lt {t : Text} {n : Nat} (h : parse_u128 t = some n) : n < 2 ^ 128 := by
  unfold parse_u128 at h
  generalize (if t.head? = some '+' then t.tail else t) = digits at h
  simp only at h
  split at h
  · rename_i hlt
    cases h
    exact hlt.2.2
  · cases h

/-- A `u128` written as a string, with its bound. -/
def asBoundedAmount (j : Json) : Option { n : Nat // n < 2 ^ 128 } :=
  match j with
  | .str t =>
    match h : parse_u128 t with
    | none => none
    | some n => some ⟨n, parse_u128_lt h⟩
  | _ => none

def PostMessageTx.decode (members : Members) : Option PostMessageTx := do
  let sender ← required asAddress members "sender"
  let original_signer ← required asAddress members "original_signer"
  let original_signer_pubkey ← required asStr members "original_signer_pubkey"
  let content_key ← required asStr members "content_key"
  let message_id ← required asStr members "message_id"
  let expires_height ← required asUInt64 members "expires_height"
  let visibility ← required asStr members "visibility"
  let topic ← defaulted none (asOption asStr) members "topic"
  let tags ← defaulted [] (asSeq asStr) members "tags"
  let content_type ← required asStr members "content_type"
  let fee_amount ← required asBoundedAmount members "fee_amount"
  let received_timestamp ← required asUInt64 members "received_timestamp"
  let user_signature ← required asStr members "user_signature"
  let namespace_ ← defaulted none (asOption asStr) members "namespace"
  (PostMessageTx.new ⟨sender, original_signer, original_signer_pubkey, content_key, message_id,
    expires_height, visibility, topic, tags, content_type, fee_amount.val, received_timestamp,
    user_signature, namespace_, fee_amount.property⟩).toOption

def AddNamespaceTx.decode (members : Members) : Option AddNamespaceTx := do
  guard (onlyFields ["sender", "namespace_slug", "registration_fee"] members)
  let sender ← required asAddress members "sender"
  let namespace_slug ← required asStr members "namespace_slug"
  let registration_fee ← required asAmount members "registration_fee"
  (AddNamespaceTx.new sender namespace_slug registration_fee).toOption

/-- One variant of the untagged enum. -/
def PayloadInner.decodeAs (members : Members) : TxType → Option PayloadInner
  | .Transfer => (TransferTx.decode members).map .Transfer
  | .Unstake => (UnstakeTx.decode members).map .Unstake
  | .Stake => (StakeTx.decode members).map .Stake
  | .VerifiedProof => (VerifiedProofTx.decode members).map .VerifiedProof
  | .RegisterCapacity => (RegisterCapacityTx.decode members).map .RegisterCapacity
  | .UnregisterCapacity => (UnregisterCapacityTx.decode members).map .UnregisterCapacity
  | .UpdateCapacityMerkleRoot =>
    (UpdateCapacityMerkleRootTx.decode members).map .UpdateCapacityMerkleRoot
  | .PostMessage => (PostMessageTx.decode members).map .PostMessage
  | .AddNamespace => (AddNamespaceTx.decode members).map .AddNamespace

/-- The order in which the variants are tried. -/
def TxType.order : List TxType :=
  [.Transfer, .Unstake, .Stake, .VerifiedProof, .RegisterCapacity, .UnregisterCapacity,
    .UpdateCapacityMerkleRoot, .PostMessage, .AddNamespace]

/-- The first variant whose fields fit. -/
def PayloadInner.decode (members : Members) : Option PayloadInner :=
  TxType.order.findSome? (PayloadInner.decodeAs members)

/-! ## Transactions -/

def Payload.json (p : Payload) : Json := .obj ((key "type", .str p.type_) :: p.inner.members)

def Tx.json (tx : Tx) : Json :=
  .obj [(key "sig", .str tx.sig), (key "nonce", .int tx.nonce.value.toNat),
    (key "payload", tx.payload.json), (key "public_key", .str tx.public_key),
    (key "fee", .int tx.fee)]

/-- `serde_json::to_string`. -/
def Tx.to_string (tx : Tx) : Text := tx.json.compact

/-- A transaction as a client makes it: a payload of a constructor, the key and the fee, and
a signature over them. -/
structure BuiltTx where
  inner : PayloadInner
  nonce : Nonce
  public_key : Text
  fee : Nat
  signature : BitVec 512
  key_hex : isHexOf 32 public_key = true
  key_valid : (o.verifying_key public_key).isSome = true
  fee_lt : fee < 2 ^ 128

/-- `Tx::new`, the fee set, and `Tx::sign`. -/
def BuiltTx.tx (b : BuiltTx o) : Tx :=
  ⟨hexDigits 128 b.signature.toNat, b.nonce, Payload.new b.inner, b.public_key, b.fee⟩

/-- The members that are left for the flattened enum. -/
def innerMembers (members : Members) : Members := members.filter (fun m => m.1 ≠ key "type")

/-- A flattened struct is read from an object only, and every member of it is built. -/
def Payload.decode : Json → Option Payload
  | .obj members => do
    guard ((Json.obj members).depth < RECURSION_LIMIT)
    guard (s.value (.obj members)).isSome
    let type_ ← required asStr members "type"
    let inner ← PayloadInner.decode (innerMembers members)
    some ⟨type_, inner⟩
  | _ => none

/-- Unknown fields of the envelope are skipped without building them. -/
def Tx.decode (j : Json) : Option Tx := do
  let members ← structMembers ["sig", "nonce", "payload", "public_key", "fee"] j
  let sig ← required asTxSig members "sig"
  let nonce ← required asUInt32 members "nonce"
  let payload ← required (Payload.decode s) members "payload"
  let public_key ← required (asTxPublicKey o) members "public_key"
  let fee ← required (asUnsigned 128) members "fee"
  some ⟨sig, ⟨nonce⟩, payload, public_key, fee⟩

/-- A transaction whose signature, key and fee are ones that the wire types hold: the only
ones that a decoded transaction can have. -/
structure Tx.Readable (tx : Tx) : Prop where
  sig : asTxSig (.str tx.sig) = some tx.sig
  public_key : asTxPublicKey o (.str tx.public_key) = some tx.public_key
  fee_lt : tx.fee < 2 ^ 128

/-- `serde_json::from_str::<Tx>`. -/
def SerdeJson.from_str_tx (text : Text) : Except String Tx :=
  match (s.tree text).bind (Tx.decode o s) with
  | none => .error (s.tx_error text)
  | some tx => .ok tx

end eld_chain
