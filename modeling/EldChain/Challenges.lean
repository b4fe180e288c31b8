-- Capacity challenges: the ids and chunk indices that every node can
-- recompute, the challenges that the selected validator issues when an
-- epoch opens, and the gates that a VerifiedProof transaction passes
-- before it mints a reward or counts a failure.
import EldChain.Processors

open Std

namespace eld_chain

variable (o : Outside) (pc : ProtocolConstants) (st : Storage)

/-! ## Challenge ids -/

abbrev ChallengeId := Bytes32

def ChallengeId.parse_hex (s : Text) : Except EldError ChallengeId :=
  decode_fixed_hex 32 s "challenge ID"

def ChallengeId.to_hex (id : ChallengeId) : Text := hexDigits 64 id.toNat

/-- Two ids are never written alike. -/
theorem ChallengeId.to_hex_inj {id id' : ChallengeId} (h : id.to_hex = ChallengeId.to_hex id') :
    id = id' := BitVec.eq_of_toNat_eq (hexDigits_inj id.isLt id'.isLt h)

def CHALLENGE_CHUNK_SELECTION_DOMAIN : Bytes := Text.bytes "CHALLENGE_CHUNK_SELECTION".toList

/-- The seed of the chunk selection. -/
def chunkSelectionSeed (epoch : I64) (provider_id : Address) (block_height : I64)
    (validator_address : Address) : Bytes32 :=
  o.sha256 (CHALLENGE_CHUNK_SELECTION_DOMAIN ++ beBytes 8 (i64Bits epoch.val)
    ++ Text.bytes (Address.text provider_id) ++ beBytes 8 (i64Bits block_height.val)
    ++ Text.bytes (Address.text validator_address))

def select_challenge_chunk_indices (epoch : I64) (provider_id : Address) (block_height : I64)
    (validator_address : Address) (chunk_count : UInt32) (chunks_per_challenge : Nat) : List Nat :=
  if chunk_count = 0 then []
  else
    let seed := chunkSelectionSeed o epoch provider_id block_height validator_address
    (o.shuffle seed [] (List.range chunk_count.toNat)).take
      (min chunks_per_challenge chunk_count.toNat)

def compute_challenge_id (validator_address provider_id : Address) (block_height : I64)
    (chunk_indices : List Nat) : ChallengeId :=
  o.sha256 (Text.bytes (Address.text validator_address) ++ Text.bytes (Address.text provider_id)
    ++ beBytes 8 (i64Bits block_height.val) ++ chunk_indices.flatMap (beBytes 8))

/-! ## Issuing challenges -/

/-- `SyncMsg::CapacityChallenge`, less its wall-clock fields. -/
structure CapacityChallenge where
  challenge_id : Text
  challenger : Address
  provider_id : Address
  chunk_indices : List Nat
  block_height : I64
  merkle_root : Bytes32
  seed : Bytes32
deriving DecidableEq

/-- What the issuer knows of a challenged provider. -/
structure ChallengedCapacityProviderData where
  provider_id : Address
  merkle_root : Option Bytes32
  seed : Option Bytes32
  chunk_count : Option UInt32
deriving DecidableEq

def build_challenged_capacity_provider_data (e : AppStateEnvelope) (ids : List Address) :
    List ChallengedCapacityProviderData :=
  ids.filterMap (fun id =>
    (e.capacity_validators.find? (fun cp => cp.address == id)).map
      (fun cp => ⟨id, cp.merkle_root, cp.seed, cp.chunk_count⟩))

/-- The challenges that are published, in order. A provider with no root or no seed ends
the loop with an error, and a provider with no chunks is skipped. -/
def generate_challenges_internal (epoch block_height : I64) (validator_address : Address) :
    List ChallengedCapacityProviderData → List CapacityChallenge
  | [] => []
  | p :: rest =>
    match p.merkle_root, p.seed with
    | some merkle_root, some seed =>
      let chunk_count := p.chunk_count.getD 0
      if chunk_count = 0 then
        generate_challenges_internal epoch block_height validator_address rest
      else
        let chunk_indices := select_challenge_chunk_indices o epoch p.provider_id block_height
          validator_address chunk_count pc.chunks_per_challenge
        let challenge_id :=
          compute_challenge_id o validator_address p.provider_id block_height chunk_indices
        ⟨ChallengeId.to_hex challenge_id, validator_address, p.provider_id, chunk_indices,
          block_height, merkle_root, seed⟩ ::
          generate_challenges_internal epoch block_height validator_address rest
    | _, _ => []

/-! ## Binding a proof to an epoch record -/

structure VerifiedProofBinding where
  challenged_provider_id : Address
  validator_address : Address
  expected_merkle_root : Bytes32
  expected_indices : List Nat
  expected_challenge_id : ChallengeId

/-- The epoch of a block height. -/
def epochOf (block_height : I64) : I64 := block_height.div pc.blocks_per_epoch.val pc.blocks_pos

def proof_epoch_in_window (block_height current_epoch : I64) : Except String I64 :=
  if block_height.val ≤ 0 then .error "VerifiedProof rejected: block_height must be positive"
  else if current_epoch.val < 0 then .error "VerifiedProof rejected: current epoch is invalid"
  else
    let proof_epoch := epochOf pc block_height
    if proof_epoch.val = current_epoch.val ∨
        (0 < current_epoch.val ∧ proof_epoch.val = current_epoch.val - 1) then .ok proof_epoch
    else if current_epoch.val < proof_epoch.val then
      .error ("VerifiedProof rejected: proof epoch " ++ toString proof_epoch.val
        ++ " is after current epoch " ++ toString current_epoch.val)
    else
      .error ("VerifiedProof rejected: proof epoch " ++ toString proof_epoch.val
        ++ " is older than the previous epoch (current " ++ toString current_epoch.val ++ ")")

/-- Gate 4: the id must be the one recomputed from the frozen inputs. -/
def checkChallengeId (active : ActiveCapacityValidator) (provider : Address) (challenge_id : Text)
    (block_height : I64) (chunk_count : UInt32) (merkle_root : Bytes32) :
    Except String VerifiedProofBinding :=
  let expected_indices := select_challenge_chunk_indices o active.epoch provider block_height
    active.validator_address chunk_count pc.chunks_per_challenge
  match ChallengeId.parse_hex challenge_id with
  | .error err => .error ("VerifiedProof rejected: invalid challenge_id hex: " ++ err.to_string)
  | .ok parsed =>
    let expected :=
      compute_challenge_id o active.validator_address provider block_height expected_indices
    if parsed ≠ expected then
      .error ("VerifiedProof rejected: challenge_id mismatch (got " ++ String.ofList challenge_id
        ++ ", expected " ++ String.ofList (ChallengeId.to_hex expected) ++ ")")
    else .ok ⟨provider, active.validator_address, merkle_root, expected_indices, expected⟩

/-- Gates 2 and 3: the provider was challenged, with the root and the chunk count that the
record froze. -/
def checkProvider (record : EpochRecord) (active : ActiveCapacityValidator) (provider : Address)
    (challenge_id : Text) (block_height : I64) : Except String VerifiedProofBinding :=
  let name := Address.hex_with_prefix provider
  if provider ∉ active.challenged_providers then
    .error ("VerifiedProof rejected: capacity_provider " ++ name
      ++ " is not in challenged_providers")
  else
    match record.challenged_capacity_validators.find? (fun p => p.address == provider) with
    | none => .error ("VerifiedProof rejected: capacity_provider " ++ name ++ " not in epoch "
        ++ toString (epochOf pc block_height).val ++ " challenged_capacity_validators")
    | some info =>
      let chunk_count := info.chunk_count.getD 0
      if chunk_count = 0 then
        .error ("VerifiedProof rejected: capacity_provider " ++ name ++ " has no chunk_count")
      else
        match info.merkle_root with
        | none =>
          .error ("VerifiedProof rejected: capacity_provider " ++ name ++ " has no merkle_root")
        | some merkle_root =>
          checkChallengeId o pc active provider challenge_id block_height chunk_count merkle_root

/-- Gates 1 to 4 against one epoch record. The block height is only read for its epoch and
as an input of the id. -/
def validate_verified_proof_binding (record : EpochRecord) (sender provider : Address)
    (challenge_id : Text) (block_height : I64) : Except String VerifiedProofBinding :=
  let proof_epoch := epochOf pc block_height
  if record.epoch ≠ proof_epoch then
    .error ("VerifiedProof rejected: epoch record " ++ toString record.epoch.val
      ++ " does not match proof epoch " ++ toString proof_epoch.val)
  else
    match record.active_capacity_validator with
    | none => .error ("VerifiedProof rejected: no active_capacity_validator for epoch "
        ++ toString proof_epoch.val)
    | some active =>
      if active.epoch ≠ proof_epoch then
        .error ("VerifiedProof rejected: active capacity validator epoch "
          ++ toString active.epoch.val ++ " does not match proof epoch "
          ++ toString proof_epoch.val)
      else if sender ≠ active.validator_address then
        .error ("VerifiedProof rejected: sender " ++ Address.hex_with_prefix sender
          ++ " is not active_capacity_validator "
          ++ Address.hex_with_prefix active.validator_address)
      else checkProvider o pc record active provider challenge_id block_height

def bind_verified_proof (epoch_record : Option EpochRecord) (current_epoch : I64)
    (sender provider : Address) (challenge_id : Text) (block_height : I64) :
    Except String VerifiedProofBinding :=
  match proof_epoch_in_window pc block_height current_epoch with
  | .error err => .error err
  | .ok proof_epoch =>
    match epoch_record with
    | none => .error ("VerifiedProof rejected: no epoch record for epoch "
        ++ toString proof_epoch.val)
    | some record =>
      validate_verified_proof_binding o pc record sender provider challenge_id block_height

/-! ## Judging a proof -/

def hash_chunk (chunk_data : Bytes) : Bytes32 :=
  o.sha256 (Text.bytes "CHUNK_HASH".toList ++ chunk_data)

def hash_pair (left right : Bytes32) : Bytes32 :=
  o.blake3 (Text.bytes "Merkle".toList ++ beBytes 32 left.toNat ++ beBytes 32 right.toNat)

/-- The hash at the top of a Merkle path. -/
def pathTop : Bytes32 → Nat → List Bytes32 → Bytes32
  | current, _, [] => current
  | current, index, sibling :: rest =>
    pathTop (if index % 2 = 0 then hash_pair o current sibling else hash_pair o sibling current)
      (index / 2) rest

def verify_proof (leaf_hash : Bytes32) (proof : List Bytes32) (root : Bytes32) (leaf_index : Nat) :
    Bool := pathTop o leaf_hash leaf_index proof == root

/-- The error of the `i`th proof, if it has one. -/
def chunkProofError (root : Bytes32) (i : Nat) (proof : ChunkProof) (expected_index : Nat) :
    Option String :=
  if proof.chunk_index ≠ expected_index then
    some ("Proof " ++ toString i ++ ": chunk index mismatch: expected " ++ toString expected_index
      ++ ", got " ++ toString proof.chunk_index)
  else if hash_chunk o proof.chunk_data ≠ proof.chunk_hash then
    some ("Proof " ++ toString i ++ ": chunk hash mismatch for chunk "
      ++ toString proof.chunk_index)
  else if !verify_proof o proof.chunk_hash proof.merkle_proof root proof.chunk_index then
    some ("Proof " ++ toString i ++ ": Merkle proof verification failed for chunk "
      ++ toString proof.chunk_index)
  else if proof.slot_state = .Open ∧ !proof.chunk_data.all (· == 0) then
    some ("Proof " ++ toString i ++ ": Open slot chunk " ++ toString proof.chunk_index
      ++ " contains non-zero data")
  else none

/-- The errors of `validate_challenge_proof`: the proof is valid when there are none. -/
def validate_challenge_proof (proofs : List ChunkProof) (root : Bytes32) (indices : List Nat) :
    List String :=
  if proofs.length ≠ indices.length then
    ["Proof count mismatch: expected " ++ toString indices.length ++ ", got "
      ++ toString proofs.length]
  else
    ((proofs.zip indices).zipIdx).filterMap (fun q => chunkProofError o root q.2 q.1.1 q.1.2)

def verify_capacity_challenge_response (tx : VerifiedProofTx) (provider_id challenger : Address) :
    Except String Unit :=
  if tx.provider_pubkey = [] ∨ tx.provider_signature = [] then
    .error "capacity challenge response missing provider signature"
  else
    match o.verifying_key tx.provider_pubkey with
    | none => .error "invalid provider_pubkey"
    | some key =>
      if o.address_of_key key ≠ provider_id then
        .error "provider_id does not match provider_pubkey"
      else if o.response_signature_valid tx.challenge_id provider_id challenger tx.block_height
          tx.proofs tx.generated_at tx.provider_pubkey tx.provider_signature then .ok ()
      else .error "provider signature verification failed"

/-! ## The outcome of a proof -/

/-- Counts a failure. At the limit it burns the provider's stake and resets the count. -/
def record_failed_capacity_proof (e : AppStateEnvelope) (provider : Address) :
    (UInt32 × Bool) × AppStateEnvelope :=
  let count := UInt32.saturating_add (e.failed_proof_counts.getD provider 0) 1
  if pc.failed_proofs_before_slash ≤ count then
    ((0, true), { e with
      capacity_validators := updateFirst (fun cv => cv.address == provider)
        (fun cv => { cv with stake := Coin.zero }) e.capacity_validators
      failed_proof_counts := e.failed_proof_counts.insert provider 0 })
  else ((count, false), { e with
      failed_proof_counts := e.failed_proof_counts.insert provider count })

def credit_verified_proof_reward (e : AppStateEnvelope) (provider : Address) (reward : Coin) :
    Except EldError AppStateEnvelope :=
  let account := e.account_or_new o st provider
  match account.account.balance.add reward with
  | .error err => .error err
  | .ok balance => .ok (e.stage_account o provider account.hash { account.account with balance })

/-- Extends the lease of a provider that is still registered. -/
def extendLease (e : AppStateEnvelope) (provider : Address) : AppStateEnvelope :=
  { e with
    capacity_validators := updateFirst
      (fun cv => cv.address == provider && cv.registered_block != 0)
      (fun cv => { cv with
        registration_duration :=
          UInt64.saturating_sub (asU64 (e.block_height.val + 1)) cv.registered_block
            + pc.registration_duration_blocks })
      e.capacity_validators }

/-- The failure path: the proof must really fail, and its id is marked as counted. -/
def stageFailure (e : AppStateEnvelope) (tx : VerifiedProofTx) (errors : List String) :
    ResponseDeliverTx × AppStateEnvelope :=
  if errors = [] then
    (response_deliver_tx_error_validation_failed
      "VerifiedProof rejected: failed flag set but proof is valid", e)
  else
    let recorded := record_failed_capacity_proof pc e tx.capacity_provider
    (okResponse "VerifiedProof recorded a failed capacity proof"
      [⟨"VerifiedProof",
        [create_event_attribute "sender" (Address.hex_with_prefix tx.sender),
          create_event_attribute "capacity_provider" (Address.hex_with_prefix tx.capacity_provider),
          create_event_attribute "challenge_id" (String.ofList tx.challenge_id),
          create_event_attribute "failed" "true",
          create_event_attribute "failure_count" (toString recorded.1.1),
          create_event_attribute "slashed" (toString recorded.1.2)]⟩],
      { recorded.2 with
        failed_proof_counted_cache :=
          recorded.2.failed_proof_counted_cache.insert tx.challenge_id })

/-- The reward path: the proof must hold. It mints the reward, extends the lease and marks
the id as rewarded. -/
def stageReward (e : AppStateEnvelope) (tx : VerifiedProofTx) (errors : List String)
    (reward_coin : Coin) : ResponseDeliverTx × AppStateEnvelope :=
  if errors ≠ [] then
    (response_deliver_tx_error_validation_failed ("VerifiedProof rejected: proof validation failed ("
      ++ toString errors.length ++ " error(s))"), e)
  else
    match credit_verified_proof_reward o st e tx.capacity_provider reward_coin with
    | .error err => (response_deliver_tx_error_validation_failed err.to_string, e)
    | .ok e1 =>
      let e2 := extendLease pc e1 tx.capacity_provider
      (okResponse
        "VerifiedProof transaction processed successfully; minted constant reward (1000 ELD) to provider"
        [⟨"VerifiedProof",
          [create_event_attribute "sender" (Address.hex_with_prefix tx.sender),
            create_event_attribute "capacity_provider"
              (Address.hex_with_prefix tx.capacity_provider),
            create_event_attribute "challenge_id" (String.ofList tx.challenge_id),
            create_event_attribute "block_height" (toString tx.block_height.val),
            create_event_attribute "verified_at_block" (toString tx.verified_at_block.val),
            create_event_attribute "verified_at_timestamp" (toString tx.verified_at_timestamp),
            create_event_attribute "reward" (toString reward_coin.amount)]⟩,
          ⟨"Transfer",
            [create_event_attribute "from" "rewards_pool",
              create_event_attribute "to" (Address.hex_with_prefix tx.capacity_provider),
              create_event_attribute "amount" (toString reward_coin.amount)]⟩],
        { e2 with
          verified_proof_rewarded_cache := e2.verified_proof_rewarded_cache.insert tx.challenge_id })

/-- Gates 5 and 6: the provider's signature, then the chunk proofs against the flag. -/
def judgeProof (e : AppStateEnvelope) (tx : VerifiedProofTx) (binding : VerifiedProofBinding)
    (reward_coin : Coin) : ResponseDeliverTx × AppStateEnvelope :=
  match verify_capacity_challenge_response o tx binding.challenged_provider_id
      binding.validator_address with
  | .error err => (response_deliver_tx_error_validation_failed
      ("VerifiedProof rejected: CP signature invalid: " ++ err), e)
  | .ok () =>
    let errors :=
      validate_challenge_proof o tx.proofs binding.expected_merkle_root binding.expected_indices
    if tx.failed then stageFailure pc e tx errors
    else stageReward o pc st e tx errors reward_coin

def process_verified_proof_tx (e : AppStateEnvelope) (tx : VerifiedProofTx) :
    ResponseDeliverTx × AppStateEnvelope :=
  match Coin.new pc.verified_proof_reward_base_amount.amount with
  | .error err => (response_deliver_tx_error_validation_failed err.to_string, e)
  | .ok reward_coin =>
    -- gate 0: one outcome for each challenge id, as the payload spells it
    if e.is_verified_proof_challenge_rewarded st tx.challenge_id then
      (response_deliver_tx_error_validation_failed
        ("VerifiedProof challenge_id already rewarded: " ++ String.ofList tx.challenge_id), e)
    else if e.is_verified_proof_challenge_failed st tx.challenge_id then
      (response_deliver_tx_error_validation_failed
        ("VerifiedProof challenge_id already counted as a failure: "
          ++ String.ofList tx.challenge_id), e)
    else
      match proof_epoch_in_window pc tx.block_height e.current_epoch with
      | .error err => (response_deliver_tx_error_validation_failed err, e)
      | .ok proof_epoch =>
        match e.get_epoch_record o st proof_epoch with
        | .error err => (response_deliver_tx_error_validation_failed err.to_string, e)
        | .ok record =>
          match bind_verified_proof o pc record e.current_epoch tx.sender tx.capacity_provider
              tx.challenge_id tx.block_height with
          | .error err => (response_deliver_tx_error_validation_failed err, e)
          | .ok binding => judgeProof o pc st e tx binding reward_coin

end eld_chain
