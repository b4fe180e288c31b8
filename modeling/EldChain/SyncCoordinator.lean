-- The two ends of a capacity challenge on the P2P network: the provider,
-- who proves and signs whatever chunks a message asks for, and the selected
-- validator, who judges the response and submits the verdict.
import EldChain.CapacityManager

namespace eld_chain

variable (o : Outside)

/-! ## The provider -/

/-- The response that the provider publishes. `sign` is the provider's wallet: its public key
and its signature. A challenge that cannot be answered is only logged. -/
def handle_capacity_challenge (sign : ChallengeProof → Option (Text × Text))
    (msg : ChallengeMessage) (generated_at : UInt64) (s : CapacityManager) :
    Option CapacityChallengeResponse :=
  match ChallengeId.parse_hex msg.challenge_id with
  | .error _ => none
  | .ok challenge_id =>
    match generate_capacity_proof o ⟨challenge_id, msg.challenger, msg.provider_id,
        msg.chunk_indices, msg.block_height, msg.merkle_root⟩ generated_at s with
    | .error _ _ => none
    | .ok challenge_proof _ =>
      match sign challenge_proof with
      | none => none
      | some (provider_pubkey, provider_signature) =>
        some ⟨challenge_proof.challenge_id, challenge_proof.provider_id, challenge_proof.challenger,
          challenge_proof.block_height, challenge_proof.proofs, challenge_proof.generated_at,
          provider_pubkey, provider_signature⟩

/-! ## The selected validator -/

/-- `verify_capacity_challenge_response` on the fields of a message. -/
def CapacityChallengeResponse.verify (r : CapacityChallengeResponse) : Except String Unit :=
  if r.provider_pubkey = [] ∨ r.provider_signature = [] then
    .error "capacity challenge response missing provider signature"
  else
    match o.verifying_key r.provider_pubkey with
    | none => .error "invalid provider_pubkey"
    | some key =>
      if o.address_of_key key ≠ r.provider_id then
        .error "provider_id does not match provider_pubkey"
      else if o.response_signature_valid r.challenge_id r.provider_id r.challenger r.block_height
          r.proofs r.generated_at r.provider_pubkey r.provider_signature then .ok ()
      else .error "provider signature verification failed"

/-- The `failed` flag of the VerifiedProof transaction that is submitted, if one is.
`capacity_validator_address` is the wallet of this node, `committed_state` the committed state
where it is at hand. -/
def handle_capacity_challenge_response (capacity_validator_address : Option Address)
    (committed_state : Option AppStateEnvelope) (r : CapacityChallengeResponse) : Option Bool :=
  if capacity_validator_address ≠ some r.challenger then none
  else
    match committed_state with
    | none => none
    | some e =>
      if e.active_capacity_validator.map ActiveCapacityValidator.validator_address ≠
          some r.challenger then none
      else
        match r.verify o with
        | .error _ => none
        | .ok () =>
          -- the indices are those of the response itself
          let chunk_indices := r.proofs.map ChunkProof.chunk_index
          match e.capacity_validators.find? (fun sp => sp.address == r.provider_id) with
          | none => none
          | some provider_info =>
            match provider_info.merkle_root with
            | none => none
            | some expected_merkle_root =>
              if validate_challenge_proof o r.proofs expected_merkle_root chunk_indices = [] then
                some false
              else some true

/-- The transaction that carries a response to the chain. The submitter fills in its own
address, the block and the time. -/
structure Carries (vp : VerifiedProofTx) (r : CapacityChallengeResponse) : Prop where
  challenge_id : vp.challenge_id = r.challenge_id
  capacity_provider : vp.capacity_provider = r.provider_id
  block_height : vp.block_height = r.block_height
  proofs : vp.proofs = r.proofs
  generated_at : vp.generated_at = r.generated_at
  provider_pubkey : vp.provider_pubkey = r.provider_pubkey
  provider_signature : vp.provider_signature = r.provider_signature

end eld_chain
