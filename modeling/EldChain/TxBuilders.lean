-- How the program builds a transaction: it makes the payload, asks the
-- schedule for the fee of the transaction that has no fee and no signature
-- yet, writes the fee and signs. The builder of a verified proof alone puts
-- a signature of zeros in its place while it asks.
import EldChain.Fees
import EldChain.FrontEnd

open json

namespace eld_chain

/-! ## Wallets -/

structure Wallet where
  address : Address
  public_key : Bytes32
  /-- The Ed25519 signature of bytes. -/
  signature : Bytes → BitVec 512

/-- The key in hex, as a transaction names it. -/
def Wallet.verifying_key (wallet : Wallet) : Text := hexDigits 64 wallet.public_key.toNat

/-- `Tx::new`: no signature and no fee. -/
def Tx.new (nonce : Nonce) (payload : Payload) (public_key : Text) : Tx :=
  ⟨[], nonce, payload, public_key, 0⟩

/-- `Tx::sign`: the signature is over the JSON text without a signature, and the chain id. -/
def Tx.sign (tx : Tx) (wallet : Wallet) (chain_id : String) : Tx :=
  let json := { tx with sig := [] }.to_string
  let all_bytes := Text.bytes json ++ Text.bytes chain_id.toList
  { tx with sig := hexDigits 128 (wallet.signature all_bytes).toNat }

variable (o : Outside) (fl : Floats) (cfg : FeeConfig fl) (wallet : Wallet) (chain_id : String)
variable (next_nonce : Nonce)

/-- The fee of the estimated transaction is written into the transaction, which is signed. -/
def payAndSign (failed : EldError → EldError) (estimated tx : Tx) : Except EldError Tx := do
  let dynamic_fee ← (calculate_dynamic_fee fl cfg estimated).mapError failed
  .ok ({ tx with fee := dynamic_fee.amount }.sign wallet chain_id)

/-- A builder that estimates the fee on the transaction itself, and checks its own signature. -/
def buildSigned (failed : EldError → EldError) (unverified : EldError) (inner : PayloadInner) :
    Except EldError Tx := do
  let tx := Tx.new next_nonce (Payload.new inner) wallet.verifying_key
  let signed ← payAndSign fl cfg wallet chain_id failed tx tx
  if o.verify signed chain_id then .ok signed else .error unverified

/-! ## The client -/

def feeFailed (tx_type : String) (e : EldError) : EldError :=
  .TransactionError tx_type ("Failed to calculate dynamic fee: " ++ e.to_string)

def unverifiedTx (tx_type : String) : EldError :=
  .TransactionError tx_type "Transaction verification failed"

def transfer (recipient : Text) (amount : Nat) : Except EldError Tx := do
  validate_address recipient
  let recipient_address ← (parse_validated_address recipient).mapError (fun e =>
    .ValidationError "recipient address" (String.ofList recipient) e.to_string)
  let transfer ← TransferTx.new wallet.address recipient_address amount
  buildSigned o fl cfg wallet chain_id next_nonce (feeFailed "Transfer") (unverifiedTx "Transfer")
    (.Transfer transfer)

def stake (amount : Nat) : Except EldError Tx := do
  let stake_tx ← StakeTx.new wallet.address amount (some wallet.verifying_key)
  buildSigned o fl cfg wallet chain_id next_nonce (feeFailed "Stake") (unverifiedTx "Stake")
    (.Stake stake_tx)

def unstake (amount : Nat) : Except EldError Tx := do
  let unstake_tx ← UnstakeTx.new wallet.address amount
  buildSigned o fl cfg wallet chain_id next_nonce (feeFailed "Unstake") (unverifiedTx "Unstake")
    (.Unstake unstake_tx)

def add_namespace (namespace_slug : Text) (registration_fee : Nat) : Except EldError Tx := do
  let canonical ← normalize_namespace_slug namespace_slug
  let add_namespace_tx ← AddNamespaceTx.new wallet.address canonical registration_fee
  buildSigned o fl cfg wallet chain_id next_nonce (feeFailed "AddNamespace")
    (unverifiedTx "AddNamespace") (.AddNamespace add_namespace_tx)

/-! ## The capacity manager -/

def storageFeeFailed (operation : String) (e : EldError) : EldError :=
  .StorageError operation ("Failed to calculate dynamic fee: " ++ e.to_string)

def submit_merkle_root_update (provider_id : Address) (new_merkle_root : Bytes32) :
    Except EldError Tx := do
  let update_tx ← UpdateCapacityMerkleRootTx.new provider_id new_merkle_root
  buildSigned o fl cfg wallet chain_id next_nonce (storageFeeFailed "submit_merkle_root_update")
    (.StorageError "submit_merkle_root_update" "Transaction verification failed")
    (.UpdateCapacityMerkleRoot update_tx)

def submit_capacity_registration_tx (provider_address : Text) (capacity_bytes : UInt64)
    (seed merkle_root : Bytes32) (chunk_count : UInt32) : Except EldError Tx := do
  let sender_addr ← parse_validated_address provider_address
  let register_capacity_tx ←
    RegisterCapacityTx.new sender_addr capacity_bytes merkle_root seed chunk_count
  buildSigned o fl cfg wallet chain_id next_nonce
    (storageFeeFailed "submit_capacity_registration_tx")
    (.StorageError "submit_capacity_registration_tx" "Transaction verification failed")
    (.RegisterCapacity register_capacity_tx)

/-! ## Verified proofs -/

def DUMMY_TX_SIG : Text := List.replicate 128 '0'

structure VerifiedProofSubmissionProofs where
  proofs : List ChunkProof
  generated_at : UInt64
  provider_pubkey : Text
  provider_signature : Text
  failed : Bool

/-- The transaction of `build_signed_verified_proof_hex`, at the time of the node's clock. -/
def buildVerifiedProof (capacity_provider challenge_id : Text) (block_height : I64)
    (proof_fields : VerifiedProofSubmissionProofs) (verified_at_timestamp : UInt64) :
    Except String Tx := do
  let provider_addr ← (parse_validated_address capacity_provider).mapError
    (fun e => "Invalid capacity_provider address: " ++ e.to_string)
  let verified_proof_tx ← (VerifiedProofTx.new ⟨wallet.address, provider_addr, challenge_id,
      block_height, block_height, verified_at_timestamp, proof_fields.proofs,
      proof_fields.generated_at, proof_fields.provider_pubkey, proof_fields.provider_signature,
      proof_fields.failed⟩).mapError (fun e => "Invalid VerifiedProofTx: " ++ e.to_string)
  let tx := Tx.new next_nonce (Payload.new (.VerifiedProof verified_proof_tx)) wallet.verifying_key
  let tx_for_fee := { tx with sig := DUMMY_TX_SIG }
  (payAndSign fl cfg wallet chain_id id tx_for_fee tx).mapError
    (fun e => "Failed to calculate fee: " ++ e.to_string)

def build_signed_verified_proof_hex (capacity_provider challenge_id : Text) (block_height : I64)
    (proof_fields : VerifiedProofSubmissionProofs) (verified_at_timestamp : UInt64) :
    Except String Text := do
  let tx ← buildVerifiedProof fl cfg wallet chain_id next_nonce capacity_provider challenge_id
    block_height proof_fields verified_at_timestamp
  .ok (hex_encode (Text.bytes tx.to_string))

/-! ## All builders -/

/-- What a builder is asked for. -/
inductive Build
  | transfer (recipient : Text) (amount : Nat)
  | stake (amount : Nat)
  | unstake (amount : Nat)
  | add_namespace (namespace_slug : Text) (registration_fee : Nat)
  | submit_merkle_root_update (provider_id : Address) (new_merkle_root : Bytes32)
  | submit_capacity_registration_tx (provider_address : Text) (capacity_bytes : UInt64)
      (seed merkle_root : Bytes32) (chunk_count : UInt32)
  | build_signed_verified_proof_hex (capacity_provider challenge_id : Text) (block_height : I64)
      (proof_fields : VerifiedProofSubmissionProofs) (verified_at_timestamp : UInt64)

/-- The transaction that a builder signs. -/
def Build.run : Build → Except String Tx
  | .transfer recipient amount =>
    (eld_chain.transfer o fl cfg wallet chain_id next_nonce recipient amount).mapError
      EldError.to_string
  | .stake amount =>
    (eld_chain.stake o fl cfg wallet chain_id next_nonce amount).mapError EldError.to_string
  | .unstake amount =>
    (eld_chain.unstake o fl cfg wallet chain_id next_nonce amount).mapError EldError.to_string
  | .add_namespace namespace_slug registration_fee =>
    (eld_chain.add_namespace o fl cfg wallet chain_id next_nonce namespace_slug
      registration_fee).mapError EldError.to_string
  | .submit_merkle_root_update provider_id new_merkle_root =>
    (eld_chain.submit_merkle_root_update o fl cfg wallet chain_id next_nonce provider_id
      new_merkle_root).mapError EldError.to_string
  | .submit_capacity_registration_tx provider_address capacity_bytes seed merkle_root chunk_count =>
    (eld_chain.submit_capacity_registration_tx o fl cfg wallet chain_id next_nonce provider_address
      capacity_bytes seed merkle_root chunk_count).mapError EldError.to_string
  | .build_signed_verified_proof_hex capacity_provider challenge_id block_height proof_fields
      verified_at_timestamp =>
    buildVerifiedProof fl cfg wallet chain_id next_nonce capacity_provider challenge_id block_height
      proof_fields verified_at_timestamp

end eld_chain
