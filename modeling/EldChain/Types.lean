-- The data of the chain, field for field as the Rust types have it:
-- accounts and validators, content-addressed objects and their paths,
-- transactions, the application state and the database. A payload
-- carries what its constructor checked, and the protocol constants carry
-- what genesis validation checked.
import EldChain.TextRules
import Mathlib.Data.List.Infix
import Std.Data.ExtTreeMap
import Std.Data.ExtTreeSet

open Std

namespace eld_chain

/-! ## Accounts and validators -/

structure Account where
  address : Address
  balance : Coin
  nonce : Nonce
deriving DecidableEq

structure StakingAccount where
  address : Address
  stake_balance : Coin
  originator : Address
deriving DecidableEq

structure ValidatorInfo where
  address : Address
  stake : Coin
  public_key : Bytes
deriving DecidableEq

structure CapacityValidatorInfo where
  address : Address
  stake : Coin
  public_key : Bytes32
  storage_capacity : UInt64
  merkle_root : Option Bytes32
  seed : Option Bytes32
  chunk_count : Option UInt32
  registered_at : Option UInt64
  last_merkle_root_update : Option UInt64
  registered_block : UInt64
  registration_duration : UInt64
deriving DecidableEq

structure ActiveCapacityValidator where
  validator_address : Address
  epoch : I64
  challenged_providers : List Address
  subscribed_topics : List Text
deriving DecidableEq

structure EpochRecord where
  epoch : I64
  start_block : Int
  active_validators : List ValidatorInfo
  active_capacity_validator : Option ActiveCapacityValidator
  challenged_capacity_validators : List CapacityValidatorInfo
deriving DecidableEq

structure NamespaceRecord where
  namespace_slug : Text
  owner : Address
  registered_height : UInt64
deriving DecidableEq

/-! ## Content-addressed objects -/

inductive CadoType
  | Account | StakingAccount | StorageStakingAccount | CadoMap | AppStateTip | SnapshotMetadata
  | SnapshotChunk | ChunkReference | AppStateSnapshot | EpochRecord | Namespace
deriving DecidableEq

def CadoType.as_str : CadoType → String
  | .Account => "account"
  | .StakingAccount => "staking_account"
  | .StorageStakingAccount => "storage_staking_account"
  | .CadoMap => "cado_map"
  | .AppStateTip => "app_state_tip"
  | .SnapshotMetadata => "snapshot_metadata"
  | .SnapshotChunk => "snapshot_chunk"
  | .ChunkReference => "chunk_reference"
  | .AppStateSnapshot => "app_state_snapshot"
  | .EpochRecord => "epoch_record"
  | .Namespace => "namespace"

/-- A path `/@eld/type/name`. The name is a 20-byte address, 32 bytes of hex or a slug,
as `CadoPath::new` demands for the type. -/
inductive CadoPath
  | account (address : Address)
  | staking_account (address : Address)
  | storage_staking_account (address : Address)
  | cado_map (name : Bytes32)
  | app_state_tip (name : Bytes32)
  | snapshot_metadata (name : Bytes32)
  | snapshot_chunk (name : Bytes32)
  | chunk_reference (name : Bytes32)
  | app_state_snapshot (name : Bytes32)
  | epoch_record (name : Bytes32)
  | namespace_registry (slug : Text)
deriving DecidableEq

def CadoPath.type_ : CadoPath → CadoType
  | .account _ => .Account
  | .staking_account _ => .StakingAccount
  | .storage_staking_account _ => .StorageStakingAccount
  | .cado_map _ => .CadoMap
  | .app_state_tip _ => .AppStateTip
  | .snapshot_metadata _ => .SnapshotMetadata
  | .snapshot_chunk _ => .SnapshotChunk
  | .chunk_reference _ => .ChunkReference
  | .app_state_snapshot _ => .AppStateSnapshot
  | .epoch_record _ => .EpochRecord
  | .namespace_registry _ => .Namespace

def Address.text (a : Address) : Text := '0' :: 'x' :: hexDigits 40 a.toNat

def Bytes32.text (h : Bytes32) : Text := '0' :: 'x' :: hexDigits 64 h.toNat

theorem Address.text_inj {a b : Address} (h : Address.text a = Address.text b) : a = b := by
  have hdigits : hexDigits 40 a.toNat = hexDigits 40 b.toNat :=
    (List.cons.inj (List.cons.inj h).2).2
  exact BitVec.eq_of_toNat_eq (hexDigits_inj a.isLt b.isLt hdigits)

theorem Bytes32.text_inj {m n : Bytes32} (h : Bytes32.text m = Bytes32.text n) : m = n := by
  have hdigits : hexDigits 64 m.toNat = hexDigits 64 n.toNat :=
    (List.cons.inj (List.cons.inj h).2).2
  exact BitVec.eq_of_toNat_eq (hexDigits_inj m.isLt n.isLt hdigits)

/-- The name segment of a path. -/
def CadoPath.name : CadoPath → Text
  | .account a | .staking_account a | .storage_staking_account a => Address.text a
  | .cado_map n | .app_state_tip n | .snapshot_metadata n | .snapshot_chunk n
  | .chunk_reference n | .app_state_snapshot n | .epoch_record n => Bytes32.text n
  | .namespace_registry slug => slug

/-- A number list that orders the paths as their texts are: the place of the type among the
names of the types, and then the name. -/
def CadoPath.rank : CadoPath → List Nat
  | .account a => [0, a.toNat]
  | .app_state_snapshot n => [1, n.toNat]
  | .app_state_tip n => [2, n.toNat]
  | .cado_map n => [3, n.toNat]
  | .chunk_reference n => [4, n.toNat]
  | .epoch_record n => [5, n.toNat]
  | .namespace_registry slug => 6 :: slug.map Char.toNat
  | .snapshot_chunk n => [7, n.toNat]
  | .snapshot_metadata n => [8, n.toNat]
  | .staking_account a => [9, a.toNat]
  | .storage_staking_account a => [10, a.toNat]

theorem CadoPath.rank_injective {p q : CadoPath} (h : p.rank = q.rank) : p = q := by
  have hchar : Function.Injective (List.map Char.toNat) :=
    List.map_injective_iff.mpr (fun a b hab => Char.toNat_inj.mp hab)
  cases p <;> cases q <;> simp [CadoPath.rank, BitVec.toNat_inj, hchar.eq_iff] at h <;> rw [h]

instance : Ord CadoPath := ⟨compareOn CadoPath.rank⟩

instance : TransOrd CadoPath := inferInstanceAs (TransCmp (compareOn CadoPath.rank))

instance : LawfulEqOrd CadoPath where
  compare_self {p} := @ReflCmp.compare_self (List Nat) compare _ p.rank
  eq_of_compare h := CadoPath.rank_injective (@LawfulEqCmp.eq_of_compare (List Nat) compare _ _ _ h)

structure CADOMetadata where
  type_ : CadoType
  owner : Text
deriving DecidableEq

/-- An immutable object. The data stands for the bytes that encode it. -/
structure CADO (D : Type) where
  hash : Bytes32
  data : D
  metadata : CADOMetadata
deriving DecidableEq

/-- A mutable object. `hash` is fixed when the object is created. -/
structure CADOMut (D : Type) where
  hash : Bytes32
  data : D
  metadata : CADOMetadata
  latest_hash : Bytes32
deriving DecidableEq

inductive CadoBody (D : Type)
  | Immutable (cado : CADO D)
  | Mutable (cado_mut : CADOMut D)
deriving DecidableEq

/-- What the objects of the chain state encode. -/
inductive CadoData
  | account (a : Account)
  | staking_account (a : StakingAccount)
  | epoch_record (r : EpochRecord)
  | namespace_record (r : NamespaceRecord)
deriving DecidableEq

/-! ## Transactions -/

structure TransferTx where
  sender : Address
  recipient : Address
  amount : Nat
  sender_ne_recipient : sender ≠ recipient
  amount_pos : 0 < amount
  amount_le : amount ≤ MAX_COIN
deriving DecidableEq

structure StakeTx where
  sender : Address
  amount : Nat
  public_key : Option Text
  amount_pos : 0 < amount
  amount_le : amount ≤ MAX_COIN
  key_hex : ∀ pk ∈ public_key, pk.length = 64 ∧ ∀ c ∈ pk, (hexVal c).isSome
deriving DecidableEq

structure UnstakeTx where
  sender : Address
  amount : Nat
  amount_pos : 0 < amount
  amount_le : amount ≤ MAX_COIN
deriving DecidableEq

structure RegisterCapacityTx where
  sender : Address
  capacity_bytes : UInt64
  merkle_root : Bytes32
  seed : Bytes32
  chunk_count : UInt32
  capacity_pos : capacity_bytes ≠ 0
deriving DecidableEq

structure UnregisterCapacityTx where
  sender : Address
  unregister : Bool
  unregister_true : unregister = true
deriving DecidableEq

structure UpdateCapacityMerkleRootTx where
  sender : Address
  merkle_root : Bytes32
deriving DecidableEq

structure PostMessageTx where
  sender : Address
  original_signer : Address
  original_signer_pubkey : Text
  content_key : Text
  message_id : Text
  expires_height : UInt64
  visibility : Text
  topic : Option Text
  tags : List Text
  content_type : Text
  fee_amount : Nat
  received_timestamp : UInt64
  user_signature : Text
  namespace_ : Option Text
  fee_amount_lt : fee_amount < 2 ^ 128
  content_type_allowed : validate_post_message_content_type content_type = .ok ()
  tags_canonical : canonicalize_post_message_tags tags = .ok tags
  namespace_resolved : resolve_optional_namespace namespace_ = .ok namespace_
deriving DecidableEq

structure AddNamespaceTx where
  sender : Address
  namespace_slug : Text
  registration_fee : Nat
  slug_canonical : CanonicalSlug namespace_slug
  fee_pos : 0 < registration_fee
  fee_le : registration_fee ≤ MAX_COIN
deriving DecidableEq

inductive SlotState
  | Proof
  | Open
  | Content (deal_id : Text) (committed_hash : Bytes32)
deriving DecidableEq

structure ChunkProof where
  chunk_index : Nat
  chunk_data : Bytes
  chunk_hash : Bytes32
  merkle_proof : List Bytes32
  slot_state : SlotState
  chunk_index_lt : chunk_index < 2 ^ 64
deriving DecidableEq

/-- The start of the year 2020. -/
def MIN_TIMESTAMP : UInt64 := 1577836800

/-- The start of the year 2100. -/
def MAX_TIMESTAMP : UInt64 := 4102444800

structure VerifiedProofTx where
  sender : Address
  capacity_provider : Address
  challenge_id : Text
  block_height : I64
  verified_at_block : I64
  verified_at_timestamp : UInt64
  proofs : List ChunkProof
  generated_at : UInt64
  provider_pubkey : Text
  provider_signature : Text
  failed : Bool
  id_safe : validate_verified_proof_challenge_id challenge_id = .ok ()
  height_pos : 0 < block_height.val
  verified_after : block_height.val ≤ verified_at_block.val
  verified_at_range : MIN_TIMESTAMP ≤ verified_at_timestamp ∧ verified_at_timestamp ≤ MAX_TIMESTAMP
  proofs_nonempty : proofs ≠ []
  generated_at_range : MIN_TIMESTAMP ≤ generated_at ∧ generated_at ≤ MAX_TIMESTAMP
  pubkey_nonempty : provider_pubkey ≠ []
  signature_nonempty : provider_signature ≠ []
deriving DecidableEq

inductive PayloadInner
  | Transfer (tx : TransferTx)
  | Unstake (tx : UnstakeTx)
  | Stake (tx : StakeTx)
  | VerifiedProof (tx : VerifiedProofTx)
  | RegisterCapacity (tx : RegisterCapacityTx)
  | UnregisterCapacity (tx : UnregisterCapacityTx)
  | UpdateCapacityMerkleRoot (tx : UpdateCapacityMerkleRootTx)
  | PostMessage (tx : PostMessageTx)
  | AddNamespace (tx : AddNamespaceTx)
deriving DecidableEq

def PayloadInner.sender : PayloadInner → Address
  | .Transfer tx => tx.sender
  | .Stake tx => tx.sender
  | .Unstake tx => tx.sender
  | .RegisterCapacity tx => tx.sender
  | .UnregisterCapacity tx => tx.sender
  | .UpdateCapacityMerkleRoot tx => tx.sender
  | .PostMessage tx => tx.sender
  | .VerifiedProof tx => tx.sender
  | .AddNamespace tx => tx.sender

structure Payload where
  type_ : Text
  inner : PayloadInner
deriving DecidableEq

structure Tx where
  sig : Text
  nonce : Nonce
  payload : Payload
  public_key : Text
  fee : Nat
deriving DecidableEq

structure Event where
  type_ : String
  attributes : List (String × String)

structure ResponseDeliverTx where
  code : Nat
  codespace : String := ""
  log : String := ""
  info : String := ""
  events : List Event := []
  gas_wanted : Int := 0
  gas_used : Int := 0

/-! ## The application state -/

structure PinboardMessageMetadata where
  message_id : Text
  original_signer : Address
  content_key : Text
  content_type : Text
  expires_height : UInt64
  visibility : Text
  topic : Option Text
  tags : List Text
  committed_height : UInt64
  received_timestamp : UInt64
  namespace_ : Option Text
deriving DecidableEq

structure CADOMarkedForDeletion where
  owner : Text
  cado_path : CadoPath
deriving DecidableEq

abbrev CadoCache := ExtTreeMap CadoPath (CadoBody CadoData) compare

/-- The Merkle trie. Its nodes are never read back, so the root is all that is kept. -/
structure StateTrie where
  root : Bytes32
deriving DecidableEq

/-- The root of a trie that was never written is the default one, not that of the null node. -/
def StateTrie.empty : StateTrie := ⟨0⟩

structure AppStateEnvelope where
  cado_cache : CadoCache
  cado_cache_to_delete : List CADOMarkedForDeletion
  pinboard_meta_cache : ExtTreeMap Text PinboardMessageMetadata compare
  pinboard_refcount_deltas : ExtTreeMap Text Int compare
  pinboard_idx_wallet_add : List (Text × UInt64 × Text)
  pinboard_idx_tag_add : List (Text × UInt64 × Text)
  pinboard_idx_expiry_add : List (UInt64 × Text)
  pinboard_idx_commit_add : List (UInt64 × Text)
  verified_proof_rewarded_cache : ExtTreeSet Text compare
  failed_proof_counted_cache : ExtTreeSet Text compare
  namespace_registry_cache : ExtTreeMap Text NamespaceRecord compare
  namespace_registry_index : ExtTreeMap Text NamespaceRecord compare
  block_height : I64
  current_epoch : I64
  committed_cado_cache : CadoCache
  epoch_records_index : ExtTreeSet I64 compare
  state_trie : StateTrie
  validators : List ValidatorInfo
  active_validators : List ValidatorInfo
  capacity_validators : List CapacityValidatorInfo
  active_capacity_validator : Option ActiveCapacityValidator
  failed_proof_counts : ExtTreeMap Address UInt32 compare

/-- `AppStateEnvelope::default()`. -/
def AppStateEnvelope.default : AppStateEnvelope where
  cado_cache := ∅
  cado_cache_to_delete := []
  pinboard_meta_cache := ∅
  pinboard_refcount_deltas := ∅
  pinboard_idx_wallet_add := []
  pinboard_idx_tag_add := []
  pinboard_idx_expiry_add := []
  pinboard_idx_commit_add := []
  verified_proof_rewarded_cache := ∅
  failed_proof_counted_cache := ∅
  namespace_registry_cache := ∅
  namespace_registry_index := ∅
  block_height := I64.zero
  current_epoch := I64.zero
  committed_cado_cache := ∅
  epoch_records_index := ∅
  state_trie := StateTrie.empty
  validators := []
  active_validators := []
  capacity_validators := []
  active_capacity_validator := none
  failed_proof_counts := ∅

structure AppHash where
  data : Option Bytes32
deriving DecidableEq

structure AppState where
  app_hash : AppHash
  envelope : AppStateEnvelope
  chain_id : String

def AppState.default : AppState := ⟨⟨none⟩, AppStateEnvelope.default, ""⟩

structure AppStateTip where
  block_height : I64
  cado_root_hash : Bytes32
  app_hash : Bytes32
deriving DecidableEq

structure AppStateSnapshot where
  block_height : I64
  app_hash : Bytes32
  chain_id : String
  current_epoch : I64
  committed_cado_cache : CadoCache
  state_trie_root : Bytes32
  epoch_records_index : ExtTreeSet I64 compare
  namespace_registry_index : ExtTreeMap Text NamespaceRecord compare
  validators : List ValidatorInfo
  active_validators : List ValidatorInfo
  capacity_validators : List CapacityValidatorInfo
  active_capacity_validator : Option ActiveCapacityValidator

/-! ## The database -/

/-- What the objects of the database encode: an object of the chain state, the tip of the
chain or a whole snapshot. -/
inductive StoredData
  | chain (d : CadoData)
  | app_state_tip (t : AppStateTip)
  | app_state_snapshot (s : AppStateSnapshot)

/-- The column families that consensus reads and writes. -/
structure Storage where
  path_index : ExtTreeMap CadoPath Bytes32 compare
  cado : ExtTreeMap Bytes32 (CadoBody StoredData) compare
  vp_rewarded : ExtTreeSet Text compare
  vp_failed : ExtTreeSet Text compare
  pinboard_temp_blobs : ExtTreeMap Text Bytes compare

def Storage.empty : Storage := ⟨∅, ∅, ∅, ∅, ∅⟩

/-! ## Protocol constants -/

/-- The constants of one chain, as `validate` admits them. -/
structure ProtocolConstants where
  min_stake_amount : Coin
  validators_per_epoch : Nat
  blocks_per_epoch : I64
  challenges_per_epoch : Nat
  chunks_per_challenge : Nat
  registration_duration_blocks : UInt64
  verified_proof_reward_base_amount : Coin
  failed_proofs_before_slash : UInt32
  default_pinboard_post_ttl_blocks : UInt64
  max_tx_bytes : Nat
  min_stake_pos : 0 < min_stake_amount.amount
  validators_pos : 0 < validators_per_epoch
  blocks_pos : 0 < blocks_per_epoch.val
  challenges_pos : 0 < challenges_per_epoch
  chunks_pos : 0 < chunks_per_challenge
  duration_pos : registration_duration_blocks ≠ 0
  reward_pos : 0 < verified_proof_reward_base_amount.amount
  slash_pos : failed_proofs_before_slash ≠ 0
  ttl_pos : default_pinboard_post_ttl_blocks ≠ 0
  max_tx_bytes_pos : 0 < max_tx_bytes

/-- `ProtocolConstants::local_dev()`. -/
def ProtocolConstants.local_dev : ProtocolConstants where
  min_stake_amount := ⟨5, by decide⟩
  validators_per_epoch := 4
  blocks_per_epoch := ⟨20, by decide, by decide⟩
  challenges_per_epoch := 5
  chunks_per_challenge := 10
  registration_duration_blocks := 1000000
  verified_proof_reward_base_amount := ⟨1000, by decide⟩
  failed_proofs_before_slash := 3
  default_pinboard_post_ttl_blocks := 1000
  max_tx_bytes := 10 * 1024 * 1024
  min_stake_pos := by decide
  validators_pos := by decide
  blocks_pos := by decide
  challenges_pos := by decide
  chunks_pos := by decide
  duration_pos := by decide
  reward_pos := by decide
  slash_pos := by decide
  ttl_pos := by decide
  max_tx_bytes_pos := by decide

/-- The local node: the last committed state, the state of the open block and the database. -/
structure ConsensusConnection where
  committed_state : AppState
  current_state : Option AppState
  storage : Storage

end eld_chain
