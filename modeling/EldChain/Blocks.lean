-- The block around its transactions: BeginBlock opens a copy of the
-- committed state, and EndBlock sets the height, opens a new epoch when
-- the height reaches one, and computes the app hash.
import EldChain.DeliverTx
import EldChain.AppHash
import EldChain.Snapshots
import Mathlib.Data.List.Sort

open Std

namespace eld_chain

variable (o : Outside) (pc : ProtocolConstants)

def begin_block_inner (c : ConsensusConnection) : ConsensusConnection :=
  { c with current_state := some c.committed_state }

/-! ## Choosing validators -/

/-- Lexicographic order of byte lists, shorter first on a tie. -/
def compareBytes : Bytes → Bytes → Ordering
  | [], [] => .eq
  | [], _ :: _ => .lt
  | _ :: _, [] => .gt
  | a :: as, b :: bs => (compare a.toNat b.toNat).then (compareBytes as bs)

/-- More stake first, then the lower address, then the lower key. -/
def compare_validator_priority (a b : ValidatorInfo) : Ordering :=
  (compare b.stake.amount a.stake.amount).then
    ((compare a.address b.address).then (compareBytes a.public_key b.public_key))

def sortedValidators (validators : List ValidatorInfo) : List ValidatorInfo :=
  validators.insertionSort (fun a b => (compare_validator_priority a b).isLE = true)

def select_validators_for_epoch (e : AppStateEnvelope) : AppStateEnvelope :=
  { e with active_validators := (sortedValidators e.validators).take pc.validators_per_epoch }

def ELD_STORAGE_PROOF_TOPIC_PREFIX : Text := "eld-storage-proof-topic-".toList

/-- The providers that may be selected or challenged at a block. -/
def eligibleValidators (e : AppStateEnvelope) : List CapacityValidatorInfo :=
  let current_block := asU64 e.block_height.val
  (e.capacity_validators.filter (fun cv => cv.merkle_root.isSome &&
    current_block ≤ cv.registered_block + cv.registration_duration)).insertionSort
      (fun a b => (compare a.address b.address).isLE = true)

/-- The seed of the selection: the epoch, the chain and every eligible provider. -/
def selectionSeed (epoch : I64) (chain_id : String) (eligible : List CapacityValidatorInfo) :
    Bytes32 :=
  o.sha256 (Text.bytes "CAPACITY_VALIDATOR_SELECTION".toList ++ beBytes 8 (i64Bits epoch.val)
    ++ Text.bytes chain_id.toList
    ++ eligible.flatMap (fun cv =>
        Text.bytes (Address.text cv.address) ++ beBytes 32 cv.public_key.toNat))

/-- The providers that the selected one challenges: not itself, unless it is alone. -/
def challengePool (eligible : List CapacityValidatorInfo) (selected : Address) : List Address :=
  let pool :=
    if eligible.length = 1 then eligible.map (fun cv => cv.address)
    else (eligible.filter (fun cv => cv.address != selected)).map (fun cv => cv.address)
  pool.insertionSort (fun a b => (compare a b).isLE = true)

def select_active_capacity_validator_for_epoch (s : AppState) (epoch : I64) : AppState :=
  let e := s.envelope
  let eligible := eligibleValidators e
  let seed := selectionSeed o epoch s.chain_id eligible
  match (o.shuffle seed [] eligible).head? with
  | none => { s with envelope := { e with active_capacity_validator := none } }
  | some selected =>
    let pool := challengePool eligible selected.address
    let challenged_providers :=
      (o.shuffle seed [eligible.length] pool).take (min pc.challenges_per_epoch pool.length)
    { s with envelope := { e with active_capacity_validator := some {
        validator_address := selected.address
        epoch := epoch
        challenged_providers := challenged_providers
        subscribed_topics := challenged_providers.map (fun provider_id =>
          ELD_STORAGE_PROOF_TOPIC_PREFIX ++ Address.text provider_id) } } }

/-! ## Epoch records -/

def build_epoch_record (e : AppStateEnvelope) (new_epoch : I64) : EpochRecord where
  epoch := new_epoch
  start_block := new_epoch.val * pc.blocks_per_epoch.val
  active_validators := e.active_validators
  active_capacity_validator := e.active_capacity_validator
  challenged_capacity_validators :=
    match e.active_capacity_validator with
    | none => []
    | some sv => sv.challenged_providers.filterMap (fun addr =>
        e.capacity_validators.find? (fun p => p.address == addr))

/-- Stages the record under its epoch and under `LATEST`. -/
def store_epoch_record (e : AppStateEnvelope) (record : EpochRecord) :
    Except EldError AppStateEnvelope :=
  let cado := CadoBody.immutable o (.epoch_record record)
    ⟨.EpochRecord, (toString record.epoch.val).toList⟩
  match epoch_record_path_name record.epoch with
  | .error err => .error err
  | .ok name =>
    .ok ((e.update_cado_cache (.epoch_record name) cado).update_cado_cache
      (.epoch_record LATEST) cado)

/-! ## EndBlock -/

def capacity_registration_expired (provider : CapacityValidatorInfo) (current_block : UInt64) :
    Bool :=
  UInt64.saturating_add provider.registered_block provider.registration_duration < current_block

def expire_capacity_registrations (capacity_validators : List CapacityValidatorInfo)
    (current_block : UInt64) : List CapacityValidatorInfo :=
  capacity_validators.filter (fun p => !capacity_registration_expired p current_block)

/-- The start of a new epoch. A record that cannot be stored is fatal. -/
def openEpoch (s : AppState) (new_epoch : I64) : Except EldError AppState :=
  let e := { s.envelope with
    capacity_validators := expire_capacity_registrations s.envelope.capacity_validators
      (asU64 s.envelope.block_height.val) }
  let s1 := select_active_capacity_validator_for_epoch o pc
    { s with envelope := select_validators_for_epoch pc e } new_epoch
  match store_epoch_record o s1.envelope (build_epoch_record pc s1.envelope new_epoch) with
  | .error err => .error err
  | .ok e2 => .ok { s1 with envelope := { e2 with current_epoch := new_epoch } }

structure ValidatorUpdate where
  power : Int
  pub_key : Bytes
deriving DecidableEq

/-- The validators reported to Tendermint at a new epoch, each with the same power. -/
def validatorUpdates (e : AppStateEnvelope) : List ValidatorUpdate :=
  e.active_validators.map (fun v => ⟨10, v.public_key⟩)

/-- What EndBlock answers: the validator updates of a new epoch, and the challenges that the
selected validator then publishes. -/
structure EndBlockOutcome where
  validator_updates : Option (List ValidatorUpdate)
  challenges : List CapacityChallenge

/-- The challenges issued by the node that holds the selected wallet. -/
def issuedChallenges (e : AppStateEnvelope) (new_epoch : I64) : List CapacityChallenge :=
  match e.active_capacity_validator with
  | none => []
  | some sv => generate_challenges_internal o pc new_epoch e.block_height sv.validator_address
      (build_challenged_capacity_provider_data e sv.challenged_providers)

/-- EndBlock on the open state. -/
def endBlockState (s : AppState) (height : I64) : Except EldError (EndBlockOutcome × AppState) :=
  let new_epoch := epochOf pc height
  let s1 : AppState := { s with envelope := { s.envelope with block_height := height } }
  if s.envelope.current_epoch.val < new_epoch.val then
    match openEpoch o pc s1 new_epoch with
    | .error err => .error err
    | .ok s2 =>
      .ok (⟨some (validatorUpdates s2.envelope), issuedChallenges o pc s2.envelope new_epoch⟩,
        s2.set_app_hash (s2.envelope.calculate_app_hash o))
  else .ok (⟨none, []⟩, s1.set_app_hash (s1.envelope.calculate_app_hash o))

/-- `end_block_inner`. A fatal error ends the process: the node takes no further step. -/
def end_block_inner (c : ConsensusConnection) (height : I64) :
    Except EldError (EndBlockOutcome × ConsensusConnection) :=
  match c.current_state with
  | none => .error (.InitializationError "current state" "state is None in end_block")
  | some s =>
    match endBlockState o pc s height with
    | .error err => .error err
    | .ok (out, s') => .ok (out, { c with current_state := some s' })

end eld_chain
