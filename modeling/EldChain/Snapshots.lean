-- The epoch snapshot: what it takes from a committed state, how it is
-- applied to a fresh one, and how a node starts again from its database.
-- Every fatal error of the start is an error here: the process ends.
import EldChain.Envelope

open Std

namespace eld_chain

variable (o : Outside)

/-! ## The app hash and the tip -/

def AppHash.bytes (h : AppHash) : Except EldError Bytes32 :=
  match h.data with
  | some bytes => .ok bytes
  | none => .error (.ValidationError "app_hash" "empty" "App hash cannot be empty")

def AppState.set_app_hash (s : AppState) (bytes : Bytes32) : AppState :=
  { s with app_hash := ⟨some bytes⟩ }

/-- An immutable object of the database. -/
def storedImmutable (d : StoredData) (metadata : CADOMetadata) : CadoBody StoredData :=
  .Immutable ⟨o.sha256 (o.serialize_bin d), d, metadata⟩

def AppStateTip.genesis : AppStateTip where
  block_height := I64.zero
  cado_root_hash := StateTrie.empty_root_hash
  app_hash := o.sha256 (Text.bytes "genesis".toList)

def AppStateTip.to_cado (t : AppStateTip) : CadoBody StoredData :=
  storedImmutable o (.app_state_tip t) ⟨.AppStateTip, "system".toList⟩

/-! ## Snapshots -/

/-- The objects less those of the storage layer itself. -/
def without_infrastructure (cache : CadoCache) : CadoCache :=
  cache.filter (fun path _ => !path.is_infrastructure)

/-- The snapshot of a state with an app hash. -/
def AppState.snapshot (s : AppState) (app_hash : Bytes32) : AppStateSnapshot where
  block_height := s.envelope.block_height
  app_hash := app_hash
  chain_id := s.chain_id
  current_epoch := s.envelope.current_epoch
  committed_cado_cache := without_infrastructure s.envelope.committed_cado_cache
  state_trie_root := s.envelope.state_trie.root_hash
  epoch_records_index := s.envelope.epoch_records_index
  namespace_registry_index := s.envelope.namespace_registry_index
  validators := s.envelope.validators
  active_validators := s.envelope.active_validators
  capacity_validators := s.envelope.capacity_validators
  active_capacity_validator := s.envelope.active_capacity_validator

def AppStateSnapshot.new (s : AppState) : Except EldError AppStateSnapshot :=
  match s.app_hash.bytes with
  | .error err => .error err
  | .ok app_hash => .ok (s.snapshot app_hash)

def AppStateSnapshot.to_cado (sn : AppStateSnapshot) : CadoBody StoredData :=
  storedImmutable o (.app_state_snapshot sn) ⟨.AppStateSnapshot, "system".toList⟩

def AppStateSnapshot.latest_path : CadoPath :=
  .app_state_snapshot (o.sha256 (Text.bytes "latest".toList))

/-- The envelope that a snapshot gives, with the trie rebuilt from its objects. -/
def AppStateSnapshot.restore (sn : AppStateSnapshot) (e : AppStateEnvelope) : AppStateEnvelope :=
  { e with
    block_height := sn.block_height
    current_epoch := sn.current_epoch
    committed_cado_cache := without_infrastructure sn.committed_cado_cache
    epoch_records_index := sn.epoch_records_index
    namespace_registry_index := sn.namespace_registry_index
    validators := sn.validators
    active_validators := sn.active_validators
    capacity_validators := sn.capacity_validators
    active_capacity_validator := sn.active_capacity_validator }.rebuild_state_trie_from_cache o

def AppStateSnapshot.apply_to_state (sn : AppStateSnapshot) (s : AppState)
    (cado_root_hash : Bytes32) : Except EldError AppState :=
  let envelope := sn.restore o s.envelope
  let rebuilt_root := envelope.state_trie.root_hash
  let rebuiltHex := String.ofList (hexDigits 64 rebuilt_root.toNat)
  let tipHex := String.ofList (hexDigits 64 cado_root_hash.toNat)
  let snapshotHex := String.ofList (hexDigits 64 sn.state_trie_root.toNat)
  if rebuilt_root ≠ cado_root_hash then
    .error (.ValidationError "trie_root_hash" rebuiltHex
      ("Critical: Rebuilt state trie root (0x" ++ rebuiltHex ++ ") does not match AppStateTip (0x"
        ++ tipHex ++ "). Wipe volumes or restore from backup."))
  else if sn.state_trie_root ≠ cado_root_hash then
    .error (.ValidationError "state_trie_root" snapshotHex ("Snapshot state_trie_root (0x"
      ++ snapshotHex ++ ") does not match AppStateTip (0x" ++ tipHex ++ ")"))
  else .ok ⟨⟨some sn.app_hash⟩, envelope, sn.chain_id⟩

/-! ## Starting from the database -/

def CadoPath.as_str (p : CadoPath) : String :=
  "/@eld/" ++ p.type_.as_str ++ "/" ++ String.ofList p.name

/-- `get_deserialized_cado_by_path`, with the decoder of one data type. -/
def Storage.get_deserialized_cado_by_path {T : Type} (st : Storage) (path : CadoPath)
    (decode : StoredData → Except EldError T) : Except EldError T :=
  match st.get_cado_by_path o path with
  | .error e => .error e
  | .ok none => .error (.NotFoundError "CADO" path.as_str)
  | .ok (some cado) => decode cado.data

def AppStateTip.deserialize_bin : StoredData → Except EldError AppStateTip
  | .app_state_tip t => .ok t
  | _ => .error (.StorageError "deserialize_app_state_tip" "Failed to deserialize AppStateTip")

def AppStateSnapshot.deserialize_bin : StoredData → Except EldError AppStateSnapshot
  | .app_state_snapshot sn => .ok sn
  | _ => .error (.StorageError "deserialize_app_state_snapshot"
      "Failed to deserialize AppStateSnapshot")

/-- The state that a tip and its snapshot give. The two must be of one height and one hash. -/
def restoreFromSnapshot (s : AppState) (tip : AppStateTip) (sn : AppStateSnapshot) :
    Except EldError AppState :=
  if sn.block_height ≠ tip.block_height then
    .error (.ValidationError "app_state_snapshot.block_height" (toString sn.block_height.val)
      ("AppStateSnapshot height " ++ toString sn.block_height.val
        ++ " does not match AppStateTip height " ++ toString tip.block_height.val))
  else if sn.app_hash ≠ tip.app_hash then
    .error (.ValidationError "app_state_snapshot.app_hash"
      (String.ofList (hexDigits 64 sn.app_hash.toNat))
      "AppStateSnapshot app_hash does not match AppStateTip")
  else sn.apply_to_state o s tip.cado_root_hash

/-- What a start makes of the tip in the database. -/
def restoreFromTip (s : AppState) (st : Storage) (tip : AppStateTip) : Except EldError AppState :=
  let path := AppStateSnapshot.latest_path o
  match st.get_deserialized_cado_by_path o path AppStateSnapshot.deserialize_bin with
  | .ok sn => restoreFromSnapshot o s tip sn
  | .error (.NotFoundError _ _) => .error (.StorageError "load_app_state_snapshot"
      ("Critical: App state snapshot missing from storage. Expected at: " ++ path.as_str
        ++ ". This indicates incomplete state persistence or database corruption. "
        ++ "To recover, either restore from backup or start with clean data."))
  | .error e => .error (.StorageError "load_app_state_snapshot"
      ("Critical: Cannot restore app state from snapshot at " ++ path.as_str ++ ": "
        ++ e.to_string))

def AppState.initialize_with_data (s : AppState) (st : Storage) : Except EldError AppState :=
  let fresh := { s with envelope := { s.envelope with state_trie := StateTrie.empty } }
  match st.get_deserialized_cado_by_path o (.app_state_tip LATEST) AppStateTip.deserialize_bin with
  | .ok tip =>
    restoreFromTip o ⟨⟨some tip.app_hash⟩,
      { fresh.envelope with block_height := tip.block_height }, fresh.chain_id⟩ st tip
  | .error (.NotFoundError _ _) =>
    let genesis := AppStateTip.genesis o
    .ok ⟨⟨some genesis.app_hash⟩,
      { fresh.envelope with block_height := genesis.block_height }, fresh.chain_id⟩
  | .error e => .error e

end eld_chain
