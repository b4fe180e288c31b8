-- The database behind consensus: the key of an object, the put that a
-- commit makes, the read by path and the system delete. A path that the
-- path index does not hold reads as nothing.
import EldChain.Outside
import EldChain.Library.FiniteMaps

open Std

namespace eld_chain

variable (o : Outside)

/-! ## Storage keys -/

/-- `Sha256("@eld|type|last")`. -/
def keyFor (type_ : CadoType) (last : Text) : Bytes32 :=
  o.sha256 (Text.bytes ("@eld|".toList ++ type_.as_str.toList ++ '|' :: last))

/-- `AccountKeyGenerator`: the object is mutable and owned by the account in its path. -/
def accountKey (path : CadoPath) (cado : CadoBody StoredData) : Except EldError Bytes32 :=
  match cado with
  | .Immutable _ =>
    .error (.ValidationError "cado_type" "immutable" "Expected mutable CADO for account type")
  | .Mutable m =>
    if m.metadata.owner = path.name then
      .ok (keyFor o path.type_ (hexDigits 64 (o.sha256 (Text.bytes path.name)).toNat))
    else .error (.ValidationError "metadata_owner" (String.ofList m.metadata.owner)
      "Metadata owner does not match path name")

/-- `GeneralKeyGenerator`: the key follows the content. A mutable object must be named by
its first or its latest hash. -/
def generalKey (path : CadoPath) (name : Bytes32) (cado : CadoBody StoredData) :
    Except EldError Bytes32 :=
  match cado with
  | .Immutable c => .ok (keyFor o path.type_ (hexDigits 64 c.hash.toNat))
  | .Mutable m =>
    if name ≠ m.hash ∧ name ≠ m.latest_hash then
      .error (.ValidationError "path_name" (String.ofList path.name)
        "Hash does not match path name")
    else .ok (keyFor o path.type_ (hexDigits 64 m.hash.toNat))

/-- `CADOKeyGenerator::generate_key`. -/
def generate_key (path : CadoPath) (cado : CadoBody StoredData) : Except EldError Bytes32 :=
  match path with
  | .account _ | .staking_account _ | .storage_staking_account _ => accountKey o path cado
  | .app_state_tip _ | .app_state_snapshot _ | .epoch_record _ | .namespace_registry _ =>
    .ok (keyFor o path.type_ path.name)
  | .cado_map n | .snapshot_metadata n | .snapshot_chunk n | .chunk_reference n =>
    generalKey o path n cado

/-- The secondary key of a mutable object. -/
def generate_latest_key (path : CadoPath) (cado : CadoBody StoredData) : Option Bytes32 :=
  cado.latest_hash.map (fun h => keyFor o path.type_ (hexDigits 64 h.toNat))

/-! ## Reading and writing -/

def MAX_CADO_DATA_SIZE : Nat := 1024 * 1024

def MAX_APP_STATE_SNAPSHOT_CADO_SIZE_BYTES : Nat := 256 * 1024 * 1024

/-- The size limit that `deserialize_stored_cado_type` sets for a path. -/
def maxStoredSize : CadoPath → Nat
  | .app_state_snapshot _ => MAX_APP_STATE_SNAPSHOT_CADO_SIZE_BYTES
  | _ => MAX_CADO_DATA_SIZE

/-- `deserialize_stored_cado_type`: an object that is too large is an error. -/
def deserialize_stored_cado_type (path : CadoPath) (cado : CadoBody StoredData) :
    Except EldError (CadoBody StoredData) :=
  let size := (o.serialize_body cado).length
  if size = 0 ∨ maxStoredSize path < size then
    .error (.StorageError "deserialize_cado" ("Failed to deserialize CadoBody: data size "
      ++ toString size))
  else .ok cado

/-- The key a put writes to: a path that is in the index keeps its key. -/
def Storage.original_key (st : Storage) (path : CadoPath) (cado : CadoBody StoredData) :
    Except EldError Bytes32 :=
  match st.path_index[path]? with
  | some key => .ok key
  | none => generate_key o path cado

/-- `put_cadotype_by_path_with_tx`. Every path of the model passes the path security check. -/
def Storage.put_cado_type_with_tx (st : Storage) (path : CadoPath) (cado : CadoBody StoredData) :
    Except EldError Storage :=
  match st.original_key o path cado with
  | .error e => .error (.StorageError "key_generation" ("Failed to generate CADO key: "
      ++ e.to_string))
  | .ok key => .ok { st with
      cado := st.cado.insert key cado
      path_index := st.path_index.insert path key }

/-- `get_cado_by_path`: the index names the key, and the stored object must give that key. -/
def Storage.get_cado_by_path (st : Storage) (path : CadoPath) :
    Except EldError (Option (CadoBody StoredData)) :=
  match st.path_index[path]? with
  | none => .ok none
  | some original_key =>
    match st.cado[original_key]? with
    | none => .ok none
    | some stored =>
      match deserialize_stored_cado_type o path stored with
      | .error e => .error e
      | .ok cado =>
        match generate_key o path cado with
        | .error e => .error e
        | .ok key =>
          if key = original_key then .ok (some cado)
          else .error (.StorageError "key_validation" "Stored key does not match generated key")

def CadoPath.is_system_deletable : CadoPath → Bool
  | .chunk_reference _ | .snapshot_chunk _ | .snapshot_metadata _ => true
  | _ => false

/-- `system_delete_cado_with_tx`: the checks read the database, the deletes go to the
open transaction. -/
def Storage.system_delete_cado_with_tx (db tx : Storage) (path : CadoPath) (owner : Text) :
    Except EldError Storage :=
  if path.is_system_deletable = false then
    .error (.ValidationError "cado_type" path.type_.as_str
      "CADO type is not allowed for system deletion")
  else
    match db.get_cado_by_path o path with
    | .error e => .error e
    | .ok none => .error (.StorageError "get_cado_by_path"
        ("CADO not found: " ++ String.ofList path.name))
    | .ok (some cado) =>
      if cado.metadata.owner ≠ owner then
        .error (.StorageError "ownership_verification" ("Unauthorized: caller "
          ++ String.ofList owner ++ " is not the owner " ++ String.ofList cado.metadata.owner))
      else
        match generate_key o path cado with
        | .error e => .error e
        | .ok key =>
          let cado_cf := tx.cado.erase key
          .ok { tx with
            cado := match generate_latest_key o path cado with
              | some latest => cado_cf.erase latest
              | none => cado_cf
            path_index := tx.path_index.erase path }

/-! ## What a put changes -/

/-- A put writes the body under the path's key, and touches no other path of the index. -/
theorem put.spec {st st' : Storage} {path : CadoPath} {cado : CadoBody StoredData}
    (h : st.put_cado_type_with_tx o path cado = .ok st') :
    ∃ key, st.original_key o path cado = .ok key ∧
      st' = { st with cado := st.cado.insert key cado,
                      path_index := st.path_index.insert path key } := by
  unfold Storage.put_cado_type_with_tx at h
  split at h
  · cases h
  · rename_i key hk
    cases h
    exact ⟨key, hk, rfl⟩

/-- A path outside the index reads as nothing. -/
theorem get_of_unindexed {st : Storage} {path : CadoPath} (h : st.path_index[path]? = none) :
    st.get_cado_by_path o path = .ok none := by
  unfold Storage.get_cado_by_path
  rw [h]

end eld_chain
