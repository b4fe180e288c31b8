-- The objects of the database. A path leads through the path index to a
-- key, and the key to an object, which is only given out when its own key
-- is that key. Puts and deletes go by the keys, so whether they leave other
-- paths alone depends on which paths share a key.
import EldChain.PrefixQueries

open Std

namespace eld_chain

variable (o : Outside)

/-! ## Objects of bytes -/

/-- `CadoBody::immutable`. -/
def CadoBody.of_bytes (data : Bytes) (metadata : CADOMetadata) : CadoBody Bytes :=
  .Immutable ⟨o.sha256 data, data, metadata⟩

/-- `CadoBody::mutable_updated`. -/
def CadoBody.updated_bytes (original_hash : Bytes32) (data : Bytes) (metadata : CADOMetadata) :
    CadoBody Bytes :=
  .Mutable ⟨original_hash, data, metadata, o.sha256 data⟩

/-- `metadata.with_owner(owner)`. -/
def CADOMetadata.with_owner (metadata : CADOMetadata) (owner : Text) : CADOMetadata :=
  { metadata with owner := owner }

/-- The length of what bincode writes of an object. -/
def CadoBody.serialized_len (cado : CadoBody Bytes) : Nat :=
  (o.bincode.serialize .cado_body cado).length

/-! ## The store -/

/-- The column families of paths and of objects. A row of the second one holds what bincode
writes of an object. -/
structure CadoStore where
  path_index : PathIndex
  cado : ExtTreeMap Bytes32 (CadoBody Bytes) compare

def CadoStore.empty : CadoStore := ⟨PathIndex.empty, ∅⟩

def PathText.max_stored_size (p : PathText) : Nat :=
  if CadoType.parse_type p.type_ = some .AppStateSnapshot then
    MAX_APP_STATE_SNAPSHOT_CADO_SIZE_BYTES
  else MAX_CADO_DATA_SIZE

/-- `deserialize_stored_cado_type`: what bincode wrote is read back, unless it is too long. -/
def PathText.deserialize_stored (p : PathText) (cado : CadoBody Bytes) :
    Except EldError (CadoBody Bytes) :=
  if p.max_stored_size < cado.serialized_len o then
    let e := EldError.ValidationError "data size" (toString (cado.serialized_len o))
      ("CadoBody at " ++ String.ofList p.path ++ ": Data size " ++ toString (cado.serialized_len o)
        ++ " exceeds maximum allowed size " ++ toString p.max_stored_size)
    .error (.StorageError "deserialize_cado" ("Failed to deserialize CadoBody: " ++ e.to_string))
  else .ok cado

/-- What a path reads of the row under its key. -/
def PathText.read_row (p : PathText) (original_key : Bytes32) :
    Option (CadoBody Bytes) → Except EldError (Option (CadoBody Bytes))
  | none => .ok none
  | some data =>
    match p.deserialize_stored o data with
    | .error e => .error e
    | .ok cado =>
      match p.generate o cado with
      | .error e => .error e
      | .ok keys =>
        if keys.original_key ≠ original_key then
          .error (.StorageError "key_validation" "Stored key does not match generated key")
        else .ok (some cado)

def CadoStore.get_cado_by_path (st : CadoStore) (p : PathText) :
    Except EldError (Option (CadoBody Bytes)) :=
  match validate_cado_path_internal p with
  | .error e => .error e
  | .ok () =>
    match st.path_index.rows[p.path]? with
    | none => .ok none
    | some original_key => p.read_row o original_key st.cado[original_key]?

section Reading

variable {o : Outside} {st : CadoStore} {p : PathText} {original_key : Bytes32}

/-- A path reads a row that is short enough and that has its own key there. -/
theorem read_row_eq_some_iff {data cado : CadoBody Bytes} :
    p.read_row o original_key (some data) = .ok (some cado) ↔
      data = cado ∧ cado.serialized_len o ≤ p.max_stored_size ∧
        ∃ keys, p.generate o cado = .ok keys ∧ keys.original_key = original_key := by
  unfold PathText.read_row PathText.deserialize_stored
  by_cases hfits : p.max_stored_size < data.serialized_len o
  · simp only [if_pos hfits]
    constructor
    · intro h
      cases h
    · rintro ⟨rfl, hle, _⟩
      exact absurd hle (Nat.not_le.mpr hfits)
  · simp only [if_neg hfits]
    constructor
    · intro h
      split at h
      · cases h
      · rename_i keys hkeys
        split at h
        · cases h
        · rename_i hkey
          cases h
          exact ⟨rfl, Nat.le_of_not_lt hfits, keys, hkeys, not_not.mp hkey⟩
    · rintro ⟨rfl, _, keys, hkeys, hkey⟩
      rw [hkeys]
      simp only [hkey, ne_eq, not_true_eq_false, if_false]

theorem read_row_of_long {data : CadoBody Bytes} (h : p.max_stored_size < data.serialized_len o) :
    ∃ e, p.read_row o original_key (some data) = .error e := by
  unfold PathText.read_row PathText.deserialize_stored
  simp only [if_pos h]
  exact ⟨_, rfl⟩

theorem get_of_row (hvalid : validate_cado_path_internal p = .ok ())
    (hindex : st.path_index.rows[p.path]? = some original_key) :
    st.get_cado_by_path o p = p.read_row o original_key st.cado[original_key]? := by
  unfold CadoStore.get_cado_by_path
  rw [hvalid, hindex]

end Reading

/-! ## Puts -/

/-- `put_cado_type`: a path that is in the index keeps its key. -/
def CadoStore.put_cado_type (st : CadoStore) (p : ParsedPath) (cado : CadoBody Bytes) :
    Except EldError CadoStore :=
  match p.put_key o "generate_key" st.path_index.rows[p.path]? cado with
  | .error e => .error e
  | .ok original_key =>
    .ok ⟨st.path_index.put p original_key, st.cado.insert original_key cado⟩

def PathText.is_mutable (p : PathText) : Bool :=
  p.type_ == "account".toList || p.type_ == "staking_account".toList

/-- The check that `put_cado_data` makes of the name of an account. -/
def validate_mutable_name (name : Text) : Except EldError Unit :=
  let wrongLength := EldError.ValidationError "address" (String.ofList name)
    "Address must be exactly 20 bytes (40 hex characters after 0x)"
  if starts_with_0x name = false then .error wrongLength
  else match hex_decode (name.drop 2) with
    | .error e => .error (.ValidationError "address" (String.ofList name)
        ("Invalid hex format: " ++ e.to_string))
    | .ok bytes => if bytes.length ≠ 20 then .error wrongLength else .ok ()

/-- The hash of the account that a put takes as the first one at an address. -/
def PathText.original_hash (p : PathText) (address : Address) : Bytes32 :=
  if p.type_ = "account".toList then o.digest (.account ⟨address, Coin.zero, ⟨0⟩⟩)
  else o.digest (.staking_account ⟨address, Coin.zero, address⟩)

/-- The object that a put of an account writes. -/
def PathText.mutable_cado (p : PathText) (data : Bytes) (metadata : CADOMetadata) :
    Except EldError (CadoBody Bytes) := do
  validate_mutable_name p.name
  let address ← Address.parse_hex_str p.name
  .ok (.updated_bytes o (p.original_hash o address) data (metadata.with_owner p.name))

/-- Erases a row, if there is a key to erase. -/
def eraseKey (cado : ExtTreeMap Bytes32 (CadoBody Bytes) compare) :
    Option Bytes32 → ExtTreeMap Bytes32 (CadoBody Bytes) compare
  | none => cado
  | some key => cado.erase key

/-- The second key of the object that stands under a key, where it is a mutable one. -/
def PathText.old_latest_key (p : PathText) :
    Option (CadoBody Bytes) → Except EldError (Option Bytes32)
  | some (.Mutable m) =>
    match p.generate o (CadoBody.Mutable m) with
    | .error e => .error (.StorageError "generate_old_keys"
        ("Failed to generate old CADO keys: " ++ e.to_string))
    | .ok old_keys => .ok old_keys.latest_key
  | _ => .ok none

/-- `put_cado_data` of an account: the object goes under both its keys, and the second key of
the old one is cleared. -/
def CadoStore.put_mutable_data (st : CadoStore) (p : ParsedPath) (data : Bytes)
    (metadata : CADOMetadata) : Except EldError CadoStore := do
  let cado ← p.mutable_cado o data metadata
  let keys ← p.generate o cado
  let old_latest_key ← p.old_latest_key o st.cado[keys.original_key]?
  let written := (eraseKey st.cado old_latest_key).insert keys.original_key cado
  .ok ⟨st.path_index.put p keys.original_key,
    match keys.latest_key with
    | none => written
    | some latest_key => written.insert latest_key cado⟩

/-- `put_cado_data` of any other object. -/
def CadoStore.put_immutable_data (st : CadoStore) (p : ParsedPath) (data : Bytes)
    (metadata : CADOMetadata) : Except EldError CadoStore := do
  let cado := CadoBody.of_bytes o data metadata
  let keys ← p.generate o cado
  .ok ⟨st.path_index.put p keys.original_key, st.cado.insert keys.original_key cado⟩

def CadoStore.put_cado_data (st : CadoStore) (p : ParsedPath) (data : Bytes)
    (metadata : CADOMetadata) : Except EldError CadoStore := do
  validate_cado_path_internal p.toPathText
  if p.is_mutable then st.put_mutable_data o p data metadata
  else st.put_immutable_data o p data metadata

/-! ## Deletes -/

def SYSTEM_DELETABLE_TYPES : List Text :=
  ["chunk_reference", "snapshot_chunk", "snapshot_metadata"].map String.toList

def PathText.validate_system_deletion (p : PathText) : Except EldError Unit :=
  if SYSTEM_DELETABLE_TYPES.contains p.type_ = false then
    .error (.ValidationError "cado_type" (String.ofList p.type_)
      ("CADO type '" ++ String.ofList p.type_ ++ "' is not allowed for system deletion. " ++
        "Only system-managed cleanup data can be deleted."))
  else if p.scope ≠ SCOPE_ELD_ROOT then
    .error (.ValidationError "cado_scope" (String.ofList p.scope)
      ("System deletions are only allowed in " ++ String.ofList SCOPE_ELD_ROOT ++
        " scope, got scope '" ++ String.ofList p.scope ++ "'"))
  else .ok ()

/-- `prepare_system_cado_deletion`: the keys to delete. -/
def CadoStore.prepare_system_cado_deletion (st : CadoStore) (p : PathText) (owner : Text) :
    Except EldError CADOKeys := do
  validate_cado_path_internal p
  p.validate_system_deletion
  match ← st.get_cado_by_path o p with
  | none => .error (.StorageError "get_cado_by_path" ("CADO not found: " ++ String.ofList p.path))
  | some cado =>
    if cado.metadata.owner ≠ owner then
      .error (.StorageError "ownership_verification" ("Unauthorized: caller "
        ++ String.ofList owner ++ " is not the owner " ++ String.ofList cado.metadata.owner))
    else p.generate o cado

/-- `delete_cado_associated_keys_db`, less the row of the column of maps, which no read by path
asks for. -/
def CadoStore.delete_keys (st : CadoStore) (p : PathText) (keys : CADOKeys) : CadoStore :=
  ⟨st.path_index.delete_path_index p.path,
    eraseKey (st.cado.erase keys.original_key) keys.latest_key⟩

def CadoStore.system_delete_cado (st : CadoStore) (p : PathText) (owner : Text) :
    Except EldError CadoStore := do
  let keys ← st.prepare_system_cado_deletion o p owner
  .ok (st.delete_keys p keys)

/-! ## Objects keyed by their contents -/

section Contents

variable {o : Outside} {st : CadoStore} {p : CadoPath}

/-- The paths that a system delete is for. -/
def CadoPath.Deletable (p : CadoPath) : Prop :=
  p.type_ = .ChunkReference ∨ p.type_ = .SnapshotChunk ∨ p.type_ = .SnapshotMetadata

theorem CadoPath.Deletable.canonical (h : p.Deletable) : p.Canonical := by
  cases p with
  | namespace_registry slug => simp [CadoPath.Deletable, CadoPath.type_] at h
  | _ => exact trivial

/-- The name of such a path is a hash in hex. -/
theorem CadoPath.Deletable.name (h : p.Deletable) : ∃ n : Bytes32, p.name = Bytes32.text n := by
  cases p with
  | snapshot_metadata n | snapshot_chunk n | chunk_reference n => exact ⟨n, rfl⟩
  | _ => simp [CadoPath.Deletable, CadoPath.type_] at h

/-- The key of an immutable object at such a path follows its hash. -/
theorem generate_of_contents (h : p.Deletable) (c : CADO Bytes) :
    p.parts.generate o (.Immutable c) =
      .ok ⟨keyFor o p.type_ (hexDigits 64 c.hash.toNat), none⟩ := by
  have hparse : CadoType.parse_type p.parts.type_ = some p.type_ := parse_type_as_str p.type_
  obtain ⟨n, hn⟩ := h.name
  have hname : p.parts.name = '0' :: 'x' :: hexDigits (2 * 32) n.toNat := hn
  have hdecode : hex_decode (p.parts.name.drop 2) = .ok (beBytes 32 n.toNat) := by
    rw [hname]
    exact hex_decode_hexDigits 32 n.toNat
  have hstart : starts_with_0x p.parts.name = true := by rw [hname, starts_with_0x_cons]
  have hchecked : GeneralKeyGenerator.check_name p.parts (.Immutable c) = .ok () := by
    unfold GeneralKeyGenerator.check_name
    rw [hstart, if_neg Bool.noConfusion, hdecode]
    simp only [length_beBytes, ne_eq, not_true_eq_false, if_false]
  have hgeneral : GeneralKeyGenerator.generate_original_key o p.parts (.Immutable c) =
      .ok (keyFor o p.type_ (hexDigits 64 c.hash.toNat)) := by
    unfold GeneralKeyGenerator.generate_original_key
    rw [hchecked, keyFor_parts]
    rfl
  have hkey : p.parts.generate_key o (.Immutable c) =
      .ok (keyFor o p.type_ (hexDigits 64 c.hash.toNat)) := by
    unfold PathText.generate_key
    rw [hparse]
    rcases h with htype | htype | htype <;> rw [htype] at hgeneral ⊢ <;> exact hgeneral
  have hlatest : p.parts.generate_latest_key o (.Immutable c) = .ok none := by
    unfold PathText.generate_latest_key
    rw [hparse]
    rcases h with htype | htype | htype <;> rw [htype] <;> rfl
  unfold PathText.generate
  rw [hkey, hlatest]
  rfl

theorem validate_of_contents (h : p.Deletable) :
    validate_cado_path_internal p.parts = .ok () :=
  validate_cado_path_as_str h.canonical

theorem max_stored_size_of_contents (h : p.Deletable) :
    p.parts.max_stored_size = MAX_CADO_DATA_SIZE := by
  have hparse : CadoType.parse_type p.parts.type_ = some p.type_ := parse_type_as_str p.type_
  unfold PathText.max_stored_size
  rw [hparse, if_neg]
  intro htype
  unfold CadoPath.Deletable at h
  rw [Option.some.inj htype] at h
  simp at h

/-- A put of bytes at such a path. -/
theorem put_of_contents (h : p.Deletable) (data : Bytes) (metadata : CADOMetadata) :
    st.put_cado_data o (p.parsedPath h.canonical) data metadata =
      .ok ⟨st.path_index.put (p.parsedPath h.canonical)
          (keyFor o p.type_ (hexDigits 64 (o.sha256 data).toNat)),
        st.cado.insert (keyFor o p.type_ (hexDigits 64 (o.sha256 data).toNat))
          (.of_bytes o data metadata)⟩ := by
  have hvalid : validate_cado_path_internal (p.parsedPath h.canonical).toPathText = .ok () :=
    validate_of_contents h
  have htext : (p.parsedPath h.canonical).type_ = p.type_.as_str.toList := rfl
  have himmutable : (p.parsedPath h.canonical).is_mutable = false := by
    unfold PathText.is_mutable
    rw [htext]
    rcases h with htype | htype | htype <;> rw [htype] <;> decide
  have hkeys : (p.parsedPath h.canonical).generate o (CadoBody.of_bytes o data metadata) =
      .ok ⟨keyFor o p.type_ (hexDigits 64 (o.sha256 data).toNat), none⟩ :=
    generate_of_contents h _
  unfold CadoStore.put_cado_data CadoStore.put_immutable_data
  rw [hvalid, himmutable]
  simp only [hkeys]
  rfl

/-- The owner of an object that is read at such a path may have it deleted. -/
theorem prepare_of_contents (h : p.Deletable) {c : CADO Bytes}
    (hread : st.get_cado_by_path o p.parts = .ok (some (.Immutable c))) :
    st.prepare_system_cado_deletion o p.parts c.metadata.owner =
      .ok ⟨keyFor o p.type_ (hexDigits 64 c.hash.toNat), none⟩ := by
  have hdeletable : p.parts.validate_system_deletion = .ok () := by
    have htext : p.parts.type_ = p.type_.as_str.toList := rfl
    have hscope : p.parts.scope = SCOPE_ELD_ROOT := rfl
    unfold PathText.validate_system_deletion
    rw [htext, hscope]
    rcases h with htype | htype | htype <;> rw [htype] <;> rfl
  have howner : (CadoBody.Immutable c).metadata.owner = c.metadata.owner := rfl
  unfold CadoStore.prepare_system_cado_deletion
  rw [validate_of_contents h, hdeletable, hread]
  simp only [bind, Except.bind, howner, ne_eq, not_true_eq_false, if_false]
  exact generate_of_contents h c

end Contents

end eld_chain
