-- The chunks of snapshots in the database. A chunk stands at a path that is
-- the hash of its height and its index, under a key that follows its
-- contents. It is stored whatever its length, and read only while its
-- object is short enough.
import EldChain.EpochStore
import EldChain.SnapshotListing

open Std

namespace eld_chain

/-! ## The record -/

theorem SnapshotChunk.fields_iff (c d : SnapshotChunk) :
    (c.index = d.index ∧ c.data = d.data ∧ c.hash = d.hash ∧ c.size = d.size) ↔ c = d := by
  cases c
  cases d
  simp

instance : DecidableEq SnapshotChunk := fun c d =>
  decidable_of_iff (c.index = d.index ∧ c.data = d.data ∧ c.hash = d.hash ∧ c.size = d.size)
    (SnapshotChunk.fields_iff c d)

/-! ## The calls of the storage -/

variable (o : Outside)

/-- `format!("{height}_{chunk_index}")`. -/
def chunk_id (height : I64) (chunk_index : UInt32) : Text :=
  (toString height.val ++ "_" ++ toString chunk_index.toNat).toList

def chunk_path (height : I64) (chunk_index : UInt32) : CadoPath :=
  .snapshot_chunk (o.sha256 (Text.bytes (chunk_id height chunk_index)))

theorem chunk_canonical (height : I64) (chunk_index : UInt32) :
    (chunk_path o height chunk_index).Canonical := trivial

def snapshotChunkOwner : CADOMetadata := ⟨.SnapshotChunk, "system".toList⟩

/-- What is not there is no error to the readers of snapshots. -/
def foundOrNone {T : Type} : Except EldError T → Except EldError (Option T)
  | .ok found => .ok (some found)
  | .error (.NotFoundError _ _) => .ok none
  | .error e => .error e

def CadoStore.get_snapshot_metadata (st : CadoStore) (height : I64) :
    Except EldError (Option SnapshotMetadata) :=
  foundOrNone (st.get_deserialized_cado_by_path o (snapshot_path o height).parts
    (SnapshotMetadata.deserialize_bin o))

def CadoStore.put_snapshot_chunk (st : CadoStore) (height : I64) (chunk : SnapshotChunk) :
    Except EldError CadoStore :=
  st.put_cado_data o
    ((chunk_path o height chunk.index).parsedPath (chunk_canonical o height chunk.index))
    (chunk.serialize_bin o) snapshotChunkOwner

def CadoStore.get_snapshot_chunk (st : CadoStore) (height : I64) (chunk_index : UInt32) :
    Except EldError (Option SnapshotChunk) :=
  foundOrNone (st.get_deserialized_cado_by_path o (chunk_path o height chunk_index).parts
    (SnapshotChunk.deserialize_bin o))

def CadoStore.delete_snapshot_chunk (st : CadoStore) (height : I64) (chunk_index : UInt32) :
    Except EldError CadoStore :=
  st.system_delete_cado o (chunk_path o height chunk_index).parts snapshotChunkOwner.owner

/-! ## Reading an object by its contents -/

section Contents

variable {o : Outside} {st : CadoStore} {p : CadoPath} {data : Bytes} {metadata : CADOMetadata}

/-- The key of an object that is keyed by its contents. -/
def CadoPath.contentKey (o : Outside) (p : CadoPath) (data : Bytes) : Bytes32 :=
  keyFor o p.type_ (hexDigits 64 (o.sha256 data).toNat)

/-- The store has the object of these contents at the path. -/
def CadoStore.HasAt (o : Outside) (st : CadoStore) (p : CadoPath) (data : Bytes)
    (metadata : CADOMetadata) : Prop :=
  st.path_index.rows[p.parts.path]? = some (p.contentKey o data) ∧
    st.cado[p.contentKey o data]? = some (.of_bytes o data metadata)

theorem CadoStore.HasAt.get_row (h : st.HasAt o p data metadata) (hp : p.Deletable) :
    st.get_cado_by_path o p.parts =
      p.parts.read_row o (p.contentKey o data) (some (.of_bytes o data metadata)) := by
  rw [get_of_row (validate_of_contents hp) h.1, h.2]

/-- An object that is short enough is read. -/
theorem CadoStore.HasAt.get (h : st.HasAt o p data metadata) (hp : p.Deletable)
    (hshort : (CadoBody.of_bytes o data metadata).serialized_len o ≤ MAX_CADO_DATA_SIZE) :
    st.get_cado_by_path o p.parts = .ok (some (.of_bytes o data metadata)) := by
  rw [h.get_row hp]
  apply read_row_eq_some_iff.mpr
  refine ⟨rfl, ?_, _, generate_of_contents hp _, rfl⟩
  rw [max_stored_size_of_contents hp]
  exact hshort

/-- An object that is too long is an error of the storage. -/
theorem CadoStore.HasAt.get_long (h : st.HasAt o p data metadata) (hp : p.Deletable)
    (hlong : ¬ (CadoBody.of_bytes o data metadata).serialized_len o ≤ MAX_CADO_DATA_SIZE) :
    ∃ details, st.get_cado_by_path o p.parts =
      .error (.StorageError "deserialize_cado" details) := by
  have hover : p.parts.max_stored_size < (CadoBody.of_bytes o data metadata).serialized_len o := by
    rw [max_stored_size_of_contents hp]
    omega
  rw [h.get_row hp]
  unfold PathText.read_row PathText.deserialize_stored
  simp only [if_pos hover]
  exact ⟨_, rfl⟩

section Finding

variable {T : Type} {deserialize_bin : Bytes → Except EldError T} {v : T}

theorem CadoStore.HasAt.found (h : st.HasAt o p data metadata) (hp : p.Deletable)
    (hshort : (CadoBody.of_bytes o data metadata).serialized_len o ≤ MAX_CADO_DATA_SIZE)
    (hback : deserialize_bin data = .ok v) :
    foundOrNone (st.get_deserialized_cado_by_path o p.parts deserialize_bin) = .ok (some v) := by
  have hdata : (CadoBody.of_bytes o data metadata).data = data := rfl
  unfold CadoStore.get_deserialized_cado_by_path
  rw [h.get hp hshort]
  simp only [hdata, hback]
  rfl

theorem CadoStore.HasAt.found_long (h : st.HasAt o p data metadata) (hp : p.Deletable)
    (hlong : ¬ (CadoBody.of_bytes o data metadata).serialized_len o ≤ MAX_CADO_DATA_SIZE) :
    ∃ details, foundOrNone (st.get_deserialized_cado_by_path o p.parts deserialize_bin) =
      .error (.StorageError "deserialize_cado" details) := by
  obtain ⟨details, hget⟩ := h.get_long hp hlong
  unfold CadoStore.get_deserialized_cado_by_path
  rw [hget]
  exact ⟨details, rfl⟩

theorem found_nothing (hp : p.Deletable) (hrow : st.path_index.rows[p.parts.path]? = none) :
    foundOrNone (st.get_deserialized_cado_by_path o p.parts deserialize_bin) = .ok none := by
  unfold CadoStore.get_deserialized_cado_by_path CadoStore.get_cado_by_path
  rw [validate_of_contents hp, hrow]
  rfl

end Finding

end Contents

end eld_chain
