-- What a database of snapshots is for: a history of the metadata and the
-- chunks that were put. The metadata of a height are the last ones put for
-- it, and so is the chunk of a height and an index. The rows of the
-- database stand for such a history as long as SHA-256 tells apart what
-- was put.
import EldChain.Library.LastWrites
import EldChain.SnapshotChunks

open Std last_writes

namespace eld_chain

/-! ## The history -/

inductive ArchiveWrite
  | metadata (m : SnapshotMetadata)
  | chunk (height : I64) (c : SnapshotChunk)
deriving DecidableEq

/-- The puts of an archive, oldest first. -/
abbrev Archive := List ArchiveWrite

def ArchiveWrite.ofChunk : ArchiveWrite → Option (I64 × SnapshotChunk)
  | .metadata _ => none
  | .chunk height c => some (height, c)

/-- New metadata take the place of those of their height. -/
def storeWrite (stored : List SnapshotMetadata) : ArchiveWrite → List SnapshotMetadata
  | .metadata m => m :: stored.filter (fun n => n.height ≠ m.height)
  | .chunk _ _ => stored

/-- The snapshots that stand. -/
def Archive.stored (a : Archive) : List SnapshotMetadata := a.foldl storeWrite []

def Archive.chunks (a : Archive) : List (I64 × SnapshotChunk) := a.filterMap ArchiveWrite.ofChunk

/-- The place of a chunk. -/
def placeOf (w : I64 × SnapshotChunk) : I64 × UInt32 := (w.1, w.2.index)

def Archive.metadataAt (a : Archive) (height : I64) : Option SnapshotMetadata :=
  a.stored.find? (fun m => m.height = height)

def Archive.chunkAt (a : Archive) (height : I64) (index : UInt32) : Option SnapshotChunk :=
  (lastBy placeOf a.chunks (height, index)).map Prod.snd

theorem Archive.stored_snoc (a : Archive) (w : ArchiveWrite) :
    Archive.stored (a ++ [w]) = storeWrite a.stored w := by
  simp [Archive.stored]

theorem Archive.chunks_metadata (a : Archive) (m : SnapshotMetadata) :
    Archive.chunks (a ++ [.metadata m]) = a.chunks := by
  unfold Archive.chunks
  rw [List.filterMap_append, List.filterMap_cons_none rfl, List.filterMap_nil, List.append_nil]

theorem Archive.chunks_chunk (a : Archive) (height : I64) (c : SnapshotChunk) :
    Archive.chunks (a ++ [.chunk height c]) = a.chunks ++ [(height, c)] := by
  unfold Archive.chunks
  rw [List.filterMap_append]
  rfl

theorem Archive.chunkAt_chunk (a : Archive) (height : I64) (c : SnapshotChunk) (h : I64)
    (index : UInt32) : Archive.chunkAt (a ++ [.chunk height c]) h index =
      if (height, c.index) = (h, index) then some c else a.chunkAt h index := by
  unfold Archive.chunkAt
  rw [Archive.chunks_chunk, lastBy_snoc]
  by_cases hplace : (height, c.index) = (h, index)
  · simp [placeOf, hplace]
  · simp [placeOf, hplace]

theorem Archive.chunkAt_metadata (a : Archive) (m : SnapshotMetadata) (h : I64) (index : UInt32) :
    Archive.chunkAt (a ++ [.metadata m]) h index = a.chunkAt h index := by
  unfold Archive.chunkAt
  rw [Archive.chunks_metadata]

theorem Archive.chunkAt_mem {a : Archive} {height : I64} {index : UInt32} {c : SnapshotChunk}
    (h : a.chunkAt height index = some c) : (height, c) ∈ a.chunks ∧ c.index = index := by
  obtain ⟨⟨h', c'⟩, hlast, rfl⟩ := Option.map_eq_some_iff.mp h
  obtain ⟨hmem, hplace⟩ := lastBy_eq_some hlast
  simp only [placeOf, Prod.mk.injEq] at hplace
  obtain ⟨rfl, rfl⟩ := hplace
  exact ⟨hmem, rfl⟩

/-- A place without a chunk was never written. -/
theorem Archive.chunkAt_none {a : Archive} {height : I64} {index : UInt32}
    (h : a.chunkAt height index = none) : ∀ w ∈ a.chunks, placeOf w ≠ (height, index) := by
  intro w hw hplace
  obtain ⟨last, hlast⟩ := lastBy_of_mem (f := placeOf) hw
  unfold Archive.chunkAt at h
  rw [← hplace, hlast] at h
  cases h

/-! ## The rows of a history -/

/-- The text of the path of a chunk. -/
def chunkText (o : Outside) (height : I64) (index : UInt32) : Text :=
  (chunk_path o height index).parts.path

/-- The key of a chunk, which follows its contents. -/
def SnapshotChunk.key (o : Outside) (c : SnapshotChunk) : Bytes32 :=
  keyFor o .SnapshotChunk (hexDigits 64 (o.sha256 (c.serialize_bin o)).toNat)

/-- The object that a put of a chunk writes. -/
def SnapshotChunk.cado (o : Outside) (c : SnapshotChunk) : CadoBody Bytes :=
  .of_bytes o (c.serialize_bin o) snapshotChunkOwner

/-- The object of a chunk is short enough to be read. -/
def SnapshotChunk.Readable (o : Outside) (c : SnapshotChunk) : Prop :=
  (c.cado o).serialized_len o ≤ MAX_CADO_DATA_SIZE

instance (o : Outside) (c : SnapshotChunk) : Decidable (c.Readable o) :=
  inferInstanceAs (Decidable (_ ≤ _))

/-- The database has the rows of a history. -/
structure HoldsArchive (o : Outside) (st : CadoStore) (a : Archive) : Prop where
  snapshots : HoldsSnapshots o st a.stored
  written : ∀ height index, chunkText o height index ∈ st.path_index.rows →
    ∃ w ∈ a.chunks, chunkText o w.1 w.2.index = chunkText o height index
  chunks : ∀ height index c, a.chunkAt height index = some c →
    st.HasAt o (chunk_path o height index) (c.serialize_bin o) snapshotChunkOwner

/-- SHA-256 tells the place of a chunk from those of the chunks in a history. -/
def Archive.PlaceApart (o : Outside) (a : Archive) (height : I64) (index : UInt32) : Prop :=
  ∀ w ∈ a.chunks, chunkText o w.1 w.2.index = chunkText o height index →
    placeOf w = (height, index)

/-- SHA-256 tells a height from those of the snapshots in a history. -/
def Archive.HeightApart (o : Outside) (a : Archive) (height : I64) : Prop :=
  ∀ m ∈ a.stored, m.text o = (snapshot_path o height).parts.path → m.height = height

/-- SHA-256 tells what is put from what a history has. -/
def Archive.Apart (o : Outside) (a : Archive) : ArchiveWrite → Prop
  | .metadata m => HashesApart o (m :: a.stored) ∧ ∀ w ∈ a.chunks, w.2.key o ≠ m.key o
  | .chunk height c => a.PlaceApart o height c.index ∧
      (∀ w ∈ a.chunks, w.2.key o = c.key o → w.2.serialize_bin o = c.serialize_bin o) ∧
      ∀ m ∈ a.stored, m.key o ≠ c.key o

variable {o : Outside} {st st' : CadoStore} {a : Archive}

instance (height : I64) (index : UInt32) : Decidable (a.PlaceApart o height index) :=
  inferInstanceAs (Decidable (∀ w ∈ a.chunks,
    chunkText o w.1 w.2.index = chunkText o height index → placeOf w = (height, index)))

instance (height : I64) : Decidable (a.HeightApart o height) :=
  inferInstanceAs (Decidable (∀ m ∈ a.stored,
    m.text o = (snapshot_path o height).parts.path → m.height = height))

instance : (w : ArchiveWrite) → Decidable (a.Apart o w)
  | .metadata m => inferInstanceAs (Decidable (HashesApart o (m :: a.stored) ∧
      ∀ w ∈ a.chunks, w.2.key o ≠ m.key o))
  | .chunk height c => inferInstanceAs (Decidable (a.PlaceApart o height c.index ∧
      (∀ w ∈ a.chunks, w.2.key o = c.key o → w.2.serialize_bin o = c.serialize_bin o) ∧
      ∀ m ∈ a.stored, m.key o ≠ c.key o))

/-! ## Puts -/

theorem deletable_snapshot_chunk (n : Bytes32) : (CadoPath.snapshot_chunk n).Deletable :=
  Or.inr (Or.inl rfl)

theorem chunk_canonical_at (o : Outside) (height : I64) (c : SnapshotChunk) :
    (chunk_path o height c.index).Canonical := chunk_canonical o height c.index

/-- What a put of a chunk leaves. -/
def CadoStore.withSnapshotChunk (o : Outside) (st : CadoStore) (height : I64) (c : SnapshotChunk) :
    CadoStore :=
  ⟨st.path_index.put ((chunk_path o height c.index).parsedPath (chunk_canonical_at o height c))
    (c.key o), st.cado.insert (c.key o) (c.cado o)⟩

theorem put_chunk_eq (o : Outside) (st : CadoStore) (height : I64) (c : SnapshotChunk) :
    st.put_snapshot_chunk o height c = .ok (st.withSnapshotChunk o height c) :=
  put_of_contents (deletable_snapshot_chunk _) (c.serialize_bin o) snapshotChunkOwner

theorem content_key_chunk (height : I64) (index : UInt32) (c : SnapshotChunk) :
    (chunk_path o height index).contentKey o (c.serialize_bin o) = c.key o := rfl

/-- Paths of different types have different texts. -/
theorem text_ne_of_type {p q : CadoPath} (hp : p.Canonical) (hq : q.Canonical)
    (htype : p.type_ ≠ q.type_) : p.parts.path ≠ q.parts.path := by
  intro heq
  rw [path_of_parts, path_of_parts] at heq
  have hparse := parse_as_str hp
  rw [heq, parse_as_str hq, Except.ok.injEq] at hparse
  have htext := congrArg PathText.type_ hparse
  rw [type_of_parts, type_of_parts] at htext
  have hsame : CadoType.parse_type q.type_.as_str.toList = some p.type_ := by
    rw [htext]
    exact parse_type_as_str _
  rw [parse_type_as_str] at hsame
  exact htype (Option.some.inj hsame).symm

theorem chunk_text_ne (height : I64) (index : UInt32) (h : I64) :
    chunkText o height index ≠ (snapshot_path o h).parts.path :=
  text_ne_of_type trivial trivial CadoType.noConfusion

/-- A chunk has no path under the prefix of the metadata. -/
theorem chunk_text_not_lead (height : I64) (index : UInt32) :
    ¬ PATH_PREFIX_SNAPSHOT_METADATA <+: chunkText o height index := by
  have htext := as_str_toList (chunk_path o height index)
  have htype : (chunk_path o height index).type_ = .SnapshotChunk := rfl
  unfold chunkText
  rw [path_of_parts, htext, htype, lead_eq, List.cons_prefix_cons]
  rintro ⟨_, hrest⟩
  rw [List.prefix_append_right_inj, List.cons_prefix_cons] at hrest
  -- the two differ in the letter after the common word
  obtain ⟨rest, hrest⟩ := hrest.2
  have hstart := congrArg (List.take 10) hrest
  rw [List.take_append_of_le_length (by decide), List.take_append_of_le_length (by decide),
    List.take_append_of_le_length (by decide)] at hstart
  exact absurd hstart (by decide)

/-- The snapshots that a database holds stay while their rows do. -/
theorem HoldsSnapshots.of_rows {stored : List SnapshotMetadata} (h : HoldsSnapshots o st stored)
    (hindex : ∀ path, PATH_PREFIX_SNAPSHOT_METADATA <+: path →
      st'.path_index.rows[path]? = st.path_index.rows[path]?)
    (hrows : ∀ m ∈ stored, st'.cado[m.key o]? = st.cado[m.key o]?) :
    HoldsSnapshots o st' stored where
  distinct := h.distinct
  rows path hlead := by
    rw [← h.rows path hlead, ← ExtTreeMap.isSome_getElem?_iff_mem,
      ← ExtTreeMap.isSome_getElem?_iff_mem, hindex path hlead]
  indexed m hm := (hindex _ (snapshot_text_lead m.height)).trans (h.indexed m hm)
  objects m hm := by
    rw [hrows m hm]
    exact h.objects m hm
  reads_back := h.reads_back

/-- A put of metadata adds them to the history. -/
theorem HoldsArchive.put_metadata (h : HoldsArchive o st a) {m : SnapshotMetadata}
    (hapart : a.Apart o (.metadata m)) (hback : o.bincode.ReadsBack .snapshot_metadata m) :
    HoldsArchive o (st.withSnapshot o m) (a ++ [.metadata m]) := by
  obtain ⟨hstored, hkeys⟩ := hapart
  have hindex : ∀ height index, (st.withSnapshot o m).path_index.rows[chunkText o height index]? =
      st.path_index.rows[chunkText o height index]? := by
    intro height index
    have hother : (snapshot_parsed o m.height).path ≠ chunkText o height index :=
      Ne.symm (chunk_text_ne height index m.height)
    unfold CadoStore.withSnapshot
    rw [get_put_rows, if_neg hother]
  refine ⟨?_, ?_, ?_⟩
  · rw [Archive.stored_snoc]
    exact h.snapshots.put hstored hback
  · intro height index hmem
    rw [← ExtTreeMap.isSome_getElem?_iff_mem, hindex, ExtTreeMap.isSome_getElem?_iff_mem] at hmem
    rw [Archive.chunks_metadata]
    exact h.written height index hmem
  · intro height index c hc
    rw [Archive.chunkAt_metadata] at hc
    obtain ⟨hrow, hobject⟩ := h.chunks height index c hc
    refine ⟨(hindex height index).trans hrow, ?_⟩
    have hkey : c.key o ≠ m.key o := hkeys (height, c) (Archive.chunkAt_mem hc).1
    rw [content_key_chunk] at hobject ⊢
    exact (finite_map.get_insert_of_ne _ _ hkey.symm).trans hobject

/-- A put of a chunk adds it to the history. -/
theorem HoldsArchive.put_chunk (h : HoldsArchive o st a) {height : I64} {c : SnapshotChunk}
    (hapart : a.Apart o (.chunk height c)) :
    HoldsArchive o (st.withSnapshotChunk o height c) (a ++ [.chunk height c]) := by
  obtain ⟨hplace, hkeys, hsnapshots⟩ := hapart
  have hindex : ∀ path, (st.withSnapshotChunk o height c).path_index.rows[path]? =
      if chunkText o height c.index = path then some (c.key o) else st.path_index.rows[path]? :=
    fun path => finite_map.get_insert _ _ _ _
  have hrows : ∀ key, (st.withSnapshotChunk o height c).cado[key]? =
      if c.key o = key then some (c.cado o) else st.cado[key]? :=
    fun key => finite_map.get_insert _ _ _ _
  refine ⟨?_, ?_, ?_⟩
  · rw [Archive.stored_snoc]
    apply h.snapshots.of_rows
    · intro path hlead
      rw [hindex, if_neg]
      rintro rfl
      exact chunk_text_not_lead _ _ hlead
    · intro m hm
      rw [hrows, if_neg (Ne.symm (hsnapshots m hm))]
  · intro h' index hmem
    rw [Archive.chunks_chunk]
    rw [← ExtTreeMap.isSome_getElem?_iff_mem, hindex] at hmem
    by_cases hsame : chunkText o height c.index = chunkText o h' index
    · exact ⟨(height, c), List.mem_append_right _ List.mem_cons_self, hsame⟩
    · rw [if_neg hsame, ExtTreeMap.isSome_getElem?_iff_mem] at hmem
      obtain ⟨w, hw, htext⟩ := h.written h' index hmem
      exact ⟨w, List.mem_append_left _ hw, htext⟩
  · intro h' index c' hc
    rw [Archive.chunkAt_chunk] at hc
    by_cases hsame : (height, c.index) = (h', index)
    · rw [if_pos hsame] at hc
      cases hc
      obtain ⟨rfl, rfl⟩ := Prod.mk.inj hsame
      refine ⟨?_, ?_⟩
      · exact (hindex _).trans (if_pos rfl)
      · exact (hrows _).trans (if_pos rfl)
    · rw [if_neg hsame] at hc
      obtain ⟨hrow, hobject⟩ := h.chunks h' index c' hc
      obtain ⟨hmem, rfl⟩ := Archive.chunkAt_mem hc
      refine ⟨?_, ?_⟩
      · refine (hindex _).trans ?_
        rw [if_neg]
        · exact hrow
        · intro htext
          exact hsame (hplace _ hmem htext.symm).symm
      · rw [content_key_chunk] at hobject ⊢
        rw [hrows]
        by_cases hkey : c.key o = c'.key o
        · have hdata := hkeys _ hmem hkey.symm
          rw [if_pos hkey]
          unfold SnapshotChunk.cado
          rw [hdata]
        · rw [if_neg hkey]
          exact hobject

theorem HoldsArchive.empty (o : Outside) : HoldsArchive o .empty [] where
  snapshots := HoldsSnapshots.empty o
  written _ _ hmem := by
    exact absurd hmem ExtTreeMap.not_mem_empty
  chunks _ _ _ hc := by cases hc

/-! ## Reads -/

theorem HoldsArchive.get_chunk_none (h : HoldsArchive o st a) {height : I64} {index : UInt32}
    (hplace : a.PlaceApart o height index) (hnone : a.chunkAt height index = none) :
    st.get_snapshot_chunk o height index = .ok none := by
  apply found_nothing (deletable_snapshot_chunk _)
  rw [ExtTreeMap.getElem?_eq_none]
  intro hmem
  obtain ⟨w, hw, htext⟩ := h.written height index hmem
  exact Archive.chunkAt_none hnone w hw (hplace w hw htext)

/-- The chunk of a place is read while it is short enough. -/
theorem HoldsArchive.get_chunk (h : HoldsArchive o st a) {height : I64} {index : UInt32}
    {c : SnapshotChunk} (hc : a.chunkAt height index = some c) (hreadable : c.Readable o)
    (hback : o.bincode.ReadsBack .snapshot_chunk c) :
    st.get_snapshot_chunk o height index = .ok (some c) :=
  (h.chunks height index c hc).found (deletable_snapshot_chunk _) hreadable
    (SnapshotChunk.deserialize_serialize hback)

theorem HoldsArchive.get_chunk_long (h : HoldsArchive o st a) {height : I64} {index : UInt32}
    {c : SnapshotChunk} (hc : a.chunkAt height index = some c) (hlong : ¬ c.Readable o) :
    ∃ details, st.get_snapshot_chunk o height index =
      .error (.StorageError "deserialize_cado" details) :=
  (h.chunks height index c hc).found_long (deletable_snapshot_chunk _) hlong

theorem Archive.metadataAt_mem {height : I64} {m : SnapshotMetadata}
    (hm : a.metadataAt height = some m) : m ∈ a.stored ∧ m.height = height := by
  unfold Archive.metadataAt at hm
  exact ⟨List.mem_of_find?_eq_some hm, by simpa using List.find?_some hm⟩

theorem HoldsArchive.metadata_has (h : HoldsArchive o st a) {height : I64} {m : SnapshotMetadata}
    (hm : a.metadataAt height = some m) :
    st.HasAt o (snapshot_path o height) (m.serialize o) snapshotOwner := by
  obtain ⟨hstored, rfl⟩ := Archive.metadataAt_mem hm
  exact ⟨h.snapshots.indexed m hstored, h.snapshots.objects m hstored⟩

theorem HoldsArchive.get_metadata_none (h : HoldsArchive o st a) {height : I64}
    (hheight : a.HeightApart o height) (hnone : a.metadataAt height = none) :
    st.get_snapshot_metadata o height = .ok none := by
  apply found_nothing (deletable_snapshot _)
  rw [ExtTreeMap.getElem?_eq_none]
  intro hrow
  obtain ⟨m, hm, htext⟩ := (h.snapshots.rows _ (snapshot_text_lead height)).mp hrow
  have hnot := List.find?_eq_none.mp hnone m hm
  exact hnot (decide_eq_true (hheight m hm htext))

theorem HoldsArchive.get_metadata (h : HoldsArchive o st a) {height : I64} {m : SnapshotMetadata}
    (hm : a.metadataAt height = some m) (hreadable : m.Readable o) :
    st.get_snapshot_metadata o height = .ok (some m) :=
  (h.metadata_has hm).found (deletable_snapshot _) hreadable
    (SnapshotMetadata.deserialize_serialize
      (h.snapshots.reads_back m (Archive.metadataAt_mem hm).1))

theorem HoldsArchive.get_metadata_long (h : HoldsArchive o st a) {height : I64}
    {m : SnapshotMetadata} (hm : a.metadataAt height = some m) (hlong : ¬ m.Readable o) :
    ∃ details, st.get_snapshot_metadata o height =
      .error (.StorageError "deserialize_cado" details) :=
  (h.metadata_has hm).found_long (deletable_snapshot _) hlong

end eld_chain
