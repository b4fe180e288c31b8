-- The snapshot manager: data is split into chunks, each chunk is compressed
-- and put under the height and its index, after the metadata that name the
-- hashes of the chunks. A chunk that comes from another node is put in the
-- place of the one with its index, whatever its hash.
import EldChain.ContentRetention
import EldChain.SnapshotArchive

open Std last_writes

namespace eld_chain

/-! ## Compression -/

/-- `lz4::block::compress` and `lz4::block::decompress`, with the texts of their errors. -/
structure Lz4 where
  compress : Bytes → Except String ByteVec
  decompress : Bytes → Except String Bytes

/-- What was compressed is decompressed. -/
def Lz4.RoundTrips (lz : Lz4) : Prop :=
  ∀ b compressed, lz.compress b = .ok compressed → lz.decompress compressed.bytes = .ok b

/-- The size of the data stands in front of what was compressed. -/
def Lz4.NeedsSize (lz : Lz4) : Prop := ∃ e, lz.decompress [] = .error e

theorem literals_fit {b : Bytes} (h : b.length < 13) :
    FitsUsize (leBytes 4 b.length ++ UInt8.ofNat (16 * b.length) :: b).length := by
  unfold FitsUsize
  rw [List.length_append, length_leBytes, List.length_cons]
  omega

/-- LZ4 on data that is too short for a match: the size, and then one run of literals. -/
def literalLz4 : Lz4 where
  compress b :=
    if h : b.length < 13 then
      .ok ⟨leBytes 4 b.length ++ UInt8.ofNat (16 * b.length) :: b, literals_fit h⟩
    else .error "only literals"
  decompress b :=
    if b.length < 5 then .error "Source buffer must at least contain size prefix."
    else if b.take 4 = leBytes 4 (b.drop 5).length then .ok (b.drop 5)
    else .error "only literals"

theorem literalLz4_roundTrips : literalLz4.RoundTrips := by
  intro b compressed h
  unfold literalLz4 at h ⊢
  simp only at h ⊢
  split at h
  · cases h
    have hdrop : (leBytes 4 b.length ++ UInt8.ofNat (16 * b.length) :: b).drop 5 = b := by
      rw [List.drop_append, length_leBytes, List.drop_eq_nil_of_le (by simp [length_leBytes])]
      rfl
    have htake : (leBytes 4 b.length ++ UInt8.ofNat (16 * b.length) :: b).take 4 =
        leBytes 4 b.length := by
      rw [List.take_append_of_le_length (by simp [length_leBytes]), List.take_of_length_le]
      simp [length_leBytes]
    have hlong : 5 ≤ (leBytes 4 b.length ++ UInt8.ofNat (16 * b.length) :: b).length := by
      rw [List.length_append, length_leBytes, List.length_cons]
      omega
    rw [if_neg (Nat.not_lt.mpr hlong), hdrop, htake, if_pos rfl]
  · cases h

theorem literalLz4_needsSize : literalLz4.NeedsSize := ⟨_, rfl⟩

def CHUNK_SIZE : Nat := 10000000

theorem CHUNK_SIZE_pos : 0 < CHUNK_SIZE := by decide

structure SnapshotStateCounts where
  accounts_count : UInt64
  staking_accounts_count : UInt64
  storage_staking_accounts_count : UInt64
  namespaces_count : UInt64
deriving DecidableEq

variable (o : Outside) (lz : Lz4)

/-- The first loop of `create_snapshot_with_app_hash`. -/
def compressChunks : List Bytes → Except EldError (List ByteVec)
  | [] => .ok []
  | chunk :: chunks =>
    match lz.compress chunk with
    | .error e => .error (.StorageError "compress_chunk" ("Failed to compress chunk: " ++ e))
    | .ok compressed =>
      match compressChunks chunks with
      | .error e => .error e
      | .ok rest => .ok (compressed :: rest)

theorem length_chunksOf_le (size fuel : Nat) (bytes : Bytes) :
    (chunksOf size fuel bytes).length ≤ fuel := by
  induction fuel generalizing bytes with
  | zero => simp [chunksOf]
  | succ fuel ih =>
    cases bytes with
    | nil => simp [chunksOf]
    | cons b bytes =>
      have hrest := ih ((b :: bytes).drop size)
      simp only [chunksOf, List.length_cons]
      omega

theorem hexKey_fits (digest : Bytes32) : (hexKey digest).Fits := by
  unfold Text.Fits FitsUsize hexKey
  rw [length_bytes, utf8Len_of_safe hexDigits_safe, length_hexDigits]
  decide

theorem chunk_hashes_fit (o : Outside) (data : ByteVec) :
    FitsUsize ((chunks CHUNK_SIZE data.bytes).map (fun c => hexKey (o.sha256 c))).length ∧
      ∀ hash ∈ (chunks CHUNK_SIZE data.bytes).map (fun c => hexKey (o.sha256 c)), hash.Fits := by
  refine ⟨?_, ?_⟩
  · have hfits := data.fits
    have hlen := length_chunksOf_le CHUNK_SIZE data.bytes.length data.bytes
    unfold FitsUsize at hfits ⊢
    rw [List.length_map]
    exact Nat.lt_of_le_of_lt hlen hfits
  · intro hash hmem
    obtain ⟨c, _, rfl⟩ := List.mem_map.mp hmem
    exact hexKey_fits _

theorem lz4_fits : Text.Fits "lz4".toList := by decide

/-! ## Creating a snapshot -/

/-- What a snapshot is made of. The time is that of the clock. -/
structure SnapshotInput where
  height : I64
  data : ByteVec
  app_hash : Bytes32
  counts : SnapshotStateCounts
  now : UInt64
deriving DecidableEq

/-- The metadata of a snapshot with these compressed chunks. -/
def SnapshotInput.metadata (input : SnapshotInput) (compressed : List ByteVec) :
    SnapshotMetadata where
  height := input.height
  epoch := .ofNat (i64Bits (input.height.val.tdiv 100))
  format_version := 1
  chunk_count := .ofNat compressed.length
  total_size := .ofNat (compressed.map (fun c => c.bytes.length)).sum
  compression := "lz4".toList
  created_at := input.now
  app_hash := input.app_hash
  accounts_count := input.counts.accounts_count
  staking_accounts_count := input.counts.staking_accounts_count
  storage_staking_accounts_count := input.counts.storage_staking_accounts_count
  namespaces_count := input.counts.namespaces_count
  chunk_hashes := (chunks CHUNK_SIZE input.data.bytes).map (fun c => hexKey (o.sha256 c))
  compression_fits := lz4_fits
  hashes_fit := chunk_hashes_fit o input.data

/-- A chunk of the data: its hash is that of the bytes before they were compressed. -/
def createdChunk (i : Nat) (chunk : Bytes) (compressed : ByteVec) : SnapshotChunk where
  index := .ofNat i
  data := compressed
  hash := hexKey (o.sha256 chunk)
  size := .ofNat CHUNK_SIZE
  hash_fits := hexKey_fits (o.sha256 chunk)

/-- The chunks from an index on. -/
def createdFrom : Nat → List Bytes → List ByteVec → List SnapshotChunk
  | i, chunk :: chunks, compressed :: rest =>
    createdChunk o i chunk compressed :: createdFrom (i + 1) chunks rest
  | _, _, _ => []

def SnapshotInput.chunks (input : SnapshotInput) (compressed : List ByteVec) :
    List SnapshotChunk :=
  createdFrom o 0 (eld_chain.chunks CHUNK_SIZE input.data.bytes) compressed

/-- One turn of the second loop of `create_snapshot_with_app_hash`: an error ends the loop, and
leaves what was put. -/
def putChunk (height : I64) (done : CadoStore × Except EldError Unit) (c : SnapshotChunk) :
    CadoStore × Except EldError Unit :=
  match done.2 with
  | .error e => (done.1, .error e)
  | .ok () =>
    match done.1.put_snapshot_chunk o height c with
    | .error e => (done.1, .error e)
    | .ok st => (st, .ok ())

def putChunks (height : I64) (cs : List SnapshotChunk) (st : CadoStore) :
    CadoStore × Except EldError Unit :=
  cs.foldl (putChunk o height) (st, .ok ())

def CadoStore.create_snapshot_with_app_hash (st : CadoStore) (input : SnapshotInput) :
    CadoStore × Except EldError Unit :=
  match compressChunks lz (eld_chain.chunks CHUNK_SIZE input.data.bytes) with
  | .error e => (st, .error e)
  | .ok compressed =>
    match st.put_snapshot_metadata o (input.metadata o compressed) with
    | .error e => (st, .error e)
    | .ok st' => putChunks o input.height (input.chunks o compressed) st'

/-! ## Chunks from other nodes -/

/-- The chunk that is stored of what another node sent: its hash is computed here. -/
def receivedChunk (index : UInt32) (data : ByteVec) : SnapshotChunk where
  index := index
  data := data
  hash := hexKey (o.sha256 data.bytes)
  size := .ofNat data.bytes.length
  hash_fits := hexKey_fits (o.sha256 data.bytes)

/-- `SnapshotConnection::store_snapshot_chunk`. -/
def CadoStore.store_snapshot_chunk (st : CadoStore) (height : I64) (index : UInt32)
    (data : ByteVec) : Except EldError CadoStore :=
  match st.get_snapshot_metadata o height with
  | .error e => .error e
  | .ok none => .error (.NotFoundError "snapshot metadata" (toString height.val))
  | .ok (some metadata) =>
    if metadata.chunk_count ≤ index then
      .error (.ValidationError "chunk index" (toString index.toNat)
        ("Invalid chunk index: " ++ toString index.toNat ++ " (max: "
          ++ toString (metadata.chunk_count - 1).toNat ++ ")"))
    else match st.put_snapshot_chunk o height (receivedChunk o index data) with
      | .ok st' => .ok st'
      | .error e => .error (.StorageError "store snapshot chunk"
          ("Failed to store snapshot chunk: " ++ e.to_string))

/-! ## What they leave -/

variable {o lz} {st : CadoStore} {a : Archive}

/-- Every write is told apart from the history that it meets. -/
def Archive.AllApart (o : Outside) : Archive → List ArchiveWrite → Prop
  | _, [] => True
  | a, w :: ws => a.Apart o w ∧ Archive.AllApart o (a ++ [w]) ws

instance decidableAllApart : (a : Archive) → (ws : List ArchiveWrite) →
    Decidable (a.AllApart o ws)
  | _, [] => inferInstanceAs (Decidable True)
  | a, w :: ws =>
    have := decidableAllApart (a ++ [w]) ws
    inferInstanceAs (Decidable (a.Apart o w ∧ Archive.AllApart o (a ++ [w]) ws))

theorem putChunk_eq (o : Outside) (height : I64) (st : CadoStore) (c : SnapshotChunk) :
    putChunk o height (st, .ok ()) c = (st.withSnapshotChunk o height c, .ok ()) := by
  unfold putChunk
  simp only [put_chunk_eq]

theorem putChunks_holds {height : I64} {cs : List SnapshotChunk} (h : HoldsArchive o st a)
    (hapart : a.AllApart o (cs.map (ArchiveWrite.chunk height))) :
    (putChunks o height cs st).2 = .ok () ∧
      HoldsArchive o (putChunks o height cs st).1 (a ++ cs.map (ArchiveWrite.chunk height)) := by
  unfold putChunks
  induction cs generalizing st a with
  | nil =>
    rw [List.map_nil, List.append_nil]
    exact ⟨rfl, h⟩
  | cons c cs ih =>
    obtain ⟨hfirst, hrest⟩ := hapart
    rw [List.foldl_cons, putChunk_eq, List.map_cons, List.append_cons]
    exact ih (h.put_chunk hfirst) hrest

/-- The writes of a snapshot: the metadata, and then the chunks in order. -/
def SnapshotInput.writes (o : Outside) (input : SnapshotInput) (compressed : List ByteVec) :
    List ArchiveWrite :=
  .metadata (input.metadata o compressed) ::
    (input.chunks o compressed).map (ArchiveWrite.chunk input.height)

/-- A snapshot whose chunks compress is created, and all its writes are in the history. -/
theorem create_snapshot_holds {input : SnapshotInput} {compressed : List ByteVec}
    (h : HoldsArchive o st a)
    (hcompress : compressChunks lz (eld_chain.chunks CHUNK_SIZE input.data.bytes) = .ok compressed)
    (hapart : a.AllApart o (input.writes o compressed))
    (hback : o.bincode.ReadsBack .snapshot_metadata (input.metadata o compressed)) :
    (st.create_snapshot_with_app_hash o lz input).2 = .ok () ∧
      HoldsArchive o (st.create_snapshot_with_app_hash o lz input).1
        (a ++ input.writes o compressed) := by
  obtain ⟨hmetadata, hchunks⟩ := hapart
  have hput := putChunks_holds (h.put_metadata hmetadata hback) hchunks
  unfold CadoStore.create_snapshot_with_app_hash
  simp only [hcompress, put_snapshot_eq]
  refine ⟨hput.1, ?_⟩
  have hwrites : a ++ input.writes o compressed = a ++ [.metadata (input.metadata o compressed)] ++
      (input.chunks o compressed).map (ArchiveWrite.chunk input.height) := by
    simp [SnapshotInput.writes]
  rw [hwrites]
  exact hput.2

/-- The chunk of another node goes to its place in the history. -/
theorem store_snapshot_chunk_holds {height : I64} {m : SnapshotMetadata} {index : UInt32}
    {data : ByteVec} (h : HoldsArchive o st a) (hm : a.metadataAt height = some m)
    (hreadable : m.Readable o) :
    if index < m.chunk_count then
      st.store_snapshot_chunk o height index data =
        .ok (st.withSnapshotChunk o height (receivedChunk o index data))
    else ∃ e, st.store_snapshot_chunk o height index data = .error e := by
  unfold CadoStore.store_snapshot_chunk
  rw [h.get_metadata hm hreadable]
  by_cases hindex : index < m.chunk_count
  · simp only [if_pos hindex, if_neg (UInt32.not_le.mpr hindex), put_chunk_eq]
  · simp only [if_neg hindex, if_pos (UInt32.not_lt.mp hindex)]
    exact ⟨_, rfl⟩

/-! ## The chunks of a created snapshot -/

theorem compressChunks_length {cs : List Bytes} {compressed : List ByteVec}
    (h : compressChunks lz cs = .ok compressed) : compressed.length = cs.length := by
  induction cs generalizing compressed with
  | nil =>
    cases h
    rfl
  | cons c cs ih =>
    unfold compressChunks at h
    split at h
    · cases h
    · split at h
      · cases h
      · rename_i rest hrest
        cases h
        simp [ih hrest]

/-- Each compressed chunk is what was made of the chunk at its index. -/
theorem compressChunks_getElem {cs : List Bytes} {compressed : List ByteVec}
    (h : compressChunks lz cs = .ok compressed) {i : Nat} {c : Bytes} (hc : cs[i]? = some c) :
    ∃ v, compressed[i]? = some v ∧ lz.compress c = .ok v := by
  induction cs generalizing compressed i with
  | nil => simp at hc
  | cons d cs ih =>
    unfold compressChunks at h
    split at h
    · cases h
    · rename_i v hv
      split at h
      · cases h
      · rename_i rest hrest
        cases h
        cases i with
        | zero =>
          simp only [List.getElem?_cons_zero, Option.some.injEq] at hc ⊢
          subst hc
          exact ⟨v, rfl, hv⟩
        | succ i => exact ih hrest hc

theorem createdFrom_getElem {cs : List Bytes} {compressed : List ByteVec} {start i : Nat}
    {c : Bytes} {v : ByteVec} (hc : cs[i]? = some c) (hv : compressed[i]? = some v) :
    (createdFrom o start cs compressed)[i]? = some (createdChunk o (start + i) c v) := by
  induction cs generalizing compressed start i with
  | nil => simp at hc
  | cons d cs ih =>
    cases compressed with
    | nil => simp at hv
    | cons w compressed =>
      cases i with
      | zero =>
        simp only [List.getElem?_cons_zero, Option.some.injEq] at hc hv
        subst hc hv
        rfl
      | succ i =>
        have hnext := @ih compressed (start + 1) i hc hv
        simp only [createdFrom, List.getElem?_cons_succ, hnext]
        congr 2
        omega

end eld_chain
