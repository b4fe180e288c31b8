-- What the snapshot connection serves. A snapshot that was created is
-- downloaded whole as long as none of its compressed chunks is longer than
-- what the database reads back, which is far less than the size of a chunk.
-- A node without snapshots keeps no chunk that it is sent.
import EldChain.StateSync

open Std last_writes machines

namespace eld_chain

variable (o : Outside) (lz : Lz4)

/-- The data that the chunks of a height give, loaded and decompressed one after another. -/
def CadoStore.download (st : CadoStore) (height : I64) (count : Nat) : Option Bytes :=
  ((List.range count).mapM (fun i =>
    (lz.decompress (st.load_snapshot_chunk o height.toUInt64 (.ofNat i))).toOption)).map
      List.flatten

/-- The longest compressed chunk that is read back. -/
def MAX_COMPRESSED_CHUNK : Nat := 1048404

variable {o lz} {st : CadoStore} {a : Archive}

def ArchiveWrite.height : ArchiveWrite → I64
  | .metadata m => m.height
  | .chunk height _ => height

/-! ## The chunks that stand -/

/-- Writes for other heights leave the chunks of a height. -/
theorem chunkAt_append_other {height : I64} {ws : List ArchiveWrite}
    (h : ∀ w ∈ ws, w.height ≠ height) (index : UInt32) :
    Archive.chunkAt (a ++ ws) height index = a.chunkAt height index := by
  have hnone : lastBy placeOf (Archive.chunks ws) (height, index) = none := by
    apply lastBy_eq_none
    intro w hw hplace
    obtain ⟨x, hx, hchunk⟩ := List.mem_filterMap.mp hw
    cases x with
    | metadata m => cases hchunk
    | chunk h' c =>
      cases hchunk
      exact h _ hx (congrArg Prod.fst hplace)
  have hchunks : Archive.chunks (a ++ ws) = a.chunks ++ Archive.chunks ws := by
    simp [Archive.chunks]
  unfold Archive.chunkAt
  rw [hchunks, lastBy_append, hnone, Option.none_or]

/-- Calls that write for other heights leave the chunks of a height. -/
theorem chunkAt_after {height : I64} {calls : List SnapshotCall}
    (h : Throughout (Archive.step o lz)
      (fun a call => ∀ w ∈ a.writesOf o lz call, w.height ≠ height) a calls) (index : UInt32) :
    (after (Archive.step o lz) a calls).chunkAt height index = a.chunkAt height index := by
  induction calls generalizing a with
  | nil => rfl
  | cons call calls ih =>
    rw [after, ih h.2]
    exact chunkAt_append_other h.1 index

theorem createdFrom_indexes (start : Nat) (cs : List Bytes) (compressed : List ByteVec) :
    (createdFrom o start cs compressed).map SnapshotChunk.index =
      (List.range' start (min cs.length compressed.length)).map UInt32.ofNat := by
  induction cs generalizing start compressed with
  | nil => simp [createdFrom]
  | cons c cs ih =>
    cases compressed with
    | nil => simp [createdFrom]
    | cons v compressed =>
      simp [createdFrom, ih, Nat.add_min_add_right, List.range'_succ, createdChunk]

theorem nodup_indexes {count : Nat} (h : count ≤ 2 ^ 32) :
    ((List.range' 0 count).map UInt32.ofNat).Nodup := by
  refine List.Nodup.map_on ?_ List.nodup_range'
  intro i hi j hj heq
  rw [List.mem_range'_1] at hi hj
  have htoNat := congrArg UInt32.toNat heq
  rw [UInt32.toNat_ofNat', UInt32.toNat_ofNat', Nat.mod_eq_of_lt (by omega),
    Nat.mod_eq_of_lt (by omega)] at htoNat
  exact htoNat

/-- Right after its creation a snapshot has each chunk at its index. -/
theorem chunkAt_created {input : SnapshotInput} {compressed : List ByteVec}
    (hlen : compressed.length = (chunks CHUNK_SIZE input.data.bytes).length)
    (hcount : compressed.length ≤ 2 ^ 32) {i : Nat} {c : Bytes} {v : ByteVec}
    (hc : (chunks CHUNK_SIZE input.data.bytes)[i]? = some c) (hv : compressed[i]? = some v) :
    Archive.chunkAt (a ++ input.writes o compressed) input.height (.ofNat i) =
      some (createdChunk o i c v) := by
  have hchunks : Archive.chunks (a ++ input.writes o compressed) =
      a.chunks ++ (input.chunks o compressed).map (fun c => (input.height, c)) := by
    unfold Archive.chunks SnapshotInput.writes
    rw [List.filterMap_append, List.filterMap_cons_none rfl, List.filterMap_map,
      ← List.filterMap_eq_map]
    rfl
  have hplaces : ((input.chunks o compressed).map (fun c => (input.height, c))).map placeOf =
      ((input.chunks o compressed).map SnapshotChunk.index).map (fun i => (input.height, i)) := by
    simp [placeOf, Function.comp_def]
  have hnodup : (((input.chunks o compressed).map (fun c => (input.height, c))).map
      placeOf).Nodup := by
    rw [hplaces]
    refine List.Nodup.map (fun i j heq => congrArg Prod.snd heq) ?_
    unfold SnapshotInput.chunks
    rw [createdFrom_indexes, ← hlen, Nat.min_self]
    exact nodup_indexes hcount
  have hmem : createdChunk o i c v ∈ input.chunks o compressed := by
    have hget := @createdFrom_getElem o _ _ 0 i c v hc hv
    rw [Nat.zero_add] at hget
    exact List.mem_of_getElem? hget
  have hlast := lastBy_of_nodup hnodup
    (List.mem_map_of_mem (f := fun c => (input.height, c)) hmem)
  have hplace : placeOf (input.height, createdChunk o i c v) = (input.height, .ofNat i) := rfl
  rw [hplace] at hlast
  unfold Archive.chunkAt
  rw [hchunks, lastBy_append, hlast]
  rfl

/-- A created chunk is read back unless its compressed data is too long. -/
theorem createdChunk_readable (hwidths : o.bincode.FixedWidths) (i : Nat) (c : Bytes)
    (v : ByteVec) :
    (createdChunk o i c v).Readable o ↔ v.bytes.length ≤ MAX_COMPRESSED_CHUNK := by
  have htype : (Text.bytes CadoType.SnapshotChunk.as_str.toList).length = 14 := by decide
  have howner : (Text.bytes "system".toList).length = 6 := by decide
  have hhash : (Text.bytes (hexKey (o.sha256 c))).length = 64 := by
    unfold hexKey
    rw [length_bytes, utf8Len_of_safe hexDigits_safe, length_hexDigits]
  have hlen : ((createdChunk o i c v).cado o).serialized_len o =
      4 + 32 + (8 + (4 + (8 + v.bytes.length) + (8 + 64) + 8)) + (8 + 14 + (8 + 6)) := by
    refine (hwidths.immutable _ _ _).trans ?_
    have hchunk : ((createdChunk o i c v).serialize_bin o).length =
        4 + (8 + v.bytes.length) + (8 + 64) + 8 := by
      rw [← hhash]
      exact hwidths.snapshot_chunk _
    rw [hchunk, ← htype, ← howner]
    rfl
  unfold SnapshotChunk.Readable MAX_CADO_DATA_SIZE MAX_COMPRESSED_CHUNK
  rw [hlen]
  omega

/-! ## The download -/

theorem mapM_eq_some_iff {α β : Type} {f : α → Option β} {l : List α} {bs : List β} :
    l.mapM f = some bs ↔ l.map f = bs.map some := by
  induction l generalizing bs with
  | nil => cases bs <;> simp
  | cons a l ih =>
    rw [List.mapM_cons]
    refine ⟨?_, ?_⟩
    · intro h
      obtain ⟨b, hb, h⟩ := Option.bind_eq_some_iff.mp h
      obtain ⟨rest, hrest, h⟩ := Option.bind_eq_some_iff.mp h
      cases h
      simp [hb, ih.mp hrest]
    · intro h
      cases bs with
      | nil => simp at h
      | cons b bs =>
        rw [List.map_cons, List.map_cons, List.cons.injEq] at h
        simp [h.1, ih.mpr h.2]

/-- The answers to the loads of a created snapshot, later on. -/
theorem load_created (hreads : o.ReadsSnapshots) (hwidths : o.bincode.FixedWidths)
    (hst : HoldsArchive o st a) {before later : List SnapshotCall} {input : SnapshotInput}
    {compressed : List ByteVec}
    (hcompress : compressChunks lz (chunks CHUNK_SIZE input.data.bytes) = .ok compressed)
    (hcount : compressed.length ≤ 2 ^ 32)
    (hclean : Throughout (Archive.step o lz) (Archive.Clean o lz) a
      (before ++ .CreateSnapshot input :: later))
    (hlater : Throughout (Archive.step o lz)
      (fun a call => ∀ w ∈ a.writesOf o lz call, w.height ≠ input.height)
      (after (Archive.step o lz) a (before ++ [.CreateSnapshot input])) later)
    {i : Nat} {c : Bytes} {v : ByteVec}
    (hc : (chunks CHUNK_SIZE input.data.bytes)[i]? = some c) (hv : compressed[i]? = some v) :
    (after (CadoStore.snapshotStep o lz) st
        (before ++ .CreateSnapshot input :: later)).load_snapshot_chunk o
        input.height.toUInt64 (.ofNat i) =
      if v.bytes.length ≤ MAX_COMPRESSED_CHUNK then v.bytes else [] := by
  have hholds := ((snapshotStep_refines o lz hreads).run hst hclean).1
  have hcreated : Archive.chunkAt (after (Archive.step o lz) a
      (before ++ [.CreateSnapshot input])) input.height (.ofNat i) =
        some (createdChunk o i c v) := by
    rw [after_append]
    simp only [after, Archive.step, Archive.writesOf, hcompress]
    exact chunkAt_created (compressChunks_length hcompress) hcount hc hv
  have hat := chunkAt_after hlater (.ofNat i)
  rw [← after_append, hcreated, List.append_assoc] at hat
  have hget := @HoldsArchive.get_chunk _ _ _ hholds _ _ _ hat
  have hlong := @HoldsArchive.get_chunk_long _ _ _ hholds _ _ _ hat
  rw [createdChunk_readable hwidths] at hget hlong
  unfold CadoStore.load_snapshot_chunk
  rw [I64.ofUInt64_toUInt64]
  by_cases hfits : v.bytes.length ≤ MAX_COMPRESSED_CHUNK
  · simp only [hget hfits (hreads.snapshot_chunk _), if_pos hfits]
    rfl
  · obtain ⟨details, herror⟩ := hlong hfits
    simp only [herror, if_neg hfits]

theorem eightBytes_fit : FitsUsize [3, 0, 0, 0, 48, 1, 2, 3].length := by decide

/-- From a database that holds any archive, a snapshot is downloaded whole exactly when each
compressed chunk is short enough, whatever was called before and, apart from writes for its own
height, after its creation. -/
theorem a_created_snapshot_is_downloaded_iff (o : Outside) (lz : Lz4) (hreads : o.ReadsSnapshots)
    (hwidths : o.bincode.FixedWidths) (hlz : lz.RoundTrips) (hsize : lz.NeedsSize)
    (st : CadoStore) (a : Archive) (hst : HoldsArchive o st a)
    (before later : List SnapshotCall) (input : SnapshotInput) (compressed : List ByteVec)
    (hcompress : compressChunks lz (chunks CHUNK_SIZE input.data.bytes) = .ok compressed)
    (hcount : compressed.length ≤ 2 ^ 32)
    (hclean : Throughout (Archive.step o lz) (Archive.Clean o lz) a
      (before ++ .CreateSnapshot input :: later))
    (hlater : Throughout (Archive.step o lz)
      (fun a call => ∀ w ∈ a.writesOf o lz call, w.height ≠ input.height)
      (after (Archive.step o lz) a (before ++ [.CreateSnapshot input])) later) :
    (after (CadoStore.snapshotStep o lz) st
        (before ++ .CreateSnapshot input :: later)).download o lz input.height
        compressed.length = some input.data.bytes ↔
      ∀ v ∈ compressed, v.bytes.length ≤ MAX_COMPRESSED_CHUNK := by
  have hlen := compressChunks_length hcompress
  have hload : ∀ i (hi : i < compressed.length), ∃ c v,
      (chunks CHUNK_SIZE input.data.bytes)[i]? = some c ∧ compressed[i]? = some v ∧
        lz.compress c = .ok v := by
    intro i hi
    have hchunk : i < (chunks CHUNK_SIZE input.data.bytes).length := hlen ▸ hi
    have hc := List.getElem?_eq_getElem hchunk
    obtain ⟨v, hv, hok⟩ := compressChunks_getElem hcompress hc
    exact ⟨_, v, hc, hv, hok⟩
  obtain ⟨e, hempty⟩ := hsize
  unfold CadoStore.download
  refine ⟨?_, ?_⟩
  · intro hdata v hv
    obtain ⟨bs, hmap, _⟩ := Option.map_eq_some_iff.mp hdata
    rw [mapM_eq_some_iff] at hmap
    obtain ⟨i, hi, hget⟩ := List.getElem_of_mem hv
    obtain ⟨c, w, hc, hw, _⟩ := hload i hi
    have hsame : w = v := by
      rw [List.getElem?_eq_getElem hi, hget] at hw
      exact (Option.some.inj hw).symm
    subst hsame
    by_contra hlong
    have hloaded := load_created hreads hwidths hst hcompress hcount hclean hlater hc hw
    rw [if_neg hlong] at hloaded
    -- what is loaded is empty, and that does not decompress
    have hat := congrArg (fun l => l[i]?) hmap
    simp [hi, hloaded, hempty, Except.toOption] at hat
  · intro hshort
    have hmap : (List.range compressed.length).mapM (fun i => (lz.decompress
        ((after (CadoStore.snapshotStep o lz) st
          (before ++ .CreateSnapshot input :: later)).load_snapshot_chunk o
          input.height.toUInt64 (.ofNat i))).toOption) =
        some (chunks CHUNK_SIZE input.data.bytes) := by
      rw [mapM_eq_some_iff]
      apply List.ext_getElem?
      intro i
      by_cases hi : i < compressed.length
      · obtain ⟨c, v, hc, hv, hok⟩ := hload i hi
        have hloaded := load_created hreads hwidths hst hcompress hcount hclean hlater hc hv
        rw [if_pos (hshort v (List.mem_of_getElem? hv))] at hloaded
        simp [hi, hloaded, hlz c v hok, hc, Except.toOption]
      · simp [hi, hlen ▸ hi]
    rw [hmap, Option.map_some, flatten_chunks CHUNK_SIZE_pos]

theorem a_created_snapshot_is_downloaded_on_smallInput :
    (after (CadoStore.snapshotStep Outside.toy literalLz4) olderStore
        ([.ListSnapshots true true] ++ .CreateSnapshot smallInput ::
          [.LoadSnapshotChunk 100 0])).download Outside.toy literalLz4 smallInput.height
        1 = some [1, 2, 3] ↔
      ∀ v ∈ [(⟨[3, 0, 0, 0, 48, 1, 2, 3], eightBytes_fit⟩ : ByteVec)],
        v.bytes.length ≤ MAX_COMPRESSED_CHUNK :=
  a_created_snapshot_is_downloaded_iff Outside.toy literalLz4 toy_readsSnapshots toy_fixedWidths
    literalLz4_roundTrips literalLz4_needsSize olderStore _ olderStore_holds
    [.ListSnapshots true true] [.LoadSnapshotChunk 100 0] smallInput
    [⟨[3, 0, 0, 0, 48, 1, 2, 3], eightBytes_fit⟩] rfl (by decide) (by decide +kernel)
    (by decide +kernel)

/-! ## A node without snapshots -/

/-- The calls that other nodes and Tendermint make. -/
def SnapshotCall.FromOutside : SnapshotCall → Prop
  | .CreateSnapshot _ => False
  | _ => True

theorem step_without_snapshots (h : HoldsSnapshots o st []) {call : SnapshotCall}
    (hcall : call.FromOutside) : (st.snapshotStep o lz call).1 = st ∧
      ∀ index chunk allowed allowed_secure,
        call = .ApplySnapshotChunk index chunk allowed allowed_secure →
          (st.snapshotStep o lz call).2 = .ApplySnapshotChunk .Unknown [] [] := by
  cases call with
  | ListSnapshots | LoadSnapshotChunk | OfferSnapshot => exact ⟨rfl, nofun⟩
  | CreateSnapshot input => exact hcall.elim
  | ApplySnapshotChunk index chunk allowed allowed_secure =>
    have happly : st.apply_snapshot_chunk o index chunk allowed allowed_secure =
        (st, .Unknown) := by
      unfold CadoStore.apply_snapshot_chunk
      by_cases hallowed : allowed = true ∧ allowed_secure = true
      · obtain ⟨rfl, rfl⟩ := hallowed
        have hlisted : newestFirst (listed o [] (10 : UInt32).toNat) = [] := by
          simp [listed, readPage, inHashOrder, newestFirst]
        rw [h.list_snapshots_eq 10, hlisted]
      · obtain ⟨e, hlist⟩ := @list_of_refused o st _ _ 10 hallowed
        rw [hlist]
    refine ⟨?_, ?_⟩
    · exact congrArg Prod.fst happly
    · intro _ _ _ _ _
      simp only [CadoStore.snapshotStep, happly]

/-- A node whose database has no path of a snapshot stores none of the chunks that it is sent,
whatever it was offered: every one of them is answered as unknown. -/
theorem a_node_without_snapshots_takes_no_chunk (o : Outside) (lz : Lz4) (st : CadoStore)
    (hnone : ∀ path, PATH_PREFIX_SNAPSHOT_METADATA <+: path → path ∉ st.path_index.rows)
    (calls : List SnapshotCall) (hcalls : ∀ call ∈ calls, call.FromOutside) :
    after (CadoStore.snapshotStep o lz) st calls = st ∧
      ∀ (i : Nat) index chunk allowed allowed_secure,
        calls[i]? = some (.ApplySnapshotChunk index chunk allowed allowed_secure) →
          (answers (CadoStore.snapshotStep o lz) st calls)[i]? =
            some (.ApplySnapshotChunk .Unknown [] []) := by
  have hempty : HoldsSnapshots o st [] :=
    ⟨List.nodup_nil, fun path hlead => by simp [hnone path hlead],
      fun _ hm => absurd hm List.not_mem_nil, fun _ hm => absurd hm List.not_mem_nil,
      fun _ hm => absurd hm List.not_mem_nil⟩
  induction calls with
  | nil => exact ⟨rfl, by simp⟩
  | cons call calls ih =>
    obtain ⟨hkeeps, hunknown⟩ := @step_without_snapshots o lz st hempty call
      (hcalls call List.mem_cons_self)
    obtain ⟨hafter, hanswers⟩ := ih (fun c hc => hcalls c (List.mem_cons_of_mem _ hc))
    refine ⟨?_, ?_⟩
    · rw [after, hkeeps, hafter]
    · intro i index chunk allowed allowed_secure hi
      rw [answers, hkeeps]
      cases i with
      | zero =>
        rw [List.getElem?_cons_zero, Option.some.injEq] at hi
        rw [List.getElem?_cons_zero, hunknown index chunk allowed allowed_secure hi]
      | succ i => exact hanswers i index chunk allowed allowed_secure hi

theorem a_node_without_snapshots_takes_no_chunk_when_empty :
    after (CadoStore.snapshotStep Outside.toy literalLz4) .empty snapshotCalls.tail =
        .empty ∧
      ∀ (i : Nat) index chunk allowed allowed_secure,
        snapshotCalls.tail[i]? = some (.ApplySnapshotChunk index chunk allowed allowed_secure) →
          (answers (CadoStore.snapshotStep Outside.toy literalLz4) .empty
              snapshotCalls.tail)[i]? = some (.ApplySnapshotChunk .Unknown [] []) :=
  a_node_without_snapshots_takes_no_chunk Outside.toy literalLz4 .empty
    (fun _ _ => ExtTreeMap.not_mem_empty) snapshotCalls.tail (by
      simp [snapshotCalls, SnapshotCall.FromOutside])

end eld_chain
