-- The snapshot connection of a node over its database, call by call. Its
-- answers are those of an archive of what was put, so a snapshot that was
-- created is served whole while its chunks are short enough. A node
-- without snapshots keeps none of the chunks that it is sent.
import EldChain.Library.Machines
import EldChain.SnapshotManager

open Std last_writes machines

namespace eld_chain

/-! ## Heights on the wire -/

/-- `x as i64`. -/
def I64.ofUInt64 (x : UInt64) : I64 where
  val := (x.toNat : Int).bmod (2 ^ 64)
  lo := by
    have h := @Int.le_bmod (x.toNat : Int) (2 ^ 64) (by decide)
    omega
  hi := by
    have h := @Int.bmod_lt (x.toNat : Int) (2 ^ 64) (by decide)
    omega

/-- `x as u64`. -/
def I64.toUInt64 (x : I64) : UInt64 := .ofNat (i64Bits x.val)

theorem I64.ofUInt64_toUInt64 (x : I64) : I64.ofUInt64 x.toUInt64 = x := by
  have hlo := x.lo
  have hhi := x.hi
  apply I64.ext_val
  have hbits : x.toUInt64.toNat = (x.val % 2 ^ 64).toNat := by
    unfold I64.toUInt64 i64Bits
    rw [UInt64.toNat_ofNat', Nat.mod_eq_of_lt]
    omega
  unfold I64.ofUInt64
  simp only [hbits, Int.bmod_def]
  omega

/-! ## The calls -/

/-- The snapshot of ABCI. -/
structure Snapshot where
  height : UInt64
  format : UInt32
  chunks : UInt32
  hash : Bytes
  metadata : Bytes
deriving DecidableEq

inductive OfferSnapshotResult
  | Accept
  | Abort
  | Reject
  | RejectFormat
deriving DecidableEq

inductive ApplySnapshotChunkResult
  | Accept
  | Unknown
deriving DecidableEq

/-- A call of the snapshot connection, or the snapshot that a commit has made. The rate limiter
is asked for two clients where paths are listed, and the disk for its space. -/
inductive SnapshotCall
  | ListSnapshots (allowed allowed_secure : Bool)
  | LoadSnapshotChunk (height : UInt64) (chunk : UInt32)
  | OfferSnapshot (snapshot : Option Snapshot) (app_hash : Bytes)
      (has_capacity_for : UInt64 → Bool)
  | ApplySnapshotChunk (index : UInt32) (chunk : ByteVec) (allowed allowed_secure : Bool)
  | CreateSnapshot (input : SnapshotInput)

inductive SnapshotAnswer
  | ListSnapshots (snapshots : List Snapshot)
  | LoadSnapshotChunk (chunk : Bytes)
  | OfferSnapshot (result : OfferSnapshotResult)
  | ApplySnapshotChunk (result : ApplySnapshotChunkResult) (refetch_chunks : List UInt32)
      (reject_senders : List Text)
  | CreateSnapshot (result : Except EldError Unit)

variable (o : Outside) (lz : Lz4)

def SnapshotMetadata.toSnapshot (m : SnapshotMetadata) : Snapshot where
  height := m.height.toUInt64
  format := m.format_version
  chunks := m.chunk_count
  hash := beBytes 32 m.app_hash.toNat
  metadata := []

def CadoStore.answer_list_snapshots (st : CadoStore) (allowed allowed_secure : Bool) :
    List Snapshot :=
  match st.list_snapshots o 100 allowed allowed_secure with
  | .ok snapshots => snapshots.map SnapshotMetadata.toSnapshot
  | .error _ => []

def CadoStore.load_snapshot_chunk (st : CadoStore) (height : UInt64) (chunk : UInt32) : Bytes :=
  match st.get_snapshot_chunk o (I64.ofUInt64 height) chunk with
  | .ok (some c) => c.data.bytes
  | _ => []

/-- What an offer is answered once the height is known to be new. -/
def offerNew (snapshot : Snapshot) (app_hash : Bytes) (has_capacity_for : UInt64 → Bool) :
    OfferSnapshotResult :=
  if snapshot.format ≠ 1 then .RejectFormat
  else if app_hash ≠ [] ∧ snapshot.hash ≠ app_hash then .Reject
  else if has_capacity_for (snapshot.chunks.toUInt64 * 10000000) = false then .Abort
  else .Accept

def CadoStore.offer_snapshot (st : CadoStore) (snapshot : Option Snapshot) (app_hash : Bytes)
    (has_capacity_for : UInt64 → Bool) : OfferSnapshotResult :=
  match snapshot with
  | none => .Reject
  | some s =>
    match st.get_snapshot_metadata o (I64.ofUInt64 s.height) with
    | .ok (some _) => .Reject
    | .error _ => .Abort
    | .ok none => offerNew s app_hash has_capacity_for

/-- A chunk goes to the first snapshot of a listing of ten. -/
def CadoStore.apply_snapshot_chunk (st : CadoStore) (index : UInt32) (chunk : ByteVec)
    (allowed allowed_secure : Bool) : CadoStore × ApplySnapshotChunkResult :=
  match st.list_snapshots o 10 allowed allowed_secure with
  | .error _ => (st, .Unknown)
  | .ok [] => (st, .Unknown)
  | .ok (newest :: _) =>
    match st.store_snapshot_chunk o newest.height index chunk with
    | .error _ => (st, .Unknown)
    | .ok st' => (st', .Accept)

def CadoStore.snapshotStep (st : CadoStore) : SnapshotCall → CadoStore × SnapshotAnswer
  | .ListSnapshots allowed allowed_secure =>
    (st, .ListSnapshots (st.answer_list_snapshots o allowed allowed_secure))
  | .LoadSnapshotChunk height chunk =>
    (st, .LoadSnapshotChunk (st.load_snapshot_chunk o height chunk))
  | .OfferSnapshot snapshot app_hash has_capacity_for =>
    (st, .OfferSnapshot (st.offer_snapshot o snapshot app_hash has_capacity_for))
  | .ApplySnapshotChunk index chunk allowed allowed_secure =>
    let applied := st.apply_snapshot_chunk o index chunk allowed allowed_secure
    (applied.1, .ApplySnapshotChunk applied.2 [] [])
  | .CreateSnapshot input =>
    let created := st.create_snapshot_with_app_hash o lz input
    (created.1, .CreateSnapshot created.2)

/-! ## The archive -/

/-- The snapshot that a chunk is applied to. -/
def Archive.newest (a : Archive) : Option SnapshotMetadata :=
  (newestFirst (listed o a.stored 10)).head?

/-- What a call puts in the archive. -/
def Archive.writesOf (a : Archive) : SnapshotCall → List ArchiveWrite
  | .ApplySnapshotChunk index chunk allowed allowed_secure =>
    match a.newest o with
    | none => []
    | some m =>
      if (allowed = true ∧ allowed_secure = true) ∧ index < m.chunk_count then
        [.chunk m.height (receivedChunk o index chunk)]
      else []
  | .CreateSnapshot input =>
    match compressChunks lz (eld_chain.chunks CHUNK_SIZE input.data.bytes) with
    | .error _ => []
    | .ok compressed => input.writes o compressed
  | _ => []

/-- The bytes of a place, where its chunk is short enough to be read. -/
def Archive.bytesAt (a : Archive) (height : I64) (index : UInt32) : Bytes :=
  match a.chunkAt height index with
  | none => []
  | some c => if c.Readable o then c.data.bytes else []

/-- What the archive answers. -/
def Archive.answerOf (a : Archive) : SnapshotCall → SnapshotAnswer
  | .ListSnapshots allowed allowed_secure =>
    .ListSnapshots (if allowed = true ∧ allowed_secure = true then
      (newestFirst (listed o a.stored 100)).map SnapshotMetadata.toSnapshot else [])
  | .LoadSnapshotChunk height chunk => .LoadSnapshotChunk (a.bytesAt o (I64.ofUInt64 height) chunk)
  | .OfferSnapshot snapshot app_hash has_capacity_for =>
    .OfferSnapshot (match snapshot with
      | none => .Reject
      | some s =>
        match a.metadataAt (I64.ofUInt64 s.height) with
        | none => offerNew s app_hash has_capacity_for
        | some m => if m.Readable o then .Reject else .Abort)
  | .ApplySnapshotChunk index chunk allowed allowed_secure =>
    .ApplySnapshotChunk (if a.writesOf o lz (.ApplySnapshotChunk index chunk allowed allowed_secure)
      = [] then .Unknown else .Accept) [] []
  | .CreateSnapshot input =>
    .CreateSnapshot ((compressChunks lz (eld_chain.chunks CHUNK_SIZE input.data.bytes)).map
      (fun _ => ()))

def Archive.step (a : Archive) (call : SnapshotCall) : Archive × SnapshotAnswer :=
  (a ++ a.writesOf o lz call, a.answerOf o lz call)

/-- SHA-256 tells what a call asks for or puts from what the archive has. -/
def Archive.Clean (a : Archive) (call : SnapshotCall) : Prop :=
  a.AllApart o (a.writesOf o lz call) ∧
    match call with
    | .LoadSnapshotChunk height chunk => a.PlaceApart o (I64.ofUInt64 height) chunk
    | .OfferSnapshot snapshot _ _ => ∀ s, snapshot = some s → a.HeightApart o (I64.ofUInt64 s.height)
    | _ => True

variable {o lz} {st : CadoStore} {a : Archive}

instance : (call : SnapshotCall) → Decidable (a.Clean o lz call)
  | .ListSnapshots _ _ | .ApplySnapshotChunk _ _ _ _ | .CreateSnapshot _ =>
    inferInstanceAs (Decidable (_ ∧ True))
  | .LoadSnapshotChunk height chunk =>
    inferInstanceAs (Decidable (_ ∧ a.PlaceApart o (I64.ofUInt64 height) chunk))
  | .OfferSnapshot none _ _ => decidable_of_iff (a.AllApart o []) (by
      simp [Archive.Clean, Archive.writesOf])
  | .OfferSnapshot (some s) _ _ => decidable_of_iff (a.HeightApart o (I64.ofUInt64 s.height)) (by
      simp [Archive.Clean, Archive.writesOf, Archive.AllApart])

/-! ## The refinement -/

theorem list_of_refused {allowed allowed_secure : Bool} (limit : UInt32)
    (h : ¬ (allowed = true ∧ allowed_secure = true)) :
    ∃ e, st.list_snapshots o limit allowed allowed_secure = .error e := by
  obtain ⟨e, hpage⟩ := @page_of_refused st.path_index PATH_PREFIX_SNAPSHOT_METADATA _ _ h
  unfold CadoStore.list_snapshots
  rw [hpage]
  exact ⟨e, rfl⟩

theorem HoldsArchive.answer_list (h : HoldsArchive o st a) (allowed allowed_secure : Bool) :
    st.answer_list_snapshots o allowed allowed_secure =
      if allowed = true ∧ allowed_secure = true then
        (newestFirst (listed o a.stored 100)).map SnapshotMetadata.toSnapshot else [] := by
  unfold CadoStore.answer_list_snapshots
  by_cases hallowed : allowed = true ∧ allowed_secure = true
  · obtain ⟨rfl, rfl⟩ := hallowed
    rw [h.snapshots.list_snapshots_eq 100]
    simp
  · obtain ⟨e, hlist⟩ := @list_of_refused o st _ _ 100 hallowed
    rw [hlist, if_neg hallowed]

theorem HoldsArchive.load (h : HoldsArchive o st a) (hreads : o.ReadsSnapshots)
    {height : UInt64} {index : UInt32} (hplace : a.PlaceApart o (I64.ofUInt64 height) index) :
    st.load_snapshot_chunk o height index = a.bytesAt o (I64.ofUInt64 height) index := by
  unfold CadoStore.load_snapshot_chunk Archive.bytesAt
  cases hc : a.chunkAt (I64.ofUInt64 height) index with
  | none => simp only [h.get_chunk_none hplace hc]
  | some c =>
    by_cases hreadable : c.Readable o
    · simp only [h.get_chunk hc hreadable (hreads.snapshot_chunk c), if_pos hreadable]
    · obtain ⟨details, hget⟩ := h.get_chunk_long hc hreadable
      simp only [hget, if_neg hreadable]

theorem HoldsArchive.offer (h : HoldsArchive o st a) {snapshot : Option Snapshot}
    (hheight : ∀ s, snapshot = some s → a.HeightApart o (I64.ofUInt64 s.height)) (app_hash : Bytes)
    (has_capacity_for : UInt64 → Bool) :
    SnapshotAnswer.OfferSnapshot (st.offer_snapshot o snapshot app_hash has_capacity_for) =
      a.answerOf o lz (.OfferSnapshot snapshot app_hash has_capacity_for) := by
  unfold CadoStore.offer_snapshot Archive.answerOf
  cases snapshot with
  | none => rfl
  | some s =>
    simp only
    cases hm : a.metadataAt (I64.ofUInt64 s.height) with
    | none => simp only [h.get_metadata_none (hheight s rfl) hm]
    | some m =>
      by_cases hreadable : m.Readable o
      · simp only [h.get_metadata hm hreadable, if_pos hreadable]
      · obtain ⟨details, hget⟩ := h.get_metadata_long hm hreadable
        simp only [hget, if_neg hreadable]

theorem listed_subset (o : Outside) (stored : List SnapshotMetadata) (limit : Nat)
    {m : SnapshotMetadata} (hm : m ∈ listed o stored limit) : m ∈ stored ∧ m.Readable o := by
  unfold listed readPage at hm
  split at hm
  · have hfilter := List.mem_filter.mp hm
    exact ⟨take_subset_stored o stored 1 hfilter.1, of_decide_eq_true hfilter.2⟩
  · have hfilter := List.mem_filter.mp (List.mem_of_mem_take hm)
    exact ⟨take_subset_stored o stored 100 hfilter.1, of_decide_eq_true hfilter.2⟩

/-- The snapshot that chunks go to stands in the archive, and can be read. -/
theorem HoldsArchive.newest_at (h : HoldsArchive o st a) {m : SnapshotMetadata}
    (hm : a.newest o = some m) : a.metadataAt m.height = some m ∧ m.Readable o := by
  have hlisted : m ∈ listed o a.stored 10 :=
    (List.perm_insertionSort _ _).mem_iff.mp (List.mem_of_head? hm)
  obtain ⟨hstored, hreadable⟩ := listed_subset o a.stored 10 hlisted
  refine ⟨?_, hreadable⟩
  have hsome : (a.metadataAt m.height).isSome = true := by
    unfold Archive.metadataAt
    rw [List.find?_isSome]
    exact ⟨m, hstored, decide_eq_true rfl⟩
  obtain ⟨n, hn⟩ := Option.isSome_iff_exists.mp hsome
  obtain ⟨hnstored, hheight⟩ := Archive.metadataAt_mem hn
  rw [hn, List.inj_on_of_nodup_map h.snapshots.distinct hnstored hstored hheight]

theorem HoldsArchive.apply (h : HoldsArchive o st a) (index : UInt32) (chunk : ByteVec)
    (allowed allowed_secure : Bool)
    (hapart : a.AllApart o
      (a.writesOf o lz (.ApplySnapshotChunk index chunk allowed allowed_secure))) :
    HoldsArchive o (st.apply_snapshot_chunk o index chunk allowed allowed_secure).1
        (a ++ a.writesOf o lz (.ApplySnapshotChunk index chunk allowed allowed_secure)) ∧
      (st.apply_snapshot_chunk o index chunk allowed allowed_secure).2 =
        if a.writesOf o lz (.ApplySnapshotChunk index chunk allowed allowed_secure) = [] then
          .Unknown else .Accept := by
  by_cases hallowed : allowed = true ∧ allowed_secure = true
  · obtain ⟨rfl, rfl⟩ := hallowed
    have hlist := h.snapshots.list_snapshots_eq 10
    have hten : (10 : UInt32).toNat = 10 := rfl
    rw [hten] at hlist
    unfold CadoStore.apply_snapshot_chunk
    rw [hlist]
    cases hsorted : newestFirst (listed o a.stored 10) with
    | nil =>
      have hnone : a.newest o = none := by simp [Archive.newest, hsorted]
      simpa [Archive.writesOf, hnone] using h
    | cons m rest =>
      have hnewest : a.newest o = some m := by simp [Archive.newest, hsorted]
      obtain ⟨hat, hreadable⟩ := h.newest_at hnewest
      have hstore := @store_snapshot_chunk_holds o st a _ m index chunk h hat hreadable
      simp only [Archive.writesOf, hnewest] at hapart ⊢
      by_cases hindex : index < m.chunk_count
      · rw [if_pos hindex] at hstore
        simp only [and_self, hindex, if_true] at hapart ⊢
        simp only [hstore]
        refine ⟨h.put_chunk hapart.1, ?_⟩
        simp
      · rw [if_neg hindex] at hstore
        obtain ⟨e, hstore⟩ := hstore
        simpa [hstore, hindex] using h
  · obtain ⟨e, hlist⟩ := @list_of_refused o st _ _ 10 hallowed
    have hnone : a.writesOf o lz (.ApplySnapshotChunk index chunk allowed allowed_secure) = [] := by
      unfold Archive.writesOf
      cases hnewest : a.newest o with
      | none => rfl
      | some m =>
        simp only
        rw [if_neg (fun hboth => hallowed hboth.1)]
    unfold CadoStore.apply_snapshot_chunk
    rw [hlist, hnone]
    simpa using h

/-- The database of a node answers every call as the archive of what was put does. -/
theorem snapshotStep_refines (o : Outside) (lz : Lz4) (hreads : o.ReadsSnapshots) :
    Refines (Archive.step o lz) (CadoStore.snapshotStep o lz) (fun a st => HoldsArchive o st a)
      (Archive.Clean o lz) := by
  refine ⟨?_, ?_⟩
  · intro a st call h hclean
    cases call with
    | ListSnapshots | LoadSnapshotChunk | OfferSnapshot =>
      simpa [Archive.step, Archive.writesOf, CadoStore.snapshotStep] using h
    | ApplySnapshotChunk index chunk allowed allowed_secure =>
      exact (h.apply index chunk allowed allowed_secure hclean.1).1
    | CreateSnapshot input =>
      obtain ⟨hapart, _⟩ := hclean
      simp only [Archive.step, Archive.writesOf, CadoStore.snapshotStep] at hapart ⊢
      cases hcompress : compressChunks lz (eld_chain.chunks CHUNK_SIZE input.data.bytes) with
      | error e => simpa [CadoStore.create_snapshot_with_app_hash, hcompress] using h
      | ok compressed =>
        rw [hcompress] at hapart
        exact (create_snapshot_holds h hcompress hapart (hreads.snapshot_metadata _)).2
  · intro a st call h hclean
    cases call with
    | ListSnapshots allowed allowed_secure =>
      exact congrArg SnapshotAnswer.ListSnapshots (h.answer_list allowed allowed_secure)
    | LoadSnapshotChunk height chunk =>
      exact congrArg SnapshotAnswer.LoadSnapshotChunk (h.load hreads hclean.2)
    | OfferSnapshot snapshot app_hash has_capacity_for =>
      exact @HoldsArchive.offer o lz _ _ h _ hclean.2 app_hash has_capacity_for
    | ApplySnapshotChunk index chunk allowed allowed_secure =>
      have hanswer := (h.apply index chunk allowed allowed_secure hclean.1).2
      simp only [CadoStore.snapshotStep, Archive.step, Archive.answerOf, hanswer]
    | CreateSnapshot input =>
      obtain ⟨hapart, _⟩ := hclean
      simp only [Archive.step, Archive.writesOf, CadoStore.snapshotStep, Archive.answerOf]
        at hapart ⊢
      cases hcompress : compressChunks lz (eld_chain.chunks CHUNK_SIZE input.data.bytes) with
      | error e => simp [CadoStore.create_snapshot_with_app_hash, hcompress, Except.map]
      | ok compressed =>
        rw [hcompress] at hapart
        simp [(create_snapshot_holds h hcompress hapart (hreads.snapshot_metadata _)).1, Except.map]

/-- Over every list of calls, a database that holds an archive answers as the archive does, to
which the calls add what they put. -/
theorem the_connection_answers_as_the_archive (o : Outside) (lz : Lz4) (hreads : o.ReadsSnapshots)
    (st : CadoStore) (a : Archive) (hst : HoldsArchive o st a) (calls : List SnapshotCall)
    (hclean : Throughout (Archive.step o lz) (Archive.Clean o lz) a calls) :
    answers (CadoStore.snapshotStep o lz) st calls = answers (Archive.step o lz) a calls ∧
      HoldsArchive o (after (CadoStore.snapshotStep o lz) st calls)
        (after (Archive.step o lz) a calls) := by
  obtain ⟨hholds, hanswers⟩ := (snapshotStep_refines o lz hreads).run hst hclean
  exact ⟨hanswers, hholds⟩

theorem smallInput_fits : FitsUsize [1, 2, 3].length := by decide

theorem oneByte_fits : FitsUsize [9].length := by decide

def smallInput : SnapshotInput where
  height := snapshotHeight 100
  data := ⟨[1, 2, 3], smallInput_fits⟩
  app_hash := 7
  counts := ⟨1, 0, 0, 0⟩
  now := 5

/-- A snapshot is made, offered back, loaded, and its chunk is written over from outside. -/
def snapshotCalls : List SnapshotCall :=
  [.CreateSnapshot smallInput, .ListSnapshots true true,
    .OfferSnapshot (some ⟨100, 1, 1, [], []⟩) [] (fun _ => true), .LoadSnapshotChunk 100 0,
    .ApplySnapshotChunk 0 ⟨[9], oneByte_fits⟩ true true, .LoadSnapshotChunk 100 0]

/-- The metadata of an older snapshot. -/
def olderStore : CadoStore := CadoStore.empty.withSnapshot Outside.toy (smallSnapshot 50)

theorem olderStore_holds : HoldsArchive Outside.toy olderStore [.metadata (smallSnapshot 50)] :=
  (HoldsArchive.empty Outside.toy).put_metadata (by decide +kernel)
    (toy_readsSnapshots.snapshot_metadata _)

theorem the_connection_answers_as_the_archive_on_snapshotCalls :
    answers (CadoStore.snapshotStep Outside.toy literalLz4) olderStore snapshotCalls =
        answers (Archive.step Outside.toy literalLz4) [.metadata (smallSnapshot 50)]
          snapshotCalls ∧
      HoldsArchive Outside.toy
        (after (CadoStore.snapshotStep Outside.toy literalLz4) olderStore snapshotCalls)
        (after (Archive.step Outside.toy literalLz4) [.metadata (smallSnapshot 50)]
          snapshotCalls) :=
  the_connection_answers_as_the_archive Outside.toy literalLz4 toy_readsSnapshots olderStore _
    olderStore_holds snapshotCalls (by decide +kernel)

end eld_chain
