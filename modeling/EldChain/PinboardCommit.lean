-- A commit announces the messages of its block to the peers and hands
-- their blobs to the slots, from collections that it takes at different
-- points. The blobs that it deletes are those that it hands on. The map
-- that it announces is one that it has cleared before, so a commit does
-- what it should exactly when its block has no messages.
import EldChain.PinboardHistory

open Std

namespace eld_chain

variable (o : Outside) (pc : ProtocolConstants)

/-! ## Blobs -/

/-- What the pre-validation of a commit collects. -/
structure PinboardBlobs where
  pinboard_capacity_blobs : ExtTreeMap Text Bytes compare
  pinboard_temp_blob_keys_to_delete : ExtTreeSet Text compare

def PinboardBlobs.empty : PinboardBlobs := ⟨∅, ∅⟩

def PinboardBlobs.add (blobs : PinboardBlobs) (content_key : Text) (temp_bytes : Bytes) :
    PinboardBlobs where
  pinboard_capacity_blobs := blobs.pinboard_capacity_blobs.insert content_key temp_bytes
  pinboard_temp_blob_keys_to_delete := blobs.pinboard_temp_blob_keys_to_delete.insert content_key

/-- The loop that reads the blob of every staged message before anything is written. -/
def prevalidate_pinboard_temp_blob (db : Storage) :
    List (Text × PinboardMessageMetadata) → PinboardBlobs → Except EldError PinboardBlobs
  | [], blobs => .ok blobs
  | p :: rest, blobs =>
    match db.pinboard_temp_blobs[p.2.content_key]? with
    | some temp_bytes =>
      prevalidate_pinboard_temp_blob db rest (blobs.add p.2.content_key temp_bytes)
    | none => .error (.StorageError "prevalidate_pinboard_temp_blob"
        ("Missing pinboard temp blob for message_id=" ++ String.ofList p.1 ++ " content_key="
          ++ String.ofList p.2.content_key))

def deleteBlobs (keys : List Text) (tx : Storage) : Storage :=
  { tx with
    pinboard_temp_blobs := keys.foldl (fun blobs key => blobs.erase key) tx.pinboard_temp_blobs }

/-! ## The calls of a commit -/

/-- The calls that a commit makes for the messages of its block: the rows that it puts, the
blobs that it deletes, the map that it announces and the blobs that it schedules for the slots. -/
structure PinboardCalls where
  put_pinboard_metadata : List (Text × PinboardMessageMetadata)
  delete_pinboard_temp_blob : List Text
  pinboard_meta_cache : ExtTreeMap Text PinboardMessageMetadata compare
  blobs : ExtTreeMap Text Bytes compare

/-- The content keys that go to the peers. -/
def find_pinboard_and_broadcast_announce
    (pinboard_meta_cache : ExtTreeMap Text PinboardMessageMetadata compare) : List Text :=
  pinboard_meta_cache.toList.map (fun p => p.2.content_key)

/-- `writeStaged` with the rows that it puts and the blobs that it collects. -/
def writeStagedCalls (db : Storage) (e : AppStateEnvelope) :
    Except EldError ((Storage × AppStateEnvelope) ×
      List (Text × PinboardMessageMetadata) × PinboardBlobs) :=
  match deletePending o db e.cado_cache_to_delete db with
  | .error err => .error err
  | .ok tx =>
    let e1 := dropDeleted o e
    let put := putStaged o tx e1.cado_cache
    let e2 := { e1 with cado_cache := put.2 }
    match prevalidate_pinboard_temp_blob db e2.pinboard_meta_cache.toList .empty with
    | .error err => .error err
    | .ok blobs =>
      let tx1 := deleteBlobs blobs.pinboard_temp_blob_keys_to_delete.toList put.1
      let done := registerNamespaces o (flushProofs tx1 e2) (clearStaged e2)
      .ok ((done.1, mergeStaged o done.2), e2.pinboard_meta_cache.toList, blobs)

/-- `commit_inner` with its calls. The announcement reads the cache of the state after the
staged writes. -/
def commitCalls (c : ConsensusConnection) :
    Except EldError (ConsensusConnection × PinboardCalls) :=
  match c.current_state with
  | none => .error (.InitializationError "current state" "state is None in commit")
  | some s =>
    match s.app_hash.data with
    | none =>
      .error (.ValidationError "app_hash" "empty" "App hash cannot be empty during commit")
    | some app_hash =>
      match writeStagedCalls o c.storage (selectForNextEpoch pc s.envelope) with
      | .error err => .error err
      | .ok ((tx, e), rows, blobs) =>
        match storeTip o tx ⟨e.block_height, e.state_trie.root_hash, app_hash⟩ with
        | .error err => .error err
        | .ok tx1 =>
          match storeSnapshot o pc tx1 { s with envelope := e } with
          | .error err => .error err
          | .ok tx2 => .ok ({ c with
              committed_state := { s with envelope := { e with cado_cache := ∅ } }
              storage := tx2 }, {
              put_pinboard_metadata := rows
              delete_pinboard_temp_blob := blobs.pinboard_temp_blob_keys_to_delete.toList
              pinboard_meta_cache := e.pinboard_meta_cache
              blobs := blobs.pinboard_capacity_blobs })

/-! ## The collected blobs -/

variable {o : Outside} {pc : ProtocolConstants} {cfg : GenesisConfig} {db : Storage}

/-- The collection holds the blobs of some messages, as the database has them. -/
structure PinboardBlobs.Of (db : Storage) (l : List (Text × PinboardMessageMetadata))
    (blobs : PinboardBlobs) : Prop where
  capacity : ∀ (key : Text) bytes, blobs.pinboard_capacity_blobs[key]? = some bytes ↔
    (∃ p ∈ l, p.2.content_key = key) ∧ db.pinboard_temp_blobs[key]? = some bytes
  deleted : ∀ key, key ∈ blobs.pinboard_temp_blob_keys_to_delete ↔
    ∃ p ∈ l, p.2.content_key = key
  held : ∀ p ∈ l, ∃ bytes, db.pinboard_temp_blobs[p.2.content_key]? = some bytes

theorem PinboardBlobs.Of.empty : PinboardBlobs.Of db [] .empty := by
  constructor
  · simp [PinboardBlobs.empty]
  · simp [PinboardBlobs.empty]
  · simp

theorem PinboardBlobs.Of.add {l : List (Text × PinboardMessageMetadata)} {blobs : PinboardBlobs}
    (h : blobs.Of db l) {p : Text × PinboardMessageMetadata} {temp_bytes : Bytes}
    (hread : db.pinboard_temp_blobs[p.2.content_key]? = some temp_bytes) :
    (blobs.add p.2.content_key temp_bytes).Of db (l ++ [p]) := by
  constructor
  · intro key bytes
    unfold PinboardBlobs.add
    rw [finite_map.get_insert]
    by_cases hkey : p.2.content_key = key
    · rw [if_pos hkey, ← hkey, hread]
      simp
    · rw [if_neg hkey, h.capacity]
      simp [hkey, or_and_right, exists_or]
  · intro key
    unfold PinboardBlobs.add
    simp only [ExtTreeSet.mem_insert, LawfulEqCmp.compare_eq_iff_eq, h.deleted, List.mem_append,
      List.mem_singleton, or_and_right, exists_or, exists_eq_left]
    exact or_comm
  · intro q hq
    rcases List.mem_append.mp hq with hq | hq
    · exact h.held q hq
    · rw [List.mem_singleton.mp hq]
      exact ⟨temp_bytes, hread⟩

/-- The keys to delete are those of the collected blobs. -/
theorem PinboardBlobs.Of.deleted_iff {l : List (Text × PinboardMessageMetadata)}
    {blobs : PinboardBlobs} (h : blobs.Of db l) (key : Text) :
    key ∈ blobs.pinboard_temp_blob_keys_to_delete ↔ key ∈ blobs.pinboard_capacity_blobs := by
  rw [h.deleted, ExtTreeMap.mem_iff_isSome_getElem?, Option.isSome_iff_exists]
  constructor
  · rintro ⟨p, hp, rfl⟩
    obtain ⟨bytes, hbytes⟩ := h.held p hp
    exact ⟨bytes, (h.capacity _ _).mpr ⟨⟨p, hp, rfl⟩, hbytes⟩⟩
  · rintro ⟨bytes, hbytes⟩
    exact ((h.capacity key bytes).mp hbytes).1

/-- The loop stops at the first message without its blob, or collects the blobs of all. -/
theorem prevalidate.spec (l before : List (Text × PinboardMessageMetadata))
    {blobs : PinboardBlobs} (h : blobs.Of db before) :
    match l.filter (fun p => !db.pinboard_temp_blobs.contains p.2.content_key) with
    | p :: _ => prevalidate_pinboard_temp_blob db l blobs =
        .error (.StorageError "prevalidate_pinboard_temp_blob"
          ("Missing pinboard temp blob for message_id=" ++ String.ofList p.1 ++ " content_key="
            ++ String.ofList p.2.content_key))
    | [] => ∃ blobs', prevalidate_pinboard_temp_blob db l blobs = .ok blobs' ∧
        blobs'.Of db (before ++ l) := by
  induction l generalizing before blobs with
  | nil => exact ⟨blobs, rfl, by rwa [List.append_nil]⟩
  | cons p l ih =>
    cases hread : db.pinboard_temp_blobs[p.2.content_key]? with
    | none =>
      have hmissing : db.pinboard_temp_blobs.contains p.2.content_key = false := by
        rw [ExtTreeMap.contains_eq_isSome_getElem?, hread]
        rfl
      rw [List.filter_cons_of_pos (by rw [hmissing]; rfl), prevalidate_pinboard_temp_blob]
      simp only [hread]
    | some temp_bytes =>
      have hheld : db.pinboard_temp_blobs.contains p.2.content_key = true := by
        rw [ExtTreeMap.contains_eq_isSome_getElem?, hread]
        rfl
      rw [List.filter_cons_of_neg (by rw [hheld]; simp), prevalidate_pinboard_temp_blob]
      simp only [hread]
      have hrest := ih (before ++ [p]) (h.add hread)
      rw [List.append_assoc, List.singleton_append] at hrest
      exact hrest

/-- Deleting the collected keys is taking the blobs of the block away. -/
theorem deleteBlobs_eq {e : AppStateEnvelope} {blobs : PinboardBlobs}
    (h : blobs.Of db e.pinboard_meta_cache.toList) (tx : Storage) :
    deleteBlobs blobs.pinboard_temp_blob_keys_to_delete.toList tx = flushPinboard tx e := by
  unfold deleteBlobs flushPinboard
  congr 1
  apply ExtTreeMap.ext_getElem?
  intro key
  have hflush := finite_map.get_eraseEach
    (e.pinboard_meta_cache.toList.map (fun p => p.2.content_key)) tx.pinboard_temp_blobs key
  rw [List.foldl_map] at hflush
  rw [finite_map.get_eraseEach, hflush]
  have hsame : key ∈ blobs.pinboard_temp_blob_keys_to_delete.toList ↔
      key ∈ e.pinboard_meta_cache.toList.map (fun p => p.2.content_key) := by
    rw [ExtTreeSet.mem_toList, h.deleted, List.mem_map]
  by_cases hkey : key ∈ blobs.pinboard_temp_blob_keys_to_delete.toList
  · rw [if_pos hkey, if_pos (hsame.mp hkey)]
  · rw [if_neg hkey, if_neg (fun hmem => hkey (hsame.mpr hmem))]

/-! ## The calls and the commit -/

/-- The calls of the staged writes go with these writes. -/
theorem writeStagedCalls.spec (db : Storage) (e : AppStateEnvelope) :
    (writeStagedCalls o db e).map Prod.fst = writeStaged o db e ∧
      ∀ done rows blobs, writeStagedCalls o db e = .ok (done, rows, blobs) → blobs.Of db rows := by
  unfold writeStagedCalls writeStaged
  cases hdelete : deletePending o db e.cado_cache_to_delete db with
  | error err => exact ⟨rfl, fun done rows blobs h => (by cases h)⟩
  | ok tx =>
    simp only
    generalize (putStaged o tx (dropDeleted o e).cado_cache) = put
    generalize he2 : ({ dropDeleted o e with cado_cache := put.2 } : AppStateEnvelope) = e2
    have hcache : (dropDeleted o e).pinboard_meta_cache = e2.pinboard_meta_cache := by rw [← he2]
    rw [hcache]
    have hcollected := prevalidate.spec e2.pinboard_meta_cache.toList [] (@PinboardBlobs.Of.empty db)
    unfold missingBlobs
    cases hmissing : e2.pinboard_meta_cache.toList.filter
        (fun p => !db.pinboard_temp_blobs.contains p.2.content_key) with
    | cons p rest =>
      rw [hmissing] at hcollected
      simp only at hcollected
      rw [hcollected]
      exact ⟨rfl, fun done rows blobs h => (by cases h)⟩
    | nil =>
      rw [hmissing] at hcollected
      obtain ⟨blobs, hblobs, hof⟩ := hcollected
      rw [hblobs]
      simp only [deleteBlobs_eq hof]
      refine ⟨rfl, fun done rows blobs' h => ?_⟩
      cases h
      exact hof

/-- The calls of a commit go with the commit. -/
theorem commitCalls_fst (c : ConsensusConnection) :
    (commitCalls o pc c).map Prod.fst = commit_inner o pc c := by
  unfold commitCalls commit_inner
  cases c.current_state with
  | none => rfl
  | some s =>
    cases happ : s.app_hash.data with
    | none =>
      simp only [happ]
      rfl
    | some app_hash =>
      simp only [happ]
      rw [← (@writeStagedCalls.spec o c.storage (selectForNextEpoch pc s.envelope)).1]
      cases writeStagedCalls o c.storage (selectForNextEpoch pc s.envelope) with
      | error err => rfl
      | ok written =>
        obtain ⟨⟨tx, e⟩, rows, blobs⟩ := written
        simp only [Except.map]
        cases storeTip o tx ⟨e.block_height, e.state_trie.root_hash, app_hash⟩ with
        | error err => rfl
        | ok tx1 =>
          simp only
          cases storeSnapshot o pc tx1 { s with envelope := e } with
          | error err => rfl
          | ok tx2 => rfl

/-- A commit of the open state `s` puts the row of every staged message, schedules and deletes
their blobs, and announces what it leaves in the cache. -/
structure CallsOf (s : AppState) (c c' : ConsensusConnection) (calls : PinboardCalls) : Prop where
  put : calls.put_pinboard_metadata = s.envelope.pinboard_meta_cache.toList
  scheduled : ∀ (key : Text) bytes, calls.blobs[key]? = some bytes ↔
    (∃ p ∈ calls.put_pinboard_metadata, p.2.content_key = key) ∧
      c.storage.pinboard_temp_blobs[key]? = some bytes
  deleted : ∀ key, key ∈ calls.delete_pinboard_temp_blob ↔ key ∈ calls.blobs
  announced : calls.pinboard_meta_cache = c'.committed_state.envelope.pinboard_meta_cache
  left : c'.storage.pinboard_temp_blobs =
    (flushPinboard c.storage s.envelope).pinboard_temp_blobs

/-- The rows of a good state are those that it has staged. -/
theorem writeStagedCalls_rows {e : AppStateEnvelope} {done : Storage × AppStateEnvelope}
    {rows : List (Text × PinboardMessageMetadata)} {blobs : PinboardBlobs} (h : GoodStaged o e)
    (hcalls : writeStagedCalls o db e = .ok (done, rows, blobs)) :
    rows = e.pinboard_meta_cache.toList := by
  unfold writeStagedCalls at hcalls
  rw [h.no_deletes, deletePending] at hcalls
  simp only [dropDeleted_of_good h] at hcalls
  cases hblobs : prevalidate_pinboard_temp_blob db e.pinboard_meta_cache.toList .empty with
  | error err =>
    rw [hblobs] at hcalls
    cases hcalls
  | ok collected =>
    rw [hblobs] at hcalls
    cases hcalls
    rfl

theorem commitCalls.spec {c c' : ConsensusConnection} {calls : PinboardCalls} {s : AppState}
    (hs : c.current_state = some s) (hg : Good o s.envelope c.storage)
    (h : commitCalls o pc c = .ok (c', calls)) : CallsOf s c c' calls := by
  have hselected := good_selectForNextEpoch pc hg
  have hwrites := @writeStagedCalls.spec o c.storage (selectForNextEpoch pc s.envelope)
  unfold commitCalls at h
  rw [hs] at h
  simp only at h
  cases happ : s.app_hash.data with
  | none =>
    rw [happ] at h
    cases h
  | some app_hash =>
    rw [happ] at h
    simp only at h
    cases hwritten : writeStagedCalls o c.storage (selectForNextEpoch pc s.envelope) with
    | error err =>
      rw [hwritten] at h
      cases h
    | ok written =>
      obtain ⟨⟨tx, e⟩, rows, blobs⟩ := written
      rw [hwritten] at h hwrites
      simp only at h
      cases htip : storeTip o tx ⟨e.block_height, e.state_trie.root_hash, app_hash⟩ with
      | error err =>
        rw [htip] at h
        cases h
      | ok tx1 =>
        rw [htip] at h
        simp only at h
        cases hsnap : storeSnapshot o pc tx1 { s with envelope := e } with
        | error err =>
          rw [hsnap] at h
          cases h
        | ok tx2 =>
          rw [hsnap] at h
          cases h
          have hof := hwrites.2 _ _ _ rfl
          have hrows := writeStagedCalls_rows hselected.staged hwritten
          obtain ⟨_, _, hside⟩ := writeStaged.spec hselected hwrites.1.symm
          have hside := (hside.trans (storeTip_sameAside htip)).trans (storeSnapshot_sameAside hsnap)
          rw [selectForNextEpoch_eq] at hrows hside
          refine ⟨hrows, hof.capacity, fun key => ?_, rfl, hside.2.2⟩
          rw [ExtTreeSet.mem_toList]
          exact hof.deleted_iff key

variable {n n' : PinboardNode}

/-- Every commit of a node makes its calls. -/
theorem calls_of_commit (hg : NodeGood o n.node) (h : n.step o pc .Commit = some n') :
    ∃ calls, commitCalls o pc n.node.conn = .ok (n'.node.conn, calls) ∧
      CallsOf n.node.state n.node.conn n'.node.conn calls ∧
      n'.node.conn.committed_state.envelope.pinboard_meta_cache = ∅ := by
  have hcases := step_cases (PinboardNode.step.spec h).1
  generalize n'.node = node' at hcases
  cases hcases with
  | @committed s c' phase current commits =>
    obtain ⟨hstate, hgood⟩ := hg.of_current (by simp [phase]) current
    have hcleared := (commit_inner.spec current hgood commits).envelope.pinboard_meta_cache
    rw [← commitCalls_fst] at commits
    cases hcalls : commitCalls o pc n.node.conn with
    | error err =>
      rw [hcalls] at commits
      cases commits
    | ok done =>
      rw [hcalls] at commits
      cases commits
      refine ⟨done.2, rfl, ?_, hcleared⟩
      rw [hstate]
      exact commitCalls.spec current hgood hcalls

/-- The calls put the rows that the commit leaves in the tables. -/
theorem rows_of_calls {calls : PinboardCalls} (h : n.step o pc .Commit = some n')
    (hcalls : CallsOf n.node.state n.node.conn n'.node.conn calls) :
    n'.tables.metadata = (calls.put_pinboard_metadata.foldl
      (fun t p => t.put_pinboard_metadata_with_tx p.1 p.2) n.tables).metadata := by
  obtain ⟨_, ⟨_, hcommit, _⟩ | ⟨hne, _⟩⟩ := PinboardNode.step.spec h
  · rw [hcalls.put]
    exact (PinboardTables.commit.spec hcommit).1
  · exact absurd rfl hne

/-! ## Runs -/

/-- What a commit should do for the messages whose rows it puts: announce them, schedule their
blobs and delete these and no others. -/
structure PinboardCalls.Mirror (calls : PinboardCalls) (before after : Storage) : Prop where
  announced : ∀ (message_id : Text) m, calls.pinboard_meta_cache[message_id]? = some m ↔
    (message_id, m) ∈ calls.put_pinboard_metadata
  scheduled : ∀ (key : Text) bytes, calls.blobs[key]? = some bytes ↔
    (∃ p ∈ calls.put_pinboard_metadata, p.2.content_key = key) ∧
      before.pinboard_temp_blobs[key]? = some bytes
  deleted : ∀ key, key ∈ calls.delete_pinboard_temp_blob ↔ key ∈ calls.blobs
  spared : ∀ (key : Text) bytes, before.pinboard_temp_blobs[key]? = some bytes →
    after.pinboard_temp_blobs[key]? = none →
    key ∈ find_pinboard_and_broadcast_announce calls.pinboard_meta_cache ∧
      calls.blobs[key]? = some bytes

/-- A commit announces and schedules the messages that it writes. -/
def PinboardNode.Mirrors (o : Outside) (pc : ProtocolConstants) (n : PinboardNode) :
    Request → Prop
  | .Commit => ∀ n', n.step o pc .Commit = some n' → ∃ calls,
      commitCalls o pc n.node.conn = .ok (n'.node.conn, calls) ∧
      calls.Mirror n.node.conn.storage n'.node.conn.storage
  | _ => True

/-- A block is committed only when it has accepted no message. -/
def PinboardNode.Postless (o : Outside) (pc : ProtocolConstants) (n : PinboardNode) :
    Request → Prop
  | .Commit => (n.step o pc .Commit).isSome → n.posted = []
  | _ => True

/-- A blob that a commit deletes is scheduled for the slots with its bytes. -/
theorem scheduled_of_deleted {s : AppState} {c c' : ConsensusConnection} {calls : PinboardCalls}
    (h : CallsOf s c c' calls) {key : Text} {bytes : Bytes}
    (hbefore : c.storage.pinboard_temp_blobs[key]? = some bytes)
    (hafter : c'.storage.pinboard_temp_blobs[key]? = none) : calls.blobs[key]? = some bytes := by
  rw [h.scheduled]
  refine ⟨?_, hbefore⟩
  have hflush := finite_map.get_eraseEach
    (s.envelope.pinboard_meta_cache.toList.map (fun p => p.2.content_key))
    c.storage.pinboard_temp_blobs key
  rw [List.foldl_map] at hflush
  rw [h.left] at hafter
  unfold flushPinboard at hafter
  simp only at hafter
  rw [hflush] at hafter
  rw [h.put]
  by_cases hmem : key ∈ s.envelope.pinboard_meta_cache.toList.map (fun p => p.2.content_key)
  · exact List.mem_map.mp hmem
  · rw [if_neg hmem, hbefore] at hafter
    cases hafter

/-- A commit does what it should exactly when it announces the staged messages: the blobs that
it schedules and deletes are right in any case. -/
theorem CallsOf.mirror_iff {s : AppState} {c c' : ConsensusConnection} {calls : PinboardCalls}
    (h : CallsOf s c c' calls) : calls.Mirror c.storage c'.storage ↔
      calls.pinboard_meta_cache = s.envelope.pinboard_meta_cache := by
  constructor
  · intro hmirror
    apply ExtTreeMap.ext_getElem?
    intro message_id
    apply Option.ext
    intro m
    have hannounced := hmirror.announced message_id m
    rw [h.put, finite_map.mem_toList] at hannounced
    exact hannounced
  · intro hsame
    refine ⟨?_, h.scheduled, h.deleted, ?_⟩
    · intro message_id m
      rw [h.put, finite_map.mem_toList, hsame]
    · intro key bytes hbefore hafter
      have hscheduled := scheduled_of_deleted h hbefore hafter
      refine ⟨?_, hscheduled⟩
      obtain ⟨p, hp, hkey⟩ := ((h.scheduled key bytes).mp hscheduled).1
      unfold find_pinboard_and_broadcast_announce
      rw [hsame, ← h.put]
      exact List.mem_map.mpr ⟨p, hp, hkey⟩

/-- A block stages nothing exactly when it accepts no message. -/
theorem staged_empty_iff (posted : List PinboardMessageMetadata) :
    ∅ = (StagedPosts.empty.addAll posted).meta_cache ↔ posted = [] := by
  constructor
  · intro hempty
    cases posted with
    | nil => rfl
    | cons m posted =>
      have hstaged : (StagedPosts.empty.addAll (m :: posted)).meta_cache[m.message_id]?.isSome =
          true :=
        add_writes.isSome (Or.inl ⟨m, List.mem_cons_self, List.mem_singleton.mpr rfl⟩)
      rw [← hempty] at hstaged
      simp at hstaged
  · rintro rfl
    rfl

theorem mirrors_iff (hg : NodeGood o n.node)
    (hstaged : n.node.state.envelope.staged_posts = StagedPosts.empty.addAll n.posted)
    (r : Request) : n.Mirrors o pc r ↔ n.Postless o pc r := by
  cases r with
  | Commit =>
    unfold PinboardNode.Mirrors PinboardNode.Postless
    cases hstep : n.step o pc .Commit with
    | none => simp
    | some n' =>
      obtain ⟨calls, hcalls, hof, hcleared⟩ := calls_of_commit hg hstep
      have hcache : n.node.state.envelope.pinboard_meta_cache =
          (StagedPosts.empty.addAll n.posted).meta_cache := congrArg StagedPosts.meta_cache hstaged
      have hiff := hof.mirror_iff
      rw [hof.announced, hcleared, hcache, staged_empty_iff] at hiff
      simp only [Option.some.injEq, forall_eq', Option.isSome_some, forall_const]
      rw [← hiff]
      constructor
      · rintro ⟨calls', hcalls', hmirror⟩
        rw [hcalls] at hcalls'
        cases hcalls'
        exact hmirror
      · intro hmirror
        exact ⟨calls, hcalls, hmirror⟩
  | _ => exact Iff.rfl

/-- In a run every commit announces the messages that it writes, and schedules their blobs,
exactly when every block is committed without messages. -/
theorem messages_are_announced_iff (o : Outside) (pc : ProtocolConstants) (cfg : GenesisConfig)
    (requests : List Request) :
    (∀ p ∈ runs.visits (PinboardNode.step o pc) requests (PinboardNode.genesis o pc cfg),
      p.1.Mirrors o pc p.2) ↔
    ∀ p ∈ runs.visits (PinboardNode.step o pc) requests (PinboardNode.genesis o pc cfg),
      p.1.Postless o pc p.2 := by
  apply forall₂_congr
  intro p hp
  obtain ⟨earlier, hrun, _⟩ := runs.mem_visits _ hp
  obtain ⟨hg, hstaged⟩ := PinboardNode.staged_of_run hrun
  exact mirrors_iff hg hstaged p.2

/-- Alice uploads her blob and posts it. -/
def postedOnce : List Request :=
  [.UploadBlob "k".toList [1], .BeginBlock, .DeliverTx (.ok (alicePosts 1)),
    .EndBlock (smallHeight 1)]

/-- The commit of her block writes a row, deletes the blob and announces nothing. -/
theorem message_is_not_announced :
    ¬ ∀ p ∈ runs.visits (PinboardNode.step Outside.toy smallConstants) (postedOnce ++ [.Commit])
      (PinboardNode.genesis Outside.toy smallConstants smallConfig),
        p.1.Mirrors Outside.toy smallConstants p.2 := by
  intro hall
  have hrun : (runs.run (PinboardNode.step Outside.toy smallConstants) postedOnce
      (PinboardNode.genesis Outside.toy smallConstants smallConfig)).any (fun n =>
        (n.step Outside.toy smallConstants .Commit).any (fun n' =>
          match commitCalls Outside.toy smallConstants n.node.conn with
          | .ok (_, calls) =>
            decide (calls.delete_pinboard_temp_blob = ["k".toList]) &&
            decide (calls.put_pinboard_metadata.map Prod.fst = ["m".toList]) &&
            calls.pinboard_meta_cache.isEmpty
          | .error _ => false)) = true := by decide +kernel
  obtain ⟨n, hn, hcommit⟩ := (Option.any_eq_true _ _).mp hrun
  obtain ⟨n', hn', hcalls⟩ := (Option.any_eq_true _ _).mp hcommit
  have hvisit := @runs.mem_visits_of_earlier _ _ _ (postedOnce ++ [.Commit]) _ _ _ .Commit hn
    List.prefix_rfl
  obtain ⟨calls, hmade, hmirror⟩ := hall (n, .Commit) hvisit n' hn'
  rw [hmade] at hcalls
  simp only [Bool.and_eq_true, decide_eq_true_eq, ExtTreeMap.isEmpty_iff] at hcalls
  obtain ⟨⟨_, hput⟩, hnone⟩ := hcalls
  have hrow : "m".toList ∈ calls.put_pinboard_metadata.map Prod.fst := by
    rw [hput]
    exact List.mem_singleton.mpr rfl
  obtain ⟨⟨_, m⟩, hm, rfl⟩ := List.mem_map.mp hrow
  have hannounced := (hmirror.announced _ m).mpr hm
  rw [hnone] at hannounced
  simp at hannounced

end eld_chain
