-- Commit: the staged objects go to the database and to the committed
-- cache, the trie and the indexes follow, and the tip is written. At an
-- epoch boundary the snapshot is written too. One database transaction
-- holds every write.
import EldChain.Blocks
import EldChain.Snapshots

open Std

namespace eld_chain

variable (o : Outside) (pc : ProtocolConstants)

/-! ## Deletes -/

/-- The pending deletes, against the database as it was before the commit. -/
def deletePending (db : Storage) :
    List CADOMarkedForDeletion → Storage → Except EldError Storage
  | [], tx => .ok tx
  | d :: rest, tx =>
    match db.system_delete_cado_with_tx o tx d.cado_path d.owner with
    | .error e => .error e
    | .ok tx' => deletePending db rest tx'

/-- Takes the deleted paths out of the caches and the trie. -/
def dropDeleted (e : AppStateEnvelope) : AppStateEnvelope :=
  { e.cado_cache_to_delete.foldl (fun e d =>
      { e with
        cado_cache := e.cado_cache.erase d.cado_path
        committed_cado_cache := e.committed_cado_cache.erase d.cado_path
        state_trie := e.state_trie.remove o d.cado_path }) e with
    cado_cache_to_delete := [] }

/-! ## Puts -/

/-- One staged object. A path that cannot be written is dropped from the cache. -/
def putStagedStep (acc : Storage × CadoCache) (p : CadoPath × CadoBody CadoData) :
    Storage × CadoCache :=
  if p.1.is_infrastructure then acc
  else
    match acc.1.put_cado_type_with_tx o p.1 p.2.stored with
    | .ok tx => (tx, acc.2)
    | .error _ => (acc.1, acc.2.erase p.1)

def putStaged (tx : Storage) (cache : CadoCache) : Storage × CadoCache :=
  cache.toList.foldl (putStagedStep o) (tx, cache)

/-! ## Messages and proofs -/

/-- The staged messages whose blobs the node does not hold. -/
def missingBlobs (db : Storage) (e : AppStateEnvelope) :
    List (Text × PinboardMessageMetadata) :=
  e.pinboard_meta_cache.toList.filter
    (fun p => !db.pinboard_temp_blobs.contains p.2.content_key)

/-- The blobs of the block leave the temporary store. -/
def flushPinboard (tx : Storage) (e : AppStateEnvelope) : Storage :=
  { tx with
    pinboard_temp_blobs := e.pinboard_meta_cache.toList.foldl
      (fun blobs p => blobs.erase p.2.content_key) tx.pinboard_temp_blobs }

def insertAll (keys : ExtTreeSet Text compare) (s : ExtTreeSet Text compare) :
    ExtTreeSet Text compare :=
  keys.toList.foldl (fun s k => s.insert k) s

/-- The dedup keys of the block become permanent. -/
def flushProofs (tx : Storage) (e : AppStateEnvelope) : Storage :=
  { tx with
    vp_rewarded := insertAll e.verified_proof_rewarded_cache tx.vp_rewarded
    vp_failed := insertAll e.failed_proof_counted_cache tx.vp_failed }

/-- The staging caches that a commit has written out. -/
def clearStaged (e : AppStateEnvelope) : AppStateEnvelope :=
  { e with
    pinboard_meta_cache := ∅
    pinboard_idx_wallet_add := []
    pinboard_idx_tag_add := []
    pinboard_idx_expiry_add := []
    pinboard_idx_commit_add := []
    pinboard_refcount_deltas := ∅
    verified_proof_rewarded_cache := ∅
    failed_proof_counted_cache := ∅ }

/-! ## Namespaces -/

def namespace_cado (slug : Text) (record : NamespaceRecord) : CadoBody CadoData :=
  CadoBody.immutable o (.namespace_record record) ⟨.Namespace, slug⟩

/-- One staged registration. A registration that cannot be written is skipped. -/
def registerNamespace (acc : Storage × AppStateEnvelope) (p : Text × NamespaceRecord) :
    Storage × AppStateEnvelope :=
  match slug_to_namespace_cadopath p.1 with
  | .error _ => acc
  | .ok path =>
    let cado := namespace_cado o p.1 p.2
    match acc.1.put_cado_type_with_tx o path cado.stored with
    | .error _ => acc
    | .ok tx => (tx, { acc.2 with
        committed_cado_cache := acc.2.committed_cado_cache.insert path cado
        state_trie := acc.2.state_trie.insert o path cado.content_hash
        namespace_registry_index := acc.2.namespace_registry_index.insert p.1 p.2 })

def registerNamespaces (tx : Storage) (e : AppStateEnvelope) : Storage × AppStateEnvelope :=
  let done := e.namespace_registry_cache.toList.foldl (registerNamespace o) (tx, e)
  (done.1, { done.2 with namespace_registry_cache := ∅ })

/-! ## The merge into the committed state -/

/-- The staged objects become committed ones, with their index entries. Their leaves are inserted
one after the other, by growing path. -/
def mergeStaged (e : AppStateEnvelope) : AppStateEnvelope :=
  let staged := e.cado_cache.toList
  let e1 := { e with
    committed_cado_cache := finite_map.insertEach
      (fun (path : CadoPath) (cado : CadoBody CadoData) =>
        if path.is_infrastructure then none else some (path, cado))
      staged e.committed_cado_cache }
  let e2 := staged.foldl (fun e p => e.insert_epoch_records_index_from_path p.1) e1
  { e2 with
    state_trie := staged.foldl (fun t p =>
      if p.1.is_infrastructure then t else t.insert o p.1 p.2.content_hash) e2.state_trie }

/-! ## The tip and the snapshot -/

/-- Writes the tip under its hash and under `LATEST`. -/
def storeTip (tx : Storage) (tip : AppStateTip) : Except EldError Storage :=
  let cado := tip.to_cado o
  match tx.put_cado_type_with_tx o (.app_state_tip cado.hash_bytes) cado with
  | .error e => .error e
  | .ok tx1 => tx1.put_cado_type_with_tx o (.app_state_tip LATEST) cado

def storeSnapshot (tx : Storage) (s : AppState) : Except EldError Storage :=
  if s.envelope.block_height.val % pc.blocks_per_epoch.val = 0 then
    match AppStateSnapshot.new s with
    | .error e => .error e
    | .ok sn => tx.put_cado_type_with_tx o (AppStateSnapshot.latest_path o) (sn.to_cado o)
  else .ok tx

/-! ## Commit -/

/-- At the last block of an epoch the next validators are selected. -/
def selectForNextEpoch (e : AppStateEnvelope) : AppStateEnvelope :=
  if e.current_epoch.val < (e.block_height.val + 1).tdiv pc.blocks_per_epoch.val then
    select_validators_for_epoch pc e
  else e

/-- The state and the database after the staged writes, before the tip. -/
def writeStaged (db : Storage) (e : AppStateEnvelope) :
    Except EldError (Storage × AppStateEnvelope) :=
  match deletePending o db e.cado_cache_to_delete db with
  | .error err => .error err
  | .ok tx =>
    let e1 := dropDeleted o e
    let put := putStaged o tx e1.cado_cache
    let e2 := { e1 with cado_cache := put.2 }
    match missingBlobs db e2 with
    | p :: _ => .error (.StorageError "prevalidate_pinboard_temp_blob"
        ("Missing pinboard temp blob for message_id=" ++ String.ofList p.1 ++ " content_key="
          ++ String.ofList p.2.content_key))
    | [] =>
      let done := registerNamespaces o (flushProofs (flushPinboard put.1 e2) e2) (clearStaged e2)
      .ok (done.1, mergeStaged o done.2)

/-- `commit_inner`. A fatal error ends the process. -/
def commit_inner (c : ConsensusConnection) : Except EldError ConsensusConnection :=
  match c.current_state with
  | none => .error (.InitializationError "current state" "state is None in commit")
  | some s =>
    match s.app_hash.data with
    | none =>
      .error (.ValidationError "app_hash" "empty" "App hash cannot be empty during commit")
    | some app_hash =>
      match writeStaged o c.storage (selectForNextEpoch pc s.envelope) with
      | .error err => .error err
      | .ok (tx, e) =>
        match storeTip o tx ⟨e.block_height, e.state_trie.root_hash, app_hash⟩ with
        | .error err => .error err
        | .ok tx1 =>
          match storeSnapshot o pc tx1 { s with envelope := e } with
          | .error err => .error err
          | .ok tx2 => .ok { c with
              committed_state := { s with envelope := { e with cado_cache := ∅ } }
              storage := tx2 }

end eld_chain
