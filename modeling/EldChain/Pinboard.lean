-- The tables of the pinboard: the metadata of messages under their ids and
-- under their namespace paths, the indexes over them and the reference
-- counts of their contents, and what a commit writes there.
import EldChain.CommitProgress

open Std

namespace eld_chain

variable (o : Outside) (pc : ProtocolConstants)

/-! ## The tables -/

/-- The column families of the pinboard, but for the temporary blobs. The metadata of a message
stands there under its id and under its namespace path. -/
structure PinboardTables where
  metadata : ExtTreeMap Text PinboardMessageMetadata compare
  idx_wallet : ExtTreeSet Text compare
  idx_tag : ExtTreeSet Text compare
  idx_expiry : ExtTreeSet Text compare
  idx_commit : ExtTreeSet Text compare
  refcounts : ExtTreeMap Text UInt64 compare

def PinboardTables.empty : PinboardTables := ⟨∅, ∅, ∅, ∅, ∅, ∅⟩

/-- Secondary key for content in a custom namespace. -/
def pinboard_namespace_content_path (namespace_ message_id : Text) : Text :=
  "/@".toList ++ namespace_ ++ '/' :: message_id

def u64_hex_fixed (v : UInt64) : Text := hexDigits 16 v.toNat

/-- Wallets and tags lead the keys of their index. -/
def pinboard_wallet_index_key (wallet : Text) (committed_height : UInt64) (message_id : Text) :
    Text := wallet ++ ':' :: u64_hex_fixed committed_height ++ ':' :: message_id

def pinboard_tag_index_key (tag : Text) (committed_height : UInt64) (message_id : Text) : Text :=
  tag ++ ':' :: u64_hex_fixed committed_height ++ ':' :: message_id

def pinboard_expiry_index_key (expires_height : UInt64) (message_id : Text) : Text :=
  u64_hex_fixed expires_height ++ ':' :: message_id

def pinboard_commit_index_key (committed_height : UInt64) (message_id : Text) : Text :=
  u64_hex_fixed committed_height ++ ':' :: message_id

/-! ## Writes -/

def PinboardTables.put_pinboard_metadata_with_tx (t : PinboardTables) (message_id : Text)
    (metadata : PinboardMessageMetadata) : PinboardTables :=
  let rows := t.metadata.insert message_id metadata
  { t with metadata := match metadata.namespace_ with
      | none => rows
      | some namespace_ =>
        rows.insert (pinboard_namespace_content_path namespace_ message_id) metadata }

def PinboardTables.put_pinboard_wallet_index_with_tx (t : PinboardTables) (wallet : Text)
    (committed_height : UInt64) (message_id : Text) : PinboardTables :=
  { t with
    idx_wallet := t.idx_wallet.insert
      (pinboard_wallet_index_key wallet committed_height message_id) }

def PinboardTables.put_pinboard_tag_index_with_tx (t : PinboardTables) (tag : Text)
    (committed_height : UInt64) (message_id : Text) : PinboardTables :=
  { t with idx_tag := t.idx_tag.insert (pinboard_tag_index_key tag committed_height message_id) }

def PinboardTables.put_pinboard_expiry_index_with_tx (t : PinboardTables) (expires_height : UInt64)
    (message_id : Text) : PinboardTables :=
  { t with
    idx_expiry := t.idx_expiry.insert (pinboard_expiry_index_key expires_height message_id) }

def PinboardTables.put_pinboard_commit_index_with_tx (t : PinboardTables)
    (committed_height : UInt64) (message_id : Text) : PinboardTables :=
  { t with
    idx_commit := t.idx_commit.insert (pinboard_commit_index_key committed_height message_id) }

/-- The staged metadata, in the order of the ids. -/
def PinboardTables.putMetadata (t : PinboardTables) (e : AppStateEnvelope) : PinboardTables :=
  e.pinboard_meta_cache.toList.foldl (fun t p => t.put_pinboard_metadata_with_tx p.1 p.2) t

def PinboardTables.putIndexes (t : PinboardTables) (e : AppStateEnvelope) : PinboardTables :=
  let t1 := e.pinboard_idx_wallet_add.foldl
    (fun t p => t.put_pinboard_wallet_index_with_tx p.1 p.2.1 p.2.2) t
  let t2 := e.pinboard_idx_tag_add.foldl
    (fun t p => t.put_pinboard_tag_index_with_tx p.1 p.2.1 p.2.2) t1
  let t3 := e.pinboard_idx_expiry_add.foldl
    (fun t p => t.put_pinboard_expiry_index_with_tx p.1 p.2) t2
  e.pinboard_idx_commit_add.foldl (fun t p => t.put_pinboard_commit_index_with_tx p.1 p.2) t3

/-- The staged writes of a block. A reference count that cannot be written ends the process. -/
def PinboardTables.commit (t : PinboardTables) (e : AppStateEnvelope) :
    Except EldError PinboardTables :=
  match updateRefcounts e.pinboard_refcount_deltas.toList t.refcounts with
  | .error err => .error err
  | .ok refcounts => .ok { (t.putMetadata e).putIndexes e with refcounts := refcounts }

/-! ## Runs -/

/-- A node with its pinboard. `posted` are the messages that the open block has accepted, in
their order. -/
structure PinboardNode where
  node : Node
  tables : PinboardTables
  posted : List PinboardMessageMetadata

/-- A commit of the node is one of its tables too. -/
def PinboardNode.step (n : PinboardNode) (r : Request) : Option PinboardNode :=
  match n.node.step o pc r with
  | none => none
  | some node =>
    match r with
    | .Commit =>
      match n.tables.commit n.node.state.envelope with
      | .error _ => none
      | .ok tables => some ⟨node, tables, []⟩
    | _ => some ⟨node, n.tables, n.posted ++ (n.node.accepted o pc r).toList⟩

def PinboardNode.genesis (cfg : GenesisConfig) : PinboardNode :=
  ⟨eld_chain.genesis o pc cfg, .empty, []⟩

end eld_chain
