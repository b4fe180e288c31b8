-- A node as its peers know it: the blobs that uploads leave, the contents in
-- its slots, and the messages that it takes from the network and gives to it.
-- Whatever bytes arrive are read as a message or dropped.
import EldChain.ContentRetention
import EldChain.PinboardCommit
import EldChain.PostAuthorisation
import EldChain.SyncCoordinator

open Std

namespace eld_chain

open fallible

/-- What a node was started with: the constants of the protocol and the wallet of the provider. -/
structure PeerConfig where
  constants : ProtocolConstants
  max_pinboard_message_bytes : Nat
  /-- The public key of the wallet and its signature over a proof. -/
  sign : ChallengeProof → Option (Text × Text)

structure Peer where
  node : Node
  sync : SyncNode
  /-- The blobs that commits have handed to tasks that write them to the slots. -/
  blobs : List (Text × Bytes)
  /-- The messages that it has handed to the swarm, less the challenges of its own blocks. -/
  published : List SyncMsg

variable (o : Outside) (ed : Ed25519) (cfg : PeerConfig)

/-! ## Messages -/

/-- What the clock and the operating system answer while a message is handled. -/
structure Surroundings where
  now : Except String UInt64
  generated_at : UInt64
  os : List Answer
  saves : List Answer

/-- The second part of the result is the content of the response, if there is one. -/
def handle_content_request (pinboard_temp_blob : Option Bytes) (content_key : Text)
    (n : SyncNode) : SyncNode × Option Text :=
  match pinboard_temp_blob with
  | some content_bytes => (n, some (o.base64.encode content_bytes))
  | none =>
    match get_content_from_slots content_key n.manager with
    | .ok (some content_bytes) s => ({ n with manager := s }, some (o.base64.encode content_bytes))
    | .ok none s => ({ n with manager := s }, none)
    | .error _ s => ({ n with manager := s }, none)

def Peer.temp_blobs (p : Peer) : ExtTreeMap Text Bytes compare :=
  p.node.conn.storage.pinboard_temp_blobs

def Peer.publish (messages : List SyncMsg) (p : Peer) : Peer :=
  { p with published := p.published ++ messages }

/-- The slots, with these answers of the operating system ahead of them. -/
def Peer.answered (os : List Answer) (p : Peer) : SyncNode :=
  { p.sync with manager := p.sync.manager.answered os }

def Peer.handle_sync_message (around : Surroundings) (p : Peer) (msg : SyncMsg) : Peer :=
  let n := p.answered around.os
  match msg with
  | .Announce content_id =>
    let handled := handle_announce content_id (p.temp_blobs.contains content_id) around.now
      around.saves n
    { p with sync := handled.1 }.publish (handled.2.toList.map .ContentRequest)
  | .ContentRequest content_id =>
    let handled := handle_content_request o p.temp_blobs[content_id]? content_id n
    { p with sync := handled.1 }.publish (handled.2.toList.map (.ContentResponse content_id))
  | .ContentResponse content_id content =>
    { p with sync := handle_content_response o content_id content around.saves n }
  | .CapacityChallenge challenge _ _ _ =>
    p.publish ((handle_capacity_challenge o cfg.sign challenge around.generated_at
      n.manager).toList.map .CapacityChallengeResponse)
  | .ContentInventoryRequest _ => p.publish [.ContentInventoryResponse "[]".toList]
  -- the verdict on the response to a challenge goes to the chain
  | .CapacityChallengeResponse _ => p
  | .Heartbeat _ => p
  | .ContentSyncHeartbeat _ => p
  | .ContentSyncHeartbeatResponse _ _ => p
  | .ContentInventoryResponse _ => p

/-- Bytes that are no message are only logged. -/
def Peer.receive (around : Surroundings) (data : Bytes) (p : Peer) : Peer :=
  match o.bincode.deserialize .sync_msg data with
  | .error _ => p
  | .ok msg => p.handle_sync_message o cfg around msg

/-! ## Blobs -/

/-- `extend_pinboard_temp_blob_ttl`, and `put_pinboard_temp_blob` where there is no blob yet. The
times of expiry are left out: nothing reads them. -/
def Peer.keep_temp_blob (content_key : Text) (message_bytes : Bytes) (p : Peer) : Peer :=
  if p.temp_blobs.contains content_key then p
  else { p with node := ⟨p.node.phase, { p.node.conn with storage := { p.node.conn.storage with
    pinboard_temp_blobs := p.temp_blobs.insert content_key message_bytes } }⟩ }

/-- An upload, up to the blob. The checks of the namespace, the wallet and the clock can only
refuse it, and what follows makes the transaction. -/
def Peer.handle_pinboard_submit (message_b64 : Text) (user : PostMessageUserRequest)
    (os : List Answer) (p : Peer) : Peer :=
  match o.base64.decode message_b64 with
  | none => p
  | some message_bytes =>
    if message_bytes = [] ∨ cfg.max_pinboard_message_bytes < message_bytes.length then p
    else
      match validate_post_message_user_signature o ed message_bytes user with
      | .error _ => p
      | .ok () =>
        match get_content_from_slots user.content_key (p.answered os).manager with
        | .ok none s =>
          { p with sync := { p.sync with manager := s } }.keep_temp_blob user.content_key
            message_bytes
        | .ok (some _) s => { p with sync := { p.sync with manager := s } }
        | .error _ s => { p with sync := { p.sync with manager := s } }

/-- A commit hands the blobs of its block on and announces the messages that are in the cache. -/
def Peer.commit (p : Peer) : Option Peer :=
  if p.node.phase = .ended then
    match commitCalls o cfg.constants p.node.conn with
    | .error _ => none
    | .ok (conn, calls) =>
      some ({ p with
        node := ⟨.idle, conn⟩
        blobs := p.blobs ++ calls.blobs.toList }.publish
          ((find_pinboard_and_broadcast_announce calls.pinboard_meta_cache).map .Announce))
  else none

/-! ## Steps -/

/-- What happens to a peer. The tasks that mirror blobs and collect contents run at any time. -/
inductive PeerEvent
  | call (r : Request)
  | receive (data : Bytes) (around : Surroundings)
  | submit (message_b64 : Text) (user : PostMessageUserRequest) (os : List Answer)
  | pass (clock : MissingContentRecord → Except String UInt64)
      (missing : List MissingContentRecord) (os saves : List Answer)
  | mirror (content_key : Text) (bytes : Bytes) (os : List Answer)
  | collect (content_key : Text) (os : List Answer)

def Peer.step (p : Peer) : PeerEvent → Option Peer
  | .call r =>
    match r with
    | .Commit => p.commit o cfg
    -- blobs come through uploads
    | .UploadBlob _ _ => none
    | r => (p.node.step o cfg.constants r).map fun node => { p with node := node }
  | .receive data around => some (p.receive o cfg around data)
  | .submit message_b64 user os => some (p.handle_pinboard_submit o ed cfg message_b64 user os)
  | .pass clock missing os saves =>
    (p.sync.step o (.pass clock missing os saves)).map fun n =>
      { p with sync := n }.publish ((p.sync.pass clock missing os saves).requested.map
        .ContentRequest)
  | .mirror content_key bytes os =>
    if (content_key, bytes) ∈ p.blobs then
      some { p with sync := { p.sync with
        manager := mirrorContent o content_key bytes (p.answered os).manager } }
    else none
  | .collect content_key os =>
    some { p with sync := { p.sync with
      manager := after (delete_content_from_slots o content_key) (p.answered os).manager } }

/-- A peer at genesis, with the slots that it has allocated. -/
def Peer.start (genesis_config : GenesisConfig) (s : CapacityManager) : Peer :=
  ⟨genesis o cfg.constants genesis_config, ⟨s, ∅, ∅, none⟩, [], []⟩

end eld_chain
