-- A peer with its pinboard: the tables that its commits fill, the slots that
-- hold the blobs, and the collector that reads the one and empties the
-- other while everything else goes on. A reader of the feed is shown what
-- the blocks have accepted, and a stored post stays available to him until
-- a tick of the collector finds its content expired.
import EldChain.ContentExchange
import EldChain.PinboardFeeds
import EldChain.PostRoundTrip

open Std fallible

namespace eld_chain

variable (o : Outside) (ed : Ed25519) (cfg : PeerConfig)

/-- `posted` are the messages that the open block has accepted, `blocks` those of each committed
block, and `condemned` the contents that ticks of the collector have yet to delete. -/
structure PinboardPeer where
  peer : Peer
  tables : PinboardTables
  posted : List PinboardMessageMetadata
  blocks : List (List PinboardMessageMetadata)
  condemned : List Text

/-- A tick of the collector reads the tables at once. Its deletions follow at any time. -/
inductive PinboardPeerEvent
  | on (e : PeerEvent)
  | tick (is_allowed : Nat → Bool)

def PinboardPeer.current_height (p : PinboardPeer) : UInt64 :=
  current_committed_height p.peer.node.conn.committed_state

def PinboardPeer.slots (p : PinboardPeer) : CapacityManager := p.peer.sync.manager

/-- What an event that leads to this peer changes besides. -/
def PinboardPeer.follow (p : PinboardPeer) (peer : Peer) : PeerEvent → Option PinboardPeer
  | .call .Commit =>
    match p.tables.commit p.peer.node.state.envelope with
    | .error _ => none
    | .ok tables => some ⟨peer, tables, [], p.blocks ++ [p.posted], p.condemned⟩
  | .call r => some { p with
      peer := peer
      posted := p.posted ++ (p.peer.node.accepted o cfg.constants r).toList }
  | .collect content_key _ =>
    if p.condemned.any (fun key => decide (key = content_key)) then
      some { p with peer := peer, condemned := p.condemned.erase content_key }
    else none
  | _ => some { p with peer := peer }

def PinboardPeer.step (p : PinboardPeer) : PinboardPeerEvent → Option PinboardPeer
  | .on e => (p.peer.step o ed cfg e).bind (fun peer => p.follow o cfg peer e)
  | .tick is_allowed => some { p with
      condemned := p.condemned ++
        p.tables.gc_calls p.current_height is_allowed (fun _ => .ok ()) }

def PinboardPeer.start (genesis_config : GenesisConfig) (s : CapacityManager) : PinboardPeer :=
  ⟨Peer.start o cfg genesis_config s, .empty, [], [], []⟩

variable {o : Outside} {ed : Ed25519} {cfg : PeerConfig} {p p' : PinboardPeer}

/-! ## The peer and its pinboard -/

def PinboardPeerEvent.peer : PinboardPeerEvent → Option PeerEvent
  | .on e => some e
  | .tick _ => none

theorem follow_peer {peer : Peer} {e : PeerEvent} (h : p.follow o cfg peer e = some p') :
    p'.peer = peer := by
  unfold PinboardPeer.follow at h
  split at h
  · split at h
    · cases h
    · cases h
      rfl
  · cases h
    rfl
  · split at h
    · cases h
      rfl
    · cases h
  · cases h
    rfl

/-- The peer in a run takes the steps of a run of its own. -/
theorem run_peer {events : List PinboardPeerEvent}
    (hrun : runs.run (PinboardPeer.step o ed cfg) events p = some p') :
    runs.run (Peer.step o ed cfg) (events.filterMap PinboardPeerEvent.peer) p.peer =
      some p'.peer := by
  induction events generalizing p with
  | nil =>
    cases hrun
    rfl
  | cons e events ih =>
    obtain ⟨q, hstep, hrest⟩ := Option.bind_eq_some_iff.mp hrun
    have hpeer := ih hrest
    cases e with
    | on e =>
      obtain ⟨peer, hon, hfollow⟩ := Option.bind_eq_some_iff.mp hstep
      rw [follow_peer hfollow] at hpeer
      rw [List.filterMap_cons]
      change (p.peer.step o ed cfg e).bind _ = _
      rw [hon]
      exact hpeer
    | tick is_allowed =>
      cases hstep
      exact hpeer

/-- A run in which no deletion is stopped part-way leaves a truthful peer truthful. -/
theorem truthful_of_run {events : List PinboardPeerEvent}
    (hbase64 : o.base64.ReadsBack) (h : p.peer.Truthful o (fun _ => False))
    (hrun : runs.run (PinboardPeer.step o ed cfg) events p = some p')
    (hwhole : ∀ key os, .on (.collect key os) ∈ events → Quiet os) :
    p'.peer.Truthful o (fun _ => False) := by
  refine (h.run hbase64 (run_peer hrun)).mono ?_
  rintro key (hfalse | ⟨e, hmem, htears⟩)
  · exact hfalse
  · obtain ⟨e', he', hpeer⟩ := List.mem_filterMap.mp hmem
    cases e' with
    | tick => cases hpeer
    | on e' =>
      cases hpeer
      cases e with
      | collect content_key os =>
        obtain ⟨rfl, hfailed⟩ := htears
        exact hfailed (hwhole key os he')
      | call | receive | submit | pass | mirror => exact htears

/-- The tables and the staged messages are what the blocks say. -/
structure PinboardPeer.Holds (o : Outside) (pc : ProtocolConstants) (p : PinboardPeer) :
    Prop where
  good : NodeGood o p.peer.node
  staged : p.peer.node.state.envelope.staged_posts = StagedPosts.empty.addAll p.posted
  posts : ∀ m ∈ p.posted, m.IsPost pc
  history : PinboardTables.after p.blocks .empty = .ok p.tables
  committed_posts : ∀ m ∈ p.blocks.flatten, m.IsPost pc

theorem commit_node {q q' : Peer} (h : q.commit o cfg = some q') :
    q.node.step o cfg.constants .Commit = some q'.node := by
  unfold Peer.commit at h
  split at h
  · rename_i hphase
    cases hcalls : commitCalls o cfg.constants q.node.conn with
    | error e =>
      rw [hcalls] at h
      cases h
    | ok done =>
      obtain ⟨conn, calls⟩ := done
      rw [hcalls] at h
      cases h
      have hinner : commit_inner o cfg.constants q.node.conn = .ok conn := by
        rw [← commitCalls_fst, hcalls]
        rfl
      unfold Node.step
      simp only [if_pos hphase, hinner]
      rfl
  · cases h

theorem receive_node (q : Peer) (around : Surroundings) (data : Bytes) :
    (q.receive o cfg around data).node = q.node := by
  unfold Peer.receive
  cases o.bincode.deserialize .sync_msg data with
  | error e => rfl
  | ok msg => cases msg <;> rfl

theorem submit_state (q : Peer) (message_b64 : Text) (user : PostMessageUserRequest)
    (os : List Answer) :
    (q.handle_pinboard_submit o ed cfg message_b64 user os).node.state = q.node.state := by
  have hkeep : ∀ (q : Peer) content_key bytes,
      (q.keep_temp_blob content_key bytes).node.state = q.node.state := by
    intro q content_key bytes
    unfold Peer.keep_temp_blob
    split
    · rfl
    · rfl
  unfold Peer.handle_pinboard_submit
  split
  · rfl
  · split
    · rfl
    · split
      · rfl
      · split
        · rw [hkeep]
        · rfl
        · rfl

/-- Only calls change the state of the chain. -/
theorem step_state {q q' : Peer} {e : PeerEvent} (h : q.step o ed cfg e = some q')
    (hcall : ∀ r, e ≠ .call r) : q'.node.state = q.node.state := by
  cases e with
  | call r => exact absurd rfl (hcall r)
  | receive data around =>
    cases h
    rw [receive_node]
  | submit message_b64 user os =>
    cases h
    exact submit_state q message_b64 user os
  | pass clock missing os saves =>
    obtain ⟨n, _, rfl⟩ := Option.map_eq_some_iff.mp h
    rfl
  | mirror content_key bytes os =>
    unfold Peer.step at h
    simp only [Option.ite_none_right_eq_some, Option.some.injEq] at h
    obtain ⟨_, rfl⟩ := h
    rfl
  | collect content_key os =>
    cases h
    rfl

theorem PinboardPeer.Holds.commit {peer : Peer} (h : p.Holds o cfg.constants)
    (hgood : NodeGood o peer.node) (hstep : p.peer.step o ed cfg (.call .Commit) = some peer)
    (hfollow : p.follow o cfg peer (.call .Commit) = some p') : p'.Holds o cfg.constants := by
  have hnode := commit_node hstep
  unfold PinboardPeer.follow at hfollow
  simp only at hfollow
  cases hcommit : p.tables.commit p.peer.node.state.envelope with
  | error e =>
    rw [hcommit] at hfollow
    cases hfollow
  | ok tables =>
    rw [hcommit] at hfollow
    cases hfollow
    have hone : PinboardNode.step o cfg.constants ⟨p.peer.node, p.tables, p.posted⟩ .Commit =
        some ⟨peer.node, tables, []⟩ := by
      unfold PinboardNode.step
      simp only [hnode, hcommit]
    refine ⟨hgood, PinboardNode.step.staged h.good h.staged hone, by simp, ?_, ?_⟩
    · rw [after_snoc h.history,
        ← commit_congr p.tables (h.staged.trans (staging_posts p.posted).symm), hcommit]
    · intro m hm
      rw [List.flatten_append, List.flatten_singleton, List.mem_append] at hm
      rcases hm with hm | hm
      · exact h.committed_posts m hm
      · exact h.posts m hm

theorem PinboardPeer.Holds.call {peer : Peer} {r : Request} (h : p.Holds o cfg.constants)
    (hgood : NodeGood o peer.node) (hnode : p.peer.node.step o cfg.constants r = some peer.node)
    (hcommit : r ≠ .Commit) :
    PinboardPeer.Holds o cfg.constants { p with
      peer := peer
      posted := p.posted ++ (p.peer.node.accepted o cfg.constants r).toList } := by
  have hone : PinboardNode.step o cfg.constants ⟨p.peer.node, p.tables, p.posted⟩ r =
      some ⟨peer.node, p.tables,
        p.posted ++ (p.peer.node.accepted o cfg.constants r).toList⟩ := by
    unfold PinboardNode.step
    cases r with
    | Commit => exact absurd rfl hcommit
    | UploadBlob | BeginBlock | DeliverTx | EndBlock => simp only [hnode]
  refine ⟨hgood, PinboardNode.step.staged h.good h.staged hone, ?_, h.history, h.committed_posts⟩
  intro m hm
  rcases List.mem_append.mp hm with hm | hm
  · exact h.posts m hm
  · exact isPost_of_accepted (Option.mem_toList.mp hm)

theorem PinboardPeer.Holds.step {e : PinboardPeerEvent} (h : p.Holds o cfg.constants)
    (hgood : NodeGood o p'.peer.node) (hstep : p.step o ed cfg e = some p') :
    p'.Holds o cfg.constants := by
  cases e with
  | tick is_allowed =>
    cases hstep
    exact ⟨h.good, h.staged, h.posts, h.history, h.committed_posts⟩
  | on e =>
    obtain ⟨peer, hon, hfollow⟩ := Option.bind_eq_some_iff.mp hstep
    have hsame : ∀ condemned, (∀ r, e ≠ .call r) → NodeGood o peer.node →
        PinboardPeer.Holds o cfg.constants
          { p with peer := peer, condemned := condemned } := by
      intro condemned hcall hgood
      refine ⟨hgood, ?_, h.posts, h.history, h.committed_posts⟩
      rw [step_state hon hcall]
      exact h.staged
    rw [follow_peer hfollow] at hgood
    cases e with
    | call r =>
      cases r with
      | Commit => exact h.commit hgood hon hfollow
      | UploadBlob content_key blob => cases hon
      | BeginBlock | DeliverTx | EndBlock =>
        obtain ⟨node, hnode, rfl⟩ := Option.map_eq_some_iff.mp hon
        cases hfollow
        exact h.call hgood hnode (by simp)
    | collect content_key os =>
      unfold PinboardPeer.follow at hfollow
      simp only [Option.ite_none_right_eq_some, Option.some.injEq] at hfollow
      obtain ⟨_, rfl⟩ := hfollow
      exact hsame _ (by simp) hgood
    | receive | submit | pass | mirror =>
      cases hfollow
      exact hsame _ (by simp) hgood

theorem start_holds (genesis_config : GenesisConfig) (s : CapacityManager) :
    (PinboardPeer.start o cfg genesis_config s).Holds o cfg.constants := by
  have hgenesis := PinboardNode.genesis_good o cfg.constants genesis_config
  refine ⟨hgenesis.good, hgenesis.staged, ?_, rfl, ?_⟩
  · intro m hm
    cases hm
  · intro m hm
    cases hm

theorem holds_of_run {genesis_config : GenesisConfig} {s : CapacityManager}
    {events : List PinboardPeerEvent} {Torn : Text → Prop} (hbase64 : o.base64.ReadsBack)
    (h : (Peer.start o cfg genesis_config s).Truthful o Torn)
    (hrun : runs.run (PinboardPeer.step o ed cfg) events
      (PinboardPeer.start o cfg genesis_config s) = some p) : p.Holds o cfg.constants := by
  refine runs.run_induction (PinboardPeer.step o ed cfg)
    (fun _ p => p.Holds o cfg.constants) (start_holds genesis_config s) ?_ hrun
  intro earlier q e q' hearlier hq hstep
  have hlonger : runs.run (PinboardPeer.step o ed cfg) (earlier ++ [e])
      (PinboardPeer.start o cfg genesis_config s) = some q' := by
    rw [runs.run_snoc, hearlier]
    exact hstep
  exact hq.step (h.run hbase64 (run_peer hlonger)).good hstep

theorem PinboardPeer.Holds.messages {pc : ProtocolConstants} (h : p.Holds o pc) :
    HoldsHistory p.blocks.flatten p.tables :=
  PinboardHistory.holds ⟨p.blocks, p.tables, h.history⟩

/-! ## A peer with one post -/

theorem openChain_base64 : Outside.openChain.base64.ReadsBack := base64.decode_encode

def threeKey : Text := hexKey (Outside.openChain.sha256 [1, 2, 3])

def threeInput : PostMessageUserRequestInput where
  expires_height := 10
  visibility := "public".toList
  topic := none
  tags := []
  content_type := "text/plain".toList
  fee_amount := 0
  namespace_ := none
  fee_amount_lt := zero_lt_u128

/-- A request for the three bytes, signed for `Ed25519.toy`. -/
def threeRequest : PostMessageUserRequest :=
  let req := threeInput.request .openChain toyKey.verifying_key [1, 2, 3] [] none
  { req with
    message_id := post_message_id_from_signing_bytes .openChain
      (post_message_user_signing_bytes_with_tags [1, 2, 3] req [])
    user_signature := hexDigits 128 7 }

theorem noNamespace_resolved : resolve_optional_namespace none = .ok none := rfl

def threePost : PostMessageTx where
  sender := alice
  original_signer := alice
  original_signer_pubkey := hexDigits 64 1
  content_key := threeKey
  message_id := "m".toList
  expires_height := 10
  visibility := "public".toList
  topic := none
  tags := []
  content_type := "text/plain".toList
  fee_amount := 0
  received_timestamp := 0
  user_signature := "00".toList
  namespace_ := none
  fee_amount_lt := zero_lt_u128
  content_type_allowed := plainText_allowed
  tags_canonical := noTags_canonical
  namespace_resolved := noNamespace_resolved

def postedEvents : List PinboardPeerEvent :=
  .on (.submit (Outside.openChain.base64.encode [1, 2, 3]) threeRequest []) ::
    [Request.BeginBlock, .DeliverTx (.ok (signed 1 1 "PostMessage" (.PostMessage threePost))),
      .EndBlock (smallHeight 1), .Commit].map (fun r => .on (.call r)) ++
    [.on (.mirror (threeKey) [1, 2, 3] [])]

def startedPeer : Option PinboardPeer :=
  (resultOf (allocate_capacity_internal .openChain .sevens 2048 3) .fresh).map (fun r =>
    PinboardPeer.start .openChain .small smallConfig r.2)

theorem postedEvents_run : (startedPeer.bind
    (runs.run (PinboardPeer.step .openChain Ed25519.toy .small) postedEvents)).any (fun p =>
      p.blocks.flatten.any (fun m => p.blocks.flatten.all (fun m' => decide
        (p.tables.metadata[m'.message_id]? = some m')) &&
        decide (m.content_key ∈ p.slots.slot_allocator.content_slot_map) &&
        decide (p.current_height < m.expires_height) && decide (m.namespace_ = none) &&
        decide (m.message_id ≠ [] ∧ '/' ∉ m.message_id)) &&
      p.tables.metadata.toList.all (fun q => decide (p.current_height < q.2.expires_height)) &&
      decide (p.tables.idx_commit.toList.length ≤ 1000) &&
      decide (keyBytes p.tables.idx_commit.toList ≤ 50 * 1024 * 1024) &&
      p.condemned.isEmpty) = true := by decide +kernel

/-- What the run leaves: one readable post, with its content in the slots. -/
structure PinboardPeer.Posted (p : PinboardPeer) (m : PinboardMessageMetadata) : Prop where
  posted : m ∈ p.blocks.flatten
  listable : p.tables.Listable p.blocks.flatten
  listed : m.content_key ∈ p.slots.slot_allocator.content_slot_map
  free : m.content_key ∉ p.condemned
  live : ∀ (k : Text) m', p.tables.metadata[k]? = some m' → p.current_height < m'.expires_height
  addressable : m.Addressable
  own_path : m.path_key = m.message_id

theorem exists_posted : ∃ root s₁ p m,
    allocate_capacity_internal .openChain .sevens 2048 3 .fresh = .ok root s₁ ∧
    runs.run (PinboardPeer.step .openChain Ed25519.toy .small) postedEvents
      (PinboardPeer.start .openChain .small smallConfig s₁) = some p ∧ p.Posted m := by
  obtain ⟨p, hp, hchecks⟩ := (Option.any_eq_true _ _).mp postedEvents_run
  obtain ⟨q, hq, hrun⟩ := Option.bind_eq_some_iff.mp hp
  obtain ⟨⟨root, s₁⟩, halloc, rfl⟩ := Option.map_eq_some_iff.mp hq
  simp only [Bool.and_eq_true, List.any_eq_true, List.all_eq_true, decide_eq_true_eq,
    List.isEmpty_iff] at hchecks
  obtain ⟨⟨⟨⟨⟨m, hm, ⟨⟨⟨hrows, hlisted⟩, _⟩, hnone⟩, hid⟩, hlive⟩, hcount⟩, hmemory⟩, hfree⟩ :=
    hchecks
  refine ⟨root, s₁, p, m, eq_ok_of_resultOf halloc, hrun, hm, ⟨hrows, hcount, hmemory⟩, hlisted,
    ?_, ?_, ?_, ?_⟩
  · rw [hfree]
    exact List.not_mem_nil
  · intro k m' hrow
    exact hlive (k, m') ((finite_map.mem_toList _ _).mpr hrow)
  · unfold PinboardMessageMetadata.Addressable
    rw [hnone]
    exact hid
  · unfold PinboardMessageMetadata.path_key
    rw [hnone]

/-! ## The feed -/

/-- In every run the pages of the feed show each committed post once, with its own row, its blob
and in the order of the chain, exactly when no row was replaced and the index is within the limits
of a query. Without the expired posts they show the others alike. -/
theorem the_feed_shows_each_post_iff (hbase64 : o.base64.ReadsBack) {x : ChunkSource}
    {s₀ s₁ : CapacityManager} {capacity : Nat} {seed root : Bytes32}
    (halloc : allocate_capacity_internal o x capacity seed s₀ = .ok root s₁)
    (hempty : s₀.slot_allocator.content_slot_map = ∅) {genesis_config : GenesisConfig}
    {events : List PinboardPeerEvent}
    (hrun : runs.run (PinboardPeer.step o ed cfg) events
      (PinboardPeer.start o cfg genesis_config s₁) = some p)
    (hwhole : ∀ key os, .on (.collect key os) ∈ events → Quiet os)
    (order : PinboardGlobalFeedOrder) {page_size : Nat} (hpos : 0 < page_size)
    (hsize : page_size ≤ 100) {os : Nat → List Answer} (hquiet : ∀ page, Quiet (os page))
    {fuel : Nat} (hfuel : 1001 < fuel) :
    ((∃ posts items, FeedOf p.blocks.flatten order posts ∧
        p.tables.request_posts o p.current_height (.feed order page_size true) p.slots os fuel =
          some (.ok items) ∧
        List.Forall₂ (PinboardRestPostItem.Shows o p.slots p.current_height) posts items) ↔
      p.tables.Listable p.blocks.flatten) ∧
    p.tables.request_posts o p.current_height (.feed order page_size false) p.slots os fuel =
      (p.tables.request_posts o p.current_height (.feed order page_size true) p.slots os fuel).map
        (fun r => r.map (fun items =>
          items.filter (fun item => decide (p.current_height < item.metadata.expires_height)))) := by
  have hstart := @start_truthful o cfg _ _ _ _ _ _ halloc hempty genesis_config
  have hholds := (holds_of_run hbase64 hstart hrun).messages
  obtain ⟨blobs, hgives, hblobs⟩ := exists_gives (truthful_of_run hbase64 hstart hrun hwhole).slots
  have hfeed := fun include_expired => @request_feed_eq o p.slots p.tables p.current_height order
    page_size blobs hgives hpos hsize include_expired os hquiet fuel hfuel
  refine ⟨?_, ?_⟩
  · rw [hfeed true, shown_feed, ← feedOf_iff hholds order]
    constructor
    · rintro ⟨posts, items, hposts, hitems, hshows⟩
      obtain rfl := Except.ok.inj (Option.some.inj hitems)
      rw [List.forall₂_map_right_iff] at hshows
      have hsame : posts = p.tables.feed_rows order :=
        List.forall₂_eq_eq_eq ▸ hshows.imp (fun _ _ h => h.metadata.symm)
      rw [← hsame]
      exact hposts
    · intro hposts
      refine ⟨_, _, hposts, rfl, ?_⟩
      rw [List.forall₂_map_right_iff, List.forall₂_same]
      exact fun m _ => restPostItem_shows hblobs m
  · rw [hfeed true, hfeed false, filter_shown]
    rfl

theorem the_feed_shows_each_post_on_postedEvents : ∃ p : PinboardPeer, p.blocks.flatten ≠ [] ∧
    ∃ posts items, FeedOf p.blocks.flatten .Desc posts ∧
      p.tables.request_posts .openChain p.current_height (.feed .Desc 10 true) p.slots (fun _ => []) 1002 =
        some (.ok items) ∧
      List.Forall₂ (PinboardRestPostItem.Shows .openChain p.slots p.current_height) posts items := by
  obtain ⟨root, s₁, p, m, halloc, hrun, hposted⟩ := exists_posted
  have hwhole : ∀ key os, .on (.collect key os) ∈ postedEvents → Quiet os := by
    intro key os hmem
    simp [postedEvents] at hmem
  refine ⟨p, List.ne_nil_of_mem hposted.posted, ?_⟩
  exact (the_feed_shows_each_post_iff openChain_base64 halloc rfl hrun hwhole .Desc (by decide)
    (by decide) (fun _ a ha => by cases ha) (by decide)).1.mpr hposted.listable

/-! ## A stored post -/

theorem condemned_of_calls {t : PinboardTables} {current_height : UInt64}
    {is_allowed : Nat → Bool} {delete_content_from_slots : Text → Except EldError Unit}
    {content_key : Text}
    (h : content_key ∈ t.gc_calls current_height is_allowed delete_content_from_slots) :
    t.Condemned current_height content_key := by
  by_cases hrefused : ∃ page, t.PageNeeded page ∧ is_allowed page = false
  · obtain ⟨page, hneeded, hno⟩ := hrefused
    rw [gc_calls_refused hneeded hno] at h
    cases h
  · have hallowed : ∀ page, t.PageNeeded page → is_allowed page = true := by
      intro page hneeded
      by_contra hno
      exact hrefused ⟨page, hneeded, by simpa using hno⟩
    rw [gc_calls_allowed hallowed] at h
    exact (condemned_iff t content_key).mp h

/-- A content is not condemned while no row of it has expired. -/
theorem not_condemned_of_live {t : PinboardTables} {current_height : UInt64} {content_key : Text}
    (h : ∀ (k : Text) m, t.metadata[k]? = some m → m.content_key = content_key →
      current_height < m.expires_height) : ¬ t.Condemned current_height content_key := by
  rintro ⟨_, ⟨⟨m, ⟨key, _, hrow⟩, hcontent, rfl⟩, _⟩, hexpired, _⟩
  exact UInt64.not_le.mpr (h _ m hrow hcontent) hexpired

/-- The content stands in the slots, and no tick has condemned it. -/
def PinboardPeer.Keeps (p : PinboardPeer) (content_key : Text) : Prop :=
  (∃ placed, Standing p.slots content_key placed) ∧ content_key ∉ p.condemned

/-- A content that a peer keeps is not deleted, and only a tick that condemns it ends this. -/
theorem PinboardPeer.Keeps.step {e : PinboardPeerEvent} {content_key : Text}
    (h : p.Keeps content_key) (hstep : p.step o ed cfg e = some p')
    (hspared : ∀ is_allowed, e = .tick is_allowed →
      ¬ p.tables.Condemned p.current_height content_key) : p'.Keeps content_key := by
  obtain ⟨⟨placed, hstanding⟩, hfree⟩ := h
  cases e with
  | tick is_allowed =>
    cases hstep
    refine ⟨⟨placed, hstanding⟩, ?_⟩
    intro hmem
    rcases List.mem_append.mp hmem with hold | hnew
    · exact hfree hold
    · exact hspared is_allowed rfl (condemned_of_calls hnew)
  | on e =>
    obtain ⟨peer, hon, hfollow⟩ := Option.bind_eq_some_iff.mp hstep
    have hother : ∀ os, e ≠ .collect content_key os := by
      rintro os rfl
      unfold PinboardPeer.follow at hfollow
      simp only [Option.ite_none_right_eq_some, List.any_eq_true, decide_eq_true_eq] at hfollow
      obtain ⟨⟨key, hmem, rfl⟩, _⟩ := hfollow
      exact hfree hmem
    refine ⟨⟨placed, ?_⟩, ?_⟩
    · unfold PinboardPeer.slots
      rw [follow_peer hfollow]
      exact Peer.step_spares hon hother placed hstanding
    · unfold PinboardPeer.follow at hfollow
      split at hfollow
      · split at hfollow
        · cases hfollow
        · cases hfollow
          exact hfree
      · cases hfollow
        exact hfree
      · split at hfollow
        · cases hfollow
          exact fun hmem => hfree (List.mem_of_mem_erase hmem)
        · cases hfollow
      · cases hfollow
        exact hfree

theorem PinboardPeer.Keeps.run {events : List PinboardPeerEvent} {content_key : Text}
    (h : p.Keeps content_key)
    (hrun : runs.run (PinboardPeer.step o ed cfg) events p = some p')
    (hspared : ∀ v ∈ runs.visits (PinboardPeer.step o ed cfg) events p, ∀ is_allowed,
      v.2 = .tick is_allowed → ¬ v.1.tables.Condemned v.1.current_height content_key) :
    p'.Keeps content_key := by
  induction events generalizing p with
  | nil =>
    cases hrun
    exact h
  | cons e events ih =>
    obtain ⟨q, hstep, hrest⟩ := Option.bind_eq_some_iff.mp hrun
    rw [runs.visits, hstep] at hspared
    exact ih (h.step hstep (hspared (p, e) List.mem_cons_self)) hrest
      (fun v hv => hspared v (List.mem_cons_of_mem _ hv))

/-- The answer for a row, while the operating system does not fail. -/
theorem answerPost_eq {s : CapacityManager} {current_height : UInt64}
    (h : Genuine o (fun _ => False) s) (m : PinboardMessageMetadata) {as : List Answer}
    (hquiet : Quiet as) : ∃ item v, answerPost o m current_height (s.answered as) = .ok item v ∧
      item.Shows o s current_height m := by
  obtain ⟨blobs, hgives, hblobs⟩ := exists_gives h
  have hends := @answerPost_ends o s current_height blobs hgives m as hquiet
  cases hanswer : answerPost o m current_height (s.answered as) with
  | ok item v =>
    obtain ⟨rfl, _⟩ := hends.of_ok hanswer
    exact ⟨_, v, rfl, restPostItem_shows hblobs m⟩
  | error e v => exact (hends.of_error hanswer).elim

/-- A post whose content is in the slots stays available over its own path until a tick finds its
content expired, or it expires itself: whatever else happens meanwhile, a reader is given the post
and the bytes that its key names, exactly when its path can be read back and its row stands. -/
theorem a_stored_post_stays_available_iff (hbase64 : o.base64.ReadsBack) {x : ChunkSource}
    {s₀ s₁ : CapacityManager} {capacity : Nat} {seed root : Bytes32}
    (halloc : allocate_capacity_internal o x capacity seed s₀ = .ok root s₁)
    (hempty : s₀.slot_allocator.content_slot_map = ∅) {genesis_config : GenesisConfig}
    {events more : List PinboardPeerEvent}
    (hrun : runs.run (PinboardPeer.step o ed cfg) events
      (PinboardPeer.start o cfg genesis_config s₁) = some p)
    (hmore : runs.run (PinboardPeer.step o ed cfg) more p = some p')
    (hwhole : ∀ key os, .on (.collect key os) ∈ events ++ more → Quiet os)
    {m : PinboardMessageMetadata}
    (hlisted : m.content_key ∈ p.slots.slot_allocator.content_slot_map)
    (hfree : m.content_key ∉ p.condemned)
    (hspared : ∀ v ∈ runs.visits (PinboardPeer.step o ed cfg) more p, ∀ is_allowed,
      v.2 = .tick is_allowed → ¬ v.1.tables.Condemned v.1.current_height m.content_key)
    (hlive : p'.current_height < m.expires_height) {as : List Answer} (hquiet : Quiet as) :
    (∃ item v, p'.tables.get_pinboard_post_item o p'.current_height (pinboard_response_cado_path m)
        (p'.slots.answered as) = .ok item v ∧ item.metadata = m ∧
      ∃ bytes, m.content_key = hexKey (o.sha256 bytes) ∧
        item.message_b64 = some (o.base64.encode bytes) ∧ item.blob_status = "available") ↔
      m.Addressable ∧ p'.tables.metadata[m.path_key]? = some m := by
  have hstart := @start_truthful o cfg _ _ _ _ _ _ halloc hempty genesis_config
  have hthere := truthful_of_run hbase64 hstart hrun
    (fun key os hmem => hwhole key os (List.mem_append_left _ hmem))
  have hlater := truthful_of_run hbase64 hthere hmore
    (fun key os hmem => hwhole key os (List.mem_append_right _ hmem))
  obtain ⟨placed, _, hstanding⟩ := hthere.slots.contents m.content_key hlisted not_false
  have hkeeps : p.Keeps m.content_key := ⟨⟨placed, hstanding⟩, hfree⟩
  obtain ⟨⟨_, hkept⟩, _⟩ := hkeeps.run hmore hspared
  have hwhole' : runs.run (PinboardPeer.step o ed cfg) (events ++ more)
      (PinboardPeer.start o cfg genesis_config s₁) = some p' := by
    rw [runs.run_append, hrun]
    exact hmore
  have hholds := holds_of_run hbase64 hstart hwhole'
  have hposts : p'.tables.HoldsPosts cfg.constants := by
    refine ⟨fun k m hrow => ?_, fun k m hrow => (hholds.messages.rows k m hrow).2⟩
    exact hholds.committed_posts m (hholds.messages.rows k m hrow).1
  rw [← round_trip_iff hposts]
  unfold PinboardTables.get_pinboard_post_item
  constructor
  · rintro ⟨item, v, hitem, hm, _⟩
    cases hfound : p'.tables.handle_get_pinboard_post_by_path (pinboard_response_cado_path m) with
    | error e =>
      rw [hfound] at hitem
      cases hitem
    | ok found =>
      rw [hfound] at hitem
      obtain ⟨item', v', hanswer, hshows⟩ :=
        @answerPost_eq o p'.slots p'.current_height hlater.slots found as hquiet
      change answerPost o found p'.current_height (p'.slots.answered as) = _ at hitem
      rw [hanswer] at hitem
      cases hitem
      rw [← hm, hshows.metadata]
  · intro hfound
    rw [hfound]
    obtain ⟨item, v, hanswer, hshows⟩ :=
      @answerPost_eq o p'.slots p'.current_height hlater.slots m as hquiet
    exact ⟨item, v, hanswer, hshows.metadata, hshows.available hlive hkept.listed⟩

theorem a_stored_post_stays_available_over_a_tick : ∃ p : PinboardPeer, ∃ m ∈ p.blocks.flatten,
    ∃ item v, p.tables.get_pinboard_post_item .openChain p.current_height (pinboard_response_cado_path m)
        (p.slots.answered []) = .ok item v ∧ item.metadata = m ∧
      ∃ bytes, m.content_key = hexKey (Outside.openChain.sha256 bytes) ∧
        item.message_b64 = some (Outside.openChain.base64.encode bytes) ∧
        item.blob_status = "available" := by
  obtain ⟨root, s₁, p, m, halloc, hrun, hposted⟩ := exists_posted
  have hrow := hposted.listable.own_row m hposted.posted
  have htick : runs.run (PinboardPeer.step .openChain Ed25519.toy .small) [.tick (fun _ => true)] p =
      some { p with condemned := p.condemned ++
        p.tables.gc_calls p.current_height (fun _ => true) (fun _ => .ok ()) } := rfl
  have hwhole : ∀ key os, .on (.collect key os) ∈ postedEvents ++ [.tick (fun _ => true)] →
      Quiet os := by
    intro key os hmem
    simp [postedEvents] at hmem
  have hspared : ∀ v ∈ runs.visits (PinboardPeer.step .openChain Ed25519.toy .small)
      [.tick (fun _ => true)] p, ∀ is_allowed, v.2 = .tick is_allowed →
        ¬ v.1.tables.Condemned v.1.current_height m.content_key := by
    intro v hv is_allowed _
    obtain rfl : v = (p, .tick (fun _ => true)) := List.mem_singleton.mp hv
    exact not_condemned_of_live (fun k m' hrow' _ => hposted.live k m' hrow')
  refine ⟨_, m, hposted.posted, (a_stored_post_stays_available_iff openChain_base64 halloc rfl
    hrun htick hwhole hposted.listed hposted.free hspared (hposted.live _ m hrow)
    (fun a ha => by cases ha)).mpr
      ⟨hposted.addressable, ?_⟩⟩
  rw [hposted.own_path]
  exact hrow

end eld_chain
