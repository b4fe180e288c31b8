-- What a peer serves is what its key names. In every run, whatever bytes the
-- network delivers, the blobs of its uploads, the contents in its slots and
-- the responses that it publishes have the hash of their key. Every step
-- keeps this, but for a content whose deletion is stopped part-way.
import EldChain.GenuineContents

open Std

namespace eld_chain

open fallible finite_map

variable {o : Outside} {ed : Ed25519} {cfg : PeerConfig}

/-! ## Truthful peers -/

/-- The response carries bytes that its key names. -/
def Delivers (o : Outside) (key content : Text) : Prop :=
  ∃ bytes, o.base64.decode content = some bytes ∧ key = hexKey (o.sha256 bytes)

/-- Everything that a peer holds or has served is what its key names, but for torn contents. -/
structure Peer.Truthful (o : Outside) (Torn : Text → Prop) (p : Peer) : Prop where
  good : NodeGood o p.node
  temp_blobs : ∀ (key : Text) bytes, p.temp_blobs[key]? = some bytes →
    key = hexKey (o.sha256 bytes)
  blobs : ∀ q ∈ p.blobs, q.1 = hexKey (o.sha256 q.2)
  slots : Genuine o Torn p.sync.manager
  served : ∀ key content, .ContentResponse key content ∈ p.published → ¬ Torn key →
    Delivers o key content

variable {Torn : Text → Prop} {p p' : Peer}

/-- A peer whose slots have changed, and that has published other messages than responses. -/
theorem Peer.Truthful.moved (h : p.Truthful o Torn) {n : SyncNode} {messages : List SyncMsg}
    (hslots : Genuine o Torn n.manager)
    (hmessages : ∀ key content, .ContentResponse key content ∈ messages → ¬ Torn key →
      Delivers o key content) :
    ({ p with sync := n, published := p.published ++ messages } : Peer).Truthful o Torn := by
  refine ⟨h.good, h.temp_blobs, h.blobs, hslots, ?_⟩
  intro key content hmem
  rcases List.mem_append.mp hmem with hold | hnew
  · exact h.served key content hold
  · exact hmessages key content hnew

/-- A new blob is filed under its own hash. -/
theorem Peer.Truthful.keep_temp_blob (h : p.Truthful o Torn) (pc : ProtocolConstants)
    (bytes : Bytes) : (p.keep_temp_blob (hexKey (o.sha256 bytes)) bytes).Truthful o Torn := by
  unfold Peer.keep_temp_blob
  split
  · exact h
  · refine ⟨?_, ?_, h.blobs, h.slots, h.served⟩
    · exact (@NodeStep.uploaded o pc p.node _ bytes).good h.good
    · intro key bytes' hread
      have hinsert : (p.temp_blobs.insert (hexKey (o.sha256 bytes)) bytes)[key]? = some bytes' :=
        hread
      rw [get_insert] at hinsert
      by_cases hkey : hexKey (o.sha256 bytes) = key
      · rw [if_pos hkey, Option.some.injEq] at hinsert
        rw [← hkey, hinsert]
      · rw [if_neg hkey] at hinsert
        exact h.temp_blobs key bytes' hinsert

/-! ## Messages -/

theorem genuine_announce {n : SyncNode} (h : Genuine o Torn n.manager) (content_key : Text)
    (has_temp_blob : Bool) (now : Except String UInt64) (saves : List Answer) :
    Genuine o Torn (handle_announce content_key has_temp_blob now saves n).1.manager := by
  obtain ⟨hok, herror⟩ := get_content_used content_key n.manager
  unfold handle_announce
  split
  · exact h
  · split
    · exact h.used (hok _ _ ‹_›)
    · exact h.used (hok _ _ ‹_›)
    · exact h.used (herror _ _ ‹_›)

theorem genuine_response {n : SyncNode} (h : Genuine o Torn n.manager) (content_key content : Text)
    (saves : List Answer) :
    Genuine o Torn
      (handle_content_response o content_key content saves n).manager := by
  rcases response_cases o (n := n) content_key content saves with
    ⟨s, hused, hnext, _⟩ | ⟨bytes, _, hkey, hnew, hnext⟩
  · rw [hnext]
    exact h.used hused
  · subst hkey
    obtain ⟨m, file, hm, hkept⟩ := h.loaded
    rw [hnext]
    exact h.offered hnew (store_offered o hkept hm hnew _)

/-- The content of a response is the temporary blob, or what is read from the slots. -/
theorem content_request_spec (hbase64 : o.base64.ReadsBack) {n : SyncNode}
    (h : Genuine o Torn n.manager)
    {pinboard_temp_blob : Option Bytes} {content_key : Text}
    (hblob : ∀ bytes, pinboard_temp_blob = some bytes → content_key = hexKey (o.sha256 bytes)) :
    Genuine o Torn (handle_content_request o pinboard_temp_blob content_key n).1.manager ∧
      ∀ content, (handle_content_request o pinboard_temp_blob content_key n).2 = some content →
        ¬ Torn content_key → Delivers o content_key content := by
  obtain ⟨hok, herror⟩ := get_content_used content_key n.manager
  unfold handle_content_request
  cases pinboard_temp_blob with
  | some bytes =>
    refine ⟨h, ?_⟩
    rintro _ ⟨⟩ _
    exact ⟨bytes, hbase64 bytes, hblob bytes rfl⟩
  | none =>
    simp only
    cases hget : get_content_from_slots content_key n.manager with
    | error e s =>
      refine ⟨h.used (herror e s hget), ?_⟩
      rintro _ ⟨⟩
    | ok r s =>
      cases r with
      | none =>
        refine ⟨h.used (hok none s hget), ?_⟩
        rintro _ ⟨⟩
      | some bytes =>
        refine ⟨h.used (hok (some bytes) s hget), ?_⟩
        rintro _ ⟨⟩ hwhole
        exact ⟨bytes, hbase64 bytes, h.read hget hwhole⟩

/-- No response among messages of another kind. -/
theorem no_response {A : Type} {make : A → SyncMsg} {l : List A}
    (hother : ∀ a key content, make a ≠ .ContentResponse key content) {key content : Text} :
    .ContentResponse key content ∉ l.map make := by
  intro hmem
  obtain ⟨a, _, ha⟩ := List.mem_map.mp hmem
  exact hother a key content ha

theorem Peer.Truthful.handled (hbase64 : o.base64.ReadsBack) (h : p.Truthful o Torn)
    (around : Surroundings) (msg : SyncMsg) :
    (p.handle_sync_message o cfg around msg).Truthful o Torn := by
  have hslots : Genuine o Torn (p.answered around.os).manager := h.slots.answered around.os
  cases msg with
  | Announce content_id =>
    refine h.moved (genuine_announce hslots content_id _ around.now around.saves) ?_
    intro key content hmem
    exact absurd hmem (no_response (fun _ _ _ heq => by cases heq))
  | ContentRequest content_id =>
    obtain ⟨hgenuine, hcontent⟩ := content_request_spec hbase64 hslots (h.temp_blobs content_id)
    refine h.moved hgenuine ?_
    intro key content hmem
    obtain ⟨served, hserved, heq⟩ := List.mem_map.mp hmem
    cases heq
    exact hcontent content (Option.mem_toList.mp hserved)
  | ContentResponse content_id content =>
    exact ⟨h.good, h.temp_blobs, h.blobs,
      genuine_response hslots content_id content around.saves, h.served⟩
  | CapacityChallenge challenge seed expiration_block timestamp =>
    refine h.moved h.slots ?_
    intro key content hmem
    exact absurd hmem (no_response (fun _ _ _ heq => by cases heq))
  | ContentInventoryRequest timestamp =>
    refine h.moved h.slots ?_
    intro key content hmem
    cases List.mem_singleton.mp hmem
  | CapacityChallengeResponse r => exact h
  | Heartbeat timestamp => exact h
  | ContentSyncHeartbeat timestamp => exact h
  | ContentSyncHeartbeatResponse provider_id timestamp => exact h
  | ContentInventoryResponse items_json => exact h

/-- Whatever bytes arrive. -/
theorem Peer.Truthful.receive (hbase64 : o.base64.ReadsBack) (h : p.Truthful o Torn)
    (around : Surroundings) (data : Bytes) :
    (p.receive o cfg around data).Truthful o Torn := by
  unfold Peer.receive
  cases o.bincode.deserialize .sync_msg data with
  | error e => exact h
  | ok msg => exact h.handled hbase64 around msg

/-! ## Uploads and passes -/

/-- An upload that is accepted names its bytes. -/
theorem content_key_of_validate {message_bytes : Bytes} {user : PostMessageUserRequest}
    (h : validate_post_message_user_signature o ed message_bytes user = .ok ()) :
    user.content_key = hexKey (o.sha256 message_bytes) := by
  unfold validate_post_message_user_signature at h
  simp only [bind_eq_ok] at h
  obtain ⟨_, _, _, _, h⟩ := h
  split at h
  · cases h
  · rename_i hkey
    exact (not_not.mp hkey).symm

theorem Peer.Truthful.submit (h : p.Truthful o Torn) (message_b64 : Text)
    (user : PostMessageUserRequest) (os : List Answer) :
    (p.handle_pinboard_submit o ed cfg message_b64 user os).Truthful o Torn := by
  have hslots : Genuine o Torn (p.answered os).manager := h.slots.answered os
  obtain ⟨hok, herror⟩ := get_content_used user.content_key (p.answered os).manager
  have hread : ∀ s, Used (p.answered os).manager s →
      ({ p with sync := { p.sync with manager := s } } : Peer).Truthful o Torn :=
    fun s hused => ⟨h.good, h.temp_blobs, h.blobs, hslots.used hused, h.served⟩
  unfold Peer.handle_pinboard_submit
  cases o.base64.decode message_b64 with
  | none => exact h
  | some message_bytes =>
    simp only
    split
    · exact h
    · cases hvalid : validate_post_message_user_signature o ed message_bytes user with
      | error e => exact h
      | ok _ =>
        simp only
        cases hget : get_content_from_slots user.content_key (p.answered os).manager with
        | error e s => exact hread s (herror e s hget)
        | ok r s =>
          cases r with
          | some bytes => exact hread s (hok _ s hget)
          | none =>
            simp only
            rw [content_key_of_validate hvalid]
            exact (hread s (hok _ s hget)).keep_temp_blob cfg.constants message_bytes

/-- A pass only reads the slots. -/
theorem syncRecord_used (clock : MissingContentRecord → Except String UInt64)
    (record : MissingContentRecord) (q : SyncPass) :
    Ends (syncRecord clock record) q (fun _ q' => Used q.manager q'.manager)
      (fun _ q' => Used q.manager q'.manager) := by
  have htracked : ∀ (call : TrackerProg Unit) (q₀ : SyncPass), Used q.manager q₀.manager →
      Ends (onTracker call) q₀ (fun _ q' => Used q.manager q'.manager)
        (fun _ q' => Used q.manager q'.manager) := by
    intro call q₀ hused
    exact onTracker_ends (P := fun q' => Used q.manager q'.manager) hused
  obtain ⟨hok, herror⟩ := get_content_used (idText record.content_id) q.manager
  unfold Ends
  cases hget : get_content_from_slots (idText record.content_id) q.manager with
  | error e s =>
    simp only [syncRecord, hget]
    exact herror e s hget
  | ok r s =>
    have hused := hok r s hget
    cases r with
    | some bytes =>
      simp only [syncRecord, hget]
      exact htracked _ { q with manager := s } hused
    | none =>
      simp only [syncRecord, hget]
      refine (ends_bind _ _ { q with manager := s } _ _).mpr ?_
      rw [ends_modify]
      exact htracked _ _ hused

theorem syncRecords_used (clock : MissingContentRecord → Except String UInt64)
    (batch : List MissingContentRecord) (q : SyncPass) :
    Ends (syncRecords clock batch) q (fun _ q' => Used q.manager q'.manager)
      (fun _ q' => Used q.manager q'.manager) := by
  induction batch generalizing q with
  | nil => exact Used.refl _
  | cons record batch ih =>
    rw [syncRecords, ends_bind]
    refine (syncRecord_used clock record q).mono ?_ (fun _ _ h => h)
    intro _ q' hused
    exact (ih q').mono (fun _ _ h => hused.trans h) (fun _ _ h => hused.trans h)

theorem pass_used (n : SyncNode) (clock : MissingContentRecord → Except String UInt64)
    (missing : List MissingContentRecord) (os saves : List Answer) :
    Used (n.manager.answered os) (n.pass clock missing os saves).manager :=
  Ends.after (P := fun q : SyncPass => Used (n.manager.answered os) q.manager)
    (syncRecords_used clock _ ⟨n.manager.answered os, ⟨n.periodic, n.file, saves⟩, []⟩)

/-! ## Consensus calls -/

/-- Only uploads and commits change what the node stores. -/
theorem NodeStep.storage_eq {pc : ProtocolConstants} {n n' : Node} {r : Request}
    (h : NodeStep o pc n r n') (hcommit : r ≠ .Commit)
    (hupload : ∀ content_key blob, r ≠ .UploadBlob content_key blob) :
    n'.conn.storage = n.conn.storage := by
  cases h with
  | begun => rfl
  | turned_away => rfl
  | delivered => rfl
  | ended => rfl
  | committed => exact absurd rfl hcommit
  | uploaded content_key blob => exact absurd rfl (hupload content_key blob)

/-- A commit schedules blobs that it has, and takes them from the temporary ones. -/
theorem Peer.Truthful.commit (h : p.Truthful o Torn) (hcommit : p.commit o cfg = some p') :
    p'.Truthful o Torn := by
  unfold Peer.commit at hcommit
  split at hcommit
  · rename_i hphase
    cases hcalls : commitCalls o cfg.constants p.node.conn with
    | error e =>
      rw [hcalls] at hcommit
      cases hcommit
    | ok done =>
      obtain ⟨conn, calls⟩ := done
      rw [hcalls] at hcommit
      cases hcommit
      have hinner : commit_inner o cfg.constants p.node.conn = .ok conn := by
        rw [← commitCalls_fst, hcalls]
        rfl
      have hstep : p.node.step o cfg.constants .Commit = some ⟨.idle, conn⟩ := by
        unfold Node.step
        simp only [if_pos hphase, hinner]
      obtain ⟨s, hs, hgood⟩ := h.good.current (by rw [hphase]; simp)
      have hspec := commitCalls.spec hs hgood hcalls
      refine ⟨(step_cases hstep).good h.good, ?_, ?_, h.slots, ?_⟩
      · intro key bytes hread
        have hleft : (flushPinboard p.node.conn.storage s.envelope).pinboard_temp_blobs[key]? =
            some bytes := by
          rw [← hspec.left]
          exact hread
        have hflush := finite_map.get_eraseEach
          (s.envelope.pinboard_meta_cache.toList.map (fun q => q.2.content_key))
          p.node.conn.storage.pinboard_temp_blobs key
        rw [List.foldl_map] at hflush
        unfold flushPinboard at hleft
        simp only [hflush] at hleft
        split at hleft
        · cases hleft
        · exact h.temp_blobs key bytes hleft
      · intro q hq
        rcases List.mem_append.mp hq with hold | hnew
        · exact h.blobs q hold
        · have hblob := (hspec.scheduled q.1 q.2).mp ((mem_toList _ q).mp hnew)
          exact h.temp_blobs q.1 q.2 hblob.2
      · intro key content hmem
        rcases List.mem_append.mp hmem with hold | hnew
        · exact h.served key content hold
        · exact absurd hnew (no_response (fun _ _ _ heq => by cases heq))
  · cases hcommit

theorem Peer.Truthful.call (h : p.Truthful o Torn) {r : Request}
    (hstep : p.step o ed cfg (.call r) = some p') : p'.Truthful o Torn := by
  have hnode : ∀ node, p.node.step o cfg.constants r = some node → r ≠ .Commit →
      (∀ content_key blob, r ≠ .UploadBlob content_key blob) →
      ({ p with node := node } : Peer).Truthful o Torn := by
    intro node hnode hcommit hupload
    have hcases := step_cases hnode
    refine ⟨hcases.good h.good, ?_, h.blobs, h.slots, h.served⟩
    intro key bytes hread
    apply h.temp_blobs key bytes
    unfold Peer.temp_blobs at hread ⊢
    rw [← hcases.storage_eq hcommit hupload]
    exact hread
  cases r with
  | Commit => exact h.commit hstep
  | UploadBlob content_key blob => cases hstep
  | BeginBlock =>
    obtain ⟨node, hn, rfl⟩ := Option.map_eq_some_iff.mp hstep
    exact hnode node hn (by simp) (by simp)
  | DeliverTx request =>
    obtain ⟨node, hn, rfl⟩ := Option.map_eq_some_iff.mp hstep
    exact hnode node hn (by simp) (by simp)
  | EndBlock height =>
    obtain ⟨node, hn, rfl⟩ := Option.map_eq_some_iff.mp hstep
    exact hnode node hn (by simp) (by simp)

/-! ## Runs -/

/-- The event is a deletion of the content that the operating system stops. -/
def PeerEvent.Tears (key : Text) : PeerEvent → Prop
  | .collect content_key os => key = content_key ∧ ¬ Quiet os
  | _ => False

theorem Peer.Truthful.mono {Torn' : Text → Prop} (h : p.Truthful o Torn)
    (hmore : ∀ key, Torn key → Torn' key) : p.Truthful o Torn' :=
  ⟨h.good, h.temp_blobs, h.blobs, h.slots.mono hmore,
    fun key content hmem hwhole => h.served key content hmem (fun htorn => hwhole (hmore key htorn))⟩

/-- What one event tears is all that it spoils. -/
theorem Peer.Truthful.step (hbase64 : o.base64.ReadsBack) (h : p.Truthful o Torn) {e : PeerEvent}
    (hstep : p.step o ed cfg e = some p') :
    p'.Truthful o (fun key => Torn key ∨ e.Tears key) := by
  have hmore : ∀ key, Torn key → Torn key ∨ e.Tears key := fun _ htorn => Or.inl htorn
  cases e with
  | call r => exact (h.call hstep).mono hmore
  | receive data around =>
    cases hstep
    exact (h.receive hbase64 around data).mono hmore
  | submit message_b64 user os =>
    cases hstep
    exact (h.submit message_b64 user os).mono hmore
  | pass clock missing os saves =>
    obtain ⟨n, hn, rfl⟩ := Option.map_eq_some_iff.mp hstep
    unfold SyncNode.step at hn
    simp only [Option.ite_none_right_eq_some, Option.some.injEq] at hn
    obtain ⟨_, rfl⟩ := hn
    refine Peer.Truthful.mono (Peer.Truthful.moved h ?_ ?_) hmore
    · exact (h.slots.answered os).used (pass_used p.sync clock missing os saves)
    · intro key content hmem
      exact absurd hmem (no_response (fun _ _ _ heq => by cases heq))
  | mirror content_key bytes os =>
    unfold Peer.step at hstep
    simp only [Option.ite_none_right_eq_some, Option.some.injEq] at hstep
    obtain ⟨hmem, rfl⟩ := hstep
    have hslots := (h.slots.answered os).mirror (h.blobs _ hmem)
    exact Peer.Truthful.mono ⟨h.good, h.temp_blobs, h.blobs, hslots, h.served⟩ hmore
  | collect content_key os =>
    cases hstep
    have hslots := (h.slots.answered os).collect content_key
    refine ⟨h.good, h.temp_blobs, h.blobs, hslots, ?_⟩
    intro key content hmem hwhole
    exact h.served key content hmem (fun htorn => hwhole (Or.inl htorn))

theorem Peer.Truthful.run (hbase64 : o.base64.ReadsBack) (h : p.Truthful o Torn)
    {events : List PeerEvent}
    (hrun : runs.run (Peer.step o ed cfg) events p = some p') :
    p'.Truthful o (fun key => Torn key ∨ ∃ e ∈ events, e.Tears key) := by
  induction events generalizing p Torn with
  | nil =>
    cases hrun
    exact h.mono (fun _ htorn => Or.inl htorn)
  | cons e events ih =>
    obtain ⟨p₁, hstep, hrest⟩ := Option.bind_eq_some_iff.mp hrun
    refine (ih (h.step hbase64 hstep) hrest).mono ?_
    rintro key ((htorn | htears) | ⟨e', he', htears⟩)
    · exact Or.inl htorn
    · exact Or.inr ⟨e, List.mem_cons_self, htears⟩
    · exact Or.inr ⟨e', List.mem_cons_of_mem _ he', htears⟩

/-- A peer reads a content back, as bytes with the hash of the key. -/
def Peer.Has (o : Outside) (p : Peer) (key : Text) : Prop :=
  ∃ bytes, key = hexKey (o.sha256 bytes) ∧ ReadsBack p.sync.manager key bytes

theorem Peer.Truthful.has (h : p.Truthful o Torn) {key : Text} (hwhole : ¬ Torn key)
    (hlisted : key ∈ p.sync.manager.slot_allocator.content_slot_map) : p.Has o key := by
  obtain ⟨placed, hname, hstanding⟩ := h.slots.contents key hlisted hwhole
  exact ⟨_, hname, readsBack_of_standing hstanding⟩

/-- A peer that starts with slots that it has just allocated is truthful. -/
theorem start_truthful {x : ChunkSource} {s₀ s₁ : CapacityManager} {capacity : Nat}
    {seed root : Bytes32} (halloc : allocate_capacity_internal o x capacity seed s₀ = .ok root s₁)
    (hempty : s₀.slot_allocator.content_slot_map = ∅) (genesis_config : GenesisConfig) :
    (Peer.start o cfg genesis_config s₁).Truthful o (fun _ => False) := by
  obtain ⟨m, file, hm, hsaved, _, hcontent, _⟩ := allocate_capacity_internal_mirror o halloc
  have hnone : s₁.slot_allocator.content_slot_map = ∅ := hcontent.trans hempty
  have hkept : Kept s₁ file := by
    refine ⟨hm.capacity_file, ⟨_, hsaved, hm.layout⟩, ?_⟩
    intro m' hm'
    rw [hm.slot_map] at hm'
    cases hm'
    refine ⟨hm.layout, ?_⟩
    rw [hnone]
    exact owned_empty m
  refine ⟨genesis_good o cfg.constants genesis_config, ?_, fun q hq => (by cases hq), ?_,
    fun key content hmem => (by cases hmem)⟩
  · intro key bytes hread
    have hread' : (∅ : ExtTreeMap Text Bytes compare)[key]? = some bytes := hread
    rw [ExtTreeMap.getElem?_empty] at hread'
    cases hread'
  · refine ⟨⟨m, file, hm.slot_map, hkept⟩, ?_⟩
    intro key hkey
    have hkey' : key ∈ s₁.slot_allocator.content_slot_map := hkey
    rw [hnone] at hkey'
    exact absurd hkey' ExtTreeMap.not_mem_empty

/-- In every run, whatever the network delivers, what a peer has served under a key has its
hash, and so has what it holds there, unless the operating system has stopped a deletion of the
content part-way. -/
theorem a_peer_serves_what_its_key_names (hbase64 : o.base64.ReadsBack) {x : ChunkSource}
    {s₀ s₁ : CapacityManager} {capacity : Nat} {seed root : Bytes32}
    (halloc : allocate_capacity_internal o x capacity seed s₀ = .ok root s₁)
    (hempty : s₀.slot_allocator.content_slot_map = ∅) {genesis_config : GenesisConfig}
    {events : List PeerEvent}
    (hrun : runs.run (Peer.step o ed cfg) events (Peer.start o cfg genesis_config s₁) = some p)
    {key : Text} (hwhole : ∀ os, .collect key os ∈ events → Quiet os) :
    (∀ content, .ContentResponse key content ∈ p.published → Delivers o key content) ∧
      (∀ bytes, p.temp_blobs[key]? = some bytes → key = hexKey (o.sha256 bytes)) ∧
      (key ∈ p.sync.manager.slot_allocator.content_slot_map → p.Has o key) := by
  have htruthful := (@start_truthful o cfg _ _ _ _ _ _ halloc hempty genesis_config).run hbase64 hrun
  have hnot : ¬ (False ∨ ∃ e ∈ events, e.Tears key) := by
    rintro (hnone | ⟨e, he, htears⟩)
    · exact hnone
    · cases e with
      | collect content_key os =>
        obtain ⟨rfl, hfailed⟩ := htears
        exact hfailed (hwhole os he)
      | call | receive | submit | pass | mirror => exact htears
  exact ⟨fun content hmem => htruthful.served key content hmem hnot,
    htruthful.temp_blobs key, htruthful.has hnot⟩

/-! ## A peer that stores, serves and collects -/

/-- A wallet that signs nothing. -/
def PeerConfig.small : PeerConfig := ⟨smallConstants, 1024, fun _ => none⟩

/-- Nothing fails and the clock stands. -/
def Surroundings.quiet : Surroundings := ⟨.ok 5, 0, [], []⟩

/-- The three bytes arrive, are asked for and are collected. -/
def threeEvents : List PeerEvent :=
  [.receive (SyncMsg.ContentResponse (hexKey threeDigest) "AQID".toList).toyBytes .quiet,
    .receive (SyncMsg.ContentRequest (hexKey threeDigest)).toyBytes .quiet,
    .collect (hexKey threeDigest) []]

theorem openSlots_base64 : Outside.openSlots.base64.ReadsBack := base64.decode_encode

theorem a_peer_serves_what_its_key_names_on_threeEvents :
    ∃ root s₁ p, allocate_capacity_internal .openSlots .sevens 2048 3 .fresh = .ok root s₁ ∧
      runs.run (Peer.step .openSlots Ed25519.toy .small) threeEvents
        (Peer.start .openSlots .small smallConfig s₁) = some p ∧
      ∀ content, .ContentResponse (hexKey threeDigest) content ∈ p.published →
        Delivers .openSlots (hexKey threeDigest) content := by
  have hsome : (resultOf (allocate_capacity_internal .openSlots .sevens 2048 3) .fresh).isSome =
    true := by decide +kernel
  obtain ⟨⟨root, s₁⟩, halloc⟩ := Option.isSome_iff_exists.mp hsome
  have halloc := eq_ok_of_resultOf halloc
  have hruns : ∃ p, runs.run (Peer.step .openSlots Ed25519.toy .small) threeEvents
      (Peer.start .openSlots .small smallConfig s₁) = some p := ⟨_, rfl⟩
  obtain ⟨p, hp⟩ := hruns
  refine ⟨root, s₁, p, halloc, hp, ?_⟩
  refine (a_peer_serves_what_its_key_names openSlots_base64 halloc rfl hp ?_).1
  intro os hmem
  simp only [threeEvents, List.mem_cons, List.not_mem_nil, reduceCtorEq, false_or, or_false,
    PeerEvent.collect.injEq, true_and] at hmem
  rw [hmem]
  exact fun a ha => by cases ha

end eld_chain
