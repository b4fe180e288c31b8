-- How a content passes from one peer to another: it is announced, asked for
-- and served, in messages that the network carries. A content that a peer
-- holds stays until it is collected, and it reaches a peer that asks for it
-- exactly when the open slots there have room for it.
import EldChain.TruthfulPeers

open Std

namespace eld_chain

open fallible

variable {o : Outside} {ed : Ed25519} {cfg : PeerConfig} {Torn : Text → Prop} {p p' : Peer}

/-! ## A content stays where it is -/

/-- A content that stands in the first state stands in the second. -/
def Spares (key : Text) (s t : CapacityManager) : Prop :=
  ∀ placed, Standing s key placed → Standing t key placed

variable {key : Text} {s t u : CapacityManager}

theorem Spares.of_used (h : Used s t) : Spares key s t := fun _ hstanding => hstanding.used h

theorem Spares.trans (h : Spares key s t) (h' : Spares key t u) : Spares key s u :=
  fun placed hstanding => h' placed (h placed hstanding)

theorem Standing.listed {placed : List (Nat × Bytes)} (h : Standing s key placed) :
    key ∈ s.slot_allocator.content_slot_map := by
  obtain ⟨m, file, _, _, hstored⟩ := h
  rw [ExtTreeMap.mem_iff_isSome_getElem?, hstored.listed]
  rfl

theorem spares_answered (key : Text) (s : CapacityManager) (os : List Answer) :
    Spares key s (s.answered os) := fun _ hstanding => hstanding.answered os

theorem spares_stored {content_key : Text} {bytes : Bytes}
    (hnew : content_key ∉ s.slot_allocator.content_slot_map) :
    Spares key s (after (store_content_chunks o content_key (chunks MAX_CHUNK_SIZE bytes)) s) := by
  intro placed hstanding
  have hne : content_key ≠ key := by
    rintro rfl
    exact hnew hstanding.listed
  have hloaded := hstanding
  obtain ⟨m, file, hm, hkept, _⟩ := hloaded
  exact (store_offered o hkept hm hnew _).others key placed hne hstanding

theorem spares_mirror (content_key : Text) (bytes : Bytes) :
    Spares key s (mirrorContent o content_key bytes s) := by
  rcases mirror_cases o content_key bytes s with ⟨_, hused⟩ | ⟨hnew, hstore⟩
  · exact Spares.of_used hused
  · rw [hstore]
    exact spares_stored hnew

theorem spares_response (n : SyncNode) (content_key content : Text) (saves : List Answer) :
    Spares key n.manager
      (handle_content_response o content_key content saves n).manager := by
  rcases response_cases o (n := n) content_key content saves with
    ⟨s, hused, hnext, _⟩ | ⟨bytes, _, _, hnew, hnext⟩
  · rw [hnext]
    exact Spares.of_used hused
  · rw [hnext]
    exact spares_stored hnew

theorem spares_handled (around : Surroundings) (msg : SyncMsg) :
    Spares key p.sync.manager (p.handle_sync_message o cfg around msg).sync.manager := by
  have hanswered := spares_answered key p.sync.manager around.os
  have hread : ∀ content_key r t, get_content_from_slots content_key
      (p.answered around.os).manager = .ok r t → Spares key p.sync.manager t := by
    intro content_key r t hget
    exact hanswered.trans (Spares.of_used ((get_content_used content_key _).1 r t hget))
  have hfail : ∀ content_key e t, get_content_from_slots content_key
      (p.answered around.os).manager = .error e t → Spares key p.sync.manager t := by
    intro content_key e t hget
    exact hanswered.trans (Spares.of_used ((get_content_used content_key _).2 e t hget))
  cases msg with
  | Announce content_id =>
    unfold Peer.handle_sync_message Peer.publish handle_announce
    simp only
    split
    · exact hanswered
    · split
      · exact hread _ _ _ ‹_›
      · exact hread _ _ _ ‹_›
      · exact hfail _ _ _ ‹_›
  | ContentRequest content_id =>
    unfold Peer.handle_sync_message Peer.publish handle_content_request
    simp only
    split
    · exact hanswered
    · split
      · exact hread _ _ _ ‹_›
      · exact hread _ _ _ ‹_›
      · exact hfail _ _ _ ‹_›
  | ContentResponse content_id content =>
    exact hanswered.trans (spares_response (p.answered around.os) content_id content around.saves)
  | CapacityChallenge | ContentInventoryRequest | CapacityChallengeResponse | Heartbeat
  | ContentSyncHeartbeat | ContentSyncHeartbeatResponse | ContentInventoryResponse =>
    exact fun _ hstanding => hstanding

theorem spares_submit (message_b64 : Text) (user : PostMessageUserRequest) (os : List Answer) :
    Spares key p.sync.manager
      (p.handle_pinboard_submit o ed cfg message_b64 user os).sync.manager := by
  have hanswered := spares_answered key p.sync.manager os
  obtain ⟨hok, herror⟩ := get_content_used user.content_key (p.answered os).manager
  have hkeep : ∀ (q : Peer) content_key bytes,
      (q.keep_temp_blob content_key bytes).sync = q.sync := by
    intro q content_key bytes
    unfold Peer.keep_temp_blob
    split
    · rfl
    · rfl
  have hsame : Spares key p.sync.manager p.sync.manager := fun _ hstanding => hstanding
  unfold Peer.handle_pinboard_submit
  split
  · exact hsame
  · split
    · exact hsame
    · split
      · exact hsame
      · split
        · rw [hkeep]
          exact hanswered.trans (Spares.of_used (hok _ _ ‹_›))
        · exact hanswered.trans (Spares.of_used (hok _ _ ‹_›))
        · exact hanswered.trans (Spares.of_used (herror _ _ ‹_›))

/-- Only its own deletion takes a content away. -/
theorem Peer.step_spares {e : PeerEvent} (hstep : p.step o ed cfg e = some p')
    (hkept : ∀ os, e ≠ .collect key os) : Spares key p.sync.manager p'.sync.manager := by
  cases e with
  | call r =>
    have hsync : p'.sync = p.sync := by
      cases r with
      | Commit =>
        have hcommit : p.commit o cfg = some p' := hstep
        unfold Peer.commit at hcommit
        split at hcommit
        · split at hcommit
          · cases hcommit
          · cases hcommit
            rfl
        · cases hcommit
      | UploadBlob content_key blob => cases hstep
      | BeginBlock | DeliverTx | EndBlock =>
        obtain ⟨node, _, rfl⟩ := Option.map_eq_some_iff.mp hstep
        rfl
    rw [hsync]
    exact fun _ hstanding => hstanding
  | receive data around =>
    cases hstep
    unfold Peer.receive
    cases o.bincode.deserialize .sync_msg data with
    | error e => exact fun _ hstanding => hstanding
    | ok msg => exact spares_handled around msg
  | submit message_b64 user os =>
    cases hstep
    exact spares_submit message_b64 user os
  | pass clock missing os saves =>
    obtain ⟨n, hn, rfl⟩ := Option.map_eq_some_iff.mp hstep
    unfold SyncNode.step at hn
    simp only [Option.ite_none_right_eq_some, Option.some.injEq] at hn
    obtain ⟨_, rfl⟩ := hn
    exact (spares_answered key p.sync.manager os).trans
      (Spares.of_used (pass_used p.sync clock missing os saves))
  | mirror content_key bytes os =>
    unfold Peer.step at hstep
    simp only [Option.ite_none_right_eq_some, Option.some.injEq] at hstep
    obtain ⟨_, rfl⟩ := hstep
    exact (spares_answered key p.sync.manager os).trans (spares_mirror content_key bytes)
  | collect content_key os =>
    cases hstep
    have hne : content_key ≠ key := by
      rintro rfl
      exact hkept os rfl
    refine (spares_answered key p.sync.manager os).trans ?_
    intro placed hstanding
    have hloaded := hstanding
    obtain ⟨m, file, hm, hkept, _⟩ := hloaded
    exact (delete_removed hkept hm content_key).others key placed hne hstanding

theorem Peer.run_spares {events : List PeerEvent}
    (hrun : runs.run (Peer.step o ed cfg) events p = some p')
    (hkept : ∀ os, .collect key os ∉ events) : Spares key p.sync.manager p'.sync.manager := by
  induction events generalizing p with
  | nil =>
    cases hrun
    exact fun _ hstanding => hstanding
  | cons e events ih =>
    obtain ⟨p₁, hstep, hrest⟩ := Option.bind_eq_some_iff.mp hrun
    have hfirst : ∀ os, e ≠ .collect key os := by
      rintro os rfl
      exact hkept os List.mem_cons_self
    exact (Peer.step_spares hstep hfirst).trans
      (ih hrest (fun os hmem => hkept os (List.mem_cons_of_mem _ hmem)))

/-! ## Fetching a content -/

/-- The bytes are read as the message, as those are which bincode writes of it. -/
def ReadAs (o : Outside) (data : Bytes) (msg : SyncMsg) : Prop :=
  o.bincode.deserialize .sync_msg data = .ok msg

theorem receive_readAs {data : Bytes} {msg : SyncMsg} (h : ReadAs o data msg)
    (around : Surroundings) :
    p.receive o cfg around data = p.handle_sync_message o cfg around msg := by
  unfold ReadAs at h
  unfold Peer.receive
  rw [h]

/-- A peer asks for an announced content that it does not have. -/
theorem announced_is_requested (around : Surroundings) (htemp : key ∉ p.temp_blobs)
    (hnew : key ∉ p.sync.manager.slot_allocator.content_slot_map) :
    (p.handle_sync_message o cfg around (.Announce key)).published =
      p.published ++ [.ContentRequest key] := by
  have hget : get_content_from_slots key (p.answered around.os).manager =
      .ok none (p.answered around.os).manager := get_content_unlisted hnew
  have htemp' : p.temp_blobs.contains key = false := by
    rw [← Bool.not_eq_true, ExtTreeMap.contains_iff_mem]
    exact htemp
  unfold Peer.handle_sync_message Peer.publish handle_announce
  simp only [htemp', hget, Bool.false_eq_true, if_false, Option.toList_some, List.map_cons,
    List.map_nil]

/-- A peer that holds a content serves it, unless the operating system fails. -/
theorem requested_is_served (h : p.Truthful o Torn) {placed : List (Nat × Bytes)}
    (hstanding : Standing p.sync.manager key placed)
    (hname : key = hexKey (o.sha256 (placed.map Prod.snd).flatten)) {around : Surroundings}
    (hquiet : Quiet around.os) : ∃ bytes, key = hexKey (o.sha256 bytes) ∧
      (p.handle_sync_message o cfg around (.ContentRequest key)).published =
        p.published ++ [.ContentResponse key (o.base64.encode bytes)] := by
  obtain ⟨t, hget⟩ := readsBack_of_standing hstanding around.os hquiet
  have hget' : get_content_from_slots key (p.answered around.os).manager =
    .ok (some (placed.map Prod.snd).flatten) t := hget
  unfold Peer.handle_sync_message Peer.publish handle_content_request
  cases hblob : p.temp_blobs[key]? with
  | some bytes =>
    refine ⟨bytes, h.temp_blobs key bytes hblob, ?_⟩
    simp only [hblob, Option.toList_some, List.map_cons, List.map_nil]
  | none =>
    refine ⟨_, hname, ?_⟩
    simp only [hblob, hget', Option.toList_some, List.map_cons, List.map_nil]

theorem readsBack_of_used {bytes : Bytes} (hused : Used s t) :
    ReadsBack t key bytes ↔ ReadsBack s key bytes := by
  obtain ⟨as, _, rfl⟩ := hused
  exact Iff.rfl

/-- A response with the hash of its key is there afterwards exactly when the peer had the content
before, or did not list it and has room for it. -/
theorem response_has_iff (hbase64 : o.base64.ReadsBack) (h : p.Truthful o Torn) {bytes : Bytes}
    (hname : key = hexKey (o.sha256 bytes)) (around : Surroundings) :
    (p.handle_sync_message o cfg around (.ContentResponse key (o.base64.encode bytes))).Has o key ↔
      p.Has o key ∨ (key ∉ p.sync.manager.slot_allocator.content_slot_map ∧
        Writable (p.answered around.os).manager (chunks MAX_CHUNK_SIZE bytes)) := by
  have hslots : Genuine o Torn (p.answered around.os).manager := h.slots.answered around.os
  unfold Peer.Has Peer.handle_sync_message
  simp only
  rcases response_cases o (n := p.answered around.os) key (o.base64.encode bytes)
    around.saves with ⟨s, hused, hnext, hwhy⟩ | ⟨bytes', hdecode, hkey, hnew, hnext⟩
  · have hlisted : key ∈ p.sync.manager.slot_allocator.content_slot_map := by
      rcases hwhy with hlisted | hother
      · exact hlisted
      · exact absurd hname.symm (hother bytes (hbase64 bytes))
    rw [hnext]
    simp only [readsBack_of_used hused]
    constructor
    · exact Or.inl
    · rintro (hhas | ⟨hnew, _⟩)
      · exact hhas
      · exact absurd hlisted hnew
  · rw [hbase64, Option.some.injEq] at hdecode
    rw [← hdecode] at hnext
    have hmanager : (handle_content_response o key (o.base64.encode bytes)
        around.saves (p.answered around.os)).manager = after (store_content_chunks o key
          (chunks MAX_CHUNK_SIZE bytes)) (p.answered around.os).manager := by
      rw [hnext]
      rfl
    rw [hmanager]
    obtain ⟨m, file, hm, hkept⟩ := hslots.loaded
    have hoffered := store_offered o hkept hm hnew (chunks MAX_CHUNK_SIZE bytes)
    constructor
    · rintro ⟨read, _, hread⟩
      right
      refine ⟨hnew, ?_⟩
      by_contra hfull
      apply not_readsBack ?_ hread
      rw [hoffered.dropped hfull]
      exact hnew
    · rintro (⟨read, _, hread⟩ | ⟨_, hwritable⟩)
      · exact absurd hread (not_readsBack hnew)
      · obtain ⟨placed, hchunks, hstanding⟩ := hoffered.stored hwritable
        refine ⟨bytes, hname, ?_⟩
        have hread := readsBack_of_standing hstanding
        rw [hchunks, flatten_chunks chunk_size_pos] at hread
        exact hread

/-- A peer asks for an announced content that it does not have. Another peer that holds it serves
it, whatever has happened to it but the deletion of the content, and the response leaves it with
the first peer exactly when it had it by then, or has room for it. -/
theorem an_announced_content_is_fetched_iff (hbase64 : o.base64.ReadsBack) {cfg' : PeerConfig}
    {Torn' : Text → Prop} {holder holder' peer : Peer} (hholder : holder.Truthful o Torn')
    (hwhole : ¬ Torn' key)
    (hlisted : key ∈ holder.sync.manager.slot_allocator.content_slot_map)
    {events : List PeerEvent}
    (hruns : runs.run (Peer.step o ed cfg) events holder = some holder')
    (hkept : ∀ os, .collect key os ∉ events) (hpeer : peer.Truthful o Torn)
    (htemp : key ∉ peer.temp_blobs)
    (hnew : key ∉ peer.sync.manager.slot_allocator.content_slot_map)
    {around' : Surroundings} (hquiet : Quiet around'.os) {announced asked : Bytes}
    (hannounced : ReadAs o announced (.Announce key))
    (hasked : ReadAs o asked (.ContentRequest key)) (around : Surroundings) :
    (peer.receive o cfg' around announced).published =
      peer.published ++ [.ContentRequest key] ∧
    ∃ bytes, key = hexKey (o.sha256 bytes) ∧
      (holder'.receive o cfg around' asked).published =
        holder'.published ++ [.ContentResponse key (o.base64.encode bytes)] ∧
      ∀ events' peer', runs.run (Peer.step o ed cfg') events'
          (peer.receive o cfg' around announced) = some peer' →
        ∀ answer, ReadAs o answer (.ContentResponse key (o.base64.encode bytes)) →
          ∀ around'', (peer'.receive o cfg' around'' answer).Has o key ↔
            peer'.Has o key ∨ (key ∉ peer'.sync.manager.slot_allocator.content_slot_map ∧
              Writable (peer'.answered around''.os).manager (chunks MAX_CHUNK_SIZE bytes)) := by
  obtain ⟨placed, hname, hstanding⟩ := hholder.slots.contents key hlisted hwhole
  refine ⟨?_, ?_⟩
  · rw [receive_readAs hannounced]
    exact announced_is_requested around htemp hnew
  · have hstill : Standing holder'.sync.manager key placed :=
      Peer.run_spares hruns hkept placed hstanding
    obtain ⟨bytes, hbytes, hserved⟩ := @requested_is_served o cfg _ _ _
      (hholder.run hbase64 hruns) _ hstill hname around' hquiet
    refine ⟨bytes, hbytes, ?_, ?_⟩
    · rw [receive_readAs hasked]
      exact hserved
    · intro events' peer' hruns' answer hanswer around''
      rw [receive_readAs hanswer]
      exact response_has_iff hbase64 ((hpeer.receive hbase64 around announced).run hbase64 hruns')
        hbytes around''

/-! ## Two peers -/

/-- A peer with one open slot. -/
def Peer.small : Peer :=
  ⟨genesis .openSlots smallConstants smallConfig, SyncNode.waiting, [], []⟩

theorem Peer.small_truthful : Peer.small.Truthful .openSlots (fun _ => False) := by
  refine ⟨genesis_good .openSlots smallConstants smallConfig, ?_, fun q hq => (by cases hq), ?_,
    fun key content hmem => (by cases hmem)⟩
  · intro key bytes hread
    have hread' : (∅ : ExtTreeMap Text Bytes compare)[key]? = some bytes := hread
    rw [ExtTreeMap.getElem?_empty] at hread'
    cases hread'
  · exact ⟨SyncNode.waiting_canonical.loaded,
      fun key hkey _ => SyncNode.waiting_canonical.contents key hkey⟩

/-- The peer once the three bytes have reached it. -/
def Peer.holding : Peer :=
  Peer.small.handle_sync_message .openSlots .small .quiet
    (.ContentResponse (hexKey threeDigest) (Outside.openSlots.base64.encode [1, 2, 3]))

theorem Peer.small_unlisted :
    hexKey threeDigest ∉ Peer.small.sync.manager.slot_allocator.content_slot_map :=
  ExtTreeMap.not_mem_empty

theorem Peer.small_writable :
    Writable (Peer.small.answered []).manager (chunks MAX_CHUNK_SIZE [1, 2, 3]) := by
  rw [chunks_three]
  exact (waiting_writable []).mpr (fun a ha => by cases ha)

theorem Peer.holding_listed :
    hexKey threeDigest ∈ Peer.holding.sync.manager.slot_allocator.content_slot_map := by
  by_contra hnew
  obtain ⟨read, _, hread⟩ := (response_has_iff openSlots_base64 Peer.small_truthful rfl .quiet).mpr
    (Or.inr ⟨Peer.small_unlisted, Peer.small_writable⟩)
  exact not_readsBack hnew hread

theorem announce_readAs : ReadAs .openSlots
    ((SyncMsg.Announce (hexKey threeDigest)).toyBytes ++ [0]) (.Announce (hexKey threeDigest)) := by
  unfold ReadAs
  decide +kernel

theorem request_readAs : ReadAs .openSlots
    (SyncMsg.ContentRequest (hexKey threeDigest)).toyBytes
    (.ContentRequest (hexKey threeDigest)) := by
  unfold ReadAs
  decide +kernel

/-- The three bytes are announced to a peer with an open slot, and another one holds them. -/
theorem an_announced_content_is_fetched_iff_on_small_peers :
    (Peer.small.receive .openSlots .small .quiet
      ((SyncMsg.Announce (hexKey threeDigest)).toyBytes ++ [0])).published =
        [SyncMsg.ContentRequest (hexKey threeDigest)] ∧
    ∃ bytes, hexKey threeDigest = hexKey (Outside.openSlots.sha256 bytes) ∧
      (Peer.holding.receive .openSlots .small .quiet
        (SyncMsg.ContentRequest (hexKey threeDigest)).toyBytes).published =
          [SyncMsg.ContentResponse (hexKey threeDigest)
            (Outside.openSlots.base64.encode bytes)] := by
  have hruns : runs.run (Peer.step .openSlots Ed25519.toy .small) [.receive [] .quiet]
      Peer.holding = some Peer.holding := rfl
  have hkept : ∀ os, PeerEvent.collect (hexKey threeDigest) os ∉ [PeerEvent.receive [] .quiet] := by
    intro os hmem
    cases List.mem_singleton.mp hmem
  have hholding : Peer.holding.Truthful .openSlots (fun _ => False) :=
    Peer.small_truthful.handled openSlots_base64 .quiet _
  obtain ⟨hasked, bytes, hbytes, hserved, _⟩ := @an_announced_content_is_fetched_iff .openSlots
    Ed25519.toy .small _ _ openSlots_base64 .small _ Peer.holding Peer.holding Peer.small hholding
    (fun hnone => hnone) Peer.holding_listed _ hruns hkept Peer.small_truthful
    ExtTreeMap.not_mem_empty Peer.small_unlisted .quiet (fun a ha => by cases ha) _ _
    announce_readAs request_readAs .quiet
  exact ⟨hasked, bytes, hbytes, hserved⟩

end eld_chain
