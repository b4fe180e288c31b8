-- The law of fatal commits: of everything that a block can hold, only a
-- message whose blob the node does not have ends the process. No other
-- write of a commit fails, and two nodes that commit the same block
-- commit the same state, whatever blobs they hold.
import EldChain.StagedPosts

open Std

namespace eld_chain

variable {o : Outside} {pc : ProtocolConstants} {e e' : AppStateEnvelope} {st st' : Storage}

/-! ## Reference counts -/

/-- `update_pinboard_refcount_with_tx`: how many messages refer to a blob. -/
def update_pinboard_refcount_with_tx (counts : ExtTreeMap Text UInt64 compare) (content_key : Text)
    (delta : Int) : Except EldError (ExtTreeMap Text UInt64 compare) :=
  let current := counts.getD content_key 0
  let next := (current.toNat : Int) + delta
  if next < 0 then
    .error (.StorageError "update_pinboard_refcount_with_tx" ("refcount underflow for content_key="
      ++ String.ofList content_key ++ ": current=" ++ toString current ++ ", delta="
      ++ toString delta))
  else .ok (counts.insert content_key (UInt64.ofNat next.toNat))

/-- The staged counts of a block. -/
def updateRefcounts : List (Text × Int) → ExtTreeMap Text UInt64 compare →
    Except EldError (ExtTreeMap Text UInt64 compare)
  | [], counts => .ok counts
  | p :: rest, counts =>
    match update_pinboard_refcount_with_tx counts p.1 p.2 with
    | .error err => .error err
    | .ok counts' => updateRefcounts rest counts'

/-- A block only adds references. -/
def Counted (e : AppStateEnvelope) : Prop :=
  ∀ (key : Text) delta, e.pinboard_refcount_deltas[key]? = some delta → 0 < delta

theorem updateRefcounts_ok (l : List (Text × Int)) (h : ∀ p ∈ l, 0 < p.2)
    (counts : ExtTreeMap Text UInt64 compare) :
    ∃ counts', updateRefcounts l counts = .ok counts' := by
  induction l generalizing counts with
  | nil => exact ⟨counts, rfl⟩
  | cons p l ih =>
    have hp := h p List.mem_cons_self
    have hnext : ¬ ((counts.getD p.1 0).toNat : Int) + p.2 < 0 := by omega
    unfold updateRefcounts update_pinboard_refcount_with_tx
    simp only [if_neg hnext]
    exact ih (fun q hq => h q (List.mem_cons_of_mem _ hq)) _

/-- The counts of a good block never underflow. -/
theorem Counted.ok (h : Counted e) (counts : ExtTreeMap Text UInt64 compare) :
    ∃ counts', updateRefcounts e.pinboard_refcount_deltas.toList counts = .ok counts' := by
  apply updateRefcounts_ok
  intro p hp
  rw [finite_map.mem_toList] at hp
  exact h p.1 p.2 hp

theorem Counted.of_eq (h : Counted e)
    (heq : e'.pinboard_refcount_deltas = e.pinboard_refcount_deltas) : Counted e' := by
  intro key delta hd
  rw [heq] at hd
  exact h key delta hd

theorem Counted.of_empty (h : e.pinboard_refcount_deltas = ∅) : Counted e := by
  intro key delta hd
  rw [h] at hd
  simp at hd

theorem Counted.post (h : Counted e) (pm : PostMessageTx) :
    Counted (process_post_message_tx pc e pm).2 := by
  unfold process_post_message_tx
  split
  · exact h
  · intro key delta hd
    simp only [finite_map.get_insert] at hd
    split at hd
    · rename_i hkey
      have hprev : 0 ≤ e.pinboard_refcount_deltas.getD (postMetadata pc pm
          (asU64 (e.block_height.val + 1))).content_key 0 := by
        rw [ExtTreeMap.getD_eq_getD_getElem?]
        rcases hget : e.pinboard_refcount_deltas[(postMetadata pc pm
          (asU64 (e.block_height.val + 1))).content_key]? with _ | old
        · simp
        · have := h _ _ hget
          simp only [Option.getD_some]
          omega
      cases hd
      omega
    · exact h key delta hd

/-- Whatever the payload, the references only grow. -/
theorem process_counted {tx : Tx} (h : Counted e)
    (hout : Outcome o pc st e tx (tx.process o pc st e).1 (tx.process o pc st e).2) :
    Counted (tx.process o pc st e).2 := by
  by_cases hpost : ∃ pm, tx.payload.inner = .PostMessage pm
  · obtain ⟨pm, hinner⟩ := hpost
    simp only [Tx.process, hinner]
    exact h.post pm
  · have hpost : ∀ pm, tx.payload.inner ≠ .PostMessage pm := fun pm hpm => hpost ⟨pm, hpm⟩
    exact h.of_eq (congrArg StagedPosts.refcount_deltas (process_posts hpost hout))

/-! ## What a commit needs -/

/-- A block that has ended has its app hash, and no state takes references away. -/
structure Committable (n : Node) : Prop where
  hashed : n.phase = .ended → ∃ app_hash, n.state.app_hash.data = some app_hash
  counted : Counted n.state.envelope

theorem NodeStep.committable {n n' : Node} {r : Request} (h : NodeStep o pc n r n')
    (hg : NodeGood o n) (hn : Committable n) : Committable n' := by
  cases h with
  | begun phase =>
    have hcounted := hn.counted
    rw [state_of_idle phase] at hcounted
    exact ⟨fun hended => (by cases hended), hcounted⟩
  | turned_away => exact hn
  | @delivered tx s phase admitted =>
    refine ⟨fun hended => (by cases hended), ?_⟩
    obtain ⟨hcharged, _, hout⟩ := @NodeGood.of_admission o pc _ _ _ hg phase admitted
    obtain ⟨sender, rest, hcharged⟩ := hcharged
    have hpaid : Counted s.envelope := by
      rw [hcharged.staged]
      exact hn.counted.of_eq rfl
    exact process_counted hpaid hout
  | @ended height s s' out phase grows current ends =>
    obtain ⟨hstate, _⟩ := hg.of_current (by simp [phase]) current
    refine ⟨fun _ => ?_, ?_⟩
    · rcases endBlockState.spec ends with ⟨_, _, rfl⟩ | ⟨_, s2, _, _, rfl⟩
      · exact ⟨_, rfl⟩
      · exact ⟨_, rfl⟩
    · have hcounted := hn.counted
      rw [hstate] at hcounted
      exact hcounted.of_eq (congrArg StagedPosts.refcount_deltas (endBlock_posts ends))
  | @committed s c' phase current commits =>
    obtain ⟨_, hgood⟩ := hg.of_current (by simp [phase]) current
    have hstep := commit_inner.spec current hgood commits
    exact ⟨fun hended => (by cases hended), .of_empty hstep.envelope.pinboard_refcount_deltas⟩
  | uploaded content_key blob => exact ⟨hn.hashed, hn.counted⟩

theorem reachable_committable {cfg : GenesisConfig} {n : Node} (h : Reachable o pc cfg n) :
    Committable n := by
  obtain ⟨requests, hrun⟩ := h
  refine (runs.run_invariant _ (fun n => NodeGood o n ∧ Committable n) ?_ ?_ hrun).2
  · rintro m r m' ⟨hg, hm⟩ hstep
    have hcases := step_cases hstep
    exact ⟨hcases.good hg, hcases.committable hg hm⟩
  · refine ⟨genesis_good o pc cfg, fun hended => (by cases hended), ?_⟩
    obtain ⟨selected, cache, _, heq⟩ := genesis.spec o pc cfg
    apply Counted.of_empty
    change (genesis o pc cfg).conn.committed_state.envelope.pinboard_refcount_deltas = ∅
    rw [heq]
    rfl

/-! ## The writes of a commit -/

theorem storeTip_ok (o : Outside) (tx : Storage) (tip : AppStateTip) :
    ∃ tx', storeTip o tx tip = .ok tx' := by
  have hput : ∀ (st : Storage) (name : Bytes32) (cado : CadoBody StoredData),
      ∃ st', st.put_cado_type_with_tx o (.app_state_tip name) cado = .ok st' := by
    intro st name cado
    unfold Storage.put_cado_type_with_tx Storage.original_key
    rcases st.path_index[CadoPath.app_state_tip name]? with _ | key <;> exact ⟨_, rfl⟩
  unfold storeTip
  obtain ⟨tx₁, h₁⟩ := hput tx (tip.to_cado o).hash_bytes (tip.to_cado o)
  simp only [h₁]
  exact hput tx₁ LATEST (tip.to_cado o)

theorem storeSnapshot_ok (o : Outside) (pc : ProtocolConstants) (tx : Storage) {s : AppState}
    {app_hash : Bytes32} (h : s.app_hash.data = some app_hash) :
    ∃ tx', storeSnapshot o pc tx s = .ok tx' := by
  unfold storeSnapshot
  split
  · simp only [AppStateSnapshot.new, AppHash.bytes, h]
    unfold Storage.put_cado_type_with_tx Storage.original_key
    rcases tx.path_index[AppStateSnapshot.latest_path o]? with _ | key <;> exact ⟨_, rfl⟩
  · exact ⟨tx, rfl⟩

/-- The staged writes of a good state go through exactly when every blob is there. -/
theorem writeStaged_ok_iff (hg : Good o e st) :
    (∃ done, writeStaged o st e = .ok done) ↔ missingBlobs st e = [] := by
  obtain ⟨tx₁, hput, _, _⟩ := putStaged.spec hg.staged st
  unfold writeStaged
  rw [hg.staged.no_deletes, deletePending]
  simp only [dropDeleted_of_good hg.staged, hput]
  rcases missingBlobs st e with _ | ⟨p, rest⟩
  · simp
  · simp

/-- The state that the commit of a good state commits. It does not depend on the blobs. -/
def AppState.merged (o : Outside) (pc : ProtocolConstants) (s : AppState) : AppState :=
  { s with envelope := { mergeStaged o (registeredState o (selectForNextEpoch pc s.envelope)) with
    cado_cache := ∅ } }

/-- The node holds the blob of every message of the open block. -/
def HoldsBlobs (st : Storage) (e : AppStateEnvelope) : Prop :=
  ∀ (id : Text) metadata, e.pinboard_meta_cache[id]? = some metadata →
    metadata.content_key ∈ st.pinboard_temp_blobs

theorem missingBlobs_nil_iff : missingBlobs st e = [] ↔ HoldsBlobs st e := by
  unfold missingBlobs HoldsBlobs
  rw [List.filter_eq_nil_iff]
  constructor
  · intro h id metadata hid
    have := h (id, metadata) ((finite_map.mem_toList _ _).mpr hid)
    simpa using this
  · rintro h ⟨id, metadata⟩ hmem
    rw [finite_map.mem_toList] at hmem
    have := h id metadata hmem
    simpa using this

theorem commit_inner_ok_iff {c : ConsensusConnection} {s : AppState} {app_hash : Bytes32}
    (hs : c.current_state = some s) (hg : Good o s.envelope c.storage)
    (happ : s.app_hash.data = some app_hash) :
    (∃ c', commit_inner o pc c = .ok c') ↔ HoldsBlobs c.storage s.envelope := by
  have hselect : missingBlobs c.storage (selectForNextEpoch pc s.envelope) =
      missingBlobs c.storage s.envelope := by
    rw [selectForNextEpoch_eq]
    rfl
  have hwrite := writeStaged_ok_iff (good_selectForNextEpoch pc hg)
  rw [hselect, missingBlobs_nil_iff] at hwrite
  rw [← hwrite]
  unfold commit_inner
  simp only [hs, happ]
  rcases writeStaged o c.storage (selectForNextEpoch pc s.envelope) with err | ⟨tx, e₁⟩
  · simp
  · obtain ⟨tx₁, htip⟩ := storeTip_ok o tx ⟨e₁.block_height, e₁.state_trie.root_hash, app_hash⟩
    obtain ⟨tx₂, hsnap⟩ := storeSnapshot_ok o pc tx₁
      (show ({ s with envelope := e₁ } : AppState).app_hash.data = some app_hash from happ)
    simp [htip, hsnap]

theorem commit_inner_merged {c c' : ConsensusConnection} {s : AppState}
    (hs : c.current_state = some s) (hg : Good o s.envelope c.storage)
    (h : commit_inner o pc c = .ok c') : c'.committed_state = s.merged o pc :=
  (commit_inner.writes hs hg h).1

/-! ## Every run -/

/-- A node with other blobs. -/
def Node.withBlobs (n : Node) (blobs : ExtTreeMap Text Bytes compare) : Node :=
  ⟨n.phase, { n.conn with storage := { n.conn.storage with pinboard_temp_blobs := blobs } }⟩

/-- The commit of the open block is not fatal, and another node that holds other blobs and
commits the block commits the same state. -/
structure CommitsSafely (o : Outside) (pc : ProtocolConstants) (n : Node) : Prop where
  completes : ∃ c', commit_inner o pc n.conn = .ok c'
  counts : ∀ counts, ∃ counts',
    updateRefcounts n.state.envelope.pinboard_refcount_deltas.toList counts = .ok counts'
  agrees : ∀ blobs c' c'', commit_inner o pc n.conn = .ok c' →
    commit_inner o pc (n.withBlobs blobs).conn = .ok c'' → c''.committed_state = c'.committed_state

theorem commits_safely_iff {cfg : GenesisConfig} {n : Node} (h : Reachable o pc cfg n)
    (hphase : n.phase = .ended) :
    CommitsSafely o pc n ↔ HoldsBlobs n.conn.storage n.state.envelope := by
  have hgood := reachable_good h
  have hready := reachable_committable h
  obtain ⟨s, hs, hg⟩ := hgood.current (by simp [hphase])
  have hstate := state_of_current (by simp [hphase]) hs
  obtain ⟨app_hash, happ⟩ := hready.hashed hphase
  rw [hstate] at happ
  have hiff := @commit_inner_ok_iff o pc _ _ _ hs hg happ
  rw [← hstate] at hiff
  constructor
  · intro hsafe
    exact hiff.mp hsafe.completes
  · intro hblobs
    refine ⟨hiff.mpr hblobs, hready.counted.ok, fun blobs c' c'' h' h'' => ?_⟩
    have hother : Good o s.envelope (n.withBlobs blobs).conn.storage := hg.of_aside rfl
    have hs' : (n.withBlobs blobs).conn.current_state = some s := hs
    rw [commit_inner_merged hs hg h', commit_inner_merged hs' hother h'']

/-- In a run no commit is fatal exactly when at each of them the node holds the blob of every
message of the block. -/
theorem only_a_missing_blob_is_fatal (o : Outside) (pc : ProtocolConstants) (cfg : GenesisConfig)
    (requests : List Request) :
    (∀ earlier n, RunsTo o pc cfg earlier n → n.phase = .ended →
      earlier ++ [.Commit] <+: requests → CommitsSafely o pc n) ↔
    ∀ earlier n, RunsTo o pc cfg earlier n → n.phase = .ended →
      earlier ++ [.Commit] <+: requests → HoldsBlobs n.conn.storage n.state.envelope := by
  constructor
  · intro h earlier n hrun hphase hp
    exact (commits_safely_iff ⟨earlier, hrun⟩ hphase).mp (h earlier n hrun hphase hp)
  · intro h earlier n hrun hphase hp
    exact (commits_safely_iff ⟨earlier, hrun⟩ hphase).mpr (h earlier n hrun hphase hp)

theorem plainText_allowed :
    validate_post_message_content_type "text/plain".toList = .ok () := by decide +kernel

/-- Alice posts a message about the blob `k`. -/
def alicePosts (nonce : UInt32) : Tx :=
  signed 1 nonce "PostMessage" (.PostMessage {
    sender := alice
    original_signer := alice
    original_signer_pubkey := hexDigits 64 1
    content_key := "k".toList
    message_id := "m".toList
    expires_height := 0
    visibility := "public".toList
    topic := none
    tags := []
    content_type := "text/plain".toList
    fee_amount := 0
    received_timestamp := 0
    user_signature := "00".toList
    namespace_ := none
    fee_amount_lt := zero_lt_u128
    content_type_allowed := plainText_allowed
    tags_canonical := rfl
    namespace_resolved := rfl })

/-- Alice uploads her blob and posts it in two blocks. -/
def postedTwice : List Request :=
  .UploadBlob "k".toList [1] :: block (smallHeight 1) [alicePosts 1] ++
    [.BeginBlock, .DeliverTx (.ok (alicePosts 2)), .EndBlock (smallHeight 2)]

/-- The first commit takes the blob away, so the second one is fatal. A node that gets the blob
again in time goes on. -/
theorem postedTwice_is_fatal :
    ∃ n, RunsTo Outside.toy smallConstants smallConfig postedTwice n ∧ n.phase = .ended ∧
      ¬ CommitsSafely Outside.toy smallConstants n ∧
      ∃ n', RunsTo Outside.toy smallConstants smallConfig
        (postedTwice ++ [.UploadBlob "k".toList [1], .Commit]) n' := by
  obtain ⟨n, hn, hfatal⟩ := @smallRun_ends postedTwice (fun n => n.phase == .ended &&
    !(commit_inner Outside.toy smallConstants n.conn).isOk) (by decide +kernel)
  obtain ⟨n', hn', _⟩ := @smallRun_ends (postedTwice ++ [.UploadBlob "k".toList [1], .Commit])
    (fun _ => true) (by decide +kernel)
  simp only [Bool.and_eq_true, beq_iff_eq] at hfatal
  refine ⟨n, hn, hfatal.1, fun hsafe => ?_, n', hn'⟩
  obtain ⟨c', hc'⟩ := hsafe.completes
  rw [hc'] at hfatal
  cases hfatal.2

end eld_chain
