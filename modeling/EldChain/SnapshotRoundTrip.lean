-- The law of the epoch snapshot. It is taken only where a rebuild ends with
-- the root of the state, and applied to a fresh state it then gives back
-- every field of the committed state it was made from, with one exception.
-- The counts of failed proofs are hashed and read by the processors, but
-- the snapshot does not carry them.
import EldChain.Rebuild

open Std

namespace eld_chain

variable {o : Outside} {pc : ProtocolConstants} {e : AppStateEnvelope} {st : Storage}

/-! ## What a snapshot gives back -/

theorem without_infrastructure_eq (h : GoodCommitted o e st) :
    without_infrastructure e.committed_cado_cache = e.committed_cado_cache := by
  apply ExtTreeMap.ext_getElem?
  intro p
  unfold without_infrastructure
  rw [ExtTreeMap.getElem?_filter']
  rcases hb : e.committed_cado_cache[p]? with _ | b
  · rfl
  · rw [Option.filter_some, (h.objects p b hb).not_infrastructure]
    rfl

/-- A state with no failed proofs on record. -/
def AppState.withoutFailures (s : AppState) : AppState :=
  { s with envelope := { s.envelope with failed_proof_counts := ∅ } }

theorem withoutFailures_of_none {s : AppState} (h : s.envelope.failed_proof_counts = ∅) :
    s.withoutFailures = s := by
  unfold AppState.withoutFailures
  rw [← h]

/-- A state to restore into: nothing staged, and no failed proofs. -/
structure Fresh (e : AppStateEnvelope) : Prop extends Cleared e where
  failed_proof_counts : e.failed_proof_counts = ∅

/-- A start applies the snapshot to the empty state at the height of the tip. -/
theorem default_fresh (height : I64) :
    Fresh { AppStateEnvelope.default with block_height := height } :=
  ⟨⟨rfl, rfl, rfl, rfl, rfl, rfl, rfl, rfl, rfl, rfl, rfl⟩, rfl⟩

theorem new_eq_snapshot {s : AppState} {app_hash : Bytes32} (h : s.app_hash.data = some app_hash) :
    AppStateSnapshot.new s = .ok (s.snapshot app_hash) := by
  unfold AppStateSnapshot.new AppHash.bytes
  rw [h]

/-- The trie of the state is that of its greatest committed path alone. -/
def AppStateEnvelope.HoldsGreatest (o : Outside) (e : AppStateEnvelope) : Prop :=
  e.state_trie = e.greatestTrie o

theorem restore_snapshot {s : AppState} (hg : GoodCommitted o s.envelope st)
    (hc : Cleared s.envelope) {e₀ : AppStateEnvelope} (h₀ : Fresh e₀) (app_hash : Bytes32) :
    (s.snapshot app_hash).restore o e₀ =
      { s.withoutFailures.envelope with state_trie := s.envelope.greatestTrie o } := by
  have htrie : s.envelope.committed_cado_cache.toList.foldl
      (fun t p => t.insert o p.1 p.2.content_hash) .empty = s.envelope.greatestTrie o :=
    rebuilt_trie o s.envelope
  simp only [AppStateSnapshot.restore, AppState.snapshot, AppState.withoutFailures,
    without_infrastructure_eq hg, AppStateEnvelope.rebuild_state_trie_from_cache, htrie]
  obtain ⟨h1, h2, h3, h4, h5, h6, h7, h8, h9, h10, h11⟩ := hc
  simp only [h1, h2, h3, h4, h5, h6, h7, h8, h9, h10, h11,
    h₀.cado_cache, h₀.cado_cache_to_delete, h₀.pinboard_meta_cache, h₀.pinboard_refcount_deltas,
    h₀.pinboard_idx_wallet_add, h₀.pinboard_idx_tag_add, h₀.pinboard_idx_expiry_add,
    h₀.pinboard_idx_commit_add, h₀.verified_proof_rewarded_cache, h₀.failed_proof_counted_cache,
    h₀.namespace_registry_cache, h₀.failed_proof_counts]

/-- Applying the snapshot of a committed state gives the state back, less its counts, where a
rebuild gives its trie. -/
theorem apply_snapshot {s s₀ : AppState} (hg : GoodCommitted o s.envelope st)
    (hc : Cleared s.envelope) {app_hash : Bytes32} (happ : s.app_hash.data = some app_hash)
    (h₀ : Fresh s₀.envelope) (htrie : s.envelope.HoldsGreatest o) :
    (s.snapshot app_hash).apply_to_state o s₀ s.envelope.state_trie.root_hash =
      .ok s.withoutFailures := by
  have hrestored : (s.snapshot app_hash).restore o s₀.envelope = s.withoutFailures.envelope := by
    rw [restore_snapshot hg hc h₀, ← htrie]
    rfl
  unfold AppStateSnapshot.apply_to_state
  simp only [hrestored]
  have hroot : s.withoutFailures.envelope.state_trie.root_hash =
      s.envelope.state_trie.root_hash := rfl
  have hsaved : (s.snapshot app_hash).state_trie_root = s.envelope.state_trie.root_hash := rfl
  rw [hroot, hsaved, if_neg (by simp), if_neg (by simp)]
  congr 1
  have hhash : (⟨some app_hash⟩ : AppHash) = s.app_hash := by
    rw [← happ]
  exact congrArg (fun a => (⟨a, s.withoutFailures.envelope, s.chain_id⟩ : AppState)) hhash

/-- A snapshot is refused where a rebuild does not give the trie. -/
theorem holdsGreatest_of_apply {s s₀ s' : AppState} (hg : GoodCommitted o s.envelope st)
    (hc : Cleared s.envelope) {app_hash : Bytes32} (h₀ : Fresh s₀.envelope)
    (h : (s.snapshot app_hash).apply_to_state o s₀ s.envelope.state_trie.root_hash = .ok s') :
    s.envelope.HoldsGreatest o := by
  unfold AppStateSnapshot.apply_to_state at h
  simp only [restore_snapshot hg hc h₀] at h
  split at h
  · cases h
  · rename_i hroot
    exact (congrArg StateTrie.mk (not_ne_iff.mp hroot)).symm

/-! ## The round trip -/

/-- The snapshot of `s`, applied to a freshly initialised state, gives `s` back. -/
def RoundTrips (o : Outside) (s : AppState) : Prop :=
  ∃ sn s', AppStateSnapshot.new s = .ok sn ∧
    sn.apply_to_state o AppState.default (s.envelope.state_trie.root_hash) = .ok s' ∧
    s'.envelope.calculate_app_hash o = s.envelope.calculate_app_hash o ∧ s' = s

/-- The state that a run has just committed. -/
theorem just_committed {cfg : GenesisConfig} {requests : List Request} {n : Node}
    (hrun : RunsTo o pc cfg (requests ++ [.Commit]) n) :
    ∃ app_hash, n.conn.committed_state.app_hash.data = some app_hash ∧
      Cleared n.conn.committed_state.envelope ∧
      GoodCommitted o n.conn.committed_state.envelope n.conn.storage := by
  obtain ⟨m, s, _, _, _, _, hstep, _⟩ := commit_of_run hrun
  obtain ⟨app_hash, _, _, happ, _⟩ := hstep.storage
  exact ⟨app_hash, by rw [hstep.app_hash, happ], hstep.envelope.toCleared,
    (reachable_good ⟨_, hrun⟩).committed.committed⟩

/-- The snapshot of a committed state is a round trip exactly when no provider has a failed
proof on record and the trie is that of the greatest committed path. -/
theorem a_snapshot_restores_its_state (o : Outside) (pc : ProtocolConstants)
    (cfg : GenesisConfig) (requests : List Request) (n : Node)
    (hrun : RunsTo o pc cfg (requests ++ [.Commit]) n) :
    RoundTrips o n.conn.committed_state ↔
      n.conn.committed_state.envelope.failed_proof_counts = ∅ ∧
        n.conn.committed_state.envelope.HoldsGreatest o := by
  obtain ⟨app_hash, happ, hcleared, hgood⟩ := just_committed hrun
  have happly := @apply_snapshot _ _ _ AppState.default hgood hcleared _ happ (default_fresh _)
  constructor
  · rintro ⟨sn, s', hnew, hs', _, heq⟩
    rw [new_eq_snapshot happ] at hnew
    cases hnew
    have htrie := holdsGreatest_of_apply hgood hcleared (default_fresh _) hs'
    rw [happly htrie] at hs'
    cases hs'
    refine ⟨?_, htrie⟩
    rw [← heq]
    rfl
  · rintro ⟨hcounts, htrie⟩
    have hsame := withoutFailures_of_none hcounts
    exact ⟨_, _, new_eq_snapshot happ, happly htrie, by rw [hsame], hsame⟩

instance : Decidable (e.HoldsGreatest o) :=
  inferInstanceAs (Decidable (e.state_trie = e.greatestTrie o))

theorem a_snapshot_restores_its_state_on_stakingBlocks :
    ∃ n, RunsTo Outside.toy smallConstants smallConfig (stakingBlocks ++ [.Commit]) n ∧
      RoundTrips Outside.toy n.conn.committed_state := by
  obtain ⟨n, hn, heval⟩ := @smallRun_ends (stakingBlocks ++ [.Commit]) (fun n =>
      n.conn.committed_state.envelope.failed_proof_counts.isEmpty &&
        decide (n.conn.committed_state.envelope.HoldsGreatest Outside.toy)) (by decide +kernel)
  obtain ⟨hcounts, htrie⟩ := Bool.and_eq_true_iff.mp heval
  exact ⟨n, hn, (a_snapshot_restores_its_state Outside.toy smallConstants smallConfig
    stakingBlocks n hn).mpr ⟨ExtTreeMap.isEmpty_iff.mp hcounts, of_decide_eq_true htrie⟩⟩

/-- Alice fails her first challenge, and the next block opens the second epoch. -/
def failedProofBlocks : List Request :=
  firstEpoch ++ [firstAnswer false, .EndBlock (smallHeight 3), .Commit, .BeginBlock,
    .EndBlock (smallHeight 4)]

/-- The failure that is on record when the fourth block commits is not in its snapshot, and the
snapshot of a block with a namespace is refused. -/
theorem failedProofBlocks_lose_a_count :
    (∃ n sn s', RunsTo Outside.toy smallConstants smallConfig (failedProofBlocks ++ [.Commit]) n ∧
      AppStateSnapshot.new n.conn.committed_state = .ok sn ∧
      sn.apply_to_state Outside.toy AppState.default
        n.conn.committed_state.envelope.state_trie.root_hash = .ok s' ∧
      n.conn.committed_state.envelope.failed_proof_counts[alice]? = some 1 ∧
      s'.envelope.failed_proof_counts[alice]? = none ∧
      ¬ RoundTrips Outside.toy n.conn.committed_state) ∧
    ∃ n, RunsTo Outside.toy smallConstants smallConfig (namespaceBlocks ++ [.Commit]) n ∧
      n.conn.committed_state.envelope.failed_proof_counts = ∅ ∧
      ¬ RoundTrips Outside.toy n.conn.committed_state := by
  refine ⟨?_, ?_⟩
  · obtain ⟨n, hn, heval⟩ := @smallRun_ends (failedProofBlocks ++ [.Commit]) (fun n =>
        n.conn.committed_state.envelope.failed_proof_counts[alice]? == some 1 &&
          decide (n.conn.committed_state.envelope.HoldsGreatest Outside.toy)) (by decide +kernel)
    obtain ⟨hcount, htrie⟩ := Bool.and_eq_true_iff.mp heval
    have hcount := beq_iff_eq.mp hcount
    obtain ⟨app_hash, happ, hcleared, hgood⟩ := just_committed hn
    have happly := @apply_snapshot _ _ _ AppState.default hgood hcleared _ happ (default_fresh _)
      (of_decide_eq_true htrie)
    refine ⟨n, _, _, hn, new_eq_snapshot happ, happly, hcount, ?_, ?_⟩
    · simp [AppState.withoutFailures]
    · rintro ⟨sn, s', hnew, hs', _, heq⟩
      rw [new_eq_snapshot happ] at hnew
      cases hnew
      rw [happly] at hs'
      cases hs'
      rw [← heq] at hcount
      simp [AppState.withoutFailures] at hcount
  · obtain ⟨n, hn, heval⟩ := @smallRun_ends (namespaceBlocks ++ [.Commit]) (fun n =>
        n.conn.committed_state.envelope.failed_proof_counts.isEmpty &&
          !decide (n.conn.committed_state.envelope.HoldsGreatest Outside.toy)) (by decide +kernel)
    obtain ⟨hcounts, htrie⟩ := Bool.and_eq_true_iff.mp heval
    have hrefused := of_decide_eq_false ((Bool.not_eq_true' _).mp htrie)
    refine ⟨n, hn, ExtTreeMap.isEmpty_iff.mp hcounts, ?_⟩
    rintro ⟨sn, s', hnew, hs', _⟩
    obtain ⟨app_hash, happ, hcleared, hgood⟩ := just_committed hn
    rw [new_eq_snapshot happ] at hnew
    cases hnew
    exact hrefused (holdsGreatest_of_apply hgood hcleared (default_fresh _) hs')

end eld_chain
