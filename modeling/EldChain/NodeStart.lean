-- The life of a node: calls, starts on its own database, and rebuilds of
-- the indexes. Whatever comes between, a start that succeeds gives back
-- what the node committed last, less its counts of failed proofs.
import EldChain.Restart

open Std

namespace eld_chain

/-! ## Starting on a database -/

def Storage.has_persisted_app_state_tip (o : Outside) (st : Storage) : Except EldError Bool :=
  match st.get_cado_by_path o (.app_state_tip LATEST) with
  | .error err => .error err
  | .ok found => .ok found.isSome

/-- A node that starts on a database. Where no tip was persisted the start is a fresh one, and
Tendermint calls InitChain. -/
def Node.start (o : Outside) (pc : ProtocolConstants) (cfg : GenesisConfig) (st : Storage) :
    Except EldError Node :=
  match st.has_persisted_app_state_tip o with
  | .error err => .error err
  | .ok false => .ok ⟨.idle, ⟨(genesis o pc cfg).conn.committed_state, none, st⟩⟩
  | .ok true =>
    match AppState.default.initialize_with_data o st with
    | .error err => .error err
    | .ok s => .ok ⟨.idle, ⟨s, none, st⟩⟩

/-- Both indexes, rebuilt from the committed objects. -/
def AppStateEnvelope.rebuild_indexes (e : AppStateEnvelope) : Except EldError AppStateEnvelope :=
  match namespace_registry_index_from_committed_cache e.committed_cado_cache with
  | .error err => .error err
  | .ok index => .ok { e.rebuild_epoch_records_index with namespace_registry_index := index }

inductive LifeEvent
  | call (r : Request)
  | restart
  | rebuild

/-- One event. A start that fails ends the node, and a failed rebuild changes nothing. -/
def Node.live (o : Outside) (pc : ProtocolConstants) (cfg : GenesisConfig) (n : Node) :
    LifeEvent → Option Node
  | .call r => n.step o pc r
  | .restart => (Node.start o pc cfg n.conn.storage).toOption
  | .rebuild =>
    match n.conn.committed_state.envelope.rebuild_indexes with
    | .error _ => some n
    | .ok e => some ⟨n.phase, { n.conn with
        committed_state := { n.conn.committed_state with envelope := e } }⟩

variable {o : Outside} {pc : ProtocolConstants} {cfg : GenesisConfig}
variable {st st' : Storage} {n n' : Node}

/-! ## What a commit leaves in the database -/

/-- The database against the committed state: the only tip it can be read to hold is the one
of that state, and at an epoch boundary the same goes for the snapshot. -/
structure SavedState (o : Outside) (pc : ProtocolConstants) (s : AppState) (st : Storage)
    (app_hash : Bytes32) : Prop where
  cleared : Cleared s.envelope
  hash : s.app_hash.data = some app_hash
  indexed : st.path_index[CadoPath.app_state_tip LATEST]? =
    some ((CadoPath.app_state_tip LATEST).fixedKey o)
  stored : st.cado[(CadoPath.app_state_tip LATEST).fixedKey o]?.isSome = true
  tips : ∀ b t, st.cado[(CadoPath.app_state_tip LATEST).fixedKey o]? = some b →
    b.data = .app_state_tip t → t = s.tip app_hash
  snapshots : s.envelope.block_height.val % pc.blocks_per_epoch.val = 0 → ∀ b sn,
    st.cado[(AppStateSnapshot.latest_path o).fixedKey o]? = some b →
    b.data = .app_state_snapshot sn → sn = s.snapshot app_hash

theorem storeSnapshot_saved {s : AppState} {app_hash : Bytes32} (hg : GoodStorage o pc st)
    (hcleared : Cleared s.envelope) (hhash : s.app_hash.data = some app_hash)
    (htip : st.Holds o (.app_state_tip LATEST) ((s.tip app_hash).to_cado o))
    (h : storeSnapshot o pc st s = .ok st') : SavedState o pc s st' app_hash := by
  unfold storeSnapshot at h
  rw [new_eq_snapshot hhash] at h
  by_cases hboundary : s.envelope.block_height.val % pc.blocks_per_epoch.val = 0
  · rw [if_pos hboundary] at h
    have hput := put_fixed hg rfl h
    subst hput
    have hpath : AppStateSnapshot.latest_path o ≠ .app_state_tip LATEST := by
      simp [AppStateSnapshot.latest_path]
    refine ⟨hcleared, hhash, ?_, ?_, ?_, ?_⟩
    · exact (finite_map.get_insert_of_ne _ _ hpath).trans htip.1
    · rw [finite_map.get_insert]
      split
      · rfl
      · rw [htip.2]
        rfl
    · intro b t hb hdata
      rw [finite_map.get_insert, htip.2] at hb
      split at hb
      · -- the snapshot took the key of the tip, so no tip can be read
        cases hb
        cases hdata
      · cases hb
        cases hdata
        rfl
    · intro _ b sn hb hdata
      rw [finite_map.get_insert, if_pos rfl] at hb
      cases hb
      cases hdata
      rfl
  · rw [if_neg hboundary] at h
    cases h
    refine ⟨hcleared, hhash, htip.1, by rw [htip.2]; rfl, ?_, fun hb => absurd hb hboundary⟩
    intro b t hb hdata
    rw [htip.2] at hb
    cases hb
    cases hdata
    rfl

theorem CommitStep.saved {s : AppState} {c c' : ConsensusConnection} (h : CommitStep o pc s c c')
    (hg : GoodStorage o pc c.storage) :
    ∃ app_hash, SavedState o pc c'.committed_state c'.storage app_hash := by
  obtain ⟨app_hash, tx, tx₁, happ, hg₁, hg₂, htip, hsnap⟩ := h.good_storages hg
  exact ⟨app_hash, storeSnapshot_saved hg₂ h.envelope.toCleared happ (storeTip_holds hg₁ htip) hsnap⟩

/-! ## What a start gives back -/

/-- The latest tip is in the database, so a read of it never says that it is not found. -/
theorem SavedState.read_tip {s : AppState} {app_hash : Bytes32} (h : SavedState o pc s st app_hash) :
    (∃ operation details, st.get_cado_by_path o (.app_state_tip LATEST) =
        .error (.StorageError operation details)) ∨
      ∃ b, st.cado[(CadoPath.app_state_tip LATEST).fixedKey o]? = some b ∧
        st.get_cado_by_path o (.app_state_tip LATEST) = .ok (some b) := by
  obtain ⟨b, hb⟩ := Option.isSome_iff_exists.mp h.stored
  unfold Storage.get_cado_by_path
  rw [h.indexed]
  simp only [hb]
  unfold deserialize_stored_cado_type
  simp only
  by_cases hsize : (o.serialize_body b).length = 0 ∨
      maxStoredSize (.app_state_tip LATEST) < (o.serialize_body b).length
  · rw [if_pos hsize]
    exact Or.inl ⟨_, _, rfl⟩
  · rw [if_neg hsize]
    have hfixed : (CadoPath.app_state_tip LATEST).has_fixed_key = true := rfl
    simp only [generate_fixed_key hfixed, if_true]
    exact Or.inr ⟨b, rfl, rfl⟩

/-- A start that succeeds on the database of a committed state restores from its tip. -/
theorem SavedState.restores {s s' : AppState} {app_hash : Bytes32} (h : SavedState o pc s st app_hash)
    (hinit : AppState.default.initialize_with_data o st = .ok s') :
    restoreFromTip o ⟨⟨some (s.tip app_hash).app_hash⟩, { AppStateEnvelope.default with
      block_height := (s.tip app_hash).block_height }, ""⟩ st (s.tip app_hash) = .ok s' := by
  unfold AppState.initialize_with_data Storage.get_deserialized_cado_by_path at hinit
  rcases h.read_tip with ⟨_, _, hread⟩ | ⟨b, hb, hread⟩
  · rw [hread] at hinit
    cases hinit
  · rw [hread] at hinit
    cases hdata : b.data with
    | app_state_tip t =>
      cases h.tips b t hb hdata
      simp only [AppStateTip.deserialize_bin, hdata] at hinit
      exact hinit
    | _ =>
      simp only [AppStateTip.deserialize_bin, hdata] at hinit
      cases hinit

/-- A start that succeeds on the database of a committed state gives the state back, less its
counts of failed proofs. -/
theorem SavedState.start {s : AppState} {app_hash : Bytes32} (h : SavedState o pc s st app_hash)
    (hg : GoodStorage o pc st) (hgood : GoodCommitted o s.envelope st)
    (hstart : Node.start o pc cfg st = .ok n) :
    n = ⟨.idle, ⟨s.withoutFailures, none, st⟩⟩ := by
  unfold Node.start Storage.has_persisted_app_state_tip at hstart
  rcases h.read_tip with ⟨_, _, hread⟩ | ⟨b, _, hread⟩
  · rw [hread] at hstart
    cases hstart
  · rw [hread] at hstart
    simp only [Option.isSome_some] at hstart
    cases hinit : AppState.default.initialize_with_data o st with
    | error err =>
      rw [hinit] at hstart
      cases hstart
    | ok s' =>
      rw [hinit] at hstart
      cases hstart
      obtain ⟨sn, hread, hrestore⟩ := restoreFromTip_ok (h.restores hinit)
      obtain ⟨key, b, hi, hc, hdata, _⟩ := read_snapshot hread
      have hheight : sn.block_height = s.envelope.block_height := restoreFromSnapshot_height hrestore
      have hboundary : s.envelope.block_height.val % pc.blocks_per_epoch.val = 0 := by
        rw [← hheight]
        exact hg.snapshots key b sn hc hdata
      rw [hg.keys _ key rfl hi] at hc
      cases h.snapshots hboundary b sn hc hdata
      unfold restoreFromSnapshot at hrestore
      have hsame : (s.snapshot app_hash).block_height = (s.tip app_hash).block_height := rfl
      have hhash : (s.snapshot app_hash).app_hash = (s.tip app_hash).app_hash := rfl
      rw [if_neg (not_ne_iff.mpr hsame), if_neg (not_ne_iff.mpr hhash)] at hrestore
      have htrie := holdsGreatest_of_apply hgood h.cleared (default_fresh _) hrestore
      have happly := @apply_snapshot o st s ⟨⟨some app_hash⟩, { AppStateEnvelope.default with
        block_height := s.envelope.block_height }, ""⟩ hgood h.cleared app_hash h.hash
        (default_fresh _) htrie
      cases happly.symm.trans hrestore
      rfl

/-! ## The life of a node -/

/-- What holds of a node through its life: it is good, and its database is the one of its
committed state, or still without any object. -/
structure Alive (o : Outside) (pc : ProtocolConstants) (cfg : GenesisConfig) (n : Node) :
    Prop where
  good : NodeGood o n
  storage : GoodStorage o pc n.conn.storage
  saved : (n.conn.storage.path_index = ∅ ∧
      n.conn.committed_state = (genesis o pc cfg).conn.committed_state) ∨
    ∃ app_hash, SavedState o pc n.conn.committed_state n.conn.storage app_hash

theorem genesis_alive (o : Outside) (pc : ProtocolConstants) (cfg : GenesisConfig) :
    Alive o pc cfg (genesis o pc cfg) :=
  ⟨genesis_good o pc cfg, goodStorage_empty o pc, Or.inl ⟨rfl, rfl⟩⟩

/-- A start that succeeds leaves the database alone and gives the committed state back, less
its counts of failed proofs if need be. -/
theorem Alive.start (h : Alive o pc cfg n) (hstart : Node.start o pc cfg n.conn.storage = .ok n') :
    n'.phase = .idle ∧ n'.conn.current_state = none ∧ n'.conn.storage = n.conn.storage ∧
      (n'.conn.committed_state = n.conn.committed_state ∨
        n'.conn.committed_state = n.conn.committed_state.withoutFailures ∧
          ∃ app_hash, SavedState o pc n.conn.committed_state n.conn.storage app_hash) := by
  rcases h.saved with ⟨hempty, hsame⟩ | ⟨app_hash, hsaved⟩
  · have hread : n.conn.storage.get_cado_by_path o (.app_state_tip LATEST) = .ok none := by
      unfold Storage.get_cado_by_path
      rw [hempty]
      simp
    unfold Node.start Storage.has_persisted_app_state_tip at hstart
    rw [hread] at hstart
    cases hstart
    exact ⟨rfl, rfl, rfl, Or.inl hsame.symm⟩
  · rw [hsaved.start h.storage h.good.committed.committed hstart]
    exact ⟨rfl, rfl, rfl, Or.inr ⟨rfl, app_hash, hsaved⟩⟩

/-- A rebuild from the committed objects changes nothing. -/
theorem rebuild_indexes_eq {e : AppStateEnvelope} (h : GoodCommitted o e st) :
    e.rebuild_indexes = .ok e := by
  unfold AppStateEnvelope.rebuild_indexes
  rw [namespaces_eq_rebuilt h]
  have hepochs := epochs_eq_rebuilt h
  simp only [Except.ok.injEq]
  unfold AppStateEnvelope.rebuild_epoch_records_index
  rw [← hepochs]

theorem Good.withoutFailures {s : AppState} (h : Good o s.envelope st) :
    Good o s.withoutFailures.envelope st :=
  ⟨⟨h.staged.objects, h.staged.slugs, h.staged.no_deletes, h.staged.registered⟩,
    h.committed.of_same ⟨rfl, rfl, rfl, rfl⟩⟩

theorem SavedState.withoutFailures {s : AppState} {app_hash : Bytes32} (h : SavedState o pc s st app_hash) :
    SavedState o pc s.withoutFailures st app_hash :=
  ⟨⟨h.cleared.1, h.cleared.2, h.cleared.3, h.cleared.4, h.cleared.5, h.cleared.6, h.cleared.7,
    h.cleared.8, h.cleared.9, h.cleared.10, h.cleared.11⟩, h.hash, h.indexed, h.stored, h.tips,
    h.snapshots⟩

/-- What only reads the objects of the database. -/
theorem SavedState.of_aside {s : AppState} {app_hash : Bytes32} (h : SavedState o pc s st app_hash)
    (hi : st'.path_index = st.path_index) (hc : st'.cado = st.cado) :
    SavedState o pc s st' app_hash :=
  ⟨h.cleared, h.hash, by rw [hi]; exact h.indexed, by rw [hc]; exact h.stored,
    by rw [hc]; exact h.tips, by rw [hc]; exact h.snapshots⟩

theorem Alive.call (h : Alive o pc cfg n) {r : Request} (hstep : NodeStep o pc n r n') :
    Alive o pc cfg n' := by
  refine ⟨hstep.good h.good, hstep.goodStorage h.good h.storage, ?_⟩
  cases hstep with
  | begun => exact h.saved
  | turned_away => exact h.saved
  | delivered => exact h.saved
  | ended => exact h.saved
  | committed phase current commits =>
    obtain ⟨_, hgood⟩ := h.good.of_current (by simp [phase]) current
    exact Or.inr ((commit_inner.spec current hgood commits).saved h.storage)
  | uploaded =>
    rcases h.saved with hempty | ⟨app_hash, hsaved⟩
    · exact Or.inl hempty
    · exact Or.inr ⟨app_hash, hsaved.of_aside rfl rfl⟩

/-- What an event of a life does. -/
theorem live.spec (h : Alive o pc cfg n) {event : LifeEvent}
    (hlive : n.live o pc cfg event = some n') :
    (∃ r, event = .call r ∧ NodeStep o pc n r n') ∨
    (event = .restart ∧ n'.phase = .idle ∧ n'.conn.current_state = none ∧
      n'.conn.storage = n.conn.storage ∧
      (n'.conn.committed_state = n.conn.committed_state ∨
        n'.conn.committed_state = n.conn.committed_state.withoutFailures ∧
          ∃ app_hash, SavedState o pc n.conn.committed_state n.conn.storage app_hash)) ∨
    (event = .rebuild ∧ n' = n) := by
  cases event with
  | call r => exact Or.inl ⟨r, rfl, step_cases hlive⟩
  | restart =>
    cases hstart : Node.start o pc cfg n.conn.storage with
    | error err =>
      simp only [Node.live, hstart] at hlive
      cases hlive
    | ok started =>
      simp only [Node.live, hstart] at hlive
      cases hlive
      exact Or.inr (Or.inl ⟨rfl, h.start hstart⟩)
  | rebuild =>
    simp only [Node.live, rebuild_indexes_eq h.good.committed.committed] at hlive
    cases hlive
    exact Or.inr (Or.inr ⟨rfl, rfl⟩)

theorem Alive.next (h : Alive o pc cfg n) {event : LifeEvent}
    (hlive : n.live o pc cfg event = some n') : Alive o pc cfg n' := by
  rcases live.spec h hlive with ⟨r, _, hstep⟩ | ⟨_, hidle, hnone, hsame, hstate⟩ | ⟨_, rfl⟩
  · exact h.call hstep
  · rcases hstate with heq | ⟨heq, app_hash, hsaved⟩
    · refine ⟨⟨?_, fun hphase => absurd hidle hphase⟩, by rw [hsame]; exact h.storage, ?_⟩
      · rw [heq, hsame]
        exact h.good.committed
      · rw [heq, hsame]
        exact h.saved
    · refine ⟨⟨?_, fun hphase => absurd hidle hphase⟩, by rw [hsame]; exact h.storage,
        Or.inr ⟨app_hash, ?_⟩⟩
      · rw [heq, hsame]
        exact h.good.committed.withoutFailures
      · rw [heq, hsame]
        exact hsaved.withoutFailures
  · exact h

end eld_chain
