-- The law of restarts: a node that stops after a commit comes back as it
-- was exactly when the commit was at an epoch boundary, no provider has
-- a failed proof on record, a rebuild ends with the root of the trie, and
-- the snapshot is not too large to read. The tip is written at every
-- height, the snapshot only at the boundaries, and a start demands that
-- both are of one height and one root.
import EldChain.SnapshotRoundTrip

open Std

namespace eld_chain

variable {o : Outside} {pc : ProtocolConstants} {cfg : GenesisConfig}
variable {e e' : AppStateEnvelope} {st st' : Storage}

/-! ## The database over a run -/

/-- The paths of the tips and of the snapshot: their keys follow from the paths alone. -/
def CadoPath.has_fixed_key : CadoPath → Bool
  | .app_state_tip _ | .app_state_snapshot _ => true
  | _ => false

def CadoPath.fixedKey (o : Outside) (p : CadoPath) : Bytes32 := keyFor o p.type_ p.name

theorem generate_fixed_key {p : CadoPath} (hp : p.has_fixed_key = true)
    (b : CadoBody StoredData) : generate_key o p b = .ok (p.fixedKey o) := by
  cases p <;> first | rfl | cases hp

/-- The index names each fixed path by its own key, and every snapshot is of a boundary. -/
structure GoodStorage (o : Outside) (pc : ProtocolConstants) (st : Storage) : Prop where
  keys : ∀ (p : CadoPath) key, p.has_fixed_key = true → st.path_index[p]? = some key →
    key = p.fixedKey o
  snapshots : ∀ (key : Bytes32) b sn, st.cado[key]? = some b → b.data = .app_state_snapshot sn →
    sn.block_height.val % pc.blocks_per_epoch.val = 0

/-- A put at a fixed path writes to the key of the path. -/
theorem put_fixed (hg : GoodStorage o pc st) {p : CadoPath} (hp : p.has_fixed_key = true)
    {b : CadoBody StoredData} (h : st.put_cado_type_with_tx o p b = .ok st') :
    st' = { st with
      cado := st.cado.insert (p.fixedKey o) b
      path_index := st.path_index.insert p (p.fixedKey o) } := by
  obtain ⟨key, hkey, rfl⟩ := put.spec o h
  have hfixed : key = p.fixedKey o := by
    unfold Storage.original_key at hkey
    rcases hi : st.path_index[p]? with _ | old
    · rw [hi] at hkey
      simp only [generate_fixed_key hp, Except.ok.injEq] at hkey
      exact hkey.symm
    · rw [hi] at hkey
      cases hkey
      exact hg.keys p key hp hi
  rw [hfixed]

/-- The objects of a commit that are snapshots are snapshots of a boundary. -/
theorem CommitKind.boundary {p : CadoPath} {b : CadoBody StoredData}
    (h : CommitKind o pc e p b) {sn : AppStateSnapshot} (hb : b.data = .app_state_snapshot sn) :
    sn.block_height.val % pc.blocks_per_epoch.val = 0 := by
  have hchain : ∀ c : CadoBody CadoData, b = c.stored → False := by
    rintro (c | c) rfl <;> cases hb
  rcases h with (⟨c, _, hc⟩ | ⟨c, _, hc⟩) | hinfra
  · exact (hchain c hc).elim
  · exact (hchain c hc).elim
  · cases hinfra with
    | tip => cases hb
    | snapshot sn' hboundary =>
      cases hb
      exact hboundary

theorem GoodStorage.put (hg : GoodStorage o pc st) {p : CadoPath} {b : CadoBody StoredData}
    (hkind : CommitKind o pc e p b) (h : st.put_cado_type_with_tx o p b = .ok st') :
    GoodStorage o pc st' := by
  constructor
  · intro q key hq hi
    by_cases hpq : p = q
    · subst hpq
      rw [put_fixed hg hq h] at hi
      simp only [finite_map.get_insert, if_true, Option.some.injEq] at hi
      exact hi.symm
    · obtain ⟨k, _, rfl⟩ := put.spec o h
      simp only [finite_map.get_insert, if_neg hpq] at hi
      exact hg.keys q key hq hi
  · intro key c sn hc hdata
    obtain ⟨k, _, rfl⟩ := put.spec o h
    simp only [finite_map.get_insert] at hc
    split at hc
    · cases hc
      exact hkind.boundary hdata
    · exact hg.snapshots key c sn hc hdata

theorem GoodStorage.of_puts (hg : GoodStorage o pc st) (h : Puts o (CommitKind o pc e) st st') :
    GoodStorage o pc st' := by
  refine h.invariant (GoodStorage o pc) (fun _ _ _ _ hold hk hput => hold.put hk hput) ?_ hg
  intro st₁ st₂ hold hi hc
  exact ⟨by rw [hi]; exact hold.keys, by rw [hc]; exact hold.snapshots⟩

theorem NodeStep.goodStorage {n n' : Node} {r : Request} (h : NodeStep o pc n r n')
    (hgood : NodeGood o n) (hg : GoodStorage o pc n.conn.storage) :
    GoodStorage o pc n'.conn.storage := by
  cases h with
  | begun => exact hg
  | turned_away => exact hg
  | delivered => exact hg
  | ended => exact hg
  | @committed s c' phase current commits =>
    obtain ⟨_, hcurrent⟩ := hgood.of_current (by simp [phase]) current
    exact hg.of_puts (commit_inner.spec current hcurrent commits).puts
  | uploaded => exact ⟨hg.keys, hg.snapshots⟩

theorem goodStorage_empty (o : Outside) (pc : ProtocolConstants) :
    GoodStorage o pc Storage.empty := by
  constructor <;> simp [Storage.empty]

theorem goodStorage_of_run {requests : List Request} {n : Node}
    (hrun : RunsTo o pc cfg requests n) : GoodStorage o pc n.conn.storage := by
  refine runs.run_induction (Node.step o pc) (fun _ n => GoodStorage o pc n.conn.storage)
    ?_ ?_ hrun
  · exact goodStorage_empty o pc
  · intro earlier m r m' hm hold hs
    exact (step_cases hs).goodStorage (reachable_good ⟨earlier, hm⟩) hold

/-! ## What a commit leaves to read -/

/-- What a start relies on: bincode writes some bytes for every object, a tip fits in an
object, and SHA-256 tells the two fixed paths apart. -/
structure StoresTips (o : Outside) : Prop where
  tip_fits : ∀ t : AppStateTip, 0 < (o.serialize_body (t.to_cado o)).length ∧
    (o.serialize_body (t.to_cado o)).length ≤ MAX_CADO_DATA_SIZE
  snapshot_nonempty : ∀ sn : AppStateSnapshot, 0 < (o.serialize_body (sn.to_cado o)).length
  keys_differ : (AppStateSnapshot.latest_path o).fixedKey o ≠
    (CadoPath.app_state_tip LATEST).fixedKey o

/-- The object stands under the key of its path. -/
def Storage.Holds (o : Outside) (st : Storage) (p : CadoPath) (b : CadoBody StoredData) : Prop :=
  st.path_index[p]? = some (p.fixedKey o) ∧ st.cado[p.fixedKey o]? = some b

theorem holds_put (hg : GoodStorage o pc st) {p : CadoPath} (hp : p.has_fixed_key = true)
    {b : CadoBody StoredData} (h : st.put_cado_type_with_tx o p b = .ok st') : st'.Holds o p b := by
  rw [put_fixed hg hp h]
  exact ⟨ExtTreeMap.getElem?_insert_self, ExtTreeMap.getElem?_insert_self⟩

theorem Storage.Holds.put_other (hg : GoodStorage o pc st) {p q : CadoPath}
    (hp : p.has_fixed_key = true) {b c : CadoBody StoredData} (hold : st.Holds o q c)
    (hpath : p ≠ q) (hkey : p.fixedKey o ≠ q.fixedKey o)
    (h : st.put_cado_type_with_tx o p b = .ok st') : st'.Holds o q c := by
  rw [put_fixed hg hp h]
  refine ⟨?_, ?_⟩
  · rw [← hold.1]
    exact finite_map.get_insert_of_ne _ _ hpath
  · rw [← hold.2]
    exact finite_map.get_insert_of_ne _ _ hkey

theorem storeTip_holds (hg : GoodStorage o pc st) {tip : AppStateTip}
    (h : storeTip o st tip = .ok st') :
    st'.Holds o (.app_state_tip LATEST) (tip.to_cado o) := by
  unfold storeTip at h
  simp only at h
  split at h
  · cases h
  · rename_i tx₁ hput
    have hg₁ : GoodStorage o pc tx₁ :=
      hg.put (e := AppStateEnvelope.default) (Or.inr (.tip _ tip)) hput
    exact holds_put hg₁ rfl h

theorem storeSnapshot_holds (hg : GoodStorage o pc st) (ho : StoresTips o) {s : AppState}
    {app_hash : Bytes32} (happ : s.app_hash.data = some app_hash) {tip : CadoBody StoredData}
    (htip : st.Holds o (.app_state_tip LATEST) tip) (h : storeSnapshot o pc st s = .ok st') :
    st'.Holds o (.app_state_tip LATEST) tip ∧
      (s.envelope.block_height.val % pc.blocks_per_epoch.val = 0 →
        st'.Holds o (AppStateSnapshot.latest_path o) ((s.snapshot app_hash).to_cado o)) := by
  unfold storeSnapshot at h
  rw [new_eq_snapshot happ] at h
  split at h
  · exact ⟨htip.put_other hg rfl (by simp [AppStateSnapshot.latest_path]) ho.keys_differ h,
      fun _ => holds_put hg rfl h⟩
  · rename_i hinside
    cases h
    exact ⟨htip, fun hboundary => absurd hboundary hinside⟩

/-- The tip of a committed state. -/
def AppState.tip (s : AppState) (app_hash : Bytes32) : AppStateTip :=
  ⟨s.envelope.block_height, s.envelope.state_trie.root_hash, app_hash⟩

/-- A commit stores the tip and then the snapshot, each in a good database. -/
theorem CommitStep.good_storages {s : AppState} {c c' : ConsensusConnection}
    (h : CommitStep o pc s c c') (hg : GoodStorage o pc c.storage) :
    ∃ app_hash tx tx₁, c'.committed_state.app_hash.data = some app_hash ∧
      GoodStorage o pc tx ∧ GoodStorage o pc tx₁ ∧
      storeTip o tx ⟨c'.committed_state.envelope.block_height,
        c'.committed_state.envelope.state_trie.root_hash, app_hash⟩ = .ok tx₁ ∧
      storeSnapshot o pc tx₁ c'.committed_state = .ok c'.storage := by
  obtain ⟨app_hash, tx, tx₁, happ, hputs, htip, hsnap⟩ := h.storage
  rw [← h.app_hash] at happ
  have hg₁ : GoodStorage o pc tx :=
    hg.of_puts (e := s.envelope) (hputs.mono (fun _ _ => Or.inl))
  have hg₂ : GoodStorage o pc tx₁ :=
    hg₁.of_puts (e := s.envelope) ((storeTip_puts htip).mono (fun _ _ => Or.inr))
  exact ⟨app_hash, tx, tx₁, happ, hg₁, hg₂, htip, hsnap⟩

/-- After a commit the database holds the tip, and at a boundary also the snapshot. -/
theorem CommitStep.holds {s : AppState} {c c' : ConsensusConnection}
    (h : CommitStep o pc s c c') (hg : GoodStorage o pc c.storage) (ho : StoresTips o) :
    ∃ app_hash, c'.committed_state.app_hash.data = some app_hash ∧
      c'.storage.Holds o (.app_state_tip LATEST)
        ((c'.committed_state.tip app_hash).to_cado o) ∧
      (c'.committed_state.envelope.block_height.val % pc.blocks_per_epoch.val = 0 →
        c'.storage.Holds o (AppStateSnapshot.latest_path o)
          ((c'.committed_state.snapshot app_hash).to_cado o)) := by
  obtain ⟨app_hash, tx, tx₁, happ, hg₁, hg₂, htip, hsnap⟩ := h.good_storages hg
  exact ⟨app_hash, happ, storeSnapshot_holds hg₂ ho happ (storeTip_holds hg₁ htip) hsnap⟩

/-! ## What a start reads -/

theorem Storage.Holds.get {p : CadoPath} {b : CadoBody StoredData} (h : st.Holds o p b)
    (hp : p.has_fixed_key = true) (hpos : 0 < (o.serialize_body b).length)
    (hle : (o.serialize_body b).length ≤ maxStoredSize p) :
    st.get_cado_by_path o p = .ok (some b) := by
  have hread : deserialize_stored_cado_type o p b = .ok b := by
    unfold deserialize_stored_cado_type
    simp only
    rw [if_neg (by omega)]
  unfold Storage.get_cado_by_path
  rw [h.1]
  simp only [h.2, hread, generate_fixed_key hp, if_true]

/-- A snapshot that is read stands in the database, and it is not too large. -/
theorem read_snapshot {p : CadoPath} {sn : AppStateSnapshot}
    (h : st.get_deserialized_cado_by_path o p AppStateSnapshot.deserialize_bin = .ok sn) :
    ∃ key b, st.path_index[p]? = some key ∧ st.cado[key]? = some b ∧
      b.data = .app_state_snapshot sn ∧ (o.serialize_body b).length ≤ maxStoredSize p := by
  unfold Storage.get_deserialized_cado_by_path at h
  rcases hget : st.get_cado_by_path o p with err | _ | b
  · rw [hget] at h; cases h
  · rw [hget] at h; cases h
  · rw [hget] at h
    have hdata : b.data = .app_state_snapshot sn := by
      simp only [AppStateSnapshot.deserialize_bin] at h
      split at h
      · cases h
        assumption
      · cases h
    unfold Storage.get_cado_by_path at hget
    split at hget
    · cases hget
    · rename_i key hi
      split at hget
      · cases hget
      · rename_i stored hc
        split at hget
        · cases hget
        · rename_i cado hread
          unfold deserialize_stored_cado_type at hread
          simp only at hread
          split at hread
          · cases hread
          · rename_i hsize
            cases hread
            split at hget
            · cases hget
            · split at hget
              · cases hget
                exact ⟨key, b, hi, hc, hdata, by omega⟩
              · cases hget

theorem restoreFromTip_ok {s s' : AppState} {tip : AppStateTip}
    (h : restoreFromTip o s st tip = .ok s') :
    ∃ sn, st.get_deserialized_cado_by_path o (AppStateSnapshot.latest_path o)
        AppStateSnapshot.deserialize_bin = .ok sn ∧ restoreFromSnapshot o s tip sn = .ok s' := by
  unfold restoreFromTip at h
  simp only at h
  split at h
  · exact ⟨_, by assumption, h⟩
  · cases h
  · cases h

/-- Only a snapshot of the tip's own height is restored. -/
theorem restoreFromSnapshot_height {s s' : AppState} {tip : AppStateTip} {sn : AppStateSnapshot}
    (h : restoreFromSnapshot o s tip sn = .ok s') : sn.block_height = tip.block_height := by
  unfold restoreFromSnapshot at h
  split at h
  · cases h
  · rename_i heq
    exact not_ne_iff.mp heq

/-- With the tip in the database, a start restores from it. -/
theorem initialize_from_tip (ho : StoresTips o) {tip : AppStateTip}
    (h : st.Holds o (.app_state_tip LATEST) (tip.to_cado o)) :
    AppState.default.initialize_with_data o st = restoreFromTip o ⟨⟨some tip.app_hash⟩,
      { AppStateEnvelope.default with block_height := tip.block_height }, ""⟩ st tip := by
  have hget := h.get rfl (ho.tip_fits tip).1 (ho.tip_fits tip).2
  unfold AppState.initialize_with_data Storage.get_deserialized_cado_by_path
  rw [hget]
  rfl

/-- With the tip and its snapshot in the database, a start applies the snapshot. -/
theorem initialize_applies (ho : StoresTips o) {s : AppState} {app_hash : Bytes32}
    (htip : st.Holds o (.app_state_tip LATEST) ((s.tip app_hash).to_cado o))
    (hsnap : st.Holds o (AppStateSnapshot.latest_path o) ((s.snapshot app_hash).to_cado o))
    (hfits : (o.serialize_body ((s.snapshot app_hash).to_cado o)).length ≤
      MAX_APP_STATE_SNAPSHOT_CADO_SIZE_BYTES) :
    AppState.default.initialize_with_data o st =
      (s.snapshot app_hash).apply_to_state o ⟨⟨some app_hash⟩, { AppStateEnvelope.default with
        block_height := s.envelope.block_height }, ""⟩ s.envelope.state_trie.root_hash := by
  rw [initialize_from_tip ho htip]
  have hget := hsnap.get rfl (ho.snapshot_nonempty _) hfits
  have hread : st.get_deserialized_cado_by_path o (AppStateSnapshot.latest_path o)
      AppStateSnapshot.deserialize_bin = .ok (s.snapshot app_hash) := by
    unfold Storage.get_deserialized_cado_by_path
    rw [hget]
    rfl
  unfold restoreFromTip
  simp only [hread]
  unfold restoreFromSnapshot
  have hheight : (s.snapshot app_hash).block_height = (s.tip app_hash).block_height := rfl
  have hhash : (s.snapshot app_hash).app_hash = (s.tip app_hash).app_hash := rfl
  rw [if_neg (not_ne_iff.mpr hheight), if_neg (not_ne_iff.mpr hhash)]
  rfl

/-- With the tip and its snapshot in the database, a start gives the committed state back,
less its counts of failed proofs, where a rebuild gives its trie. -/
theorem initialize_at_boundary (ho : StoresTips o) {s : AppState} {app_hash : Bytes32}
    (happ : s.app_hash.data = some app_hash) (hg : GoodCommitted o s.envelope st)
    (hc : Cleared s.envelope) (htrie : s.envelope.HoldsGreatest o)
    (htip : st.Holds o (.app_state_tip LATEST) ((s.tip app_hash).to_cado o))
    (hsnap : st.Holds o (AppStateSnapshot.latest_path o) ((s.snapshot app_hash).to_cado o))
    (hfits : (o.serialize_body ((s.snapshot app_hash).to_cado o)).length ≤
      MAX_APP_STATE_SNAPSHOT_CADO_SIZE_BYTES) :
    AppState.default.initialize_with_data o st = .ok s.withoutFailures := by
  rw [initialize_applies ho htip hsnap hfits]
  exact apply_snapshot hg hc happ (default_fresh _) htrie

/-! ## Restarting a node -/

/-- A node that stops and starts again on its database. -/
def Node.restart (o : Outside) (n : Node) : Except EldError Node :=
  match AppState.default.initialize_with_data o n.conn.storage with
  | .error err => .error err
  | .ok s => .ok ⟨.idle, ⟨s, none, n.conn.storage⟩⟩

/-- The restarted node has the state of the running one, and from the next block on both
go through the same states. -/
def RestartsAsItWas (o : Outside) (pc : ProtocolConstants) (n : Node) : Prop :=
  ∃ n', n.restart o = .ok n' ∧ n'.conn.committed_state = n.conn.committed_state ∧
    ∀ further, runs.run (Node.step o pc) (.BeginBlock :: further) n' =
      runs.run (Node.step o pc) (.BeginBlock :: further) n

/-- When a restart can succeed: the height is a boundary, no provider has a failed proof on
record, the trie is that of the greatest committed path, and the snapshot of the state is small
enough to be read back. -/
structure Restartable (o : Outside) (pc : ProtocolConstants) (s : AppState) : Prop where
  boundary : s.envelope.block_height.val % pc.blocks_per_epoch.val = 0
  no_failures : s.envelope.failed_proof_counts = ∅
  trie : s.envelope.HoldsGreatest o
  fits : ∀ sn, AppStateSnapshot.new s = .ok sn →
    (o.serialize_body (sn.to_cado o)).length ≤ MAX_APP_STATE_SNAPSHOT_CADO_SIZE_BYTES

/-- A restart succeeds only at a boundary, only with a snapshot that is not too large, and only
where a rebuild gives the trie. -/
theorem initialize_ok {s s' : AppState} {app_hash : Bytes32} (ho : StoresTips o)
    (hg : GoodStorage o pc st) (hgood : GoodCommitted o s.envelope st) (hc : Cleared s.envelope)
    (htip : st.Holds o (.app_state_tip LATEST) ((s.tip app_hash).to_cado o))
    (hsnap : s.envelope.block_height.val % pc.blocks_per_epoch.val = 0 →
      st.Holds o (AppStateSnapshot.latest_path o) ((s.snapshot app_hash).to_cado o))
    (h : AppState.default.initialize_with_data o st = .ok s') :
    s.envelope.block_height.val % pc.blocks_per_epoch.val = 0 ∧
      (o.serialize_body ((s.snapshot app_hash).to_cado o)).length ≤
        MAX_APP_STATE_SNAPSHOT_CADO_SIZE_BYTES ∧
      s.envelope.HoldsGreatest o := by
  have hinit := h
  rw [initialize_from_tip ho htip] at h
  obtain ⟨sn, hread, hrestore⟩ := restoreFromTip_ok h
  obtain ⟨key, b, hi, hcado, hdata, hsize⟩ := read_snapshot hread
  have hboundary : s.envelope.block_height.val % pc.blocks_per_epoch.val = 0 := by
    have hheight : sn.block_height = s.envelope.block_height := restoreFromSnapshot_height hrestore
    rw [← hheight]
    exact hg.snapshots key b sn hcado hdata
  obtain ⟨hi', hcado'⟩ := hsnap hboundary
  rw [hi] at hi'
  cases hi'
  rw [hcado] at hcado'
  cases hcado'
  refine ⟨hboundary, hsize, ?_⟩
  rw [initialize_applies ho htip (hsnap hboundary) hsize] at hinit
  exact holdsGreatest_of_apply hgood hc (default_fresh _) hinit

/-- A node that stops after a commit restarts as it was exactly when the state it committed
is restartable. -/
theorem a_node_restarts_as_it_was (o : Outside) (pc : ProtocolConstants) (cfg : GenesisConfig)
    (requests : List Request) (n : Node) (ho : StoresTips o)
    (hrun : RunsTo o pc cfg (requests ++ [.Commit]) n) :
    RestartsAsItWas o pc n ↔ Restartable o pc n.conn.committed_state := by
  obtain ⟨m, s, hm, _, _, _, hstep, hidle⟩ := commit_of_run hrun
  obtain ⟨app_hash, happ, htip, hsnap⟩ := hstep.holds (goodStorage_of_run hm) ho
  obtain ⟨_, _, hcleared, hgood⟩ := just_committed hrun
  constructor
  · rintro ⟨n', hrestart, hsame, _⟩
    unfold Node.restart at hrestart
    rcases hinit : AppState.default.initialize_with_data o n.conn.storage with err | s'
    · rw [hinit] at hrestart
      cases hrestart
    · rw [hinit] at hrestart
      cases hrestart
      obtain ⟨hboundary, hfits, htrie⟩ :=
        initialize_ok ho (goodStorage_of_run hrun) hgood hcleared htip hsnap hinit
      rw [initialize_at_boundary ho happ hgood hcleared htrie htip (hsnap hboundary) hfits] at hinit
      cases hinit
      refine ⟨hboundary, ?_, htrie, fun sn hnew => ?_⟩
      · rw [← hsame]
        rfl
      · rw [new_eq_snapshot happ] at hnew
        cases hnew
        exact hfits
  · rintro ⟨hboundary, hcounts, htrie, hfits⟩
    have hinit := initialize_at_boundary ho happ hgood hcleared htrie htip (hsnap hboundary)
      (hfits _ (new_eq_snapshot happ))
    refine ⟨⟨.idle, n.conn.committed_state, none, n.conn.storage⟩, ?_, rfl, fun further => ?_⟩
    · unfold Node.restart
      rw [hinit, withoutFailures_of_none hcounts]
    · -- BeginBlock opens a copy of the committed state, whatever was open before
      rw [runs.run, runs.run, Node.step, Node.step, if_pos rfl, if_pos hidle]
      rfl

theorem toy_length_tip (t : AppStateTip) :
    (Outside.toy.serialize_body (t.to_cado Outside.toy)).length = 88 := by
  have hdata : (Outside.toy.serialize_bin (.app_state_tip t)).length = 9 := by
    change (AppStateTip.toyBytes t).length = 9
    simp [AppStateTip.toyBytes, length_leBytes]
  have htype : (Text.bytes CadoType.AppStateTip.as_str.toList).length = 13 := by decide
  have howner : (Text.bytes "system".toList).length = 6 := by decide
  refine (toy_fixedWidths.immutable _ _ _).trans ?_
  rw [hdata, htype, howner]

theorem toy_length_snapshot (sn : AppStateSnapshot) :
    (Outside.toy.serialize_body (sn.to_cado Outside.toy)).length = 93 := by
  have hdata : (Outside.toy.serialize_bin (.app_state_snapshot sn)).length = 9 := by
    change (AppStateSnapshot.toyBytes sn).length = 9
    simp [AppStateSnapshot.toyBytes, length_leBytes]
  have htype : (Text.bytes CadoType.AppStateSnapshot.as_str.toList).length = 18 := by decide
  have howner : (Text.bytes "system".toList).length = 6 := by decide
  refine (toy_fixedWidths.immutable _ _ _).trans ?_
  rw [hdata, htype, howner]

theorem toy_storesTips : StoresTips Outside.toy where
  tip_fits := by
    intro t
    rw [toy_length_tip]
    decide
  snapshot_nonempty := by
    intro sn
    rw [toy_length_snapshot]
    decide
  keys_differ := by decide +kernel

theorem a_node_restarts_as_it_was_on_stakingBlocks :
    ∃ n, RunsTo Outside.toy smallConstants smallConfig (stakingBlocks ++ [.Commit]) n ∧
      RestartsAsItWas Outside.toy smallConstants n := by
  obtain ⟨n, hn, heval⟩ := @smallRun_ends (stakingBlocks ++ [.Commit]) (fun n =>
      n.conn.committed_state.envelope.block_height.val % smallConstants.blocks_per_epoch.val == 0 &&
        n.conn.committed_state.envelope.failed_proof_counts.isEmpty &&
        decide (n.conn.committed_state.envelope.HoldsGreatest Outside.toy)) (by decide +kernel)
  simp only [Bool.and_eq_true, beq_iff_eq, decide_eq_true_eq] at heval
  refine ⟨n, hn, (a_node_restarts_as_it_was Outside.toy smallConstants smallConfig
    stakingBlocks n toy_storesTips hn).mpr ⟨heval.1.1, ?_, heval.2, fun sn _ => ?_⟩⟩
  · exact ExtTreeMap.isEmpty_iff.mp heval.1.2
  · rw [toy_length_snapshot]
    decide

/-- One empty block, in the middle of an epoch. -/
def firstBlock : List Request := [.BeginBlock, .EndBlock (smallHeight 1)]

/-- A node that stops after its first block cannot start again: there is no snapshot yet. -/
theorem firstBlock_cannot_restart :
    ∃ n, RunsTo Outside.toy smallConstants smallConfig (firstBlock ++ [.Commit]) n ∧
      n.conn.committed_state.envelope.block_height.val = 1 ∧
      (n.restart Outside.toy).toOption.isNone = true ∧
      ¬ RestartsAsItWas Outside.toy smallConstants n := by
  obtain ⟨n, hn, heval⟩ := @smallRun_ends (firstBlock ++ [.Commit]) (fun n =>
      n.conn.committed_state.envelope.block_height.val == 1 &&
        (n.restart Outside.toy).toOption.isNone) (by decide +kernel)
  simp only [Bool.and_eq_true, beq_iff_eq] at heval
  refine ⟨n, hn, heval.1, heval.2, ?_⟩
  rintro ⟨n', hrestart, _⟩
  rw [hrestart] at heval
  cases heval.2

end eld_chain
