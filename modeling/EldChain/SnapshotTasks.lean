-- The task that a commit at an epoch boundary spawns: it reads the latest
-- tip and then the latest snapshot, and the node goes on with other blocks
-- before and between the two reads. What passes the checks of the task is
-- the state of the block that spawned it, whatever came between.
import EldChain.PinboardRows
import EldChain.Restart
import EldChain.SnapshotManager

open Std

namespace eld_chain

/-! ## The payload -/

def SNAPSHOT_FORMAT_VERSION : UInt32 := 2

def AbciSnapshot.new (sn : AppStateSnapshot) : AbciSnapshot := ⟨SNAPSHOT_FORMAT_VERSION, sn⟩

variable (o : Outside)

def AbciSnapshot.bytes (s : AbciSnapshot) : Bytes := o.bincode.serialize .abci_snapshot s

def serialize_abci_snapshot (s : AbciSnapshot) : Except EldError ByteVec :=
  if h : FitsUsize (s.bytes o).length then .ok ⟨s.bytes o, h⟩
  else .error (.StorageError "serialize_abci_snapshot" "the payload is longer than a vector can be")

/-- How many objects are of a type. -/
def AppStateSnapshot.countType (sn : AppStateSnapshot) (type_ : CadoType) : UInt64 :=
  .ofNat (sn.committed_cado_cache.toList.countP (fun p => p.2.metadata.type_ = type_))

def AppStateSnapshot.state_counts (sn : AppStateSnapshot) : SnapshotStateCounts where
  accounts_count := sn.countType .Account
  staking_accounts_count := sn.countType .StakingAccount
  storage_staking_accounts_count := sn.countType .StorageStakingAccount
  namespaces_count := sn.countType .Namespace

/-! ## The task -/

/-- The checks of the snapshot against the tip. -/
def checkAgainstTip (tip : AppStateTip) (height : I64) (sn : AppStateSnapshot) :
    Except EldError AppStateSnapshot :=
  if sn.block_height ≠ height then
    .error (.ValidationError "app_state_snapshot.block_height" (toString sn.block_height.val)
      ("Latest AppStateSnapshot height mismatch. Expected " ++ toString height.val ++ ", got "
        ++ toString sn.block_height.val))
  else if sn.app_hash ≠ tip.app_hash then
    .error (.ValidationError "app_state_snapshot.app_hash"
      (String.ofList (hexDigits 64 sn.app_hash.toNat))
      "AppStateSnapshot app_hash does not match latest AppStateTip")
  else if sn.state_trie_root ≠ tip.cado_root_hash then
    .error (.ValidationError "app_state_snapshot.state_trie_root"
      (String.ofList (hexDigits 64 sn.state_trie_root.toNat))
      "AppStateSnapshot trie root does not match latest AppStateTip")
  else .ok sn

/-- The snapshot that the task finds. The two reads meet the database at two moments. -/
def findSnapshot (tip_storage storage : Storage) (height : I64) :
    Except EldError AppStateSnapshot :=
  match tip_storage.get_deserialized_cado_by_path o (.app_state_tip LATEST)
    AppStateTip.deserialize_bin with
  | .error e => .error e
  | .ok tip =>
    if tip.block_height ≠ height then
      .error (.ValidationError "app_state_tip.block_height" (toString tip.block_height.val)
        ("Latest AppStateTip height mismatch. Expected " ++ toString height.val ++ ", got "
          ++ toString tip.block_height.val))
    else
      match storage.get_deserialized_cado_by_path o (AppStateSnapshot.latest_path o)
        AppStateSnapshot.deserialize_bin with
      | .error e => .error e
      | .ok sn => checkAgainstTip tip height sn

/-- `create_snapshot_from_latest_state`: what goes to `create_snapshot_with_app_hash`. -/
def create_snapshot_from_latest_state (tip_storage storage : Storage) (height : I64)
    (now : UInt64) : Except EldError SnapshotInput :=
  match findSnapshot o tip_storage storage height with
  | .error e => .error e
  | .ok sn =>
    match serialize_abci_snapshot o (.new sn) with
    | .error e => .error e
    | .ok payload => .ok ⟨height, payload, sn.app_hash, sn.state_counts, now⟩

variable {o} {pc : ProtocolConstants} {cfg : GenesisConfig} {st st' : Storage}

/-! ## The snapshots of a database -/

/-- A snapshot among the objects is that of one of the states. -/
def RecordedSnapshots (Made : AppState → Prop) (st : Storage) : Prop :=
  ∀ (key : Bytes32) b sn, st.cado[key]? = some b → b.data = .app_state_snapshot sn →
    ∃ s, Made s ∧ AppStateSnapshot.new s = .ok sn

variable {Made : AppState → Prop}

theorem RecordedSnapshots.mono (h : RecordedSnapshots Made st) {Made' : AppState → Prop}
    (hmade : ∀ s, Made s → Made' s) : RecordedSnapshots Made' st := by
  intro key b sn hb hdata
  obtain ⟨s, hs, hnew⟩ := h key b sn hb hdata
  exact ⟨s, hmade s hs, hnew⟩

theorem RecordedSnapshots.put (h : RecordedSnapshots Made st) {p : CadoPath} {b : CadoBody StoredData}
    (hb : ∀ sn, b.data = .app_state_snapshot sn → ∃ s, Made s ∧ AppStateSnapshot.new s = .ok sn)
    (hput : st.put_cado_type_with_tx o p b = .ok st') : RecordedSnapshots Made st' := by
  obtain ⟨k, _, rfl⟩ := put.spec o hput
  intro key c sn hc hdata
  simp only [finite_map.get_insert] at hc
  split at hc
  · cases hc
    exact hb sn hdata
  · exact h key c sn hc hdata

theorem RecordedSnapshots.storeTip (h : RecordedSnapshots Made st) {tip : AppStateTip}
    (hstore : storeTip o st tip = .ok st') : RecordedSnapshots Made st' := by
  have htip : ∀ sn, (tip.to_cado o).data = .app_state_snapshot sn →
      ∃ s, Made s ∧ AppStateSnapshot.new s = .ok sn := fun _ hdata => by cases hdata
  unfold eld_chain.storeTip at hstore
  simp only at hstore
  split at hstore
  · cases hstore
  · rename_i tx hput
    exact (h.put htip hput).put htip hstore

theorem RecordedSnapshots.storeSnapshot (h : RecordedSnapshots Made st) {s : AppState} (hs : Made s)
    (hstore : storeSnapshot o pc st s = .ok st') : RecordedSnapshots Made st' := by
  unfold eld_chain.storeSnapshot at hstore
  split at hstore
  · split at hstore
    · cases hstore
    · rename_i sn hnew
      refine h.put (fun sn' hdata => ⟨s, hs, ?_⟩) hstore
      cases hdata
      exact hnew
  · cases hstore
    exact h

/-- A commit records the snapshot of the state that it commits, and no other. -/
theorem CommitStep.recorded {s : AppState} {c c' : ConsensusConnection}
    (h : CommitStep o pc s c c') (hold : RecordedSnapshots Made c.storage)
    (hmade : Made c'.committed_state) : RecordedSnapshots Made c'.storage := by
  obtain ⟨app_hash, tx, tx₁, _, hputs, htip, hsnap⟩ := h.storage
  have htx : RecordedSnapshots Made tx := by
    refine hputs.invariant (RecordedSnapshots Made) ?_ (fun _ _ hrec _ hc => ?_) hold
    · intro st₁ st₂ p b hrec hkind hput
      apply hrec.put _ hput
      intro sn hdata
      rcases hkind with ⟨c, _, rfl⟩ | ⟨c, _, rfl⟩ <;> cases c <;> cases hdata
    · intro key b sn hb
      rw [hc] at hb
      exact hrec key b sn hb
  exact (htx.storeTip htip).storeSnapshot hmade hsnap

/-! ## The states that a run commits -/

/-- The run committed the state at some point. -/
def CommittedIn (o : Outside) (pc : ProtocolConstants) (cfg : GenesisConfig)
    (requests : List Request) (s : AppState) : Prop :=
  ∃ fs m, fs ++ [.Commit] <+: requests ∧ RunsTo o pc cfg (fs ++ [.Commit]) m ∧
    m.conn.committed_state = s

theorem CommittedIn.more {requests more : List Request} {s : AppState}
    (h : CommittedIn o pc cfg requests s) : CommittedIn o pc cfg (requests ++ more) s := by
  obtain ⟨fs, m, hpre, hm, hs⟩ := h
  exact ⟨fs, m, hpre.trans (List.prefix_append _ _), hm, hs⟩

theorem recorded_of_run {requests : List Request} {n : Node} (hrun : RunsTo o pc cfg requests n) :
    RecordedSnapshots (CommittedIn o pc cfg requests) n.conn.storage := by
  refine runs.run_induction (Node.step o pc)
    (fun requests n => RecordedSnapshots (CommittedIn o pc cfg requests) n.conn.storage) ?_ ?_ hrun
  · intro key b sn hb
    simp [genesis, Storage.empty] at hb
  · intro earlier m r m' hm hold hs
    have hmore : RecordedSnapshots (CommittedIn o pc cfg (earlier ++ [r])) m.conn.storage :=
      hold.mono (fun s hs => hs.more)
    have hnext : RunsTo o pc cfg (earlier ++ [r]) m' := RunsTo.step hm hs
    cases step_cases hs with
    | begun | turned_away | delivered | ended => exact hmore
    | @committed s c' phase current commits =>
      obtain ⟨_, hgood⟩ := (reachable_good ⟨earlier, hm⟩).of_current (by simp [phase]) current
      exact (commit_inner.spec current hgood commits).recorded hmore
        ⟨earlier, _, List.prefix_rfl, hnext, rfl⟩
    | uploaded => exact hmore

/-! ## Heights -/

theorem grows_of_run {requests : List Request} {n : Node} (hrun : RunsTo o pc cfg requests n) :
    n.phase = .ended →
      n.conn.committed_state.envelope.block_height.val < n.state.envelope.block_height.val := by
  refine runs.run_induction (Node.step o pc) (fun _ n => n.phase = .ended →
    n.conn.committed_state.envelope.block_height.val < n.state.envelope.block_height.val)
    ?_ ?_ hrun
  · intro hended
    cases hended
  · intro earlier m r m' hm hold hs
    exact ((step_cases hs).heights (reachable_good ⟨earlier, hm⟩) (reachable_dated hm) hold).1

theorem RunsTo.append {requests more : List Request} {n n' : Node}
    (h : RunsTo o pc cfg requests n) (hmore : runs.run (Node.step o pc) more n = some n') :
    RunsTo o pc cfg (requests ++ more) n' := by
  rw [RunsTo, runs.run_append, h]
  exact hmore

/-- Only commits replace the committed state, and each by a higher one. -/
theorem committed_after {requests more : List Request} {n n' : Node}
    (hrun : RunsTo o pc cfg requests n) (hmore : runs.run (Node.step o pc) more n = some n') :
    (.Commit ∉ more → n'.conn.committed_state = n.conn.committed_state) ∧
      (.Commit ∈ more → n.conn.committed_state.envelope.block_height.val <
        n'.conn.committed_state.envelope.block_height.val) := by
  refine runs.run_induction (Node.step o pc) (fun more n' =>
    (.Commit ∉ more → n'.conn.committed_state = n.conn.committed_state) ∧
      (.Commit ∈ more → n.conn.committed_state.envelope.block_height.val <
        n'.conn.committed_state.envelope.block_height.val)) ?_ ?_ hmore
  · exact ⟨fun _ => rfl, fun hmem => absurd hmem List.not_mem_nil⟩
  · intro earlier k r k' hk hold hs
    have hto := hrun.append hk
    obtain ⟨_, hsame, hraised⟩ := (step_cases hs).heights (reachable_good ⟨_, hto⟩)
      (reachable_dated hto) (grows_of_run hto)
    refine ⟨?_, ?_⟩
    · intro hnone
      simp only [List.mem_append, List.mem_singleton, not_or] at hnone
      rw [hsame (Ne.symm hnone.2), hold.1 hnone.1]
    · intro hmem
      by_cases hearlier : .Commit ∈ earlier
      · have hlt := hold.2 hearlier
        by_cases hr : r = .Commit
        · exact hlt.trans (hraised hr)
        · rw [hsame hr]
          exact hlt
      · have hr : r = .Commit := by
          simpa [hearlier, eq_comm] using hmem
        rw [← hold.1 hearlier]
        exact hraised hr

/-- Of two commits of a run one comes first, and it is the lower one. -/
theorem committed_ordered {fs gs : List Request} {m m' : Node}
    (hm : RunsTo o pc cfg (fs ++ [.Commit]) m) (hm' : RunsTo o pc cfg (gs ++ [.Commit]) m')
    (hpre : fs ++ [.Commit] <+: gs ++ [.Commit])
    (hheight : m.conn.committed_state.envelope.block_height =
      m'.conn.committed_state.envelope.block_height) :
    m.conn.committed_state = m'.conn.committed_state := by
  obtain ⟨rest, hrest⟩ := hpre
  have hmore : runs.run (Node.step o pc) rest m = some m' := by
    have hrun := hm'
    rw [← hrest, RunsTo, runs.run_append, hm] at hrun
    exact hrun
  obtain ⟨hsame, hraised⟩ := committed_after hm hmore
  have hnone : .Commit ∉ rest := by
    intro hmem
    have hlt := hraised hmem
    rw [hheight] at hlt
    exact lt_irrefl _ hlt
  exact (hsame hnone).symm

/-- A run commits one state of a height at most. -/
theorem committed_unique {requests : List Request} {s s' : AppState}
    (h : CommittedIn o pc cfg requests s) (h' : CommittedIn o pc cfg requests s')
    (hheight : s.envelope.block_height = s'.envelope.block_height) : s = s' := by
  obtain ⟨fs, m, hpre, hm, rfl⟩ := h
  obtain ⟨gs, m', hpre', hm', rfl⟩ := h'
  rcases List.prefix_or_prefix_of_prefix hpre hpre' with hle | hle
  · exact committed_ordered hm hm' hle hheight
  · exact (committed_ordered hm' hm hle hheight.symm).symm

/-! ## The tip -/

/-- The database holds the tip of the committed state. -/
def TipHeld (o : Outside) (n : Node) : Prop :=
  ∃ app_hash, n.conn.storage.Holds o (.app_state_tip LATEST)
    ((n.conn.committed_state.tip app_hash).to_cado o)

/-- From the first commit on the database holds the tip of the last one. -/
theorem tipHeld_after (ho : StoresTips o) {requests more : List Request} {m n : Node}
    (hm : RunsTo o pc cfg (requests ++ [.Commit]) m)
    (hmore : runs.run (Node.step o pc) more m = some n) : TipHeld o n := by
  refine runs.run_induction (Node.step o pc) (fun _ n => TipHeld o n) ?_ ?_ hmore
  · obtain ⟨k, s, hk, _, _, _, hstep, _⟩ := commit_of_run hm
    obtain ⟨app_hash, _, htip, _⟩ := hstep.holds (goodStorage_of_run hk) ho
    exact ⟨app_hash, htip⟩
  · intro earlier k r k' hk hold hs
    have hto := hm.append hk
    cases step_cases hs with
    | begun | turned_away | delivered | ended | uploaded => exact hold
    | @committed s c' phase current commits =>
      obtain ⟨_, hgood⟩ := (reachable_good ⟨_, hto⟩).of_current (by simp [phase]) current
      obtain ⟨app_hash, _, htip, _⟩ :=
        (commit_inner.spec current hgood commits).holds (goodStorage_of_run hto) ho
      exact ⟨app_hash, htip⟩

theorem TipHeld.read (ho : StoresTips o) {n : Node} (h : TipHeld o n) : ∃ app_hash,
    n.conn.storage.get_deserialized_cado_by_path o (.app_state_tip LATEST)
      AppStateTip.deserialize_bin = .ok (n.conn.committed_state.tip app_hash) := by
  obtain ⟨app_hash, htip⟩ := h
  refine ⟨app_hash, ?_⟩
  unfold Storage.get_deserialized_cado_by_path
  rw [htip.get rfl (ho.tip_fits _).1 (ho.tip_fits _).2]
  rfl

/-- Calls other than commits leave the objects of the database alone. -/
theorem storage_after {more : List Request} {n n' : Node}
    (hmore : runs.run (Node.step o pc) more n = some n') (hnone : .Commit ∉ more) :
    n'.conn.storage.path_index = n.conn.storage.path_index ∧
      n'.conn.storage.cado = n.conn.storage.cado := by
  revert hnone
  refine runs.run_induction (Node.step o pc) (fun more n' => .Commit ∉ more →
    n'.conn.storage.path_index = n.conn.storage.path_index ∧
      n'.conn.storage.cado = n.conn.storage.cado) (fun _ => ⟨rfl, rfl⟩) ?_ hmore
  intro earlier k r k' hk hold hs hnone
  simp only [List.mem_append, List.mem_singleton, not_or] at hnone
  cases step_cases hs with
  | begun | turned_away | delivered | ended | uploaded => exact hold hnone.1
  | committed => exact absurd rfl hnone.2

/-! ## What the task makes -/

theorem checkAgainstTip_ok {tip : AppStateTip} {height : I64} {sn sn' : AppStateSnapshot}
    (h : checkAgainstTip tip height sn = .ok sn') : sn' = sn ∧ sn.block_height = height := by
  unfold checkAgainstTip at h
  split at h
  · cases h
  · rename_i hheight
    split at h
    · cases h
    · split at h
      · cases h
      · cases h
        exact ⟨rfl, not_ne_iff.mp hheight⟩

/-- A snapshot that the task finds is that of the block which spawned it, and no other block was
committed before the tip was read. -/
theorem findSnapshot_ok (ho : StoresTips o) {requests later more : List Request} {m n k : Node}
    (hm : RunsTo o pc cfg (requests ++ [.Commit]) m)
    (hlater : runs.run (Node.step o pc) later m = some n)
    (hmore : runs.run (Node.step o pc) more n = some k) {sn : AppStateSnapshot}
    (h : findSnapshot o n.conn.storage k.conn.storage
      m.conn.committed_state.envelope.block_height = .ok sn) :
    AppStateSnapshot.new m.conn.committed_state = .ok sn ∧ .Commit ∉ later := by
  obtain ⟨app_hash, htip⟩ := (tipHeld_after ho hm hlater).read ho
  unfold findSnapshot at h
  rw [htip] at h
  simp only at h
  split at h
  · cases h
  · rename_i hheight
    have hsame : n.conn.committed_state.envelope.block_height =
        m.conn.committed_state.envelope.block_height := not_ne_iff.mp hheight
    have hnone : .Commit ∉ later := by
      intro hmem
      have hlt := (committed_after hm hlater).2 hmem
      rw [hsame] at hlt
      exact lt_irrefl _ hlt
    refine ⟨?_, hnone⟩
    split at h
    · cases h
    · rename_i found hread
      obtain ⟨rfl, hfound⟩ := checkAgainstTip_ok h
      obtain ⟨key, b, _, hb, hdata, _⟩ := read_snapshot hread
      have hk := (hm.append hlater).append hmore
      obtain ⟨s, hs, hnew⟩ := recorded_of_run hk key b _ hb hdata
      have hspawned : CommittedIn o pc cfg (requests ++ [.Commit] ++ later ++ more)
          m.conn.committed_state :=
        ⟨requests, m, by simp, hm, rfl⟩
      rw [committed_unique hspawned hs (hfound.symm.trans (snapshot_height hnew))]
      exact hnew

/-- While no other block is committed the task finds the snapshot, if it can be read. -/
theorem findSnapshot_of_quiet (ho : StoresTips o) {requests later more : List Request}
    {m n k : Node} (hm : RunsTo o pc cfg (requests ++ [.Commit]) m)
    (hboundary : m.conn.committed_state.envelope.block_height.val % pc.blocks_per_epoch.val = 0)
    (hlater : runs.run (Node.step o pc) later m = some n)
    (hmore : runs.run (Node.step o pc) more n = some k)
    (hquiet : .Commit ∉ later ∧ .Commit ∉ more) {sn : AppStateSnapshot}
    (hnew : AppStateSnapshot.new m.conn.committed_state = .ok sn)
    (hfits : (o.serialize_body (sn.to_cado o)).length ≤ MAX_APP_STATE_SNAPSHOT_CADO_SIZE_BYTES) :
    findSnapshot o n.conn.storage k.conn.storage
      m.conn.committed_state.envelope.block_height = .ok sn := by
  obtain ⟨j, s, hj, _, _, _, hstep, _⟩ := commit_of_run hm
  obtain ⟨app_hash, happ, htip, hsnap⟩ := hstep.holds (goodStorage_of_run hj) ho
  obtain ⟨hindex, hcado⟩ := storage_after hlater hquiet.1
  obtain ⟨hindex', hcado'⟩ := storage_after hmore hquiet.2
  have hsn : sn = m.conn.committed_state.snapshot app_hash := by
    rw [new_eq_snapshot happ] at hnew
    cases hnew
    rfl
  subst hsn
  have htipn : n.conn.storage.Holds o (.app_state_tip LATEST)
      ((m.conn.committed_state.tip app_hash).to_cado o) :=
    ⟨by rw [hindex]; exact htip.1, by rw [hcado]; exact htip.2⟩
  have hsnapk : k.conn.storage.Holds o (AppStateSnapshot.latest_path o)
      ((m.conn.committed_state.snapshot app_hash).to_cado o) :=
    ⟨by rw [hindex', hindex]; exact (hsnap hboundary).1,
      by rw [hcado', hcado]; exact (hsnap hboundary).2⟩
  have hreadtip : n.conn.storage.get_deserialized_cado_by_path o (.app_state_tip LATEST)
      AppStateTip.deserialize_bin = .ok (m.conn.committed_state.tip app_hash) := by
    unfold Storage.get_deserialized_cado_by_path
    rw [htipn.get rfl (ho.tip_fits _).1 (ho.tip_fits _).2]
    rfl
  have hreadsnap : k.conn.storage.get_deserialized_cado_by_path o (AppStateSnapshot.latest_path o)
      AppStateSnapshot.deserialize_bin = .ok (m.conn.committed_state.snapshot app_hash) := by
    unfold Storage.get_deserialized_cado_by_path
    rw [hsnapk.get rfl (ho.snapshot_nonempty _) hfits]
    rfl
  unfold findSnapshot checkAgainstTip
  rw [hreadtip, hreadsnap]
  simp [AppState.tip, AppState.snapshot]

/-- Whatever the node does before and between the two reads of a task, the snapshot that it makes
has the payload of the block which spawned it. This payload gives the committed state back, less
its counts of failed proofs, exactly when the trie of the block is that of its greatest path. The
task comes through at a boundary while no other block is committed and the snapshot is not too
large. -/
theorem a_snapshot_task_makes_the_state_of_its_block (o : Outside) (pc : ProtocolConstants)
    (cfg : GenesisConfig) (ho : StoresTips o) (requests later more : List Request) (m n k : Node)
    (hm : RunsTo o pc cfg (requests ++ [.Commit]) m)
    (hlater : runs.run (Node.step o pc) later m = some n)
    (hmore : runs.run (Node.step o pc) more n = some k) (now : UInt64) :
    (∀ input, create_snapshot_from_latest_state o n.conn.storage k.conn.storage
        m.conn.committed_state.envelope.block_height now = .ok input →
      .Commit ∉ later ∧ ∃ sn, AppStateSnapshot.new m.conn.committed_state = .ok sn ∧
        input.data.bytes = (AbciSnapshot.new sn).bytes o ∧ input.app_hash = sn.app_hash ∧
        input.counts = sn.state_counts ∧
        (sn.apply_to_state o AppState.default
              m.conn.committed_state.envelope.state_trie.root_hash =
            .ok m.conn.committed_state.withoutFailures ↔
          m.conn.committed_state.envelope.HoldsGreatest o)) ∧
    (∀ sn, AppStateSnapshot.new m.conn.committed_state = .ok sn →
      m.conn.committed_state.envelope.block_height.val % pc.blocks_per_epoch.val = 0 →
      .Commit ∉ later ∧ .Commit ∉ more →
      (o.serialize_body (sn.to_cado o)).length ≤ MAX_APP_STATE_SNAPSHOT_CADO_SIZE_BYTES →
      FitsUsize ((AbciSnapshot.new sn).bytes o).length →
      ∃ input, create_snapshot_from_latest_state o n.conn.storage k.conn.storage
        m.conn.committed_state.envelope.block_height now = .ok input) := by
  refine ⟨?_, ?_⟩
  · intro input h
    unfold create_snapshot_from_latest_state at h
    split at h
    · cases h
    · rename_i sn hfind
      obtain ⟨hnew, hnone⟩ := findSnapshot_ok ho hm hlater hmore hfind
      unfold serialize_abci_snapshot at h
      split at h
      · cases h
      · rename_i payload hpayload
        split at hpayload
        · cases hpayload
          cases h
          obtain ⟨app_hash, happ, hcleared, hgood⟩ := just_committed hm
          have hsn := hnew
          rw [new_eq_snapshot happ] at hsn
          cases hsn
          refine ⟨hnone, _, hnew, rfl, rfl, rfl, ?_⟩
          constructor
          · intro happly
            exact holdsGreatest_of_apply hgood hcleared (default_fresh _) happly
          · intro htrie
            exact @apply_snapshot _ _ _ AppState.default hgood hcleared _ happ (default_fresh _) htrie
        · cases hpayload
  · intro sn hnew hboundary hquiet hfits hpayload
    have hfind := findSnapshot_of_quiet ho hm hboundary hlater hmore hquiet hnew hfits
    unfold create_snapshot_from_latest_state
    rw [hfind]
    simp only [serialize_abci_snapshot, dif_pos hpayload]
    exact ⟨_, rfl⟩

theorem a_snapshot_task_makes_the_state_of_its_block_on_stakingBlocks : ∃ m n input sn,
    RunsTo Outside.toy smallConstants smallConfig (stakingBlocks ++ [.Commit]) m ∧
      runs.run (Node.step Outside.toy smallConstants) [.BeginBlock] m = some n ∧
      create_snapshot_from_latest_state Outside.toy m.conn.storage n.conn.storage
        m.conn.committed_state.envelope.block_height 7 = .ok input ∧
      input.data.bytes = (AbciSnapshot.new sn).bytes Outside.toy ∧
      sn.apply_to_state Outside.toy AppState.default
          m.conn.committed_state.envelope.state_trie.root_hash =
        .ok m.conn.committed_state.withoutFailures := by
  obtain ⟨m, hm, heval⟩ := @smallRun_ends (stakingBlocks ++ [.Commit]) (fun m =>
      m.conn.committed_state.envelope.block_height.val % smallConstants.blocks_per_epoch.val == 0 &&
        decide (m.conn.committed_state.envelope.HoldsGreatest Outside.toy) &&
        (runs.run (Node.step Outside.toy smallConstants) [.BeginBlock] m).isSome)
      (by decide +kernel)
  simp only [Bool.and_eq_true, beq_iff_eq, decide_eq_true_eq, Option.isSome_iff_exists] at heval
  obtain ⟨⟨hboundary, htrie⟩, n, hn⟩ := heval
  obtain ⟨hmade, hcomes⟩ := a_snapshot_task_makes_the_state_of_its_block Outside.toy smallConstants
    smallConfig toy_storesTips stakingBlocks [] [.BeginBlock] m m n hm rfl hn 7
  obtain ⟨app_hash, happ, _, _⟩ := just_committed hm
  obtain ⟨input, hinput⟩ := hcomes _ (new_eq_snapshot happ) hboundary (by simp)
    (by rw [toy_length_snapshot]; decide)
    (by simp [AbciSnapshot.bytes, Outside.toy, Bincode.toy, toySerialize, AbciSnapshot.toyBytes,
      AppStateSnapshot.toyBytes, length_leBytes, FitsUsize])
  obtain ⟨_, sn, _, hbytes, _, _, happly⟩ := hmade input hinput
  exact ⟨m, n, input, sn, hm, hn, hinput, hbytes, happly.mpr htrie⟩

end eld_chain
