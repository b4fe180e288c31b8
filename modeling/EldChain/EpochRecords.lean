-- The record of an epoch is written once, when the epoch opens, and it
-- is read back as it was in every later state. It agrees with itself:
-- it names its epoch, and its entries are those of the providers that
-- the selected validator challenges. The latest record is the last one.
import EldChain.IssuedChallenges

open Std

namespace eld_chain

variable {o : Outside} {pc : ProtocolConstants} {cfg : GenesisConfig}
variable {e e' : AppStateEnvelope} {st st' : Storage}

/-! ## Heights and epochs -/

/-- The state is in the epoch of its height. -/
structure Dated (pc : ProtocolConstants) (e : AppStateEnvelope) : Prop where
  height : 0 ≤ e.block_height.val
  epoch : e.current_epoch = epochOf pc e.block_height

theorem epochOf_mono (pc : ProtocolConstants) {a b : I64} (ha : 0 ≤ a.val) (h : a.val ≤ b.val) :
    (epochOf pc a).val ≤ (epochOf pc b).val := by
  change a.val.tdiv pc.blocks_per_epoch.val ≤ b.val.tdiv pc.blocks_per_epoch.val
  rw [Int.tdiv_eq_ediv_of_nonneg ha, Int.tdiv_eq_ediv_of_nonneg (ha.trans h)]
  exact Int.ediv_le_ediv pc.blocks_pos h

theorem epochOf_nonneg (pc : ProtocolConstants) {a : I64} (ha : 0 ≤ a.val) :
    0 ≤ (epochOf pc a).val :=
  Int.tdiv_nonneg ha pc.blocks_pos.le

/-- Only a height above 0 is in an epoch above 0. -/
theorem pos_of_epochOf_pos (pc : ProtocolConstants) {a : I64} (h : 0 < (epochOf pc a).val) : 0 < a.val := by
  by_contra hneg
  have hpos := Int.tdiv_nonneg (by omega : 0 ≤ -a.val) pc.blocks_pos.le
  rw [Int.neg_tdiv] at hpos
  have h : 0 < a.val.tdiv pc.blocks_per_epoch.val := h
  omega

theorem Dated.of_same (h : Dated pc e) (hheight : e'.block_height = e.block_height)
    (hepoch : e'.current_epoch = e.current_epoch) : Dated pc e' :=
  ⟨by rw [hheight]; exact h.height, by rw [hheight, hepoch]; exact h.epoch⟩

/-- The height that EndBlock sets, and the epoch it leaves. -/
theorem endBlock_dated {s s' : AppState} {height : I64} {out : EndBlockOutcome}
    (h : endBlockState o pc s height = .ok (out, s')) (hd : Dated pc s.envelope)
    (hgrows : s.envelope.block_height.val < height.val) :
    s'.envelope.block_height = height ∧ Dated pc s'.envelope := by
  have hle : 0 ≤ height.val := hd.height.trans hgrows.le
  rcases endBlockState.spec h with ⟨hold, _, rfl⟩ | ⟨_, s2, hopen, _, rfl⟩
  · refine ⟨rfl, hle, I64.ext_val ?_⟩
    have hmono := epochOf_mono pc hd.height hgrows.le
    rw [← hd.epoch] at hmono
    exact Int.le_antisymm hmono (Int.not_lt.mp hold)
  · obtain ⟨name, _, rfl⟩ := openEpoch.spec hopen
    have hheight := chosenState_height o pc (s.atHeight height) (epochOf pc height)
    exact ⟨hheight, hle.trans_eq (congrArg I64.val hheight.symm),
      congrArg (epochOf pc) hheight.symm⟩

/-- A node whose states are in the epochs of their heights. -/
structure NodeDated (pc : ProtocolConstants) (n : Node) : Prop where
  committed : Dated pc n.conn.committed_state.envelope
  working : Dated pc n.state.envelope
  open_block : n.phase = .delivering →
    n.state.envelope.block_height = n.conn.committed_state.envelope.block_height

theorem NodeStep.dated {n n' : Node} {r : Request} (h : NodeStep o pc n r n') (hg : NodeGood o n)
    (hd : NodeDated pc n) : NodeDated pc n' := by
  cases h with
  | begun => exact ⟨hd.committed, hd.committed, fun _ => rfl⟩
  | turned_away => exact hd
  | @delivered tx s phase admitted =>
    obtain ⟨hcharged, _, hout⟩ := @NodeGood.of_admission o pc _ _ _ hg phase admitted
    have hframed := hcharged.framed.trans hout.framed
    exact ⟨hd.committed, hd.working.of_same hframed.block_height hframed.current_epoch,
      fun _ => hframed.block_height.trans (hd.open_block phase)⟩
  | @ended height s s' out phase grows current ends =>
    obtain ⟨hstate, _⟩ := hg.of_current (by simp [phase]) current
    have hopen := hd.open_block phase
    have hworking := hd.working
    rw [hstate] at hopen hworking
    have hend := endBlock_dated ends hworking (by rw [hopen]; exact grows)
    exact ⟨hd.committed, hend.2, fun hphase => by cases hphase⟩
  | @committed s c' phase current commits =>
    obtain ⟨hstate, hgood⟩ := hg.of_current (by simp [phase]) current
    have hcommit := (commit_inner.spec current hgood commits).envelope
    have hworking := hd.working
    rw [hstate] at hworking
    have hdated := hworking.of_same hcommit.block_height hcommit.current_epoch
    exact ⟨hdated, hdated, fun hphase => by cases hphase⟩
  | uploaded => exact ⟨hd.committed, hd.working, hd.open_block⟩

/-- Every state of a run is in the epoch of its height. -/
theorem reachable_dated {requests : List Request} {n : Node} (hrun : RunsTo o pc cfg requests n) :
    NodeDated pc n := by
  refine runs.run_induction (Node.step o pc) (fun _ n => NodeDated pc n) ?_ ?_ hrun
  · obtain ⟨selected, cache, _, heq⟩ := genesis.spec o pc cfg
    have hdated : Dated pc (genesis o pc cfg).conn.committed_state.envelope := by
      rw [heq]
      exact ⟨le_rfl, I64.ext_val (Int.zero_tdiv _).symm⟩
    exact ⟨hdated, hdated, fun hphase => by cases hphase⟩
  · intro earlier m r m' hm hold hs
    exact (step_cases hs).dated (reachable_good ⟨earlier, hm⟩) hold

/-! ## Selecting -/

/-- A shuffle only holds items of its list. -/
theorem mem_of_mem_shuffle {α : Type} {seed : Bytes32} {earlier : List Nat} {l : List α} {a : α}
    (h : a ∈ o.shuffle seed earlier l) : a ∈ l := by
  obtain ⟨i, _, hi⟩ := List.mem_filterMap.mp h
  exact List.mem_of_getElem? hi

theorem mem_challengePool {eligible : List CapacityValidatorInfo} {selected a : Address}
    (h : a ∈ challengePool eligible selected) : ∃ cv ∈ eligible, cv.address = a := by
  unfold challengePool at h
  simp only [List.mem_insertionSort] at h
  split at h
  · exact List.mem_map.mp h
  · obtain ⟨cv, hcv, haddr⟩ := List.mem_map.mp h
    exact ⟨cv, List.mem_of_mem_filter hcv, haddr⟩

/-- The selection is for its epoch, and only challenges providers of the registry. -/
theorem select_active_challenges {s : AppState} {epoch : I64} {active : ActiveCapacityValidator}
    (h : (select_active_capacity_validator_for_epoch o pc s epoch).envelope.active_capacity_validator =
      some active) :
    active.epoch = epoch ∧ ∀ a ∈ active.challenged_providers,
      ∃ cv ∈ s.envelope.capacity_validators, cv.address = a := by
  unfold select_active_capacity_validator_for_epoch at h
  simp only at h
  split at h
  · cases h
  · cases h
    refine ⟨rfl, fun a ha => ?_⟩
    obtain ⟨cv, hcv, haddr⟩ := mem_challengePool (mem_of_mem_shuffle (List.mem_of_mem_take ha))
    unfold eligibleValidators at hcv
    simp only [List.mem_insertionSort] at hcv
    exact ⟨cv, List.mem_of_mem_filter hcv, haddr⟩

/-! ## What a record freezes -/

/-- A record that agrees with itself: it names its epoch, as the selected validator does, and
it holds the entries of the challenged providers, in their order. -/
structure WellFormed (record : EpochRecord) (new_epoch : I64) : Prop where
  epoch : record.epoch = new_epoch
  selected : ∀ active, record.active_capacity_validator = some active → active.epoch = new_epoch
  challenged : record.challenged_capacity_validators.map (fun cv => cv.address) =
    match record.active_capacity_validator with
    | none => []
    | some active => active.challenged_providers

/-- Looking up addresses that all have an entry gives an entry for each of them. -/
theorem map_address_filterMap {l : List CapacityValidatorInfo} {ids : List Address}
    (h : ∀ a ∈ ids, ∃ cv ∈ l, cv.address = a) :
    (ids.filterMap (fun a => l.find? (fun p => p.address == a))).map (fun cv => cv.address) =
      ids := by
  induction ids with
  | nil => rfl
  | cons a ids ih =>
    obtain ⟨cv, hcv, haddr⟩ := h a List.mem_cons_self
    have hsome : (l.find? (fun p => p.address == a)).isSome = true :=
      List.find?_isSome.mpr ⟨cv, hcv, by simpa using haddr⟩
    obtain ⟨found, hfound⟩ := Option.isSome_iff_exists.mp hsome
    have hfirst : found.address = a := by simpa using List.find?_some hfound
    rw [List.filterMap_cons, hfound]
    simp only [List.map_cons, hfirst, ih (fun b hb => h b (List.mem_cons_of_mem _ hb))]

theorem build_epoch_record_wellFormed {s : AppState} {epoch : I64} :
    WellFormed (build_epoch_record pc (chosenState o pc s epoch).envelope epoch) epoch := by
  obtain ⟨selected, hsel⟩ := chosenState.spec o pc s epoch
  -- the selection reads the registry that the record reads
  have hchosen : ∀ active,
      (chosenState o pc s epoch).envelope.active_capacity_validator = some active →
      active.epoch = epoch ∧ ∀ a ∈ active.challenged_providers,
        ∃ cv ∈ (chosenState o pc s epoch).envelope.capacity_validators, cv.address = a := by
    intro active hactive
    have hselected := select_active_challenges hactive
    rw [hsel]
    exact hselected
  refine ⟨rfl, fun active hactive => (hchosen active hactive).1, ?_⟩
  rcases hactive : (chosenState o pc s epoch).envelope.active_capacity_validator with _ | active
  · simp only [build_epoch_record, hactive, List.map_nil]
  · simp only [build_epoch_record, hactive]
    exact map_address_filterMap (hchosen active hactive).2

/-- Every challenge of the opening was issued from the entry that the record holds. -/
def Covers (o : Outside) (pc : ProtocolConstants) (op : Opening) (record : EpochRecord) : Prop :=
  ∀ c ∈ op.challenges, ∃ active info, record.active_capacity_validator = some active ∧
    c.provider_id ∈ active.challenged_providers ∧
    record.challenged_capacity_validators.find? (fun p => p.address == c.provider_id) = some info ∧
    info.chunk_count.getD 0 ≠ 0 ∧ info.merkle_root = some c.merkle_root ∧
    c = challengeFor o pc (epochOf pc op.height) op.height active.validator_address c.provider_id
      (info.chunk_count.getD 0) c.merkle_root c.seed

/-- Looking an address up twice gives the entry that one lookup gives. -/
theorem find_filterMap {l : List CapacityValidatorInfo} {ids : List Address} {a : Address}
    {info : CapacityValidatorInfo} (ha : a ∈ ids)
    (h : l.find? (fun p => p.address == a) = some info) :
    (ids.filterMap (fun b => l.find? (fun p => p.address == b))).find? (fun p => p.address == a) =
      some info := by
  induction ids with
  | nil => cases ha
  | cons b ids ih =>
    by_cases hab : b = a
    · have haddr : (info.address == a) = true := by simpa using List.find?_some h
      rw [hab, List.filterMap_cons, h, List.find?_cons, haddr]
    · have ha : a ∈ ids := (List.mem_cons.mp ha).resolve_left (fun heq => hab heq.symm)
      rcases hb : l.find? (fun p => p.address == b) with _ | other
      · rw [List.filterMap_cons, hb]
        exact ih ha
      · -- the entry of another address is passed over
        have hother : other.address = b := by simpa using List.find?_some hb
        have hskip : (other.address == a) = false := by simpa [hother] using hab
        rw [List.filterMap_cons, hb, List.find?_cons, hskip]
        exact ih ha

theorem build_epoch_record_covers {height epoch : I64} (hheight : e.block_height = height)
    (hepoch : epochOf pc height = epoch) :
    Covers o pc ⟨height, issuedChallenges o pc e epoch⟩ (build_epoch_record pc e epoch) := by
  intro c hc
  obtain ⟨active, info, merkle_root, seed, hactive, hmem, hinfo, hroot, _, hcount, hceq⟩ :=
    mem_issuedChallenges hc
  have hc_root : c.merkle_root = merkle_root := by rw [hceq]; rfl
  have hc_seed : c.seed = seed := by rw [hceq]; rfl
  refine ⟨active, info, hactive, hmem, ?_, hcount, by rw [hroot, hc_root], ?_⟩
  · simp only [build_epoch_record, hactive]
    exact find_filterMap hmem hinfo
  · rw [hc_root, hc_seed]
    simp only [hepoch]
    rw [hheight] at hceq
    exact hceq

/-! ## Writing a record -/

/-- The state holds a record under the name of an epoch. -/
def Holds (o : Outside) (epoch : I64) (record : EpochRecord) (e : AppStateEnvelope) : Prop :=
  ∃ name, epoch_record_path_name epoch = .ok name ∧
    e.epochObject name = some (epoch_record_cado o record)

/-- `e'` is `e` with the record of the opening written, under its epoch and as the latest. -/
structure Written (o : Outside) (pc : ProtocolConstants) (e : AppStateEnvelope) (op : Opening)
    (record : EpochRecord) (e' : AppStateEnvelope) : Prop where
  wellFormed : WellFormed record (epochOf pc op.height)
  covers : Covers o pc op record
  holds : Holds o (epochOf pc op.height) record e'
  latest : e'.epochObject LATEST = some (epoch_record_cado o record)
  active_validators : record.active_validators = e'.active_validators
  others : ∀ k name, epoch_record_path_name k = .ok name → k ≠ epochOf pc op.height →
    e'.epochObject name = e.epochObject name

theorem openEpoch_written {s s' : AppState} {height : I64}
    (h : openEpoch o pc (s.atHeight height) (epochOf pc height) = .ok s') :
    ∃ record, Written o pc s.envelope ⟨height, issuedChallenges o pc s'.envelope (epochOf pc height)⟩
      record s'.envelope := by
  obtain ⟨name, record, hname, rfl, hrecord, hlatest, hothers⟩ := openEpoch_objects h
  obtain ⟨_, _, rfl⟩ := openEpoch.spec h
  have hformed := @build_epoch_record_wellFormed o pc (s.atHeight height) (epochOf pc height)
  have hchosen := chosenState_height o pc (s.atHeight height) (epochOf pc height)
  generalize chosenState o pc (s.atHeight height) (epochOf pc height) = chosen at *
  exact ⟨_, hformed, build_epoch_record_covers hchosen rfl, ⟨name, hname, hrecord⟩, hlatest, rfl,
    hothers⟩

/-- A call that opens an epoch writes its record. -/
theorem NodeStep.written {n n' : Node} {r : Request} {op : Opening} (h : NodeStep o pc n r n')
    (hg : NodeGood o n) (hop : opening o pc n r = some op) :
    ∃ record, Written o pc n.state.envelope op record n'.state.envelope := by
  cases h with
  | begun | turned_away | delivered | committed | uploaded => cases hop
  | @ended height s s' out phase grows current ends =>
    obtain ⟨hstate, _⟩ := hg.of_current (by simp [phase]) current
    simp only [opening, end_block_inner, current, ends] at hop
    rw [hstate]
    rcases endBlockState.spec ends with ⟨_, rfl, _⟩ | ⟨_, s2, hopen, rfl, rfl⟩
    · cases hop
    · cases hop
      exact openEpoch_written hopen

/-! ## Whole runs -/

/-- The epochs that a run enters, in order. It starts in epoch 0, which it does not enter. -/
def entered (o : Outside) (pc : ProtocolConstants) (cfg : GenesisConfig)
    (requests : List Request) : List I64 :=
  (openings o pc cfg requests).map (fun op => epochOf pc op.height)

/-- What a run so far has left under the paths of the records. -/
structure RecordsKept (o : Outside) (pc : ProtocolConstants) (cfg : GenesisConfig)
    (requests : List Request) (n : Node) : Prop where
  written : ∀ op ∈ openings o pc cfg requests, ∃ record, WellFormed record (epochOf pc op.height) ∧
    Covers o pc op record ∧ Holds o (epochOf pc op.height) record n.state.envelope
  unwritten : ∀ k name, epoch_record_path_name k = .ok name → k ∉ entered o pc cfg requests →
    n.state.envelope.epochObject name = none
  latest_none : entered o pc cfg requests = [] → n.state.envelope.epochObject LATEST = none
  latest : ∀ k ∈ (entered o pc cfg requests).getLast?, ∃ record,
    Holds o k record n.state.envelope ∧
    n.state.envelope.epochObject LATEST = some (epoch_record_cado o record)
  current : n.state.envelope.current_epoch = (entered o pc cfg requests).getLast?.getD I64.zero

theorem Holds.of_same {k : I64} {record : EpochRecord} (h : Holds o k record e)
    (hs : SameEpochs e e') : Holds o k record e' := by
  obtain ⟨name, hname, hobject⟩ := h
  exact ⟨name, hname, (hs.objects name).trans hobject⟩

theorem Holds.of_written {k : I64} {op : Opening} {record record' : EpochRecord}
    (h : Holds o k record e) (hw : Written o pc e op record' e') (hk : k ≠ epochOf pc op.height) :
    Holds o k record e' := by
  obtain ⟨name, hname, hobject⟩ := h
  exact ⟨name, hname, (hw.others k name hname hk).trans hobject⟩

theorem RecordsKept.kept {requests : List Request} {n n' : Node} {r : Request}
    (h : RecordsKept o pc cfg requests n)
    (hops : openings o pc cfg (requests ++ [r]) = openings o pc cfg requests)
    (hsame : SameEpochs n.state.envelope n'.state.envelope) :
    RecordsKept o pc cfg (requests ++ [r]) n' := by
  have hentered : entered o pc cfg (requests ++ [r]) = entered o pc cfg requests := by
    unfold entered
    rw [hops]
  refine ⟨fun op hop => ?_, fun k name hname hk => ?_, fun hnil => ?_, fun k hk => ?_, ?_⟩
  · obtain ⟨record, hformed, hcovers, hholds⟩ := h.written op (hops ▸ hop)
    exact ⟨record, hformed, hcovers, hholds.of_same hsame⟩
  · rw [hsame.objects]
    exact h.unwritten k name hname (hentered ▸ hk)
  · rw [hsame.objects]
    exact h.latest_none (hentered ▸ hnil)
  · obtain ⟨record, hholds, hlatest⟩ := h.latest k (hentered ▸ hk)
    exact ⟨record, hholds.of_same hsame, (hsame.objects _).trans hlatest⟩
  · rw [hsame.current_epoch, hentered]
    exact h.current

theorem RecordsKept.opened {requests : List Request} {n n' : Node} {r : Request} {op : Opening}
    {record : EpochRecord} (h : RecordsKept o pc cfg requests n)
    (hops : openings o pc cfg (requests ++ [r]) = openings o pc cfg requests ++ [op])
    (hnew : epochOf pc op.height ∉ entered o pc cfg requests)
    (hw : Written o pc n.state.envelope op record n'.state.envelope)
    (hcurrent : n'.state.envelope.current_epoch = epochOf pc op.height) :
    RecordsKept o pc cfg (requests ++ [r]) n' := by
  have hentered : entered o pc cfg (requests ++ [r]) =
      entered o pc cfg requests ++ [epochOf pc op.height] := by
    unfold entered
    rw [hops, List.map_append]
    rfl
  refine ⟨fun old hold => ?_, fun k name hname hk => ?_, fun hnil => ?_, fun k hk => ?_, ?_⟩
  · rw [hops, List.mem_append, List.mem_singleton] at hold
    rcases hold with hold | rfl
    · obtain ⟨record', hformed, hcovers, hholds⟩ := h.written old hold
      refine ⟨record', hformed, hcovers, hholds.of_written hw ?_⟩
      intro heq
      exact hnew (heq ▸ List.mem_map_of_mem hold)
    · exact ⟨record, hw.wellFormed, hw.covers, hw.holds⟩
  · rw [hentered, List.mem_append, List.mem_singleton, not_or] at hk
    rw [hw.others k name hname hk.2]
    exact h.unwritten k name hname hk.1
  · rw [hentered] at hnil
    simp at hnil
  · rw [hentered, List.getLast?_concat, Option.mem_some] at hk
    subst hk
    exact ⟨record, hw.holds, hw.latest⟩
  · rw [hcurrent, hentered, List.getLast?_concat]
    rfl

/-- In every run each record stands where it was written, and the latest one is the last. -/
theorem records_kept {requests : List Request} {n : Node} (hrun : RunsTo o pc cfg requests n) :
    RecordsKept o pc cfg requests n := by
  refine runs.run_induction (Node.step o pc) (RecordsKept o pc cfg) ?_ ?_ hrun
  · obtain ⟨selected, cache, hcache, heq⟩ := genesis.spec o pc cfg
    have hnone : ∀ name, (genesis o pc cfg).state.envelope.epochObject name = none := by
      intro name
      have hstate : (genesis o pc cfg).state.envelope =
        (genesis o pc cfg).conn.committed_state.envelope := rfl
      rw [hstate, heq]
      unfold AppStateEnvelope.epochObject AppStateEnvelope.working
      rcases hget : cache[CadoPath.epoch_record name]? with _ | b
      · simp [AppStateEnvelope.default]
      · obtain ⟨a, ha⟩ := hcache (.epoch_record name) (by rw [hget]; rfl)
        cases ha
    refine ⟨fun op hop => (by cases hop), fun k name _ _ => hnone name, fun _ => hnone LATEST,
      fun k hk => (by cases hk), ?_⟩
    exact (congrArg AppStateEnvelope.current_epoch heq :)
  · intro earlier m r m' hm hold hs
    have hgood := RunsTo.good hm
    cases (step_cases hs).epochs hgood with
    | kept hnone hsame =>
      refine hold.kept ?_ hsame
      rw [openings_snoc r hm, hnone]
      exact List.append_nil _
    | @opened op hsome hopened =>
      obtain ⟨record, hw⟩ := (step_cases hs).written hgood hsome
      refine hold.opened ?_ ?_ hw hopened.current_epoch
      · rw [openings_snoc r hm, hsome]
        rfl
      · -- the epochs entered before are not later than the current one
        intro hmem
        obtain ⟨old, hmem, heq⟩ := List.mem_map.mp hmem
        have hpast := (opened_epochs hm).past old hmem
        have hlater := hopened.later
        rw [heq] at hpast
        omega

/-- A record that was written stays as it is in every later state. -/
theorem Holds.later {requests later : List Request} {n m : Node} {op : Opening}
    {record : EpochRecord} (hrun : RunsTo o pc cfg requests n)
    (hop : op ∈ openings o pc cfg requests)
    (h : Holds o (epochOf pc op.height) record n.state.envelope)
    (hm : RunsTo o pc cfg (requests ++ later) m) :
    Holds o (epochOf pc op.height) record m.state.envelope := by
  induction later using List.reverseRecOn generalizing m with
  | nil =>
    rw [List.append_nil, RunsTo, hrun] at hm
    cases hm
    exact h
  | append_singleton later r ih =>
    unfold RunsTo at hm
    rw [← List.append_assoc, runs.run_snoc] at hm
    obtain ⟨t, ht, hs⟩ := Option.bind_eq_some_iff.mp hm
    have hgood := RunsTo.good ht
    cases (step_cases hs).epochs hgood with
    | kept _ hsame => exact (ih ht).of_same hsame
    | @opened op' hsome hopened =>
      obtain ⟨record', hw⟩ := (step_cases hs).written hgood hsome
      refine (ih ht).of_written hw ?_
      intro heq
      have hpast := (opened_epochs ht).past op (openings_of_earlier (List.prefix_append _ _) hop)
      have hlater := hopened.later
      rw [heq] at hpast
      omega

/-- The record that a node reads for an epoch. -/
def Node.get_epoch_record (o : Outside) (n : Node) (epoch : I64) :
    Except EldError (Option EpochRecord) :=
  n.state.envelope.get_epoch_record o n.conn.storage epoch

/-- The object that a node finds at a path. -/
def Node.lookup (o : Outside) (n : Node) (path : CadoPath) : Option (CadoBody CadoData) :=
  n.state.envelope.lookup_cado_staged_committed_then_db o n.conn.storage path

theorem NodeGood.lookup_epoch {n : Node} (h : NodeGood o n) (name : Bytes32) :
    n.lookup o (.epoch_record name) = n.state.envelope.epochObject name :=
  lookup_of_good h.working.committed _ rfl

/-- What a node reads for an epoch whose object it holds, or does not hold. -/
theorem NodeGood.get_epoch_record {n : Node} (h : NodeGood o n) {k : I64} {name : Bytes32}
    (hname : epoch_record_path_name k = .ok name) {r : Option EpochRecord}
    (hobject : n.state.envelope.epochObject name = r.map (epoch_record_cado o)) :
    n.get_epoch_record o k = .ok r := by
  unfold Node.get_epoch_record AppStateEnvelope.get_epoch_record
  have hlookup := h.lookup_epoch name
  unfold Node.lookup at hlookup
  simp only [hname, hlookup, hobject]
  cases r <;> rfl

/-- Over every run each entered epoch has one record. It is well formed, it stands in every
later state, and every later state reads it back. An epoch that is not entered has none, and
the latest record is that of the epoch entered last, which is the current one. -/
theorem epoch_records_are_written_once (o : Outside) (pc : ProtocolConstants) (cfg : GenesisConfig)
    (requests : List Request) (n : Node) (hrun : RunsTo o pc cfg requests n) :
    (entered o pc cfg requests).Nodup ∧
    (∀ k ∈ entered o pc cfg requests, ∃ record name, WellFormed record k ∧
      epoch_record_path_name k = .ok name ∧ ∀ later m, RunsTo o pc cfg (requests ++ later) m →
        m.lookup o (.epoch_record name) = some (epoch_record_cado o record) ∧
        m.get_epoch_record o k = .ok (some record)) ∧
    (∀ k : I64, 0 ≤ k.val → k ∉ entered o pc cfg requests → n.get_epoch_record o k = .ok none) ∧
    n.state.envelope.current_epoch = (entered o pc cfg requests).getLast?.getD I64.zero ∧
    match (entered o pc cfg requests).getLast? with
    | none => n.lookup o (.epoch_record LATEST) = none
    | some k => ∃ record, n.get_epoch_record o k = .ok (some record) ∧
        n.lookup o (.epoch_record LATEST) = some (epoch_record_cado o record) := by
  have hkept := records_kept hrun
  have hgood := hrun.good
  refine ⟨(opened_epochs hrun).nodup, fun k hk => ?_, fun k hk hnone => ?_, hkept.current, ?_⟩
  · obtain ⟨op, hop, rfl⟩ := List.mem_map.mp hk
    obtain ⟨record, hformed, _, hholds⟩ := hkept.written op hop
    have hstored := hholds
    obtain ⟨name, hname, _⟩ := hstored
    refine ⟨record, name, hformed, hname, fun later m hm => ?_⟩
    have hm_good := hm.good
    obtain ⟨name', hname', hobject⟩ := Holds.later hrun hop hholds hm
    rw [hname] at hname'
    cases hname'
    exact ⟨(hm_good.lookup_epoch name).trans hobject,
      hm_good.get_epoch_record hname (r := some record) hobject⟩
  · have hname : epoch_record_path_name k = .ok (BitVec.ofNat 256 k.val.toNat) := by
      unfold epoch_record_path_name
      rw [if_neg (by omega)]
    exact hgood.get_epoch_record hname (r := none) (hkept.unwritten k _ hname hnone)
  · rcases hlast : (entered o pc cfg requests).getLast? with _ | k
    · exact (hgood.lookup_epoch LATEST).trans
        (hkept.latest_none (List.getLast?_eq_none_iff.mp hlast))
    · obtain ⟨record, ⟨name, hname, hobject⟩, hlatest⟩ := hkept.latest k hlast
      exact ⟨record, hgood.get_epoch_record hname (r := some record) hobject,
        (hgood.lookup_epoch LATEST).trans hlatest⟩

theorem epoch_records_are_written_once_on_firstEpoch :
    ∃ n record, RunsTo Outside.toy smallConstants smallConfig firstEpoch n ∧
      entered Outside.toy smallConstants smallConfig firstEpoch = [smallHeight 1] ∧
      n.get_epoch_record Outside.toy (smallHeight 1) = .ok (some record) ∧
      WellFormed record (smallHeight 1) ∧
      n.get_epoch_record Outside.toy I64.zero = .ok none := by
  obtain ⟨n, hn, _⟩ := @smallRun_ends firstEpoch (fun _ => true) (by decide +kernel)
  have hentered : entered Outside.toy smallConstants smallConfig firstEpoch = [smallHeight 1] := by
    decide +kernel
  obtain ⟨_, hwritten, hunwritten, _, _⟩ :=
    epoch_records_are_written_once Outside.toy smallConstants smallConfig firstEpoch n hn
  obtain ⟨record, name, hformed, _, hlater⟩ := hwritten (smallHeight 1) (by simp [hentered])
  have hnone := hunwritten I64.zero le_rfl (by rw [hentered]; decide)
  exact ⟨n, record, hn, hentered, (hlater [] n (by simpa using hn)).2, hformed, hnone⟩

end eld_chain
