-- The active validators: EndBlock selects them when it opens an epoch,
-- records them and reports them to Tendermint. Commit selects again at
-- the last block of an epoch, from a list that may have changed since,
-- and there the committed set leaves its epoch behind.
import EldChain.EpochRecords

open Std

namespace eld_chain

variable {o : Outside} {pc : ProtocolConstants} {cfg : GenesisConfig}
variable {e e' : AppStateEnvelope} {st st' : Storage}

/-! ## Reports -/

/-- What an EndBlock reports to Tendermint when it opens an epoch. -/
structure Report where
  height : I64
  updates : List ValidatorUpdate

/-- The report that a call makes. -/
def report (o : Outside) (pc : ProtocolConstants) (n : Node) : Request → Option Report
  | .EndBlock height =>
    match end_block_inner o pc n.conn height with
    | .ok (out, _) => out.validator_updates.map (fun updates => ⟨height, updates⟩)
    | .error _ => none
  | _ => none

/-- The reports of a run, in order. -/
def reports (o : Outside) (pc : ProtocolConstants) (cfg : GenesisConfig)
    (requests : List Request) : List Report :=
  (runs.visits (Node.step o pc) requests (genesis o pc cfg)).filterMap
    (fun v => report o pc v.1 v.2)

theorem reports_snoc {requests : List Request} {n : Node} (r : Request)
    (h : RunsTo o pc cfg requests n) :
    reports o pc cfg (requests ++ [r]) = reports o pc cfg requests ++ (report o pc n r).toList := by
  unfold reports
  rw [runs.visits_snoc _ r h, List.filterMap_append]
  rcases hd : report o pc n r with _ | d <;> simp [hd]

/-- The validators that a state would select. -/
def AppStateEnvelope.selection (pc : ProtocolConstants) (e : AppStateEnvelope) :
    List ValidatorInfo := (sortedValidators e.validators).take pc.validators_per_epoch

/-- `e'` is in an epoch that was opened from `e`, with the validators selected, recorded and
reported. -/
structure Selected (o : Outside) (pc : ProtocolConstants) (e : AppStateEnvelope) (rep : Report)
    (e' : AppStateEnvelope) : Prop where
  later : e.current_epoch.val < e'.current_epoch.val
  active_validators : e'.active_validators = e'.selection pc
  recorded : ∃ record, Holds o e'.current_epoch record e' ∧
    record.active_validators = e'.active_validators
  height : rep.height = e'.block_height
  updates : rep.updates = validatorUpdates e'

/-- EndBlock leaves the active validators, or selects and reports those of a new epoch. -/
theorem endBlock_active {s s' : AppState} {height : I64} {out : EndBlockOutcome}
    (h : endBlockState o pc s height = .ok (out, s')) :
    (out.validator_updates = none ∧ s'.envelope.current_epoch = s.envelope.current_epoch ∧
      s'.envelope.active_validators = s.envelope.active_validators) ∨
    ∃ updates, out.validator_updates = some updates ∧
      Selected o pc s.envelope ⟨height, updates⟩ s'.envelope := by
  rcases endBlockState.spec h with ⟨_, rfl, rfl⟩ | ⟨hlater, s2, hopen, rfl, rfl⟩
  · exact Or.inl ⟨rfl, rfl, rfl⟩
  · refine Or.inr ⟨_, rfl, ?_⟩
    obtain ⟨record, hw⟩ := openEpoch_written hopen
    obtain ⟨name, _, rfl⟩ := openEpoch.spec hopen
    obtain ⟨selected, hsel⟩ := chosenState.spec o pc (s.atHeight height) (epochOf pc height)
    refine ⟨hlater, ?_, ⟨record, hw.holds, hw.active_validators⟩, ?_, rfl⟩
    · change (chosenState o pc (s.atHeight height) (epochOf pc height)).envelope.active_validators =
        (chosenState o pc (s.atHeight height) (epochOf pc height)).envelope.selection pc
      rw [hsel]
      rfl
    · exact (chosenState_height o pc (s.atHeight height) (epochOf pc height)).symm

/-! ## The active set of an open block -/

/-- The open block is still in the epoch of the last commit, with its active validators. -/
structure Unopened (n : Node) : Prop where
  current_epoch : n.state.envelope.current_epoch = n.conn.committed_state.envelope.current_epoch
  active_validators :
    n.state.envelope.active_validators = n.conn.committed_state.envelope.active_validators

/-- What an open block has done to the active validators so far. -/
inductive ActiveSet (o : Outside) (pc : ProtocolConstants) (cfg : GenesisConfig)
    (requests : List Request) (n : Node) : Prop
  | unopened (same : Unopened n)
  | opened (rep : Report) (phase : n.phase = .ended)
      (last : (reports o pc cfg requests).getLast? = some rep)
      (selected : Selected o pc n.conn.committed_state.envelope rep n.state.envelope)

theorem Unopened.idle {n : Node} (h : n.phase = .idle) : Unopened n := by
  have hstate := state_of_idle h
  exact ⟨by rw [hstate], by rw [hstate]⟩

theorem NodeStep.active {requests : List Request} {n n' : Node} {r : Request}
    (h : NodeStep o pc n r n') (hg : NodeGood o n) (hrun : RunsTo o pc cfg requests n)
    (ha : ActiveSet o pc cfg requests n) : ActiveSet o pc cfg (requests ++ [r]) n' := by
  -- only EndBlock ends a block, so a delivering node has opened nothing
  have hopen : n.phase = .delivering → Unopened n := by
    intro hphase
    cases ha with
    | unopened same => exact same
    | opened rep phase => rw [hphase] at phase; cases phase
  cases h with
  | begun => exact .unopened ⟨rfl, rfl⟩
  | turned_away request phase => exact .unopened (hopen phase)
  | @delivered tx s phase admitted =>
    obtain ⟨hcharged, _, hout⟩ := @NodeGood.of_admission o pc _ _ _ hg phase admitted
    have hframed := hcharged.framed.trans hout.framed
    have hsame := hopen phase
    exact .unopened ⟨hframed.current_epoch.trans hsame.current_epoch,
      hframed.active_validators.trans hsame.active_validators⟩
  | @ended height s s' out phase grows current ends =>
    obtain ⟨hstate, _⟩ := hg.of_current (by simp [phase]) current
    have hsame := hopen phase
    have hepoch := hsame.current_epoch
    have hactive := hsame.active_validators
    rw [hstate] at hepoch hactive
    rcases endBlock_active ends with ⟨_, hepoch', hactive'⟩ | ⟨updates, hupdates, hsel⟩
    · exact .unopened ⟨hepoch'.trans hepoch, hactive'.trans hactive⟩
    · refine .opened ⟨height, updates⟩ rfl ?_
        ⟨by rw [← hepoch]; exact hsel.later, hsel.active_validators, hsel.recorded, hsel.height,
          hsel.updates⟩
      have hreport : report o pc n (.EndBlock height) = some ⟨height, updates⟩ := by
        simp only [report, end_block_inner, current, ends, hupdates, Option.map_some]
      rw [reports_snoc _ hrun, hreport]
      exact List.getLast?_concat
  | committed => exact .unopened (.idle rfl)
  | uploaded content_key blob =>
    cases ha with
    | unopened same => exact .unopened ⟨same.current_epoch, same.active_validators⟩
    | opened rep phase last selected =>
      refine .opened rep phase ?_ selected
      rw [reports_snoc _ hrun]
      exact (congrArg List.getLast? (List.append_nil _)).trans last

/-- In every run an open block has either left the active validators of the last commit, or
selected those of a new epoch. -/
theorem active_set {requests : List Request} {n : Node} (hrun : RunsTo o pc cfg requests n) :
    ActiveSet o pc cfg requests n := by
  refine runs.run_induction (Node.step o pc) (ActiveSet o pc cfg) (.unopened (.idle rfl)) ?_ hrun
  intro earlier m r m' hm hold hs
  exact (step_cases hs).active (reachable_good ⟨earlier, hm⟩) hm hold

/-! ## Commits -/

/-- The active validators that a node has committed. -/
def Node.committedActive (n : Node) : List ValidatorInfo :=
  n.conn.committed_state.envelope.active_validators

/-- The epoch that a node has committed. -/
def Node.committedEpoch (n : Node) : I64 := n.conn.committed_state.envelope.current_epoch

/-- The law of the active set for the commit that leads from `m` to `n`: the set only changes
when the block opened an epoch, and then it is the one of the record of that epoch and the one
that the EndBlock of the block reported. -/
structure ActiveSetLaw (o : Outside) (pc : ProtocolConstants) (cfg : GenesisConfig)
    (earlier : List Request) (m n : Node) : Prop where
  changes : n.committedActive ≠ m.committedActive → m.committedEpoch.val < n.committedEpoch.val
  opened : m.committedEpoch.val < n.committedEpoch.val →
    (∃ record, n.get_epoch_record o n.committedEpoch = .ok (some record) ∧
      record.active_validators = n.committedActive) ∧
    ∃ rep, (reports o pc cfg earlier).getLast? = some rep ∧
      rep.height = n.conn.committed_state.envelope.block_height ∧
      rep.updates = n.committedActive.map (fun v => ⟨10, v.public_key⟩)

/-- The commit of a block that opened no epoch selects validators for the next one, and they
are not the active ones. -/
def Preselects (pc : ProtocolConstants) (m : Node) : Prop :=
  m.state.envelope.current_epoch = m.committedEpoch ∧
    m.state.envelope.current_epoch.val <
      (m.state.envelope.block_height.val + 1).tdiv pc.blocks_per_epoch.val ∧
    m.state.envelope.selection pc ≠ m.state.envelope.active_validators

/-- Selecting twice from one list selects the same. -/
theorem selectForNextEpoch_selected (h : e.active_validators = e.selection pc) :
    (selectForNextEpoch pc e).active_validators = e.active_validators := by
  unfold selectForNextEpoch
  split
  · exact h.symm
  · rfl

/-- A commit keeps the active validators unless it selects other ones. -/
theorem selectForNextEpoch_active_iff :
    (selectForNextEpoch pc e).active_validators = e.active_validators ↔
      ¬ (e.current_epoch.val < (e.block_height.val + 1).tdiv pc.blocks_per_epoch.val ∧
        e.selection pc ≠ e.active_validators) := by
  unfold selectForNextEpoch
  split
  · rename_i hnext
    rw [not_and, not_not]
    exact ⟨fun h _ => h, fun h => h hnext⟩
  · rename_i hnext
    exact ⟨fun _ h => hnext h.1, fun _ => rfl⟩

/-- A commit of a block that opened no epoch: the law asks for the set of the last commit. -/
theorem law_iff_of_unopened {earlier : List Request} {m n : Node}
    (hepoch : n.committedEpoch = m.committedEpoch) :
    ActiveSetLaw o pc cfg earlier m n ↔ n.committedActive = m.committedActive := by
  have hclosed : ¬ m.committedEpoch.val < n.committedEpoch.val := by
    rw [hepoch]
    exact lt_irrefl _
  constructor
  · intro h
    by_contra hne
    exact hclosed (h.changes hne)
  · intro h
    exact ⟨fun hne => absurd h hne, fun hopened => absurd hopened hclosed⟩

/-- A commit of a block that opened an epoch: the set is the recorded and the reported one. -/
theorem Selected.law {earlier : List Request} {m n : Node} {rep : Report}
    (h : Selected o pc m.conn.committed_state.envelope rep e)
    (hlast : (reports o pc cfg earlier).getLast? = some rep) (hn : Reachable o pc cfg n)
    (hidle : n.phase = .idle) (hcommit : Committed o pc e n.conn.committed_state.envelope) :
    ActiveSetLaw o pc cfg earlier m n := by
  have hepoch : n.committedEpoch = e.current_epoch := hcommit.current_epoch
  have hlater : m.committedEpoch.val < n.committedEpoch.val := by
    rw [hepoch]
    exact h.later
  have hkept : n.committedActive = e.active_validators :=
    hcommit.active_validators.trans (selectForNextEpoch_selected h.active_validators)
  refine ⟨fun _ => hlater, fun _ => ⟨?_, rep, hlast, ?_, ?_⟩⟩
  · obtain ⟨record, hholds, hrecord⟩ := h.recorded
    have hholds' := hholds.of_same hcommit.sameEpochs
    rw [← state_of_idle hidle] at hholds'
    obtain ⟨name, hname, hobject⟩ := hholds'
    rw [hepoch]
    exact ⟨record, (reachable_good hn).get_epoch_record hname (r := some record) hobject,
      hrecord.trans hkept.symm⟩
  · exact h.height.trans hcommit.block_height.symm
  · rw [h.updates, hkept]
    rfl

theorem commit_active_iff {earlier : List Request} {m n : Node} (hm : RunsTo o pc cfg earlier m)
    (hn : RunsTo o pc cfg (earlier ++ [.Commit]) n) :
    ActiveSetLaw o pc cfg earlier m n ↔ ¬ Preselects pc m := by
  obtain ⟨m₀, s, hm₀, hphase, hs, hgood, hstep, hidle⟩ := commit_of_run hn
  have hm_eq : m = m₀ := Option.some.inj (hm.symm.trans hm₀)
  subst hm_eq
  have hstate := state_of_current (by simp [hphase]) hs
  have hcommit := hstep.envelope
  unfold Preselects
  cases active_set hm with
  | unopened same =>
    obtain ⟨hepoch, hactive⟩ := same
    have hepoch : m.state.envelope.current_epoch = m.committedEpoch := hepoch
    have hactive : m.state.envelope.active_validators = m.committedActive := hactive
    rw [hstate] at hepoch hactive ⊢
    have hset : n.committedActive = (selectForNextEpoch pc s.envelope).active_validators :=
      hcommit.active_validators
    rw [law_iff_of_unopened (hcommit.current_epoch.trans hepoch), hset, ← hactive,
      selectForNextEpoch_active_iff]
    simp only [hepoch, true_and]
  | opened rep _ last selected =>
    have hnot : m.state.envelope.current_epoch ≠ m.committedEpoch := by
      intro heq
      have hlater : m.committedEpoch.val < m.state.envelope.current_epoch.val := selected.later
      rw [heq] at hlater
      exact lt_irrefl _ hlater
    rw [hstate] at selected
    exact ⟨fun _ h => hnot h.1, fun _ => selected.law last ⟨_, hn⟩ hidle hcommit⟩

/-- In a run every commit obeys the law of the active set exactly when no commit selects other
validators before their epoch opens. -/
theorem the_active_set_changes_at_epoch_starts (o : Outside) (pc : ProtocolConstants)
    (cfg : GenesisConfig) (requests : List Request) :
    (∀ earlier m n, RunsTo o pc cfg earlier m → RunsTo o pc cfg (earlier ++ [.Commit]) n →
      earlier ++ [.Commit] <+: requests → ActiveSetLaw o pc cfg earlier m n) ↔
    ∀ earlier m n, RunsTo o pc cfg earlier m → RunsTo o pc cfg (earlier ++ [.Commit]) n →
      earlier ++ [.Commit] <+: requests → ¬ Preselects pc m := by
  constructor
  · intro h earlier m n hm hn hp
    exact (commit_active_iff hm hn).mp (h earlier m n hm hn hp)
  · intro h earlier m n hm hn hp
    exact (commit_active_iff hm hn).mpr (h earlier m n hm hn hp)

/-- A chain with one genesis validator. -/
def validatorConfig : GenesisConfig :=
  { smallConfig with validators := [⟨smallHeight 10, some (List.replicate 32 3)⟩] }

/-- What evaluating a run of that chain shows. -/
theorem validatorRun_ends {requests : List Request} {p : Node → Bool}
    (h : (runs.run (Node.step Outside.toy smallConstants) requests
      (genesis Outside.toy smallConstants validatorConfig)).any p = true) :
    ∃ n, RunsTo Outside.toy smallConstants validatorConfig requests n ∧ p n = true :=
  (Option.any_eq_true p _).mp h

/-- Alice stakes in the first block, the last one of its epoch. -/
def stakedBlock : List Request :=
  [.BeginBlock, .DeliverTx (.ok (aliceStakes 1 'a' hexVal_a)), .EndBlock (smallHeight 1)]

/-- The block opens no epoch, and its commit makes Alice an active validator. -/
theorem stakedBlock_changes_the_active_set :
    ∃ m n, RunsTo Outside.toy smallConstants validatorConfig stakedBlock m ∧
      RunsTo Outside.toy smallConstants validatorConfig (stakedBlock ++ [.Commit]) n ∧
      n.committedEpoch = m.committedEpoch ∧ n.committedActive ≠ m.committedActive ∧
      ¬ ActiveSetLaw Outside.toy smallConstants validatorConfig stakedBlock m n := by
  obtain ⟨m, hm, hbefore⟩ := @validatorRun_ends stakedBlock
    (fun m => m.committedEpoch == I64.zero && m.committedActive.length == 1) (by decide +kernel)
  obtain ⟨n, hn, hafter⟩ := @validatorRun_ends (stakedBlock ++ [.Commit])
    (fun n => n.committedEpoch == I64.zero && n.committedActive.length == 2) (by decide +kernel)
  simp only [Bool.and_eq_true, beq_iff_eq] at hbefore hafter
  have hepoch : n.committedEpoch = m.committedEpoch := hafter.1.trans hbefore.1.symm
  have hne : n.committedActive ≠ m.committedActive := by
    intro heq
    rw [heq, hbefore.2] at hafter
    exact absurd hafter.2 (by decide)
  refine ⟨m, n, hm, hn, hepoch, hne, fun h => ?_⟩
  have hlater := h.changes hne
  rw [hepoch] at hlater
  exact lt_irrefl _ hlater

end eld_chain
