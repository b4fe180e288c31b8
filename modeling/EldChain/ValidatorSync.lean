-- Tendermint keeps its own validator set, from genesis and from what
-- EndBlock reports. The reports only ever name the active validators, so
-- a key that was once in the set stays there, and the two sets agree as
-- long as every epoch selects all the keys of the ones before.
import EldChain.ActiveValidators
import EldChain.Library.KeyedSets

open Std

namespace eld_chain

variable {o : Outside} {pc : ProtocolConstants} {cfg : GenesisConfig}
variable {e e' : AppStateEnvelope} {st st' : Storage}

/-! ## Tendermint's set -/

/-- The keys of Tendermint's validators with their powers. A key that is not an Ed25519 key
is `none`. -/
abbrev TendermintSet := List (Option Bytes × Int)

/-- The validator set of genesis. InitChain answers with no updates, so Tendermint keeps it. -/
def genesisSet (cfg : GenesisConfig) : TendermintSet :=
  keyed.putAll [] (cfg.validators.map (fun v => (v.ed25519, v.power.val)))

/-- The updates of a report, as Tendermint reads them. -/
def Report.entries (rep : Report) : TendermintSet :=
  rep.updates.map (fun u => (some u.pub_key, u.power))

/-- Tendermint's set after a run. -/
def tendermintSet (o : Outside) (pc : ProtocolConstants) (cfg : GenesisConfig)
    (requests : List Request) : TendermintSet :=
  (reports o pc cfg requests).foldl (fun set rep => keyed.putAll set rep.entries) (genesisSet cfg)

theorem tendermintSet_snoc {requests : List Request} {n : Node} {r : Request} {rep : Report}
    (h : RunsTo o pc cfg requests n) (hr : report o pc n r = some rep) :
    tendermintSet o pc cfg (requests ++ [r]) =
      keyed.putAll (tendermintSet o pc cfg requests) rep.entries := by
  unfold tendermintSet
  rw [reports_snoc r h, hr, List.foldl_append]
  rfl

/-! ## One report -/

/-- A report names the keys that the state before it selects, each with power 10. -/
theorem NodeStep.reported {n n' : Node} {r : Request} {rep : Report} (h : NodeStep o pc n r n')
    (hg : NodeGood o n) (hrep : report o pc n r = some rep) :
    n'.state.envelope.active_validators = n.state.envelope.selection pc ∧
      rep.updates = validatorUpdates n'.state.envelope := by
  cases h with
  | begun | turned_away | delivered | committed | uploaded => cases hrep
  | @ended height s s' out phase grows current ends =>
    obtain ⟨hstate, _⟩ := hg.of_current (by simp [phase]) current
    simp only [report, end_block_inner, current, ends] at hrep
    rw [hstate]
    rcases endBlockState.spec ends with ⟨_, rfl, _⟩ | ⟨_, s2, hopen, rfl, rfl⟩
    · cases hrep
    · cases hrep
      obtain ⟨name, _, rfl⟩ := openEpoch.spec hopen
      obtain ⟨selected, hsel⟩ := chosenState.spec o pc (s.atHeight height) (epochOf pc height)
      refine ⟨?_, rfl⟩
      change (chosenState o pc (s.atHeight height) (epochOf pc height)).envelope.active_validators =
        s.envelope.selection pc
      rw [hsel]
      rfl

/-- The keys of a list of validators. -/
def validatorKeys (l : List ValidatorInfo) : List (Option Bytes) :=
  l.map (fun v => some v.public_key)

theorem entries_of_updates {rep : Report} (h : rep.updates = validatorUpdates e) :
    keyed.keys rep.entries = validatorKeys e.active_validators ∧ ∀ u ∈ rep.entries, u.2 ≠ 0 := by
  unfold Report.entries validatorKeys keyed.keys
  rw [h]
  unfold validatorUpdates
  constructor
  · simp only [List.map_map]
    rfl
  · intro u hu
    obtain ⟨x, hx, rfl⟩ := List.mem_map.mp hu
    obtain ⟨v, _, rfl⟩ := List.mem_map.mp hx
    exact (by decide : (10 : Int) ≠ 0)

/-- After the report Tendermint holds exactly the keys of the active validators, and the
report names no key twice. -/
structure Synced (set : TendermintSet) (rep : Report) (e : AppStateEnvelope) : Prop where
  keys : ∀ k, k ∈ keyed.keys set ↔ k ∈ validatorKeys e.active_validators
  nodup : (rep.updates.map (fun u => u.pub_key)).Nodup

/-- The state selects every key that Tendermint holds, and no key twice. -/
structure SelectsAll (pc : ProtocolConstants) (set : TendermintSet) (e : AppStateEnvelope) :
    Prop where
  kept : keyed.keys set ⊆ validatorKeys (e.selection pc)
  distinct : ((e.selection pc).map (fun v => v.public_key)).Nodup

theorem report_synced_iff {requests : List Request} {n n' : Node} {r : Request} {rep : Report}
    (hrun : RunsTo o pc cfg requests n) (hstep : n.step o pc r = some n')
    (hrep : report o pc n r = some rep) :
    Synced (tendermintSet o pc cfg (requests ++ [r])) rep n'.state.envelope ↔
      SelectsAll pc (tendermintSet o pc cfg requests) n.state.envelope := by
  obtain ⟨hactive, hupdates⟩ :=
    (step_cases hstep).reported (reachable_good ⟨requests, hrun⟩) hrep
  obtain ⟨hkeys, hpowers⟩ := entries_of_updates hupdates
  have hset := keyed.keys_putAll_eq_iff hpowers (tendermintSet o pc cfg requests)
  rw [← tendermintSet_snoc hrun hrep, hkeys, hactive] at hset
  have hnodup : rep.updates.map (fun u => u.pub_key) =
      (n.state.envelope.selection pc).map (fun v => v.public_key) := by
    rw [hupdates, ← hactive]
    unfold validatorUpdates
    rw [List.map_map]
    rfl
  constructor
  · intro h
    have hmem := h.keys
    rw [hactive] at hmem
    exact ⟨hset.mp hmem, hnodup ▸ h.nodup⟩
  · intro h
    refine ⟨?_, hnodup ▸ h.distinct⟩
    rw [hactive]
    exact hset.mpr h.kept

/-! ## Whole runs -/

/-- In a run Tendermint's set is the active set after every report exactly when each of them
selects all the keys that Tendermint holds, and no key twice. -/
theorem tendermint_follows_the_active_set (o : Outside) (pc : ProtocolConstants)
    (cfg : GenesisConfig) (requests : List Request) :
    (∀ earlier m r rep m', RunsTo o pc cfg earlier m → RunsTo o pc cfg (earlier ++ [r]) m' →
      earlier ++ [r] <+: requests → report o pc m r = some rep →
      Synced (tendermintSet o pc cfg (earlier ++ [r])) rep m'.state.envelope) ↔
    ∀ earlier m r rep m', RunsTo o pc cfg earlier m → RunsTo o pc cfg (earlier ++ [r]) m' →
      earlier ++ [r] <+: requests → report o pc m r = some rep →
      SelectsAll pc (tendermintSet o pc cfg earlier) m.state.envelope := by
  have hiff : ∀ earlier m r rep m', RunsTo o pc cfg earlier m →
      RunsTo o pc cfg (earlier ++ [r]) m' → report o pc m r = some rep →
      (Synced (tendermintSet o pc cfg (earlier ++ [r])) rep m'.state.envelope ↔
        SelectsAll pc (tendermintSet o pc cfg earlier) m.state.envelope) := by
    intro earlier m r rep m' hm hm' hrep
    have hstep : m.step o pc r = some m' := by
      unfold RunsTo at hm hm'
      rw [runs.run_snoc, hm] at hm'
      exact hm'
    exact report_synced_iff hm hstep hrep
  constructor
  · intro h earlier m r rep m' hm hm' hp hrep
    exact (hiff earlier m r rep m' hm hm' hrep).mp (h earlier m r rep m' hm hm' hp hrep)
  · intro h earlier m r rep m' hm hm' hp hrep
    exact (hiff earlier m r rep m' hm hm' hrep).mpr (h earlier m r rep m' hm hm' hp hrep)

theorem hexVal_b : (hexVal 'b').isSome := by decide

/-- Alice is a validator of the first epoch, and then names another key. -/
def keyRotation : List Request :=
  block (smallHeight 1) [aliceStakes 1 'a' hexVal_a] ++ block (smallHeight 2) [] ++
    block (smallHeight 3) [aliceStakes 2 'b' hexVal_b] ++ [.BeginBlock]

/-- The second epoch has two active validators, and Tendermint has three: Alice's first key
stays. -/
theorem keyRotation_leaves_a_key :
    ∃ m m' rep, RunsTo Outside.toy smallConstants validatorConfig keyRotation m ∧
      RunsTo Outside.toy smallConstants validatorConfig
        (keyRotation ++ [.EndBlock (smallHeight 4)]) m' ∧
      report Outside.toy smallConstants m (.EndBlock (smallHeight 4)) = some rep ∧
      some (List.replicate 32 0xaa) ∈ keyed.keys (tendermintSet Outside.toy smallConstants
        validatorConfig (keyRotation ++ [.EndBlock (smallHeight 4)])) ∧
      some (List.replicate 32 0xaa) ∉ validatorKeys m'.state.envelope.active_validators ∧
      ¬ Synced (tendermintSet Outside.toy smallConstants validatorConfig
        (keyRotation ++ [.EndBlock (smallHeight 4)])) rep m'.state.envelope := by
  obtain ⟨m, hm, hreport⟩ := @validatorRun_ends keyRotation
    (fun m => (report Outside.toy smallConstants m (.EndBlock (smallHeight 4))).isSome)
    (by decide +kernel)
  obtain ⟨m', hm', hactive⟩ := @validatorRun_ends (keyRotation ++ [.EndBlock (smallHeight 4)])
    (fun m' => !(validatorKeys m'.state.envelope.active_validators).contains
      (some (List.replicate 32 0xaa))) (by decide +kernel)
  obtain ⟨rep, hrep⟩ := Option.isSome_iff_exists.mp hreport
  have hkept : some (List.replicate 32 0xaa) ∈ keyed.keys (tendermintSet Outside.toy smallConstants
      validatorConfig (keyRotation ++ [.EndBlock (smallHeight 4)])) := by decide +kernel
  have hgone : some (List.replicate 32 0xaa) ∉ validatorKeys m'.state.envelope.active_validators := by
    simpa using hactive
  exact ⟨m, m', rep, hm, hm', hrep, hkept, hgone, fun h => hgone ((h.keys _).mp hkept)⟩

end eld_chain
