-- A challenge that was issued can be answered until the end of the next
-- epoch. It was issued from the state at EndBlock, and it is checked
-- against the record, which no later transaction changes.
import EldChain.EpochRecords

open Std

namespace eld_chain

variable {o : Outside} {pc : ProtocolConstants} {cfg : GenesisConfig}
variable {e e' : AppStateEnvelope} {st st' : Storage}

/-! ## Binding an issued challenge -/

theorem parse_hex_to_hex (id : ChallengeId) : ChallengeId.parse_hex id.to_hex = .ok id :=
  decode_fixed_hex_hexDigits (n := 32) (by decide) id "challenge ID"

/-- What a proof with the fields of an issued challenge is bound to. -/
def CapacityChallenge.binding (c : CapacityChallenge) (id : ChallengeId) : VerifiedProofBinding :=
  ⟨c.provider_id, c.challenger, c.merkle_root, c.chunk_indices, id⟩

/-- The four gates accept the fields of a challenge that the record covers. -/
theorem Covers.validate {op : Opening} {record : EpochRecord} {c : CapacityChallenge}
    (h : Covers o pc op record) (hformed : WellFormed record (epochOf pc op.height))
    (hc : c ∈ op.challenges) :
    ∃ id, c.challenge_id = ChallengeId.to_hex id ∧
      validate_verified_proof_binding o pc record c.challenger c.provider_id c.challenge_id
        c.block_height = .ok (c.binding id) := by
  obtain ⟨active, info, hactive, hmem, hinfo, hcount, hroot, hceq⟩ := h c hc
  have hepoch := hformed.selected active hactive
  have hheight : c.block_height = op.height := congrArg CapacityChallenge.block_height hceq
  have hchallenger : c.challenger = active.validator_address :=
    congrArg CapacityChallenge.challenger hceq
  have hindices : c.chunk_indices = select_challenge_chunk_indices o (epochOf pc op.height)
      c.provider_id op.height active.validator_address (info.chunk_count.getD 0)
      pc.chunks_per_challenge := congrArg CapacityChallenge.chunk_indices hceq
  have hid : c.challenge_id = (compute_challenge_id o active.validator_address c.provider_id
      op.height c.chunk_indices).to_hex := by
    have hfor := congrArg CapacityChallenge.challenge_id hceq
    simp only [challengeFor, ← hindices] at hfor
    exact hfor
  refine ⟨_, hid, ?_⟩
  unfold validate_verified_proof_binding checkProvider checkChallengeId
  simp only [hheight, hformed.epoch, hactive, hepoch, hchallenger, hinfo, hroot, hid,
    parse_hex_to_hex, ne_eq, not_true_eq_false, if_false, hmem, hcount, ← hindices]
  unfold CapacityChallenge.binding
  rw [hchallenger]

/-- The window is open in the epoch of a positive height and in the next one. -/
theorem window_open (pc : ProtocolConstants) {height current : I64} (hpos : 0 < height.val)
    (hlo : (epochOf pc height).val ≤ current.val) (hhi : current.val ≤ (epochOf pc height).val + 1) :
    proof_epoch_in_window pc height current = .ok (epochOf pc height) := by
  have hepoch := epochOf_nonneg pc hpos.le
  unfold proof_epoch_in_window
  rw [if_neg (by omega), if_neg (by omega)]
  simp only
  rw [if_pos (by omega)]

/-- A proof with the fields of the challenge is accepted in this state: its epoch is in the
window, the record of the epoch is found, and the proof is bound to what the challenge asks
for. -/
structure Answerable (o : Outside) (pc : ProtocolConstants) (st : Storage) (e : AppStateEnvelope)
    (c : CapacityChallenge) : Prop where
  window : proof_epoch_in_window pc c.block_height e.current_epoch =
    .ok (epochOf pc c.block_height)
  bound : ∃ record binding,
    e.get_epoch_record o st (epochOf pc c.block_height) = .ok (some record) ∧
    validate_verified_proof_binding o pc record c.challenger c.provider_id c.challenge_id
      c.block_height = .ok binding ∧
    bind_verified_proof o pc (some record) e.current_epoch c.challenger c.provider_id
      c.challenge_id c.block_height = .ok binding ∧
    binding.expected_challenge_id.to_hex = c.challenge_id ∧
    binding.expected_indices = c.chunk_indices ∧
    binding.expected_merkle_root = c.merkle_root ∧
    binding.challenged_provider_id = c.provider_id ∧
    binding.validator_address = c.challenger

theorem answerable_of_covers {op : Opening} {record : EpochRecord} {c : CapacityChallenge}
    (hg : GoodCommitted o e st) (hholds : Holds o (epochOf pc op.height) record e)
    (hcovers : Covers o pc op record) (hformed : WellFormed record (epochOf pc op.height))
    (hc : c ∈ op.challenges) (hpos : 0 < op.height.val)
    (hlo : (epochOf pc op.height).val ≤ e.current_epoch.val)
    (hhi : e.current_epoch.val ≤ (epochOf pc op.height).val + 1) : Answerable o pc st e c := by
  obtain ⟨_, _, _, _, _, _, _, hceq⟩ := hcovers c hc
  have hheight : c.block_height = op.height := congrArg CapacityChallenge.block_height hceq
  obtain ⟨name, hname, hobject⟩ := hholds
  obtain ⟨id, hid, hvalid⟩ := hcovers.validate hformed hc
  have hwindow := window_open pc hpos hlo hhi
  have hrecord : e.get_epoch_record o st (epochOf pc op.height) = .ok (some record) := by
    unfold AppStateEnvelope.get_epoch_record
    simp only [hname]
    rw [lookup_of_good hg _ rfl]
    unfold AppStateEnvelope.epochObject at hobject
    rw [hobject]
    rfl
  refine ⟨by rw [hheight]; exact hwindow, record, c.binding id, by rw [hheight]; exact hrecord,
    hvalid, ?_, hid.symm, rfl, rfl, rfl, rfl⟩
  unfold bind_verified_proof
  rw [hheight, hwindow, ← hheight]
  exact hvalid

/-! ## Whole runs -/

/-- An epoch is only opened at a height above 0. -/
theorem opening_height_pos {requests : List Request} {n : Node} {op : Opening}
    (hrun : RunsTo o pc cfg requests n) (hop : op ∈ openings o pc cfg requests) :
    0 < op.height.val := by
  obtain ⟨⟨m, r⟩, hvisit, hopens⟩ := List.mem_filterMap.mp hop
  obtain ⟨earlier, hm, hp⟩ := runs.mem_visits _ hvisit
  obtain ⟨m', hs⟩ := runs.step_of_earlier _ hrun hp hm
  cases (step_cases hs).epochs (reachable_good ⟨earlier, hm⟩) with
  | kept hnone =>
    rw [hnone] at hopens
    cases hopens
  | @opened op' hsome hopened =>
    rw [hsome] at hopens
    cases hopens
    have hworking := (reachable_dated hm).working
    have hnonneg := epochOf_nonneg pc hworking.height
    rw [← hworking.epoch] at hnonneg
    have hlater := hopened.later
    exact pos_of_epochOf_pos pc (by omega)

/-- Every challenge that an opening issues is answerable in every later state, as long as the
block in progress is of the epoch that was opened or of the next one: whatever was delivered
in between, and whatever transaction carries the answer. -/
theorem issued_challenges_stay_answerable (o : Outside) (pc : ProtocolConstants)
    (cfg : GenesisConfig) (requests later : List Request) (m : Node) (op : Opening)
    (c : CapacityChallenge) (height : I64)
    (hop : op ∈ openings o pc cfg requests) (hc : c ∈ op.challenges)
    (hlater : RunsTo o pc cfg (requests ++ later) m)
    (hreached : m.state.envelope.block_height.val ≤ height.val)
    (hepoch : (epochOf pc height).val = (epochOf pc op.height).val ∨
      (epochOf pc height).val = (epochOf pc op.height).val + 1) :
    Answerable o pc m.conn.storage m.state.envelope c ∧
      ∀ tx s, m.phase = .delivering → admission o m.conn tx = .ok s →
        Answerable o pc m.conn.storage s.envelope c := by
  have hop' : op ∈ openings o pc cfg (requests ++ later) :=
    openings_of_earlier (List.prefix_append _ _) hop
  have hgood := hlater.good
  have hworking := (reachable_dated hlater).working
  obtain ⟨record, hformed, hcovers, hholds⟩ := (records_kept hlater).written op hop'
  have hpos := opening_height_pos hlater hop'
  have hlo := (opened_epochs hlater).past op hop'
  have hhi : m.state.envelope.current_epoch.val ≤ (epochOf pc op.height).val + 1 := by
    have hmono := epochOf_mono pc hworking.height hreached
    rw [← hworking.epoch] at hmono
    omega
  refine ⟨answerable_of_covers hgood.working.committed hholds hcovers hformed hc hpos hlo hhi, ?_⟩
  intro tx s hphase hadmitted
  obtain ⟨hcharged, hs, _⟩ := @NodeGood.of_admission o pc _ _ _ hgood hphase hadmitted
  have hsame := hcharged.epochs
  refine answerable_of_covers hs.committed (hholds.of_same hsame) hcovers hformed hc hpos ?_ ?_
  · rw [hsame.current_epoch]
    exact hlo
  · rw [hsame.current_epoch]
    exact hhi

/-- Alice leaves the registry in the block after the opening, and the next epoch begins. -/
def unregisteredLater : List Request :=
  [.DeliverTx (.ok (signed 1 2 "UnregisterCapacity" (.UnregisterCapacity ⟨alice, true, rfl⟩))),
    .EndBlock (smallHeight 3), .Commit, .BeginBlock]

theorem issued_challenges_stay_answerable_after_unregisteredLater :
    ∃ m op c, RunsTo Outside.toy smallConstants smallConfig (firstEpoch ++ unregisteredLater) m ∧
      op ∈ openings Outside.toy smallConstants smallConfig firstEpoch ∧ c ∈ op.challenges ∧
      m.state.envelope.capacity_validators = [] ∧
      Answerable Outside.toy smallConstants m.conn.storage m.state.envelope c := by
  obtain ⟨m, hm, hstate⟩ := @smallRun_ends (firstEpoch ++ unregisteredLater)
    (fun m => m.state.envelope.capacity_validators.isEmpty &&
      m.state.envelope.block_height == smallHeight 3) (by decide +kernel)
  rw [Bool.and_eq_true, List.isEmpty_iff, beq_iff_eq] at hstate
  have hany : (openings Outside.toy smallConstants smallConfig firstEpoch).any
      (fun op => op.height == smallHeight 2 && !op.challenges.isEmpty) = true := by decide +kernel
  obtain ⟨op, hop, hissued⟩ := List.any_eq_true.mp hany
  rw [Bool.and_eq_true, beq_iff_eq, Bool.not_eq_true', List.isEmpty_eq_false_iff] at hissued
  obtain ⟨c, hc⟩ := List.exists_mem_of_ne_nil _ hissued.2
  refine ⟨m, op, c, hm, hop, hc, hstate.1, ?_⟩
  refine (issued_challenges_stay_answerable Outside.toy smallConstants smallConfig firstEpoch
    unregisteredLater m op c (smallHeight 4) hop hc hm ?_ (Or.inr ?_)).1
  · rw [hstate.2]
    decide
  · rw [hissued.1]
    decide

end eld_chain
