-- The verdict of the selected validator against the verdict of the chain.
-- The validator holds a response against the live root of the registry and
-- against the indices that the response names itself; the chain holds it
-- against the frozen root and the challenged indices. A proof that is good
-- for one of the two and not for the other is rejected for its flag.
import EldChain.ChallengeVerdicts

open Std

namespace eld_chain

variable {o : Outside} {pc : ProtocolConstants} {st : Storage} {e committed : AppStateEnvelope}
  {vp : VerifiedProofTx} {binding : VerifiedProofBinding} {r : CapacityChallengeResponse}
  {wallet : Option Address} {flag : Bool}

/-! ## The flag that is submitted -/

/-- What stands behind a submitted flag. -/
structure Submits (o : Outside) (committed : AppStateEnvelope) (r : CapacityChallengeResponse)
    (flag : Bool) (live : Bytes32) : Prop where
  registered : ∃ info, committed.capacity_validators.find? (fun sp => sp.address == r.provider_id) =
    some info ∧ info.merkle_root = some live
  verdict : flag = false ↔ LeadTo o r.proofs live

theorem submits_of_handled
    (h : handle_capacity_challenge_response o wallet (some committed) r = some flag) :
    ∃ live, Submits o committed r flag live := by
  unfold handle_capacity_challenge_response at h
  by_cases hwallet : wallet = some r.challenger
  · rw [if_neg (not_not.mpr hwallet)] at h
    simp only at h
    by_cases hactive : committed.active_capacity_validator.map
        ActiveCapacityValidator.validator_address = some r.challenger
    · rw [if_neg (not_not.mpr hactive)] at h
      cases hverify : r.verify o with
      | error err => rw [hverify] at h; cases h
      | ok u =>
        rw [hverify] at h
        simp only at h
        cases hfind : committed.capacity_validators.find?
            (fun sp => sp.address == r.provider_id) with
        | none => rw [hfind] at h; cases h
        | some info =>
          rw [hfind] at h
          simp only at h
          cases hroot : info.merkle_root with
          | none => rw [hroot] at h; cases h
          | some live =>
            rw [hroot] at h
            simp only at h
            refine ⟨live, ⟨info, hfind, hroot⟩, ?_⟩
            -- the indices are the response's own, so only the root decides
            by_cases hvalid : validate_challenge_proof o r.proofs live
                (r.proofs.map ChunkProof.chunk_index) = []
            · rw [if_pos hvalid] at h
              cases h
              exact ⟨fun _ => (verdict_iff.mp hvalid).2, fun _ => rfl⟩
            · rw [if_neg hvalid] at h
              cases h
              exact ⟨fun hflag => (by cases hflag),
                fun hlead => absurd (verdict_iff.mpr ⟨rfl, hlead⟩) hvalid⟩
    · rw [if_pos hactive] at h
      cases h
  · rw [if_pos hwallet] at h
    cases h

/-! ## Agreement -/

/-- The registry still has the frozen root and the response has the challenged indices; or
its proofs lead to no root that either side would take. -/
def SameGround (o : Outside) (r : CapacityChallengeResponse) (binding : VerifiedProofBinding)
    (live : Bytes32) : Prop :=
  (live = binding.expected_merkle_root ∧
    r.proofs.map ChunkProof.chunk_index = binding.expected_indices) ∨
  ∀ root, LeadTo o r.proofs root → root ≠ live ∧
    (r.proofs.map ChunkProof.chunk_index = binding.expected_indices →
      root ≠ binding.expected_merkle_root)

theorem Submits.agrees_iff {live : Bytes32} (h : Submits o committed r flag live)
    (hcarries : Carries vp r) :
    (flag = false ↔ proofErrors o vp binding = []) ↔ SameGround o r binding live := by
  have hne : r.proofs ≠ [] := hcarries.proofs ▸ vp.proofs_nonempty
  unfold proofErrors
  rw [h.verdict, hcarries.proofs, verdict_iff]
  constructor
  · intro hagree
    by_cases hlive : LeadTo o r.proofs live
    · obtain ⟨hindices, hfrozen⟩ := hagree.mp hlive
      exact Or.inl ⟨hlive.unique hne hfrozen, hindices⟩
    · refine Or.inr (fun root hroot => ⟨?_, fun hindices => ?_⟩)
      · rintro rfl
        exact hlive hroot
      · rintro rfl
        exact hlive (hagree.mpr ⟨hindices, hroot⟩)
  · rintro (⟨rfl, hindices⟩ | hneither)
    · exact ⟨fun hlead => ⟨hindices, hlead⟩, fun hlead => hlead.2⟩
    · constructor
      · intro hlive
        exact absurd rfl (hneither live hlive).1
      · rintro ⟨hindices, hfrozen⟩
        exact absurd rfl ((hneither _ hfrozen).2 hindices)

/-! ## The flag on the chain -/

/-- The gates before the chunk proofs lead to the judgement. -/
theorem Accepts.judged (h : Accepts o pc st e vp binding) :
    process_verified_proof_tx o pc st e vp =
      if vp.failed then stageFailure pc e vp (proofErrors o vp binding)
      else stageReward o pc st e vp (proofErrors o vp binding)
        pc.verified_proof_reward_base_amount := by
  obtain ⟨proof_epoch, record, hwindow, hrecord, hbind⟩ := h.bound
  have hjudge : process_verified_proof_tx o pc st e vp =
      judgeProof o pc st e vp binding pc.verified_proof_reward_base_amount := by
    unfold process_verified_proof_tx
    simp only [Coin.new_amount, h.not_rewarded, h.not_failed, hwindow, hrecord, hbind]
    rfl
  rw [hjudge]
  unfold judgeProof
  rw [h.signed]
  rfl

/-- A proof is rejected for its flag: the flag says failed and the chunk proofs hold, or the
other way round. -/
def RejectedForFlag (o : Outside) (pc : ProtocolConstants) (st : Storage) (e : AppStateEnvelope)
    (vp : VerifiedProofTx) (binding : VerifiedProofBinding) : Prop :=
  process_verified_proof_tx o pc st e vp = (response_deliver_tx_error_validation_failed
    (if vp.failed then "VerifiedProof rejected: failed flag set but proof is valid"
    else "VerifiedProof rejected: proof validation failed ("
      ++ toString (proofErrors o vp binding).length ++ " error(s))"), e)

theorem rejected_of_wrong_flag (haccepts : Accepts o pc st e vp binding)
    (hwrong : ¬ (vp.failed = false ↔ proofErrors o vp binding = [])) :
    RejectedForFlag o pc st e vp binding := by
  unfold RejectedForFlag
  rw [haccepts.judged]
  cases hflag : vp.failed with
  | true =>
    have hnil : proofErrors o vp binding = [] := by
      by_contra hne
      exact hwrong ⟨fun h => absurd h (by simp [hflag]), fun h => absurd h hne⟩
    rw [if_pos rfl, if_pos rfl, hnil]
    rfl
  | false =>
    have hne : proofErrors o vp binding ≠ [] := fun hnil => hwrong ⟨fun _ => hnil, fun _ => hflag⟩
    have hreward : ¬ false = true := by simp
    rw [if_neg hreward, if_neg hreward]
    unfold stageReward
    rw [if_pos hne]

/-- With the right flag a proof takes effect, unless the provider's balance cannot take the
reward. -/
theorem accepted_of_right_flag (haccepts : Accepts o pc st e vp binding)
    (hright : vp.failed = false ↔ proofErrors o vp binding = []) :
    (process_verified_proof_tx o pc st e vp).1.code = 0 ∨
      ∃ err, credit_verified_proof_reward o st e vp.capacity_provider
        pc.verified_proof_reward_base_amount = .error err := by
  rw [haccepts.judged]
  cases hflag : vp.failed with
  | true =>
    have hne : proofErrors o vp binding ≠ [] := by
      intro hnil
      have := hright.mpr hnil
      rw [hflag] at this
      cases this
    rw [if_pos rfl]
    unfold stageFailure
    rw [if_neg hne]
    exact Or.inl rfl
  | false =>
    have hnil := hright.mp hflag
    rw [if_neg (by simp), hnil]
    unfold stageReward
    rw [if_neg (by simp)]
    cases hcredit : credit_verified_proof_reward o st e vp.capacity_provider
        pc.verified_proof_reward_base_amount with
    | error err => exact Or.inr ⟨err, rfl⟩
    | ok e1 => exact Or.inl rfl

/-- The flag that the selected validator submits is the verdict of the chain exactly when
both stand on the same ground. When they do not, the transaction is rejected for its flag;
when they do, it is not. -/
theorem verdicts_agree_iff {info : CapacityValidatorInfo} {live : Bytes32}
    (hhandled : handle_capacity_challenge_response o wallet (some committed) r = some flag)
    (hinfo : committed.capacity_validators.find? (fun sp => sp.address == r.provider_id) =
      some info) (hlive : info.merkle_root = some live) (hcarries : Carries vp r)
    (hflag : vp.failed = flag) (haccepts : Accepts o pc st e vp binding) :
    ((flag = false ↔ proofErrors o vp binding = []) ↔ SameGround o r binding live) ∧
    (¬ SameGround o r binding live → RejectedForFlag o pc st e vp binding) ∧
    (SameGround o r binding live → (process_verified_proof_tx o pc st e vp).1.code = 0 ∨
      ∃ err, credit_verified_proof_reward o st e vp.capacity_provider
        pc.verified_proof_reward_base_amount = .error err) := by
  obtain ⟨live', hsubmits⟩ := submits_of_handled hhandled
  obtain ⟨info', hinfo', hlive'⟩ := hsubmits.registered
  rw [hinfo] at hinfo'
  cases hinfo'
  rw [hlive] at hlive'
  cases hlive'
  have hagree : (flag = false ↔ proofErrors o vp binding = []) ↔ SameGround o r binding live :=
    hsubmits.agrees_iff hcarries
  refine ⟨hagree, fun hground => ?_, fun hground => ?_⟩
  · exact rejected_of_wrong_flag haccepts (fun hright => hground (hagree.mp (hflag ▸ hright)))
  · have hright := hagree.mpr hground
    rw [← hflag] at hright
    exact accepted_of_right_flag haccepts hright

/-! ## A root that is updated between the two -/

/-- Alice's response to the challenge of the first epoch. -/
def sevenResponse : CapacityChallengeResponse :=
  ⟨(aliceChallenge (smallHeight 2)).to_hex, alice, alice, smallHeight 2, [sevenProof],
    MIN_TIMESTAMP, hexDigits 64 1, "00".toList⟩

/-- The flag that Alice's node submits for it. -/
def Node.flagOfAlice (n : Node) : Option Bool :=
  handle_capacity_challenge_response .toy (some alice) (some n.conn.committed_state.envelope)
    sevenResponse

/-- With the registry as it was, the flag and the chain agree. -/
theorem verdicts_agree_on_registered_root :
    ∃ n binding, sevenNode .toy = some n ∧ n.flagOfAlice = some false ∧
      Accepts .toy smallConstants n.conn.storage n.state.envelope
        (sevenAnswer [sevenProof] (List.cons_ne_nil _ _) false) binding ∧
      SameGround .toy sevenResponse binding (hash_chunk Outside.toy [7]) := by
  have hnode : (sevenNode .toy).any (fun n => n.flagOfAlice == some false &&
      ((n.conn.committed_state.envelope.capacity_validators.find?
        (fun sp => sp.address == sevenResponse.provider_id)).bind
          CapacityValidatorInfo.merkle_root == some (hash_chunk Outside.toy [7])) &&
      (process_verified_proof_tx .toy smallConstants n.conn.storage n.state.envelope
        (sevenAnswer [sevenProof] (List.cons_ne_nil _ _) false)).1.code == 0) = true := by
    decide +kernel
  obtain ⟨n, hn, hfields⟩ := (Option.any_eq_true _ _).mp hnode
  simp only [Bool.and_eq_true, beq_iff_eq] at hfields
  obtain ⟨⟨hflag, hroot⟩, hcode⟩ := hfields
  obtain ⟨info, hinfo, hlive⟩ := Option.bind_eq_some_iff.mp hroot
  obtain ⟨binding, heffect⟩ := effect_of_process hcode
  have haccepts := heffect.passes.toAccepts
  refine ⟨n, binding, hn, hflag, haccepts, ?_⟩
  have hagree := (verdicts_agree_iff hflag hinfo hlive ⟨rfl, rfl, rfl, rfl, rfl, rfl, rfl⟩ rfl
    haccepts).1
  refine hagree.mp ⟨fun _ => ?_, fun _ => rfl⟩
  by_contra hne
  have hfailed := heffect.passes.judged.mpr hne
  cases hfailed

/-- Alice stores something else and updates her root while her response is on its way. -/
def rootUpdated : List Request :=
  epochAfter (registers (hash_chunk Outside.toy [7]) 1) ++
    [.DeliverTx (.ok (signed 1 2 "UpdateCapacityMerkleRoot" (.UpdateCapacityMerkleRoot
      ⟨alice, hash_chunk Outside.toy [8]⟩))),
      .EndBlock (smallHeight 3), .Commit, .BeginBlock]

/-- Her node submits the response as failed, and the chain rejects it because its chunk
proofs hold. -/
theorem updated_root_splits_verdicts :
    ∃ n, RunsTo .toy smallConstants smallConfig rootUpdated n ∧ n.flagOfAlice = some true ∧
      Carries (sevenAnswer [sevenProof] (List.cons_ne_nil _ _) true) sevenResponse ∧
      (process_verified_proof_tx .toy smallConstants n.conn.storage n.state.envelope
        (sevenAnswer [sevenProof] (List.cons_ne_nil _ _) true)).1.code ≠ 0 ∧
      (process_verified_proof_tx .toy smallConstants n.conn.storage n.state.envelope
        (sevenAnswer [sevenProof] (List.cons_ne_nil _ _) true)).1.log =
          (response_deliver_tx_error_validation_failed
            "VerifiedProof rejected: failed flag set but proof is valid").log := by
  obtain ⟨n, hn, hfields⟩ := @smallRun_ends rootUpdated (fun n => n.flagOfAlice == some true &&
      (process_verified_proof_tx .toy smallConstants n.conn.storage n.state.envelope
        (sevenAnswer [sevenProof] (List.cons_ne_nil _ _) true)).1.code != 0 &&
      (process_verified_proof_tx .toy smallConstants n.conn.storage n.state.envelope
        (sevenAnswer [sevenProof] (List.cons_ne_nil _ _) true)).1.log ==
          (response_deliver_tx_error_validation_failed
            "VerifiedProof rejected: failed flag set but proof is valid").log) (by decide +kernel)
  simp only [Bool.and_eq_true, beq_iff_eq, bne_iff_ne] at hfields
  exact ⟨n, hn, hfields.1.1, ⟨rfl, rfl, rfl, rfl, rfl, rfl, rfl⟩, hfields.1.2, hfields.2⟩

end eld_chain
