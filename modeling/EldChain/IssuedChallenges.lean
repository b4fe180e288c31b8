-- The law of rewards: a proof is bound to the record of its epoch, and
-- the record froze what the challenges of that epoch were issued from.
-- One input is not frozen: the block height, which the sender of the
-- proof names. A reward answers an issued challenge exactly when that
-- height is the one of the EndBlock that opened the epoch.
import EldChain.ChallengeOutcomes
import EldChain.Openings

open Std

namespace eld_chain

variable {o : Outside} {pc : ProtocolConstants} {cfg : GenesisConfig}
variable {e e' : AppStateEnvelope} {st st' : Storage}

/-! ## Binding -/

/-- What a bound proof was held against. -/
structure Bound (o : Outside) (pc : ProtocolConstants) (record : EpochRecord)
    (vp : VerifiedProofTx) (active : ActiveCapacityValidator) (info : CapacityValidatorInfo)
    (binding : VerifiedProofBinding) : Prop where
  selected : record.active_capacity_validator = some active
  sender : active.validator_address = vp.sender
  challenged : vp.capacity_provider ∈ active.challenged_providers
  entry : record.challenged_capacity_validators.find? (fun p => p.address == vp.capacity_provider) =
    some info
  chunk_count : info.chunk_count.getD 0 ≠ 0
  merkle_root : info.merkle_root = some binding.expected_merkle_root
  indices : binding.expected_indices = select_challenge_chunk_indices o
    (epochOf pc vp.block_height) vp.capacity_provider vp.block_height vp.sender
    (info.chunk_count.getD 0) pc.chunks_per_challenge
  expected : binding.expected_challenge_id = compute_challenge_id o vp.sender vp.capacity_provider
    vp.block_height binding.expected_indices
  parsed : ChallengeId.parse_hex vp.challenge_id = .ok binding.expected_challenge_id

theorem checkChallengeId.spec {active : ActiveCapacityValidator} {provider : Address}
    {challenge_id : Text} {height : I64} {chunk_count : UInt32} {merkle_root : Bytes32}
    {binding : VerifiedProofBinding}
    (h : checkChallengeId o pc active provider challenge_id height chunk_count merkle_root =
      .ok binding) :
    binding.expected_merkle_root = merkle_root ∧
      binding.expected_indices = select_challenge_chunk_indices o active.epoch provider height
        active.validator_address chunk_count pc.chunks_per_challenge ∧
      binding.expected_challenge_id = compute_challenge_id o active.validator_address provider
        height binding.expected_indices ∧
      ChallengeId.parse_hex challenge_id = .ok binding.expected_challenge_id := by
  unfold checkChallengeId at h
  simp only at h
  split at h
  · cases h
  · rename_i parsed hparsed
    split at h
    · cases h
    · rename_i hsame
      cases h
      exact ⟨rfl, rfl, rfl, hparsed.trans (congrArg Except.ok (not_not.mp hsame))⟩

theorem checkProvider.spec {record : EpochRecord} {active : ActiveCapacityValidator}
    {provider : Address} {challenge_id : Text} {height : I64} {binding : VerifiedProofBinding}
    (h : checkProvider o pc record active provider challenge_id height = .ok binding) :
    provider ∈ active.challenged_providers ∧ ∃ info merkle_root,
      record.challenged_capacity_validators.find? (fun p => p.address == provider) = some info ∧
      info.chunk_count.getD 0 ≠ 0 ∧ info.merkle_root = some merkle_root ∧
      checkChallengeId o pc active provider challenge_id height (info.chunk_count.getD 0)
        merkle_root = .ok binding := by
  unfold checkProvider at h
  simp only at h
  split at h
  · cases h
  · rename_i hchallenged
    split at h
    · cases h
    · rename_i info hinfo
      split at h
      · cases h
      · rename_i hcount
        split at h
        · cases h
        · rename_i merkle_root hroot
          exact ⟨not_not.mp hchallenged, info, merkle_root, hinfo, hcount, hroot, h⟩

theorem validate_verified_proof_binding.spec {record : EpochRecord} {vp : VerifiedProofTx}
    {binding : VerifiedProofBinding}
    (h : validate_verified_proof_binding o pc record vp.sender vp.capacity_provider vp.challenge_id
      vp.block_height = .ok binding) :
    ∃ active info, Bound o pc record vp active info binding := by
  unfold validate_verified_proof_binding at h
  simp only at h
  split at h
  · cases h
  · split at h
    · cases h
    · rename_i active hactive
      split at h
      · cases h
      · rename_i hepoch
        split at h
        · cases h
        · rename_i hsender
          obtain ⟨hchallenged, info, merkle_root, hinfo, hcount, hroot, hcheck⟩ :=
            checkProvider.spec h
          obtain ⟨hroot', hindices, hexpected, hparsed⟩ := checkChallengeId.spec hcheck
          have hepoch : active.epoch = epochOf pc vp.block_height := not_not.mp hepoch
          have hsender : active.validator_address = vp.sender := (not_not.mp hsender).symm
          rw [hepoch, hsender] at hindices
          rw [hsender] at hexpected
          exact ⟨active, info, hactive, hsender, hchallenged, hinfo, hcount,
            by rw [hroot, hroot'], hindices, hexpected, hparsed⟩

/-- An accepted proof is bound to the record of the epoch of its height. -/
theorem Accepts.bound_record {vp : VerifiedProofTx} {binding : VerifiedProofBinding}
    (h : Accepts o pc st e vp binding) :
    ∃ record active info,
      e.get_epoch_record o st (epochOf pc vp.block_height) = .ok (some record) ∧
      Bound o pc record vp active info binding := by
  obtain ⟨proof_epoch, record, hwindow, hrecord, hbind⟩ := h.bound
  have hepoch : proof_epoch = epochOf pc vp.block_height := by
    unfold proof_epoch_in_window at hwindow
    simp only at hwindow
    split at hwindow
    · cases hwindow
    · split at hwindow
      · cases hwindow
      · split at hwindow
        · exact (Except.ok.inj hwindow).symm
        · split at hwindow <;> cases hwindow
  subst hepoch
  unfold bind_verified_proof at hbind
  rw [hwindow] at hbind
  simp only at hbind
  split at hbind
  · cases hbind
  · rename_i record
    obtain ⟨active, info, hbound⟩ := validate_verified_proof_binding.spec hbind
    exact ⟨record, active, info, hrecord, hbound⟩

/-- The record of an epoch that was opened is read as it was frozen. -/
theorem Recorded.get_epoch_record {op : Opening} (h : Recorded o pc op e)
    (hg : GoodCommitted o e st) :
    ∃ record, e.get_epoch_record o st (epochOf pc op.height) = .ok (some record) ∧
      Froze o pc op record := by
  obtain ⟨name, record, hname, hobject, hfroze⟩ := h
  refine ⟨record, ?_, hfroze⟩
  unfold AppStateEnvelope.get_epoch_record
  simp only [hname]
  rw [lookup_of_good hg _ rfl]
  unfold AppStateEnvelope.epochObject at hobject
  rw [hobject]
  rfl

/-! ## Answers -/

/-- The proof answers an issued challenge: what it was held against is what the challenge
asks for, and the record holds the seed of the challenge. -/
structure Answers (o : Outside) (pc : ProtocolConstants) (st : Storage) (e : AppStateEnvelope)
    (vp : VerifiedProofTx) (binding : VerifiedProofBinding) (op : Opening)
    (c : CapacityChallenge) : Prop where
  passes : Passes o pc st e vp binding
  issued : c ∈ op.challenges
  epoch : epochOf pc op.height = epochOf pc vp.block_height
  provider_id : c.provider_id = vp.capacity_provider
  challenger : c.challenger = vp.sender
  block_height : c.block_height = vp.block_height
  accepted : ChallengeId.parse_hex vp.challenge_id = .ok binding.expected_challenge_id
  challenge_id : c.challenge_id = binding.expected_challenge_id.to_hex
  chunk_indices : c.chunk_indices = binding.expected_indices
  merkle_root : c.merkle_root = binding.expected_merkle_root
  seed : ∃ record info,
    e.get_epoch_record o st (epochOf pc vp.block_height) = .ok (some record) ∧
    record.challenged_capacity_validators.find? (fun p => p.address == vp.capacity_provider) =
      some info ∧ info.seed = some c.seed

/-- A proof that is dated at the opening of its epoch answers a challenge of that opening. -/
theorem Passes.answers {vp : VerifiedProofTx} {binding : VerifiedProofBinding} {op : Opening}
    (h : Passes o pc st e vp binding) (hg : GoodCommitted o e st) (hop : Recorded o pc op e)
    (hheight : op.height = vp.block_height) : ∃ c, Answers o pc st e vp binding op c := by
  obtain ⟨record, active, info, hrecord, hbound⟩ := h.bound_record
  obtain ⟨record', hrecord', hfroze⟩ := hop.get_epoch_record hg
  rw [hheight, hrecord] at hrecord'
  cases hrecord'
  obtain ⟨seed, hseed, hissued⟩ := hfroze active vp.capacity_provider info
    binding.expected_merkle_root hbound.selected hbound.challenged hbound.entry hbound.chunk_count
    hbound.merkle_root
  rw [hheight, hbound.sender] at hissued
  refine ⟨_, h, hissued, by rw [hheight], rfl, rfl, rfl, hbound.parsed, ?_, ?_, rfl,
    record, info, hrecord, hbound.entry, hseed⟩
  · rw [hbound.expected, hbound.indices]
    rfl
  · rw [hbound.indices]
    rfl

/-- A challenge is only answered by a proof that is dated at its opening. -/
theorem Answers.dated {vp : VerifiedProofTx} {binding : VerifiedProofBinding} {op : Opening}
    {c : CapacityChallenge} (h : Answers o pc st e vp binding op c) (hop : op.Sound) :
    op.height = vp.block_height := by
  rw [← hop.heights c h.issued]
  exact h.block_height

/-! ## Whole runs -/

/-- The call delivers a proof that passes the gates for a reward, and is dated at a height
at which no epoch was opened. -/
def Misdated (o : Outside) (pc : ProtocolConstants) (ops : List Opening) (n : Node) (r : Request) :
    Prop :=
  ∃ tx s vp binding, r = .DeliverTx (.ok tx) ∧ tx.payload.inner = .VerifiedProof vp ∧
    admission o n.conn tx = .ok s ∧ Passes o pc n.conn.storage s.envelope vp binding ∧
    vp.failed = false ∧ ∀ op ∈ ops, op.height ≠ vp.block_height

/-- The proofs that are rewarded in a run, in order. -/
def rewards (o : Outside) (pc : ProtocolConstants) (cfg : GenesisConfig)
    (requests : List Request) : List VerifiedProofTx :=
  (effects o pc cfg requests).filter Tally.rewards.counts

/-- Each reward was paid for a call of the run. -/
theorem mem_rewards {requests : List Request} {vp : VerifiedProofTx}
    (h : vp ∈ rewards o pc cfg requests) :
    ∃ earlier m r, RunsTo o pc cfg earlier m ∧ earlier ++ [r] <+: requests ∧
      proofEffect o pc m r = some vp ∧ vp.failed = false := by
  obtain ⟨hmem, hcounts⟩ := List.mem_filter.mp h
  obtain ⟨⟨m, r⟩, hvisit, heffect⟩ := List.mem_filterMap.mp hmem
  obtain ⟨earlier, hm, hp⟩ := runs.mem_visits _ hvisit
  exact ⟨earlier, m, r, hm, hp, heffect, by simpa [Tally.counts] using hcounts⟩

theorem NodeStep.answers {earlier : List Request} {n n' : Node} {r : Request}
    {vp : VerifiedProofTx} (h : NodeStep o pc n r n') (hrun : RunsTo o pc cfg earlier n)
    (hdated : ¬ Misdated o pc (openings o pc cfg earlier) n r)
    (heffect : proofEffect o pc n r = some vp) (hreward : vp.failed = false) :
    ∃ tx s binding, r = .DeliverTx (.ok tx) ∧ tx.payload.inner = .VerifiedProof vp ∧
      admission o n.conn tx = .ok s ∧ ∃ op ∈ openings o pc cfg earlier,
        ∃ c, Answers o pc n.conn.storage s.envelope vp binding op c := by
  obtain ⟨tx, s, binding, hr, hinner, hadmitted, hcharged, hgood, heff, _⟩ :=
    h.effect (reachable_good ⟨earlier, hrun⟩) heffect
  refine ⟨tx, s, binding, hr, hinner, hadmitted, ?_⟩
  by_contra hnone
  refine hdated ⟨tx, s, vp, binding, hr, hinner, hadmitted, heff.passes, hreward, ?_⟩
  intro op hop hheight
  have hrecorded := ((opened_epochs hrun).recorded op hop).of_same hcharged.epochs
  exact hnone ⟨op, hop, heff.passes.answers hgood.committed hrecorded hheight⟩

/-- Answers of one provider in one epoch name one id. -/
theorem Answers.id_eq {requests : List Request} {n : Node} (hrun : RunsTo o pc cfg requests n)
    {vp vp' : VerifiedProofTx} {binding binding' : VerifiedProofBinding} {op op' : Opening}
    {c c' : CapacityChallenge} (h : Answers o pc st e vp binding op c)
    (h' : Answers o pc st' e' vp' binding' op' c') (hop : op ∈ openings o pc cfg requests)
    (hop' : op' ∈ openings o pc cfg requests)
    (hprovider : vp.capacity_provider = vp'.capacity_provider)
    (hepoch : epochOf pc vp.block_height = epochOf pc vp'.block_height) : vp.id = vp'.id := by
  have hopened := opened_epochs hrun
  have hsame : op = op' := List.inj_on_of_nodup_map hopened.nodup hop hop'
    (by rw [h.epoch, hepoch, h'.epoch])
  subst hsame
  have hc : c = c' := (hopened.sound op hop).determined c h.issued c' h'.issued
    (by rw [h.provider_id, hprovider, h'.provider_id])
  subst hc
  have hid : binding.expected_challenge_id = binding'.expected_challenge_id :=
    ChallengeId.to_hex_inj (h.challenge_id.symm.trans h'.challenge_id)
  unfold VerifiedProofTx.id
  rw [h.accepted, h'.accepted, hid]

/-- What maps to distinct values still does under a map that separates as much. -/
theorem nodup_map_of_nodup_map {α β γ : Type} {f : α → β} {g : α → γ} {l : List α}
    (h : (l.map f).Nodup) (hfg : ∀ a ∈ l, ∀ b ∈ l, g a = g b → f a = f b) : (l.map g).Nodup := by
  rw [List.Nodup, List.pairwise_map] at h ⊢
  refine h.imp_of_mem (fun ha hb hne heq => hne ?_)
  exact hfg _ ha _ hb heq

/-- In every run that dates each reward at the opening of an epoch and never spells a
rewarded challenge in another way, every reward answers a challenge that was issued before,
and a provider is rewarded at most once for an epoch. -/
theorem rewards_answer_issued_challenges (o : Outside) (pc : ProtocolConstants)
    (cfg : GenesisConfig) (requests : List Request) (n : Node)
    (hrun : RunsTo o pc cfg requests n)
    (hsteps : ∀ earlier m r, RunsTo o pc cfg earlier m → earlier ++ [r] <+: requests →
      ¬ Misdated o pc (openings o pc cfg earlier) m r ∧ ¬ Respells o pc .rewards m r) :
    (∀ earlier m r vp, RunsTo o pc cfg earlier m → earlier ++ [r] <+: requests →
      proofEffect o pc m r = some vp → vp.failed = false →
      ∃ tx s binding, r = .DeliverTx (.ok tx) ∧ tx.payload.inner = .VerifiedProof vp ∧
        admission o m.conn tx = .ok s ∧ ∃ op ∈ openings o pc cfg earlier,
          ∃ c, Answers o pc m.conn.storage s.envelope vp binding op c) ∧
    ((rewards o pc cfg requests).map
      (fun vp => (vp.capacity_provider, epochOf pc vp.block_height))).Nodup := by
  have hanswers : ∀ earlier m r vp, RunsTo o pc cfg earlier m → earlier ++ [r] <+: requests →
      proofEffect o pc m r = some vp → vp.failed = false →
      ∃ tx s binding, r = .DeliverTx (.ok tx) ∧ tx.payload.inner = .VerifiedProof vp ∧
        admission o m.conn tx = .ok s ∧ ∃ op ∈ openings o pc cfg earlier,
          ∃ c, Answers o pc m.conn.storage s.envelope vp binding op c := by
    intro earlier m r vp hm hp heffect hreward
    obtain ⟨m', hs⟩ := runs.step_of_earlier _ hrun hp hm
    exact (step_cases hs).answers hm (hsteps earlier m r hm hp).1 heffect hreward
  refine ⟨hanswers, ?_⟩
  have honce : CountedOnce o pc cfg .rewards requests n := by
    refine counted_once hrun (fun m r hvisit => ?_)
    obtain ⟨earlier, hm, hp⟩ := runs.mem_visits _ hvisit
    exact (hsteps earlier m r hm hp).2
  refine nodup_map_of_nodup_map honce.nodup (fun vp hvp vp' hvp' heq => ?_)
  obtain ⟨earlier, m, r, hm, hp, heffect, hreward⟩ := mem_rewards hvp
  obtain ⟨earlier', m', r', hm', hp', heffect', hreward'⟩ := mem_rewards hvp'
  obtain ⟨_, _, _, _, _, _, op, hop, c, hc⟩ := hanswers _ _ _ _ hm hp heffect hreward
  obtain ⟨_, _, _, _, _, _, op', hop', c', hc'⟩ := hanswers _ _ _ _ hm' hp' heffect' hreward'
  obtain ⟨hprovider, hepoch⟩ := Prod.mk.inj heq
  exact hc.id_eq hrun hc' (openings_of_earlier ((List.prefix_append _ _).trans hp) hop)
    (openings_of_earlier ((List.prefix_append _ _).trans hp') hop') hprovider hepoch

/-- The proof that a call delivers. -/
def Request.proof? : Request → Option VerifiedProofTx
  | .DeliverTx (.ok tx) =>
    match tx.payload.inner with
    | .VerifiedProof vp => some vp
    | _ => none
  | _ => none

theorem not_misdated_of_eval {ops : List Opening} {n : Node} {r : Request}
    (h : r.proof?.all (fun vp => ops.any (fun op => op.height == vp.block_height)) = true) :
    ¬ Misdated o pc ops n r := by
  rintro ⟨tx, s, vp, binding, rfl, hinner, _, _, _, hnone⟩
  simp only [Request.proof?, hinner, Option.all_some, List.any_eq_true, beq_iff_eq] at h
  obtain ⟨op, hop, hheight⟩ := h
  exact hnone op hop hheight

theorem rewards_answer_issued_challenges_on_answeredOnce :
    ∃ m n vp, RunsTo Outside.toy smallConstants smallConfig firstEpoch m ∧
      RunsTo Outside.toy smallConstants smallConfig answeredOnce n ∧
      proofEffect Outside.toy smallConstants m (firstAnswer true) = some vp ∧ vp.failed = false ∧
      (∃ op ∈ openings Outside.toy smallConstants smallConfig firstEpoch, ∃ c ∈ op.challenges,
        c.provider_id = vp.capacity_provider ∧ c.block_height = vp.block_height) ∧
      (rewards Outside.toy smallConstants smallConfig answeredOnce).map
        (fun vp => (vp.capacity_provider, epochOf smallConstants vp.block_height)) =
        [(alice, smallHeight 1)] ∧
      ((rewards Outside.toy smallConstants smallConfig answeredOnce).map
        (fun vp => (vp.capacity_provider, epochOf smallConstants vp.block_height))).Nodup := by
  obtain ⟨m, hm, heffect⟩ := @smallRun_ends firstEpoch
    (fun m => (proofEffect Outside.toy smallConstants m (firstAnswer true)).any (fun vp => !vp.failed))
    (by decide +kernel)
  obtain ⟨n, hn, _⟩ := @smallRun_ends answeredOnce (fun _ => true) (by decide +kernel)
  obtain ⟨vp, hvp, hreward⟩ := (Option.any_eq_true _ _).mp heffect
  have hunmarked : (runs.visits (Node.step Outside.toy smallConstants) answeredOnce
      (genesis Outside.toy smallConstants smallConfig)).all
        (fun v => v.1.unmarked || !v.2.delivers) = true := by decide +kernel
  have hdated : (firstAnswer true).proof?.all (fun vp =>
      (openings Outside.toy smallConstants smallConfig firstEpoch).any
        (fun op => op.height == vp.block_height)) = true := by decide +kernel
  have hfirst : firstEpoch.all (fun r => r.proof?.isNone) = true := by decide
  obtain ⟨hanswers, hnodup⟩ := rewards_answer_issued_challenges Outside.toy smallConstants
    smallConfig answeredOnce n hn (fun earlier k r hk hp => by
      refine ⟨not_misdated_of_eval ?_, not_respells_of_eval
        (List.all_eq_true.mp hunmarked (k, r) (runs.mem_visits_of_earlier _ hk hp))⟩
      -- the proof is the last call of the run
      rcases List.prefix_concat_iff.mp hp with hlast | hearlier
      · obtain ⟨rfl, hr⟩ := List.append_inj' hlast rfl
        cases hr
        exact hdated
      · have hr : r ∈ firstEpoch := hearlier.subset (by simp)
        rw [Option.isNone_iff_eq_none.mp (List.all_eq_true.mp hfirst r hr)]
        rfl)
  have hreward : vp.failed = false := by simpa using hreward
  obtain ⟨_, _, _, _, _, _, op, hop, c, hc⟩ := hanswers firstEpoch m (firstAnswer true) vp hm
    List.prefix_rfl hvp hreward
  exact ⟨m, n, vp, hm, hn, hvp, hreward, ⟨op, hop, c, hc.issued, hc.provider_id, hc.block_height⟩,
    by decide +kernel, hnodup⟩

/-- After her first answer Alice dates another one at height 3, in the same epoch. -/
def answeredAgain : List Request :=
  answeredOnce ++ [.DeliverTx (.ok (answer 3 (aliceChallenge (smallHeight 3)).to_hex
    (hex_id_safe 64 _ id_length) (smallHeight 3) smallHeight_three_pos true))]

/-- Both answers are rewarded, and the second one answers no challenge that was issued. -/
theorem answeredAgain_is_rewarded_twice :
    (∃ n, RunsTo Outside.toy smallConstants smallConfig answeredAgain n) ∧
      (rewards Outside.toy smallConstants smallConfig answeredAgain).map
        (fun vp => (vp.challenge_id, vp.capacity_provider, epochOf smallConstants vp.block_height)) =
        [((aliceChallenge (smallHeight 2)).to_hex, alice, smallHeight 1),
          ((aliceChallenge (smallHeight 3)).to_hex, alice, smallHeight 1)] ∧
      ((openings Outside.toy smallConstants smallConfig answeredAgain).flatMap
        Opening.challenges).map CapacityChallenge.challenge_id =
        [(aliceChallenge (smallHeight 2)).to_hex] ∧
      aliceChallenge (smallHeight 3) ≠ aliceChallenge (smallHeight 2) ∧
      ¬ ((rewards Outside.toy smallConstants smallConfig answeredAgain).map
        (fun vp => (vp.capacity_provider, epochOf smallConstants vp.block_height))).Nodup := by
  obtain ⟨n, hn, _⟩ := @smallRun_ends answeredAgain (fun _ => true) (by decide +kernel)
  exact ⟨⟨n, hn⟩, by decide +kernel, by decide +kernel, by decide +kernel, by decide +kernel⟩

end eld_chain
