-- The verdict on a response. The chain judges it by the root and the
-- indices that the epoch record froze; the provider proves whatever indices
-- a message names under its present root, and the selected validator takes
-- the root from the live registry and the indices from the response. Each
-- party agrees with the chain exactly when these are the frozen ones.
import EldChain.IssuedChallenges
import EldChain.CapacityFaults
import EldChain.SyncCoordinator

open Std

namespace eld_chain

open fallible CapacityProofMerkleTree

variable {o : Outside} {x : ChunkSource} {pc : ProtocolConstants} {st : Storage}
  {e : AppStateEnvelope} {vp : VerifiedProofTx} {binding : VerifiedProofBinding}
  {r : CapacityChallengeResponse}

/-! ## What chunk proofs lead to -/

/-- Every chunk proof holds, at the index it names itself, under one root. -/
def LeadTo (o : Outside) (proofs : List ChunkProof) (root : Bytes32) : Prop :=
  ∀ p ∈ proofs, Proven o root p p.chunk_index

/-- Proofs lead to one root at most. -/
theorem LeadTo.unique {proofs : List ChunkProof} {root root' : Bytes32} (hne : proofs ≠ [])
    (h : LeadTo o proofs root) (h' : LeadTo o proofs root') : root = root' := by
  obtain ⟨p, hp⟩ := List.exists_mem_of_ne_nil proofs hne
  have htop := (h p hp).path
  have htop' := (h' p hp).path
  rw [verify_proof, beq_iff_eq] at htop htop'
  rw [← htop, ← htop']

theorem forall₂_proven_iff {proofs : List ChunkProof} {root : Bytes32} {indices : List Nat} :
    List.Forall₂ (fun proof index => Proven o root proof index) proofs indices ↔
      proofs.map ChunkProof.chunk_index = indices ∧ LeadTo o proofs root := by
  induction proofs generalizing indices with
  | nil =>
    constructor
    · intro h
      cases h
      exact ⟨rfl, fun p hp => by cases hp⟩
    · rintro ⟨rfl, _⟩
      exact .nil
  | cons p proofs ih =>
    constructor
    · intro h
      cases h with
      | cons hp hrest =>
        obtain ⟨hindices, hlead⟩ := ih.mp hrest
        have hindex := hp.index_eq
        subst hindex
        refine ⟨by rw [List.map_cons, hindices], fun q hq => ?_⟩
        rcases List.mem_cons.mp hq with rfl | hq
        · exact hp
        · exact hlead q hq
    · rintro ⟨rfl, hlead⟩
      exact .cons (hlead p List.mem_cons_self)
        (ih.mpr ⟨rfl, fun q hq => hlead q (List.mem_cons_of_mem _ hq)⟩)

/-- The verifier accepts proofs that name its indices and lead to its root. -/
theorem verdict_iff {proofs : List ChunkProof} {root : Bytes32} {indices : List Nat} :
    validate_challenge_proof o proofs root indices = [] ↔
      proofs.map ChunkProof.chunk_index = indices ∧ LeadTo o proofs root :=
  (validate_challenge_proof_iff o).trans forall₂_proven_iff

/-! ## The provider's side -/

/-- What a published response says, when the tree mirrors the slots. -/
structure Answered (o : Outside) (msg : ChallengeMessage) (r : CapacityChallengeResponse) :
    Prop where
  parsed : ∃ id, ChallengeId.parse_hex msg.challenge_id = .ok id ∧
    r.challenge_id = ChallengeId.to_hex id
  provider_id : r.provider_id = msg.provider_id
  challenger : r.challenger = msg.challenger
  block_height : r.block_height = msg.block_height
  indices : r.proofs.map ChunkProof.chunk_index = msg.chunk_indices.map UInt64.toNat
  lead : LeadTo o r.proofs msg.merkle_root

theorem handle_capacity_challenge_answered {s : CapacityManager} {m : SlotMap} {file : Bytes}
    (hm : Mirror o x s m file) {sign : ChallengeProof → Option (Text × Text)}
    {msg : ChallengeMessage} {generated_at : UInt64}
    (h : handle_capacity_challenge o sign msg generated_at s = some r) :
    Answered o msg r ∧ msg.provider_id = s.provider_id := by
  unfold handle_capacity_challenge at h
  cases hparse : ChallengeId.parse_hex msg.challenge_id with
  | error err => rw [hparse] at h; cases h
  | ok id =>
    rw [hparse] at h
    simp only at h
    cases hgen : generate_capacity_proof o ⟨id, msg.challenger, msg.provider_id,
        msg.chunk_indices, msg.block_height, msg.merkle_root⟩ generated_at s with
    | error err t => rw [hgen] at h; cases h
    | ok proof t =>
      rw [hgen] at h
      simp only at h
      obtain ⟨hid, hprovider, hchallenger, hheight, _, hself, hroot, hall⟩ :=
        (generate_capacity_proof_ends o hm _ generated_at).of_ok hgen
      cases hsign : sign proof with
      | none => rw [hsign] at h; cases h
      | some keys =>
        rw [hsign] at h
        cases h
        rw [← hroot] at hall
        obtain ⟨hindices, hlead⟩ := forall₂_proven_iff.mp hall
        exact ⟨⟨⟨id, hparse, hid⟩, hprovider, hchallenger, hheight, hindices, hlead⟩, hself⟩

/-- One challenge of a session: what the provider was when the message came in. -/
structure Challenged where
  manager : CapacityManager
  message : ChallengeMessage
  generated_at : UInt64

/-- The responses that the provider publishes in a session. -/
def responses (o : Outside) (sign : ChallengeProof → Option (Text × Text))
    (session : List Challenged) : List CapacityChallengeResponse :=
  session.filterMap (fun c => handle_capacity_challenge o sign c.message c.generated_at c.manager)

/-- A signature that verifies under the provider's key is one that the provider made. -/
def Unforged (o : Outside) (provider : Address) (published : List CapacityChallengeResponse) :
    Prop :=
  ∀ (r : CapacityChallengeResponse) (key : Bytes32), r.provider_id = provider →
    o.verifying_key r.provider_pubkey = some key → o.address_of_key key = provider →
    o.response_signature_valid r.challenge_id r.provider_id r.challenger r.block_height r.proofs
      r.generated_at r.provider_pubkey r.provider_signature = true →
    ∃ r' ∈ published, r'.challenge_id = r.challenge_id ∧ r'.challenger = r.challenger ∧
      r'.block_height = r.block_height ∧ r'.proofs = r.proofs

/-- The message asks for the indices and names the root that the record froze. -/
def AsIssued (msg : ChallengeMessage) (binding : VerifiedProofBinding) : Prop :=
  msg.chunk_indices.map UInt64.toNat = binding.expected_indices ∧
    msg.merkle_root = binding.expected_merkle_root

/-- The chain finds no error in an answer exactly when the message was as issued. -/
theorem Answered.verdict {msg : ChallengeMessage} (h : Answered o msg r)
    (hproofs : vp.proofs = r.proofs) :
    proofErrors o vp binding = [] ↔ AsIssued msg binding := by
  unfold proofErrors AsIssued
  rw [verdict_iff, hproofs, h.indices]
  refine and_congr_right (fun _ => ⟨fun hlead => ?_, fun hroot => hroot ▸ h.lead⟩)
  have hne : r.proofs ≠ [] := hproofs ▸ vp.proofs_nonempty
  exact h.lead.unique hne hlead

/-- The response that a signed transaction carries. -/
def VerifiedProofTx.response (vp : VerifiedProofTx) (provider challenger : Address) :
    CapacityChallengeResponse :=
  ⟨vp.challenge_id, provider, challenger, vp.block_height, vp.proofs, vp.generated_at,
    vp.provider_pubkey, vp.provider_signature⟩

/-- What the signature gate has checked. -/
theorem signature_of_verified {provider challenger : Address}
    (h : verify_capacity_challenge_response o vp provider challenger = .ok ()) :
    ∃ key, o.verifying_key vp.provider_pubkey = some key ∧ o.address_of_key key = provider ∧
      o.response_signature_valid vp.challenge_id provider challenger vp.block_height vp.proofs
        vp.generated_at vp.provider_pubkey vp.provider_signature = true := by
  unfold verify_capacity_challenge_response at h
  by_cases hempty : vp.provider_pubkey = [] ∨ vp.provider_signature = []
  · rw [if_pos hempty] at h
    cases h
  · rw [if_neg hempty] at h
    cases hkey : o.verifying_key vp.provider_pubkey with
    | none => rw [hkey] at h; cases h
    | some key =>
      rw [hkey] at h
      simp only at h
      by_cases haddr : o.address_of_key key = provider
      · rw [if_neg (not_not.mpr haddr)] at h
        refine ⟨key, rfl, haddr, ?_⟩
        by_contra hsig
        rw [if_neg hsig] at h
        cases h
      · rw [if_pos haddr] at h
        cases h

/-- A provider whose tree is the one that `build_merkle_tree` gives for its slots. -/
structure Honest (o : Outside) (x : ChunkSource) (s : CapacityManager) (m : SlotMap)
    (file : Bytes) : Prop where
  slot_map : s.slot_allocator.slot_map = some m
  capacity_file : s.disk.capacity_file = some file
  nonempty : m.slots ≠ []
  layout : Layout m file
  built : ∃ tree t, s.merkle_tree = some tree ∧
    build_merkle_tree o x m (s.answered []) = .ok tree t

/-- When the slots also hold what their states say, the tree mirrors the file. -/
theorem Honest.mirror {s : CapacityManager} {m : SlotMap} {file : Bytes}
    (h : Honest o x s m file) (ht : Truthful x m file) : Mirror o x s m file := by
  refine ⟨⟨h.slot_map, h.capacity_file, h.nonempty, h.layout, ht⟩, ?_⟩
  obtain ⟨tree, t, htree, hbuild⟩ := h.built
  obtain ⟨_, rfl⟩ := (build_merkle_tree_ends o (s := s.answered []) h.capacity_file h.layout ht
    h.nonempty).of_ok hbuild
  exact htree

/-- The chain binds the challenge that a message names to an epoch record. -/
def BoundOn (o : Outside) (pc : ProtocolConstants) (st : Storage) (e : AppStateEnvelope)
    (msg : ChallengeMessage) (binding : VerifiedProofBinding) : Prop :=
  ∃ id proof_epoch record, ChallengeId.parse_hex msg.challenge_id = .ok id ∧
    proof_epoch_in_window pc msg.block_height e.current_epoch = .ok proof_epoch ∧
    e.get_epoch_record o st proof_epoch = .ok record ∧
    bind_verified_proof o pc record e.current_epoch msg.challenger msg.provider_id
      (ChallengeId.to_hex id) msg.block_height = .ok binding

/-- A binding names the provider and the sender of its proof. -/
theorem bound_parties {record : Option EpochRecord} {current : I64} {sender provider : Address}
    {challenge_id : Text} {height : I64}
    (h : bind_verified_proof o pc record current sender provider challenge_id height =
      .ok binding) :
    binding.challenged_provider_id = provider ∧ binding.validator_address = sender := by
  unfold bind_verified_proof at h
  split at h
  · cases h
  · split at h
    · cases h
    · unfold validate_verified_proof_binding at h
      simp only at h
      split at h
      · cases h
      · split at h
        · cases h
        · rename_i active _
          split at h
          · cases h
          · split at h
            · cases h
            · rename_i hsender
              obtain ⟨_, info, root, _, _, _, hcheck⟩ := checkProvider.spec h
              unfold checkChallengeId at hcheck
              simp only at hcheck
              split at hcheck
              · cases hcheck
              · split at hcheck
                · cases hcheck
                · cases hcheck
                  exact ⟨rfl, (not_not.mp hsender).symm⟩

/-- A reward leaves the counts of failures as they are. -/
theorem rewardedState_counts (sum : Coin) :
    (rewardedState o pc st e vp sum).failed_proof_counts = e.failed_proof_counts := rfl

/-- A proof that is accepted was signed in the session, and for a message that the chain
binds as it binds the proof. -/
theorem Passes.message {provider : Address} {sign : ChallengeProof → Option (Text × Text)}
    {session : List Challenged}
    (hhonest : ∀ c ∈ session, c.manager.provider_id = provider ∧
      ∃ m file, Honest o x c.manager m file ∧ Truthful x m file)
    (hunforged : Unforged o provider (responses o sign session))
    (hprovider : vp.capacity_provider = provider) (h : Passes o pc st e vp binding) :
    ∃ c ∈ session, BoundOn o pc st e c.message binding ∧
      (proofErrors o vp binding = [] ↔ AsIssued c.message binding) := by
  obtain ⟨proof_epoch, record, hwindow, hrecord, hbind⟩ := h.bound
  obtain ⟨hparty, hsender⟩ := bound_parties hbind
  obtain ⟨key, hkey, haddr, hsig⟩ := signature_of_verified h.signed
  rw [hparty, hprovider] at haddr hsig
  obtain ⟨r, hr, hid, hchallenger, hheight, hproofs⟩ := hunforged
    (vp.response provider binding.validator_address) key rfl hkey haddr hsig
  obtain ⟨c, hc, hhandle⟩ := List.mem_filterMap.mp hr
  obtain ⟨hself, m, file, hm, ht⟩ := hhonest c hc
  obtain ⟨hanswered, hmsg⟩ := handle_capacity_challenge_answered (hm.mirror ht) hhandle
  obtain ⟨id, hparse, htext⟩ := hanswered.parsed
  refine ⟨c, hc, ⟨id, proof_epoch, record, hparse, ?_, hrecord, ?_⟩,
    hanswered.verdict hproofs.symm⟩
  · rw [← hanswered.block_height, hheight]
    exact hwindow
  · rw [← htext, hid, ← hanswered.block_height, hheight, ← hanswered.challenger, hchallenger,
      hmsg, hself, ← hprovider]
    change bind_verified_proof o pc record e.current_epoch binding.validator_address
      vp.capacity_provider vp.challenge_id vp.block_height = .ok binding
    rw [hsender]
    exact hbind

/-- Whatever messages come in, a response of an honest provider whose slots hold what they
should is judged valid exactly when its message was as the record has it. When all messages
that the chain binds are so, nobody can count a failure against the provider. -/
theorem honest_response_valid_iff_as_issued {provider : Address}
    {sign : ChallengeProof → Option (Text × Text)} {session : List Challenged}
    (hhonest : ∀ c ∈ session, c.manager.provider_id = provider ∧
      ∃ m file, Honest o x c.manager m file)
    (hunforged : Unforged o provider (responses o sign session)) :
    (∀ c ∈ session, ∀ m file, Honest o x c.manager m file → Truthful x m file →
      ∀ r, handle_capacity_challenge o sign c.message c.generated_at c.manager = some r →
      ∀ vp binding, Carries vp r →
        (proofErrors o vp binding = [] ↔ AsIssued c.message binding)) ∧
    ∀ pc st e vp, vp.capacity_provider = provider →
      (process_verified_proof_tx o pc st e vp).1.code = 0 →
      (∀ c ∈ session, (∀ m file, Honest o x c.manager m file → Truthful x m file) ∧
        ∀ binding, BoundOn o pc st e c.message binding → AsIssued c.message binding) →
      vp.failed = false ∧
        (process_verified_proof_tx o pc st e vp).2.failed_proof_counts = e.failed_proof_counts := by
  refine ⟨?_, ?_⟩
  · intro c _ m file hm ht r hhandle vp binding hcarries
    obtain ⟨hanswered, _⟩ := handle_capacity_challenge_answered (hm.mirror ht) hhandle
    exact hanswered.verdict hcarries.proofs
  · intro pc st e vp hprovider hcode hissued
    obtain ⟨binding, heffect⟩ := effect_of_process hcode
    have htrue : ∀ c ∈ session, c.manager.provider_id = provider ∧
        ∃ m file, Honest o x c.manager m file ∧ Truthful x m file := by
      intro c hc
      obtain ⟨hself, m, file, hm⟩ := hhonest c hc
      exact ⟨hself, m, file, hm, (hissued c hc).1 m file hm⟩
    obtain ⟨c, hc, hbound, hverdict⟩ := heffect.passes.message htrue hunforged hprovider
    have hvalid := hverdict.mpr ((hissued c hc).2 binding hbound)
    have hflag : vp.failed = false := by
      rw [← Bool.not_eq_true]
      exact fun hflag => heffect.passes.judged.mp hflag hvalid
    refine ⟨hflag, ?_⟩
    rcases heffect.staged with ⟨hfailed, _⟩ | ⟨_, sum, hstate⟩
    · rw [hflag] at hfailed
      cases hfailed
    · rw [hstate]
      exact rewardedState_counts sum

/-! ## A provider that stores one byte -/

/-- Alice's manager before she allocates. -/
def aliceManager : CapacityManager :=
  ⟨"/data", alice, SlotAllocator.new "/data" alice, none, true, ⟨none, none, none⟩, []⟩

/-- The proof of her only chunk. -/
def sevenProof : ChunkProof :=
  ⟨0, [7], hash_chunk Outside.toy [7], [], .Proof, zero_lt_u64⟩

/-- The challenge of the first epoch as a message, with any indices. -/
def sevenMessage (indices : List UInt64) : ChallengeMessage :=
  ⟨(aliceChallenge (smallHeight 2)).to_hex, alice, alice, indices, smallHeight 2,
    hash_chunk Outside.toy [7]⟩

def aliceSigns (_ : ChallengeProof) : Option (Text × Text) := some (hexDigits 64 1, "00".toList)

/-- An outside with one signature only: Alice's, under these proofs. -/
def Outside.signedOnly (proofs : List ChunkProof) : Outside :=
  { Outside.toy with
    response_signature_valid := fun challenge_id _ challenger block_height ps _ _ _ =>
      challenge_id == (aliceChallenge (smallHeight 2)).to_hex && challenger == alice &&
        block_height == smallHeight 2 && ps == proofs }

/-- Alice has allocated one byte and answers the message. -/
def sevenAnswered (o : Outside) (indices : List UInt64) :
    Option (CapacityManager × CapacityChallengeResponse) :=
  (resultOf (allocate_capacity_internal o .sevens 1 3) aliceManager).bind (fun a =>
    (handle_capacity_challenge o aliceSigns (sevenMessage indices) MIN_TIMESTAMP a.2).map
      (fun r => (a.2, r)))

/-- What evaluating that shows. -/
theorem honest_of_sevenAnswered {proofs : List ChunkProof} {indices : List UInt64}
    (h : (sevenAnswered (.signedOnly proofs) indices).any (fun a =>
      a.2.challenge_id == (aliceChallenge (smallHeight 2)).to_hex && a.2.provider_id == alice &&
      a.2.challenger == alice && a.2.block_height == smallHeight 2 && a.2.proofs == proofs &&
      a.2.generated_at == MIN_TIMESTAMP && a.2.provider_pubkey == hexDigits 64 1 &&
      a.2.provider_signature == "00".toList &&
      (a.1.merkle_tree.map CapacityProofMerkleTree.root == some (hash_chunk Outside.toy [7]))) =
        true) :
    ∃ s m file r, Honest (.signedOnly proofs) .sevens s m file ∧ Truthful .sevens m file ∧
      s.provider_id = alice ∧
      s.merkle_tree.map CapacityProofMerkleTree.root = some (hash_chunk Outside.toy [7]) ∧
      handle_capacity_challenge (.signedOnly proofs) aliceSigns (sevenMessage indices)
        MIN_TIMESTAMP s = some r ∧
      r = ⟨(aliceChallenge (smallHeight 2)).to_hex, alice, alice, smallHeight 2, proofs,
        MIN_TIMESTAMP, hexDigits 64 1, "00".toList⟩ ∧
      Unforged (.signedOnly proofs) alice (responses (.signedOnly proofs) aliceSigns
        [⟨s, sevenMessage indices, MIN_TIMESTAMP⟩]) := by
  obtain ⟨a, ha, hfields⟩ := (Option.any_eq_true _ _).mp h
  obtain ⟨b, hb, ha⟩ := Option.bind_eq_some_iff.mp ha
  obtain ⟨r, hr, rfl⟩ := Option.map_eq_some_iff.mp ha
  simp only [Bool.and_eq_true, beq_iff_eq] at hfields
  obtain ⟨⟨⟨⟨⟨⟨⟨⟨hid, hprovider⟩, hchallenger⟩, hheight⟩, hproofs⟩, hat⟩, hkey⟩, hsig⟩, hroot⟩ :=
    hfields
  obtain ⟨m, file, hm, _, _, _, _, _, hself⟩ :=
    allocate_capacity_internal_mirror (.signedOnly proofs) (eq_ok_of_resultOf hb)
  have hhonest : Honest (.signedOnly proofs) .sevens b.2 m file := by
    obtain ⟨m', _, tree, hslots, _, htree, hbuild, _⟩ := hm.mirrorsFile (.signedOnly proofs)
    rw [hm.slot_map] at hslots
    cases hslots
    exact ⟨hm.slot_map, hm.capacity_file, hm.nonempty, hm.layout, tree, _, htree, hbuild.choose_spec⟩
  refine ⟨b.2, m, file, r, hhonest, hm.truthful, hself, hroot, hr, ?_, ?_⟩
  · cases r
    simp only [CapacityChallengeResponse.mk.injEq]
    exact ⟨hid, hprovider, hchallenger, hheight, hproofs, hat, hkey, hsig⟩
  · intro r' key _ _ _ hvalid
    refine ⟨r, List.mem_filterMap.mpr ⟨_, List.mem_singleton.mpr rfl, hr⟩, ?_⟩
    simp only [Outside.signedOnly, Bool.and_eq_true, beq_iff_eq] at hvalid
    obtain ⟨⟨⟨hid', hchallenger'⟩, hheight'⟩, hproofs'⟩ := hvalid
    rw [hid, hchallenger, hheight, hproofs]
    exact ⟨hid'.symm, hchallenger'.symm, hheight'.symm, hproofs'.symm⟩

theorem aliceChallenge_safe :
    validate_verified_proof_challenge_id (aliceChallenge (smallHeight 2)).to_hex = .ok () :=
  hex_id_safe 64 _ id_length

/-- Alice's answer with these proofs of her chunk. -/
def sevenAnswer (proofs : List ChunkProof) (nonempty : proofs ≠ []) (failed : Bool) :
    VerifiedProofTx :=
  answerWith (aliceChallenge (smallHeight 2)).to_hex aliceChallenge_safe proofs nonempty failed

/-- The node once the first epoch is open, with Alice's chunk registered. -/
def sevenNode (o : Outside) : Option Node :=
  runs.run (Node.step o smallConstants) (epochAfter (registers (hash_chunk Outside.toy [7]) 1))
    (genesis o smallConstants smallConfig)

/-- The root that the registry holds for Alice. -/
def Node.rootOfAlice (n : Node) : Option Bytes32 :=
  (n.state.envelope.capacity_validators.find? (fun cv => cv.address == alice)).bind
    CapacityValidatorInfo.merkle_root

/-- The message asks for what the chain binds it to, if the chain binds it. -/
def ChallengeMessage.isAsIssued (o : Outside) (pc : ProtocolConstants) (st : Storage)
    (e : AppStateEnvelope) (msg : ChallengeMessage) : Bool :=
  match ChallengeId.parse_hex msg.challenge_id,
    proof_epoch_in_window pc msg.block_height e.current_epoch with
  | .ok id, .ok proof_epoch =>
    match e.get_epoch_record o st proof_epoch with
    | .error _ => true
    | .ok record =>
      match bind_verified_proof o pc record e.current_epoch msg.challenger msg.provider_id
          (ChallengeId.to_hex id) msg.block_height with
      | .error _ => true
      | .ok binding => msg.chunk_indices.map UInt64.toNat == binding.expected_indices &&
          msg.merkle_root == binding.expected_merkle_root
  | _, _ => true

theorem asIssued_of_eval {msg : ChallengeMessage} (h : msg.isAsIssued o pc st e = true)
    (hbound : BoundOn o pc st e msg binding) : AsIssued msg binding := by
  obtain ⟨id, proof_epoch, record, hparse, hwindow, hrecord, hbind⟩ := hbound
  unfold ChallengeMessage.isAsIssued at h
  rw [hparse, hwindow] at h
  simp only [hrecord, hbind, Bool.and_eq_true, beq_iff_eq] at h
  exact h

/-- Asked for her chunk once, as the record has it, Alice signs an answer that is rewarded. -/
theorem honest_response_valid_when_as_issued :
    ∃ s n, sevenNode (.signedOnly [sevenProof]) = some n ∧
      (∃ r, handle_capacity_challenge (.signedOnly [sevenProof]) aliceSigns (sevenMessage [0])
        MIN_TIMESTAMP s = some r) ∧
      (process_verified_proof_tx (.signedOnly [sevenProof]) smallConstants n.conn.storage
        n.state.envelope (sevenAnswer [sevenProof] (List.cons_ne_nil _ _) false)).1.code = 0 ∧
      (process_verified_proof_tx (.signedOnly [sevenProof]) smallConstants n.conn.storage
        n.state.envelope
        (sevenAnswer [sevenProof] (List.cons_ne_nil _ _) false)).2.failed_proof_counts =
          n.state.envelope.failed_proof_counts := by
  obtain ⟨s, m, file, r, hhonest, htruth, hself, _, hr, _, hunforged⟩ :=
    @honest_of_sevenAnswered [sevenProof] [0] (by decide +kernel)
  have hnode : (sevenNode (.signedOnly [sevenProof])).any (fun n =>
      (process_verified_proof_tx (.signedOnly [sevenProof]) smallConstants n.conn.storage
        n.state.envelope (sevenAnswer [sevenProof] (List.cons_ne_nil _ _) false)).1.code == 0 &&
      (sevenMessage [0]).isAsIssued (.signedOnly [sevenProof]) smallConstants n.conn.storage
        n.state.envelope) = true := by decide +kernel
  obtain ⟨n, hn, hfields⟩ := (Option.any_eq_true _ _).mp hnode
  simp only [Bool.and_eq_true, beq_iff_eq] at hfields
  obtain ⟨hcode, hissued⟩ := hfields
  refine ⟨s, n, hn, ⟨r, hr⟩, hcode, ?_⟩
  have hsession : ∀ c ∈ [(⟨s, sevenMessage [0], MIN_TIMESTAMP⟩ : Challenged)],
      c.manager.provider_id = alice ∧ ∃ m file, Honest (.signedOnly [sevenProof]) .sevens c.manager
        m file := by
    intro c hc
    rw [List.mem_singleton] at hc
    subst hc
    exact ⟨hself, m, file, hhonest⟩
  refine ((honest_response_valid_iff_as_issued hsession hunforged).2 smallConstants
    n.conn.storage n.state.envelope (sevenAnswer [sevenProof] (List.cons_ne_nil _ _) false) rfl
    hcode ?_).2
  intro c hc
  rw [List.mem_singleton] at hc
  subst hc
  refine ⟨fun m' file' hhonest' => ?_, fun binding => asIssued_of_eval hissued⟩
  obtain rfl := Option.some.inj (hhonest.slot_map.symm.trans hhonest'.slot_map)
  obtain rfl := Option.some.inj (hhonest.capacity_file.symm.trans hhonest'.capacity_file)
  exact htruth

/-- A message with the id of her challenge asks Alice for her chunk twice. What she signs is
counted as a failure. -/
theorem honest_provider_counted_as_failed :
    ∃ s m file r n, Honest (.signedOnly [sevenProof, sevenProof]) .sevens s m file ∧
      Truthful .sevens m file ∧ s.provider_id = alice ∧
      handle_capacity_challenge (.signedOnly [sevenProof, sevenProof]) aliceSigns
        (sevenMessage [0, 0]) MIN_TIMESTAMP s = some r ∧
      Unforged (.signedOnly [sevenProof, sevenProof]) alice
        (responses (.signedOnly [sevenProof, sevenProof]) aliceSigns
          [⟨s, sevenMessage [0, 0], MIN_TIMESTAMP⟩]) ∧
      sevenNode (.signedOnly [sevenProof, sevenProof]) = some n ∧
      s.merkle_tree.map CapacityProofMerkleTree.root = n.rootOfAlice ∧
      Carries (sevenAnswer [sevenProof, sevenProof] (List.cons_ne_nil _ _) true) r ∧
      (process_verified_proof_tx (.signedOnly [sevenProof, sevenProof]) smallConstants
        n.conn.storage n.state.envelope
        (sevenAnswer [sevenProof, sevenProof] (List.cons_ne_nil _ _) true)).1.code = 0 ∧
      n.state.envelope.failed_proof_counts[alice]? = none ∧
      (process_verified_proof_tx (.signedOnly [sevenProof, sevenProof]) smallConstants
        n.conn.storage n.state.envelope
        (sevenAnswer [sevenProof, sevenProof] (List.cons_ne_nil _ _) true)).2.failed_proof_counts[
          alice]? = some 1 := by
  obtain ⟨s, m, file, r, hhonest, htruth, hself, hroot, hr, rfl, hunforged⟩ :=
    @honest_of_sevenAnswered [sevenProof, sevenProof] [0, 0] (by decide +kernel)
  have hnode : (sevenNode (.signedOnly [sevenProof, sevenProof])).any (fun n =>
      n.rootOfAlice == some (hash_chunk Outside.toy [7]) &&
      (process_verified_proof_tx (.signedOnly [sevenProof, sevenProof]) smallConstants
        n.conn.storage n.state.envelope
        (sevenAnswer [sevenProof, sevenProof] (List.cons_ne_nil _ _) true)).1.code == 0 &&
      n.state.envelope.failed_proof_counts[alice]? == none &&
      (process_verified_proof_tx (.signedOnly [sevenProof, sevenProof]) smallConstants
        n.conn.storage n.state.envelope
        (sevenAnswer [sevenProof, sevenProof] (List.cons_ne_nil _ _) true)).2.failed_proof_counts[
          alice]? == some 1) = true := by decide +kernel
  obtain ⟨n, hn, hfields⟩ := (Option.any_eq_true _ _).mp hnode
  simp only [Bool.and_eq_true, beq_iff_eq] at hfields
  obtain ⟨⟨⟨hregistered, hcode⟩, hbefore⟩, hafter⟩ := hfields
  exact ⟨s, m, file, _, n, hhonest, htruth, hself, hr, hunforged, hn, hroot.trans hregistered.symm,
    ⟨rfl, rfl, rfl, rfl, rfl, rfl, rfl⟩, hcode, hbefore, hafter⟩

end eld_chain
