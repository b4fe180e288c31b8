-- What an accepted storage proof says. The verifier climbs from a chunk to
-- the root along as many hashes as it is given and never looks at the chunk
-- count, so a proof is bound to the depth of a leaf only when the tree
-- under the root has its chunks at that depth and nowhere else.
import EldChain.CapacityTree
import EldChain.EpochRecords
import EldChain.IssuedChallenges
import EldChain.ProofVerdicts

open Std

namespace eld_chain

open hash_tree CapacityProofMerkleTree

-- `asked`: the pairs of hashes that anybody has joined. `data`: the chunks that anybody has
-- hashed. No more than these is assumed to be free of collisions.
variable (o : Outside) (asked : Bytes32 → Bytes32 → Prop) (data : Bytes → Prop)

/-! ## Accepted proofs -/

/-- The chunk of a proof was hashed, and the pairs on its path were joined. -/
structure Made (proof : ChunkProof) : Prop where
  chunk : data proof.chunk_data
  path : ClimbAsked (hash_pair o) asked proof.chunk_hash proof.chunk_index proof.merkle_proof

/-- A chunk proof of a response that the verifier accepts for a root, and for indices below
a chunk count. -/
def AcceptedProof (root : Bytes32) (n : UInt32) (i : Nat) (proof : ChunkProof) : Prop :=
  ∃ proofs indices, (∀ k ∈ indices, k < n.toNat) ∧
    validate_challenge_proof o proofs root indices = [] ∧
    (∀ p ∈ proofs, Made o asked data p) ∧ (proof, i) ∈ proofs.zip indices

variable {o asked data} {root : Bytes32} {n : UInt32} {i : Nat} {proof : ChunkProof}

theorem acceptedProof_iff : AcceptedProof o asked data root n i proof ↔
    i < n.toNat ∧ Proven o root proof i ∧ Made o asked data proof := by
  constructor
  · rintro ⟨proofs, indices, hlt, hvalid, hmade, hmem⟩
    have hall := (validate_challenge_proof_iff o).mp hvalid
    obtain ⟨hproof, hi⟩ := List.of_mem_zip hmem
    exact ⟨hlt i hi, (List.forall₂_iff_zip.mp hall).2 hmem, hmade proof hproof⟩
  · rintro ⟨hlt, hproven, hmade⟩
    refine ⟨[proof], [i], by simpa using hlt, ?_, by simpa using hmade, by simp⟩
    exact (validate_challenge_proof_iff o).mpr (.cons hproven .nil)

/-- The chunk of an accepted proof stands under the root, as deep as its path is long. -/
theorem AcceptedProof.under (h : AcceptedProof o asked data root n i proof) :
    Under (hash_pair o) asked proof.merkle_proof.length i root
      (hash_chunk o proof.chunk_data) := by
  obtain ⟨_, hproven, hmade⟩ := acceptedProof_iff.mp h
  have hpath := hproven.path
  rw [verify_proof, beq_iff_eq, pathTop_eq_climb] at hpath
  rw [hproven.hash_eq]
  refine under_iff_climb.mpr ⟨proof.merkle_proof, rfl, ?_, ?_⟩
  · rw [← hproven.index_eq]
    exact hmade.path
  · rw [← hproven.index_eq]
    exact hpath

theorem AcceptedProof.lt (h : AcceptedProof o asked data root n i proof) : i < n.toNat :=
  (acceptedProof_iff.mp h).1

theorem AcceptedProof.hash_eq (h : AcceptedProof o asked data root n i proof) :
    hash_chunk o proof.chunk_data = proof.chunk_hash := (acceptedProof_iff.mp h).2.1.hash_eq

theorem AcceptedProof.chunk (h : AcceptedProof o asked data root n i proof) :
    data proof.chunk_data := (acceptedProof_iff.mp h).2.2.chunk

/-- A chunk that stands under the root has a proof that is accepted, as long as it stands
deep. -/
theorem accepted_of_under {d : Nat} {c : Bytes} (hi : i < n.toNat) (hc : data c)
    (h : Under (hash_pair o) asked d i root (hash_chunk o c)) :
    ∃ proof, AcceptedProof o asked data root n i proof ∧ proof.merkle_proof.length = d ∧
      proof.chunk_data = c := by
  obtain ⟨path, hlen, hasked, hclimb⟩ := under_iff_climb.mp h
  have hbound : i < 2 ^ 64 := by
    have := n.toNat_lt
    omega
  refine ⟨⟨i, c, hash_chunk o c, path, .Proof, hbound⟩, ?_, hlen, rfl⟩
  refine acceptedProof_iff.mpr ⟨hi, ⟨rfl, rfl, ?_, fun h => by cases h⟩, hc, hasked⟩
  rw [verify_proof, beq_iff_eq, pathTop_eq_climb]
  exact hclimb

/-! ## Sound roots -/

variable (o asked data)

/-- A tree over `n` chunks that were hashed. -/
structure TreeOver (root : Bytes32) (n : UInt32) (leaves : List Bytes32) : Prop where
  length : leaves.length = n.toNat
  built : ∃ tree, build o leaves = some tree ∧ tree.root = root
  joined : TreeAsked (hash_pair o) asked (Nat.clog 2 leaves.length) leaves
  chunks : ∀ leaf ∈ leaves, ∃ c, data c ∧ leaf = hash_chunk o c

/-- What a storage proof should say, for a root and a chunk count. -/
structure StorageSound (root : Bytes32) (n : UInt32) : Prop where
  /-- An accepted path is as long as those of a tree with `n` leaves. -/
  length : ∀ i proof, AcceptedProof o asked data root n i proof →
    ∀ leaves tree path, leaves.length = n.toNat → build o leaves = some tree →
      generate_proof tree i = some path → proof.merkle_proof.length = path.length
  /-- An index has one chunk hash. -/
  unique : ∀ i proof proof', AcceptedProof o asked data root n i proof →
    AcceptedProof o asked data root n i proof' → proof.chunk_hash = proof'.chunk_hash
  /-- And this is the leaf of every tree with `n` leaves and this root. -/
  leaf : ∀ i proof leaves, AcceptedProof o asked data root n i proof →
    TreeOver o asked data root n leaves → leaves[i]? = some proof.chunk_hash
  /-- One chunk does not answer for all of several indices. -/
  spread : 1 < n.toNat → ¬ ∃ c, ∀ i < n.toNat, ∃ proof,
    AcceptedProof o asked data root n i proof ∧ proof.chunk_data = c

/-- The places that the indices below `n` lead to have chunks at the depth of a tree with `n`
leaves only, and no chunk fills all of several places. -/
structure Shaped (root : Bytes32) (n : UInt32) : Prop where
  depth : ∀ d i c, i < n.toNat → data c →
    Under (hash_pair o) asked d i root (hash_chunk o c) → d = Nat.clog 2 n.toNat
  several : 1 < n.toNat → ¬ ∃ c, data c ∧ ∀ i < n.toNat,
    Under (hash_pair o) asked (Nat.clog 2 n.toNat) i root (hash_chunk o c)

variable {o asked data}

/-- The length of a path in any tree with `n` leaves. -/
theorem length_generate_proof {leaves : List Bytes32} {tree : CapacityProofMerkleTree}
    {path : List Bytes32} (hlen : leaves.length = n.toNat) (hbuild : build o leaves = some tree)
    (hi : i < n.toNat) (hpath : generate_proof tree i = some path) :
    path.length = Nat.clog 2 n.toNat := by
  have hne : leaves ≠ [] := List.ne_nil_of_length_pos (by omega)
  rw [build_eq, if_neg hne] at hbuild
  cases hbuild
  obtain ⟨p, hp, hheight, _⟩ :=
    generate_proof_treeOf o (List.getElem?_eq_getElem (l := leaves) (i := i) (by omega))
  rw [hp] at hpath
  cases hpath
  rw [hheight, height, hlen]

/-- Some tree has `n` leaves and a path for each index. -/
theorem exists_generate_proof (hi : i < n.toNat) :
    ∃ leaves tree path, leaves.length = n.toNat ∧ build o leaves = some tree ∧
      generate_proof tree i = some path := by
  have hlen : (List.replicate n.toNat (0 : Bytes32)).length = n.toNat := List.length_replicate
  have hne : List.replicate n.toNat (0 : Bytes32) ≠ [] :=
    List.ne_nil_of_length_pos (by omega)
  obtain ⟨path, hpath, _⟩ := generate_proof_treeOf o
    (List.getElem?_eq_getElem (l := List.replicate n.toNat (0 : Bytes32)) (i := i) (by omega))
  exact ⟨_, _, path, hlen, by rw [build_eq, if_neg hne], hpath⟩

theorem StorageSound.shaped (h : StorageSound o asked data root n) :
    Shaped o asked data root n := by
  have hdepth : ∀ d i c, i < n.toNat → data c →
      Under (hash_pair o) asked d i root (hash_chunk o c) → d = Nat.clog 2 n.toNat := by
    intro d i c hi hc hunder
    obtain ⟨proof, haccepted, hlen, _⟩ := accepted_of_under hi hc hunder
    obtain ⟨leaves, tree, path, hleaves, hbuild, hpath⟩ := exists_generate_proof (o := o) hi
    rw [← hlen, h.length i proof haccepted leaves tree path hleaves hbuild hpath]
    exact length_generate_proof hleaves hbuild hi hpath
  refine ⟨hdepth, fun hn => ?_⟩
  rintro ⟨c, hc, hall⟩
  refine h.spread hn ⟨c, fun i hi => ?_⟩
  obtain ⟨proof, haccepted, _, hdata⟩ := accepted_of_under hi hc (hall i hi)
  exact ⟨proof, haccepted, hdata⟩

theorem Shaped.storageSound (hfree : CollisionFree (hash_pair o) asked)
    (h : Shaped o asked data root n) : StorageSound o asked data root n := by
  -- every accepted proof leads to a place at the one depth
  have hunder : ∀ i proof, AcceptedProof o asked data root n i proof →
      Under (hash_pair o) asked (Nat.clog 2 n.toNat) i root (hash_chunk o proof.chunk_data) := by
    intro i proof haccepted
    have hplace := haccepted.under
    rw [h.depth _ i _ haccepted.lt haccepted.chunk hplace] at hplace
    exact hplace
  refine ⟨?_, ?_, ?_, ?_⟩
  · intro i proof haccepted leaves tree path hlen hbuild hpath
    rw [length_generate_proof hlen hbuild haccepted.lt hpath]
    exact h.depth _ i _ haccepted.lt haccepted.chunk haccepted.under
  · intro i proof proof' haccepted haccepted'
    rw [← haccepted.hash_eq, ← haccepted'.hash_eq]
    exact (hunder i proof haccepted).unique hfree (hunder i proof' haccepted')
  · intro i proof leaves haccepted htree
    have hlt := haccepted.lt
    have hlen := htree.length
    have hne : leaves ≠ [] := List.ne_nil_of_length_pos (by omega)
    obtain ⟨tree, hbuild, hroot⟩ := htree.built
    rw [build_eq, if_neg hne] at hbuild
    cases hbuild
    obtain ⟨a, hleaf⟩ : ∃ a, leaves[i]? = some a :=
      ⟨_, List.getElem?_eq_getElem (by omega)⟩
    have hstands := under_of_leaf htree.joined hleaf (top_rootOf o hne)
    rw [hlen, show rootOf o leaves = root from hroot] at hstands
    rw [hleaf, ← haccepted.hash_eq]
    exact congrArg some (hstands.unique hfree (hunder i proof haccepted))
  · intro hn
    rintro ⟨c, hall⟩
    refine h.several hn ⟨c, ?_, fun i hi => ?_⟩
    · obtain ⟨proof, haccepted, rfl⟩ := hall 0 (by omega)
      exact haccepted.chunk
    · obtain ⟨proof, haccepted, rfl⟩ := hall i hi
      exact hunder i proof haccepted

/-- The root of a tree over `n` chunks that are not all alike is shaped, when no chunk hash
is the join of two hashes. -/
theorem TreeOver.shaped {leaves : List Bytes32} (hfree : CollisionFree (hash_pair o) asked)
    (hapart : ∀ c l r, data c → asked l r → hash_chunk o c ≠ hash_pair o l r) (hn : 0 < n.toNat)
    (h : TreeOver o asked data root n leaves)
    (hseveral : 1 < n.toNat → ∃ a ∈ leaves, ∃ b ∈ leaves, a ≠ b) :
    Shaped o asked data root n := by
  have hlen := h.length
  have hne : leaves ≠ [] := List.ne_nil_of_length_pos (by omega)
  obtain ⟨tree, hbuild, hroot⟩ := h.built
  rw [build_eq, if_neg hne] at hbuild
  cases hbuild
  have htop := top_rootOf o hne
  rw [show rootOf o leaves = root from hroot] at htop
  have hleaf : ∀ x ∈ leaves, ∀ l r, asked l r → x ≠ hash_pair o l r := by
    intro x hx l r hasked
    obtain ⟨c, hc, rfl⟩ := h.chunks x hx
    exact hapart c l r hc hasked
  refine ⟨fun d i c hi hc hunder => ?_, fun hmany => ?_⟩
  · rw [hunder.depth_eq hfree h.joined hleaf htop (fun l r => hapart c l r hc), hlen]
  · rintro ⟨c, _, hall⟩
    obtain ⟨a, ha, b, hb, hab⟩ := hseveral hmany
    have hsame : ∀ x ∈ leaves, x = hash_chunk o c := by
      intro x hx
      obtain ⟨k, hk⟩ := List.getElem?_of_mem hx
      have hlt := (List.getElem?_eq_some_iff.mp hk).1
      have hstands := under_of_leaf h.joined hk htop
      rw [hlen] at hstands
      exact hstands.unique hfree (hall k (by omega))
    exact hab ((hsame a ha).trans (hsame b hb).symm)

/-! ## What the chain rewards -/

/-- A response that `process_verified_proof_tx` accepts as valid, for a provider that the
record of its epoch froze with this root and chunk count. -/
structure RewardedFor (o : Outside) (pc : ProtocolConstants) (st : Storage) (e : AppStateEnvelope)
    (vp : VerifiedProofTx) (root : Bytes32) (n : UInt32) : Prop where
  accepted : (process_verified_proof_tx o pc st e vp).1.code = 0
  valid : vp.failed = false
  frozen : ∃ record info, e.get_epoch_record o st (epochOf pc vp.block_height) = .ok (some record) ∧
    record.challenged_capacity_validators.find? (fun p => p.address == vp.capacity_provider) =
      some info ∧ info.merkle_root = some root ∧ info.chunk_count = some n

theorem select_lt {epoch height : I64} {provider validator : Address} {k : Nat}
    (h : i ∈ select_challenge_chunk_indices o epoch provider height validator n k) :
    i < n.toNat := by
  unfold select_challenge_chunk_indices at h
  by_cases hn : n = 0
  · rw [if_pos hn] at h
    cases h
  · rw [if_neg hn] at h
    exact List.mem_range.mp (mem_of_mem_shuffle (List.mem_of_mem_take h))

/-- What the processor accepts, the verifier accepts for that root and indices below that
count. -/
theorem RewardedFor.verified {pc : ProtocolConstants} {st : Storage} {e : AppStateEnvelope}
    {vp : VerifiedProofTx} (h : RewardedFor o pc st e vp root n) :
    ∃ indices, (∀ i ∈ indices, i < n.toNat) ∧
      validate_challenge_proof o vp.proofs root indices = [] := by
  obtain ⟨binding, heffect⟩ := effect_of_process h.accepted
  obtain ⟨record, active, info, hrecord, hbound⟩ := heffect.passes.toAccepts.bound_record
  obtain ⟨record', info', hrecord', hinfo', hroot, hcount⟩ := h.frozen
  rw [hrecord] at hrecord'
  cases hrecord'
  have hentry := hbound.entry
  rw [hinfo'] at hentry
  cases hentry
  have hsame := hbound.merkle_root
  rw [hroot] at hsame
  cases hsame
  refine ⟨binding.expected_indices, fun i hi => ?_, ?_⟩
  · rw [hbound.indices, hcount] at hi
    exact select_lt hi
  · by_contra hne
    have hflag := heffect.passes.judged.mpr hne
    rw [h.valid] at hflag
    cases hflag

/-- Storage proofs are sound for a root and a chunk count exactly when the tree under the
root has the shape of that count; a tree over as many chunks, not all alike, gives such a
root; and what the chain rewards is accepted for its frozen root and count. -/
theorem storage_proofs_sound_iff (hfree : CollisionFree (hash_pair o) asked)
    (hapart : ∀ c l r, data c → asked l r → hash_chunk o c ≠ hash_pair o l r) (hn : 0 < n.toNat) :
    (StorageSound o asked data root n ↔ Shaped o asked data root n) ∧
    (∀ leaves, TreeOver o asked data root n leaves →
      (1 < n.toNat → ∃ a ∈ leaves, ∃ b ∈ leaves, a ≠ b) → StorageSound o asked data root n) ∧
    ∀ pc st e vp, RewardedFor o pc st e vp root n → (∀ p ∈ vp.proofs, Made o asked data p) →
      ∀ p ∈ vp.proofs, ∃ i, AcceptedProof o asked data root n i p := by
  refine ⟨⟨fun h => h.shaped, fun h => h.storageSound hfree⟩,
    fun leaves htree hseveral => (htree.shaped hfree hapart hn hseveral).storageSound hfree, ?_⟩
  intro pc st e vp hrewarded hmade p hp
  obtain ⟨indices, hlt, hvalid⟩ := hrewarded.verified
  obtain ⟨hlen, _⟩ := List.forall₂_iff_zip.mp ((validate_challenge_proof_iff o).mp hvalid)
  obtain ⟨k, hk⟩ := List.getElem?_of_mem hp
  have hklt := (List.getElem?_eq_some_iff.mp hk).1
  obtain ⟨i, hindex⟩ : ∃ i, indices[k]? = some i := ⟨_, List.getElem?_eq_getElem (by omega)⟩
  refine ⟨i, vp.proofs, indices, hlt, hvalid, hmade, ?_⟩
  exact List.mem_of_getElem? (List.getElem?_zip_eq_some.mpr ⟨hk, hindex⟩)

/-- Alice's tree over two chunks, with everything that was hashed for it. -/
theorem storage_proofs_sound_of_two_chunks :
    StorageSound Outside.toy
      (fun l r => l = hash_chunk Outside.toy [1] ∧ r = hash_chunk Outside.toy [2])
      (fun c => c = [1] ∨ c = [2])
      (hash_pair Outside.toy (hash_chunk Outside.toy [1]) (hash_chunk Outside.toy [2])) 2 := by
  have hfirst : hash_chunk Outside.toy [1] ≠
      hash_pair Outside.toy (hash_chunk Outside.toy [1]) (hash_chunk Outside.toy [2]) := by
    decide +kernel
  have hsecond : hash_chunk Outside.toy [2] ≠
      hash_pair Outside.toy (hash_chunk Outside.toy [1]) (hash_chunk Outside.toy [2]) := by
    decide +kernel
  have hdistinct : hash_chunk Outside.toy [1] ≠ hash_chunk Outside.toy [2] := by decide +kernel
  refine (storage_proofs_sound_iff ?_ ?_ (by decide)).2.1
    [hash_chunk Outside.toy [1], hash_chunk Outside.toy [2]] ⟨rfl, ⟨_, rfl, rfl⟩, ?_, ?_⟩ ?_
  · rintro a b a' b' ⟨rfl, rfl⟩ ⟨rfl, rfl⟩ _
    exact ⟨rfl, rfl⟩
  · rintro c l r hc ⟨rfl, rfl⟩
    rcases hc with rfl | rfl
    · exact hfirst
    · exact hsecond
  · intro e he k a ha
    have he0 : e = 0 := by
      have hclog : Nat.clog 2 [hash_chunk Outside.toy [1], hash_chunk Outside.toy [2]].length = 1 :=
        rfl
      omega
    subst he0
    cases k with
    | zero =>
      cases ha
      exact ⟨rfl, rfl⟩
    | succ k => cases ha
  · intro leaf hleaf
    simp only [List.mem_cons, List.not_mem_nil, or_false] at hleaf
    rcases hleaf with rfl | rfl
    · exact ⟨[1], Or.inl rfl, rfl⟩
    · exact ⟨[2], Or.inr rfl, rfl⟩
  · intro _
    exact ⟨_, List.mem_cons_self, _, List.mem_cons_of_mem _ List.mem_cons_self, hdistinct⟩

/-! ## One chunk registered as two -/

/-- The challenge of the first epoch, for a provider of two chunks. -/
def twoChunksChallenge : ChallengeId :=
  compute_challenge_id Outside.toy alice alice (smallHeight 2)
    (select_challenge_chunk_indices Outside.toy (epochOf smallConstants (smallHeight 2)) alice
      (smallHeight 2) alice 2 smallConstants.chunks_per_challenge)

/-- The one chunk that Alice stores, as the proof of both indices, with no path at all. -/
def pathlessProofs : List ChunkProof :=
  [⟨0, [1], hash_chunk Outside.toy [1], [], .Proof, zero_lt_u64⟩,
    ⟨1, [1], hash_chunk Outside.toy [1], [], .Proof, Nat.one_lt_two_pow (Nat.succ_ne_zero 63)⟩]

/-- She registers two chunks under the hash of that chunk, and answers with it. -/
def pathlessRun : List Request :=
  epochAfter (registers (hash_chunk Outside.toy [1]) 2) ++
    [.DeliverTx (.ok (signed 1 2 "VerifiedProof" (.VerifiedProof (answerWith
      twoChunksChallenge.to_hex (hex_id_safe 64 _ id_length) pathlessProofs (List.cons_ne_nil _ _)
      false))))]

/-- The answer is rewarded, and the same chunk is accepted at every index. -/
theorem one_chunk_answers_for_two :
    (∃ m, RunsTo Outside.toy smallConstants smallConfig pathlessRun m) ∧
      (rewards Outside.toy smallConstants smallConfig pathlessRun).map
        (fun vp => (vp.capacity_provider, vp.proofs.map (fun p => (p.chunk_index, p.merkle_proof)))) =
        [(alice, [(0, []), (1, [])])] ∧
      ¬ StorageSound Outside.toy (fun _ _ => False) (fun c => c = [1])
        (hash_chunk Outside.toy [1]) 2 := by
  obtain ⟨m, hm, _⟩ := @smallRun_ends pathlessRun (fun _ => true) (by decide +kernel)
  refine ⟨⟨m, hm⟩, by decide +kernel, fun h => ?_⟩
  have hpathless : ∀ i < (2 : UInt32).toNat, ∃ proof, AcceptedProof Outside.toy
      (fun _ _ => False) (fun c => c = [1]) (hash_chunk Outside.toy [1]) 2 i proof ∧
      proof.merkle_proof.length = 0 ∧ proof.chunk_data = [1] :=
    fun i hi => accepted_of_under hi rfl rfl
  refine h.spread (by decide) ⟨[1], fun i hi => ?_⟩
  obtain ⟨proof, haccepted, _, hdata⟩ := hpathless i hi
  exact ⟨proof, haccepted, hdata⟩

end eld_chain
