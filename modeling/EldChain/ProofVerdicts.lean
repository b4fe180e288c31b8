-- When the verifier accepts: one condition for each chunk proof, and as
-- many proofs as challenged indices, in their order.
import EldChain.Challenges

namespace eld_chain

variable (o : Outside)

/-- A chunk proof that the verifier has nothing against, for an index and a root. -/
structure Proven (root : Bytes32) (proof : ChunkProof) (index : Nat) : Prop where
  index_eq : proof.chunk_index = index
  hash_eq : hash_chunk o proof.chunk_data = proof.chunk_hash
  path : verify_proof o proof.chunk_hash proof.merkle_proof root proof.chunk_index = true
  zero : proof.slot_state = .Open → proof.chunk_data.all (· == 0) = true

theorem chunkProofError_none_iff {root : Bytes32} {i : Nat} {proof : ChunkProof} {index : Nat} :
    chunkProofError o root i proof index = none ↔ Proven o root proof index := by
  unfold chunkProofError
  by_cases hindex : proof.chunk_index = index
  · rw [if_neg (not_not.mpr hindex)]
    by_cases hhash : hash_chunk o proof.chunk_data = proof.chunk_hash
    · rw [if_neg (not_not.mpr hhash)]
      by_cases hpath :
          verify_proof o proof.chunk_hash proof.merkle_proof root proof.chunk_index = true
      · rw [if_neg (by simp [hpath])]
        by_cases hzero : proof.slot_state = .Open ∧ !proof.chunk_data.all (· == 0)
        · rw [if_pos hzero]
          constructor
          · intro h
            cases h
          · intro h
            have := h.zero hzero.1
            simp only [this, Bool.not_true, Bool.false_eq_true, and_false] at hzero
        · rw [if_neg hzero]
          refine ⟨fun _ => ⟨hindex, hhash, hpath, fun hopen => ?_⟩, fun _ => rfl⟩
          by_contra hne
          exact hzero ⟨hopen, by simpa using hne⟩
      · rw [if_pos (by simpa using hpath)]
        exact ⟨fun h => (by cases h), fun h => absurd h.path hpath⟩
    · rw [if_pos hhash]
      exact ⟨fun h => (by cases h), fun h => absurd h.hash_eq hhash⟩
  · rw [if_pos hindex]
    exact ⟨fun h => (by cases h), fun h => absurd h.index_eq hindex⟩

/-- The verifier accepts exactly when each proof is sound for its index. -/
theorem validate_challenge_proof_iff {proofs : List ChunkProof} {root : Bytes32}
    {indices : List Nat} :
    validate_challenge_proof o proofs root indices = [] ↔
      List.Forall₂ (fun proof index => Proven o root proof index) proofs indices := by
  unfold validate_challenge_proof
  rw [List.forall₂_iff_zip]
  by_cases hlen : proofs.length = indices.length
  · rw [if_neg (not_not.mpr hlen), List.filterMap_eq_nil_iff]
    constructor
    · intro h
      refine ⟨hlen, fun {proof index} hmem => ?_⟩
      obtain ⟨k, hk⟩ := List.getElem?_of_mem hmem
      have hzip : ((proof, index), k) ∈ (proofs.zip indices).zipIdx :=
        List.mk_mem_zipIdx_iff_getElem?.mpr hk
      exact (chunkProofError_none_iff o).mp (h _ hzip)
    · rintro ⟨_, h⟩ ⟨⟨proof, index⟩, k⟩ hmem
      have hk := List.mk_mem_zipIdx_iff_getElem?.mp hmem
      exact (chunkProofError_none_iff o).mpr (h (List.mem_of_getElem? hk))
  · rw [if_pos hlen]
    exact ⟨fun h => (by cases h), fun h => absurd h.1 hlen⟩

end eld_chain
