-- Completeness of the Merkle proofs of a capacity tree: in a tree that was
-- built, every leaf has a proof with one sibling for each level below the
-- root, and the proof is accepted. The pair hash can be any function.
import EldChain.CapacityTree
import EldChain.CodecRoundTrip

namespace eld_chain

open hash_tree CapacityProofMerkleTree

/-- The two nodes that a message of `hash_pair` is about, after its six letters. -/
def pairOf (message : Bytes) : Bytes32 × Bytes32 :=
  let nodes := message.drop 6
  (BitVec.ofNat 256 (ofBeBytes (nodes.take 32)), BitVec.ofNat 256 (ofBeBytes (nodes.drop 32)))

theorem pairOf_message (left right : Bytes32) :
    pairOf (Text.bytes "Merkle".toList ++ beBytes 32 left.toNat ++ beBytes 32 right.toNat) =
      (left, right) := by
  have hmark : (Text.bytes "Merkle".toList).length = 6 := by decide
  have hlen := length_beBytes 32 left.toNat
  have hnodes : (Text.bytes "Merkle".toList ++ beBytes 32 left.toNat ++
      beBytes 32 right.toNat).drop 6 = beBytes 32 left.toNat ++ beBytes 32 right.toNat := by
    rw [List.append_assoc, List.drop_left' hmark]
  unfold pairOf
  simp only [hnodes, List.take_left' hlen, List.drop_left' hlen, key_of_beBytes]

/-- A digest for which the pair hash is a given function. -/
def Outside.withJoin (o : Outside) (join : Bytes32 → Bytes32 → Bytes32) : Outside :=
  { o with blake3 := fun message => join (pairOf message).1 (pairOf message).2 }

/-- The pair hash is an arbitrary function: each one is that of some digest. -/
theorem hash_pair_withJoin (o : Outside) (join : Bytes32 → Bytes32 → Bytes32) :
    hash_pair (o.withJoin join) = join := by
  funext left right
  unfold hash_pair Outside.withJoin
  simp only [pairOf_message]

/-- The levels of a built tree: the leaves, and one for each level above them. -/
theorem length_treeOf (o : Outside) (leaves : List Bytes32) :
    (treeOf o leaves).tree.length = height leaves + 1 := length_rows _ _ _

/-- In the tree that `build` gives for any leaves every leaf has a proof: one sibling for
each level below the root, and it is accepted at the leaf's own index. The pair hash is not
restricted: any function is the pair hash of some digest. -/
theorem every_leaf_has_an_accepted_proof :
    (∀ join : Bytes32 → Bytes32 → Bytes32, ∃ o : Outside, hash_pair o = join) ∧
    ∀ (o : Outside) (leaves : List Bytes32) (i : Nat) (h : i < leaves.length),
      ∃ tree proof, build o leaves = some tree ∧ generate_proof tree i = some proof ∧
        proof.length + 1 = tree.tree.length ∧
        verify_proof o leaves[i] proof tree.root i = true := by
  refine ⟨fun join => ⟨Outside.toy.withJoin join, hash_pair_withJoin _ join⟩, ?_⟩
  intro o leaves i h
  have hne : leaves ≠ [] := List.ne_nil_of_length_pos (by omega)
  have hbuilt : build o leaves = some (treeOf o leaves) := by
    rw [build_eq, if_neg hne]
  obtain ⟨proof, hproof, hlen, hverify⟩ := generate_proof_treeOf o (List.getElem?_eq_getElem h)
  refine ⟨treeOf o leaves, proof, hbuilt, hproof, ?_, hverify⟩
  rw [hlen, length_treeOf]

/-- The unpaired last leaf of three. -/
theorem third_leaf_has_an_accepted_proof :
    ∃ tree proof, build Outside.toy [5, 6, 7] = some tree ∧
      generate_proof tree 2 = some proof ∧ proof.length + 1 = tree.tree.length ∧
      verify_proof Outside.toy 7 proof tree.root 2 = true :=
  every_leaf_has_an_accepted_proof.2 Outside.toy [5, 6, 7] 2 (by decide)

end eld_chain
