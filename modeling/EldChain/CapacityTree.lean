-- The Merkle tree over the slots of a capacity file: building it, changing
-- some leaves in place and proving one leaf. A function that panics in the
-- source gives none here. On a tree that was built, the incremental update
-- is the tree built over the new leaves, and every proof leads to the root.
import EldChain.Challenges
import EldChain.Library.HashTrees

namespace eld_chain

open hash_tree

variable (o : Outside)

structure CapacityProofMerkleTree where
  leaves : List Bytes32
  root : Bytes32
  tree : List (List Bytes32)
deriving DecidableEq

namespace CapacityProofMerkleTree

/-! ## Building -/

/-- The loop of `build`: the levels so far and the current level. The fuel is the number
of leaves, which no tree is as high as. -/
def buildLoop : Nat → List (List Bytes32) → List Bytes32 → List (List Bytes32) × List Bytes32
  | 0, tree, current_level => (tree, current_level)
  | fuel + 1, tree, current_level =>
    if 1 < current_level.length then
      let next_level := levelUp (hash_pair o) current_level
      buildLoop fuel (tree ++ [next_level]) next_level
    else (tree, current_level)

def build (leaves : List Bytes32) : Option CapacityProofMerkleTree :=
  if leaves = [] then none
  else
    let built := buildLoop o leaves.length [leaves] leaves
    built.2[0]?.map (fun root => ⟨leaves, root, built.1⟩)

/-! ## Changing leaves in place -/

/-- The index beside a node. -/
def siblingIndex (index : Nat) : Nat := if index % 2 = 0 then index + 1 else index - 1

/-- The new hash of the parent of a node, read from the node's level. -/
def parentUpdate (level : List Bytes32) (node_index : Nat) : Option (Nat × Bytes32) :=
  let sibling_index := siblingIndex node_index
  let left_hash := if node_index % 2 = 0 then level[node_index]? else level[sibling_index]?
  let right_hash :=
    if node_index % 2 = 0 then
      if sibling_index < level.length then level[sibling_index]? else level[node_index]?
    else level[node_index]?
  match left_hash, right_hash with
  | some left, some right => some (node_index / 2, hash_pair o left right)
  | _, _ => none

/-- The walk up the levels, from the current level and the levels above it. The set of
nodes to update is a list without duplicates. -/
def updateLevels : List Nat → List Bytes32 → List (List Bytes32) → Option (List (List Bytes32))
  | _, level, [] => some [level]
  | nodes_to_update, level, next_level :: rest =>
    match nodes_to_update.mapM (parentUpdate o level) with
    | none => none
    | some parent_updates =>
      (updateLevels (nodes_to_update.map (· / 2)).dedup
        (setAll parent_updates next_level) rest).map (level :: ·)

def update_leaves (updates : List (Nat × Bytes32)) (t : CapacityProofMerkleTree) :
    Option CapacityProofMerkleTree :=
  if updates = [] then some t
  else if updates.any (fun u => t.leaves.length ≤ u.1) then none
  else
    match t.tree with
    | [] => none
    | level :: rest =>
      (updateLevels o (updates.map Prod.fst).dedup (setAll updates level) rest).map
        (fun tree =>
          ⟨setAll updates t.leaves, ((tree.getLast?).bind (·[0]?)).getD t.root, tree⟩)

/-! ## Proving a leaf -/

/-- The loop of `generate_proof`, over every level but the last. -/
def proofLoop : List (List Bytes32) → Nat → Option (List Bytes32)
  | level :: next_level :: rest, current_index =>
    let sibling_index := siblingIndex current_index
    match (if sibling_index < level.length then level[sibling_index]?
      else level[current_index]?) with
    | none => none
    | some sibling => (proofLoop (next_level :: rest) (current_index / 2)).map (sibling :: ·)
  | _, _ => some []

def generate_proof (t : CapacityProofMerkleTree) (leaf_index : Nat) : Option (List Bytes32) :=
  if t.leaves.length ≤ leaf_index then none else proofLoop t.tree leaf_index

/-! ## The tree over a row of leaves -/

/-- The height of a tree with as many leaves. -/
def height (leaves : List Bytes32) : Nat := Nat.clog 2 leaves.length

/-- The root over a row of leaves. -/
def rootOf (leaves : List Bytes32) : Bytes32 :=
  (above (hash_pair o) (height leaves) leaves)[0]?.getD 0

/-- The tree over a row of leaves. -/
def treeOf (leaves : List Bytes32) : CapacityProofMerkleTree :=
  ⟨leaves, rootOf o leaves, rows (hash_pair o) (height leaves) leaves⟩

theorem above_height {leaves : List Bytes32} (h : leaves ≠ []) :
    above (hash_pair o) (height leaves) leaves = [rootOf o leaves] := by
  obtain ⟨top, htop⟩ := List.length_eq_one_iff.mp (length_above_clog (hash_pair o) leaves h)
  unfold rootOf height
  rw [htop]
  rfl

theorem buildLoop_eq (fuel : Nat) (tree : List (List Bytes32)) (row : List Bytes32)
    (h : row.length ≤ fuel + 1) :
    buildLoop o fuel tree row = (tree ++ (rows (hash_pair o) (height row) row).tail,
      above (hash_pair o) (height row) row) := by
  induction fuel generalizing tree row with
  | zero =>
    rw [height, Nat.clog_of_right_le_one (by omega)]
    simp [buildLoop, rows, above]
  | succ fuel ih =>
    rw [buildLoop]
    by_cases hone : 1 < row.length
    · have hlen := length_levelUp (hash_pair o) row
      have hheight : height row = height (levelUp (hash_pair o) row) + 1 := by
        rw [height, height, Nat.clog_of_two_le (by omega) (by omega), hlen]
        rfl
      rw [if_pos hone, ih _ _ (by omega), hheight, rows, above, List.tail_cons]
      cases hh : height (levelUp (hash_pair o) row) <;> simp [rows]
    · rw [if_neg hone, height, Nat.clog_of_right_le_one (by omega)]
      simp [rows, above]

/-- `build` panics on no leaves only, and otherwise gives the tree over the leaves. -/
theorem build_eq (leaves : List Bytes32) :
    build o leaves = if leaves = [] then none else some (treeOf o leaves) := by
  unfold build
  by_cases h : leaves = []
  · rw [if_pos h, if_pos h]
  · rw [if_neg h, if_neg h, buildLoop_eq o _ _ _ (by omega)]
    simp only [above_height o h, List.getElem?_cons_zero, Option.map_some, treeOf]
    cases hh : height leaves <;> rfl

theorem parentUpdate_eq {level : List Bytes32} {i : Nat} (h : i < level.length) :
    ∃ w, parentUpdate o level i = some w ∧ w.1 = i / 2 ∧
      (levelUp (hash_pair o) level)[i / 2]? = some w.2 := by
  obtain ⟨s, hs, hup⟩ := parent_of_sibling (hash_pair o) (List.getElem?_eq_getElem h)
  refine ⟨(i / 2, joinAt (hash_pair o) i level[i] s), ?_, rfl, hup⟩
  unfold sibling at hs
  unfold parentUpdate siblingIndex joinAt sides
  by_cases heven : i % 2 = 0
  · simp only [if_pos heven] at hs ⊢
    by_cases hin : i + 1 < level.length
    · rw [List.getElem?_eq_getElem hin] at hs
      cases hs
      simp [hin, h]
    · rw [List.getElem?_eq_none (by omega), List.getElem?_eq_getElem h] at hs
      cases hs
      simp [hin, h]
  · simp only [if_neg heven] at hs ⊢
    rw [List.getElem?_eq_getElem (show i - 1 < level.length by omega)] at hs
    cases hs
    simp [h, show i - 1 < level.length by omega]

theorem mapM_parentUpdate {level : List Bytes32} {nodes : List Nat}
    (h : ∀ i ∈ nodes, i < level.length) :
    ∃ writes, nodes.mapM (parentUpdate o level) = some writes ∧
      writes.map Prod.fst = nodes.map (· / 2) ∧
      ∀ w ∈ writes, (levelUp (hash_pair o) level)[w.1]? = some w.2 := by
  induction nodes with
  | nil => exact ⟨[], rfl, rfl, by simp⟩
  | cons i nodes ih =>
    obtain ⟨w, hw, hplace, hval⟩ := parentUpdate_eq o (h i List.mem_cons_self)
    obtain ⟨writes, hws, hplaces, hvals⟩ := ih (fun j hj => h j (List.mem_cons_of_mem _ hj))
    refine ⟨w :: writes, ?_, ?_, ?_⟩
    · rw [List.mapM_cons, hw, hws]
      rfl
    · rw [List.map_cons, List.map_cons, hplace, hplaces]
    · intro u hu
      rcases List.mem_cons.mp hu with rfl | hu
      · rw [hplace]
        exact hval
      · exact hvals u hu

/-- One level of the walk up, over the changed nodes in the order of a list: it rewrites
the level above to the one over the changed row, and only above a changed node. -/
theorem level_step {row row' : List Bytes32} {nodes : List Nat}
    (hlen : row'.length = row.length) (hin : ∀ i ∈ nodes, i < row.length)
    (hsame : ∀ i, i ∉ nodes → row'[i]? = row[i]?) :
    ∃ writes, nodes.mapM (parentUpdate o row') = some writes ∧
      setAll writes (levelUp (hash_pair o) row) = levelUp (hash_pair o) row' ∧
      ∀ k, k ∉ nodes.map (· / 2) →
        (levelUp (hash_pair o) row')[k]? = (levelUp (hash_pair o) row)[k]? := by
  obtain ⟨writes, hws, hplaces, hvals⟩ :=
    mapM_parentUpdate o (fun i hi => hlen ▸ hin i hi : ∀ i ∈ nodes, i < row'.length)
  have hup : setAll writes (levelUp (hash_pair o) row) = levelUp (hash_pair o) row' := by
    refine setAll_parents (hash_pair o) hlen hsame hvals ?_
    intro i hi
    rw [hplaces]
    exact List.mem_map_of_mem hi
  refine ⟨writes, hws, hup, fun k hk => ?_⟩
  rw [← hup, setAll_get_of_untouched]
  rw [hplaces]
  exact hk

theorem rows_tail_succ {H : Type} (join : H → H → H) (d : Nat) (row : List H) :
    (rows join (d + 1) row).tail =
      levelUp join row :: (rows join d (levelUp join row)).tail := by
  cases d <;> rfl

/-- The walk up rewrites each level to the one over the changed leaves. -/
theorem updateLevels_rows (d : Nat) {row row' : List Bytes32} {nodes : List Nat}
    (hlen : row'.length = row.length) (hin : ∀ i ∈ nodes, i < row.length)
    (hsame : ∀ i, i ∉ nodes → row'[i]? = row[i]?) :
    updateLevels o nodes row' (rows (hash_pair o) d row).tail =
      some (rows (hash_pair o) d row') := by
  induction d generalizing row row' nodes with
  | zero => rfl
  | succ d ih =>
    obtain ⟨writes, hws, hup, hrest⟩ := level_step o hlen hin hsame
    rw [rows_tail_succ, updateLevels, hws]
    simp only [hup]
    rw [ih]
    · rfl
    · rw [length_levelUp, length_levelUp, hlen]
    · intro k hk
      obtain ⟨i, hi, rfl⟩ := List.mem_map.mp (List.mem_dedup.mp hk)
      have := hin i hi
      rw [length_levelUp]
      omega
    · intro k hk
      exact hrest k (fun hmem => hk (List.mem_dedup.mpr hmem))

theorem getLast_rows {H : Type} (join : H → H → H) (d : Nat) (row : List H) :
    (rows join d row).getLast? = some (above join d row) := by
  rw [List.getLast?_eq_getElem?, length_rows]
  exact rows_get join d row (by omega)

theorem treeOf_tree (leaves : List Bytes32) : (treeOf o leaves).tree =
    leaves :: (rows (hash_pair o) (height leaves) leaves).tail := by
  unfold treeOf
  cases height leaves <;> rfl

theorem setAll_ne_nil {leaves : List Bytes32} (updates : List (Nat × Bytes32))
    (hne : leaves ≠ []) : setAll updates leaves ≠ [] := by
  intro hnil
  have := congrArg List.length hnil
  rw [length_setAll] at this
  exact hne (List.length_eq_zero_iff.mp this)

/-- The levels over changed leaves, with the root read from the highest, are the tree over
these leaves. -/
theorem treeOf_setAll {leaves : List Bytes32} (updates : List (Nat × Bytes32))
    (hne : leaves ≠ []) (root : Bytes32) :
    let tree := rows (hash_pair o) (height leaves) (setAll updates leaves)
    (⟨setAll updates leaves, ((tree.getLast?).bind (·[0]?)).getD root, tree⟩ :
      CapacityProofMerkleTree) = treeOf o (setAll updates leaves) := by
  have hheight : height (setAll updates leaves) = height leaves := by
    rw [height, height, length_setAll]
  have htop : above (hash_pair o) (height leaves) (setAll updates leaves) =
      [rootOf o (setAll updates leaves)] := by
    rw [← hheight]
    exact above_height o (setAll_ne_nil updates hne)
  simp only [getLast_rows, Option.bind_some, htop, List.getElem?_cons_zero, Option.getD_some,
    treeOf, hheight]

/-- The incremental update of a built tree is the tree built over the new leaves. -/
theorem update_leaves_treeOf {leaves : List Bytes32} (updates : List (Nat × Bytes32))
    (hne : leaves ≠ []) (hin : ∀ u ∈ updates, u.1 < leaves.length) :
    update_leaves o updates (treeOf o leaves) = some (treeOf o (setAll updates leaves)) := by
  unfold update_leaves
  by_cases hnil : updates = []
  · rw [if_pos hnil, hnil]
    rfl
  · have hany : ¬ updates.any (fun u => (treeOf o leaves).leaves.length ≤ u.1) := by
      rw [List.any_eq_true]
      rintro ⟨u, hu, hle⟩
      exact absurd (hin u hu) (Nat.not_lt.mpr (of_decide_eq_true hle))
    rw [if_neg hnil, if_neg hany, treeOf_tree]
    simp only
    rw [updateLevels_rows o (height leaves) (length_setAll updates leaves)]
    · exact congrArg some (treeOf_setAll o updates hne _)
    · intro i hi
      obtain ⟨u, hu, rfl⟩ := List.mem_map.mp (List.mem_dedup.mp hi)
      exact hin u hu
    · intro i hi
      exact setAll_get_of_untouched (fun hmem => hi (List.mem_dedup.mpr hmem)) leaves

theorem proofLoop_rows (d : Nat) {row : List Bytes32} {i : Nat} (h : i < row.length) :
    proofLoop (rows (hash_pair o) d row) i = path (hash_pair o) d row i := by
  induction d generalizing row i with
  | zero => rfl
  | succ d ih =>
    have hnext : rows (hash_pair o) (d + 1) row = row :: levelUp (hash_pair o) row ::
        (rows (hash_pair o) d (levelUp (hash_pair o) row)).tail := by
      cases d <;> rfl
    have hrest : levelUp (hash_pair o) row ::
        (rows (hash_pair o) d (levelUp (hash_pair o) row)).tail =
          rows (hash_pair o) d (levelUp (hash_pair o) row) := by
      cases d <;> rfl
    have hup : i / 2 < (levelUp (hash_pair o) row).length := by
      rw [length_levelUp]
      omega
    have hsib : (if siblingIndex i < row.length then row[siblingIndex i]? else row[i]?) =
        sibling row i := by
      unfold sibling siblingIndex
      generalize (if i % 2 = 0 then i + 1 else i - 1) = k
      by_cases hk : k < row.length
      · rw [if_pos hk, List.getElem?_eq_getElem hk]
        rfl
      · have hnone : row[k]? = none := List.getElem?_eq_none (Nat.not_lt.mp hk)
        rw [if_neg hk, hnone]
        rfl
    rw [hnext, proofLoop, path, hrest]
    simp only [hsib]
    cases sibling row i with
    | none => rfl
    | some s => rw [ih hup]

theorem pathTop_eq_climb (a : Bytes32) (i : Nat) (p : List Bytes32) :
    pathTop o a i p = climb (hash_pair o) a i p := by
  induction p generalizing a i with
  | nil => rfl
  | cons s p ih =>
    rw [pathTop, climb, ih]
    unfold joinAt sides
    by_cases h : i % 2 = 0
    · rw [if_pos h, if_pos h]
    · rw [if_neg h, if_neg h]

theorem top_rootOf {leaves : List Bytes32} (h : leaves ≠ []) :
    (above (hash_pair o) (Nat.clog 2 leaves.length) leaves)[0]? = some (rootOf o leaves) := by
  have := above_height o h
  rw [height] at this
  rw [this]
  rfl

/-- Every leaf of a built tree has a proof, one hash for each level, that leads to the
root. -/
theorem generate_proof_treeOf {leaves : List Bytes32} {i : Nat} {a : Bytes32}
    (h : leaves[i]? = some a) :
    ∃ p, generate_proof (treeOf o leaves) i = some p ∧ p.length = height leaves ∧
      verify_proof o a p (rootOf o leaves) i = true := by
  obtain ⟨hlt, _⟩ := List.getElem?_eq_some_iff.mp h
  have hne : leaves ≠ [] := List.ne_nil_of_length_pos (by omega)
  obtain ⟨p, hp, hlen, hclimb⟩ := climb_path_top (hash_pair o) h (top_rootOf o hne)
  refine ⟨p, ?_, hlen, ?_⟩
  · have hle : ¬ (treeOf o leaves).leaves.length ≤ i := Nat.not_le.mpr hlt
    rw [generate_proof, if_neg hle]
    exact (proofLoop_rows o _ hlt).trans hp
  · rw [verify_proof, pathTop_eq_climb, hclimb]
    exact beq_self_eq_true _

theorem generate_proof_none {leaves : List Bytes32} {i : Nat} (h : leaves.length ≤ i) :
    generate_proof (treeOf o leaves) i = none := if_pos h

end CapacityProofMerkleTree

end eld_chain
