-- Updating a capacity tree in place against building it again. The nodes to
-- update are a hash set, so nobody fixes the order in which a level visits
-- them. In every order, a sequence of updates ends at the tree that `build`
-- gives over the changed leaves.
import EldChain.CapacityTree
import Mathlib.Data.Finset.Image

namespace eld_chain

namespace CapacityProofMerkleTree

open hash_tree

variable (o : Outside)

/-! ## Visiting a set of nodes -/

/-- An order in which a hash set may hand out its nodes. -/
structure Visits (nodes : Finset Nat) (visited : List Nat) : Prop where
  nodup : visited.Nodup
  mem_iff : ∀ i, i ∈ visited ↔ i ∈ nodes

/-- What the walk up may end with, from the current level and the levels above it. Each
level visits its nodes in some order, and no levels are left by a panic. -/
inductive WalksTo : Finset Nat → List Bytes32 → List (List Bytes32) →
    Option (List (List Bytes32)) → Prop
  | top (nodes_to_update : Finset Nat) (level : List Bytes32) :
      WalksTo nodes_to_update level [] (some [level])
  | panics {nodes_to_update : Finset Nat} {visited : List Nat} {level next_level : List Bytes32}
      {rest : List (List Bytes32)} (visits : Visits nodes_to_update visited)
      (outside : visited.mapM (parentUpdate o level) = none) :
      WalksTo nodes_to_update level (next_level :: rest) none
  | up {nodes_to_update : Finset Nat} {visited : List Nat} {level next_level : List Bytes32}
      {rest : List (List Bytes32)} {parent_updates : List (Nat × Bytes32)}
      {tree : Option (List (List Bytes32))} (visits : Visits nodes_to_update visited)
      (computed : visited.mapM (parentUpdate o level) = some parent_updates)
      (above : WalksTo (nodes_to_update.image (· / 2)) (setAll parent_updates next_level) rest
        tree) :
      WalksTo nodes_to_update level (next_level :: rest) (tree.map (level :: ·))

/-- The tree once its levels are updated. -/
def updated (updates : List (Nat × Bytes32)) (t : CapacityProofMerkleTree)
    (tree : List (List Bytes32)) : CapacityProofMerkleTree :=
  ⟨setAll updates t.leaves, ((tree.getLast?).bind (·[0]?)).getD t.root, tree⟩

/-- What `update_leaves` may end with. -/
inductive UpdatesTo (updates : List (Nat × Bytes32)) (t : CapacityProofMerkleTree) :
    Option CapacityProofMerkleTree → Prop
  | unchanged (nothing : updates = []) : UpdatesTo updates t (some t)
  | panics (something : updates ≠ []) (outside : ∃ u ∈ updates, t.leaves.length ≤ u.1) :
      UpdatesTo updates t none
  | no_level (something : updates ≠ []) (empty : t.tree = []) : UpdatesTo updates t none
  | walked {level : List Bytes32} {rest : List (List Bytes32)}
      {tree : Option (List (List Bytes32))} (something : updates ≠ [])
      (inside : ∀ u ∈ updates, u.1 < t.leaves.length) (levels : t.tree = level :: rest)
      (walk : WalksTo o (updates.map Prod.fst).toFinset (setAll updates level) rest tree) :
      UpdatesTo updates t (tree.map (updated updates t))

/-- What a sequence of calls may end with, and nothing is called after a panic. -/
inductive CallsTo : List (List (Nat × Bytes32)) → Option CapacityProofMerkleTree →
    Option CapacityProofMerkleTree → Prop
  | done (t : Option CapacityProofMerkleTree) : CallsTo [] t t
  | panicked (batches : List (List (Nat × Bytes32))) : CallsTo batches none none
  | called {updates : List (Nat × Bytes32)} {batches : List (List (Nat × Bytes32))}
      {t : CapacityProofMerkleTree} {t' end_tree : Option CapacityProofMerkleTree}
      (first : UpdatesTo o updates t t') (others : CallsTo batches t' end_tree) :
      CallsTo (updates :: batches) (some t) end_tree

theorem visits_dedup (nodes : List Nat) : Visits nodes.toFinset nodes.dedup :=
  ⟨nodes.nodup_dedup, fun i => by rw [List.mem_dedup, List.mem_toFinset]⟩

/-- The walk that takes the nodes in the order of their list is one of the walks. -/
theorem updateLevels_walksTo (nodes : List Nat) (level : List Bytes32)
    (rest : List (List Bytes32)) :
    WalksTo o nodes.toFinset level rest (updateLevels o nodes.dedup level rest) := by
  induction rest generalizing nodes level with
  | nil => exact .top _ _
  | cons next_level rest ih =>
    rw [updateLevels]
    cases hcomputed : nodes.dedup.mapM (parentUpdate o level) with
    | none => exact .panics (visits_dedup nodes) hcomputed
    | some parent_updates =>
      refine .up (visits_dedup nodes) hcomputed ?_
      have hset : nodes.toFinset.image (· / 2) = (nodes.dedup.map (· / 2)).toFinset := by
        ext i
        simp
      rw [hset]
      exact ih _ _

theorem update_leaves_updatesTo (updates : List (Nat × Bytes32)) (t : CapacityProofMerkleTree) :
    UpdatesTo o updates t (update_leaves o updates t) := by
  unfold update_leaves
  by_cases hnil : updates = []
  · rw [if_pos hnil]
    exact .unchanged hnil
  · rw [if_neg hnil]
    by_cases hany : updates.any (fun u => t.leaves.length ≤ u.1)
    · rw [if_pos hany]
      obtain ⟨u, hu, hle⟩ := List.any_eq_true.mp hany
      exact .panics hnil ⟨u, hu, of_decide_eq_true hle⟩
    · rw [if_neg hany]
      have hin : ∀ u ∈ updates, u.1 < t.leaves.length := by
        intro u hu
        apply Nat.not_le.mp
        intro hle
        exact hany (List.any_eq_true.mpr ⟨u, hu, decide_eq_true hle⟩)
      cases hlevels : t.tree with
      | nil => exact .no_level hnil hlevels
      | cons level rest => exact .walked hnil hin hlevels (updateLevels_walksTo o _ _ rest)

/-! ## Every order rebuilds the tree -/

/-- A walk over a built tree rewrites each level to the one over the changed leaves. -/
theorem walksTo_rows_iff (d : Nat) {row row' : List Bytes32} {nodes : Finset Nat}
    (hlen : row'.length = row.length) (hin : ∀ i ∈ nodes, i < row.length)
    (hsame : ∀ i, i ∉ nodes → row'[i]? = row[i]?) {tree : Option (List (List Bytes32))} :
    WalksTo o nodes row' (rows (hash_pair o) d row).tail tree ↔
      tree = some (rows (hash_pair o) d row') := by
  induction d generalizing row row' nodes tree with
  | zero =>
    constructor
    · intro h
      cases h
      rfl
    · rintro rfl
      exact .top _ _
  | succ d ih =>
    -- whatever order a level is visited in, the level above becomes the right one
    have hlevel : ∀ visited, Visits nodes visited → ∃ writes,
        visited.mapM (parentUpdate o row') = some writes ∧
        setAll writes (levelUp (hash_pair o) row) = levelUp (hash_pair o) row' := by
      intro visited hv
      obtain ⟨writes, hws, hup, _⟩ := level_step o hlen
        (fun i hi => hin i ((hv.mem_iff i).mp hi))
        (fun i hi => hsame i (fun hmem => hi ((hv.mem_iff i).mpr hmem)))
      exact ⟨writes, hws, hup⟩
    have habove : ∀ {tree : Option (List (List Bytes32))},
        WalksTo o (nodes.image (· / 2)) (levelUp (hash_pair o) row')
          (rows (hash_pair o) d (levelUp (hash_pair o) row)).tail tree ↔
        tree = some (rows (hash_pair o) d (levelUp (hash_pair o) row')) := by
      apply ih
      · rw [length_levelUp, length_levelUp, hlen]
      · intro k hk
        obtain ⟨i, hi, rfl⟩ := Finset.mem_image.mp hk
        have := hin i hi
        rw [length_levelUp]
        omega
      · intro k hk
        have hv : Visits nodes nodes.toList := ⟨nodes.nodup_toList, fun _ => Finset.mem_toList⟩
        obtain ⟨_, _, _, hrest⟩ := level_step o hlen
          (fun i hi => hin i ((hv.mem_iff i).mp hi))
          (fun i hi => hsame i (fun hmem => hi ((hv.mem_iff i).mpr hmem)))
        apply hrest
        intro hmem
        obtain ⟨i, hi, rfl⟩ := List.mem_map.mp hmem
        exact hk (Finset.mem_image_of_mem _ ((hv.mem_iff i).mp hi))
    rw [rows_tail_succ]
    constructor
    · intro h
      cases h with
      | panics visits outside =>
        obtain ⟨writes, hws, _⟩ := hlevel _ visits
        rw [outside] at hws
        cases hws
      | up visits computed above =>
        obtain ⟨writes, hws, hup⟩ := hlevel _ visits
        rw [computed] at hws
        cases hws
        rw [hup] at above
        rw [habove.mp above]
        rfl
    · rintro rfl
      have hv : Visits nodes nodes.toList := ⟨nodes.nodup_toList, fun _ => Finset.mem_toList⟩
      obtain ⟨writes, hws, hup⟩ := hlevel _ hv
      have hwalk : WalksTo o (nodes.image (· / 2)) (setAll writes (levelUp (hash_pair o) row))
          (rows (hash_pair o) d (levelUp (hash_pair o) row)).tail
          (some (rows (hash_pair o) d (levelUp (hash_pair o) row'))) := by
        rw [hup]
        exact habove.mpr rfl
      exact .up hv hws hwalk

/-- A call on the tree over some leaves ends with the tree over the changed leaves, and in
no other way. -/
theorem updatesTo_treeOf_iff {leaves : List Bytes32} {updates : List (Nat × Bytes32)}
    (hne : leaves ≠ []) (hin : ∀ u ∈ updates, u.1 < leaves.length)
    {t' : Option CapacityProofMerkleTree} :
    UpdatesTo o updates (treeOf o leaves) t' ↔ t' = some (treeOf o (setAll updates leaves)) := by
  have hlevels : (treeOf o leaves).tree =
      leaves :: (rows (hash_pair o) (height leaves) leaves).tail := treeOf_tree o leaves
  have hwalk : ∀ {tree : Option (List (List Bytes32))},
      WalksTo o (updates.map Prod.fst).toFinset (setAll updates leaves)
        (rows (hash_pair o) (height leaves) leaves).tail tree ↔
      tree = some (rows (hash_pair o) (height leaves) (setAll updates leaves)) := by
    apply walksTo_rows_iff o (height leaves) (length_setAll updates leaves)
    · intro i hi
      obtain ⟨u, hu, rfl⟩ := List.mem_map.mp (List.mem_toFinset.mp hi)
      exact hin u hu
    · intro i hi
      exact setAll_get_of_untouched (fun hmem => hi (List.mem_toFinset.mpr hmem)) leaves
  constructor
  · intro h
    cases h with
    | unchanged nothing =>
      rw [nothing]
      rfl
    | panics something outside =>
      obtain ⟨u, hu, hle⟩ := outside
      exact absurd (hin u hu) (Nat.not_lt.mpr hle)
    | no_level something empty =>
      rw [hlevels] at empty
      cases empty
    | walked something inside levels walk =>
      rw [hlevels] at levels
      cases levels
      rw [hwalk.mp walk, Option.map_some]
      exact congrArg some (treeOf_setAll o updates hne _)
  · rintro rfl
    rw [← update_leaves_treeOf o updates hne hin]
    exact update_leaves_updatesTo o updates _

/-- The leaves after a sequence of updates: a later value of a leaf replaces an earlier
one. -/
def leavesAfter (batches : List (List (Nat × Bytes32))) (leaves : List Bytes32) :
    List Bytes32 :=
  batches.foldl (fun leaves updates => setAll updates leaves) leaves

/-- Updating in place is building again: whatever order the levels are visited in, calls
with indices in range leave every level and the root of the tree that `build` gives over
the changed leaves. No call panics. -/
theorem updates_equal_rebuild {leaves : List Bytes32} {batches : List (List (Nat × Bytes32))}
    (hne : leaves ≠ []) (hin : ∀ updates ∈ batches, ∀ u ∈ updates, u.1 < leaves.length) :
    ∃ t, build o (leavesAfter batches leaves) = some t ∧
      ∀ end_tree, CallsTo o batches (build o leaves) end_tree ↔ end_tree = some t := by
  induction batches generalizing leaves with
  | nil =>
    rw [leavesAfter, List.foldl_nil, build_eq, if_neg hne]
    refine ⟨_, rfl, fun end_tree => ?_⟩
    constructor
    · intro h
      cases h
      rfl
    · rintro rfl
      exact .done _
  | cons updates batches ih =>
    have hfirst := hin updates List.mem_cons_self
    have hne' := setAll_ne_nil updates hne
    obtain ⟨t, ht, hiff⟩ := ih hne' (fun us hus u hu => by
      rw [length_setAll]
      exact hin us (List.mem_cons_of_mem _ hus) u hu)
    rw [build_eq, if_neg hne'] at hiff
    rw [leavesAfter, List.foldl_cons, build_eq o leaves, if_neg hne]
    refine ⟨t, ht, fun end_tree => ?_⟩
    constructor
    · intro h
      cases h with
      | called first others =>
        rw [(updatesTo_treeOf_iff o hne hfirst).mp first] at others
        exact (hiff end_tree).mp others
    · intro h
      exact .called ((updatesTo_treeOf_iff o hne hfirst).mpr rfl) ((hiff end_tree).mpr h)

/-- Three leaves, an odd level, and a leaf written twice by one call. -/
theorem updates_equal_rebuild_on_three_leaves :
    ∃ t, build Outside.toy [1, 5, 6] = some t ∧ ∀ end_tree,
      CallsTo Outside.toy [[(1, 4), (1, 5)], [(2, 6)]] (build Outside.toy [1, 2, 3]) end_tree ↔
        end_tree = some t :=
  @updates_equal_rebuild Outside.toy [1, 2, 3] [[(1, 4), (1, 5)], [(2, 6)]] (by decide)
    (by decide)

end CapacityProofMerkleTree

end eld_chain
