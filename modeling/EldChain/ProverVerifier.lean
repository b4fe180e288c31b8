-- Prover and verifier agree: whatever calls succeeded since the capacity was
-- allocated, and however often the node was restarted, the proof that the
-- manager generates for its current root is accepted by the verifier.
import EldChain.CapacityAllocation
import EldChain.Library.Runs
import EldChain.ProofVerdicts

open Std

namespace eld_chain

open fallible regions hash_tree CapacityProofMerkleTree

variable (o : Outside) {x : ChunkSource} {j : JsonErrors}
variable {s t : CapacityManager} {m : SlotMap} {file : Bytes}

/-! ## Building the tree over a loaded slot map -/

theorem hash_content_slot_ends (hfile : s.disk.capacity_file = some file) (slot : Slot) :
    Ends (hash_content_slot o slot) s
      (fun h t => Used s t ∧ ∃ data, readAt file slot.offset slot.size = some data ∧
        h = hash_chunk o data)
      (fun _ t => Used s t ∧ (Quiet s.answers → readAt file slot.offset slot.size = none)) := by
  unfold hash_content_slot storageRead
  rw [ends_bind, ends_bind]
  refine (osCall_ends _ _ s).mono ?_ (fun _ _ h => ⟨h.1, fun hq => absurd hq h.2⟩)
  intro _ t ht
  refine (readExact_ends _ _ _ _ (ht.disk ▸ hfile)).mono ?_ ?_
  · rintro data u ⟨hu, hread⟩
    exact ⟨ht.trans hu, data, hread, rfl⟩
  · rintro _ u ⟨hu, hnone⟩
    exact ⟨ht.trans hu, fun hq => hnone (ht.quiet hq)⟩

/-- The leaf that a build gives slot `k`: only a content slot is read. -/
def builtLeaf (x : ChunkSource) (m : SlotMap) (file : Bytes) (k : Nat) : Bytes32 :=
  match m.slots[k]? with
  | none => leafOf o m file k
  | some slot =>
    match slot.state with
    | .Open => hash_chunk o (zeros slot.size)
    | .Proof => hash_chunk o ((generate_chunk_data x m.provider_id m.seed k).take slot.size)
    | .Content _ _ => leafOf o m file k

def builtLeaves (x : ChunkSource) (m : SlotMap) (file : Bytes) : List Bytes32 :=
  (List.range m.slots.length).map (builtLeaf o x m file)

@[simp] theorem length_builtLeaves (m : SlotMap) (file : Bytes) :
    (builtLeaves o x m file).length = m.slots.length := by
  unfold builtLeaves
  rw [List.length_map, List.length_range]

theorem builtLeaves_ne_nil (h : m.slots ≠ []) : builtLeaves o x m file ≠ [] := by
  intro hnil
  have := congrArg List.length hnil
  rw [length_builtLeaves] at this
  exact h (List.length_eq_zero_iff.mp this)

/-- Where the states tell the truth, the leaves are the hashes of the bytes. -/
theorem builtLeaves_of_truthful (h : Truthful x m file) :
    builtLeaves o x m file = leavesOf o m file := by
  unfold builtLeaves leavesOf
  refine List.map_congr_left (fun k _ => ?_)
  unfold builtLeaf
  cases hk : m.slots[k]? with
  | none => rfl
  | some slot =>
    obtain ⟨hopen, hproof⟩ := h k slot hk
    simp only
    cases hstate : slot.state with
    | Open => exact (leafOf_eq o (hopen hstate)).symm
    | Proof => exact (leafOf_eq o (hproof hstate)).symm
    | Content id hash => rfl

theorem leafHash_ends (hfile : s.disk.capacity_file = some file) (hl : Layout m file) {k : Nat}
    {slot : Slot} (hk : m.slots[k]? = some slot) :
    Ends (leafHash o x m slot k) s (fun h t => Used s t ∧ h = builtLeaf o x m file k)
      (fun _ t => Used s t ∧ ¬ Quiet s.answers) := by
  have hbytes : slotBytes m file k = readAt file slot.offset slot.size := by
    unfold slotBytes
    rw [hk]
  unfold leafHash builtLeaf
  rw [hk]
  simp only
  cases hstate : slot.state with
  | Open =>
    rw [ends_pure]
    exact ⟨Used.refl s, rfl⟩
  | Proof =>
    have hsize : ¬ (generate_chunk_data x m.provider_id m.seed k).length < slot.size := by
      rw [length_generate_chunk_data]
      exact Nat.not_lt.mpr (hl.small k slot hk)
    simp only [if_neg hsize]
    rw [ends_pure]
    exact ⟨Used.refl s, rfl⟩
  | Content id hash =>
    refine (hash_content_slot_ends o hfile slot).mono ?_ ?_
    · rintro h t ⟨hused, data, hdata, rfl⟩
      rw [leafOf_eq o (hbytes.trans hdata)]
      exact ⟨hused, rfl⟩
    · rintro _ t ⟨hused, hnone⟩
      refine ⟨hused, fun hq => ?_⟩
      have := hl.slotBytes hk
      rw [hbytes, hnone hq] at this
      cases this

theorem leafHashes_ends (hfile : s.disk.capacity_file = some file) (hl : Layout m file)
    {slots : List Slot} {idx : Nat} (hslots : ∀ i : Nat, slots[i]? = m.slots[idx + i]?) :
    Ends (leafHashes o x m slots idx) s
      (fun r t => Used s t ∧ r = (List.range' idx slots.length).map (builtLeaf o x m file))
      (fun _ t => Used s t ∧ ¬ Quiet s.answers) := by
  induction slots generalizing s idx with
  | nil =>
    rw [leafHashes, ends_pure]
    exact ⟨Used.refl s, rfl⟩
  | cons slot rest ih =>
    obtain ⟨hk, hrest⟩ := slots_from_cons hslots
    rw [leafHashes, ends_bind]
    refine (leafHash_ends o hfile hl hk).mono ?_ (fun _ _ h => h)
    rintro _ t ⟨hused, rfl⟩
    rw [ends_bind]
    refine (ih (hused.disk ▸ hfile) hrest).mono ?_ ?_
    · rintro _ u ⟨hused', rfl⟩
      rw [ends_pure, List.length_cons, List.range'_succ, List.map_cons]
      exact ⟨hused.trans hused', rfl⟩
    · rintro _ u ⟨hused', hquiet⟩
      exact ⟨hused.trans hused', fun hq => hquiet (hused.quiet hq)⟩

/-- `build_merkle_tree` gives the tree over the built leaves. It fails only when a call to
the operating system does. -/
theorem build_merkle_tree_built (hfile : s.disk.capacity_file = some file) (hl : Layout m file)
    (hne : m.slots ≠ []) :
    Ends (build_merkle_tree o x m) s
      (fun tree t => Used s t ∧ tree = treeOf o (builtLeaves o x m file))
      (fun _ t => Used s t ∧ ¬ Quiet s.answers) := by
  have hopen : Ends (open_capacity_file_for_merkle_build m) s (fun _ t => Used s t)
      (fun _ t => Used s t ∧ ¬ Quiet s.answers) := by
    unfold open_capacity_file_for_merkle_build
    by_cases hany : (m.slots.any fun slot => isContent slot.state) = true
    · rw [if_pos hany, ends_bind, ends_get]
      exact openCapacityFile_ends _ _ hfile
    · rw [if_neg hany, ends_pure]
      exact Used.refl s
  unfold build_merkle_tree
  rw [ends_bind]
  refine hopen.mono ?_ (fun _ _ h => h)
  intro _ t hused
  rw [ends_bind]
  refine (leafHashes_ends o (hused.disk ▸ hfile) hl (fun i => by rw [Nat.zero_add])).mono ?_ ?_
  · rintro _ u ⟨hused', rfl⟩
    have hleaves : (List.range' 0 m.slots.length).map (builtLeaf o x m file) =
        builtLeaves o x m file := by
      rw [← List.range_eq_range']
      rfl
    rw [hleaves, buildTree_eq o (builtLeaves_ne_nil o hne), ends_pure]
    exact ⟨hused.trans hused', rfl⟩
  · rintro _ u ⟨hused', hquiet⟩
    exact ⟨hused.trans hused', fun hq => hquiet (hused.quiet hq)⟩

/-- Where the states tell the truth, the build gives the tree over the bytes of the slots. -/
theorem build_merkle_tree_ends (hfile : s.disk.capacity_file = some file) (hl : Layout m file)
    (ht : Truthful x m file) (hne : m.slots ≠ []) :
    Ends (build_merkle_tree o x m) s
      (fun tree t => Used s t ∧ tree = treeOf o (leavesOf o m file))
      (fun _ t => Used s t ∧ ¬ Quiet s.answers) := by
  rw [← builtLeaves_of_truthful o ht]
  exact build_merkle_tree_built o hfile hl hne

/-! ## Loading -/

/-- Loading gives the slot map on disk, with the content map on disk or the old one. -/
theorem load_slot_map_ends (hfile : s.disk.capacity_file = some file)
    (hsaved : s.disk.slots_file = some (.whole m)) :
    Ends (load_slot_map j) s
      (fun _ t => ∃ c as, as <:+ s.answers ∧
        (c = s.slot_allocator.content_slot_map ∨
          s.disk.content_slot_map_file = some (.whole c)) ∧
        t = s.moved m c file s.disk.slots_file s.disk.content_slot_map_file as)
      (fun _ t => Used s t ∧ ¬ Quiet s.answers) := by
  unfold load_slot_map
  rw [ends_bind, ends_get, hsaved]
  simp only
  rw [ends_bind]
  refine (osCall_ends _ _ s).mono ?_ (fun _ _ h => h)
  rintro _ t hused
  obtain ⟨as, has, hset⟩ : ∃ as, as <:+ s.answers ∧ set_slot_map m t = .ok () (s.moved m
      s.slot_allocator.content_slot_map file s.disk.slots_file s.disk.content_slot_map_file as) := by
    obtain ⟨as, has, rfl⟩ := hused
    refine ⟨as, has, ?_⟩
    unfold CapacityManager.moved
    rw [← hfile]
    rfl
  rw [ends_bind]
  refine ends_of_ok hset ?_
  rw [ends_ignoring, hsaved]
  apply Ends.after (P := fun u => ∃ c bs, bs <:+ s.answers ∧
    (c = s.slot_allocator.content_slot_map ∨ s.disk.content_slot_map_file = some (.whole c)) ∧
    u = s.moved m c file (some (.whole m)) s.disk.content_slot_map_file bs)
  -- an error of the second file leaves the content map as it was
  have hkept : ∀ bs, bs <:+ as → ∃ c cs, cs <:+ s.answers ∧
      (c = s.slot_allocator.content_slot_map ∨ s.disk.content_slot_map_file = some (.whole c)) ∧
      s.moved m s.slot_allocator.content_slot_map file (some (.whole m))
        s.disk.content_slot_map_file bs =
        s.moved m c file (some (.whole m)) s.disk.content_slot_map_file cs :=
    fun bs hbs => ⟨_, bs, List.IsSuffix.trans hbs has, Or.inl rfl, rfl⟩
  unfold load_content_slot_map
  rw [ends_bind, ends_get]
  cases hcontent : s.disk.content_slot_map_file with
  | none =>
    rw [hcontent] at hkept
    exact hkept as List.suffix_rfl
  | some json =>
    rw [hcontent] at hkept
    simp only [CapacityManager.moved]
    rw [ends_bind]
    refine (osCall_ends _ _ _).mono ?_ ?_
    · rintro _ u ⟨bs, hbs, rfl⟩
      cases json with
      | cut value n => exact hkept bs hbs
      | whole value => exact ⟨value, bs, List.IsSuffix.trans hbs has, Or.inr rfl, rfl⟩
    · rintro _ u ⟨⟨bs, hbs, rfl⟩, _⟩
      exact hkept bs hbs

/-- Starting over the disk of a settled manager builds the same tree again. It fails only
when a call to the operating system does. -/
theorem initialize_manager_ends (hm : Mirror o x s m file)
    (hsaved : s.disk.slots_file = some (.whole m)) (answers : List Answer) :
    Ends (initialize_manager o x j) (s.reopened answers)
      (fun _ t => Mirror o x t m file ∧ t.initialized = true ∧ t.disk = s.disk ∧
        t.provider_id = s.provider_id)
      (fun _ _ => ¬ Quiet answers) := by
  have hload := load_slot_map_ends (j := j) (s := s.reopened answers) (m := m) hm.capacity_file
    hsaved
  have hbuild : Ends (loadAndBuild o x j) (s.reopened answers)
      (fun _ t => Mirror o x t m file ∧ t.disk = s.disk ∧ t.provider_id = s.provider_id)
      (fun _ _ => ¬ Quiet answers) := by
    unfold loadAndBuild
    rw [ends_bind]
    refine hload.mono ?_ (fun _ _ h => h.2)
    rintro _ t ⟨c, as, has, _, rfl⟩
    rw [ends_bind, ends_get]
    simp only [CapacityManager.moved]
    rw [ends_bind]
    refine (build_merkle_tree_ends o (congrArg some rfl) hm.layout hm.truthful
      hm.nonempty).mono ?_ ?_
    · rintro tree u ⟨⟨bs, hbs, rfl⟩, rfl⟩
      refine ⟨⟨⟨rfl, rfl, hm.nonempty, hm.layout, hm.truthful⟩, rfl⟩, ?_, rfl⟩
      change (⟨some file, s.disk.slots_file, s.disk.content_slot_map_file⟩ : Disk) = s.disk
      rw [← hm.capacity_file]
    · rintro _ u ⟨_, hquiet⟩
      exact fun hq => hquiet (hq.suffix has)
  unfold initialize_manager
  rw [ends_bind, ends_get]
  have hfresh : ¬ (s.reopened answers).initialized = true := by
    unfold CapacityManager.reopened
    simp
  have hsome : (s.reopened answers).disk.slots_file.isSome = true := by
    unfold CapacityManager.reopened
    simp only [hsaved, Option.isSome_some]
  rw [if_neg hfresh, if_pos hsome, ends_bind]
  refine hbuild.mono ?_ (fun _ _ h => h)
  rintro _ t ⟨hmirror, hdisk, hprov⟩
  rw [ends_modify]
  exact ⟨⟨⟨hmirror.slot_map, hmirror.capacity_file, hmirror.nonempty, hmirror.layout,
    hmirror.truthful⟩, hmirror.tree⟩, rfl, hdisk, hprov⟩

/-! ## Proving chunks -/

theorem all_zero_zeros (n : Nat) : (zeros n).all (· == 0) = true := by
  unfold zeros
  rw [List.all_eq_true]
  intro b hb
  rw [List.eq_of_mem_replicate hb]
  rfl

/-- The proof of a chunk under the mirror is sound for the current root. -/
theorem proveChunk_ends (hm : Mirror o x s m file) (hfile : t.disk = s.disk) (i : UInt64) :
    Ends (proveChunk o (treeOf o (leavesOf o m file)) m i) t
      (fun proof u => Used t u ∧ Proven o (rootOf o (leavesOf o m file)) proof i.toNat)
      (fun _ u => Used t u ∧ (Quiet t.answers → m.slots.length ≤ i.toNat)) := by
  unfold proveChunk
  cases hslot : m.slots[i.toNat]? with
  | none =>
    refine ⟨Used.refl t, fun _ => ?_⟩
    exact List.getElem?_eq_none_iff.mp hslot
  | some slot =>
    have hlt := (List.getElem?_eq_some_iff.mp hslot).1
    have hread := hm.layout.slotBytes hslot
    have hbytes : slotBytes m file i.toNat = readAt file slot.offset slot.size := by
      unfold slotBytes
      rw [hslot]
    simp only
    rw [ends_bind]
    refine (osCall_ends _ _ t).mono ?_ (fun _ _ h => ⟨h.1, fun hq => absurd hq h.2⟩)
    intro _ u hu
    rw [ends_bind]
    have hufile : u.disk.capacity_file = some file := by
      rw [hu.disk, hfile, hm.capacity_file]
    refine (readExact_ends _ _ _ _ hufile).mono ?_ ?_
    · rintro data v ⟨hv, hdata⟩
      have hleaf := leafOf_eq o (hbytes.trans hdata)
      have hget : (leavesOf o m file)[i.toNat]? = some (leafOf o m file i.toNat) :=
        leavesOf_get o hlt
      obtain ⟨p, hp, _, hverify⟩ := generate_proof_treeOf o hget
      rw [hleaf] at hverify
      rw [hp]
      refine ⟨hu.trans hv, rfl, rfl, hverify, fun hopen => ?_⟩
      have hzero := (hm.truthful _ _ hslot).1 hopen
      rw [hbytes, hdata] at hzero
      cases hzero
      exact all_zero_zeros slot.size
    · rintro _ v ⟨hv, hnone⟩
      refine ⟨hu.trans hv, fun hq => ?_⟩
      rw [hbytes, hnone (hu.quiet hq)] at hread
      cases hread

theorem proveChunks_ends (hm : Mirror o x s m file) (hfile : t.disk = s.disk)
    (indices : List UInt64) :
    Ends (proveChunks o (treeOf o (leavesOf o m file)) m indices) t
      (fun proofs u => Used t u ∧ List.Forall₂
        (fun proof index => Proven o (rootOf o (leavesOf o m file)) proof index)
        proofs (indices.map UInt64.toNat))
      (fun _ u => Used t u ∧ (Quiet t.answers → ∃ i ∈ indices, m.slots.length ≤ i.toNat)) := by
  induction indices generalizing t with
  | nil =>
    rw [proveChunks, ends_pure]
    exact ⟨Used.refl t, List.Forall₂.nil⟩
  | cons i indices ih =>
    rw [proveChunks, ends_bind]
    refine (proveChunk_ends o hm hfile i).mono ?_ ?_
    · rintro proof u ⟨hu, hproven⟩
      rw [ends_bind]
      refine (ih (hu.disk.trans hfile)).mono ?_ ?_
      · rintro proofs v ⟨hv, hall⟩
        exact ⟨hu.trans hv, List.Forall₂.cons hproven hall⟩
      · rintro _ v ⟨hv, hout⟩
        refine ⟨hu.trans hv, fun hq => ?_⟩
        obtain ⟨k, hk, hle⟩ := hout (hu.quiet hq)
        exact ⟨k, List.mem_cons_of_mem _ hk, hle⟩
    · rintro _ u ⟨hu, hout⟩
      exact ⟨hu, fun hq => ⟨i, List.mem_cons_self, hout hq⟩⟩

/-- What stops an honest provider from answering: nothing but its own checks, an index out
of range and the operating system. -/
theorem generate_capacity_proof_ends (hm : Mirror o x s m file)
    (params : CapacityProofGenerationParams) (generated_at : UInt64) :
    Ends (generate_capacity_proof o params generated_at) s
      (fun proof _ => proof.challenge_id = ChallengeId.to_hex params.challenge_id ∧
        proof.provider_id = params.provider_id ∧ proof.challenger = params.challenger ∧
        proof.block_height = params.block_height ∧ proof.generated_at = generated_at ∧
        params.provider_id = s.provider_id ∧
        params.expected_merkle_root = rootOf o (leavesOf o m file) ∧
        List.Forall₂ (fun proof index => Proven o (rootOf o (leavesOf o m file)) proof index)
          proof.proofs (params.chunk_indices.map UInt64.toNat))
      (fun _ _ => params.provider_id = s.provider_id → s.initialized = true →
        params.expected_merkle_root = rootOf o (leavesOf o m file) → Quiet s.answers →
        ∃ i ∈ params.chunk_indices, m.slots.length ≤ i.toNat) := by
  unfold generate_capacity_proof
  rw [ends_bind, ends_get]
  by_cases hprov : params.provider_id = s.provider_id
  · rw [if_neg (not_not.mpr hprov), ends_bind, ends_get]
    by_cases hinit : s.initialized = true
    · rw [if_neg (by simp [hinit]), ends_bind, ends_get, hm.tree]
      simp only
      by_cases hroot : (treeOf o (leavesOf o m file)).root = params.expected_merkle_root
      · rw [if_neg (not_not.mpr hroot), ends_bind, ends_get, hm.slot_map]
        simp only
        rw [ends_bind]
        refine (openCapacityFile_ends _ _ hm.capacity_file).mono ?_
          (fun _ _ h _ _ _ hq => absurd hq h.2)
        intro _ t ht
        rw [ends_bind]
        refine (proveChunks_ends o hm ht.disk params.chunk_indices).mono ?_ ?_
        · rintro proofs u ⟨_, hall⟩
          exact ⟨rfl, rfl, rfl, rfl, rfl, hprov, hroot.symm, hall⟩
        · rintro _ u ⟨_, hout⟩ _ _ _ hq
          exact hout (ht.quiet hq)
      · rw [if_pos hroot]
        exact fun _ _ h _ => absurd h.symm hroot
    · rw [if_pos (by simpa using hinit)]
      exact fun _ h _ _ => absurd h hinit
  · rw [if_pos hprov]
    exact fun h _ _ _ => absurd h hprov

/-! ## Runs of calls and restarts -/

/-- One thing that happens to a manager, with the answers it gets on the way. -/
inductive CapacityEvent
  | call (c : SlotCall) (answers : List Answer)
  | restart (answers : List Answer)

/-- The state after an event that succeeds. -/
def CapacityEvent.succeed (x : ChunkSource) (j : JsonErrors) (s : CapacityManager) :
    CapacityEvent → Option CapacityManager
  | .call c answers => succeeding (c.run o) (s.answered answers)
  | .restart answers => succeeding (initialize_manager o x j) (s.reopened answers)

theorem Mirror.answered (h : Mirror o x s m file) (answers : List Answer) :
    Mirror o x (s.answered answers) m file :=
  ⟨⟨h.slot_map, h.capacity_file, h.nonempty, h.layout, h.truthful⟩, h.tree⟩

/-- Every event that succeeds leaves the manager settled. -/
theorem Saved.step (h : Saved o x s) {e : CapacityEvent}
    (hstep : e.succeed o x j s = some t) : Saved o x t := by
  obtain ⟨m, file, hm, hsaved⟩ := h
  cases e with
  | call c answers =>
    obtain ⟨_, hcall⟩ := succeeding_eq_some hstep
    exact (hm.answered o answers).call o hcall
  | restart answers =>
    obtain ⟨_, hinit⟩ := succeeding_eq_some hstep
    obtain ⟨hmirror, _, hdisk, _⟩ := (initialize_manager_ends o hm hsaved answers).of_ok hinit
    exact ⟨m, file, hmirror, by rw [hdisk]; exact hsaved⟩

/-- From an allocation on, every run of calls and restarts that succeed is settled. -/
theorem settled_of_run {s₀ s₁ : CapacityManager} {capacity : Nat} {seed root : Bytes32}
    (halloc : allocate_capacity_internal o x capacity seed s₀ = .ok root s₁)
    {events : List CapacityEvent} (hrun : runs.run (CapacityEvent.succeed o x j) events s₁ = some s) :
    Saved o x s := by
  obtain ⟨m, file, hm, hsaved, _⟩ := allocate_capacity_internal_mirror o halloc
  exact runs.run_invariant _ (Saved o x) (fun s e t h hs => h.step o hs) ⟨m, file, hm, hsaved⟩ hrun

/-- The proof that the manager generates for its current root and any challenged indices is
accepted, and with no fault of the operating system it does generate one. -/
theorem capacity_proof_accepted {s₀ s₁ : CapacityManager} {capacity : Nat} {seed root : Bytes32}
    (halloc : allocate_capacity_internal o x capacity seed s₀ = .ok root s₁)
    {events : List CapacityEvent}
    (hrun : runs.run (CapacityEvent.succeed o x j) events s₁ = some s) :
    ∃ tree, s.merkle_tree = some tree ∧
      (∀ params generated_at proof u,
        generate_capacity_proof o params generated_at s = .ok proof u →
        params.expected_merkle_root = tree.root ∧
        validate_challenge_proof o proof.proofs tree.root
          (params.chunk_indices.map UInt64.toNat) = []) ∧
      (∀ params generated_at, params.provider_id = s.provider_id → s.initialized = true →
        params.expected_merkle_root = tree.root →
        (∀ i ∈ params.chunk_indices, i.toNat < tree.leaves.length) → Quiet s.answers →
        ∃ proof u, generate_capacity_proof o params generated_at s = .ok proof u) := by
  obtain ⟨m, file, hm, _⟩ := settled_of_run o halloc hrun
  refine ⟨treeOf o (leavesOf o m file), hm.tree, ?_, ?_⟩
  · intro params generated_at proof u hgen
    obtain ⟨_, _, _, _, _, _, hroot, hall⟩ :=
      (generate_capacity_proof_ends o hm params generated_at).of_ok hgen
    exact ⟨hroot, (validate_challenge_proof_iff o).mpr hall⟩
  · intro params generated_at hprov hinit hroot hin hquiet
    cases hgen : generate_capacity_proof o params generated_at s with
    | ok proof u => exact ⟨proof, u, rfl⟩
    | error e u =>
      obtain ⟨i, hi, hle⟩ :=
        (generate_capacity_proof_ends o hm params generated_at).of_error hgen hprov hinit hroot hquiet
      have := hin i hi
      rw [show (treeOf o (leavesOf o m file)).leaves = leavesOf o m file from rfl,
        length_leavesOf] at this
      omega

/-- A challenge for both slots of a capacity of 2048 bytes. -/
def bothSlots (root : Bytes32) : CapacityProofGenerationParams :=
  ⟨5, 9, 7, [0, 1], I64.zero, root⟩

/-- With a content stored and the node restarted, the proof for both slots is accepted. -/
theorem capacity_proof_accepted_after_restart :
    ∃ root s₁ s tree proof u,
      allocate_capacity_internal .openSlots .sevens 2048 3 .fresh = .ok root s₁ ∧
      runs.run (CapacityEvent.succeed .openSlots .sevens .eof)
        [.call (.store ['a'] [[1, 2, 3]]) [], .restart []] s₁ = some s ∧
      s.merkle_tree = some tree ∧
      generate_capacity_proof .openSlots (bothSlots tree.root) 1700000000 s = .ok proof u ∧
      validate_challenge_proof .openSlots proof.proofs tree.root [0, 1] = [] := by
  have hrun : ((resultOf (allocate_capacity_internal .openSlots .sevens 2048 3) .fresh).bind
      (fun a => runs.run (CapacityEvent.succeed .openSlots .sevens .eof)
        [.call (.store ['a'] [[1, 2, 3]]) [], .restart []] a.2)).any
      (fun s => s.provider_id == 7 && s.initialized && s.answers.isEmpty &&
        s.merkle_tree.any (fun tree => tree.leaves.length == 2)) = true := by decide +kernel
  obtain ⟨s, hs, hcheck⟩ := (Option.any_eq_true _ _).mp hrun
  obtain ⟨a, ha, hs⟩ := Option.bind_eq_some_iff.mp hs
  simp only [Bool.and_eq_true, beq_iff_eq, List.isEmpty_iff] at hcheck
  obtain ⟨⟨⟨hprov, hinit⟩, hanswers⟩, hleaves⟩ := hcheck
  have halloc := eq_ok_of_resultOf ha
  obtain ⟨tree, htree, haccept, hproduce⟩ := capacity_proof_accepted .openSlots halloc hs
  have hlen : tree.leaves.length = 2 := by
    rw [htree] at hleaves
    exact eq_of_beq hleaves
  obtain ⟨proof, u, hproof⟩ := hproduce (bothSlots tree.root) 1700000000 hprov.symm hinit rfl
    (by
      intro i hi
      rw [hlen]
      rcases List.mem_cons.mp hi with rfl | hi
      · decide
      · rw [List.mem_singleton.mp hi]
        decide)
    (by rw [hanswers]; intro a ha; cases ha)
  exact ⟨a.1, a.2, s, tree, proof, u, halloc, hs, htree, hproof,
    (haccept (bothSlots tree.root) 1700000000 proof u hproof).2⟩

end eld_chain
