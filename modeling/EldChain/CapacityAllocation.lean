-- Allocating the capacity file: the chunks get offsets in the file that do
-- not overlap, every slot is filled with what its state says, and the tree
-- is built over the same bytes. So allocation establishes the mirror.
import EldChain.CapacityMirror

open Std

namespace eld_chain

open fallible regions hash_tree CapacityProofMerkleTree

variable (o : Outside) {x : ChunkSource}
variable {s t : CapacityManager} {m : SlotMap} {file : Bytes}

/-! ## Offsets -/

theorem swap_perm (l : List Nat) (i k : Nat) : (swap l i k).Perm l := by
  unfold swap
  cases hi : l[i]? with
  | none => exact List.Perm.refl l
  | some a =>
    cases hk : l[k]? with
    | none => exact List.Perm.refl l
    | some b =>
      obtain ⟨hilt, rfl⟩ := List.getElem?_eq_some_iff.mp hi
      obtain ⟨hklt, rfl⟩ := List.getElem?_eq_some_iff.mp hk
      exact List.set_set_perm hilt hklt

/-- The shuffle permutes its indices, whatever the hash gives. -/
theorem shuffleSlots_perm (base : Bytes) (i : Nat) (l : List Nat) :
    (shuffleSlots o base i l).Perm l := by
  induction i generalizing l with
  | zero => exact List.Perm.refl l
  | succ i ih => exact (ih _).trans (swap_perm l _ _)

theorem chunkOffsets_fit (provider_id : Address) {capacity : Nat} (seed : Bytes32)
    (hpos : 0 < capacity) {c : Nat × Nat} (h : c ∈ chunkOffsets o provider_id capacity seed) :
    c.1 + c.2 ≤ capacity ∧ c.2 ≤ MAX_CHUNK_SIZE := by
  have hsize : MAX_CHUNK_SIZE = 1024 := rfl
  unfold chunkOffsets at h
  simp only at h
  rcases List.mem_append.mp h with h | h
  · obtain ⟨i, hi, rfl⟩ := List.mem_map.mp h
    have hlt := List.mem_range.mp ((shuffleSlots_perm o _ _ _).mem_iff.mp hi)
    rw [hsize] at hlt ⊢
    simp only
    omega
  · rw [List.mem_singleton] at h
    subst h
    simp only [hsize]
    by_cases hr : 0 < capacity % 1024
    · rw [if_pos hr]
      have := Nat.mod_le capacity 1024
      have := Nat.mod_lt capacity (show 0 < 1024 by omega)
      omega
    · rw [if_neg hr]
      omega

theorem length_chunkOffsets (provider_id : Address) {capacity : Nat} (seed : Bytes32)
    (hpos : 0 < capacity) : (chunkOffsets o provider_id capacity seed).length =
      (capacity + (MAX_CHUNK_SIZE - 1)) / MAX_CHUNK_SIZE := by
  have hsize : MAX_CHUNK_SIZE = 1024 := rfl
  unfold chunkOffsets
  simp only [List.length_append, List.length_map, (shuffleSlots_perm o _ _ _).length_eq,
    List.length_range, List.length_singleton, hsize]
  omega

theorem overlapWith_none_iff {i : Nat} {chunk : Nat × Nat} {rest : List ((Nat × Nat) × Nat)} :
    overlapWith i chunk rest = none ↔
      ∀ other ∈ rest, Apart chunk.1 chunk.2 other.1.1 other.1.2 := by
  induction rest with
  | nil => simp [overlapWith]
  | cons q rest ih =>
    unfold overlapWith
    rw [List.forall_mem_cons]
    by_cases hover : chunk.1 < q.1.1 + q.1.2 ∧ q.1.1 < chunk.1 + chunk.2
    · rw [if_pos hover]
      simp only [reduceCtorEq, false_iff, not_and]
      intro hapart
      unfold Apart at hapart
      omega
    · have hapart : Apart chunk.1 chunk.2 q.1.1 q.1.2 := by
        unfold Apart
        omega
      rw [if_neg hover, ih]
      simp only [hapart, true_and]

/-- The check finds no overlap exactly when the chunks are pairwise apart. -/
theorem firstOverlap_none_iff {chunks : List ((Nat × Nat) × Nat)} :
    firstOverlap chunks = none ↔
      chunks.Pairwise (fun a b => Apart a.1.1 a.1.2 b.1.1 b.1.2) := by
  induction chunks with
  | nil => simp [firstOverlap]
  | cons q chunks ih =>
    unfold firstOverlap
    rw [Option.or_eq_none_iff, overlapWith_none_iff, ih, List.pairwise_cons]

/-! ## Slots -/

/-- The slot map of a new capacity file. -/
def newSlotMap (provider_id : Address) (capacity_bytes : Nat) (seed : Bytes32) : SlotMap :=
  ⟨initialSlots o provider_id capacity_bytes seed, capacity_bytes, seed, provider_id⟩

theorem zipIdx_map_get {A B : Type} (l : List A) (f : A → Nat → B) (k : Nat) :
    (l.zipIdx.map (fun c => f c.1 c.2))[k]? = l[k]?.map (fun a => f a k) := by
  rw [List.getElem?_map, List.getElem?_zipIdx]
  cases l[k]? with
  | none => rfl
  | some a => simp

theorem initialSlots_get {provider_id : Address} {capacity : Nat} {seed : Bytes32}
    (hpos : 0 < capacity) (k : Nat) :
    (initialSlots o provider_id capacity seed)[k]? =
      (chunkOffsets o provider_id capacity seed)[k]?.map (fun c => ⟨c.1, c.2, initialState o
        (o.blake3 (create_deterministic_hasher "SLOT_STATE_MAP" seed provider_id)) k⟩) := by
  have htake : (chunkOffsets o provider_id capacity seed).zipIdx.take
      ((capacity + (MAX_CHUNK_SIZE - 1)) / MAX_CHUNK_SIZE) =
        (chunkOffsets o provider_id capacity seed).zipIdx := by
    apply List.take_of_length_le
    rw [List.length_zipIdx, length_chunkOffsets o provider_id seed hpos]
  unfold initialSlots
  simp only [htake]
  exact zipIdx_map_get _ (fun (c : Nat × Nat) k => (⟨c.1, c.2, initialState o
    (o.blake3 (create_deterministic_hasher "SLOT_STATE_MAP" seed provider_id)) k⟩ : Slot)) k

theorem length_initialSlots (provider_id : Address) {capacity : Nat} (seed : Bytes32)
    (hpos : 0 < capacity) : (initialSlots o provider_id capacity seed).length =
      (capacity + (MAX_CHUNK_SIZE - 1)) / MAX_CHUNK_SIZE := by
  unfold initialSlots
  rw [List.length_map, List.length_take, List.length_zipIdx,
    length_chunkOffsets o provider_id seed hpos, Nat.min_self]

/-- A new slot map that passed the overlap check lies well in a file of its capacity. -/
theorem newSlotMap_layout (provider_id : Address) {capacity : Nat} {seed : Bytes32}
    (hpos : 0 < capacity)
    (hover : firstOverlap (chunkOffsets o provider_id capacity seed).zipIdx = none)
    (hlen : file.length = capacity) : Layout (newSlotMap o provider_id capacity seed) file := by
  have hslot : ∀ {k : Nat} {slot : Slot},
      (newSlotMap o provider_id capacity seed).slots[k]? = some slot →
      (chunkOffsets o provider_id capacity seed)[k]? = some (slot.offset, slot.size) := by
    intro k slot hk
    have hk' := (initialSlots_get o hpos k).symm.trans hk
    obtain ⟨c, hc, rfl⟩ := Option.map_eq_some_iff.mp hk'
    exact hc
  constructor
  · intro k slot hk
    have := (chunkOffsets_fit o provider_id seed hpos (List.mem_of_getElem? (hslot hk))).1
    simp only at this
    omega
  · have hapart : ∀ {i k : Nat} {a b : Nat × Nat},
        (chunkOffsets o provider_id capacity seed)[i]? = some a →
        (chunkOffsets o provider_id capacity seed)[k]? = some b → i < k →
        Apart a.1 a.2 b.1 b.2 := by
      intro i k a b ha hb hlt
      have hpair : (chunkOffsets o provider_id capacity seed).Pairwise
          (fun a b => Apart a.1 a.2 b.1 b.2) := by
        rw [← List.zipIdx_map_fst 0 (chunkOffsets o provider_id capacity seed), List.pairwise_map]
        exact firstOverlap_none_iff.mp hover
      obtain ⟨hi, rfl⟩ := List.getElem?_eq_some_iff.mp ha
      obtain ⟨hk, rfl⟩ := List.getElem?_eq_some_iff.mp hb
      exact List.pairwise_iff_getElem.mp hpair i k hi hk hlt
    intro i k a b ha hb hne
    rcases Nat.lt_or_gt_of_ne hne with hlt | hgt
    · exact hapart (hslot ha) (hslot hb) hlt
    · exact (hapart (hslot hb) (hslot ha) hgt).symm
  · intro k slot hk
    exact (chunkOffsets_fit o provider_id seed hpos (List.mem_of_getElem? (hslot hk))).2

/-! ## Filling the slots -/

/-- What a slot is filled with. -/
def initialBytes (x : ChunkSource) (m : SlotMap) (k : Nat) (slot : Slot) : Bytes :=
  match slot.state with
  | .Open => zeros slot.size
  | _ => (generate_chunk_data x m.provider_id m.seed k).take slot.size

theorem length_generate_chunk_data (x : ChunkSource) (provider_id : Address) (seed : Bytes32)
    (k : Nat) : (generate_chunk_data x provider_id seed k).length = MAX_CHUNK_SIZE :=
  x.xof_length _ _

theorem length_initialBytes (hl : Layout m file) {k : Nat} {slot : Slot}
    (hk : m.slots[k]? = some slot) : (initialBytes x m k slot).length = slot.size := by
  have hsmall := hl.small k slot hk
  have hgen := length_generate_chunk_data x m.provider_id m.seed k
  unfold initialBytes
  cases slot.state with
  | Open => simp [zeros]
  | Proof => rw [List.length_take, hgen]; omega
  | Content id hash => rw [List.length_take, hgen]; omega

theorem fillSlot_ends (hfile : s.disk.capacity_file = some file) (hl : Layout m file) {k : Nat}
    {slot : Slot} (hk : m.slots[k]? = some slot) :
    Ends (fillSlot o x m.provider_id m.seed slot k) s
      (fun h t => (∀ id hash, slot.state ≠ .Content id hash) ∧
        h = hash_chunk o (initialBytes x m k slot) ∧
        ∃ file', Wrote s file' t ∧ Touched m [k] file file' ∧
          slotBytes m file' k = some (initialBytes x m k slot))
      (fun _ _ => True) := by
  have hlen := length_initialBytes (x := x) hl hk
  -- both kinds of slot are written with their bytes and hashed
  have hwrite : ∀ (what what' : String) (data : Bytes), data = initialBytes x m k slot →
      (∀ id hash, slot.state ≠ .Content id hash) →
      Ends (do
          osCall "allocate_capacity" what
          writeAll "allocate_capacity" what' slot.offset data
          pure (hash_chunk o data) : Prog Bytes32) s
        (fun h t => (∀ id hash, slot.state ≠ .Content id hash) ∧
          h = hash_chunk o (initialBytes x m k slot) ∧
          ∃ file', Wrote s file' t ∧ Touched m [k] file file' ∧
            slotBytes m file' k = some (initialBytes x m k slot))
        (fun _ _ => True) := by
    rintro what what' data rfl hstate
    rw [ends_bind]
    refine (osCall_ends _ _ s).mono ?_ (fun _ _ _ => trivial)
    intro _ t ht
    have hwrote := ht.wrote hfile
    rw [ends_bind]
    refine (writeAll_ends _ _ _ _ hwrote.capacity_file).mono ?_ (fun _ _ _ => trivial)
    intro _ u hu
    exact ⟨hstate, rfl, _, hwrote.trans hu, hl.touched_writeAt hk hlen.le,
      hl.slotBytes_writeAt hk hlen⟩
  unfold fillSlot
  cases hstate : slot.state with
  | Open =>
    rw [hstate] at hwrite
    exact hwrite _ _ _ (by unfold initialBytes; rw [hstate]) (by simp)
  | Proof =>
    rw [hstate] at hwrite
    exact hwrite _ _ _ (by unfold initialBytes; rw [hstate]) (by simp)
  | Content id hash => exact trivial

/-- Filling ends with every slot holding the bytes of its state, and with the leaves over
these bytes. -/
theorem fillSlots_ends (hfile : s.disk.capacity_file = some file) (hl : Layout m file)
    {slots : List Slot} {idx : Nat} (hslots : ∀ i : Nat, slots[i]? = m.slots[idx + i]?) :
    Ends (fillSlots o x m.provider_id m.seed slots idx) s
      (fun r t => ∃ file', Wrote s file' t ∧
        Touched m (List.range' idx slots.length) file file' ∧
        (∀ (i : Nat) (slot : Slot), slots[i]? = some slot →
          (∀ id hash, slot.state ≠ .Content id hash) ∧
          slotBytes m file' (idx + i) = some (initialBytes x m (idx + i) slot)) ∧
        r = (List.range' idx slots.length).map (leafOf o m file'))
      (fun _ _ => True) := by
  induction slots generalizing s file idx with
  | nil =>
    rw [fillSlots, ends_pure]
    exact ⟨file, (Used.refl s).wrote hfile, Touched.refl m _ file, by simp, rfl⟩
  | cons slot rest ih =>
    obtain ⟨hk, hrest⟩ := slots_from_cons hslots
    rw [fillSlots, ends_bind]
    refine (fillSlot_ends o hfile hl hk).mono ?_ (fun _ _ _ => trivial)
    rintro _ t ⟨hstate, rfl, file', ht, htouched, hbytes⟩
    rw [ends_bind]
    refine (ih ht.capacity_file (hl.of_length htouched.1) hrest).mono ?_ (fun _ _ _ => trivial)
    rintro _ u ⟨file'', hu, htouched', hholds, rfl⟩
    have hself : slotBytes m file'' idx = some (initialBytes x m idx slot) := by
      rw [htouched'.2 idx (by rw [List.mem_range'_1]; omega)]
      exact hbytes
    rw [ends_pure]
    refine ⟨file'', ht.trans hu, ?_, ?_, ?_⟩
    · refine (htouched.mono ?_).trans (htouched'.mono ?_)
      · simp [List.range'_succ]
      · simp [List.range'_succ]
    · intro i slot' hi
      cases i with
      | zero =>
        cases hi
        exact ⟨hstate, hself⟩
      | succ i =>
        rw [show idx + (i + 1) = idx + 1 + i by omega]
        exact hholds i slot' hi
    · rw [List.length_cons, List.range'_succ, List.map_cons, leafOf_eq o hself]

/-- A file that was just filled is what its slot map says. -/
theorem truthful_of_filled
    (h : ∀ (k : Nat) (slot : Slot), m.slots[k]? = some slot →
      (∀ id hash, slot.state ≠ .Content id hash) ∧
      slotBytes m file k = some (initialBytes x m k slot)) : Truthful x m file := by
  intro k slot hk
  have hbytes := (h k slot hk).2
  unfold initialBytes at hbytes
  refine ⟨fun ho => ?_, fun hp => ?_⟩
  · rw [ho] at hbytes
    exact hbytes
  · rw [hp] at hbytes
    exact hbytes

/-! ## The whole allocation -/

theorem buildTree_ok {leaves : List Bytes32} {tree : CapacityProofMerkleTree}
    (h : buildTree o leaves s = .ok tree t) : leaves ≠ [] ∧ treeOf o leaves = tree ∧ s = t := by
  unfold buildTree at h
  rw [build_eq] at h
  by_cases hnil : leaves = []
  · rw [if_pos hnil] at h
    cases h
  · rw [if_neg hnil] at h
    cases h
    exact ⟨hnil, rfl, rfl⟩

theorem buildTree_eq {leaves : List Bytes32} (h : leaves ≠ []) :
    buildTree o leaves = pure (treeOf o leaves) := by
  unfold buildTree
  rw [build_eq, if_neg h]

theorem set_slot_map_of_wrote (m : SlotMap) (h : Wrote s file t) :
    ∃ as, set_slot_map m t = .ok () (s.moved m s.slot_allocator.content_slot_map file
      s.disk.slots_file s.disk.content_slot_map_file as) := by
  obtain ⟨as, _, rfl⟩ := h
  exact ⟨as, rfl⟩

theorem Wrote.set (h : Wrote s file t) (file' : Bytes) : Wrote s file' (t.setCapacityFile file') := by
  obtain ⟨as, has, rfl⟩ := h
  exact ⟨as, has, rfl⟩

theorem Used.set (h : Used s t) (file' : Bytes) : Wrote s file' (t.setCapacityFile file') := by
  obtain ⟨as, has, rfl⟩ := h
  exact ⟨as, has, rfl⟩

/-- An allocation that succeeds leaves the mirror, with its slot map on disk. It never
succeeds with no capacity. -/
theorem allocate_capacity_internal_mirror {capacity : Nat} {seed root : Bytes32}
    (h : allocate_capacity_internal o x capacity seed s = .ok root t) :
    ∃ m file, Mirror o x t m file ∧ t.disk.slots_file = some (.whole m) ∧
      m = newSlotMap o s.provider_id capacity seed ∧
      t.slot_allocator.content_slot_map = s.slot_allocator.content_slot_map ∧
      t.disk.content_slot_map_file = s.disk.content_slot_map_file ∧
      t.initialized = s.initialized ∧ t.provider_id = s.provider_id := by
  unfold allocate_capacity_internal at h
  obtain ⟨_, _, hget, h⟩ := bind_ok h
  cases hget
  obtain ⟨_, _, hget, h⟩ := bind_ok h
  cases hget
  obtain ⟨_, s1, hcall, h⟩ := bind_ok h
  have h1 := (osCall_ends _ _ s).of_ok hcall
  obtain ⟨_, s2, hcall, h⟩ := bind_ok h
  have h2 := (h1.trans ((osCall_ends _ _ s1).of_ok hcall)).set []
  obtain ⟨_, s3, hset, h⟩ := bind_ok h
  cases hset
  obtain ⟨_, s4, hcall, h⟩ := bind_ok h
  have h4 := h2.trans (((osCall_ends _ _ _).of_ok hcall).wrote h2.capacity_file)
  obtain ⟨_, s5, hset, h⟩ := bind_ok h
  cases hset
  have h5 := h4.set (zeros capacity)
  cases hover : firstOverlap (chunkOffsets o s.provider_id capacity seed).zipIdx with
  | some details => rw [hover] at h; cases h
  | none =>
    rw [hover] at h
    simp only at h
    obtain ⟨hashes, s6, hfill, h⟩ := bind_ok h
    obtain ⟨_, s7, hcall, h⟩ := bind_ok h
    obtain ⟨_, s8, hset, h⟩ := bind_ok h
    obtain ⟨_, s9, hsave, h⟩ := bind_ok h
    obtain ⟨tree, s10, hbuild, h⟩ := bind_ok h
    obtain ⟨_, s11, hput, h⟩ := bind_ok h
    cases hput
    cases h
    obtain ⟨hne, rfl, rfl⟩ := buildTree_ok o hbuild
    have hpos : 0 < capacity := by
      apply Nat.pos_of_ne_zero
      rintro rfl
      cases hfill
      exact hne rfl
    have hlayout := newSlotMap_layout o s.provider_id hpos hover
      (show (zeros capacity).length = capacity by simp [zeros])
    have hslots : ∀ i : Nat, (newSlotMap o s.provider_id capacity seed).slots[i]? =
        (newSlotMap o s.provider_id capacity seed).slots[0 + i]? := by
      intro i
      rw [Nat.zero_add]
    obtain ⟨file, hwrote, htouched, hholds, rfl⟩ :=
      (fillSlots_ends (x := x) o (m := newSlotMap o s.provider_id capacity seed)
        h5.capacity_file hlayout hslots).of_ok hfill
    have h6 := h5.trans hwrote
    have h7 := h6.trans (((osCall_ends _ _ _).of_ok hcall).wrote h6.capacity_file)
    obtain ⟨as, hset'⟩ := set_slot_map_of_wrote (newSlotMap o s.provider_id capacity seed) h7
    have hs8 : s8 = _ := (EStateM.Result.ok.inj (hset.symm.trans hset')).2
    subst hs8
    obtain ⟨as9, _, rfl⟩ := save_slot_map_ends.of_ok hsave
    refine ⟨newSlotMap o s.provider_id capacity seed, file, ⟨⟨rfl, rfl, ?_, ?_, ?_⟩, ?_⟩, rfl, rfl,
      rfl, rfl, rfl, rfl⟩
    · intro hnil
      have hlen := length_initialSlots o s.provider_id seed hpos
      rw [show initialSlots o s.provider_id capacity seed = [] from hnil] at hlen
      have hsize : MAX_CHUNK_SIZE = 1024 := rfl
      rw [hsize] at hlen
      simp only [List.length_nil] at hlen
      omega
    · exact hlayout.of_length htouched.1
    · apply truthful_of_filled
      intro k slot hk
      have := hholds k slot hk
      rw [Nat.zero_add] at this
      exact this
    · rw [← List.range_eq_range']
      rfl

end eld_chain
