-- Who owns a slot: every slot that the content map lists for a content is
-- marked for that content in the slot map. Stores and deletes keep this
-- whether they succeed or fail. A restart reads the two maps from two
-- files, and keeps it when the files are in step.
import EldChain.ProverVerifier

open Std

namespace eld_chain

open fallible regions finite_map

variable (o : Outside) {x : ChunkSource} {j : JsonErrors}
variable {s t : CapacityManager} {m : SlotMap} {file : Bytes} {cm : ContentSlotMap}

/-! ## Owned slots -/

/-- Every slot of a content is marked for that content. -/
def Owned (m : SlotMap) (cm : ContentSlotMap) : Prop :=
  ∀ (id : Text) (sizes : List (Nat × Nat)), cm[id]? = some sizes → ∀ p ∈ sizes,
    ∃ (slot : Slot) (hash : Bytes32), m.slots[p.1]? = some slot ∧ slot.state = .Content id hash

theorem Owned.lt (h : Owned m cm) {id : Text} {sizes : List (Nat × Nat)} (hid : cm[id]? = some sizes)
    {p : Nat × Nat} (hp : p ∈ sizes) : p.1 < m.slots.length := by
  obtain ⟨slot, _, hslot, _⟩ := h id sizes hid p hp
  exact (List.getElem?_eq_some_iff.mp hslot).1

theorem owned_empty (m : SlotMap) : Owned m ∅ := by
  intro id sizes h
  rw [ExtTreeMap.getElem?_empty] at h
  cases h

/-- The slots of a content survive a change of other slots. -/
theorem restate_keeps (state : SlotState) {indices : List Nat} {k : Nat} {slot : Slot}
    (hk : k ∉ indices) (hslot : m.slots[k]? = some slot) :
    ∃ slot', (m.restate state indices).slots[k]? = some slot' ∧ slot'.state = slot.state := by
  refine ⟨slot, ?_, rfl⟩
  rw [restate_get, hslot, Option.map_some, if_neg hk]

/-- An owned slot is never taken by a store. -/
theorem Owned.not_taken (h : Owned m cm) {id : Text} {sizes : List (Nat × Nat)}
    (hid : cm[id]? = some sizes) {p : Nat × Nat} (hp : p ∈ sizes) (chunks : List Bytes) :
    p.1 ∉ takenSlots m chunks := by
  intro htaken
  obtain ⟨slot, hash, hslot, hstate⟩ := h id sizes hid p hp
  obtain ⟨slot', hslot', hopen⟩ := takenSlots_open htaken
  rw [hslot] at hslot'
  cases hslot'
  rw [hstate] at hopen
  cases hopen

/-- Two contents share no slot. -/
theorem Owned.disjoint (h : Owned m cm) {id id' : Text} {sizes sizes' : List (Nat × Nat)}
    (hid : cm[id]? = some sizes) (hid' : cm[id']? = some sizes') (hne : id ≠ id') {p : Nat × Nat}
    (hp : p ∈ sizes) : p.1 ∉ sizes'.map Prod.fst := by
  intro hmem
  obtain ⟨q, hq, heq⟩ := List.mem_map.mp hmem
  obtain ⟨slot, hash, hslot, hstate⟩ := h id sizes hid p hp
  obtain ⟨slot', hash', hslot', hstate'⟩ := h id' sizes' hid' q hq
  rw [heq, hslot] at hslot'
  cases hslot'
  rw [hstate] at hstate'
  cases hstate'
  exact hne rfl

theorem Owned.store (h : Owned m cm) (id : Text) (chunks : List Bytes) :
    Owned (m.holding o id chunks) (cm.insert id (takenSizes m chunks)) := by
  intro id' sizes hid p hp
  rw [get_insert] at hid
  by_cases heq : id = id'
  · rw [if_pos heq] at hid
    cases hid
    subst heq
    have hin : p.1 ∈ takenSlots m chunks := by
      rw [← takenSizes_fst]
      exact List.mem_map_of_mem hp
    obtain ⟨slot, hslot, _⟩ := takenSlots_open hin
    refine ⟨{ slot with state := .Content id (committedHash o (chunkHashes o chunks)) },
      committedHash o (chunkHashes o chunks), ?_, rfl⟩
    unfold SlotMap.holding
    rw [restate_get, hslot, Option.map_some, if_pos hin]
  · rw [if_neg heq] at hid
    obtain ⟨slot, hash, hslot, hstate⟩ := h id' sizes hid p hp
    obtain ⟨slot', hslot', hsame⟩ := restate_keeps
      (.Content id (committedHash o (chunkHashes o chunks)))
      (h.not_taken hid hp chunks) hslot
    exact ⟨slot', hash, hslot', hsame.trans hstate⟩

theorem Owned.delete (h : Owned m cm) {id : Text} {sizes : List (Nat × Nat)}
    (hid : cm[id]? = some sizes) : Owned (m.restate .Open (sizes.map Prod.fst)) (cm.erase id) := by
  intro id' sizes' hid' p hp
  rw [ExtTreeMap.getElem?_erase] at hid'
  by_cases heq : compare id id' = .eq
  · rw [if_pos heq] at hid'
    cases hid'
  · rw [if_neg heq] at hid'
    have hne : id' ≠ id := by
      rintro rfl
      exact heq ReflCmp.compare_self
    obtain ⟨slot, hash, hslot, hstate⟩ := h id' sizes' hid' p hp
    obtain ⟨slot', hslot', hsame⟩ := restate_keeps .Open
      (h.disjoint hid' hid hne hp) hslot
    exact ⟨slot', hash, hslot', hsame.trans hstate⟩

/-! ## What every event keeps -/

def JsonFile.value {A : Type} : JsonFile A → A
  | .whole value => value
  | .cut value _ => value

/-- The layout of the slots in memory and on disk, and the ownership of the slots in
memory. -/
structure Kept (s : CapacityManager) (file : Bytes) : Prop where
  capacity_file : s.disk.capacity_file = some file
  saved : ∃ json, s.disk.slots_file = some json ∧ Layout (JsonFile.value json) file
  loaded : ∀ m, s.slot_allocator.slot_map = some m →
    Layout m file ∧ Owned m s.slot_allocator.content_slot_map

def KeptSome (s : CapacityManager) : Prop := ∃ file, Kept s file

theorem Kept.of_parts {as : List Answer} {sf : Option (JsonFile SlotMap)}
    {cf : Option (JsonFile ContentSlotMap)} (hlayout : Layout m file) (howned : Owned m cm)
    (hsaved : ∃ json, sf = some json ∧ Layout (JsonFile.value json) file) :
    Kept (s.moved m cm file sf cf as) file := by
  refine ⟨rfl, hsaved, ?_⟩
  intro m' hm'
  cases hm'
  exact ⟨hlayout, howned⟩

theorem SaveStopped.saved {m' : SlotMap} {c' : ContentSlotMap}
    {sf sf' : Option (JsonFile SlotMap)} {cf cf' : Option (JsonFile ContentSlotMap)}
    (h : SaveStopped m' c' sf sf' cf cf') (hlayout : Layout m' file)
    (hsaved : ∃ json, sf = some json ∧ Layout (JsonFile.value json) file) :
    ∃ json, sf' = some json ∧ Layout (JsonFile.value json) file := by
  rcases h with ⟨rfl, _⟩ | ⟨_, rfl | ⟨n, rfl⟩⟩
  · exact hsaved
  · exact hsaved
  · exact ⟨_, rfl, hlayout⟩

theorem Kept.saved_of_length (h : Kept s file) {file' : Bytes}
    (hlen : file'.length = file.length) :
    ∃ json, s.disk.slots_file = some json ∧ Layout (JsonFile.value json) file' := by
  obtain ⟨json, hjson, hlayout⟩ := h.saved
  exact ⟨json, hjson, hlayout.of_length hlen⟩

/-- A section of a store keeps it, however it ends. -/
theorem Kept.storeSection (h : Kept s file) (hm : s.slot_allocator.slot_map = some m) (id : Text)
    (chunks : List Bytes) :
    Ends (storeSection o id chunks) s (fun _ t => KeptSome t) (fun _ t => KeptSome t) := by
  obtain ⟨hlayout, howned⟩ := h.loaded m hm
  have hnew := howned.store o id chunks
  refine (storeSection_ends o hm h.capacity_file hlayout id chunks).mono ?_ ?_
  · rintro _ t ⟨_, file', as, _, hplaced, rfl⟩
    have hlayout' := (hlayout.of_length hplaced.touched.1).restate
      (.Content id (committedHash o (chunkHashes o chunks))) (takenSlots m chunks)
    exact ⟨file', Kept.of_parts hlayout' hnew ⟨_, rfl, hlayout'⟩⟩
  · rintro _ t (⟨file', as, _, htouched, rfl, _⟩ | ⟨_, file', as, sf', cf', _, hplaced, rfl, hstop⟩)
    · exact ⟨file', Kept.of_parts (hlayout.of_length htouched.1) howned
        (h.saved_of_length htouched.1)⟩
    · have hlayout' := (hlayout.of_length hplaced.touched.1).restate
        (.Content id (committedHash o (chunkHashes o chunks))) (takenSlots m chunks)
      exact ⟨file', Kept.of_parts hlayout' hnew
        (hstop.saved hlayout' (h.saved_of_length hplaced.touched.1))⟩

theorem Kept.deleteSection (h : Kept s file) (hm : s.slot_allocator.slot_map = some m)
    (id : Text) :
    Ends (deleteSection o id) s (fun _ t => KeptSome t) (fun _ t => KeptSome t) := by
  obtain ⟨hlayout, howned⟩ := h.loaded m hm
  cases hid : s.slot_allocator.content_slot_map[id]? with
  | none =>
    refine (deleteSection_unknown o hid).mono (fun _ _ h => h.elim) ?_
    rintro _ _ rfl
    exact ⟨file, h⟩
  | some sizes =>
    have hnew := howned.delete hid
    refine (deleteSection_ends o hm h.capacity_file hlayout hid
      (fun p hp => howned.lt hid hp)).mono ?_ ?_
    · rintro _ t ⟨_, file', as, _, htouched, _, rfl⟩
      have hlayout' := (hlayout.of_length htouched.1).restate .Open (sizes.map Prod.fst)
      exact ⟨file', Kept.of_parts hlayout' hnew ⟨_, rfl, hlayout'⟩⟩
    · rintro _ t ⟨_, ⟨file', as, _, htouched, rfl⟩ |
        ⟨file', as, sf', cf', _, htouched, _, rfl, hstop⟩⟩
      · exact ⟨file', Kept.of_parts (hlayout.of_length htouched.1) howned
          (h.saved_of_length htouched.1)⟩
      · have hlayout' := (hlayout.of_length htouched.1).restate .Open (sizes.map Prod.fst)
        exact ⟨file', Kept.of_parts hlayout' hnew
          (hstop.saved hlayout' (h.saved_of_length htouched.1))⟩

/-! ## Calls -/

/-- Without a slot map a section stops where it starts. -/
theorem storeSection_unloaded (hm : s.slot_allocator.slot_map = none) (id : Text)
    (chunks : List Bytes) :
    Ends (storeSection o id chunks) s (fun _ _ => False) (fun _ t => s = t) := by
  unfold storeSection find_open_slots slot_map_ref
  rw [ends_bind, ends_bind, ends_bind, ends_get, hm]
  exact rfl

theorem deleteSection_unloaded (hm : s.slot_allocator.slot_map = none) (id : Text) :
    Ends (deleteSection o id) s (fun _ _ => False) (fun _ t => s = t) := by
  unfold deleteSection
  rw [ends_bind]
  refine (find_slots_by_content_id_ends id s).mono ?_ (fun _ _ h => h.2)
  rintro sizes _ ⟨_, rfl⟩
  unfold slot_map_ref
  rw [ends_bind, ends_bind, ends_get, hm]
  exact rfl

/-- The tree update changes nothing but the tree. -/
theorem update_merkle_tree_for_content_ends (indices : List Nat) (hashes : List Bytes32)
    (s : CapacityManager) :
    Ends (update_merkle_tree_for_content o indices hashes) s
      (fun root t => ∃ tree, tree.map CapacityProofMerkleTree.root = some root ∧
        t = { s with merkle_tree := tree }) (fun _ t => s = t) := by
  unfold update_merkle_tree_for_content
  by_cases hlen : indices.length = hashes.length
  · rw [if_neg (not_not.mpr hlen), ends_bind, ends_get]
    cases htree : s.merkle_tree with
    | none => exact rfl
    | some tree =>
      simp only
      cases hfind : indices.find? (fun i => decide (tree.leaves.length ≤ i)) with
      | some i => exact rfl
      | none =>
        simp only
        cases CapacityProofMerkleTree.update_leaves o (indices.zip hashes) tree with
        | none => exact rfl
        | some updated => exact ⟨some updated, rfl, rfl⟩
  · rw [if_pos hlen]
    exact rfl

theorem Kept.withTree (h : Kept s file) (tree : Option CapacityProofMerkleTree) :
    Kept { s with merkle_tree := tree } file := ⟨h.capacity_file, h.saved, h.loaded⟩

theorem KeptSome.update (h : KeptSome s) (indices : List Nat) (hashes : List Bytes32) :
    Ends (update_merkle_tree_for_content o indices hashes) s (fun _ t => KeptSome t)
      (fun _ t => KeptSome t) := by
  obtain ⟨file, h⟩ := h
  refine (update_merkle_tree_for_content_ends o indices hashes s).mono ?_ ?_
  · rintro _ t ⟨tree, _, rfl⟩
    exact ⟨file, h.withTree tree⟩
  · rintro _ t rfl
    exact ⟨file, h⟩

/-- A call keeps it, however it ends. -/
theorem Kept.call (h : Kept s file) (call : SlotCall) :
    Ends (call.run o) s (fun _ t => KeptSome t) (fun _ t => KeptSome t) := by
  cases call with
  | store id chunks =>
    have hsection : Ends (eld_chain.storeSection o id chunks) s (fun _ t => KeptSome t)
        (fun _ t => KeptSome t) := by
      cases hm : s.slot_allocator.slot_map with
      | some m => exact h.storeSection o hm id chunks
      | none =>
        refine (storeSection_unloaded o hm id chunks).mono (fun _ _ h => h.elim) ?_
        rintro _ _ rfl
        exact ⟨file, h⟩
    unfold SlotCall.run store_content_chunks
    rw [ends_bind, ends_bind]
    refine hsection.mono ?_ (fun _ _ h => h)
    intro r t ht
    rw [ends_bind]
    exact (ht.update o r.1 r.2).mono (fun _ _ h => h) (fun _ _ h => h)
  | delete id =>
    have hsection : Ends (eld_chain.deleteSection o id) s (fun _ t => KeptSome t)
        (fun _ t => KeptSome t) := by
      cases hm : s.slot_allocator.slot_map with
      | some m => exact h.deleteSection o hm id
      | none =>
        refine (deleteSection_unloaded o hm id).mono (fun _ _ h => h.elim) ?_
        rintro _ _ rfl
        exact ⟨file, h⟩
    unfold SlotCall.run delete_content_from_slots
    rw [ends_bind]
    refine hsection.mono ?_ (fun _ _ h => h)
    intro r t ht
    rw [ends_bind]
    refine (get_merkle_root_ends t).mono ?_ ?_
    · rintro _ _ rfl
      rw [ends_bind]
      exact (ht.update o r.1 r.2).mono (fun _ _ h => h) (fun _ _ h => h)
    · rintro _ _ ⟨_, rfl⟩
      exact ht

/-! ## Restarts -/

/-- A program that changes nothing and only uses up answers. -/
def ReadsOnly {A : Type} (p : Prog A) : Prop :=
  ∀ s, Ends p s (fun _ t => Used s t) (fun _ t => Used s t)

theorem ReadsOnly.pure {A : Type} (a : A) : ReadsOnly (Pure.pure a : Prog A) :=
  fun s => Used.refl s

theorem ReadsOnly.throw {A : Type} (e : Stop) : ReadsOnly (throw e : Prog A) :=
  fun s => Used.refl s

theorem ReadsOnly.bind {A B : Type} {p : Prog A} {f : A → Prog B} (hp : ReadsOnly p)
    (hf : ∀ a, ReadsOnly (f a)) : ReadsOnly (p >>= f) := by
  intro s
  rw [ends_bind]
  refine (hp s).mono ?_ (fun _ _ h => h)
  intro a t ht
  exact (hf a t).mono (fun _ _ h => ht.trans h) (fun _ _ h => ht.trans h)

theorem ReadsOnly.get : ReadsOnly (MonadState.get : Prog CapacityManager) := fun s => Used.refl s

theorem ReadsOnly.osCall (operation what : String) : ReadsOnly (osCall operation what) :=
  fun s => (osCall_ends operation what s).mono (fun _ _ h => h) (fun _ _ h => h.1)

theorem ReadsOnly.openCapacityFile (operation what : String) :
    ReadsOnly (openCapacityFile operation what) := by
  refine (ReadsOnly.osCall operation what).bind (fun _ => ReadsOnly.get.bind (fun s => ?_))
  cases s.disk.capacity_file with
  | none => exact ReadsOnly.throw _
  | some file => exact ReadsOnly.pure _

theorem ReadsOnly.readExact (operation what : String) (offset size : Nat) :
    ReadsOnly (readExact operation what offset size) := by
  refine (ReadsOnly.osCall operation what).bind (fun _ => ReadsOnly.get.bind (fun s => ?_))
  cases readAt s.capacityBytes offset size with
  | none => exact ReadsOnly.throw _
  | some data => exact ReadsOnly.pure _

theorem ReadsOnly.leafHash (m : SlotMap) (slot : Slot) (k : Nat) :
    ReadsOnly (leafHash o x m slot k) := by
  unfold eld_chain.leafHash
  cases slot.state with
  | Open => exact ReadsOnly.pure _
  | Proof =>
    simp only
    by_cases h : (generate_chunk_data x m.provider_id m.seed k).length < slot.size
    · rw [if_pos h]
      exact ReadsOnly.throw _
    · rw [if_neg h]
      exact ReadsOnly.pure _
  | Content id hash =>
    exact ((ReadsOnly.osCall _ _).bind (fun _ => ReadsOnly.readExact _ _ _ _)).bind
      (fun _ => ReadsOnly.pure _)

theorem ReadsOnly.leafHashes (m : SlotMap) (slots : List Slot) (k : Nat) :
    ReadsOnly (leafHashes o x m slots k) := by
  induction slots generalizing k with
  | nil => exact ReadsOnly.pure _
  | cons slot rest ih =>
    exact (ReadsOnly.leafHash o m slot k).bind
      (fun _ => (ih (k + 1)).bind (fun _ => ReadsOnly.pure _))

theorem ReadsOnly.build_merkle_tree (m : SlotMap) : ReadsOnly (build_merkle_tree o x m) := by
  have hopen : ReadsOnly (open_capacity_file_for_merkle_build m) := by
    unfold open_capacity_file_for_merkle_build
    by_cases h : (m.slots.any fun slot => isContent slot.state) = true
    · rw [if_pos h]
      exact ReadsOnly.get.bind (fun _ => ReadsOnly.openCapacityFile _ _)
    · rw [if_neg h]
      exact ReadsOnly.pure _
  refine hopen.bind (fun _ => (ReadsOnly.leafHashes o m m.slots 0).bind (fun leaves => ?_))
  unfold buildTree
  cases CapacityProofMerkleTree.build o leaves with
  | none => exact ReadsOnly.throw _
  | some tree => exact ReadsOnly.pure _

/-- The two map files are in step: every slot that the content file lists for a content is
marked for it in the slot file. -/
def InStep (disk : Disk) : Prop :=
  ∀ m cm, disk.slots_file = some (.whole m) → disk.content_slot_map_file = some (.whole cm) →
    Owned m cm

/-- A call that succeeds leaves the two files in step. -/
theorem Kept.inStep_of_call (h : Kept s file) {call : SlotCall}
    {new : Option Bytes32} (hcall : call.run o s = .ok new t) : InStep t.disk := by
  cases hm : s.slot_allocator.slot_map with
  | none =>
    cases call with
    | store id chunks =>
      obtain ⟨_, _, hstore, _⟩ := bind_ok hcall
      obtain ⟨_, _, hsection, _⟩ := bind_ok hstore
      exact ((storeSection_unloaded o hm id chunks).of_ok hsection).elim
    | delete id =>
      obtain ⟨_, _, hsection, _⟩ := bind_ok hcall
      exact ((deleteSection_unloaded o hm id).of_ok hsection).elim
  | some m =>
    obtain ⟨hlayout, howned⟩ := h.loaded m hm
    cases call with
    | store id chunks =>
      obtain ⟨file', as, root, _, hupdate⟩ := store_ok o hm h.capacity_file hlayout hcall
      obtain ⟨tree, _, rfl⟩ := (update_merkle_tree_for_content_ends o _ _ _).of_ok hupdate
      rintro m' c' ⟨⟩ ⟨⟩
      exact howned.store o id chunks
    | delete id =>
      obtain ⟨sizes, file', as, root, hid, _, _, _, hupdate⟩ :=
        delete_ok o hm h.capacity_file hlayout hcall
      obtain ⟨tree, _, rfl⟩ := (update_merkle_tree_for_content_ends o _ _ _).of_ok hupdate
      rintro m' c' ⟨⟩ ⟨⟩
      exact howned.delete hid

theorem Kept.answered (h : Kept s file) (as : List Answer) : Kept (s.answered as) file :=
  ⟨h.capacity_file, h.saved, h.loaded⟩

theorem Kept.used (h : Kept s file) (hused : Used s t) : KeptSome t := by
  obtain ⟨as, _, rfl⟩ := hused
  exact ⟨file, h.answered as⟩

/-- A restart keeps it, however it ends, when the two files are in step. -/
theorem Kept.restart (h : Kept s file) (hstep : InStep s.disk) (answers : List Answer) :
    Ends (initialize_manager o x j) (s.reopened answers) (fun _ t => KeptSome t)
      (fun _ t => KeptSome t) := by
  have hfresh : Kept (s.reopened answers) file :=
    ⟨h.capacity_file, h.saved, fun m hm => by cases hm⟩
  obtain ⟨json, hjson, hlayout⟩ := h.saved
  have hload : Ends (loadAndBuild o x j) (s.reopened answers) (fun _ t => KeptSome t)
      (fun _ t => KeptSome t) := by
    unfold loadAndBuild
    rw [ends_bind]
    cases json with
    | cut m n =>
      have hcut : (s.reopened answers).disk.slots_file = some (.cut m n) := hjson
      unfold load_slot_map
      rw [ends_bind, ends_get, hcut]
      simp only
      rw [ends_bind]
      refine (osCall_ends _ _ _).mono ?_ (fun _ _ hu => hfresh.used hu.1)
      intro _ t ht
      exact hfresh.used ht
    | whole m =>
      refine (load_slot_map_ends (s := s.reopened answers) (m := m) h.capacity_file hjson).mono ?_
        (fun _ _ hu => hfresh.used hu.1)
      rintro _ t ⟨cm, as, _, hc, rfl⟩
      have howned : Owned m cm := by
        rcases hc with rfl | hc
        · exact owned_empty m
        · exact hstep m cm hjson hc
      have hkept : Kept ((s.reopened answers).moved m cm file (s.reopened answers).disk.slots_file
          (s.reopened answers).disk.content_slot_map_file as) file :=
        Kept.of_parts hlayout howned ⟨_, hjson, hlayout⟩
      rw [ends_bind, ends_get]
      simp only [CapacityManager.moved]
      rw [ends_bind]
      refine (ReadsOnly.build_merkle_tree o m _).mono ?_ (fun _ _ hu => hkept.used hu)
      rintro tree u ⟨bs, _, rfl⟩
      exact ⟨file, (hkept.answered bs).withTree (some tree)⟩
  unfold initialize_manager
  rw [ends_bind, ends_get]
  have hinit : ¬ (s.reopened answers).initialized = true := by
    unfold CapacityManager.reopened
    simp
  have hsome : (s.reopened answers).disk.slots_file.isSome = true := by
    unfold CapacityManager.reopened
    simp only [hjson, Option.isSome_some]
  rw [if_neg hinit, if_pos hsome, ends_bind]
  refine hload.mono ?_ (fun _ _ h => h)
  rintro _ t ⟨file', ht⟩
  rw [ends_modify]
  exact ⟨file', ht.capacity_file, ht.saved, ht.loaded⟩

/-! ## Runs with faults -/

/-- The state after an event, however it ends. -/
def CapacityEvent.happen (x : ChunkSource) (j : JsonErrors) (s : CapacityManager) :
    CapacityEvent → CapacityManager
  | .call c answers => after (c.run o) (s.answered answers)
  | .restart answers => after (initialize_manager o x j) (s.reopened answers)

/-- A restart meets two files that are in step. -/
def RestartsInStep (s : CapacityManager) : CapacityEvent → Prop
  | .call _ _ => True
  | .restart _ => InStep s.disk

theorem KeptSome.happen (h : KeptSome s) {e : CapacityEvent} (hstep : RestartsInStep s e) :
    KeptSome (e.happen o x j s) := by
  obtain ⟨file, h⟩ := h
  cases e with
  | call c answers => exact ((h.answered answers).call o c).after
  | restart answers => exact (h.restart o hstep answers).after

/-- One step of a run in which every event happens. -/
def capacityStep (x : ChunkSource) (j : JsonErrors) (s : CapacityManager) (e : CapacityEvent) :
    Option CapacityManager := some (e.happen o x j s)

/-- From an allocation by a new process on, ownership holds through every run whose restarts
find the two files in step. -/
theorem kept_of_run {s₀ s₁ : CapacityManager} {capacity : Nat} {seed root : Bytes32}
    (halloc : allocate_capacity_internal o x capacity seed s₀ = .ok root s₁)
    (hempty : s₀.slot_allocator.content_slot_map = ∅) {events : List CapacityEvent}
    (hrun : runs.run (capacityStep o x j) events s₁ = some s)
    (hstep : ∀ p ∈ runs.visits (capacityStep o x j) events s₁, RestartsInStep p.1 p.2) :
    KeptSome s := by
  obtain ⟨m, file, hm, hsaved, _, hcontent, _⟩ := allocate_capacity_internal_mirror o halloc
  have hstart : KeptSome s₁ := by
    refine ⟨file, hm.capacity_file, ⟨_, hsaved, hm.layout⟩, ?_⟩
    intro m' hm'
    rw [hm.slot_map] at hm'
    cases hm'
    refine ⟨hm.layout, ?_⟩
    rw [hcontent, hempty]
    exact owned_empty m
  refine runs.run_induction (capacityStep o x j)
    (fun es s => (∀ p ∈ runs.visits (capacityStep o x j) es s₁, RestartsInStep p.1 p.2) →
      KeptSome s) (fun _ => hstart) ?_ hrun hstep
  intro es s e s' hr ih hs hall
  cases hs
  rw [runs.visits_snoc _ e hr] at hall
  refine (ih (fun p hp => hall p (List.mem_append_left _ hp))).happen o ?_
  exact hall (s, e) (List.mem_append_right _ (List.mem_singleton.mpr rfl))

end eld_chain
