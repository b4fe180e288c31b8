-- The in-memory Merkle tree mirrors the capacity file: leaf i is the hash
-- of the bytes of slot i, an Open slot is zero, and a Proof slot holds its
-- generated bytes. Allocation establishes the mirror, a store or a delete
-- that succeeds keeps it, and a restart builds it again.
import EldChain.SectionSpecs

open Std

namespace eld_chain

open fallible regions hash_tree CapacityProofMerkleTree

variable (o : Outside) (x : ChunkSource) (j : JsonErrors)
variable {s t : CapacityManager} {m : SlotMap} {file : Bytes}

/-! ## The leaves over the slots -/

def leafOf (m : SlotMap) (file : Bytes) (k : Nat) : Bytes32 :=
  hash_chunk o ((slotBytes m file k).getD [])

def leavesOf (m : SlotMap) (file : Bytes) : List Bytes32 :=
  (List.range m.slots.length).map (leafOf o m file)

theorem leavesOf_get {k : Nat} (h : k < m.slots.length) :
    (leavesOf o m file)[k]? = some (leafOf o m file k) := by
  unfold leavesOf
  rw [List.getElem?_map, List.getElem?_range h]
  rfl

@[simp] theorem length_leavesOf (m : SlotMap) (file : Bytes) :
    (leavesOf o m file).length = m.slots.length := by
  unfold leavesOf
  rw [List.length_map, List.length_range]

theorem leavesOf_ne_nil (h : m.slots ≠ []) : leavesOf o m file ≠ [] := by
  intro hnil
  have := congrArg List.length hnil
  rw [length_leavesOf] at this
  exact h (List.length_eq_zero_iff.mp this)

theorem leafOf_eq {k : Nat} {data : Bytes} (h : slotBytes m file k = some data) :
    leafOf o m file k = hash_chunk o data := by
  unfold leafOf
  rw [h]
  rfl

theorem leavesOf_restate (state : SlotState) (indices : List Nat) :
    leavesOf o (m.restate state indices) file = leavesOf o m file := by
  unfold leavesOf leafOf
  rw [length_restate]
  simp only [slotBytes_restate]

/-- Writing the leaves of the touched slots gives the leaves of the new file. -/
theorem setAll_leavesOf {file' : Bytes} (writes : List (Nat × Bytes32))
    (htouched : Touched m (writes.map Prod.fst) file file')
    (hright : ∀ w ∈ writes, w.2 = leafOf o m file' w.1) :
    setAll writes (leavesOf o m file) = leavesOf o m file' := by
  refine setAll_map_range (fun k hk => ?_) hright _
  rw [leafOf, leafOf, htouched.2 k hk]

/-! ## The mirror -/

/-- What the state of a slot says of its bytes. -/
def Truthful (m : SlotMap) (file : Bytes) : Prop :=
  ∀ (k : Nat) (slot : Slot), m.slots[k]? = some slot →
    (slot.state = .Open → slotBytes m file k = some (zeros slot.size)) ∧
    (slot.state = .Proof → slotBytes m file k =
      some ((generate_chunk_data x m.provider_id m.seed k).take slot.size))

/-- The slot map and the file, and what they say of each other. -/
structure Sound (s : CapacityManager) (m : SlotMap) (file : Bytes) : Prop where
  slot_map : s.slot_allocator.slot_map = some m
  capacity_file : s.disk.capacity_file = some file
  nonempty : m.slots ≠ []
  layout : Layout m file
  truthful : Truthful x m file

structure Mirror (s : CapacityManager) (m : SlotMap) (file : Bytes) : Prop
    extends Sound x s m file where
  tree : s.merkle_tree = some (treeOf o (leavesOf o m file))

theorem ne_nil_restate (h : m.slots ≠ []) (state : SlotState) (indices : List Nat) :
    (m.restate state indices).slots ≠ [] := by
  intro hnil
  have := congrArg List.length hnil
  rw [length_restate] at this
  exact h (List.length_eq_zero_iff.mp this)

variable {x}

theorem Truthful.restate {state : SlotState} {indices : List Nat} {file' : Bytes}
    (h : Truthful x m file) (htouched : Touched m indices file file')
    (hnot : state ≠ .Proof) (hopen : state = .Open → Zeroed m indices file') :
    Truthful x (m.restate state indices) file' := by
  intro k slot hk
  obtain ⟨old, hold, _, hsize, hstate⟩ := restate_slot hk
  rw [slotBytes_restate, hsize]
  by_cases hin : k ∈ indices
  · rw [if_pos hin] at hstate
    rw [hstate]
    exact ⟨fun ho => hopen ho k hin old hold, fun hp => absurd hp hnot⟩
  · rw [if_neg hin] at hstate
    rw [hstate, htouched.2 k hin]
    exact h k old hold

theorem Sound.withTree (h : Sound x s m file) (tree : CapacityProofMerkleTree) :
    Sound x (s.withTree tree) m file :=
  ⟨h.slot_map, h.capacity_file, h.nonempty, h.layout, h.truthful⟩

/-- The state after a section whose tree update is still to come. -/
theorem Sound.moved {state : SlotState} {indices : List Nat} {file' : Bytes}
    (h : Sound x s m file) (htouched : Touched m indices file file') (hnot : state ≠ .Proof)
    (hopen : state = .Open → Zeroed m indices file') (c : ContentSlotMap)
    (sf : Option (JsonFile SlotMap)) (cf : Option (JsonFile ContentSlotMap)) (as : List Answer) :
    Sound x (s.moved (m.restate state indices) c file' sf cf as) (m.restate state indices)
      file' where
  slot_map := rfl
  capacity_file := rfl
  nonempty := ne_nil_restate h.nonempty state indices
  layout := (h.layout.of_length htouched.1).restate state indices
  truthful := h.truthful.restate htouched hnot hopen

/-! ## Stores and deletes -/

/-- The tree update of a section restores the mirror. -/
theorem update_tree_of_touched {indices : List Nat} {hashes : List Bytes32} {file' : Bytes}
    {leaves : List Bytes32} (htree : t.merkle_tree = some (treeOf o leaves))
    (hleaves : leaves = leavesOf o m file) (hne : m.slots ≠ [])
    (hlen : indices.length = hashes.length) (hin : ∀ i ∈ indices, i < m.slots.length)
    (htouched : Touched m indices file file')
    (hright : ∀ w ∈ indices.zip hashes, w.2 = leafOf o m file' w.1) :
    update_merkle_tree_for_content o indices hashes t =
      .ok (rootOf o (leavesOf o m file')) (t.withTree (treeOf o (leavesOf o m file'))) := by
  have hfst : (indices.zip hashes).map Prod.fst = indices := List.map_fst_zip (by omega)
  have hset := setAll_leavesOf o (indices.zip hashes)
    (show Touched m _ file file' by rw [hfst]; exact htouched) hright
  subst hleaves
  rw [update_merkle_tree_for_content_eq o htree (leavesOf_ne_nil o hne) hlen
    (by rw [length_leavesOf]; exact hin), hset]

theorem takenSlots_lt {chunks : List Bytes} {i : Nat} (h : i ∈ takenSlots m chunks) :
    i < m.slots.length := by
  obtain ⟨slot, hslot, _⟩ := takenSlots_open h
  exact (List.getElem?_eq_some_iff.mp hslot).1

theorem length_takenSlots {chunks : List Bytes}
    (h : chunks.length ≤ (openSlots m chunks.length).length) :
    (takenSlots m chunks).length = (chunkHashes o chunks).length := by
  unfold takenSlots chunkHashes
  rw [List.length_take, List.length_map]
  omega

/-- The hashes of a placed content are the leaves of its slots. -/
theorem Placed.leaf_eq {chunks : List Bytes} {file' : Bytes} (h : Placed m chunks file file')
    {w : Nat × Bytes32} (hw : w ∈ (takenSlots m chunks).zip (chunkHashes o chunks)) :
    w.2 = leafOf o m file' w.1 := by
  unfold takenSlots chunkHashes at hw
  rw [List.zip_map_right, List.mem_map] at hw
  obtain ⟨p, hp, rfl⟩ := hw
  have hmem : p ∈ (openSlots m chunks.length).zip chunks := by
    rw [List.mem_iff_getElem?] at hp ⊢
    obtain ⟨n, hn⟩ := hp
    refine ⟨n, ?_⟩
    rw [List.getElem?_zip_eq_some] at hn ⊢
    exact ⟨List.getElem?_take_of_lt (List.getElem?_eq_some_iff.mp hn.2).1 ▸ hn.1, hn.2⟩
  exact (leafOf_eq o (h.filled.holds p hmem)).symm

/-- After the section of a store, the tree update ends well and restores the mirror. -/
theorem Mirror.stored {id : Text} {chunks : List Bytes} {file' : Bytes} {c : ContentSlotMap}
    {sf : Option (JsonFile SlotMap)} {cf : Option (JsonFile ContentSlotMap)} {as : List Answer}
    (h : Mirror o x s m file) (hplaced : Placed m chunks file file') :
    ∃ t, update_merkle_tree_for_content o (takenSlots m chunks) (chunkHashes o chunks)
        (s.moved (m.holding o id chunks) c file' sf cf as) =
          .ok (rootOf o (leavesOf o (m.holding o id chunks) file')) t ∧
      Mirror o x t (m.holding o id chunks) file' ∧
      t = (s.moved (m.holding o id chunks) c file' sf cf as).withTree
        (treeOf o (leavesOf o (m.holding o id chunks) file')) := by
  have hsound : Sound x (s.moved (m.holding o id chunks) c file' sf cf as)
      (m.holding o id chunks) file' :=
    h.toSound.moved hplaced.touched (by simp) (by simp) c sf cf as
  have hupdate := update_tree_of_touched o
    (t := s.moved (m.holding o id chunks) c file' sf cf as) h.tree rfl h.nonempty
    (length_takenSlots o hplaced.filled.enough) (fun i => takenSlots_lt) hplaced.touched
    (fun w hw => hplaced.leaf_eq o hw)
  have hleaves : leavesOf o (m.holding o id chunks) file' = leavesOf o m file' :=
    leavesOf_restate o _ _
  rw [← hleaves] at hupdate
  exact ⟨_, hupdate, ⟨hsound.withTree _, rfl⟩, rfl⟩

theorem Zeroed.leaf_eq {sizes : List (Nat × Nat)} {file' : Bytes}
    (hzero : Zeroed m (sizes.map Prod.fst) file') (hin : ∀ p ∈ sizes, p.1 < m.slots.length)
    {w : Nat × Bytes32}
    (hw : w ∈ (sizes.map Prod.fst).zip (sizes.map (fun p => zeroHash o m p.1))) :
    w.2 = leafOf o m file' w.1 := by
  rw [List.zip_map', List.mem_map] at hw
  obtain ⟨p, hp, rfl⟩ := hw
  have hslot := List.getElem?_eq_getElem (hin p hp)
  have hbytes := hzero p.1 (List.mem_map_of_mem hp) _ hslot
  rw [leafOf_eq o hbytes, zeroHash, hslot]
  rfl

/-- After the section of a delete, the tree update ends well and restores the mirror. -/
theorem Mirror.deleted {sizes : List (Nat × Nat)} {file' : Bytes} {c : ContentSlotMap}
    {sf : Option (JsonFile SlotMap)} {cf : Option (JsonFile ContentSlotMap)} {as : List Answer}
    (h : Mirror o x s m file) (hin : ∀ p ∈ sizes, p.1 < m.slots.length)
    (htouched : Touched m (sizes.map Prod.fst) file file')
    (hzero : Zeroed m (sizes.map Prod.fst) file') :
    ∃ t, update_merkle_tree_for_content o (sizes.map Prod.fst)
        (sizes.map (fun p => zeroHash o m p.1))
        (s.moved (m.restate .Open (sizes.map Prod.fst)) c file' sf cf as) =
          .ok (rootOf o (leavesOf o (m.restate .Open (sizes.map Prod.fst)) file')) t ∧
      Mirror o x t (m.restate .Open (sizes.map Prod.fst)) file' ∧
      t = (s.moved (m.restate .Open (sizes.map Prod.fst)) c file' sf cf as).withTree
        (treeOf o (leavesOf o (m.restate .Open (sizes.map Prod.fst)) file')) := by
  have hsound : Sound x (s.moved (m.restate .Open (sizes.map Prod.fst)) c file' sf cf as)
      (m.restate .Open (sizes.map Prod.fst)) file' :=
    h.toSound.moved htouched (by simp) (fun _ => hzero) c sf cf as
  have hupdate := update_tree_of_touched o
    (t := s.moved (m.restate .Open (sizes.map Prod.fst)) c file' sf cf as) h.tree rfl h.nonempty
    (by simp) (fun i hi => by
      obtain ⟨p, hp, rfl⟩ := List.mem_map.mp hi
      exact hin p hp) htouched (fun w hw => hzero.leaf_eq o hin hw)
  rw [← leavesOf_restate o .Open (sizes.map Prod.fst)] at hupdate
  exact ⟨_, hupdate, ⟨hsound.withTree _, rfl⟩, rfl⟩

/-! ## Calls -/

/-- A call of one of the two operations that change the slots. -/
inductive SlotCall
  | store (content_id : Text) (chunks : List Bytes)
  | delete (content_id : Text)

def SlotCall.content_id : SlotCall → Text
  | .store id _ => id
  | .delete id => id

/-- Gives the root that the call submits. -/
def SlotCall.run : SlotCall → Prog (Option Bytes32)
  | .store id chunks => do
    let stored ← store_content_chunks o id chunks
    pure (some stored.2)
  | .delete id => delete_content_from_slots o id

/-- What a call that succeeds has done. -/
theorem store_ok (hm : s.slot_allocator.slot_map = some m)
    (hfile : s.disk.capacity_file = some file) (hl : Layout m file) {id : Text}
    {chunks : List Bytes} {new : Option Bytes32}
    (h : (SlotCall.store id chunks).run o s = .ok new t) :
    ∃ file' as root, Placed m chunks file file' ∧
      update_merkle_tree_for_content o (takenSlots m chunks) (chunkHashes o chunks)
        (s.moved (m.holding o id chunks)
          (s.slot_allocator.content_slot_map.insert id (takenSizes m chunks)) file'
          (some (.whole (m.holding o id chunks)))
          (some (.whole (s.slot_allocator.content_slot_map.insert id (takenSizes m chunks)))) as) =
        .ok root t := by
  obtain ⟨_, u, hstore, hpure⟩ := bind_ok h
  cases hpure
  obtain ⟨r, v, hsection, hrest⟩ := bind_ok hstore
  obtain ⟨rfl, file', as, _, hplaced, rfl⟩ :=
    (storeSection_ends o hm hfile hl id chunks).of_ok hsection
  obtain ⟨root, w, hupdate, hpure⟩ := bind_ok hrest
  cases hpure
  exact ⟨file', as, root, hplaced, hupdate⟩

theorem mem_of_zeroHashes_ok {slots : List Slot} {sizes : List (Nat × Nat)} {r : List Bytes32}
    {u : CapacityManager} (h : zeroHashes o slots sizes s = .ok r u) :
    ∀ p ∈ sizes, p.1 < slots.length := by
  induction sizes generalizing s r u with
  | nil => simp
  | cons p sizes ih =>
    rw [zeroHashes] at h
    cases hslot : slots[p.1]? with
    | none => rw [hslot] at h; cases h
    | some slot =>
      rw [hslot] at h
      obtain ⟨r', v, hrest, _⟩ := bind_ok h
      intro q hq
      rcases List.mem_cons.mp hq with rfl | hq
      · exact (List.getElem?_eq_some_iff.mp hslot).1
      · exact ih hrest q hq

/-- A delete that gets through has found its slots in the slot map. -/
theorem deleteSection_in_range (hm : s.slot_allocator.slot_map = some m) {id : Text}
    {r : List Nat × List Bytes32} (h : deleteSection o id s = .ok r t) :
    ∃ sizes, s.slot_allocator.content_slot_map[id]? = some sizes ∧
      ∀ p ∈ sizes, p.1 < m.slots.length := by
  obtain ⟨sizes, u, hfind, h⟩ := bind_ok h
  obtain ⟨hid, rfl⟩ := (find_slots_by_content_id_ends id s).of_ok hfind
  obtain ⟨m', v, hmap, h⟩ := bind_ok h
  obtain ⟨rfl, rfl⟩ := (slot_map_ref_ends hm).of_ok hmap
  obtain ⟨hashes, w, hzero, _⟩ := bind_ok h
  exact ⟨sizes, hid, mem_of_zeroHashes_ok o hzero⟩

theorem delete_ok (hm : s.slot_allocator.slot_map = some m)
    (hfile : s.disk.capacity_file = some file) (hl : Layout m file) {id : Text}
    {new : Option Bytes32} (h : (SlotCall.delete id).run o s = .ok new t) :
    ∃ sizes file' as root, s.slot_allocator.content_slot_map[id]? = some sizes ∧
      (∀ p ∈ sizes, p.1 < m.slots.length) ∧ Touched m (sizes.map Prod.fst) file file' ∧
      Zeroed m (sizes.map Prod.fst) file' ∧
      update_merkle_tree_for_content o (sizes.map Prod.fst)
        (sizes.map (fun p => zeroHash o m p.1))
        (s.moved (m.restate .Open (sizes.map Prod.fst))
          (s.slot_allocator.content_slot_map.erase id) file'
          (some (.whole (m.restate .Open (sizes.map Prod.fst))))
          (some (.whole (s.slot_allocator.content_slot_map.erase id))) as) = .ok root t := by
  obtain ⟨r, u, hsection, h⟩ := bind_ok h
  obtain ⟨sizes, hid, hin⟩ := deleteSection_in_range o hm hsection
  obtain ⟨rfl, file', as, _, htouched, hzero, rfl⟩ :=
    (deleteSection_ends o hm hfile hl hid hin).of_ok hsection
  obtain ⟨old, v, hroot, h⟩ := bind_ok h
  have hv := (get_merkle_root_ends _).of_ok hroot
  subst hv
  obtain ⟨root, w, hupdate, hpure⟩ := bind_ok h
  cases hpure
  exact ⟨sizes, file', as, root, hid, hin, htouched, hzero, hupdate⟩

/-- A manager whose mirror stands, with its slot map on disk. -/
def Saved (o : Outside) (x : ChunkSource) (s : CapacityManager) : Prop :=
  ∃ m file, Mirror o x s m file ∧ s.disk.slots_file = some (.whole m)

/-- A call that succeeds keeps the mirror. -/
theorem Mirror.call (h : Mirror o x s m file) {call : SlotCall} {new : Option Bytes32}
    (hcall : call.run o s = .ok new t) : Saved o x t := by
  cases call with
  | store id chunks =>
    obtain ⟨file', as, root, hplaced, hupdate⟩ :=
      store_ok o h.slot_map h.capacity_file h.layout hcall
    obtain ⟨u, hupdate', hmirror, hu⟩ := h.stored o hplaced
    rw [hupdate'] at hupdate
    cases hupdate
    exact ⟨_, _, hmirror, by rw [hu]; rfl⟩
  | delete id =>
    obtain ⟨sizes, file', as, root, hid, hin, htouched, hzero, hupdate⟩ :=
      delete_ok o h.slot_map h.capacity_file h.layout hcall
    obtain ⟨u, hupdate', hmirror, hu⟩ := h.deleted o hin htouched hzero
    rw [hupdate'] at hupdate
    cases hupdate
    exact ⟨_, _, hmirror, by rw [hu]; rfl⟩

end eld_chain
