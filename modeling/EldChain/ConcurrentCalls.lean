-- Calls that share a manager. Each holds the allocator's lock for its slots
-- and files and gives it up before it takes the tree's, so that the tree
-- may see two calls in another order than the slots did. The tree comes out
-- right when no call overtakes another that waits with a slot of its own.
import EldChain.CapacityFaults
import EldChain.SlotRoundTrip

open Std

namespace eld_chain

open fallible regions hash_tree finite_map CapacityProofMerkleTree

variable (o : Outside) {x : ChunkSource}
variable {s t : CapacityManager} {m : SlotMap} {file : Bytes}

/-! ## Calls in sections -/

/-- A call that gave up the allocator's lock and has the tree still to update. A delete
reads the root before that. -/
structure Waiting where
  reads_root : Bool
  slot_indices : List Nat
  content_hashes : List Bytes32

def Waiting.writes (w : Waiting) : List (Nat × Bytes32) := w.slot_indices.zip w.content_hashes

/-- A manager and the calls that wait for its tree, in the order in which they held the
allocator's lock. The code does not keep `stored`: what was stored and not deleted since. -/
structure SharedManager where
  manager : CapacityManager
  waiting : List Waiting
  stored : ExtTreeMap Text (List Bytes)

/-- What runs at one go: a call under the allocator's lock, or the next section of a call
that waits. -/
inductive Section
  | locked (call : SlotCall) (answers : List Answer)
  | next (k : Nat)

def SlotCall.locked : SlotCall → Prog (List Nat × List Bytes32)
  | .store id chunks => storeSection o id chunks
  | .delete id => deleteSection o id

def SlotCall.readsRoot : SlotCall → Bool
  | .store _ _ => false
  | .delete _ => true

def SlotCall.recorded (stored : ExtTreeMap Text (List Bytes)) :
    SlotCall → ExtTreeMap Text (List Bytes)
  | .store id chunks => stored.insert id chunks
  | .delete id => stored.erase id

/-- The root that a call submits, after it read the previous one if it does. -/
def SlotCall.submitted (previous : Option Bytes32) (new_merkle_root : Bytes32) : Option Bytes32 :=
  if previous = some new_merkle_root then none else some new_merkle_root

/-- The sections of a call, one after the other. -/
def SlotCall.sections (call : SlotCall) : Prog (Option Bytes32) := do
  let r ← call.locked o
  let previous ← if call.readsRoot then some <$> get_merkle_root else pure none
  let new_merkle_root ← update_merkle_tree_for_content o r.1 r.2
  pure (SlotCall.submitted previous new_merkle_root)

theorem SlotCall.submitted_none : SlotCall.submitted none = some := by
  funext new_merkle_root
  simp [SlotCall.submitted]

theorem SlotCall.submitted_some (previous : Bytes32) : SlotCall.submitted (some previous) =
    fun new_merkle_root =>
      if previous = new_merkle_root then none else some new_merkle_root := by
  funext new_merkle_root
  simp [SlotCall.submitted]

theorem SlotCall.run_eq_sections (call : SlotCall) : call.run o = call.sections o := by
  cases call with
  | store id chunks =>
    unfold SlotCall.run store_content_chunks
    simp [SlotCall.sections, SlotCall.locked, SlotCall.readsRoot, SlotCall.submitted_none]
  | delete id =>
    unfold SlotCall.run delete_content_from_slots
    simp [SlotCall.sections, SlotCall.locked, SlotCall.readsRoot, SlotCall.submitted_some]

/-- A call that fails is over and waits no longer. -/
def SharedManager.step (c : SharedManager) : Section → Option SharedManager
  | .locked call answers =>
    match call.locked o (c.manager.answered answers) with
    | .ok r t => some ⟨t, c.waiting ++ [⟨call.readsRoot, r.1, r.2⟩], call.recorded c.stored⟩
    | .error _ t => some { c with manager := t }
  | .next k =>
    match c.waiting[k]? with
    | none => none
    | some w =>
      if w.reads_root then
        match get_merkle_root c.manager with
        | .ok _ t => some { c with
            manager := t, waiting := c.waiting.set k { w with reads_root := false } }
        | .error _ t => some { c with manager := t, waiting := c.waiting.eraseIdx k }
      else some { c with
        manager := after (update_merkle_tree_for_content o w.slot_indices w.content_hashes)
          c.manager
        waiting := c.waiting.eraseIdx k }

/-! ## What the answers of a write were -/

/-- The program that led from `s` to `t` has used `n` answers, or all there were, and each
was a success. -/
structure Spent (n : Nat) (s t : CapacityManager) : Prop where
  quiet : Quiet (s.answers.take n)
  rest : t.answers = s.answers.drop n

theorem Spent.trans {n k : Nat} {u : CapacityManager} (h : Spent n s t) (h' : Spent k t u) :
    Spent (n + k) s u := by
  refine ⟨fun a ha => ?_, ?_⟩
  · rw [List.take_add] at ha
    rcases List.mem_append.mp ha with ha | ha
    · exact h.quiet a ha
    · rw [← h.rest] at ha
      exact h'.quiet a ha
  · rw [h'.rest, h.rest, List.drop_drop]

theorem spent_of_nextAnswer (h : nextAnswer s = .ok .done t) : Spent 1 s t := by
  unfold nextAnswer at h
  cases hanswers : s.answers with
  | nil =>
    rw [hanswers] at h
    cases h
    refine ⟨?_, by rw [hanswers]; rfl⟩
    rw [hanswers]
    intro a ha
    cases ha
  | cons a rest =>
    rw [hanswers] at h
    cases h
    refine ⟨?_, by rw [hanswers]; rfl⟩
    rw [hanswers]
    intro a ha
    exact List.mem_singleton.mp ha

theorem spent_of_osCall {operation what : String} {r : Unit}
    (h : osCall operation what s = .ok r t) : Spent 1 s t := by
  obtain ⟨a, u, hnext, h⟩ := bind_ok h
  cases a with
  | done =>
    cases h
    exact spent_of_nextAnswer hnext
  | refused e => cases h
  | cut n e => cases h

theorem spent_of_openCapacityFile {operation what : String} {r : Unit}
    (h : openCapacityFile operation what s = .ok r t) : Spent 1 s t := by
  obtain ⟨_, u, hcall, h⟩ := bind_ok h
  obtain ⟨_, _, hget, h⟩ := bind_ok h
  cases hget
  cases hfile : u.disk.capacity_file with
  | none => rw [hfile] at h; cases h
  | some file =>
    rw [hfile] at h
    cases h
    exact spent_of_osCall hcall

theorem spent_of_writeAll {operation what : String} {offset : Nat} {data : Bytes} {r : Unit}
    (h : writeAll operation what offset data s = .ok r t) : Spent 1 s t := by
  obtain ⟨a, u, hnext, h⟩ := bind_ok h
  cases a with
  | done =>
    cases h
    have hspent := spent_of_nextAnswer hnext
    exact ⟨hspent.quiet, hspent.rest⟩
  | refused e => cases h
  | cut n e =>
    obtain ⟨_, _, _, h⟩ := bind_ok h
    cases h

theorem spent_of_write {i : Nat} {data : Bytes} {hash : Bytes32}
    (hm : s.slot_allocator.slot_map = some m)
    (h : write_chunk_to_slot o i data s = .ok hash t) : Spent 3 s t := by
  obtain ⟨m', u, href, h⟩ := bind_ok h
  obtain ⟨rfl, rfl⟩ := (slot_map_ref_ends hm).of_ok href
  cases hslot : m.slots[i]? with
  | none => rw [hslot] at h; cases h
  | some slot =>
    rw [hslot] at h
    simp only at h
    by_cases hsize : slot.size < data.length
    · rw [if_pos hsize] at h
      cases h
    · rw [if_neg hsize] at h
      obtain ⟨_, u, hopen, h⟩ := bind_ok h
      obtain ⟨_, v, hseek, h⟩ := bind_ok h
      obtain ⟨_, w, hwrite, h⟩ := bind_ok h
      cases h
      exact ((spent_of_openCapacityFile hopen).trans (spent_of_osCall hseek)).trans
        (spent_of_writeAll hwrite)

theorem spent_of_writeChunks (hm : s.slot_allocator.slot_map = some m)
    (hfile : s.disk.capacity_file = some file) (hl : Layout m file) {chunks : List Bytes}
    {indices : List Nat} {k : Nat} {r : List (Nat × Nat) × List Bytes32}
    (h : writeChunks o chunks indices k s = .ok r t) : Spent (3 * chunks.length) s t := by
  induction chunks generalizing s file indices k r with
  | nil =>
    cases h
    exact ⟨fun a ha => by simp at ha, rfl⟩
  | cons chunk chunks ih =>
    cases indices with
    | nil => cases h
    | cons i indices =>
      rw [writeChunks] at h
      by_cases hbig : MAX_CHUNK_SIZE < chunk.length
      · rw [if_pos hbig] at h
        cases h
      · rw [if_neg hbig] at h
        obtain ⟨hash, u, hwrite, h⟩ := bind_ok h
        obtain ⟨rest, v, hrest, h⟩ := bind_ok h
        cases h
        obtain ⟨slot, file', _, _, _, hu, htouched, _⟩ :=
          (write_chunk_to_slot_touches o hm hfile hl i _).of_ok hwrite
        have hspent := (spent_of_write o hm hwrite).trans (ih (hu.slot_allocator ▸ hm)
          hu.capacity_file (hl.of_length htouched.1) hrest)
        rw [List.length_cons, Nat.mul_add, Nat.mul_one, Nat.add_comm]
        exact hspent

/-- A content that was written fits its slots. -/
theorem Filled.chunksFit {indices : List Nat} {chunks : List Bytes}
    (h : Filled m indices chunks file) : ChunksFit m indices chunks := by
  intro p hp
  have hlen := h.fit p.2 (List.of_mem_zip hp).2
  have hbytes := h.holds p hp
  refine ⟨hlen, ?_⟩
  cases hslot : m.slots[p.1]? with
  | none =>
    unfold slotBytes at hbytes
    rw [hslot] at hbytes
    cases hbytes
  | some slot =>
    have hsize := length_of_slotBytes hslot hbytes
    rw [length_padTo hlen] at hsize
    exact ⟨slot, rfl, by omega⟩

/-! ## Built leaves under a section -/

theorem builtLeaf_restate {state : SlotState} {indices : List Nat} {file' : Bytes} {k : Nat}
    (hk : k ∉ indices) (hbytes : slotBytes m file' k = slotBytes m file k) :
    builtLeaf o x (m.restate state indices) file' k = builtLeaf o x m file k := by
  have hleaf : leafOf o (m.restate state indices) file' k = leafOf o m file k := by
    unfold leafOf
    rw [slotBytes_restate, hbytes]
  unfold builtLeaf
  rw [restate_get, hleaf]
  cases m.slots[k]? with
  | none => rfl
  | some slot =>
    rw [Option.map_some, if_neg hk]
    rfl

/-- The hashes of a placed content are the leaves that a build gives its slots. -/
theorem builtLeaves_holding {chunks : List Bytes} {file' : Bytes} (h : Placed m chunks file file')
    (id : Text) :
    setAll ((takenSlots m chunks).zip (chunkHashes o chunks)) (builtLeaves o x m file) =
      builtLeaves o x (m.holding o id chunks) file' := by
  have hfst : ((takenSlots m chunks).zip (chunkHashes o chunks)).map Prod.fst =
      takenSlots m chunks :=
    List.map_fst_zip (Nat.le_of_eq (length_takenSlots o h.filled.enough))
  unfold builtLeaves SlotMap.holding
  rw [length_restate]
  refine setAll_map_range (fun k hk => ?_) (fun w hw => ?_) _
  · rw [hfst] at hk
    exact builtLeaf_restate o hk (h.touched.2 k hk)
  · have hin := (List.of_mem_zip hw).1
    obtain ⟨slot, hslot, _⟩ := takenSlots_open hin
    rw [h.leaf_eq o hw]
    unfold builtLeaf leafOf
    rw [slotBytes_restate, restate_get, hslot, Option.map_some, if_pos hin]

theorem builtLeaves_released {sizes : List (Nat × Nat)} {file' : Bytes}
    (hin : ∀ p ∈ sizes, p.1 < m.slots.length)
    (htouched : Touched m (sizes.map Prod.fst) file file') :
    setAll ((sizes.map Prod.fst).zip (sizes.map (fun p => zeroHash o m p.1)))
        (builtLeaves o x m file) =
      builtLeaves o x (m.restate .Open (sizes.map Prod.fst)) file' := by
  have hfst : ((sizes.map Prod.fst).zip (sizes.map (fun p => zeroHash o m p.1))).map Prod.fst =
      sizes.map Prod.fst := List.map_fst_zip (by simp)
  unfold builtLeaves
  rw [length_restate]
  refine setAll_map_range (fun k hk => ?_) (fun w hw => ?_) _
  · rw [hfst] at hk
    exact builtLeaf_restate o hk (htouched.2 k hk)
  · rw [List.zip_map', List.mem_map] at hw
    obtain ⟨p, hp, rfl⟩ := hw
    obtain ⟨slot, hslot⟩ : ∃ slot, m.slots[p.1]? = some slot :=
      ⟨_, List.getElem?_eq_getElem (hin p hp)⟩
    have hnew : (m.restate .Open (sizes.map Prod.fst)).slots[p.1]? =
        some { slot with state := .Open } := by
      rw [restate_get, hslot, Option.map_some, if_pos (List.mem_map_of_mem hp)]
    simp only [builtLeaf, zeroHash, hnew, hslot, Option.map_some, Option.getD_some]

/-- A build does not see what is written to Open slots. -/
theorem builtLeaves_of_open {indices : List Nat} {file' : Bytes}
    (hopen : ∀ i ∈ indices, ∃ slot, m.slots[i]? = some slot ∧ slot.state = .Open)
    (htouched : Touched m indices file file') :
    builtLeaves o x m file' = builtLeaves o x m file := by
  unfold builtLeaves
  refine List.map_congr_left (fun k _ => ?_)
  unfold builtLeaf
  by_cases hk : k ∈ indices
  · obtain ⟨slot, hslot, hstate⟩ := hopen k hk
    rw [hslot]
    simp only [hstate]
  · unfold leafOf
    rw [htouched.2 k hk]

/-! ## Sections that stop -/

/-- A store that cannot write all its chunks marks no slot. -/
theorem storeSection_unmarked (hm : s.slot_allocator.slot_map = some m)
    (hfile : s.disk.capacity_file = some file) (hl : Layout m file) {id : Text}
    {chunks : List Bytes}
    (h : (openSlots m chunks.length).length < chunks.length ∨
      ¬ ChunksFit m (openSlots m chunks.length) chunks ∨
      ¬ Quiet (s.answers.take (3 * chunks.length))) :
    Ends (storeSection o id chunks) s (fun _ _ => False)
      (fun _ t => ∃ file' as, Touched m (takenSlots m chunks) file file' ∧
        t = s.moved m s.slot_allocator.content_slot_map file' s.disk.slots_file
          s.disk.content_slot_map_file as) := by
  unfold storeSection
  rw [ends_bind]
  refine (find_open_slots_ends hm chunks.length).mono ?_ ?_
  · rintro _ _ ⟨rfl, henough, rfl⟩
    rw [ends_bind]
    have hends := writeChunks_ends o hm hfile hl (openSlots_nodup m chunks.length) chunks 0
    cases hwrite : writeChunks o chunks (openSlots m chunks.length) 0 s with
    | ok r u =>
      obtain ⟨_, _, file', _, _, hfilled⟩ := hends.of_ok hwrite
      rcases h with hfew | hfit | hquiet
      · omega
      · exact absurd hfilled.chunksFit hfit
      · exact absurd (spent_of_writeChunks o hm hfile hl hwrite).quiet hquiet
    | error e u =>
      obtain ⟨⟨file', hu, htouched⟩, _⟩ := hends.of_error hwrite
      obtain ⟨as, _, rfl⟩ := hu.moved hm
      exact ends_of_error hwrite ⟨file', as, htouched, rfl⟩
  · rintro _ _ ⟨_, rfl⟩
    obtain ⟨as, _, heq⟩ := ((Used.refl s).wrote hfile).moved hm
    exact ⟨file, as, Touched.refl m _ file, heq⟩

/-! ## Calls in flight -/

/-- The slots and the file are sound, every content stands in its slots, and the updates
that wait turn the leaves of the tree into those of a build. -/
structure InFlight (x : ChunkSource) (c : SharedManager) (m : SlotMap) (file : Bytes)
    (leaves : List Bytes32) : Prop where
  slot_map : c.manager.slot_allocator.slot_map = some m
  capacity_file : c.manager.disk.capacity_file = some file
  nonempty : m.slots ≠ []
  layout : Layout m file
  owned : Owned m c.manager.slot_allocator.content_slot_map
  tree : c.manager.merkle_tree = some (treeOf o leaves)
  fits : ∀ w ∈ c.waiting, w.slot_indices.length = w.content_hashes.length ∧
    ∀ i ∈ w.slot_indices, i < m.slots.length
  updates : setAll (c.waiting.flatMap Waiting.writes) leaves = builtLeaves o x m file
  stored : ∀ id chunks, c.stored[id]? = some chunks → ∃ placed, placed.map Prod.snd = chunks ∧
    Stored c.manager m file id placed

variable {c c' : SharedManager} {leaves : List Bytes32}

theorem InFlight.length (h : InFlight o x c m file leaves) : leaves.length = m.slots.length := by
  have := congrArg List.length h.updates
  rw [length_setAll, length_builtLeaves] at this
  exact this

theorem InFlight.leaves_ne_nil (h : InFlight o x c m file leaves) : leaves ≠ [] := by
  intro hnil
  have := h.length
  rw [hnil] at this
  exact h.nonempty (List.length_eq_zero_iff.mp this.symm)

theorem InFlight.answered (h : InFlight o x c m file leaves) (as : List Answer) :
    InFlight o x { c with manager := c.manager.answered as } m file leaves where
  slot_map := h.slot_map
  capacity_file := h.capacity_file
  nonempty := h.nonempty
  layout := h.layout
  owned := h.owned
  tree := h.tree
  fits := h.fits
  updates := h.updates
  stored := by
    intro id chunks hid
    obtain ⟨placed, hplaced, hstored⟩ := h.stored id chunks hid
    exact ⟨placed, hplaced, hstored.listed, hstored.holds, hstored.fit⟩

theorem InFlight.used (h : InFlight o x c m file leaves) (hused : Used c.manager t) :
    InFlight o x { c with manager := t } m file leaves := by
  obtain ⟨as, _, rfl⟩ := hused
  exact h.answered o as

variable {sf : Option (JsonFile SlotMap)} {cf : Option (JsonFile ContentSlotMap)}
  {as : List Answer} {file' : Bytes}

/-- After the section of a store the new content waits for its leaves. -/
theorem InFlight.stored_section (h : InFlight o x c m file leaves) {id : Text}
    {chunks : List Bytes} (hplaced : Placed m chunks file file') :
    InFlight o x
      ⟨c.manager.moved (m.holding o id chunks)
          (c.manager.slot_allocator.content_slot_map.insert id (takenSizes m chunks)) file' sf cf as,
        c.waiting ++ [⟨false, takenSlots m chunks, chunkHashes o chunks⟩],
        c.stored.insert id chunks⟩ (m.holding o id chunks) file' leaves where
  slot_map := rfl
  capacity_file := rfl
  nonempty := ne_nil_restate h.nonempty _ _
  layout := (h.layout.of_length hplaced.touched.1).restate _ _
  owned := h.owned.store o id chunks
  tree := h.tree
  fits := by
    intro w hw
    have hlen : (m.holding o id chunks).slots.length = m.slots.length := length_restate _ _ m
    rw [hlen]
    rcases List.mem_append.mp hw with hw | hw
    · exact h.fits w hw
    · rw [List.mem_singleton] at hw
      subst hw
      exact ⟨length_takenSlots o hplaced.filled.enough, fun i => takenSlots_lt⟩
  updates := by
    rw [List.flatMap_append, setAll_append, h.updates]
    exact (congrArg (fun ws => setAll ws (builtLeaves o x m file)) (List.append_nil _)).trans
      (builtLeaves_holding o hplaced id)
  stored := by
    intro id' chunks' hid
    rw [get_insert] at hid
    by_cases heq : id = id'
    · rw [if_pos heq] at hid
      cases hid
      subst heq
      exact ⟨_, List.map_snd_zip hplaced.filled.enough, hplaced.stored o id⟩
    · rw [if_neg heq] at hid
      obtain ⟨placed, hmap, hstored⟩ := h.stored id' chunks' hid
      exact ⟨placed, hmap, hstored.store o h.owned heq hplaced⟩

/-- After the section of a delete the zeros wait for their leaves. -/
theorem InFlight.deleted_section (h : InFlight o x c m file leaves) {id : Text}
    {sizes : List (Nat × Nat)}
    (hid : c.manager.slot_allocator.content_slot_map[id]? = some sizes)
    (htouched : Touched m (sizes.map Prod.fst) file file') :
    InFlight o x
      ⟨c.manager.moved (m.restate .Open (sizes.map Prod.fst))
          (c.manager.slot_allocator.content_slot_map.erase id) file' sf cf as,
        c.waiting ++ [⟨true, sizes.map Prod.fst, sizes.map (fun p => zeroHash o m p.1)⟩],
        c.stored.erase id⟩ (m.restate .Open (sizes.map Prod.fst)) file' leaves where
  slot_map := rfl
  capacity_file := rfl
  nonempty := ne_nil_restate h.nonempty _ _
  layout := (h.layout.of_length htouched.1).restate _ _
  owned := h.owned.delete hid
  tree := h.tree
  fits := by
    intro w hw
    rw [length_restate]
    rcases List.mem_append.mp hw with hw | hw
    · exact h.fits w hw
    · rw [List.mem_singleton] at hw
      subst hw
      refine ⟨by simp, fun i hi => ?_⟩
      obtain ⟨p, hp, rfl⟩ := List.mem_map.mp hi
      exact h.owned.lt hid hp
  updates := by
    rw [List.flatMap_append, setAll_append, h.updates]
    exact (congrArg (fun ws => setAll ws (builtLeaves o x m file)) (List.append_nil _)).trans
      (builtLeaves_released o (fun p hp => h.owned.lt hid hp) htouched)
  stored := by
    intro id' chunks' hid'
    rw [ExtTreeMap.getElem?_erase] at hid'
    by_cases heq : compare id id' = .eq
    · rw [if_pos heq] at hid'
      cases hid'
    · rw [if_neg heq] at hid'
      have hne : id ≠ id' := by
        rintro rfl
        exact heq ReflCmp.compare_self
      obtain ⟨placed, hmap, hstored⟩ := h.stored id' chunks' hid'
      exact ⟨placed, hmap, hstored.delete h.owned hne hid htouched⟩

/-- A store that marked nothing has changed the bytes of Open slots only. -/
theorem InFlight.unmarked (h : InFlight o x c m file leaves) {chunks : List Bytes}
    (htouched : Touched m (takenSlots m chunks) file file') :
    InFlight o x
      ⟨c.manager.moved m c.manager.slot_allocator.content_slot_map file' sf cf as, c.waiting,
        c.stored⟩ m file' leaves where
  slot_map := rfl
  capacity_file := rfl
  nonempty := h.nonempty
  layout := h.layout.of_length htouched.1
  owned := h.owned
  tree := h.tree
  fits := h.fits
  updates := by
    rw [builtLeaves_of_open o (fun i hi => takenSlots_open hi) htouched]
    exact h.updates
  stored := by
    intro id chunks' hid
    obtain ⟨placed, hmap, hstored⟩ := h.stored id chunks' hid
    refine ⟨placed, hmap, hstored.listed, fun p hp => ?_, hstored.fit⟩
    rw [htouched.2 p.1 (hstored.not_taken h.owned hp chunks)]
    exact hstored.holds p hp

/-! ## Steady sections -/

/-- A section under the allocator's lock that either goes through or stops before it has
marked a slot or zeroed a byte; and a tree update that overtakes no call that waits with one
of its slots. -/
def Steady (c : SharedManager) : Section → Prop
  | .locked (.store _ chunks) answers => Quiet answers ∨
      ∀ m, c.manager.slot_allocator.slot_map = some m →
        (openSlots m chunks.length).length < chunks.length ∨
        ¬ ChunksFit m (openSlots m chunks.length) chunks ∨
        ¬ Quiet (answers.take (3 * chunks.length))
  | .locked (.delete id) answers => Quiet answers ∨
      ∀ sizes, c.manager.slot_allocator.content_slot_map[id]? = some sizes →
        sizes ≠ [] ∧ stopsEarly answers = true
  | .next k => ∀ w, c.waiting[k]? = some w → w.reads_root = false →
      ∀ v ∈ c.waiting.take k, ∀ i ∈ v.slot_indices, i ∉ w.slot_indices

/-- Some slots, file and leaves are in flight. -/
def Converging (x : ChunkSource) (c : SharedManager) : Prop :=
  ∃ m file leaves, InFlight o x c m file leaves

theorem InFlight.store_step (h : InFlight o x c m file leaves) {id : Text} {chunks : List Bytes}
    {answers : List Answer} (hsteady : Steady c (.locked (.store id chunks) answers))
    (hstep : c.step o (.locked (.store id chunks) answers) = some c') : Converging o x c' := by
  have h' := h.answered o answers
  have hends := storeSection_ends o h'.slot_map h'.capacity_file h'.layout id chunks
  -- a store that stops has marked nothing
  have hstop : ∀ e u, storeSection o id chunks (c.manager.answered answers) = .error e u →
      ∃ file' as, Touched m (takenSlots m chunks) file file' ∧
        u = (c.manager.answered answers).moved m c.manager.slot_allocator.content_slot_map file'
          c.manager.disk.slots_file c.manager.disk.content_slot_map_file as := by
    intro e u herror
    rcases hsteady with hquiet | hsteady
    · rcases hends.of_error herror with ⟨file', as, _, htouched, rfl, _⟩ | ⟨hnot, _⟩
      · exact ⟨file', as, htouched, rfl⟩
      · exact absurd hquiet hnot
    · exact (storeSection_unmarked o h'.slot_map h'.capacity_file h'.layout
        (hsteady m h.slot_map)).of_error herror
  unfold SharedManager.step SlotCall.locked at hstep
  simp only at hstep
  cases hsection : storeSection o id chunks (c.manager.answered answers) with
  | ok r u =>
    rw [hsection] at hstep
    cases hstep
    obtain ⟨rfl, file', as, _, hplaced, rfl⟩ := hends.of_ok hsection
    exact ⟨_, _, _, h'.stored_section o hplaced⟩
  | error e u =>
    rw [hsection] at hstep
    cases hstep
    obtain ⟨file', as, htouched, rfl⟩ := hstop e u hsection
    exact ⟨_, _, _, h'.unmarked o htouched⟩

theorem InFlight.delete_step (h : InFlight o x c m file leaves) {id : Text}
    {answers : List Answer} (hsteady : Steady c (.locked (.delete id) answers))
    (hstep : c.step o (.locked (.delete id) answers) = some c') : Converging o x c' := by
  have h' := h.answered o answers
  unfold SharedManager.step SlotCall.locked at hstep
  simp only at hstep
  cases hid : c.manager.slot_allocator.content_slot_map[id]? with
  | none =>
    have hends := deleteSection_unknown o (s := c.manager.answered answers) hid
    cases hsection : deleteSection o id (c.manager.answered answers) with
    | ok r u => exact (hends.of_ok hsection).elim
    | error e u =>
      rw [hsection] at hstep
      cases hstep
      have hu := hends.of_error hsection
      subst hu
      exact ⟨_, _, _, h'⟩
  | some sizes =>
    have hends := deleteSection_ends o h'.slot_map h'.capacity_file h'.layout hid
      (fun p hp => h.owned.lt hid hp)
    cases hsection : deleteSection o id (c.manager.answered answers) with
    | ok r u =>
      rw [hsection] at hstep
      cases hstep
      obtain ⟨rfl, file', as, _, htouched, _, rfl⟩ := hends.of_ok hsection
      exact ⟨_, _, _, h'.deleted_section o hid htouched⟩
    | error e u =>
      rw [hsection] at hstep
      cases hstep
      rcases hsteady with hquiet | hsteady
      · exact absurd hquiet (hends.of_error hsection).1
      · obtain ⟨hne, hearly⟩ := hsteady sizes hid
        have hused := (deleteSection_refused o h'.slot_map h'.capacity_file hid hne
          (Or.inl hearly)).of_error hsection
        exact ⟨_, _, _, h'.used o hused⟩

theorem split_at {A : Type} {l : List A} {k : Nat} {a : A} (h : l[k]? = some a) :
    l = l.take k ++ a :: l.drop (k + 1) := by
  obtain ⟨hlt, rfl⟩ := List.getElem?_eq_some_iff.mp h
  rw [← List.drop_eq_getElem_cons hlt, List.take_append_drop]

/-- Reading the root leaves the updates as they are. -/
theorem InFlight.rooted (h : InFlight o x c m file leaves) {k : Nat} {w : Waiting}
    (hk : c.waiting[k]? = some w) :
    InFlight o x { c with waiting := c.waiting.set k { w with reads_root := false } } m file
      leaves := by
  have hlt := (List.getElem?_eq_some_iff.mp hk).1
  have hset : c.waiting.set k { w with reads_root := false } =
      c.waiting.take k ++ { w with reads_root := false } :: c.waiting.drop (k + 1) := by
    rw [List.set_eq_take_append_cons_drop, if_pos hlt]
  refine ⟨h.slot_map, h.capacity_file, h.nonempty, h.layout, h.owned, h.tree, ?_, ?_, h.stored⟩
  · intro v hv
    rcases List.mem_or_eq_of_mem_set hv with hv | rfl
    · exact h.fits v hv
    · exact h.fits w (List.mem_of_getElem? hk)
  · have hupdates := h.updates
    rw [split_at hk, List.flatMap_append, List.flatMap_cons] at hupdates
    rw [hset, List.flatMap_append, List.flatMap_cons]
    exact hupdates

/-- An update that overtakes no slot of its own can be done first. -/
theorem InFlight.updated (h : InFlight o x c m file leaves) {k : Nat} {w : Waiting}
    (hk : c.waiting[k]? = some w)
    (hfree : ∀ v ∈ c.waiting.take k, ∀ i ∈ v.slot_indices, i ∉ w.slot_indices) :
    InFlight o x
      { c with
        manager := after (update_merkle_tree_for_content o w.slot_indices w.content_hashes)
          c.manager
        waiting := c.waiting.eraseIdx k } m file (setAll w.writes leaves) := by
  obtain ⟨hlen, hin⟩ := h.fits w (List.mem_of_getElem? hk)
  have hupdate := update_merkle_tree_for_content_eq o h.tree h.leaves_ne_nil hlen
    (by rw [h.length]; exact hin)
  rw [after_of_ok hupdate]
  refine ⟨h.slot_map, h.capacity_file, h.nonempty, h.layout, h.owned, rfl, ?_, ?_, ?_⟩
  · intro v hv
    exact h.fits v (List.mem_of_mem_eraseIdx hv)
  · have hupdates := h.updates
    rw [split_at hk, List.flatMap_append, List.flatMap_cons, setAll_append, setAll_append]
      at hupdates
    rw [List.eraseIdx_eq_take_drop_succ, List.flatMap_append, setAll_append, ← hupdates]
    refine congrArg (setAll ((c.waiting.drop (k + 1)).flatMap Waiting.writes)) ?_
    refine setAll_comm (fun v hv u hu heq => ?_) leaves
    obtain ⟨v', hv', hmem⟩ := List.mem_flatMap.mp hv
    refine hfree v' hv' v.1 (List.of_mem_zip hmem).1 ?_
    rw [heq]
    exact (List.of_mem_zip hu).1
  · intro id chunks hid
    obtain ⟨placed, hmap, hstored⟩ := h.stored id chunks hid
    exact ⟨placed, hmap, hstored.listed, hstored.holds, hstored.fit⟩

theorem InFlight.next_step (h : InFlight o x c m file leaves) {k : Nat}
    (hsteady : Steady c (.next k)) (hstep : c.step o (.next k) = some c') : Converging o x c' := by
  unfold SharedManager.step at hstep
  simp only at hstep
  cases hk : c.waiting[k]? with
  | none => rw [hk] at hstep; cases hstep
  | some w =>
    rw [hk] at hstep
    simp only at hstep
    by_cases hroot : w.reads_root = true
    · rw [if_pos hroot] at hstep
      cases hget : get_merkle_root c.manager with
      | ok root u =>
        rw [hget] at hstep
        cases hstep
        have hu := (get_merkle_root_ends _).of_ok hget
        subst hu
        exact ⟨_, _, _, h.rooted o hk⟩
      | error e u =>
        have hnone := ((get_merkle_root_ends _).of_error hget).1
        rw [h.tree] at hnone
        cases hnone
    · rw [if_neg hroot] at hstep
      cases hstep
      exact ⟨_, _, _, h.updated o hk (hsteady w hk (Bool.not_eq_true _ ▸ hroot))⟩

theorem Converging.step (h : Converging o x c) {e : Section} (hsteady : Steady c e)
    (hstep : c.step o e = some c') : Converging o x c' := by
  obtain ⟨m, file, leaves, h⟩ := h
  cases e with
  | locked call answers =>
    cases call with
    | store id chunks => exact h.store_step o hsteady hstep
    | delete id => exact h.delete_step o hsteady hstep
  | next k => exact h.next_step o hsteady hstep

/-! ## Runs -/

/-- No slot has two owners, every content that was stored and not deleted reads back as its
chunks, and the tree is the one that `build_merkle_tree` gives. -/
def Converged (x : ChunkSource) (c : SharedManager) : Prop :=
  (∀ (id id' : Text) (sizes sizes' : List (Nat × Nat)),
    c.manager.slot_allocator.content_slot_map[id]? = some sizes →
    c.manager.slot_allocator.content_slot_map[id']? = some sizes' →
    ∀ p ∈ sizes, ∀ q ∈ sizes', p.1 = q.1 → id = id') ∧
  (∀ id chunks, c.stored[id]? = some chunks → ∀ as, Quiet as → ∃ v,
    get_content_from_slots id (c.manager.answered as) = .ok (some chunks.flatten) v) ∧
  ∃ m tree, c.manager.slot_allocator.slot_map = some m ∧ c.manager.merkle_tree = some tree ∧
    ∃ t, build_merkle_tree o x m (c.manager.answered []) = .ok tree t

/-- When no call waits any more, what was in flight has converged. -/
theorem InFlight.converged (h : InFlight o x c m file leaves) (hdone : c.waiting = []) :
    Converged o x c := by
  refine ⟨?_, ?_, ?_⟩
  · intro id id' sizes sizes' hid hid' p hp q hq heq
    by_contra hne
    refine h.owned.disjoint hid hid' hne hp ?_
    rw [heq]
    exact List.mem_map_of_mem hq
  · intro id chunks hid as hquiet
    obtain ⟨placed, rfl, hstored⟩ := h.stored id chunks hid
    have hread : Ends (get_content_from_slots id) (c.manager.answered as)
        (fun r _ => r = some (placed.map Prod.snd).flatten) (fun _ _ => ¬ Quiet as) :=
      Stored.read (s := c.manager.answered as) h.slot_map h.capacity_file
        ⟨hstored.listed, hstored.holds, hstored.fit⟩
    cases hget : get_content_from_slots id (c.manager.answered as) with
    | ok r v => exact ⟨v, by rw [hread.of_ok hget]⟩
    | error e v => exact absurd hquiet (hread.of_error hget)
  · have hends := build_merkle_tree_built o (s := c.manager.answered []) (x := x) h.capacity_file
      h.layout h.nonempty
    have hupdates := h.updates
    rw [hdone] at hupdates
    refine ⟨m, _, h.slot_map, h.tree, ?_⟩
    cases hbuild : build_merkle_tree o x m (c.manager.answered []) with
    | ok tree t =>
      obtain ⟨_, rfl⟩ := hends.of_ok hbuild
      rw [← hupdates]
      exact ⟨t, rfl⟩
    | error e t => exact absurd (fun a ha => by cases ha) (hends.of_error hbuild).2

/-- From an allocation on, calls whose sections are steady converge in every order, once all
of them have returned. -/
theorem concurrent_calls_converge {s₀ s₁ : CapacityManager} {capacity : Nat}
    {seed root : Bytes32} (halloc : allocate_capacity_internal o x capacity seed s₀ = .ok root s₁)
    (hempty : s₀.slot_allocator.content_slot_map = ∅) {sections : List Section}
    (hrun : runs.run (SharedManager.step o) sections ⟨s₁, [], ∅⟩ = some c)
    (hsteady : ∀ p ∈ runs.visits (SharedManager.step o) sections ⟨s₁, [], ∅⟩, Steady p.1 p.2)
    (hdone : c.waiting = []) : Converged o x c := by
  obtain ⟨m, file, hmirror, _, _, hsame, _⟩ := allocate_capacity_internal_mirror o halloc
  have hstart : Converging o x ⟨s₁, [], ∅⟩ := by
    refine ⟨m, file, leavesOf o m file, hmirror.slot_map, hmirror.capacity_file,
      hmirror.nonempty, hmirror.layout, ?_, hmirror.tree, ?_, ?_, ?_⟩
    · rw [hsame, hempty]
      exact owned_empty m
    · intro w hw
      cases hw
    · exact (builtLeaves_of_truthful o hmirror.truthful).symm
    · intro id chunks hid
      rw [ExtTreeMap.getElem?_empty] at hid
      cases hid
  have hend : Converging o x c := by
    refine runs.run_induction (SharedManager.step o)
      (fun es c => (∀ p ∈ runs.visits (SharedManager.step o) es ⟨s₁, [], ∅⟩, Steady p.1 p.2) →
        Converging o x c) (fun _ => hstart) ?_ hrun hsteady
    intro es c e c' hr ih hs hall
    rw [runs.visits_snoc _ e hr] at hall
    exact (ih (fun p hp => hall p (List.mem_append_left _ hp))).step o
      (hall (c, e) (List.mem_append_right _ (List.mem_singleton.mpr rfl))) hs
  obtain ⟨m, file, leaves, h⟩ := hend
  exact h.converged o hdone

/-- Two stores at the same time, and a delete after them. -/
def steadyRun : List Section :=
  [.locked (.store ['a'] [[1, 2, 3]]) [], .locked (.store ['b'] [[9]]) [], .next 0, .next 0,
    .locked (.delete ['a']) [], .next 0, .next 0]

theorem concurrent_calls_converge_in_order :
    ∃ root s₁ c, allocate_capacity_internal .openSlots .sevens 2048 3 .fresh = .ok root s₁ ∧
      runs.run (SharedManager.step .openSlots) steadyRun ⟨s₁, [], ∅⟩ = some c ∧
      c.waiting = [] ∧ Converged .openSlots .sevens c := by
  have hrun : ((resultOf (allocate_capacity_internal .openSlots .sevens 2048 3) .fresh).bind
      (fun a => (runs.run (SharedManager.step .openSlots) steadyRun ⟨a.2, [], ∅⟩).map
        (fun c => c.waiting.isEmpty))).any (fun b => b) = true := by decide +kernel
  obtain ⟨b, hb, hdone⟩ := (Option.any_eq_true _ _).mp hrun
  obtain ⟨a, ha, hb⟩ := Option.bind_eq_some_iff.mp hb
  obtain ⟨c, hc, rfl⟩ := Option.map_eq_some_iff.mp hb
  have hwaiting := List.isEmpty_iff.mp hdone
  refine ⟨a.1, a.2, c, eq_ok_of_resultOf ha, hc, hwaiting,
    concurrent_calls_converge .openSlots (eq_ok_of_resultOf ha) rfl hc ?_ hwaiting⟩
  have hquiet : Quiet [] := fun a ha => by cases ha
  -- no section of this run waits behind another
  have hsteady : ∀ e ∈ steadyRun, ∀ c, Steady c e := by
    intro e he c
    simp only [steadyRun, List.mem_cons, List.not_mem_nil, or_false] at he
    rcases he with rfl | rfl | rfl | rfl | rfl | rfl | rfl
    · exact Or.inl hquiet
    · exact Or.inl hquiet
    · intro w _ _ v hv
      cases hv
    · intro w _ _ v hv
      cases hv
    · exact Or.inl hquiet
    · intro w _ _ v hv
      cases hv
    · intro w _ _ v hv
      cases hv
  intro p hp
  obtain ⟨fs, _, hearlier⟩ := runs.mem_visits _ hp
  exact hsteady p.2 (hearlier.subset (by simp)) p.1

/-! ## A delete that overtakes a store -/

/-- A content is deleted while its store still waits for the tree. -/
def overtakingRun : List Section :=
  [.locked (.store ['a'] [[1, 2, 3]]) [], .locked (.delete ['a']) [], .next 1, .next 1, .next 0]

/-- The tree that a build gives has other leaves than the tree in memory. -/
def staleLeaf (x : ChunkSource) (c : SharedManager) : Bool :=
  match c.manager.slot_allocator.slot_map, c.manager.merkle_tree with
  | some m, some tree =>
    (resultOf (build_merkle_tree o x m) (c.manager.answered [])).any
      (fun r => r.1.leaves != tree.leaves)
  | _, _ => false

theorem not_converged_of_staleLeaf (h : staleLeaf o x c = true) : ¬ Converged o x c := by
  rintro ⟨_, _, m, tree, hm, htree, t, hbuild⟩
  unfold staleLeaf at h
  rw [hm, htree] at h
  simp only at h
  obtain ⟨r, hr, hleaves⟩ := (Option.any_eq_true _ _).mp h
  have hok := eq_ok_of_resultOf hr
  rw [hbuild] at hok
  cases hok
  simp at hleaves

/-- The hash of the deleted chunk comes last into the tree and stays there. -/
theorem overtaken_store_leaves_stale_leaf :
    ∃ root s₁ c, allocate_capacity_internal .openSlots .sevens 2048 3 .fresh = .ok root s₁ ∧
      runs.run (SharedManager.step .openSlots) overtakingRun ⟨s₁, [], ∅⟩ = some c ∧
      c.waiting = [] ∧ ¬ Converged .openSlots .sevens c := by
  have hrun : ((resultOf (allocate_capacity_internal .openSlots .sevens 2048 3) .fresh).bind
      (fun a => (runs.run (SharedManager.step .openSlots) overtakingRun ⟨a.2, [], ∅⟩).map
        (fun c => c.waiting.isEmpty && staleLeaf .openSlots .sevens c))).any (fun b => b) =
      true := by decide +kernel
  obtain ⟨b, hb, hstale⟩ := (Option.any_eq_true _ _).mp hrun
  obtain ⟨a, ha, hb⟩ := Option.bind_eq_some_iff.mp hb
  obtain ⟨c, hc, rfl⟩ := Option.map_eq_some_iff.mp hb
  obtain ⟨hdone, hstale⟩ := (Bool.and_eq_true _ _).mp hstale
  exact ⟨a.1, a.2, c, eq_ok_of_resultOf ha, hc, List.isEmpty_iff.mp hdone,
    not_converged_of_staleLeaf .openSlots hstale⟩

end eld_chain
