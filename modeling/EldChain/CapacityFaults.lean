-- The mirror under faults: a call that is stopped before it has written its
-- first byte changes nothing, and a call that nothing stops keeps the
-- mirror. Between the two the file, the slot map and the tree are left at
-- odds, since each of them is updated in a step of its own.
import EldChain.SlotOwnership

open Std

namespace eld_chain

open fallible regions hash_tree CapacityProofMerkleTree

variable (o : Outside) {x : ChunkSource}
variable {s t : CapacityManager} {m : SlotMap} {file : Bytes}

/-! ## The tree mirrors the file -/

/-- The tree in memory is the one that `build_merkle_tree` gives, each leaf is the hash of
the bytes of its slot, and an Open slot holds zeros only. -/
def MirrorsFile (x : ChunkSource) (s : CapacityManager) : Prop :=
  ∃ m file tree, s.slot_allocator.slot_map = some m ∧ s.disk.capacity_file = some file ∧
    s.merkle_tree = some tree ∧
    (∃ t, build_merkle_tree o x m (s.answered []) = .ok tree t) ∧
    tree.leaves.length = m.slots.length ∧
    ∀ (k : Nat) (slot : Slot), m.slots[k]? = some slot →
      ∃ data, readAt file slot.offset slot.size = some data ∧
        tree.leaves[k]? = some (hash_chunk o data) ∧
        (slot.state = .Open → data = zeros slot.size)

theorem Mirror.mirrorsFile (h : Mirror o x s m file) : MirrorsFile o x s := by
  refine ⟨m, file, _, h.slot_map, h.capacity_file, h.tree, ?_, length_leavesOf o m file, ?_⟩
  · have hends := build_merkle_tree_ends o (s := s.answered []) (x := x) h.capacity_file h.layout
      h.truthful h.nonempty
    cases hbuild : build_merkle_tree o x m (s.answered []) with
    | ok tree t =>
      obtain ⟨_, rfl⟩ := hends.of_ok hbuild
      exact ⟨t, rfl⟩
    | error e t => exact absurd (fun a ha => by cases ha) (hends.of_error hbuild).2
  · intro k slot hk
    have hlt := (List.getElem?_eq_some_iff.mp hk).1
    have hbytes := h.layout.slotBytes hk
    have hread : readAt file slot.offset slot.size =
        some ((file.drop slot.offset).take slot.size) := readAt_of_le (h.layout.fits k slot hk)
    refine ⟨_, hread, ?_, fun hopen => ?_⟩
    · rw [← leafOf_eq o hbytes]
      exact leavesOf_get o hlt
    · have hzero := (h.truthful k slot hk).1 hopen
      rw [hbytes] at hzero
      exact Option.some.inj hzero

/-! ## Stopped before the first byte -/

/-- The answers stop a write before its first byte: the file cannot be opened, the offset
cannot be reached, or nothing is written. -/
def stopsEarly : List Answer → Bool
  | [] => false
  | .refused _ :: _ => true
  | .cut _ _ :: _ => true
  | .done :: rest =>
    match rest with
    | [] => false
    | .refused _ :: _ => true
    | .cut _ _ :: _ => true
    | .done :: rest' =>
      match rest' with
      | .refused _ :: _ => true
      | .cut 0 _ :: _ => true
      | _ => false

theorem osCall_of_done {operation what : String} {rest : List Answer}
    (h : s.answers = .done :: rest) : osCall operation what s = .ok () (s.answered rest) := by
  have hnext : nextAnswer s = .ok .done (s.answered rest) := by
    unfold nextAnswer
    rw [h]
    rfl
  unfold osCall
  rw [bind_of_ok _ hnext]
  rfl

theorem osCall_of_failure (operation what : String) {a : Answer} {rest : List Answer}
    (h : s.answers = a :: rest) (ha : a ≠ .done) :
    ∃ e, osCall operation what s = .error e (s.answered rest) := by
  have hnext : nextAnswer s = .ok a (s.answered rest) := by
    unfold nextAnswer
    rw [h]
    rfl
  unfold osCall
  rw [bind_of_ok _ hnext]
  cases a with
  | done => exact absurd rfl ha
  | refused e => exact ⟨_, rfl⟩
  | cut n e => exact ⟨_, rfl⟩

theorem used_of_cons {a : Answer} {rest : List Answer} (h : s.answers = a :: rest) :
    Used s (s.answered rest) := ⟨rest, by rw [h]; exact List.suffix_cons a rest, rfl⟩

/-- A write to a slot that stops early changes nothing. -/
theorem write_chunk_to_slot_early (hm : s.slot_allocator.slot_map = some m)
    (hfile : s.disk.capacity_file = some file) (hearly : stopsEarly s.answers = true) (i : Nat)
    (data : Bytes) :
    Ends (write_chunk_to_slot o i data) s (fun _ _ => False) (fun _ t => Used s t) := by
  unfold write_chunk_to_slot
  rw [ends_bind]
  refine (slot_map_ref_ends hm).mono ?_ (fun _ _ h => h.elim)
  rintro _ _ ⟨rfl, rfl⟩
  cases m.slots[i]? with
  | none => exact Used.refl s
  | some slot =>
    by_cases hsize : slot.size < data.length
    · simp only [if_pos hsize]
      exact Used.refl s
    · simp only [if_neg hsize]
      unfold openCapacityFile
      rw [ends_bind, ends_bind]
      -- the answers are looked at one by one
      cases hanswers : s.answers with
      | nil => rw [hanswers] at hearly; cases hearly
      | cons a rest =>
        have hused := used_of_cons hanswers
        by_cases ha : a = .done
        · subst ha
          refine ends_of_ok (osCall_of_done hanswers) ?_
          rw [ends_bind, ends_get]
          have hfile' : (s.answered rest).disk.capacity_file = some file := hfile
          rw [hfile']
          simp only
          rw [ends_pure, ends_bind]
          cases hrest : rest with
          | nil => rw [hanswers, hrest] at hearly; cases hearly
          | cons b rest' =>
            have hanswers' : (s.answered (b :: rest')).answers = b :: rest' := rfl
            have hused' := used_of_cons hanswers'
            rw [hrest] at hused
            by_cases hb : b = .done
            · subst hb
              refine ends_of_ok (osCall_of_done hanswers') ?_
              rw [ends_bind]
              unfold writeAll
              rw [ends_bind]
              rw [hanswers, hrest] at hearly
              cases rest' with
              | nil => cases hearly
              | cons d rest'' =>
                have hnext : nextAnswer (((s.answered (Answer.done :: d :: rest''))).answered
                    (d :: rest'')) = .ok d (s.answered rest'') := rfl
                refine ends_of_ok hnext ?_
                have hused'' : Used s (s.answered rest'') := by
                  refine ⟨rest'', ?_, rfl⟩
                  rw [hanswers, hrest]
                  exact ⟨[.done, .done, d], rfl⟩
                cases d with
                | done => cases hearly
                | refused e => exact hused''
                | cut n e =>
                  cases n with
                  | succ n => cases hearly
                  | zero =>
                    simp only [List.take_zero]
                    rw [ends_bind, ends_modify]
                    have hsame : (s.answered rest'').setCapacityFile
                        (writeAt 0 (s.answered rest'').capacityBytes slot.offset []) =
                        s.answered rest'' := by
                      unfold writeAt CapacityManager.setCapacityFile CapacityManager.capacityBytes
                      rw [if_pos rfl]
                      unfold CapacityManager.answered
                      simp only [hfile, Option.getD_some]
                      rw [← hfile]
                    rw [hsame]
                    exact hused''
            · obtain ⟨e, he⟩ := osCall_of_failure "write_chunk_to_slot"
                "Failed to seek to slot offset" hanswers' hb
              exact ends_of_error he (hused.trans hused')
        · obtain ⟨e, he⟩ := osCall_of_failure "write_chunk_to_slot"
            "Failed to open capacity file" hanswers ha
          exact ends_of_error he hused

/-! ## Whole calls -/

/-- The first chunk is not begun: it is too large, its slot is too small, or the first write
stops early. -/
def FirstRefused (m : SlotMap) (chunks : List Bytes) (answers : List Answer) : Prop :=
  ∃ chunk i, chunks.head? = some chunk ∧ (openSlots m chunks.length).head? = some i ∧
    (MAX_CHUNK_SIZE < chunk.length ∨
      (∃ slot, m.slots[i]? = some slot ∧ slot.size < MAX_CHUNK_SIZE) ∨
      stopsEarly answers = true)

/-- A call that is either over before its first byte is written, or has chunks that fit and
no fault. A store of no chunks and a delete of no slots write nothing at all. -/
def Whole (s : CapacityManager) : SlotCall × List Answer → Prop
  | (.store _ chunks, answers) => ∀ m, s.slot_allocator.slot_map = some m →
      chunks = [] ∨ (openSlots m chunks.length).length < chunks.length ∨
      FirstRefused m chunks answers ∨
      (Quiet answers ∧ ChunksFit m (openSlots m chunks.length) chunks)
  | (.delete id, answers) => ∀ sizes, s.slot_allocator.content_slot_map[id]? = some sizes →
      sizes = [] ∨ stopsEarly answers = true ∨ Quiet answers

theorem writeChunks_refused (hm : s.slot_allocator.slot_map = some m)
    (hfile : s.disk.capacity_file = some file) {chunks : List Bytes}
    (h : FirstRefused m chunks s.answers) :
    Ends (writeChunks o chunks (openSlots m chunks.length) 0) s (fun _ _ => False)
      (fun _ t => Used s t) := by
  obtain ⟨chunk, i, hchunk, hi, hwhy⟩ := h
  cases chunks with
  | nil => cases hchunk
  | cons c rest =>
    cases hchunk
    cases hindices : openSlots m (chunk :: rest).length with
    | nil => rw [hindices] at hi; cases hi
    | cons k indices =>
      rw [hindices] at hi
      cases hi
      rw [writeChunks]
      by_cases hbig : MAX_CHUNK_SIZE < chunk.length
      · rw [if_pos hbig]
        exact Used.refl s
      · rw [if_neg hbig, ends_bind]
        rcases hwhy with hbig' | ⟨slot, hslot, hsmall⟩ | hearly
        · exact absurd hbig' hbig
        · have hpad : (padTo MAX_CHUNK_SIZE chunk).length = MAX_CHUNK_SIZE :=
            length_padTo (by omega)
          unfold write_chunk_to_slot
          rw [ends_bind]
          refine (slot_map_ref_ends hm).mono ?_ (fun _ _ h => h.elim)
          rintro _ _ ⟨rfl, rfl⟩
          rw [hslot]
          simp only [hpad, if_pos hsmall]
          exact Used.refl s
        · exact (write_chunk_to_slot_early o hm hfile hearly i _).mono (fun _ _ h => h.elim)
            (fun _ _ h => h)

theorem storeSection_refused (hm : s.slot_allocator.slot_map = some m)
    (hfile : s.disk.capacity_file = some file) {id : Text} {chunks : List Bytes}
    (h : (openSlots m chunks.length).length < chunks.length ∨
      FirstRefused m chunks s.answers) :
    Ends (storeSection o id chunks) s (fun _ _ => False) (fun _ t => Used s t) := by
  unfold storeSection
  rw [ends_bind]
  refine (find_open_slots_ends hm chunks.length).mono ?_ ?_
  · rintro _ _ ⟨rfl, henough, rfl⟩
    rcases h with hfew | hrefused
    · omega
    · rw [ends_bind]
      exact (writeChunks_refused o hm hfile hrefused).mono (fun _ _ h => h.elim) (fun _ _ h => h)
  · rintro _ _ ⟨_, rfl⟩
    exact Used.refl s

/-- A section that touched no slot leaves the mirror. -/
theorem Mirror.untouched {file' : Bytes} {c : ContentSlotMap} {sf : Option (JsonFile SlotMap)}
    {cf : Option (JsonFile ContentSlotMap)} {as : List Answer} (h : Mirror o x s m file)
    (htouched : Touched m [] file file') : Mirror o x (s.moved m c file' sf cf as) m file' := by
  have hbytes : ∀ k, slotBytes m file' k = slotBytes m file k :=
    fun k => htouched.2 k List.not_mem_nil
  refine ⟨⟨rfl, rfl, h.nonempty, h.layout.of_length htouched.1, ?_⟩, ?_⟩
  · intro k slot hk
    rw [hbytes]
    exact h.truthful k slot hk
  · have hleaves : leavesOf o m file' = leavesOf o m file := by
      unfold leavesOf leafOf
      simp only [hbytes]
    rw [hleaves]
    exact h.tree

theorem Mirror.used (h : Mirror o x s m file) (hused : Used s t) : Mirror o x t m file := by
  obtain ⟨as, _, rfl⟩ := hused
  exact h.answered o as

/-- A whole store keeps the mirror, whether it succeeds or not. -/
theorem Mirror.store (h : Mirror o x s m file) (id : Text) {chunks : List Bytes}
    (hwhole : chunks = [] ∨ (openSlots m chunks.length).length < chunks.length ∨
      FirstRefused m chunks s.answers ∨
      (Quiet s.answers ∧ ChunksFit m (openSlots m chunks.length) chunks)) :
    Ends ((SlotCall.store id chunks).run o) s (fun _ t => ∃ m file, Mirror o x t m file)
      (fun _ t => ∃ m file, Mirror o x t m file) := by
  unfold SlotCall.run store_content_chunks
  rw [ends_bind, ends_bind]
  have hends := storeSection_ends o h.slot_map h.capacity_file h.layout id chunks
  have hupdate : ∀ {file' : Bytes} {as : List Answer}, Placed m chunks file file' →
      Ends (update_merkle_tree_for_content o (takenSlots m chunks) (chunkHashes o chunks))
        (s.moved (m.holding o id chunks)
          (s.slot_allocator.content_slot_map.insert id (takenSizes m chunks)) file'
          (some (.whole (m.holding o id chunks)))
          (some (.whole (s.slot_allocator.content_slot_map.insert id (takenSizes m chunks)))) as)
        (fun _ t => ∃ m file, Mirror o x t m file) (fun _ t => ∃ m file, Mirror o x t m file) := by
    intro file' as hplaced
    obtain ⟨t, hok, hmirror, _⟩ := h.stored o hplaced
    exact ends_of_ok hok ⟨_, _, hmirror⟩
  rcases hwhole with rfl | hfew | hrefused | ⟨hquiet, hfit⟩
  · refine hends.mono ?_ ?_
    · rintro r t ⟨rfl, file', as, _, hplaced, rfl⟩
      rw [ends_bind]
      exact (hupdate hplaced).mono (fun _ _ h => h) (fun _ _ h => h)
    · have hsame : m.holding o id [] = m := restate_nil _ m
      rintro _ t (⟨file', as, _, htouched, rfl, _⟩ |
        ⟨_, file', as, sf', cf', _, hplaced, rfl, _⟩)
      · exact ⟨m, file', h.untouched o htouched⟩
      · rw [hsame]
        exact ⟨m, file', h.untouched o hplaced.touched⟩
  · exact (storeSection_refused o h.slot_map h.capacity_file (Or.inl hfew)).mono
      (fun _ _ h => h.elim) (fun _ _ hu => ⟨m, file, h.used o hu⟩)
  · exact (storeSection_refused o h.slot_map h.capacity_file (Or.inr hrefused)).mono
      (fun _ _ h => h.elim) (fun _ _ hu => ⟨m, file, h.used o hu⟩)
  · by_cases hle : chunks.length ≤ (openSlots m chunks.length).length
    · refine hends.mono ?_ ?_
      · rintro r t ⟨rfl, file', as, _, hplaced, rfl⟩
        rw [ends_bind]
        exact (hupdate hplaced).mono (fun _ _ h => h) (fun _ _ h => h)
      · rintro _ t (⟨_, _, _, _, _, hnot⟩ | ⟨hnot, _⟩)
        · exact absurd hfit (hnot hquiet hle)
        · exact absurd hquiet hnot
    · exact (storeSection_refused o h.slot_map h.capacity_file (Or.inl (Nat.not_le.mp hle))).mono
        (fun _ _ h => h.elim) (fun _ _ hu => ⟨m, file, h.used o hu⟩)

theorem zeroHashes_ends (slots : List Slot) (sizes : List (Nat × Nat)) (s : CapacityManager) :
    Ends (zeroHashes o slots sizes) s (fun _ t => s = t ∧ ∀ p ∈ sizes, p.1 < slots.length)
      (fun _ t => s = t) := by
  induction sizes with
  | nil => exact ⟨rfl, by simp⟩
  | cons p sizes ih =>
    rw [zeroHashes]
    cases hslot : slots[p.1]? with
    | none => exact rfl
    | some slot =>
      simp only
      rw [ends_bind]
      refine ih.mono ?_ (fun _ _ h => h)
      rintro hashes _ ⟨rfl, hin⟩
      rw [ends_pure]
      refine ⟨rfl, fun q hq => ?_⟩
      rcases List.mem_cons.mp hq with rfl | hq
      · exact (List.getElem?_eq_some_iff.mp hslot).1
      · exact hin q hq

/-- A delete that is stopped early, or that lists a slot the map does not have, changes
nothing. -/
theorem deleteSection_refused (hm : s.slot_allocator.slot_map = some m)
    (hfile : s.disk.capacity_file = some file) {id : Text} {sizes : List (Nat × Nat)}
    (hid : s.slot_allocator.content_slot_map[id]? = some sizes) (hne : sizes ≠ [])
    (h : stopsEarly s.answers = true ∨ ¬ ∀ p ∈ sizes, p.1 < m.slots.length) :
    Ends (deleteSection o id) s (fun _ _ => False) (fun _ t => Used s t) := by
  unfold deleteSection
  rw [ends_bind]
  refine ends_of_ok (find_slots_by_content_id_eq hid) ?_
  rw [ends_bind]
  refine (slot_map_ref_ends hm).mono ?_ (fun _ _ h => h.elim)
  rintro _ _ ⟨rfl, rfl⟩
  rw [ends_bind]
  refine (zeroHashes_ends o m.slots sizes s).mono ?_ (fun _ t ht => ht ▸ Used.refl s)
  rintro hashes _ ⟨rfl, hin⟩
  rcases h with hearly | hout
  · rw [ends_bind]
    cases sizes with
    | nil => exact absurd rfl hne
    | cons p rest =>
      rw [zeroSlots, ends_bind]
      exact (write_chunk_to_slot_early o hm hfile hearly p.1 []).mono (fun _ _ h => h.elim)
        (fun _ _ h => h)
  · exact absurd hin hout

/-- A whole delete keeps the mirror, whether it succeeds or not. -/
theorem Mirror.delete (h : Mirror o x s m file) {id : Text} {sizes : List (Nat × Nat)}
    (hid : s.slot_allocator.content_slot_map[id]? = some sizes)
    (hwhole : sizes = [] ∨ stopsEarly s.answers = true ∨ Quiet s.answers) :
    Ends ((SlotCall.delete id).run o) s (fun _ t => ∃ m file, Mirror o x t m file)
      (fun _ t => ∃ m file, Mirror o x t m file) := by
  unfold SlotCall.run delete_content_from_slots
  rw [ends_bind]
  have hupdate : ∀ {file' : Bytes} {as : List Answer}, (∀ p ∈ sizes, p.1 < m.slots.length) →
      Touched m (sizes.map Prod.fst) file file' → Zeroed m (sizes.map Prod.fst) file' →
      Ends (do
          let previous_merkle_root ← get_merkle_root
          let new_merkle_root ← update_merkle_tree_for_content o (sizes.map Prod.fst)
            (sizes.map (fun p => zeroHash o m p.1))
          pure (if previous_merkle_root = new_merkle_root then none else some new_merkle_root) :
            Prog (Option Bytes32))
        (s.moved (m.restate .Open (sizes.map Prod.fst))
          (s.slot_allocator.content_slot_map.erase id) file'
          (some (.whole (m.restate .Open (sizes.map Prod.fst))))
          (some (.whole (s.slot_allocator.content_slot_map.erase id))) as)
        (fun _ t => ∃ m file, Mirror o x t m file) (fun _ t => ∃ m file, Mirror o x t m file) := by
    intro file' as hin htouched hzero
    obtain ⟨t, hok, hmirror, _⟩ := h.deleted o hin htouched hzero
    rw [ends_bind]
    refine (get_merkle_root_ends _).mono ?_ ?_
    · rintro _ _ rfl
      rw [ends_bind]
      exact ends_of_ok hok ⟨_, _, hmirror⟩
    · rintro _ _ ⟨hnone, _⟩
      rw [show (s.moved _ _ _ _ _ _).merkle_tree = s.merkle_tree from rfl, h.tree] at hnone
      cases hnone
  by_cases hin : ∀ p ∈ sizes, p.1 < m.slots.length
  · have hends := deleteSection_ends o h.slot_map h.capacity_file h.layout hid hin
    rcases hwhole with rfl | hearly | hquiet
    · refine hends.mono ?_ ?_
      · rintro r t ⟨rfl, file', as, _, htouched, hzero, rfl⟩
        exact hupdate hin htouched hzero
      · have hsame : m.restate .Open [] = m := restate_nil _ m
        rintro _ t ⟨_, ⟨file', as, _, htouched, rfl⟩ | ⟨file', as, sf', cf', _, htouched, _, rfl, _⟩⟩
        · exact ⟨m, file', h.untouched o htouched⟩
        · rw [List.map_nil, hsame]
          exact ⟨m, file', h.untouched o htouched⟩
    · by_cases hnil : sizes = []
      · subst hnil
        refine hends.mono ?_ ?_
        · rintro r t ⟨rfl, file', as, _, htouched, hzero, rfl⟩
          exact hupdate hin htouched hzero
        · have hsame : m.restate .Open [] = m := restate_nil _ m
          rintro _ t ⟨_, ⟨file', as, _, htouched, rfl⟩ |
            ⟨file', as, sf', cf', _, htouched, _, rfl, _⟩⟩
          · exact ⟨m, file', h.untouched o htouched⟩
          · rw [List.map_nil, hsame]
            exact ⟨m, file', h.untouched o htouched⟩
      · exact (deleteSection_refused o h.slot_map h.capacity_file hid hnil (Or.inl hearly)).mono
          (fun _ _ h => h.elim) (fun _ _ hu => ⟨m, file, h.used o hu⟩)
    · refine hends.mono ?_ ?_
      · rintro r t ⟨rfl, file', as, _, htouched, hzero, rfl⟩
        exact hupdate hin htouched hzero
      · rintro _ t ⟨hnot, _⟩
        exact absurd hquiet hnot
  · have hnil : sizes ≠ [] := by
      rintro rfl
      exact hin (by simp)
    exact (deleteSection_refused o h.slot_map h.capacity_file hid hnil (Or.inr hin)).mono
      (fun _ _ h => h.elim) (fun _ _ hu => ⟨m, file, h.used o hu⟩)

/-! ## Runs -/

/-- One step of a run of calls, each succeeding or failing. -/
def faultyCallStep (s : CapacityManager) (e : SlotCall × List Answer) : Option CapacityManager :=
  some (after (e.1.run o) (s.answered e.2))

/-- A whole call keeps the mirror. -/
theorem Mirror.whole (h : Mirror o x s m file) {e : SlotCall × List Answer}
    (hwhole : Whole s e) : ∃ m file, Mirror o x (after (e.1.run o) (s.answered e.2)) m file := by
  obtain ⟨call, answers⟩ := e
  have h' := h.answered o answers
  apply Ends.after (P := fun t => ∃ m file, Mirror o x t m file)
  cases call with
  | store id chunks => exact h'.store o id (hwhole m h.slot_map)
  | delete id =>
    cases hid : s.slot_allocator.content_slot_map[id]? with
    | some sizes => exact h'.delete o hid (hwhole sizes hid)
    | none =>
      unfold SlotCall.run delete_content_from_slots
      rw [ends_bind]
      refine (deleteSection_unknown o (s := s.answered answers) hid).mono (fun _ _ h => h.elim) ?_
      rintro _ _ rfl
      exact ⟨m, file, h'⟩

/-- From an allocation on, the tree mirrors the file after every run of whole calls. -/
theorem tree_mirrors_file {s₀ s₁ : CapacityManager} {capacity : Nat} {seed root : Bytes32}
    (halloc : allocate_capacity_internal o x capacity seed s₀ = .ok root s₁)
    {calls : List (SlotCall × List Answer)}
    (hrun : runs.run (faultyCallStep o) calls s₁ = some s)
    (hwhole : ∀ p ∈ runs.visits (faultyCallStep o) calls s₁, Whole p.1 p.2) :
    MirrorsFile o x s := by
  obtain ⟨m, file, hm, _⟩ := allocate_capacity_internal_mirror o halloc
  have hmirror : ∃ m file, Mirror o x s m file := by
    refine runs.run_induction (faultyCallStep o)
      (fun es s => (∀ p ∈ runs.visits (faultyCallStep o) es s₁, Whole p.1 p.2) →
        ∃ m file, Mirror o x s m file) (fun _ => ⟨m, file, hm⟩) ?_ hrun hwhole
    intro es s e s' hr ih hs hall
    cases hs
    rw [runs.visits_snoc _ e hr] at hall
    obtain ⟨m, file, hm⟩ := ih (fun p hp => hall p (List.mem_append_left _ hp))
    exact hm.whole o (hall (s, e) (List.mem_append_right _ (List.mem_singleton.mpr rfl)))
  obtain ⟨m, file, hm⟩ := hmirror
  exact hm.mirrorsFile o

/-- A store that nothing stops, and two deletes, the first of which cannot open the file. -/
def wholeCalls : List (SlotCall × List Answer) :=
  [(.store ['a'] [[1, 2, 3], [4]], []),
    (.delete ['a'], [.refused "Too many open files (os error 24)"]), (.delete ['a'], [])]

theorem chunksFit_new : ChunksFit (newSlotMap .openSlots 0 2048 3)
    (openSlots (newSlotMap .openSlots 0 2048 3) 2) [[1, 2, 3], [4]] := by
  have hopen : openSlots (newSlotMap .openSlots 0 2048 3) 2 = [0, 1] := by decide +kernel
  have hfirst : (newSlotMap .openSlots 0 2048 3).slots[0]? = some ⟨0, 1024, .Open⟩ := by
    decide +kernel
  have hsecond : (newSlotMap .openSlots 0 2048 3).slots[1]? = some ⟨1024, 1024, .Open⟩ := by
    decide +kernel
  rw [hopen]
  intro p hp
  simp only [List.zip_cons_cons, List.zip_nil_right, List.mem_cons, List.not_mem_nil,
    or_false] at hp
  rcases hp with rfl | rfl
  · exact ⟨by decide, _, hfirst, by decide⟩
  · exact ⟨by decide, _, hsecond, by decide⟩

theorem tree_mirrors_file_after_whole_calls :
    ∃ root s₁ s, allocate_capacity_internal .openSlots .sevens 2048 3 .fresh = .ok root s₁ ∧
      runs.run (faultyCallStep .openSlots) wholeCalls s₁ = some s ∧
      MirrorsFile .openSlots .sevens s := by
  have hsome : (resultOf (allocate_capacity_internal .openSlots .sevens 2048 3) .fresh).isSome =
      true := by decide +kernel
  obtain ⟨a, ha⟩ := Option.isSome_iff_exists.mp hsome
  have halloc := eq_ok_of_resultOf ha
  obtain ⟨m, file, hmirror, _, rfl, _⟩ := allocate_capacity_internal_mirror .openSlots halloc
  have hquiet : Quiet [] := fun a ha => by cases ha
  have hrun : runs.run (faultyCallStep .openSlots) wholeCalls a.2 = some _ := rfl
  refine ⟨a.1, a.2, _, halloc, hrun, tree_mirrors_file .openSlots halloc hrun ?_⟩
  intro p hp
  simp only [wholeCalls, runs.visits, faultyCallStep, List.mem_cons, List.not_mem_nil,
    or_false] at hp
  rcases hp with rfl | rfl | rfl
  · intro m hm
    obtain rfl := Option.some.inj (hmirror.slot_map.symm.trans hm)
    exact Or.inr (Or.inr (Or.inr ⟨hquiet, chunksFit_new⟩))
  · exact fun sizes _ => Or.inr (Or.inl rfl)
  · exact fun sizes _ => Or.inr (Or.inr hquiet)

/-! ## Bytes written and not marked -/

/-- A slot is marked Open and does not hold zeros only. -/
def openWithBytes (s : CapacityManager) (k : Nat) : Bool :=
  match s.slot_allocator.slot_map, s.disk.capacity_file with
  | some m, some file =>
    match m.slots[k]? with
    | some slot => slot.state == .Open && readAt file slot.offset slot.size != some (zeros slot.size)
    | none => false
  | _, _ => false

theorem not_mirrorsFile_of_open (o : Outside) {x : ChunkSource} {s : CapacityManager} {k : Nat}
    (h : openWithBytes s k = true) : ¬ MirrorsFile o x s := by
  rintro ⟨m, file, tree, hm, hfile, _, _, _, hslots⟩
  unfold openWithBytes at h
  rw [hm, hfile] at h
  simp only at h
  cases hk : m.slots[k]? with
  | none =>
    rw [hk] at h
    cases h
  | some slot =>
    rw [hk] at h
    simp only [Bool.and_eq_true, beq_iff_eq, bne_iff_ne] at h
    obtain ⟨data, hread, _, hzero⟩ := hslots k slot hk
    rw [hread, hzero h.1] at h
    exact h.2 rfl

/-- The second chunk of a store cannot be written. -/
def halfStore : List (SlotCall × List Answer) :=
  [(.store ['a'] [[1, 2, 3], [4]],
    [.done, .done, .done, .refused "No space left on device (os error 28)"])]

/-- The first chunk stays in a slot that is still marked Open. -/
theorem half_stored_chunk_stays :
    ∃ root s₁ s, allocate_capacity_internal .openSlots .sevens 2048 3 .fresh = .ok root s₁ ∧
      runs.run (faultyCallStep .openSlots) halfStore s₁ = some s ∧
      ¬ MirrorsFile .openSlots .sevens s := by
  have hrun : ((resultOf (allocate_capacity_internal .openSlots .sevens 2048 3) .fresh).bind
      (fun a => (runs.run (faultyCallStep .openSlots) halfStore a.2).bind
        (fun s => if openWithBytes s 0 then some (a, s) else none))).isSome = true := by
    decide +kernel
  obtain ⟨r, hr⟩ := Option.isSome_iff_exists.mp hrun
  obtain ⟨a, ha, hr⟩ := Option.bind_eq_some_iff.mp hr
  obtain ⟨s, hs, hr⟩ := Option.bind_eq_some_iff.mp hr
  by_cases hopen : openWithBytes s 0 = true
  · exact ⟨a.1, a.2, s, eq_ok_of_resultOf ha, hs, not_mirrorsFile_of_open .openSlots hopen⟩
  · rw [if_neg hopen] at hr
    cases hr

end eld_chain
