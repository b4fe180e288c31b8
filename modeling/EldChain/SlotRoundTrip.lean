-- What was stored is read back: a content that was stored with success reads
-- as its chunks, and goes on doing so while other contents are stored and
-- deleted. The one way to lose it is a restart between the saves of the two
-- maps: then a slot may belong to two contents.
import EldChain.SlotOwnership

open Std

namespace eld_chain

open fallible regions finite_map

variable (o : Outside) {x : ChunkSource} {j : JsonErrors}
variable {s t : CapacityManager} {m : SlotMap} {file : Bytes}

/-! ## Reading a content -/

/-- A content stands in its slots: each chunk with the slot it was given. -/
structure Stored (s : CapacityManager) (m : SlotMap) (file : Bytes) (id : Text)
    (placed : List (Nat × Bytes)) : Prop where
  listed : s.slot_allocator.content_slot_map[id]? = some (placed.map (fun p => (p.1, p.2.length)))
  holds : ∀ p ∈ placed, slotBytes m file p.1 = some (padTo MAX_CHUNK_SIZE p.2)
  fit : ∀ p ∈ placed, p.2.length ≤ MAX_CHUNK_SIZE

theorem read_chunk_from_slot_ends (hm : s.slot_allocator.slot_map = some m)
    (hfile : s.disk.capacity_file = some file) {i : Nat} {data : Bytes}
    (h : slotBytes m file i = some data) :
    Ends (read_chunk_from_slot i) s (fun r t => r = data ∧ Used s t)
      (fun _ _ => ¬ Quiet s.answers) := by
  unfold read_chunk_from_slot
  rw [ends_bind]
  refine (slot_map_ref_ends hm).mono ?_ (fun _ _ h => h.elim)
  rintro _ _ ⟨rfl, rfl⟩
  unfold slotBytes at h
  cases hslot : m.slots[i]? with
  | none => rw [hslot] at h; cases h
  | some slot =>
    rw [hslot] at h
    simp only at h ⊢
    rw [ends_bind]
    refine (openCapacityFile_ends _ _ hfile).mono ?_ (fun _ _ h => h.2)
    intro _ t ht
    rw [ends_bind]
    refine (osCall_ends _ _ t).mono ?_ (fun _ _ h hq => h.2 (ht.quiet hq))
    intro _ u hu
    have hused := ht.trans hu
    refine (readExact_ends _ _ _ _ (hused.disk ▸ hfile)).mono ?_ ?_
    · rintro r v ⟨hv, hread⟩
      rw [h] at hread
      cases hread
      exact ⟨rfl, hused.trans hv⟩
    · rintro _ v ⟨_, hnone⟩ hq
      have := hnone (hused.quiet hq)
      rw [h] at this
      cases this

theorem readChunks_ends (hm : s.slot_allocator.slot_map = some m)
    (hfile : s.disk.capacity_file = some file) {placed : List (Nat × Bytes)}
    (holds : ∀ p ∈ placed, slotBytes m file p.1 = some (padTo MAX_CHUNK_SIZE p.2))
    (fit : ∀ p ∈ placed, p.2.length ≤ MAX_CHUNK_SIZE) :
    Ends (readChunks (placed.map (fun p => (p.1, p.2.length)))) s
      (fun r _ => r = (placed.map Prod.snd).flatten) (fun _ _ => ¬ Quiet s.answers) := by
  induction placed generalizing s with
  | nil => exact rfl
  | cons p placed ih =>
    rw [List.map_cons, readChunks, ends_bind]
    refine (read_chunk_from_slot_ends hm hfile (holds p List.mem_cons_self)).mono ?_
      (fun _ _ h => h)
    rintro _ t ⟨rfl, ht⟩
    have hlen : ¬ (padTo MAX_CHUNK_SIZE p.2).length < p.2.length := by
      rw [length_padTo (fit p List.mem_cons_self)]
      exact Nat.not_lt.mpr (fit p List.mem_cons_self)
    rw [if_neg hlen, ends_bind]
    refine (ih (ht.slot_allocator ▸ hm) (ht.disk ▸ hfile)
      (fun q hq => holds q (List.mem_cons_of_mem _ hq))
      (fun q hq => fit q (List.mem_cons_of_mem _ hq))).mono ?_ (fun _ _ h hq => h (ht.quiet hq))
    rintro _ u rfl
    rw [ends_pure, take_padTo]
    rfl

/-- A stored content is read back whole, unless the operating system fails. -/
theorem Stored.read (hm : s.slot_allocator.slot_map = some m)
    (hfile : s.disk.capacity_file = some file) {id : Text} {placed : List (Nat × Bytes)}
    (h : Stored s m file id placed) :
    Ends (get_content_from_slots id) s (fun r _ => r = some (placed.map Prod.snd).flatten)
      (fun _ _ => ¬ Quiet s.answers) := by
  unfold get_content_from_slots
  rw [ends_bind, ends_get, h.listed]
  simp only
  rw [ends_bind]
  refine (readChunks_ends hm hfile h.holds h.fit).mono ?_ (fun _ _ h => h)
  rintro _ t rfl
  rfl

/-! ## A content while others come and go -/

section Sections

variable {c : ContentSlotMap} {id : Text} {placed : List (Nat × Bytes)} {chunks : List Bytes}
  {file' : Bytes} {sf : Option (JsonFile SlotMap)} {cf : Option (JsonFile ContentSlotMap)}
  {as : List Answer}

/-- The section of a store puts its content in its slots. -/
theorem Placed.stored (h : Placed m chunks file file') (id : Text) :
    Stored (s.moved (m.holding o id chunks) (c.insert id (takenSizes m chunks)) file' sf cf as)
      (m.holding o id chunks) file' id ((openSlots m chunks.length).zip chunks) where
  listed := by
    change (c.insert id (takenSizes m chunks))[id]? = _
    rw [get_insert, if_pos rfl]
    rfl
  holds := by
    intro p hp
    unfold SlotMap.holding
    rw [slotBytes_restate]
    exact h.filled.holds p hp
  fit := fun p hp => h.filled.fit p.2 (List.of_mem_zip hp).2

/-- The slots of a content are not those that a store takes. -/
theorem Stored.not_taken (h : Stored s m file id placed)
    (howned : Owned m s.slot_allocator.content_slot_map) {p : Nat × Bytes} (hp : p ∈ placed)
    (chunks : List Bytes) : p.1 ∉ takenSlots m chunks :=
  howned.not_taken h.listed (p := (p.1, p.2.length)) (List.mem_map_of_mem hp) chunks

/-- A content stands through the section of a store of another content. -/
theorem Stored.store (h : Stored s m file id placed)
    (howned : Owned m s.slot_allocator.content_slot_map) {id' : Text} (hother : id' ≠ id)
    (hplaced : Placed m chunks file file') :
    Stored (s.moved (m.holding o id' chunks)
        (s.slot_allocator.content_slot_map.insert id' (takenSizes m chunks)) file' sf cf as)
      (m.holding o id' chunks) file' id placed where
  listed := by
    change (s.slot_allocator.content_slot_map.insert id' (takenSizes m chunks))[id]? = _
    rw [get_insert, if_neg hother]
    exact h.listed
  holds := by
    intro p hp
    unfold SlotMap.holding
    rw [slotBytes_restate, hplaced.touched.2 p.1 (h.not_taken howned hp chunks)]
    exact h.holds p hp
  fit := h.fit

/-- A content stands through the section of a delete of another content. -/
theorem Stored.delete (h : Stored s m file id placed)
    (howned : Owned m s.slot_allocator.content_slot_map) {id' : Text} (hother : id' ≠ id)
    {sizes : List (Nat × Nat)} (hid : s.slot_allocator.content_slot_map[id']? = some sizes)
    (htouched : Touched m (sizes.map Prod.fst) file file') :
    Stored (s.moved (m.restate .Open (sizes.map Prod.fst))
        (s.slot_allocator.content_slot_map.erase id') file' sf cf as)
      (m.restate .Open (sizes.map Prod.fst)) file' id placed where
  listed := by
    change (s.slot_allocator.content_slot_map.erase id')[id]? = _
    rw [ExtTreeMap.getElem?_erase, if_neg]
    · exact h.listed
    · intro heq
      exact hother (LawfulEqCmp.eq_of_compare heq)
  holds := by
    intro p hp
    rw [slotBytes_restate, htouched.2 p.1 (howned.disjoint h.listed hid
      (fun heq => hother heq.symm) (p := (p.1, p.2.length)) (List.mem_map_of_mem hp))]
    exact h.holds p hp
  fit := h.fit

end Sections

/-- The state in which a content stands, with what every event keeps. -/
def Standing (s : CapacityManager) (id : Text) (placed : List (Nat × Bytes)) : Prop :=
  ∃ m file, s.slot_allocator.slot_map = some m ∧ Kept s file ∧ Stored s m file id placed

/-- The parts of a state that a content needs. -/
theorem standing_of_update {indices : List Nat} {hashes : List Bytes32} {root : Bytes32} {id : Text}
    {placed : List (Nat × Bytes)} (h : Standing s id placed)
    (hupdate : update_merkle_tree_for_content o indices hashes s = .ok root t) :
    Standing t id placed := by
  obtain ⟨m, file, hm, hkept, hstored⟩ := h
  obtain ⟨tree, _, rfl⟩ := (update_merkle_tree_for_content_ends o indices hashes s).of_ok hupdate
  exact ⟨m, file, hm, hkept.withTree tree, hstored.listed, hstored.holds, hstored.fit⟩

/-- A store that succeeds leaves its content standing. -/
theorem standing_of_store (h : Kept s file) (hm : s.slot_allocator.slot_map = some m) {id : Text}
    {chunks : List Bytes} {new : Option Bytes32}
    (hcall : (SlotCall.store id chunks).run o s = .ok new t) :
    ∃ placed, placed.map Prod.snd = chunks ∧ Standing t id placed := by
  obtain ⟨hlayout, howned⟩ := h.loaded m hm
  obtain ⟨file', as, root, hplaced, hupdate⟩ := store_ok o hm h.capacity_file hlayout hcall
  have hlayout' := (hlayout.of_length hplaced.touched.1).restate
    (.Content id (committedHash o (chunkHashes o chunks))) (takenSlots m chunks)
  refine ⟨(openSlots m chunks.length).zip chunks, List.map_snd_zip hplaced.filled.enough, ?_⟩
  refine standing_of_update o ⟨m.holding o id chunks, file', rfl, ?_, hplaced.stored o id⟩ hupdate
  exact Kept.of_parts hlayout' (howned.store o id chunks) ⟨_, rfl, hlayout'⟩

/-- A store or a delete of another content that succeeds leaves a content standing. -/
theorem Standing.call {id : Text} {placed : List (Nat × Bytes)} (h : Standing s id placed)
    {call : SlotCall} (hother : call.content_id ≠ id) {new : Option Bytes32}
    (hcall : call.run o s = .ok new t) : Standing t id placed := by
  obtain ⟨m, file, hm, hkept, hstored⟩ := h
  obtain ⟨hlayout, howned⟩ := hkept.loaded m hm
  cases call with
  | store id' chunks =>
    obtain ⟨file', as, root, hplaced, hupdate⟩ := store_ok o hm hkept.capacity_file hlayout hcall
    have hlayout' := (hlayout.of_length hplaced.touched.1).restate
      (.Content id' (committedHash o (chunkHashes o chunks))) (takenSlots m chunks)
    refine standing_of_update o ⟨m.holding o id' chunks, file', rfl, ?_,
      hstored.store o howned hother hplaced⟩ hupdate
    exact Kept.of_parts hlayout' (howned.store o id' chunks) ⟨_, rfl, hlayout'⟩
  | delete id' =>
    obtain ⟨sizes, file', as, root, hid, hin, htouched, hzero, hupdate⟩ :=
      delete_ok o hm hkept.capacity_file hlayout hcall
    have hlayout' := (hlayout.of_length htouched.1).restate .Open (sizes.map Prod.fst)
    refine standing_of_update o ⟨m.restate .Open (sizes.map Prod.fst), file', rfl, ?_,
      hstored.delete howned hother hid htouched⟩ hupdate
    exact Kept.of_parts hlayout' (howned.delete hid) ⟨_, rfl, hlayout'⟩

/-- One step of a run of calls that all succeed. -/
def callStep (s : CapacityManager) (e : SlotCall × List Answer) : Option CapacityManager :=
  succeeding (e.1.run o) (s.answered e.2)

theorem Standing.answered {id : Text} {placed : List (Nat × Bytes)} (h : Standing s id placed)
    (as : List Answer) : Standing (s.answered as) id placed := by
  obtain ⟨m, file, hm, hkept, hstored⟩ := h
  exact ⟨m, file, hm, hkept.answered as, hstored.listed, hstored.holds, hstored.fit⟩

theorem Standing.run {id : Text} {placed : List (Nat × Bytes)} (h : Standing s id placed)
    {later : List (SlotCall × List Answer)} (hother : ∀ e ∈ later, e.1.content_id ≠ id)
    (hrun : runs.run (callStep o) later s = some t) : Standing t id placed := by
  induction later generalizing s with
  | nil =>
    cases hrun
    exact h
  | cons e later ih =>
    obtain ⟨u, hstep, hrest⟩ := Option.bind_eq_some_iff.mp hrun
    obtain ⟨_, hcall⟩ := succeeding_eq_some hstep
    exact ih ((h.answered e.2).call o (hother e List.mem_cons_self) hcall)
      (fun e' he' => hother e' (List.mem_cons_of_mem _ he')) hrest

/-- A content that is stored with success, in a state that a run with restarts in step leads
to, reads back as its chunks: at once and after any later calls for other contents that
succeed. -/
theorem stored_content_reads_back {s₀ s₁ : CapacityManager} {capacity : Nat}
    {seed root : Bytes32} (halloc : allocate_capacity_internal o x capacity seed s₀ = .ok root s₁)
    (hempty : s₀.slot_allocator.content_slot_map = ∅) {events : List CapacityEvent}
    (hrun : runs.run (capacityStep o x j) events s₁ = some s)
    (hstep : ∀ p ∈ runs.visits (capacityStep o x j) events s₁, RestartsInStep p.1 p.2)
    {id : Text} {chunks : List Bytes} {answers : List Answer} {stored : List Nat × Bytes32}
    (hstore : store_content_chunks o id chunks (s.answered answers) = .ok stored t)
    {later : List (SlotCall × List Answer)} (hother : ∀ e ∈ later, e.1.content_id ≠ id)
    {u : CapacityManager} (hlater : runs.run (callStep o) later t = some u) :
    (∀ as, Quiet as → ∃ v,
      get_content_from_slots id (u.answered as) = .ok (some chunks.flatten) v) ∧
    ∀ as r v, get_content_from_slots id (u.answered as) = .ok r v → r = some chunks.flatten := by
  obtain ⟨file, hkept⟩ := kept_of_run o halloc hempty hrun hstep
  have hkept' := hkept.answered answers
  obtain ⟨m, hm⟩ : ∃ m, (s.answered answers).slot_allocator.slot_map = some m := by
    cases hm : (s.answered answers).slot_allocator.slot_map with
    | some m => exact ⟨m, rfl⟩
    | none =>
      -- without a slot map no store succeeds
      obtain ⟨_, _, hsection, _⟩ := bind_ok hstore
      exact ((storeSection_unloaded o hm id chunks).of_ok hsection).elim
  have hcall : (SlotCall.store id chunks).run o (s.answered answers) = .ok (some stored.2) t :=
    bind_of_ok _ hstore
  obtain ⟨placed, rfl, hstanding⟩ := standing_of_store o hkept' hm hcall
  obtain ⟨m', file', hm', hkept'', hstored⟩ := hstanding.run o hother hlater
  have hread : ∀ as, Ends (get_content_from_slots id) (u.answered as)
      (fun r _ => r = some (placed.map Prod.snd).flatten) (fun _ _ => ¬ Quiet as) :=
    fun as => Stored.read (s := u.answered as) hm' hkept''.capacity_file
      ⟨hstored.listed, hstored.holds, hstored.fit⟩
  refine ⟨fun as hq => ?_, fun as r v hget => (hread as).of_ok hget⟩
  cases hget : get_content_from_slots id (u.answered as) with
  | ok r v => exact ⟨v, by rw [(hread as).of_ok hget]⟩
  | error e v => exact absurd hq ((hread as).of_error hget)

/-! ## The two saves torn apart -/

/-- The second of the two saves of a store fails, and the node is restarted: the content map
lists the content, the slot map has its slot open. -/
def tornRun : List CapacityEvent :=
  [.call (.store ['a'] [[1, 2, 3]])
    [.done, .done, .done, .done, .done, .refused "No space left on device (os error 28)"],
    .restart []]

/-- A new content is given the same slot, and deleting the first one zeroes it. -/
theorem stored_content_lost_after_torn_save :
    ∃ root s₁ s stored t u v,
      allocate_capacity_internal .openSlots .sevens 2048 3 .fresh = .ok root s₁ ∧
      runs.run (capacityStep .openSlots .sevens .eof) tornRun s₁ = some s ∧
      s.slot_allocator.content_slot_map[(['b'] : Text)]? = none ∧
      store_content_chunks .openSlots ['b'] [[9, 9]] s = .ok stored t ∧
      runs.run (callStep .openSlots) [(.delete ['a'], [])] t = some u ∧
      get_content_from_slots ['b'] u = .ok (some [0, 0]) v := by
  have hrun : ((resultOf (allocate_capacity_internal .openSlots .sevens 2048 3) .fresh).bind
      (fun a => (runs.run (capacityStep .openSlots .sevens .eof) tornRun a.2).bind
        (fun s => if s.slot_allocator.content_slot_map[(['b'] : Text)]?.isNone then
          (resultOf (store_content_chunks .openSlots ['b'] [[9, 9]]) s).bind
            (fun b => (runs.run (callStep .openSlots) [(.delete ['a'], [])] b.2).bind
              (fun u => resultOf (get_content_from_slots ['b']) u))
          else none))).any (fun r => r.1 == some [0, 0]) = true := by decide +kernel
  obtain ⟨r, hr, hcontent⟩ := (Option.any_eq_true _ _).mp hrun
  obtain ⟨a, ha, hr⟩ := Option.bind_eq_some_iff.mp hr
  obtain ⟨s, hs, hr⟩ := Option.bind_eq_some_iff.mp hr
  by_cases hnone : s.slot_allocator.content_slot_map[(['b'] : Text)]?.isNone = true
  · rw [if_pos hnone] at hr
    obtain ⟨b, hb, hr⟩ := Option.bind_eq_some_iff.mp hr
    obtain ⟨u, hu, hr⟩ := Option.bind_eq_some_iff.mp hr
    refine ⟨a.1, a.2, s, b.1, b.2, u, r.2, eq_ok_of_resultOf ha, hs,
      Option.isNone_iff_eq_none.mp hnone, eq_ok_of_resultOf hb, hu, ?_⟩
    rw [eq_ok_of_resultOf hr, eq_of_beq hcontent]
  · rw [if_neg hnone] at hr
    cases hr

/-- When both saves succeed, the content map and the slot map come through a restart
together, and the second content is kept. -/
theorem stored_content_kept_after_restart :
    ∃ root s₁ s stored t u v,
      allocate_capacity_internal .openSlots .sevens 3072 3 .fresh = .ok root s₁ ∧
      runs.run (capacityStep .openSlots .sevens .eof)
        [.call (.store ['a'] [[1, 2, 3]]) [], .restart []] s₁ = some s ∧
      store_content_chunks .openSlots ['b'] [[9, 9]] (s.answered []) = .ok stored t ∧
      runs.run (callStep .openSlots) [(.delete ['a'], [])] t = some u ∧
      get_content_from_slots ['b'] (u.answered []) = .ok (some [[9, 9]].flatten) v := by
  have hrun : ((resultOf (allocate_capacity_internal .openSlots .sevens 3072 3) .fresh).bind
      (fun a => (resultOf (SlotCall.run .openSlots (.store ['a'] [[1, 2, 3]]))
          (a.2.answered [])).bind
        (fun d => (runs.run (capacityStep .openSlots .sevens .eof)
            [.call (.store ['a'] [[1, 2, 3]]) [], .restart []] a.2).bind
          (fun s => (resultOf (store_content_chunks .openSlots ['b'] [[9, 9]])
              (s.answered [])).bind
            (fun b => runs.run (callStep .openSlots) [(.delete ['a'], [])] b.2))))).isSome =
      true := by decide +kernel
  obtain ⟨u, hu⟩ := Option.isSome_iff_exists.mp hrun
  obtain ⟨a, ha, hu⟩ := Option.bind_eq_some_iff.mp hu
  obtain ⟨d, hd, hu⟩ := Option.bind_eq_some_iff.mp hu
  obtain ⟨s, hs, hu⟩ := Option.bind_eq_some_iff.mp hu
  obtain ⟨b, hb, hu⟩ := Option.bind_eq_some_iff.mp hu
  have halloc := eq_ok_of_resultOf ha
  have hfirst := eq_ok_of_resultOf hd
  have hstore := eq_ok_of_resultOf hb
  have hstep : ∀ p ∈ runs.visits (capacityStep .openSlots .sevens .eof)
      [.call (.store ['a'] [[1, 2, 3]]) [], .restart []] a.2, RestartsInStep p.1 p.2 := by
    have hnone : runs.run (capacityStep .openSlots .sevens .eof) [] a.2 = some a.2 := rfl
    obtain ⟨file, hkept⟩ := kept_of_run .openSlots halloc rfl hnone (fun p hp => by cases hp)
    intro p hp
    simp only [runs.visits, capacityStep, CapacityEvent.happen, after_of_ok hfirst, List.mem_cons,
      List.not_mem_nil, or_false] at hp
    rcases hp with rfl | rfl
    · exact trivial
    · exact (hkept.answered []).inStep_of_call .openSlots hfirst
  have hother : ∀ e ∈ [((.delete ['a'] : SlotCall), ([] : List Answer))],
      e.1.content_id ≠ ['b'] := by
    intro e he
    rw [List.mem_singleton] at he
    subst he
    decide
  obtain ⟨hread, _⟩ := stored_content_reads_back .openSlots halloc rfl hs hstep hstore hother hu
  obtain ⟨v, hv⟩ := hread [] (fun a ha => by cases ha)
  exact ⟨a.1, a.2, s, b.1, b.2, u, v, halloc, hs, hstore, hu, hv⟩

end eld_chain
