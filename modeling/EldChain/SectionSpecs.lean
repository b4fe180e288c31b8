-- What a store and a delete do under the allocator's lock: the slots they
-- take or give back, the bytes they leave there, and the two maps with
-- their files. A section that is stopped has either not reached the maps
-- yet, or has changed both of them and lost one of the two saves.
import EldChain.SlotSpecs
import EldChain.Library.FiniteMaps

open Std

namespace eld_chain

open fallible regions finite_map

variable {s t : CapacityManager} {m : SlotMap} {file : Bytes}

/-! ## New states for slots -/

/-- The slots of the list with a new state. -/
def restate (state : SlotState) (indices : List Nat) (slots : List Slot) : List Slot :=
  slots.mapIdx (fun k slot => if k ∈ indices then { slot with state := state } else slot)

def SlotMap.restate (m : SlotMap) (state : SlotState) (indices : List Nat) : SlotMap :=
  { m with slots := eld_chain.restate state indices m.slots }

theorem restate_get (state : SlotState) (indices : List Nat) (m : SlotMap) (k : Nat) :
    (m.restate state indices).slots[k]? = m.slots[k]?.map
      (fun slot => if k ∈ indices then { slot with state := state } else slot) :=
  List.getElem?_mapIdx

@[simp] theorem length_restate (state : SlotState) (indices : List Nat) (m : SlotMap) :
    (m.restate state indices).slots.length = m.slots.length := List.length_mapIdx

theorem restate_nil (state : SlotState) (m : SlotMap) : m.restate state [] = m := by
  have hslots : eld_chain.restate state [] m.slots = m.slots := by
    apply List.ext_getElem?
    intro k
    refine (restate_get state [] m k).trans ?_
    cases m.slots[k]? with
    | none => rfl
    | some slot => simp
  exact congrArg (fun slots => { m with slots := slots }) hslots

/-- A slot of the new map is a slot of the old one, with the new state or its own. -/
theorem restate_slot {state : SlotState} {indices : List Nat} {k : Nat} {slot : Slot}
    (h : (m.restate state indices).slots[k]? = some slot) :
    ∃ old, m.slots[k]? = some old ∧ slot.offset = old.offset ∧ slot.size = old.size ∧
      slot.state = if k ∈ indices then state else old.state := by
  rw [restate_get] at h
  obtain ⟨old, hold, rfl⟩ := Option.map_eq_some_iff.mp h
  refine ⟨old, hold, ?_⟩
  by_cases hk : k ∈ indices
  · simp [hk]
  · simp [hk]

theorem slotBytes_restate (state : SlotState) (indices : List Nat) (m : SlotMap) (file : Bytes)
    (k : Nat) : slotBytes (m.restate state indices) file k = slotBytes m file k := by
  unfold slotBytes
  rw [restate_get]
  cases m.slots[k]? with
  | none => rfl
  | some slot =>
    by_cases hk : k ∈ indices
    · simp [hk]
    · simp [hk]

theorem Layout.restate (h : Layout m file) (state : SlotState) (indices : List Nat) :
    Layout (m.restate state indices) file := by
  constructor
  · intro k slot hk
    obtain ⟨old, hold, ho, hs, _⟩ := restate_slot hk
    rw [ho, hs]
    exact h.fits k old hold
  · intro i k a b ha hb hne
    obtain ⟨a', ha', hao, has, _⟩ := restate_slot ha
    obtain ⟨b', hb', hbo, hbs, _⟩ := restate_slot hb
    rw [hao, has, hbo, hbs]
    exact h.apart i k a' b' ha' hb' hne
  · intro k slot hk
    obtain ⟨old, hold, _, hs, _⟩ := restate_slot hk
    rw [hs]
    exact h.small k old hold

/-! ## The states of a section -/

/-- `s` with other maps, other files and other answers. -/
def CapacityManager.moved (s : CapacityManager) (m : SlotMap) (c : ContentSlotMap) (file : Bytes)
    (sf : Option (JsonFile SlotMap)) (cf : Option (JsonFile ContentSlotMap))
    (answers : List Answer) : CapacityManager :=
  { s with
    slot_allocator := { s.slot_allocator with slot_map := some m, content_slot_map := c }
    disk := ⟨some file, sf, cf⟩
    answers := answers }

/-- `t` is `s` with the file replaced: both maps and their files are as they were. -/
theorem Wrote.moved (hm : s.slot_allocator.slot_map = some m) (h : Wrote s file t) :
    ∃ as, as <:+ s.answers ∧ t = s.moved m s.slot_allocator.content_slot_map file
      s.disk.slots_file s.disk.content_slot_map_file as := by
  obtain ⟨as, has, rfl⟩ := h
  refine ⟨as, has, ?_⟩
  unfold CapacityManager.moved CapacityManager.answered CapacityManager.setCapacityFile
  rw [← hm]

theorem setStates_eq (operation : String) (state : SlotState) {sizes : List (Nat × Nat)}
    (hm : s.slot_allocator.slot_map = some m) (hin : ∀ p ∈ sizes, p.1 < m.slots.length) :
    setStates operation state sizes s = .ok () { s with slot_allocator :=
      { s.slot_allocator with slot_map := some (m.restate state (sizes.map Prod.fst)) } } := by
  induction sizes generalizing s m with
  | nil =>
    rw [List.map_nil, restate_nil, ← hm]
    rfl
  | cons p sizes ih =>
    have hlt : ¬ m.slots.length ≤ p.1 := Nat.not_le.mpr (hin p List.mem_cons_self)
    have hmut : slot_map_mut s = .ok m s := by
      cases h : slot_map_mut s with
      | ok r t =>
        obtain ⟨rfl, rfl⟩ := (slot_map_mut_ends hm).of_ok h
        rfl
      | error e t => exact ((slot_map_mut_ends hm).of_error h).elim
    let m' : SlotMap :=
      { m with slots := m.slots.modify p.1 (fun slot => { slot with state := state }) }
    have hset : set_slot_map m' s = .ok () { s with
        slot_allocator := { s.slot_allocator with slot_map := some m' } } := rfl
    have hrest : m'.restate state (sizes.map Prod.fst) =
        m.restate state ((p :: sizes).map Prod.fst) := by
      unfold SlotMap.restate eld_chain.restate
      congr 1
      apply List.ext_getElem?
      intro k
      rw [List.getElem?_mapIdx, List.getElem?_mapIdx, List.getElem?_modify]
      cases m.slots[k]? with
      | none => rfl
      | some slot =>
        by_cases hk : p.1 = k
        · by_cases hmem : k ∈ sizes.map Prod.fst
          · simp [hk, hmem]
          · simp [hk, hmem]
        · have hk' : ¬ k = p.1 := fun h => hk h.symm
          by_cases hmem : k ∈ sizes.map Prod.fst
          · simp [hk, hmem]
          · simp [hk, hk', hmem]
    rw [setStates, bind_of_ok _ hmut]
    simp only [if_neg hlt]
    rw [bind_of_ok _ hset, ih rfl (fun q hq => by
      simpa [m'] using hin q (List.mem_cons_of_mem _ hq)), hrest]

/-! ## Saving the maps -/

theorem writeJson_ends {A : Type} (operation what : String) (put : JsonFile A → Disk → Disk)
    (value : A) (s : CapacityManager) :
    Ends (writeJson operation what put value) s
      (fun _ t => ∃ as, as <:+ s.answers ∧
        t = { s.answered as with disk := put (.whole value) s.disk })
      (fun _ t => ¬ Quiet s.answers ∧ (Used s t ∨ ∃ as n, as <:+ s.answers ∧
        t = { s.answered as with disk := put (.cut value n) s.disk })) := by
  unfold writeJson
  rw [ends_bind]
  refine (nextAnswer_ends s).mono ?_ (fun _ _ h => h.elim)
  rintro a t ⟨⟨as, has, rfl⟩, hquiet⟩
  cases a with
  | done => exact ⟨as, has, rfl⟩
  | refused e => exact ⟨hquiet (by simp), Or.inl ⟨as, has, rfl⟩⟩
  | cut n e => exact ⟨hquiet (by simp), Or.inr ⟨as, n, has, rfl⟩⟩

/-- The file of a map, after its directory was made and its text written. -/
theorem saveJson_ends {A : Type} (operation made what : String) (put : JsonFile A → Disk → Disk)
    (value : A) (s : CapacityManager) :
    Ends (do
      osCall operation made
      writeJson operation what put value) s
      (fun _ t => ∃ as, as <:+ s.answers ∧
        t = { s.answered as with disk := put (.whole value) s.disk })
      (fun _ t => ¬ Quiet s.answers ∧ (Used s t ∨ ∃ as n, as <:+ s.answers ∧
        t = { s.answered as with disk := put (.cut value n) s.disk })) := by
  rw [ends_bind]
  refine (osCall_ends _ _ _).mono ?_ ?_
  · rintro _ t ⟨bs, hbs, rfl⟩
    refine (writeJson_ends _ _ _ _ _).mono ?_ ?_
    · rintro _ u ⟨cs, hcs, rfl⟩
      exact ⟨cs, List.IsSuffix.trans hcs hbs, rfl⟩
    · rintro _ u ⟨hquiet, h⟩
      refine ⟨fun hq => hquiet (hq.suffix hbs), ?_⟩
      rcases h with ⟨cs, hcs, rfl⟩ | ⟨cs, n, hcs, rfl⟩
      · exact Or.inl ⟨cs, List.IsSuffix.trans hcs hbs, rfl⟩
      · exact Or.inr ⟨cs, n, List.IsSuffix.trans hcs hbs, rfl⟩
  · rintro _ t ⟨hused, hquiet⟩
    exact ⟨hquiet, Or.inl hused⟩

section Saving

variable {c : ContentSlotMap} {sf : Option (JsonFile SlotMap)}
  {cf : Option (JsonFile ContentSlotMap)} {as : List Answer}

theorem save_slot_map_ends :
    Ends save_slot_map (s.moved m c file sf cf as)
      (fun _ t => ∃ bs, bs <:+ as ∧ t = s.moved m c file (some (.whole m)) cf bs)
      (fun _ t => ¬ Quiet as ∧ ∃ bs sf', bs <:+ as ∧ t = s.moved m c file sf' cf bs ∧
        (sf' = sf ∨ ∃ n, sf' = some (.cut m n))) := by
  unfold save_slot_map
  rw [ends_bind]
  refine (slot_map_ref_ends (m := m) rfl).mono ?_ (fun _ _ h => h.elim)
  rintro _ _ ⟨rfl, rfl⟩
  refine (saveJson_ends _ _ _ _ _ _).mono ?_ ?_
  · rintro _ t ⟨bs, hbs, rfl⟩
    exact ⟨bs, hbs, rfl⟩
  · rintro _ t ⟨hquiet, h⟩
    refine ⟨hquiet, ?_⟩
    rcases h with ⟨bs, hbs, rfl⟩ | ⟨bs, n, hbs, rfl⟩
    · exact ⟨bs, sf, hbs, rfl, Or.inl rfl⟩
    · exact ⟨bs, _, hbs, rfl, Or.inr ⟨n, rfl⟩⟩

theorem save_content_slot_map_ends :
    Ends save_content_slot_map (s.moved m c file sf cf as)
      (fun _ t => ∃ bs, bs <:+ as ∧ t = s.moved m c file sf (some (.whole c)) bs)
      (fun _ t => ¬ Quiet as ∧ ∃ bs cf', bs <:+ as ∧ t = s.moved m c file sf cf' bs ∧
        (cf' = cf ∨ ∃ n, cf' = some (.cut c n))) := by
  unfold save_content_slot_map
  rw [ends_bind, ends_get]
  refine (saveJson_ends _ _ _ _ _ _).mono ?_ ?_
  · rintro _ t ⟨bs, hbs, rfl⟩
    exact ⟨bs, hbs, rfl⟩
  · rintro _ t ⟨hquiet, h⟩
    refine ⟨hquiet, ?_⟩
    rcases h with ⟨bs, hbs, rfl⟩ | ⟨bs, n, hbs, rfl⟩
    · exact ⟨bs, cf, hbs, rfl, Or.inl rfl⟩
    · exact ⟨bs, _, hbs, rfl, Or.inr ⟨n, rfl⟩⟩

end Saving

/-- The files of the maps after one of the two saves was stopped: the content map is saved
first. -/
def SaveStopped (m : SlotMap) (c : ContentSlotMap) (sf sf' : Option (JsonFile SlotMap))
    (cf cf' : Option (JsonFile ContentSlotMap)) : Prop :=
  (sf' = sf ∧ (cf' = cf ∨ ∃ n, cf' = some (.cut c n))) ∨
    (cf' = some (.whole c) ∧ (sf' = sf ∨ ∃ n, sf' = some (.cut m n)))

/-- Both maps are changed, and then the content map is saved. -/
theorem changeMaps_ends (operation : String) (state : SlotState)
    {sizes : List (Nat × Nat)} (change : ContentSlotMap → ContentSlotMap)
    {c : ContentSlotMap} {sf : Option (JsonFile SlotMap)} {cf : Option (JsonFile ContentSlotMap)}
    {as : List Answer} (hin : ∀ p ∈ sizes, p.1 < m.slots.length) :
    Ends (do
        let _ ← slot_map_mut
        setStates operation state sizes
        modify (fun s => { s with slot_allocator := { s.slot_allocator with
          content_slot_map := change s.slot_allocator.content_slot_map } })
        save_content_slot_map : Prog Unit) (s.moved m c file sf cf as)
      (fun _ t => ∃ bs, bs <:+ as ∧
        t = s.moved (m.restate state (sizes.map Prod.fst)) (change c) file sf
          (some (.whole (change c))) bs)
      (fun _ t => ¬ Quiet as ∧ ∃ bs cf', bs <:+ as ∧
        t = s.moved (m.restate state (sizes.map Prod.fst)) (change c) file sf cf' bs ∧
        (cf' = cf ∨ ∃ n, cf' = some (.cut (change c) n))) := by
  rw [ends_bind]
  refine (slot_map_mut_ends (m := m) rfl).mono ?_ (fun _ _ h => h.elim)
  rintro _ _ ⟨rfl, rfl⟩
  rw [ends_bind]
  refine ends_of_ok (setStates_eq operation state (m := m) rfl hin) ?_
  rw [ends_bind, ends_modify]
  exact save_content_slot_map_ends (s := s)

theorem mark_slots_as_content_ends (sizes : List (Nat × Nat)) (id : Text) (hash : Bytes32)
    {c : ContentSlotMap} {sf : Option (JsonFile SlotMap)} {cf : Option (JsonFile ContentSlotMap)}
    {as : List Answer} (hin : ∀ p ∈ sizes, p.1 < m.slots.length) :
    Ends (mark_slots_as_content sizes id hash) (s.moved m c file sf cf as)
      (fun _ t => ∃ bs, bs <:+ as ∧
        t = s.moved (m.restate (.Content id hash) (sizes.map Prod.fst)) (c.insert id sizes) file
          sf (some (.whole (c.insert id sizes))) bs)
      (fun _ t => ¬ Quiet as ∧ ∃ bs cf', bs <:+ as ∧
        t = s.moved (m.restate (.Content id hash) (sizes.map Prod.fst)) (c.insert id sizes) file
          sf cf' bs ∧ (cf' = cf ∨ ∃ n, cf' = some (.cut (c.insert id sizes) n))) :=
  changeMaps_ends "mark_slots_as_content" (.Content id hash) (fun c => c.insert id sizes) hin

/-! ## The section of a store -/

variable (o : Outside)

/-- The slots that a content takes. -/
def takenSlots (m : SlotMap) (chunks : List Bytes) : List Nat :=
  (openSlots m chunks.length).take chunks.length

/-- The slots of a content with the sizes of its chunks. -/
def takenSizes (m : SlotMap) (chunks : List Bytes) : List (Nat × Nat) :=
  ((openSlots m chunks.length).zip chunks).map (fun p => (p.1, p.2.length))

def chunkHashes (chunks : List Bytes) : List Bytes32 :=
  chunks.map (fun chunk => hash_chunk o (padTo MAX_CHUNK_SIZE chunk))

/-- The slot map with a content in it. -/
def SlotMap.holding (m : SlotMap) (id : Text) (chunks : List Bytes) : SlotMap :=
  m.restate (.Content id (committedHash o (chunkHashes o chunks))) (takenSlots m chunks)

theorem zip_fst_eq_take (indices : List Nat) (chunks : List Bytes) :
    (indices.zip chunks).map Prod.fst = indices.take chunks.length := by
  induction indices generalizing chunks with
  | nil => simp
  | cons i indices ih =>
    cases chunks with
    | nil => rfl
    | cons chunk chunks =>
      rw [List.zip_cons_cons, List.map_cons, ih, List.length_cons, List.take_succ_cons]

theorem takenSizes_fst (m : SlotMap) (chunks : List Bytes) :
    (takenSizes m chunks).map Prod.fst = takenSlots m chunks := by
  unfold takenSizes takenSlots
  rw [List.map_map]
  exact zip_fst_eq_take _ _

theorem takenSlots_open {chunks : List Bytes} {i : Nat} (h : i ∈ takenSlots m chunks) :
    ∃ slot, m.slots[i]? = some slot ∧ slot.state = .Open :=
  openSlots_open (List.mem_of_mem_take h)

theorem takenSizes_lt {chunks : List Bytes} {p : Nat × Nat} (h : p ∈ takenSizes m chunks) :
    p.1 < m.slots.length := by
  obtain ⟨q, hq, rfl⟩ := List.mem_map.mp h
  obtain ⟨slot, hslot, _⟩ := openSlots_open (List.of_mem_zip hq).1
  exact (List.getElem?_eq_some_iff.mp hslot).1

/-- The file holds a new content, and nothing else in it has changed. -/
structure Placed (m : SlotMap) (chunks : List Bytes) (file file' : Bytes) : Prop where
  touched : Touched m (takenSlots m chunks) file file'
  filled : Filled m (openSlots m chunks.length) chunks file'

theorem storeSection_ends (hm : s.slot_allocator.slot_map = some m)
    (hfile : s.disk.capacity_file = some file) (hl : Layout m file) (id : Text)
    (chunks : List Bytes) :
    Ends (storeSection o id chunks) s
      (fun r t => r = (takenSlots m chunks, chunkHashes o chunks) ∧
        ∃ file' as, as <:+ s.answers ∧ Placed m chunks file file' ∧
          t = s.moved (m.holding o id chunks)
            (s.slot_allocator.content_slot_map.insert id (takenSizes m chunks)) file'
            (some (.whole (m.holding o id chunks)))
            (some (.whole (s.slot_allocator.content_slot_map.insert id (takenSizes m chunks)))) as)
      (fun _ t =>
        (∃ file' as, as <:+ s.answers ∧ Touched m (takenSlots m chunks) file file' ∧
          t = s.moved m s.slot_allocator.content_slot_map file' s.disk.slots_file
            s.disk.content_slot_map_file as ∧
          (Quiet s.answers → chunks.length ≤ (openSlots m chunks.length).length →
            ¬ ChunksFit m (openSlots m chunks.length) chunks)) ∨
        (¬ Quiet s.answers ∧ ∃ file' as sf' cf', as <:+ s.answers ∧ Placed m chunks file file' ∧
          t = s.moved (m.holding o id chunks)
            (s.slot_allocator.content_slot_map.insert id (takenSizes m chunks)) file' sf' cf' as ∧
          SaveStopped (m.holding o id chunks)
            (s.slot_allocator.content_slot_map.insert id (takenSizes m chunks))
            s.disk.slots_file sf' s.disk.content_slot_map_file cf')) := by
  unfold storeSection
  rw [ends_bind]
  refine (find_open_slots_ends hm chunks.length).mono ?_ ?_
  · rintro _ _ ⟨rfl, henough, rfl⟩
    rw [ends_bind]
    refine (writeChunks_ends o hm hfile hl (openSlots_nodup m _) chunks 0).mono ?_ ?_
    · rintro ⟨sizes, hashes⟩ t ⟨rfl, rfl, file', ht, htouched, hfilled⟩
      obtain ⟨as, has, rfl⟩ := ht.moved hm
      have hplaced : Placed m chunks file file' := ⟨htouched, hfilled⟩
      rw [ends_bind]
      refine (mark_slots_as_content_ends (s := s) (m := m) (takenSizes m chunks) id
        (committedHash o (chunkHashes o chunks)) (fun p => takenSizes_lt)).mono ?_ ?_
      · rintro _ t ⟨bs, hbs, rfl⟩
        rw [takenSizes_fst, ends_bind]
        refine save_slot_map_ends.mono ?_ ?_
        · rintro _ u ⟨cs, hcs, rfl⟩
          refine ⟨?_, file', cs, List.IsSuffix.trans hcs (List.IsSuffix.trans hbs has), hplaced,
            rfl⟩
          exact congrArg (fun is => (is, chunkHashes o chunks)) (takenSizes_fst m chunks)
        · rintro _ u ⟨hquiet, cs, sf', hcs, rfl, hsf⟩
          exact Or.inr ⟨fun hq => hquiet (hq.suffix (List.IsSuffix.trans hbs has)), file', cs, sf',
            _, List.IsSuffix.trans hcs (List.IsSuffix.trans hbs has), hplaced, rfl,
            Or.inr ⟨rfl, hsf⟩⟩
      · rintro _ t ⟨hquiet, bs, cf', hbs, rfl, hcf⟩
        rw [takenSizes_fst]
        exact Or.inr ⟨fun hq => hquiet (hq.suffix has), file', bs, _, cf',
          List.IsSuffix.trans hbs has, hplaced, rfl, Or.inl ⟨rfl, hcf⟩⟩
    · rintro _ t ⟨⟨file', ht, htouched⟩, hquiet⟩
      obtain ⟨as, has, rfl⟩ := ht.moved hm
      exact Or.inl ⟨file', as, has, htouched, rfl, hquiet⟩
  · rintro _ _ ⟨hfew, rfl⟩
    obtain ⟨as, has, heq⟩ := ((Used.refl s).wrote hfile).moved hm
    exact Or.inl ⟨file, as, has, Touched.refl m _ file, heq, fun _ hle => absurd hle (by omega)⟩

/-! ## The section of a delete -/

/-- The hash of a slot once it is zero. -/
def zeroHash (m : SlotMap) (i : Nat) : Bytes32 :=
  hash_chunk o (zeros ((m.slots[i]?.map Slot.size).getD 0))

theorem zeroHashes_eq {sizes : List (Nat × Nat)} (hin : ∀ p ∈ sizes, p.1 < m.slots.length)
    (s : CapacityManager) :
    zeroHashes o m.slots sizes s = .ok (sizes.map (fun p => zeroHash o m p.1)) s := by
  induction sizes with
  | nil => rfl
  | cons p sizes ih =>
    have hslot := List.getElem?_eq_getElem (hin p List.mem_cons_self)
    have hrest := ih (fun q hq => hin q (List.mem_cons_of_mem _ hq))
    rw [zeroHashes, hslot]
    simp only
    rw [bind_of_ok _ hrest, List.map_cons, zeroHash, hslot]
    rfl

/-- The slots of the list are zero. -/
def Zeroed (m : SlotMap) (indices : List Nat) (file : Bytes) : Prop :=
  ∀ i ∈ indices, ∀ slot, m.slots[i]? = some slot → slotBytes m file i = some (zeros slot.size)

theorem zeroSlots_ends (hm : s.slot_allocator.slot_map = some m)
    (hfile : s.disk.capacity_file = some file) (hl : Layout m file) {sizes : List (Nat × Nat)}
    (hin : ∀ p ∈ sizes, p.1 < m.slots.length) :
    Ends (zeroSlots o sizes) s
      (fun _ t => ∃ file', Wrote s file' t ∧ Touched m (sizes.map Prod.fst) file file' ∧
        Zeroed m (sizes.map Prod.fst) file')
      (fun _ t => (∃ file', Wrote s file' t ∧ Touched m (sizes.map Prod.fst) file file') ∧
        ¬ Quiet s.answers) := by
  induction sizes generalizing s file with
  | nil =>
    rw [zeroSlots, ends_pure]
    exact ⟨file, (Used.refl s).wrote hfile, Touched.refl m _ file, fun i hi => by cases hi⟩
  | cons p sizes ih =>
    have hhead : [p.1] ⊆ (p :: sizes).map Prod.fst := by simp
    have htail : sizes.map Prod.fst ⊆ (p :: sizes).map Prod.fst := by simp
    rw [zeroSlots, ends_bind]
    refine (write_chunk_to_slot_touches o hm hfile hl p.1 []).mono ?_ ?_
    · rintro _ t ⟨slot, file', hslot, _, _, ht, htouched, hbytes⟩
      rw [padTo_nil] at hbytes
      refine (ih (ht.slot_allocator ▸ hm) ht.capacity_file (hl.of_length htouched.1)
        (fun q hq => hin q (List.mem_cons_of_mem _ hq))).mono ?_ ?_
      · rintro _ u ⟨file'', hu, htouched', hzero⟩
        refine ⟨file'', ht.trans hu, (htouched.mono hhead).trans (htouched'.mono htail), ?_⟩
        intro i hi slot' hslot'
        by_cases hlater : i ∈ sizes.map Prod.fst
        · exact hzero i hlater slot' hslot'
        · have hi' : i = p.1 := by
            rcases List.mem_cons.mp hi with h | h
            · exact h
            · exact absurd h hlater
          subst hi'
          rw [hslot] at hslot'
          cases hslot'
          rw [htouched'.2 _ hlater]
          exact hbytes
      · rintro _ u ⟨⟨file'', hu, htouched'⟩, hquiet⟩
        exact ⟨⟨file'', ht.trans hu, (htouched.mono hhead).trans (htouched'.mono htail)⟩,
          fun hq => hquiet (ht.quiet hq)⟩
    · rintro _ t ⟨⟨file', ht, htouched⟩, hquiet⟩
      have hslot := List.getElem?_eq_getElem (hin p List.mem_cons_self)
      exact ⟨⟨file', ht, htouched.mono hhead⟩, hquiet _ hslot (Nat.zero_le _)⟩

theorem find_slots_by_content_id_ends (id : Text) (s : CapacityManager) :
    Ends (find_slots_by_content_id id) s
      (fun sizes t => s.slot_allocator.content_slot_map[id]? = some sizes ∧ s = t)
      (fun _ t => s.slot_allocator.content_slot_map[id]? = none ∧ s = t) := by
  unfold find_slots_by_content_id
  rw [ends_bind, ends_get]
  cases h : s.slot_allocator.content_slot_map[id]? with
  | none => exact ⟨rfl, rfl⟩
  | some sizes => exact ⟨rfl, rfl⟩

theorem find_slots_by_content_id_eq {id : Text} {sizes : List (Nat × Nat)}
    (hid : s.slot_allocator.content_slot_map[id]? = some sizes) :
    find_slots_by_content_id id s = .ok sizes s := by
  cases h : find_slots_by_content_id id s with
  | ok r u =>
    obtain ⟨hr, rfl⟩ := (find_slots_by_content_id_ends id s).of_ok h
    rw [hid] at hr
    cases hr
    rfl
  | error e u =>
    have hr := ((find_slots_by_content_id_ends id s).of_error h).1
    rw [hid] at hr
    cases hr

theorem remove_content_by_id_ends {id : Text} {sizes : List (Nat × Nat)}
    {cm : ContentSlotMap} {sf : Option (JsonFile SlotMap)} {cf : Option (JsonFile ContentSlotMap)}
    {as : List Answer} (hid : cm[id]? = some sizes) (hin : ∀ p ∈ sizes, p.1 < m.slots.length) :
    Ends (remove_content_by_id id) (s.moved m cm file sf cf as)
      (fun r t => sizes = r ∧ ∃ bs, bs <:+ as ∧
        t = s.moved (m.restate .Open (sizes.map Prod.fst)) (cm.erase id) file sf
          (some (.whole (cm.erase id))) bs)
      (fun _ t => ¬ Quiet as ∧ ∃ bs cf', bs <:+ as ∧
        t = s.moved (m.restate .Open (sizes.map Prod.fst)) (cm.erase id) file sf cf' bs ∧
        (cf' = cf ∨ ∃ n, cf' = some (.cut (cm.erase id) n))) := by
  have hends := @changeMaps_ends s m file "remove_content_by_id" .Open sizes (fun c => c.erase id)
    cm sf cf as hin
  simp only [ends_bind] at hends
  unfold remove_content_by_id
  rw [ends_bind]
  refine ends_of_ok (find_slots_by_content_id_eq hid) ?_
  simp only [ends_bind, ends_pure]
  refine hends.mono ?_ (fun _ _ h => h)
  intro _ t h
  refine h.mono ?_ (fun _ _ h => h)
  intro _ t h
  refine h.mono ?_ (fun _ _ h => h)
  intro _ t h
  exact h.mono (fun _ _ h => ⟨trivial, h⟩) (fun _ _ h => h)

/-- A content that is not there is an error that changes nothing. -/
theorem deleteSection_unknown {id : Text}
    (h : s.slot_allocator.content_slot_map[id]? = none) :
    Ends (deleteSection o id) s (fun _ _ => False) (fun _ t => s = t) := by
  unfold deleteSection
  rw [ends_bind]
  refine (find_slots_by_content_id_ends id s).mono ?_ (fun _ _ h => h.2)
  rintro sizes t ⟨hsome, _⟩
  rw [h] at hsome
  cases hsome

theorem deleteSection_ends (hm : s.slot_allocator.slot_map = some m)
    (hfile : s.disk.capacity_file = some file) (hl : Layout m file) {id : Text}
    {sizes : List (Nat × Nat)} (hid : s.slot_allocator.content_slot_map[id]? = some sizes)
    (hin : ∀ p ∈ sizes, p.1 < m.slots.length) :
    Ends (deleteSection o id) s
      (fun r t => r = (sizes.map Prod.fst, sizes.map (fun p => zeroHash o m p.1)) ∧
        ∃ file' as, as <:+ s.answers ∧ Touched m (sizes.map Prod.fst) file file' ∧
          Zeroed m (sizes.map Prod.fst) file' ∧
          t = s.moved (m.restate .Open (sizes.map Prod.fst))
            (s.slot_allocator.content_slot_map.erase id) file'
            (some (.whole (m.restate .Open (sizes.map Prod.fst))))
            (some (.whole (s.slot_allocator.content_slot_map.erase id))) as)
      (fun _ t => ¬ Quiet s.answers ∧
        ((∃ file' as, as <:+ s.answers ∧ Touched m (sizes.map Prod.fst) file file' ∧
          t = s.moved m s.slot_allocator.content_slot_map file' s.disk.slots_file
            s.disk.content_slot_map_file as) ∨
        ∃ file' as sf' cf', as <:+ s.answers ∧ Touched m (sizes.map Prod.fst) file file' ∧
          Zeroed m (sizes.map Prod.fst) file' ∧
          t = s.moved (m.restate .Open (sizes.map Prod.fst))
            (s.slot_allocator.content_slot_map.erase id) file' sf' cf' as ∧
          SaveStopped (m.restate .Open (sizes.map Prod.fst))
            (s.slot_allocator.content_slot_map.erase id)
            s.disk.slots_file sf' s.disk.content_slot_map_file cf')) := by
  unfold deleteSection
  rw [ends_bind]
  refine ends_of_ok (find_slots_by_content_id_eq hid) ?_
  rw [ends_bind]
  refine (slot_map_ref_ends hm).mono ?_ (fun _ _ h => h.elim)
  rintro _ _ ⟨rfl, rfl⟩
  rw [ends_bind]
  refine ends_of_ok (zeroHashes_eq o hin s) ?_
  rw [ends_bind]
  refine (zeroSlots_ends o hm hfile hl hin).mono ?_ ?_
  · rintro _ t ⟨file', ht, htouched, hzero⟩
    obtain ⟨as, has, rfl⟩ := ht.moved hm
    rw [ends_bind]
    refine (remove_content_by_id_ends (s := s) (m := m) hid hin).mono ?_ ?_
    · rintro _ t ⟨rfl, bs, hbs, rfl⟩
      rw [ends_bind]
      refine save_slot_map_ends.mono ?_ ?_
      · rintro _ u ⟨cs, hcs, rfl⟩
        exact ⟨rfl, file', cs, List.IsSuffix.trans hcs (List.IsSuffix.trans hbs has), htouched,
          hzero, rfl⟩
      · rintro _ u ⟨hquiet, cs, sf', hcs, rfl, hsf⟩
        exact ⟨fun hq => hquiet (hq.suffix (List.IsSuffix.trans hbs has)), Or.inr ⟨file', cs, sf',
          _, List.IsSuffix.trans hcs (List.IsSuffix.trans hbs has), htouched, hzero, rfl,
          Or.inr ⟨rfl, hsf⟩⟩⟩
    · rintro _ t ⟨hquiet, bs, cf', hbs, rfl, hcf⟩
      exact ⟨fun hq => hquiet (hq.suffix has), Or.inr ⟨file', bs, _, cf',
        List.IsSuffix.trans hbs has, htouched, hzero, rfl, Or.inl ⟨rfl, hcf⟩⟩⟩
  · rintro _ t ⟨⟨file', ht, htouched⟩, hquiet⟩
    obtain ⟨as, has, rfl⟩ := ht.moved hm
    exact ⟨hquiet, Or.inl ⟨file', as, has, htouched, rfl⟩⟩

/-! ## The section of the tree -/

theorem get_merkle_root_ends (s : CapacityManager) :
    Ends get_merkle_root s (fun _ t => s = t) (fun _ t => s.merkle_tree = none ∧ s = t) := by
  unfold get_merkle_root
  rw [ends_bind, ends_get]
  cases h : s.merkle_tree with
  | none => exact ⟨rfl, rfl⟩
  | some tree => exact rfl

/-- `s` with another tree. -/
def CapacityManager.withTree (s : CapacityManager) (tree : CapacityProofMerkleTree) :
    CapacityManager := { s with merkle_tree := some tree }

open CapacityProofMerkleTree

/-- On a built tree the update gives the tree over the new leaves. -/
theorem update_merkle_tree_for_content_eq {leaves : List Bytes32}
    (htree : s.merkle_tree = some (treeOf o leaves)) (hne : leaves ≠ []) {indices : List Nat}
    {hashes : List Bytes32} (hlen : indices.length = hashes.length)
    (hin : ∀ i ∈ indices, i < leaves.length) :
    update_merkle_tree_for_content o indices hashes s =
      .ok (rootOf o (hash_tree.setAll (indices.zip hashes) leaves))
        (s.withTree (treeOf o (hash_tree.setAll (indices.zip hashes) leaves))) := by
  have hfind : indices.find? (fun i => decide ((treeOf o leaves).leaves.length ≤ i)) = none := by
    rw [List.find?_eq_none]
    intro i hi hle
    exact absurd (hin i hi) (Nat.not_lt.mpr (of_decide_eq_true hle))
  have hupdate := update_leaves_treeOf o (indices.zip hashes) hne
    (fun u hu => hin u.1 (List.of_mem_zip hu).1)
  have hget : (get : Prog CapacityManager) s = .ok s s := rfl
  unfold update_merkle_tree_for_content
  rw [if_neg (not_not.mpr hlen), bind_of_ok _ hget, htree]
  simp only [hfind, hupdate]
  rfl

end eld_chain
