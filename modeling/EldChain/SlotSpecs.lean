-- What each program of the slot allocator does, one statement for each:
-- how it ends when it succeeds, and what it can leave behind when a call
-- to the operating system stops it.
import EldChain.CapacityManager

open Std

namespace eld_chain

open fallible regions

variable {s t : CapacityManager} {m : SlotMap} {file : Bytes}

/-! ## Answers -/

/-- Every answer still to come is a success. -/
def Quiet (answers : List Answer) : Prop := ∀ a ∈ answers, a = .done

theorem Quiet.suffix {as bs : List Answer} (h : Quiet bs) (hs : as <:+ bs) : Quiet as :=
  fun a ha => h a (hs.subset ha)

/-- The state once some answers were used up. -/
def CapacityManager.answered (s : CapacityManager) (answers : List Answer) : CapacityManager :=
  { s with answers := answers }

@[simp] theorem answered_answered (s : CapacityManager) (as bs : List Answer) :
    (s.answered as).answered bs = s.answered bs := rfl

@[simp] theorem answered_self (s : CapacityManager) : s.answered s.answers = s := rfl

/-- `t` is `s` with some answers used up. -/
def Used (s t : CapacityManager) : Prop := ∃ as, as <:+ s.answers ∧ t = s.answered as

theorem Used.refl (s : CapacityManager) : Used s s := ⟨s.answers, List.suffix_rfl, rfl⟩

theorem Used.trans {u : CapacityManager} (h : Used s t) (h' : Used t u) : Used s u := by
  obtain ⟨as, has, rfl⟩ := h
  obtain ⟨bs, hbs, rfl⟩ := h'
  exact ⟨bs, List.IsSuffix.trans hbs has, rfl⟩

theorem Used.quiet (h : Used s t) (hq : Quiet s.answers) : Quiet t.answers := by
  obtain ⟨as, has, rfl⟩ := h
  exact hq.suffix has

theorem nextAnswer_ends (s : CapacityManager) :
    Ends nextAnswer s (fun a t => Used s t ∧ (a ≠ .done → ¬ Quiet s.answers))
      (fun _ _ => False) := by
  cases h : s.answers with
  | nil =>
    refine ends_of_ok (a := .done) (t := s) ?_ ⟨Used.refl s, fun ha => absurd rfl ha⟩
    unfold nextAnswer
    rw [h]
  | cons a rest =>
    have hused : Used s (s.answered rest) := ⟨rest, by rw [h]; exact List.suffix_cons a rest, rfl⟩
    refine ends_of_ok (a := a) (t := s.answered rest) ?_
      ⟨hused, fun ha hq => ha (hq a List.mem_cons_self)⟩
    unfold nextAnswer
    rw [h]
    rfl

/-- `osCall` changes nothing else. It fails only when an answer is no success. -/
theorem osCall_ends (operation what : String) (s : CapacityManager) :
    Ends (osCall operation what) s (fun _ t => Used s t)
      (fun _ t => Used s t ∧ ¬ Quiet s.answers) := by
  unfold osCall
  rw [ends_bind]
  refine (nextAnswer_ends s).mono ?_ (fun _ _ h => h.elim)
  rintro a t ⟨hused, hquiet⟩
  cases a with
  | done => exact hused
  | refused e => exact ⟨hused, hquiet (by simp)⟩
  | cut n e => exact ⟨hused, hquiet (by simp)⟩

/-! ## The capacity file -/

/-- `t` is `s` with the capacity file replaced and some answers used up. -/
def Wrote (s : CapacityManager) (file : Bytes) (t : CapacityManager) : Prop :=
  ∃ as, as <:+ s.answers ∧ t = (s.answered as).setCapacityFile file

theorem Used.wrote (hfile : s.disk.capacity_file = some file) (h : Used s t) :
    Wrote s file t := by
  obtain ⟨as, has, rfl⟩ := h
  refine ⟨as, has, ?_⟩
  unfold CapacityManager.answered CapacityManager.setCapacityFile
  rw [← hfile]

theorem Wrote.trans {u : CapacityManager} {file' : Bytes} (h : Wrote s file t)
    (h' : Wrote t file' u) : Wrote s file' u := by
  obtain ⟨as, has, rfl⟩ := h
  obtain ⟨bs, hbs, rfl⟩ := h'
  exact ⟨bs, List.IsSuffix.trans hbs has, rfl⟩

theorem Wrote.capacity_file (h : Wrote s file t) : t.disk.capacity_file = some file := by
  obtain ⟨as, _, rfl⟩ := h
  rfl

theorem Wrote.slot_allocator (h : Wrote s file t) : t.slot_allocator = s.slot_allocator := by
  obtain ⟨as, _, rfl⟩ := h
  rfl

theorem Wrote.quiet (h : Wrote s file t) (hq : Quiet s.answers) : Quiet t.answers := by
  obtain ⟨as, has, rfl⟩ := h
  exact hq.suffix has

theorem Used.disk (h : Used s t) : t.disk = s.disk := by
  obtain ⟨as, _, rfl⟩ := h
  rfl

theorem Used.slot_allocator (h : Used s t) : t.slot_allocator = s.slot_allocator := by
  obtain ⟨as, _, rfl⟩ := h
  rfl

theorem openCapacityFile_ends (operation what : String)
    (hfile : s.disk.capacity_file = some file) :
    Ends (openCapacityFile operation what) s (fun _ t => Used s t)
      (fun _ t => Used s t ∧ ¬ Quiet s.answers) := by
  unfold openCapacityFile
  rw [ends_bind]
  refine (osCall_ends operation what s).mono ?_ (fun _ _ h => h)
  intro _ t hused
  rw [ends_bind, ends_get, hused.disk, hfile]
  exact hused

/-- A write that is stopped leaves its first bytes. -/
theorem writeAll_ends (operation what : String) (offset : Nat) (data : Bytes)
    (hfile : s.disk.capacity_file = some file) :
    Ends (writeAll operation what offset data) s
      (fun _ t => Wrote s (writeAt 0 file offset data) t)
      (fun _ t => (∃ n, Wrote s (writeAt 0 file offset (data.take n)) t) ∧
        ¬ Quiet s.answers) := by
  unfold writeAll
  rw [ends_bind]
  refine (nextAnswer_ends s).mono ?_ (fun _ _ h => h.elim)
  rintro a t ⟨hused, hquiet⟩
  have hbytes : t.capacityBytes = file := by
    rw [CapacityManager.capacityBytes, hused.disk, hfile]
    rfl
  obtain ⟨as, has, rfl⟩ := hused
  cases a with
  | done =>
    rw [ends_modify, hbytes]
    exact ⟨as, has, rfl⟩
  | refused e =>
    refine ⟨⟨0, ?_⟩, hquiet (by simp)⟩
    rw [List.take_zero, writeAt, if_pos rfl]
    exact Used.wrote hfile ⟨as, has, rfl⟩
  | cut n e =>
    rw [ends_bind, ends_modify, hbytes]
    exact ⟨⟨n, as, has, rfl⟩, hquiet (by simp)⟩

theorem readExact_ends (operation what : String) (offset size : Nat)
    (hfile : s.disk.capacity_file = some file) :
    Ends (readExact operation what offset size) s
      (fun data t => Used s t ∧ readAt file offset size = some data)
      (fun _ t => Used s t ∧ (Quiet s.answers → readAt file offset size = none)) := by
  unfold readExact
  rw [ends_bind]
  refine (osCall_ends operation what s).mono ?_
    (fun _ _ h => ⟨h.1, fun hq => absurd hq h.2⟩)
  intro _ t hused
  have hbytes : t.capacityBytes = file := by
    rw [CapacityManager.capacityBytes, hused.disk, hfile]
    rfl
  rw [ends_bind, ends_get, hbytes]
  cases readAt file offset size with
  | none => exact ⟨hused, fun _ => rfl⟩
  | some data => exact ⟨hused, rfl⟩

/-! ## The slots of the file -/

/-- The bytes of a slot. -/
def slotBytes (m : SlotMap) (file : Bytes) (k : Nat) : Option Bytes :=
  match m.slots[k]? with
  | none => none
  | some (slot : Slot) => readAt file slot.offset slot.size

/-- The slots lie in the file, apart from each other, and none is larger than a chunk. -/
structure Layout (m : SlotMap) (file : Bytes) : Prop where
  fits : ∀ (k : Nat) (slot : Slot), m.slots[k]? = some slot → slot.offset + slot.size ≤ file.length
  apart : ∀ (i k : Nat) (a b : Slot), m.slots[i]? = some a → m.slots[k]? = some b → i ≠ k →
    Apart a.offset a.size b.offset b.size
  small : ∀ (k : Nat) (slot : Slot), m.slots[k]? = some slot → slot.size ≤ MAX_CHUNK_SIZE

/-- Only slots of the list differ. -/
def Touched (m : SlotMap) (indices : List Nat) (file file' : Bytes) : Prop :=
  file'.length = file.length ∧ ∀ k, k ∉ indices → slotBytes m file' k = slotBytes m file k

theorem Touched.refl (m : SlotMap) (indices : List Nat) (file : Bytes) :
    Touched m indices file file := ⟨rfl, fun _ _ => rfl⟩

theorem Touched.trans {m : SlotMap} {is : List Nat} {f f' f'' : Bytes} (h : Touched m is f f')
    (h' : Touched m is f' f'') : Touched m is f f'' :=
  ⟨h'.1.trans h.1, fun k hk => (h'.2 k hk).trans (h.2 k hk)⟩

theorem Touched.mono {m : SlotMap} {is ks : List Nat} {f f' : Bytes} (h : Touched m is f f')
    (hsub : is ⊆ ks) : Touched m ks f f' := ⟨h.1, fun k hk => h.2 k (fun hi => hk (hsub hi))⟩

/-- The slots of a map from one on: the first of them, and the rest. -/
theorem slots_from_cons {m : SlotMap} {slot : Slot} {rest : List Slot} {idx : Nat}
    (hslots : ∀ i : Nat, (slot :: rest)[i]? = m.slots[idx + i]?) :
    m.slots[idx]? = some slot ∧ ∀ i : Nat, rest[i]? = m.slots[idx + 1 + i]? := by
  constructor
  · rw [← Nat.add_zero idx, ← hslots 0]
    rfl
  · intro i
    rw [Nat.add_assoc, Nat.add_comm 1 i, ← hslots (i + 1)]
    rfl

theorem Layout.of_length (h : Layout m file) {file' : Bytes}
    (hlen : file'.length = file.length) : Layout m file' :=
  ⟨fun k slot hk => hlen ▸ h.fits k slot hk, h.apart, h.small⟩

theorem Layout.slotBytes (h : Layout m file) {k : Nat} {slot : Slot}
    (hk : m.slots[k]? = some slot) :
    slotBytes m file k = some ((file.drop slot.offset).take slot.size) := by
  unfold eld_chain.slotBytes
  rw [hk]
  exact readAt_of_le (h.fits k slot hk)

theorem length_of_slotBytes {k : Nat} {slot : Slot} {data : Bytes} (hk : m.slots[k]? = some slot)
    (h : slotBytes m file k = some data) : data.length = slot.size := by
  unfold slotBytes at h
  rw [hk] at h
  exact length_of_readAt h

theorem length_padTo {size : Nat} {data : Bytes} (h : data.length ≤ size) :
    (padTo size data).length = size := by
  unfold padTo zeros
  rw [List.length_append, List.length_replicate]
  omega

theorem padTo_of_length {size : Nat} {data : Bytes} (h : data.length = size) :
    padTo size data = data := by
  unfold padTo zeros
  rw [h, Nat.sub_self, List.replicate_zero, List.append_nil]

theorem take_padTo {size : Nat} (data : Bytes) : (padTo size data).take data.length = data := by
  unfold padTo
  rw [List.take_left]

theorem padTo_nil (size : Nat) : padTo size [] = zeros size := by
  unfold padTo
  rw [List.nil_append, List.length_nil, Nat.sub_zero]

/-- Writing at a slot leaves the other slots. -/
theorem Layout.touched_writeAt (h : Layout m file) {k : Nat} {slot : Slot} {data : Bytes}
    (hk : m.slots[k]? = some slot) (hlen : data.length ≤ slot.size) :
    Touched m [k] file (writeAt 0 file slot.offset data) := by
  have hin : slot.offset + data.length ≤ file.length := by
    have := h.fits k slot hk
    omega
  refine ⟨length_writeAt hin, ?_⟩
  intro i hi
  rw [List.mem_singleton] at hi
  unfold eld_chain.slotBytes
  cases hslot : m.slots[i]? with
  | none => rfl
  | some other =>
    apply readAt_writeAt_of_apart hin
    have := h.apart k i slot other hk hslot (fun he => hi he.symm)
    unfold Apart at *
    omega

theorem Layout.slotBytes_writeAt (h : Layout m file) {k : Nat} {slot : Slot} {data : Bytes}
    (hk : m.slots[k]? = some slot) (hlen : data.length = slot.size) :
    eld_chain.slotBytes m (writeAt 0 file slot.offset data) k = some data := by
  have hin : slot.offset + data.length ≤ file.length := by
    have := h.fits k slot hk
    omega
  unfold eld_chain.slotBytes
  rw [hk]
  simp only [← hlen]
  exact readAt_writeAt_self hin

theorem slot_map_ref_ends (hm : s.slot_allocator.slot_map = some m) :
    Ends slot_map_ref s (fun r t => m = r ∧ s = t) (fun _ _ => False) := by
  unfold slot_map_ref
  rw [ends_bind, ends_get, hm]
  exact ⟨rfl, rfl⟩

theorem slot_map_mut_ends (hm : s.slot_allocator.slot_map = some m) :
    Ends slot_map_mut s (fun r t => m = r ∧ s = t) (fun _ _ => False) := by
  unfold slot_map_mut
  rw [ends_bind, ends_get, hm]
  exact ⟨rfl, rfl⟩

variable (o : Outside)

/-- A slot is written whole, or its first bytes are. -/
theorem write_chunk_to_slot_ends (hm : s.slot_allocator.slot_map = some m)
    (hfile : s.disk.capacity_file = some file) (i : Nat) (data : Bytes) :
    Ends (write_chunk_to_slot o i data) s
      (fun hash t => ∃ slot, m.slots[i]? = some slot ∧ data.length ≤ slot.size ∧
        hash = hash_chunk o (padTo slot.size data) ∧
        Wrote s (writeAt 0 file slot.offset (padTo slot.size data)) t)
      (fun _ t =>
        (Wrote s file t ∨ ∃ slot n, m.slots[i]? = some slot ∧ data.length ≤ slot.size ∧
          Wrote s (writeAt 0 file slot.offset ((padTo slot.size data).take n)) t) ∧
        ∀ slot, m.slots[i]? = some slot → data.length ≤ slot.size → ¬ Quiet s.answers) := by
  have hsame : Wrote s file s := (Used.refl s).wrote hfile
  unfold write_chunk_to_slot
  rw [ends_bind]
  refine (slot_map_ref_ends hm).mono ?_ (fun _ _ h => h.elim)
  rintro _ _ ⟨rfl, rfl⟩
  cases hslot : m.slots[i]? with
  | none => exact ⟨Or.inl hsame, fun slot h => by cases h⟩
  | some slot =>
    by_cases hsize : slot.size < data.length
    · simp only [if_pos hsize]
      refine ⟨Or.inl hsame, fun slot' h hle => ?_⟩
      cases h
      omega
    · simp only [if_neg hsize]
      rw [ends_bind]
      refine (openCapacityFile_ends _ _ hfile).mono ?_
        (fun _ t h => ⟨Or.inl (h.1.wrote hfile), fun _ _ _ => h.2⟩)
      intro _ t ht
      rw [ends_bind]
      refine (osCall_ends _ _ t).mono ?_ (fun _ u h => ⟨Or.inl ((ht.trans h.1).wrote hfile),
        fun _ _ _ hq => h.2 (ht.quiet hq)⟩)
      intro _ u hu
      have hwrote := (ht.trans hu).wrote hfile
      rw [ends_bind]
      refine (writeAll_ends _ _ _ _ hwrote.capacity_file).mono ?_ ?_
      · intro _ v hv
        exact ⟨slot, rfl, by omega, rfl, hwrote.trans hv⟩
      · rintro _ v ⟨⟨n, hv⟩, hquiet⟩
        exact ⟨Or.inr ⟨slot, n, rfl, by omega, hwrote.trans hv⟩,
          fun _ _ _ hq => hquiet (hwrote.quiet hq)⟩

/-- Either way only the one slot is touched. -/
theorem write_chunk_to_slot_touches (hm : s.slot_allocator.slot_map = some m)
    (hfile : s.disk.capacity_file = some file) (hl : Layout m file) (i : Nat) (data : Bytes) :
    Ends (write_chunk_to_slot o i data) s
      (fun hash t => ∃ slot file', m.slots[i]? = some slot ∧ data.length ≤ slot.size ∧
        hash = hash_chunk o (padTo slot.size data) ∧ Wrote s file' t ∧
        Touched m [i] file file' ∧ slotBytes m file' i = some (padTo slot.size data))
      (fun _ t => (∃ file', Wrote s file' t ∧ Touched m [i] file file') ∧
        ∀ slot, m.slots[i]? = some slot → data.length ≤ slot.size → ¬ Quiet s.answers) := by
  refine (write_chunk_to_slot_ends o hm hfile i data).mono ?_ ?_
  · rintro hash t ⟨slot, hslot, hle, hhash, ht⟩
    have hlen := length_padTo hle
    exact ⟨slot, _, hslot, hle, hhash, ht, hl.touched_writeAt hslot hlen.le,
      hl.slotBytes_writeAt hslot hlen⟩
  · rintro _ t ⟨hw, hquiet⟩
    refine ⟨?_, hquiet⟩
    rcases hw with hw | ⟨slot, n, hslot, hle, hw⟩
    · exact ⟨file, hw, Touched.refl m _ file⟩
    · refine ⟨_, hw, hl.touched_writeAt hslot ?_⟩
      rw [List.length_take, length_padTo hle]
      omega

/-! ## Choosing open slots -/

theorem openLoop_mem {n i : Nat} {slots : List Slot} {idx : Nat} {found : List Nat}
    (h : i ∈ openLoop n slots idx found) :
    i ∈ found ∨ ∃ k slot, slots[k]? = some slot ∧ slot.state = .Open ∧ i = idx + k := by
  induction slots generalizing idx found with
  | nil => exact Or.inl h
  | cons slot rest ih =>
    have hlater : ∀ {found' : List Nat}, i ∈ openLoop n rest (idx + 1) found' →
        i ∈ found' ∨ ∃ k slot', (slot :: rest)[k]? = some slot' ∧ slot'.state = .Open ∧
          i = idx + k := by
      intro found' h'
      rcases ih h' with h' | ⟨k, slot', hk, ho, hi⟩
      · exact Or.inl h'
      · exact Or.inr ⟨k + 1, slot', hk, ho, by omega⟩
    unfold openLoop at h
    by_cases hopen : slot.state = .Open
    · have hlast : i ∈ found ++ [idx] → i ∈ found ∨ ∃ k slot', (slot :: rest)[k]? = some slot' ∧
          slot'.state = .Open ∧ i = idx + k := by
        intro hi
        rcases List.mem_append.mp hi with hi | hi
        · exact Or.inl hi
        · exact Or.inr ⟨0, slot, rfl, hopen, by simpa using hi⟩
      rw [if_pos hopen] at h
      by_cases hn : n ≤ found.length + 1
      · rw [if_pos hn] at h
        exact hlast h
      · rw [if_neg hn] at h
        rcases hlater h with h | h
        · exact hlast h
        · exact Or.inr h
    · rw [if_neg hopen] at h
      exact hlater h

theorem openLoop_nodup {n : Nat} {slots : List Slot} {idx : Nat} {found : List Nat}
    (hfound : found.Nodup) (hlt : ∀ i ∈ found, i < idx) : (openLoop n slots idx found).Nodup := by
  induction slots generalizing idx found with
  | nil => exact hfound
  | cons slot rest ih =>
    unfold openLoop
    have hnext : (found ++ [idx]).Nodup := by
      refine List.nodup_append.mpr ⟨hfound, List.nodup_singleton idx, ?_⟩
      intro a ha b hb
      rw [List.mem_singleton] at hb
      have := hlt a ha
      omega
    by_cases hopen : slot.state = .Open
    · rw [if_pos hopen]
      by_cases hn : n ≤ found.length + 1
      · rw [if_pos hn]
        exact hnext
      · rw [if_neg hn]
        apply ih hnext
        intro i hi
        rcases List.mem_append.mp hi with hi | hi
        · have := hlt i hi
          omega
        · have := List.mem_singleton.mp hi
          omega
    · rw [if_neg hopen]
      apply ih hfound
      intro i hi
      have := hlt i hi
      omega

/-- The slots that a store of `n` chunks takes. -/
def openSlots (m : SlotMap) (n : Nat) : List Nat := openLoop n m.slots 0 []

theorem openSlots_nodup (m : SlotMap) (n : Nat) : (openSlots m n).Nodup :=
  openLoop_nodup List.nodup_nil (by simp)

/-- They are open. -/
theorem openSlots_open {n i : Nat} (h : i ∈ openSlots m n) :
    ∃ slot, m.slots[i]? = some slot ∧ slot.state = .Open := by
  rcases openLoop_mem h with h | ⟨k, slot, hk, ho, hi⟩
  · cases h
  · rw [Nat.zero_add] at hi
    exact ⟨slot, hi ▸ hk, ho⟩

theorem find_open_slots_ends (hm : s.slot_allocator.slot_map = some m) (n : Nat) :
    Ends (find_open_slots n) s
      (fun r t => r = openSlots m n ∧ n ≤ (openSlots m n).length ∧ s = t)
      (fun _ t => (openSlots m n).length < n ∧ s = t) := by
  unfold find_open_slots
  rw [ends_bind]
  refine (slot_map_ref_ends hm).mono ?_ (fun _ _ h => h.elim)
  rintro _ _ ⟨rfl, rfl⟩
  by_cases h : (openLoop n m.slots 0 []).length < n
  · simp only [if_pos h]
    exact ⟨h, rfl⟩
  · simp only [if_neg h]
    exact ⟨rfl, Nat.not_lt.mp h, rfl⟩

/-! ## Writing the chunks of a content -/

/-- Every chunk fits the slot it is given. -/
def ChunksFit (m : SlotMap) (indices : List Nat) (chunks : List Bytes) : Prop :=
  ∀ p ∈ indices.zip chunks, p.2.length ≤ MAX_CHUNK_SIZE ∧
    ∃ slot, m.slots[p.1]? = some slot ∧ MAX_CHUNK_SIZE ≤ slot.size

/-- What a content leaves in the file: each of its slots holds its chunk. -/
structure Filled (m : SlotMap) (indices : List Nat) (chunks : List Bytes) (file : Bytes) :
    Prop where
  enough : chunks.length ≤ indices.length
  fit : ∀ chunk ∈ chunks, chunk.length ≤ MAX_CHUNK_SIZE
  holds : ∀ p ∈ indices.zip chunks, slotBytes m file p.1 = some (padTo MAX_CHUNK_SIZE p.2)

theorem writeChunks_ends (hm : s.slot_allocator.slot_map = some m)
    (hfile : s.disk.capacity_file = some file) (hl : Layout m file) {indices : List Nat}
    (hnodup : indices.Nodup) (chunks : List Bytes) (k : Nat) :
    Ends (writeChunks o chunks indices k) s
      (fun r t => r.1 = (indices.zip chunks).map (fun p => (p.1, p.2.length)) ∧
        r.2 = chunks.map (fun chunk => hash_chunk o (padTo MAX_CHUNK_SIZE chunk)) ∧
        ∃ file', Wrote s file' t ∧ Touched m (indices.take chunks.length) file file' ∧
          Filled m indices chunks file')
      (fun _ t => (∃ file', Wrote s file' t ∧
          Touched m (indices.take chunks.length) file file') ∧
        (Quiet s.answers → chunks.length ≤ indices.length → ¬ ChunksFit m indices chunks)) := by
  induction chunks generalizing s file indices k with
  | nil =>
    rw [writeChunks, ends_pure]
    refine ⟨by simp, rfl, file, (Used.refl s).wrote hfile, Touched.refl m _ file, ?_⟩
    exact ⟨by simp, by simp, by simp⟩
  | cons chunk chunks ih =>
    have hsame : Wrote s file s := (Used.refl s).wrote hfile
    cases indices with
    | nil =>
      refine ⟨⟨file, hsame, Touched.refl m _ file⟩, fun _ hle => ?_⟩
      simp at hle
    | cons i indices =>
      rw [writeChunks]
      by_cases hbig : MAX_CHUNK_SIZE < chunk.length
      · rw [if_pos hbig]
        refine ⟨⟨file, hsame, Touched.refl m _ file⟩, fun _ _ hfit => ?_⟩
        have := (hfit (i, chunk) List.mem_cons_self).1
        simp only at this
        omega
      · rw [if_neg hbig, ends_bind]
        have hpad : (padTo MAX_CHUNK_SIZE chunk).length = MAX_CHUNK_SIZE :=
          length_padTo (by omega)
        have hhead : [i] ⊆ (i :: indices).take (chunks.length + 1) := by simp
        have htail : indices.take chunks.length ⊆ (i :: indices).take (chunks.length + 1) := by
          simp
        refine (write_chunk_to_slot_touches o hm hfile hl i _).mono ?_ ?_
        · rintro hash t ⟨slot, file', hslot, hle, hhash, ht, htouched, hholds⟩
          -- the slot has the size of a chunk, so that nothing more is padded
          have hsize : slot.size = MAX_CHUNK_SIZE := by
            have := hl.small i slot hslot
            omega
          rw [hsize, padTo_of_length hpad] at hhash hholds
          have hl' := hl.of_length htouched.1
          rw [ends_bind]
          refine (ih (ht.slot_allocator ▸ hm) ht.capacity_file hl'
            (List.nodup_cons.mp hnodup).2 (k + 1)).mono ?_ ?_
          · rintro r u ⟨hsizes, hhashes, file'', hu, htouched', hfilled⟩
            rw [ends_pure]
            refine ⟨by simp [hsizes], by simp [hhash, hhashes], file'', ht.trans hu,
              (htouched.mono hhead).trans (htouched'.mono htail), ?_⟩
            refine ⟨by simpa using hfilled.enough, ?_, ?_⟩
            · intro c hc
              rcases List.mem_cons.mp hc with rfl | hc
              · omega
              · exact hfilled.fit c hc
            · intro p hp
              rcases List.mem_cons.mp hp with rfl | hp
              · rw [htouched'.2 i (fun hi => (List.nodup_cons.mp hnodup).1
                  (List.mem_of_mem_take hi))]
                exact hholds
              · exact hfilled.holds p hp
          · rintro _ u ⟨⟨file'', hu, htouched'⟩, hquiet⟩
            refine ⟨⟨file'', ht.trans hu, (htouched.mono hhead).trans (htouched'.mono htail)⟩,
              fun hq hle hfit => ?_⟩
            exact hquiet (ht.quiet hq) (by simpa using hle)
              (fun p hp => hfit p (List.mem_cons_of_mem _ hp))
        · rintro _ t ⟨⟨file', ht, htouched⟩, hquiet⟩
          refine ⟨⟨file', ht, htouched.mono hhead⟩, fun hq _ hfit => ?_⟩
          obtain ⟨slot, hslot, hle⟩ := (hfit (i, chunk) List.mem_cons_self).2
          exact hquiet slot hslot (by omega) hq

end eld_chain
