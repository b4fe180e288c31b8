-- The slot states against the list of contents: which slots the content map
-- lists for a content, and when the calls that mark and release slots keep
-- the two in step. Marking a content that already has slots forgets the
-- old ones, and a save that fails comes after both maps were changed.
import EldChain.SlotOwnership
import EldChain.Library.Runs

open Std

namespace eld_chain

open fallible finite_map

/-! ## Calls on the allocator -/

/-- Marking takes slots that `find_open_slots` has just returned, in its order, as many as
there are sizes for. -/
inductive AllocatorCall
  | mark (deal_id : Text) (committed_hash : Bytes32) (num_slots_needed : Nat)
      (actual_sizes : List Nat)
  | remove (content_id : Text)

def AllocatorCall.run : AllocatorCall → Prog Unit
  | .mark deal_id committed_hash num_slots_needed actual_sizes => do
    let slot_indices ← find_open_slots num_slots_needed
    mark_slots_as_content (slot_indices.zip actual_sizes) deal_id committed_hash
  | .remove content_id => do
    let _ ← remove_content_by_id content_id
    pure ()

/-- A call together with the answers of the operating system to it. -/
def AllocatorCall.step (s : CapacityManager) (call : AllocatorCall × List Answer) :
    Option CapacityManager :=
  some (after call.1.run (s.answered call.2))

/-! ## The two maps in step -/

/-- The content map lists a slot for a content. -/
def Lists (cm : ContentSlotMap) (id : Text) (k : Nat) : Prop :=
  ∃ sizes, cm[id]? = some sizes ∧ k ∈ sizes.map Prod.fst

/-- A slot is marked for a content. -/
def Marked (m : SlotMap) (id : Text) (k : Nat) : Prop :=
  ∃ slot hash, m.slots[k]? = some slot ∧ slot.state = .Content id hash

/-- Slots are marked for the contents that list them, no slot is listed for two contents, and
a slot that is neither listed nor Proof is open. -/
structure Tallies (m : SlotMap) (cm : ContentSlotMap) : Prop where
  marked : ∀ id k, Marked m id k ↔ Lists cm id k
  disjoint : ∀ id id' k, Lists cm id k → Lists cm id' k → id = id'
  released : ∀ k slot, m.slots[k]? = some slot → (∀ id, ¬ Lists cm id k) →
    slot.state ≠ .Proof → slot.state = .Open

/-- The first field is enough for the other two. -/
theorem Tallies.of_marked {m : SlotMap} {cm : ContentSlotMap}
    (h : ∀ id k, Marked m id k ↔ Lists cm id k) : Tallies m cm := by
  refine ⟨h, ?_, ?_⟩
  · intro id id' k hlist hlist'
    obtain ⟨slot, hash, hslot, hstate⟩ := (h id k).mpr hlist
    obtain ⟨slot', hash', hslot', hstate'⟩ := (h id' k).mpr hlist'
    rw [hslot] at hslot'
    cases hslot'
    rw [hstate] at hstate'
    cases hstate'
    rfl
  · intro k slot hslot hnone hproof
    cases hstate : slot.state with
    | Proof => exact absurd hstate hproof
    | Open => rfl
    | Content id hash => exact absurd ((h id k).mp ⟨slot, hash, hslot, hstate⟩) (hnone id)

/-- The maps of a manager are in step, once its slot map is loaded. -/
def InTally (s : CapacityManager) : Prop :=
  ∀ m, s.slot_allocator.slot_map = some m → Tallies m s.slot_allocator.content_slot_map

/-- A call leaves the maps in step, and when it returns an error it leaves both as they
were. -/
def Orderly (s : CapacityManager) (call : AllocatorCall × List Answer) : Prop :=
  InTally (after call.1.run (s.answered call.2)) ∧
    ∀ err t, call.1.run (s.answered call.2) = .error err t →
      t.slot_allocator.slot_map = s.slot_allocator.slot_map ∧
        t.slot_allocator.content_slot_map = s.slot_allocator.content_slot_map

/-- Neither of the two calls to the operating system that a save makes fails. -/
def SavesDone (answers : List Answer) : Prop := ∀ a ∈ answers.take 2, a = .done

/-- A call that gets to change the maps saves them, and marks no content that has slots. -/
def Harmless (s : CapacityManager) : AllocatorCall × List Answer → Prop
  | (.mark id _ num_slots_needed actual_sizes, answers) =>
    ∀ m, s.slot_allocator.slot_map = some m →
      num_slots_needed ≤ (openSlots m num_slots_needed).length →
        (∀ k, ¬ Lists s.slot_allocator.content_slot_map id k) ∧
          (SavesDone answers ∨ (s.slot_allocator.content_slot_map[id]? = some [] ∧
            (openSlots m num_slots_needed).zip actual_sizes = []))
  | (.remove id, answers) =>
    s.slot_allocator.slot_map.isSome → id ∈ s.slot_allocator.content_slot_map → SavesDone answers

/-! ## What a call does -/

variable {s : CapacityManager} {m : SlotMap}

/-- The allocator with both maps replaced. -/
def CapacityManager.mapped (s : CapacityManager) (m : SlotMap) (cm : ContentSlotMap) :
    CapacityManager :=
  { s with slot_allocator := { s.slot_allocator with slot_map := some m, content_slot_map := cm } }

/-- A save changes neither map, whether it succeeds or fails. -/
theorem save_content_slot_map_done (h : SavesDone s.answers) :
    ∃ t, save_content_slot_map s = .ok () t ∧ t.slot_allocator = s.slot_allocator := by
  obtain ⟨dir, provider, alloc, tree, init, disk, answers⟩ := s
  cases answers with
  | nil => exact ⟨_, rfl, rfl⟩
  | cons a answers =>
    obtain rfl := h a List.mem_cons_self
    cases answers with
    | nil => exact ⟨_, rfl, rfl⟩
    | cons b answers =>
      obtain rfl := h b (List.mem_cons_of_mem _ List.mem_cons_self)
      exact ⟨_, rfl, rfl⟩

theorem save_content_slot_map_failed (h : ¬ SavesDone s.answers) :
    ∃ err t, save_content_slot_map s = .error err t ∧ t.slot_allocator = s.slot_allocator := by
  obtain ⟨dir, provider, alloc, tree, init, disk, answers⟩ := s
  cases answers with
  | nil => exact absurd (by simp [SavesDone]) h
  | cons a answers =>
    cases a with
    | refused e => exact ⟨_, _, rfl, rfl⟩
    | cut n e => exact ⟨_, _, rfl, rfl⟩
    | done =>
      cases answers with
      | nil => exact absurd (by simp [SavesDone]) h
      | cons b answers =>
        cases b with
        | done => exact absurd (by simp [SavesDone]) h
        | refused e => exact ⟨_, _, rfl, rfl⟩
        | cut n e => exact ⟨_, _, rfl, rfl⟩

theorem slot_map_mut_eq (hm : s.slot_allocator.slot_map = some m) : slot_map_mut s = .ok m s := by
  cases hr : slot_map_mut s with
  | ok r t =>
    obtain ⟨rfl, rfl⟩ := (slot_map_mut_ends hm).of_ok hr
    rfl
  | error e t => exact ((slot_map_mut_ends hm).of_error hr).elim

/-- With its slots in range, marking changes both maps and then saves. -/
theorem mark_slots_as_content_eq (hm : s.slot_allocator.slot_map = some m)
    {sizes : List (Nat × Nat)} (hin : ∀ p ∈ sizes, p.1 < m.slots.length) (id : Text)
    (hash : Bytes32) :
    mark_slots_as_content sizes id hash s = save_content_slot_map
      (s.mapped (m.restate (.Content id hash) (sizes.map Prod.fst))
        (s.slot_allocator.content_slot_map.insert id sizes)) := by
  unfold mark_slots_as_content
  rw [bind_of_ok _ (slot_map_mut_eq hm), bind_of_ok _ (setStates_eq _ _ hm hin)]
  rfl

theorem find_open_slots_eq (hm : s.slot_allocator.slot_map = some m) {n : Nat}
    (h : n ≤ (openSlots m n).length) : find_open_slots n s = .ok (openSlots m n) s := by
  cases hfind : find_open_slots n s with
  | ok r t =>
    obtain ⟨rfl, _, rfl⟩ := (find_open_slots_ends hm n).of_ok hfind
    rfl
  | error e t =>
    have hlt := ((find_open_slots_ends hm n).of_error hfind).1
    omega

theorem find_open_slots_unloaded (hm : s.slot_allocator.slot_map = none) (n : Nat) :
    ∃ err, find_open_slots n s = .error err s := by
  obtain ⟨dir, provider, alloc, tree, init, disk, answers⟩ := s
  obtain ⟨slot_map, slots_file, capacity_file, content_slot_map, content_slot_map_file⟩ := alloc
  cases hm
  exact ⟨_, rfl⟩

/-- What `mark` comes to once enough slots are open. -/
theorem mark_run_eq (hm : s.slot_allocator.slot_map = some m) {n : Nat}
    (h : n ≤ (openSlots m n).length) (id : Text) (hash : Bytes32) (sizes : List Nat) :
    (AllocatorCall.mark id hash n sizes).run s = save_content_slot_map
      (s.mapped (m.restate (.Content id hash) (((openSlots m n).zip sizes).map Prod.fst))
        (s.slot_allocator.content_slot_map.insert id ((openSlots m n).zip sizes))) := by
  unfold AllocatorCall.run
  simp only
  rw [bind_of_ok _ (find_open_slots_eq hm h)]
  apply mark_slots_as_content_eq hm
  intro p hp
  obtain ⟨slot, hslot, _⟩ := openSlots_open (List.of_mem_zip hp).1
  exact (List.getElem?_eq_some_iff.mp hslot).1

/-- Too few open slots, or no slot map: the call stops where it starts. -/
theorem mark_run_stops {n : Nat}
    (h : ∀ m, s.slot_allocator.slot_map = some m → ¬ n ≤ (openSlots m n).length) (id : Text)
    (hash : Bytes32) (sizes : List Nat) :
    ∃ err, (AllocatorCall.mark id hash n sizes).run s = .error err s := by
  unfold AllocatorCall.run
  simp only
  cases hm : s.slot_allocator.slot_map with
  | none =>
    obtain ⟨e, hstop⟩ := find_open_slots_unloaded hm n
    exact ⟨e, bind_of_error _ hstop⟩
  | some m =>
    cases hfind : find_open_slots n s with
    | ok r t =>
      obtain ⟨_, hle, _⟩ := (find_open_slots_ends hm n).of_ok hfind
      exact absurd hle (h m hm)
    | error e t =>
      obtain ⟨_, rfl⟩ := (find_open_slots_ends hm n).of_error hfind
      exact ⟨e, bind_of_error _ hfind⟩

/-- What `remove` comes to once the content is found. -/
theorem remove_run_eq (hm : s.slot_allocator.slot_map = some m) {id : Text}
    {sizes : List (Nat × Nat)} (hid : s.slot_allocator.content_slot_map[id]? = some sizes)
    (hin : ∀ p ∈ sizes, p.1 < m.slots.length) :
    (AllocatorCall.remove id).run s = save_content_slot_map (s.mapped
      (m.restate .Open (sizes.map Prod.fst)) (s.slot_allocator.content_slot_map.erase id)) := by
  have hremove : remove_content_by_id id s = (save_content_slot_map >>= fun _ => pure sizes)
      (s.mapped (m.restate .Open (sizes.map Prod.fst))
        (s.slot_allocator.content_slot_map.erase id)) := by
    unfold remove_content_by_id
    rw [bind_of_ok _ (find_slots_by_content_id_eq hid), bind_of_ok _ (slot_map_mut_eq hm),
      bind_of_ok _ (setStates_eq _ _ hm hin)]
    rfl
  unfold AllocatorCall.run
  simp only
  cases hsave : save_content_slot_map (s.mapped (m.restate .Open (sizes.map Prod.fst))
      (s.slot_allocator.content_slot_map.erase id)) with
  | ok u t =>
    rw [bind_of_ok _ hsave] at hremove
    rw [bind_of_ok _ hremove]
    rfl
  | error e t =>
    rw [bind_of_error _ hsave] at hremove
    rw [bind_of_error _ hremove]

/-- An unknown content, or no slot map. -/
theorem remove_run_stops {id : Text} (h : s.slot_allocator.slot_map = none ∨
    s.slot_allocator.content_slot_map[id]? = none) :
    ∃ err, (AllocatorCall.remove id).run s = .error err s := by
  have hremove : ∃ err, remove_content_by_id id s = .error err s := by
    unfold remove_content_by_id
    cases hid : s.slot_allocator.content_slot_map[id]? with
    | none =>
      cases hfind : find_slots_by_content_id id s with
      | ok r t =>
        have hr := ((find_slots_by_content_id_ends id s).of_ok hfind).1
        rw [hid] at hr
        cases hr
      | error e t =>
        obtain ⟨_, rfl⟩ := (find_slots_by_content_id_ends id s).of_error hfind
        exact ⟨e, bind_of_error _ hfind⟩
    | some sizes =>
      have hm : s.slot_allocator.slot_map = none := by
        rcases h with hm | hnone
        · exact hm
        · rw [hid] at hnone
          cases hnone
      rw [bind_of_ok _ (find_slots_by_content_id_eq hid)]
      have hstop : ∃ err, slot_map_mut s = .error err s := by
        obtain ⟨dir, provider, alloc, tree, init, disk, answers⟩ := s
        obtain ⟨slot_map, slots_file, capacity_file, content_map, content_map_file⟩ := alloc
        cases hm
        exact ⟨_, rfl⟩
      obtain ⟨err, hstop⟩ := hstop
      exact ⟨err, bind_of_error _ hstop⟩
  obtain ⟨err, hremove⟩ := hremove
  unfold AllocatorCall.run
  exact ⟨err, bind_of_error _ hremove⟩

/-! ## The maps after a change -/

theorem marked_restate {state : SlotState} {indices : List Nat} {id : Text} {k : Nat} :
    Marked (m.restate state indices) id k ↔
      if k ∈ indices then k < m.slots.length ∧ ∃ hash, state = .Content id hash
      else Marked m id k := by
  unfold Marked
  rw [restate_get]
  by_cases hk : k ∈ indices
  · simp only [if_pos hk]
    constructor
    · rintro ⟨slot, hash, hslot, hstate⟩
      obtain ⟨old, hold, rfl⟩ := Option.map_eq_some_iff.mp hslot
      exact ⟨(List.getElem?_eq_some_iff.mp hold).1, hash, hstate⟩
    · rintro ⟨hlt, hash, hstate⟩
      exact ⟨_, hash, by rw [List.getElem?_eq_getElem hlt]; rfl, hstate⟩
  · simp [if_neg hk]

theorem lists_insert {cm : ContentSlotMap} {d id : Text} {sizes : List (Nat × Nat)} {k : Nat} :
    Lists (cm.insert d sizes) id k ↔
      if d = id then k ∈ sizes.map Prod.fst else Lists cm id k := by
  unfold Lists
  rw [get_insert]
  by_cases hd : d = id
  · simp [hd]
  · simp [hd]

theorem lists_erase {cm : ContentSlotMap} {d id : Text} {k : Nat} :
    Lists (cm.erase d) id k ↔ d ≠ id ∧ Lists cm id k := by
  unfold Lists
  rw [ExtTreeMap.getElem?_erase]
  simp only [LawfulEqCmp.compare_eq_iff_eq]
  by_cases hd : d = id
  · simp [hd]
  · simp [hd]

theorem Marked.lt {id : Text} {k : Nat} (h : Marked m id k) : k < m.slots.length := by
  obtain ⟨slot, _, hslot, _⟩ := h
  exact (List.getElem?_eq_some_iff.mp hslot).1

/-- Open slots that are marked for a content keep the maps in step exactly when the content
had no slots before. -/
theorem Tallies.mark_iff {cm : ContentSlotMap} (h : Tallies m cm) {sizes : List (Nat × Nat)}
    (hopen : ∀ k ∈ sizes.map Prod.fst, ∃ slot, m.slots[k]? = some slot ∧ slot.state = .Open)
    (d : Text) (hash : Bytes32) :
    Tallies (m.restate (.Content d hash) (sizes.map Prod.fst)) (cm.insert d sizes) ↔
      ∀ k, ¬ Lists cm d k := by
  have hfree : ∀ id k, k ∈ sizes.map Prod.fst → ¬ Marked m id k := by
    rintro id k hk ⟨slot, hash', hslot, hstate⟩
    obtain ⟨slot', hslot', hstate'⟩ := hopen k hk
    rw [hslot] at hslot'
    cases hslot'
    rw [hstate] at hstate'
    cases hstate'
  constructor
  · intro hnew k hlist
    -- the forgotten slot is still marked
    have hold := (h.marked d k).mpr hlist
    have hk : k ∉ sizes.map Prod.fst := fun hk => hfree d k hk hold
    have hmarked : Marked (m.restate (.Content d hash) (sizes.map Prod.fst)) d k := by
      rw [marked_restate, if_neg hk]
      exact hold
    have hlisted := (hnew.marked d k).mp hmarked
    rw [lists_insert, if_pos rfl] at hlisted
    exact hk hlisted
  · intro hnone
    apply Tallies.of_marked
    intro id k
    rw [marked_restate, lists_insert]
    by_cases hk : k ∈ sizes.map Prod.fst
    · rw [if_pos hk]
      obtain ⟨slot, hslot, _⟩ := hopen k hk
      have hlt := (List.getElem?_eq_some_iff.mp hslot).1
      by_cases hd : d = id
      · simp [hd, hk, hlt]
      · have hlists : ¬ Lists cm id k := fun hl => hfree id k hk ((h.marked id k).mpr hl)
        simp [hd, hlists]
    · rw [if_neg hk, h.marked id k]
      by_cases hd : d = id
      · subst hd
        simp [hk, hnone k]
      · simp [hd]

/-- Releasing the slots of a content keeps the maps in step. -/
theorem Tallies.remove {cm : ContentSlotMap} (h : Tallies m cm) {d : Text}
    {sizes : List (Nat × Nat)} (hd : cm[d]? = some sizes) :
    Tallies (m.restate .Open (sizes.map Prod.fst)) (cm.erase d) := by
  apply Tallies.of_marked
  intro id k
  rw [marked_restate, lists_erase]
  have hin : k ∈ sizes.map Prod.fst ↔ Lists cm d k := by
    unfold Lists
    simp [hd]
  by_cases hk : k ∈ sizes.map Prod.fst
  · have hsame : Lists cm id k → d = id := fun hl => h.disjoint d id k (hin.mp hk) hl
    simp only [if_pos hk]
    constructor
    · rintro ⟨_, hash, hstate⟩
      cases hstate
    · rintro ⟨hne, hl⟩
      exact absurd (hsame hl) hne
  · rw [if_neg hk, h.marked id k]
    constructor
    · intro hl
      refine ⟨?_, hl⟩
      rintro rfl
      exact hk (hin.mpr hl)
    · exact And.right

/-! ## One call -/

theorem answered_slot_allocator (s : CapacityManager) (answers : List Answer) :
    (s.answered answers).slot_allocator = s.slot_allocator := rfl

/-- A call that stops where it starts is orderly. -/
theorem orderly_of_stops (h : InTally s) {call : AllocatorCall × List Answer}
    (hstop : ∃ err, call.1.run (s.answered call.2) = .error err (s.answered call.2)) :
    Orderly s call := by
  obtain ⟨err, hstop⟩ := hstop
  refine ⟨?_, ?_⟩
  · rw [after_of_error hstop]
    exact h
  · intro err' t hrun
    rw [hstop] at hrun
    cases hrun
    exact ⟨rfl, rfl⟩

/-- A call that changes both maps and then saves: it is orderly when the new maps are in
step, and the save succeeds or nothing was changed. -/
theorem orderly_of_save (hm : s.slot_allocator.slot_map = some m) {m' : SlotMap}
    {cm' : ContentSlotMap} {call : AllocatorCall × List Answer}
    (hrun : call.1.run (s.answered call.2) =
      save_content_slot_map ((s.answered call.2).mapped m' cm')) :
    Orderly s call ↔ Tallies m' cm' ∧ (SavesDone call.2 ∨
      (m' = m ∧ cm' = s.slot_allocator.content_slot_map)) := by
  have htally : ∀ t : CapacityManager,
      t.slot_allocator = ((s.answered call.2).mapped m' cm').slot_allocator →
        (InTally t ↔ Tallies m' cm') := by
    intro t ht
    unfold InTally
    rw [ht]
    constructor
    · intro h
      exact h m' rfl
    · rintro h _ ⟨⟩
      exact h
  unfold Orderly
  by_cases hsaves : SavesDone call.2
  · obtain ⟨t, hok, halloc⟩ := save_content_slot_map_done
      (s := (s.answered call.2).mapped m' cm') hsaves
    rw [after_of_ok (hrun.trans hok), htally t halloc, hrun.trans hok]
    simp [hsaves]
  · obtain ⟨err, t, herror, halloc⟩ := save_content_slot_map_failed
      (s := (s.answered call.2).mapped m' cm') hsaves
    rw [after_of_error (hrun.trans herror), htally t halloc, hrun.trans herror]
    simp only [hsaves, false_or]
    apply and_congr_right
    intro _
    constructor
    · intro h
      obtain ⟨hmap, hcontents⟩ := h err t rfl
      rw [halloc] at hmap hcontents
      rw [hm] at hmap
      exact ⟨Option.some.inj hmap, hcontents⟩
    · rintro ⟨rfl, rfl⟩ _ _ ⟨⟩
      rw [halloc, hm]
      exact ⟨rfl, rfl⟩

/-- Marking slots for a content that it has none of: nothing is changed exactly when no slot
is taken and the content was listed without slots. -/
theorem unchanged_mark_iff {cm : ContentSlotMap} {sizes : List (Nat × Nat)}
    (hopen : ∀ k ∈ sizes.map Prod.fst, ∃ slot, m.slots[k]? = some slot ∧ slot.state = .Open)
    (d : Text) (hash : Bytes32) :
    (m.restate (.Content d hash) (sizes.map Prod.fst) = m ∧ cm.insert d sizes = cm) ↔
      cm[d]? = some [] ∧ sizes = [] := by
  constructor
  · rintro ⟨hsame, hlist⟩
    have hnil : sizes = [] := by
      cases sizes with
      | nil => rfl
      | cons p sizes =>
        obtain ⟨slot, hslot, hstate⟩ := hopen p.1 List.mem_cons_self
        have hin : p.1 ∈ (p :: sizes).map Prod.fst := List.mem_cons_self
        have hnew := restate_get (.Content d hash) ((p :: sizes).map Prod.fst) m p.1
        rw [hsame, hslot, Option.map_some, if_pos hin, Option.some.injEq] at hnew
        rw [hnew] at hstate
        cases hstate
    subst hnil
    refine ⟨?_, rfl⟩
    have hget := get_insert cm d d []
    rw [hlist, if_pos rfl] at hget
    exact hget
  · rintro ⟨hlist, rfl⟩
    refine ⟨restate_nil _ m, ?_⟩
    apply ExtTreeMap.ext_getElem?
    intro k
    rw [get_insert]
    by_cases hk : d = k
    · rw [if_pos hk, ← hk, hlist]
    · rw [if_neg hk]

/-- On maps in step a call is orderly exactly when it is harmless. -/
theorem orderly_iff (h : InTally s) (call : AllocatorCall × List Answer) :
    Orderly s call ↔ Harmless s call := by
  obtain ⟨call, answers⟩ := call
  cases call with
  | mark id hash n sizes =>
    unfold Harmless
    simp only
    by_cases hroom : ∃ m, s.slot_allocator.slot_map = some m ∧ n ≤ (openSlots m n).length
    · obtain ⟨m, hm, hn⟩ := hroom
      have hopen : ∀ k ∈ ((openSlots m n).zip sizes).map Prod.fst,
          ∃ slot, m.slots[k]? = some slot ∧ slot.state = .Open := by
        intro k hk
        obtain ⟨p, hp, rfl⟩ := List.mem_map.mp hk
        exact openSlots_open (List.of_mem_zip hp).1
      rw [orderly_of_save hm (mark_run_eq (s := s.answered answers) hm hn id hash sizes),
        answered_slot_allocator, (h m hm).mark_iff hopen, unchanged_mark_iff hopen]
      constructor
      · intro hall m' hm' _
        rw [hm] at hm'
        cases hm'
        exact hall
      · intro hall
        exact hall m hm hn
    · have hstop := mark_run_stops (s := s.answered answers) (n := n)
        (fun m hm hn => hroom ⟨m, hm, hn⟩) id hash sizes
      refine iff_of_true (orderly_of_stops h hstop) ?_
      intro m hm hn
      exact absurd ⟨m, hm, hn⟩ hroom
  | remove id =>
    unfold Harmless
    simp only
    cases hm : s.slot_allocator.slot_map with
    | none =>
      refine iff_of_true (orderly_of_stops h (remove_run_stops (Or.inl hm))) ?_
      simp
    | some m =>
      cases hid : s.slot_allocator.content_slot_map[id]? with
      | none =>
        refine iff_of_true (orderly_of_stops h (remove_run_stops (Or.inr hid))) ?_
        intro _ hmem
        rw [ExtTreeMap.mem_iff_isSome_getElem?, hid] at hmem
        cases hmem
      | some sizes =>
        have hin : ∀ p ∈ sizes, p.1 < m.slots.length := by
          intro p hp
          exact (((h m hm).marked id p.1).mpr ⟨sizes, hid, List.mem_map_of_mem hp⟩).lt
        have hmem : id ∈ s.slot_allocator.content_slot_map := by
          rw [ExtTreeMap.mem_iff_isSome_getElem?, hid]
          rfl
        rw [orderly_of_save hm (remove_run_eq (s := s.answered answers) hm hid hin)]
        have hchanged : s.slot_allocator.content_slot_map.erase id ≠
            s.slot_allocator.content_slot_map := by
          intro heq
          rw [← heq] at hmem
          simp at hmem
        simp [(h m hm).remove hid, hmem, answered_slot_allocator, hchanged]

/-! ## Runs -/

/-- From maps in step, a run of calls is orderly throughout exactly when every call of it is
harmless. -/
theorem allocator_runs_orderly_iff (h : InTally s) (calls : List (AllocatorCall × List Answer)) :
    (∀ p ∈ runs.visits AllocatorCall.step calls s, Orderly p.1 p.2) ↔
      ∀ p ∈ runs.visits AllocatorCall.step calls s, Harmless p.1 p.2 := by
  refine @runs.visits_iff _ _ AllocatorCall.step InTally Orderly Harmless ?_ ?_ s h calls
  · intro s call hs
    exact orderly_iff hs call
  · rintro s call _ _ horderly ⟨⟩
    exact horderly.1

/-- A manager of two open slots. -/
def twoSlots : CapacityManager :=
  let s := CapacityManager.fresh
  { s with slot_allocator := { s.slot_allocator with
      slot_map := some ⟨[⟨0, 1024, .Open⟩, ⟨1024, 1024, .Open⟩], 2048, 1, 7⟩ } }

theorem twoSlots_inTally : InTally twoSlots := by
  rintro m ⟨⟩
  apply Tallies.of_marked
  intro id k
  unfold Marked Lists
  constructor
  · rintro ⟨slot, hash, hslot, hstate⟩
    have hmem := List.mem_of_getElem? hslot
    rcases List.mem_cons.mp hmem with rfl | hmem
    · cases hstate
    · rw [List.mem_singleton.mp hmem] at hstate
      cases hstate
  · rintro ⟨sizes, hsizes, _⟩
    cases hsizes

/-- Five bytes of content under one name. -/
def markOnce : AllocatorCall × List Answer := (.mark "a".toList 0 1 [5], [])

def removeOnce : AllocatorCall × List Answer := (.remove "a".toList, [])

theorem allocator_runs_orderly_iff_of_twoSlots : InTally twoSlots ∧
    ∀ p ∈ runs.visits AllocatorCall.step [markOnce, removeOnce] twoSlots, Orderly p.1 p.2 := by
  refine ⟨twoSlots_inTally, ?_⟩
  rw [allocator_runs_orderly_iff twoSlots_inTally]
  intro p hp
  rcases List.mem_cons.mp hp with rfl | hp
  · rintro m ⟨⟩ _
    refine ⟨?_, Or.inl (by simp [SavesDone])⟩
    rintro k ⟨sizes, hsizes, _⟩
    cases hsizes
  · rw [List.mem_singleton.mp hp]
    intro _ _
    simp [SavesDone]

/-- What evaluating two calls shows. -/
theorem markedAgain_ends :
    ∃ m hash, (after markOnce.1.run (after markOnce.1.run twoSlots)).slot_allocator.slot_map =
      some m ∧ m.slots[0]? = some ⟨0, 1024, .Content "a".toList hash⟩ ∧
      (after markOnce.1.run (after markOnce.1.run twoSlots)).slot_allocator.content_slot_map[
        "a".toList]? = some [(1, 5)] :=
  ⟨_, 0, rfl, by decide +kernel, by decide +kernel⟩

/-- Marking the content a second time leaves its first slot marked and in no list. -/
theorem marked_again_forgets_slot : InTally twoSlots ∧
    ¬ ∀ p ∈ runs.visits AllocatorCall.step [markOnce, markOnce] twoSlots, Orderly p.1 p.2 := by
  refine ⟨twoSlots_inTally, ?_⟩
  intro hall
  obtain ⟨m, hash, hm, hslot, hlist⟩ := markedAgain_ends
  have hsecond := hall (after markOnce.1.run twoSlots, markOnce)
    (List.mem_cons_of_mem _ List.mem_cons_self)
  obtain ⟨sizes, hsizes, hmem⟩ := ((hsecond.1 m hm).marked _ 0).mp ⟨_, hash, hslot, rfl⟩
  rw [show (after markOnce.1.run (after markOnce.1.run twoSlots)).slot_allocator.content_slot_map[
    "a".toList]? = some sizes from hsizes] at hlist
  cases hlist
  simp at hmem

end eld_chain
