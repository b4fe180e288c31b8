-- A content should leave the list of missing contents only once it is
-- stored, and a content that is stored should not be asked for again. When
-- the handler and the periodic pass do so: the first has to store what it
-- forgets, and the second never finds a content under the key it looks for.
import EldChain.ContentSync
import EldChain.MissingLists
import EldChain.ConcurrentCalls

open Std

namespace eld_chain

open fallible regions finite_map

variable (o : Outside)

/-! ## Keys -/

theorem parse_hexKey (digest : Bytes32) : parse_content_id (hexKey digest) = .ok digest := by
  have hleading : with_0x_prefix (hexKey digest) = idText digest := by
    have hstrip := strip_hexDigits 64 digest.toNat
    unfold with_0x_prefix hexKey idText at *
    split
    · rename_i rest heq
      rw [heq] at hstrip
      have hlen := congrArg List.length hstrip
      simp [ strip_optional_hex_prefix] at hlen
      omega
    · rfl
  have hid := parse_idText digest
  unfold parse_content_id at hid ⊢
  rw [hleading]
  exact hid

/-- The two spellings of a key differ. -/
theorem idText_ne_hexKey (id digest : Bytes32) : idText id ≠ hexKey digest := by
  intro heq
  have hlen := congrArg List.length heq
  unfold idText hexKey at hlen
  simp [length_hexDigits] at hlen

theorem flatten_chunksOf {size : Nat} (hpos : 0 < size) (fuel : Nat) (bytes : Bytes)
    (h : bytes.length ≤ fuel) : (chunksOf size fuel bytes).flatten = bytes := by
  induction fuel generalizing bytes with
  | zero =>
    rw [List.length_eq_zero_iff.mp (Nat.le_zero.mp h)]
    rfl
  | succ fuel ih =>
    cases bytes with
    | nil => rfl
    | cons b bytes =>
      rw [chunksOf, List.flatten_cons, ih]
      · exact List.take_append_drop size (b :: bytes)
      · rw [List.length_drop]
        simp at h ⊢
        omega

theorem flatten_chunks {size : Nat} (hpos : 0 < size) (bytes : Bytes) :
    (chunks size bytes).flatten = bytes := flatten_chunksOf hpos _ bytes le_rfl

theorem chunk_size_pos : 0 < MAX_CHUNK_SIZE := by decide

/-! ## Reading -/

variable {s t : CapacityManager} {m : SlotMap} {file : Bytes}

/-- A content reads as these bytes while the operating system does not fail. -/
def ReadsBack (s : CapacityManager) (key : Text) (bytes : Bytes) : Prop :=
  ∀ as, Quiet as → ∃ v, get_content_from_slots key (s.answered as) = .ok (some bytes) v

theorem readsBack_of_standing {key : Text} {placed : List (Nat × Bytes)}
    (h : Standing s key placed) : ReadsBack s key (placed.map Prod.snd).flatten := by
  intro as hquiet
  obtain ⟨m, file, hm, hkept, hstored⟩ := h
  have hread := Stored.read (s := s.answered as) hm hkept.capacity_file
    ⟨hstored.listed, hstored.holds, hstored.fit⟩
  cases hget : get_content_from_slots key (s.answered as) with
  | ok r v => exact ⟨v, by rw [hread.of_ok hget]⟩
  | error e v => exact absurd hquiet (hread.of_error hget)

theorem get_content_unlisted {key : Text}
    (h : key ∉ s.slot_allocator.content_slot_map) :
    get_content_from_slots key s = .ok none s := by
  have hends : Ends (get_content_from_slots key) s (fun r t => r = none ∧ s = t)
      (fun _ _ => False) := by
    unfold get_content_from_slots
    rw [ends_bind, ends_get, ExtTreeMap.getElem?_eq_none h]
    exact ⟨rfl, rfl⟩
  cases hget : get_content_from_slots key s with
  | ok r t =>
    obtain ⟨rfl, rfl⟩ := hends.of_ok hget
    rfl
  | error e t => exact (hends.of_error hget).elim

/-- A listed content is not read as missing. -/
theorem get_content_listed {key : Text} (h : key ∈ s.slot_allocator.content_slot_map) :
    Ends (get_content_from_slots key) s (fun r _ => ∃ bytes, r = some bytes)
      (fun _ _ => True) := by
  unfold get_content_from_slots
  rw [ends_bind, ends_get, ExtTreeMap.getElem?_eq_some_getElem h]
  simp only
  rw [ends_bind]
  cases hread : readChunks s.slot_allocator.content_slot_map[key] s with
  | ok content t => exact ends_of_ok hread ⟨content, rfl⟩
  | error e t => exact ends_of_error hread trivial

/-- Reading leaves everything but the answers. -/
theorem ReadsOnly.slot_map_ref : ReadsOnly slot_map_ref := by
  refine ReadsOnly.get.bind (fun s => ?_)
  cases s.slot_allocator.slot_map with
  | none => exact ReadsOnly.throw _
  | some m => exact ReadsOnly.pure _

theorem ReadsOnly.read_chunk_from_slot (i : Nat) : ReadsOnly (read_chunk_from_slot i) := by
  refine ReadsOnly.slot_map_ref.bind (fun m => ?_)
  cases m.slots[i]? with
  | none => exact ReadsOnly.throw _
  | some slot =>
    exact (ReadsOnly.openCapacityFile _ _).bind
      (fun _ => (ReadsOnly.osCall _ _).bind (fun _ => ReadsOnly.readExact _ _ _ _))

theorem ReadsOnly.readChunks (sizes : List (Nat × Nat)) : ReadsOnly (readChunks sizes) := by
  induction sizes with
  | nil => exact ReadsOnly.pure _
  | cons p sizes ih =>
    refine (ReadsOnly.read_chunk_from_slot p.1).bind (fun data => ?_)
    by_cases h : data.length < p.2
    · rw [if_pos h]
      exact ReadsOnly.throw _
    · rw [if_neg h]
      exact ih.bind (fun _ => ReadsOnly.pure _)

theorem ReadsOnly.get_content_from_slots (key : Text) :
    ReadsOnly (get_content_from_slots key) := by
  refine ReadsOnly.get.bind (fun s => ?_)
  cases s.slot_allocator.content_slot_map[key]? with
  | none => exact ReadsOnly.pure _
  | some sizes => exact (ReadsOnly.readChunks sizes).bind (fun _ => ReadsOnly.pure _)

/-! ## Writing -/

/-- A write to a slot that is large enough makes three calls to the operating system. -/
theorem write_chunk_to_slot_done (hm : s.slot_allocator.slot_map = some m)
    (hfile : s.disk.capacity_file = some file) {i : Nat} {slot : Slot}
    (hslot : m.slots[i]? = some slot) {data : Bytes} (hle : data.length ≤ slot.size)
    (hdone : Quiet (s.answers.take 3)) :
    ∃ hash t, write_chunk_to_slot o i data s = .ok hash t ∧ t.answers = s.answers.drop 3 ∧
      t.slot_allocator = s.slot_allocator ∧ ∃ file', t.disk.capacity_file = some file' := by
  have href : slot_map_ref s = .ok m s := by
    cases hr : slot_map_ref s with
    | ok r t =>
      obtain ⟨rfl, rfl⟩ := (slot_map_ref_ends hm).of_ok hr
      rfl
    | error e t => exact ((slot_map_ref_ends hm).of_error hr).elim
  unfold write_chunk_to_slot
  rw [bind_of_ok _ href]
  simp only [hslot, if_neg (Nat.not_lt.mpr hle)]
  obtain ⟨dir, provider, alloc, tree, init, ⟨capacity_file, sf, cf⟩, answers⟩ := s
  cases hfile
  -- the three answers, or fewer when they have run out
  cases answers with
  | nil => exact ⟨_, _, rfl, rfl, rfl, _, rfl⟩
  | cons a answers =>
    obtain rfl := hdone a (by simp)
    cases answers with
    | nil => exact ⟨_, _, rfl, rfl, rfl, _, rfl⟩
    | cons b answers =>
      obtain rfl := hdone b (by simp)
      cases answers with
      | nil => exact ⟨_, _, rfl, rfl, rfl, _, rfl⟩
      | cons c answers =>
        obtain rfl := hdone c (by simp)
        exact ⟨_, _, rfl, rfl, rfl, _, rfl⟩

theorem writeChunks_done {chunks : List Bytes} {indices : List Nat}
    (hm : s.slot_allocator.slot_map = some m) (hfile : s.disk.capacity_file = some file)
    (hle : chunks.length ≤ indices.length) (hfit : ChunksFit m indices chunks)
    (hdone : Quiet (s.answers.take (3 * chunks.length))) (k : Nat) :
    ∃ r t, writeChunks o chunks indices k s = .ok r t := by
  induction chunks generalizing s file indices k with
  | nil => exact ⟨_, _, rfl⟩
  | cons chunk chunks ih =>
    cases indices with
    | nil => simp at hle
    | cons i indices =>
      obtain ⟨hsmall, slot, hslot, hsize⟩ := hfit (i, chunk) List.mem_cons_self
      have hfirst : Quiet (s.answers.take 3) := by
        intro a ha
        apply hdone a
        apply List.take_subset_take_left s.answers ?_ ha
        simp
      have hpadded : (padTo MAX_CHUNK_SIZE chunk).length ≤ slot.size := by
        rw [length_padTo hsmall]
        exact hsize
      obtain ⟨hash, t, hwrite, hanswers, halloc, file', hfile'⟩ := write_chunk_to_slot_done o hm
        hfile hslot hpadded hfirst
      have hrest : Quiet (t.answers.take (3 * chunks.length)) := by
        intro a ha
        apply hdone a
        rw [hanswers, List.take_drop] at ha
        have hcount : 3 * (chunk :: chunks).length = 3 + 3 * chunks.length := by
          simp
          omega
        rw [hcount]
        exact List.mem_of_mem_drop ha
      obtain ⟨r, u, hr⟩ := ih (halloc ▸ hm) hfile' (by simpa using hle)
        (fun p hp => hfit p (List.mem_cons_of_mem _ hp)) hrest (k + 1)
      rw [writeChunks, if_neg (Nat.not_lt.mpr hsmall), bind_of_ok _ hwrite, bind_of_ok _ hr]
      exact ⟨_, _, rfl⟩

/-- The open slots are enough and large enough, and no call to the operating system fails
while the chunks are written. -/
def Writable (s : CapacityManager) (chunks : List Bytes) : Prop :=
  ∃ m, s.slot_allocator.slot_map = some m ∧
    chunks.length ≤ (openSlots m chunks.length).length ∧
    ChunksFit m (openSlots m chunks.length) chunks ∧
    Quiet (s.answers.take (3 * chunks.length))

/-- Once the chunks are written the content is listed, even when a save fails. -/
theorem storeSection_lists (hm : s.slot_allocator.slot_map = some m)
    (hfile : s.disk.capacity_file = some file) (hl : Layout m file) {chunks : List Bytes}
    (hwritable : Writable s chunks) (id : Text) :
    Ends (storeSection o id chunks) s (fun _ t => id ∈ t.slot_allocator.content_slot_map)
      (fun _ t => id ∈ t.slot_allocator.content_slot_map) := by
  obtain ⟨m', hm', hle, hfit, hdone⟩ := hwritable
  rw [hm] at hm'
  cases hm'
  obtain ⟨r, u, hwrite⟩ := writeChunks_done o hm hfile hle hfit hdone 0
  obtain ⟨hsizes, _, file', hu, _, _⟩ :=
    (writeChunks_ends o hm hfile hl (openSlots_nodup m _) chunks 0).of_ok hwrite
  obtain ⟨as, _, rfl⟩ := hu.moved hm
  unfold storeSection
  rw [ends_bind]
  refine (find_open_slots_ends hm chunks.length).mono ?_ (fun _ _ h => absurd hle (by omega))
  rintro _ _ ⟨rfl, _, rfl⟩
  rw [ends_bind]
  refine ends_of_ok hwrite ?_
  rw [ends_bind]
  have hin : ∀ p ∈ r.1, p.1 < m.slots.length := by
    rw [hsizes]
    exact fun p hp => takenSizes_lt hp
  refine (mark_slots_as_content_ends r.1 id _ hin).mono ?_ ?_
  · rintro _ t ⟨bs, _, rfl⟩
    rw [ends_bind]
    refine save_slot_map_ends.mono ?_ ?_
    · rintro _ v ⟨cs, _, rfl⟩
      exact ExtTreeMap.mem_insert_self
    · rintro _ v ⟨_, cs, sf', _, rfl, _⟩
      exact ExtTreeMap.mem_insert_self
  · rintro _ t ⟨_, bs, cf', _, rfl, _⟩
    exact ExtTreeMap.mem_insert_self

theorem Standing.withTree {id : Text} {placed : List (Nat × Bytes)} (h : Standing s id placed)
    (tree : Option CapacityProofMerkleTree) :
    Standing { s with merkle_tree := tree } id placed := by
  obtain ⟨m, file, hm, hkept, hstored⟩ := h
  exact ⟨m, file, hm, hkept.withTree tree, hstored.listed, hstored.holds, hstored.fit⟩

/-- What a store of a new content comes to, however it ends: the content stands exactly when
its chunks could be written, and the contents that stood before still do. -/
structure Offered (s t : CapacityManager) (id : Text) (chunks : List Bytes) : Prop where
  loaded : ∃ m file, t.slot_allocator.slot_map = some m ∧ Kept t file
  stored : Writable s chunks → ∃ placed, placed.map Prod.snd = chunks ∧ Standing t id placed
  dropped : ¬ Writable s chunks →
    t.slot_allocator.content_slot_map = s.slot_allocator.content_slot_map
  listed : ∀ id', id' ∈ t.slot_allocator.content_slot_map →
    id' = id ∨ id' ∈ s.slot_allocator.content_slot_map
  others : ∀ id' placed, id ≠ id' → Standing s id' placed → Standing t id' placed

theorem storeSection_offered (h : Kept s file) (hm : s.slot_allocator.slot_map = some m)
    {id : Text} (hnew : id ∉ s.slot_allocator.content_slot_map) (chunks : List Bytes) :
    Ends (storeSection o id chunks) s (fun _ t => Offered s t id chunks)
      (fun _ t => Offered s t id chunks) := by
  obtain ⟨hlayout, howned⟩ := h.loaded m hm
  have hplace : ∀ {file' as sf cf}, Placed m chunks file file' → Writable s chunks →
      (∃ json, sf = some json ∧ Layout (JsonFile.value json) file') →
      Offered s (s.moved (m.holding o id chunks)
        (s.slot_allocator.content_slot_map.insert id (takenSizes m chunks)) file' sf cf as)
        id chunks := by
    intro file' as sf cf hplaced hwritable hsaved
    have hlayout' := (hlayout.of_length hplaced.touched.1).restate
      (.Content id (committedHash o (chunkHashes o chunks))) (takenSlots m chunks)
    have hkept : Kept (s.moved (m.holding o id chunks)
        (s.slot_allocator.content_slot_map.insert id (takenSizes m chunks)) file' sf cf as) file' :=
      Kept.of_parts hlayout' (howned.store o id chunks) hsaved
    refine ⟨⟨_, file', rfl, hkept⟩, fun _ => ⟨_, List.map_snd_zip hplaced.filled.enough, _, file',
      rfl, hkept, hplaced.stored o id⟩, fun hnot => absurd hwritable hnot, ?_, ?_⟩
    · intro id' hid'
      rcases ExtTreeMap.mem_insert.mp hid' with heq | hmem
      · exact Or.inl (LawfulEqCmp.eq_of_compare heq).symm
      · exact Or.inr hmem
    · rintro id' placed hne ⟨m', file'', hm', hkept', hstored⟩
      rw [hm] at hm'
      cases hm'
      have hsame := hkept'.capacity_file.symm.trans h.capacity_file
      cases hsame
      exact ⟨_, file', rfl, hkept, hstored.store o howned hne hplaced⟩
  have hends := storeSection_ends o hm h.capacity_file hlayout id chunks
  by_cases hwritable : Writable s chunks
  · have hlists := storeSection_lists o hm h.capacity_file hlayout hwritable id
    cases hrun : storeSection o id chunks s with
    | ok r t =>
      obtain ⟨_, file', as, _, hplaced, rfl⟩ := hends.of_ok hrun
      exact ends_of_ok hrun (hplace hplaced hwritable ⟨_, rfl,
        (hlayout.of_length hplaced.touched.1).restate _ _⟩)
    | error e t =>
      apply ends_of_error hrun
      rcases hends.of_error hrun with ⟨file', as, _, _, rfl, _⟩ |
        ⟨_, file', as, sf', cf', _, hplaced, rfl, hstop⟩
      · exact absurd (hlists.of_error hrun) hnew
      · exact hplace hplaced hwritable (hstop.saved
          ((hlayout.of_length hplaced.touched.1).restate _ _)
          (h.saved_of_length hplaced.touched.1))
  · have hwhy : (openSlots m chunks.length).length < chunks.length ∨
        ¬ ChunksFit m (openSlots m chunks.length) chunks ∨
        ¬ Quiet (s.answers.take (3 * chunks.length)) := by
      by_contra hnone
      simp only [not_or, not_not] at hnone
      exact hwritable ⟨m, hm, Nat.not_lt.mp hnone.1, hnone.2.1, hnone.2.2⟩
    refine (storeSection_unmarked o hm h.capacity_file hlayout hwhy).mono
      (fun _ _ hfalse => hfalse.elim) ?_
    rintro _ t ⟨file', as, htouched, rfl⟩
    have hkept : Kept (s.moved m s.slot_allocator.content_slot_map file' s.disk.slots_file
        s.disk.content_slot_map_file as) file' :=
      Kept.of_parts (hlayout.of_length htouched.1) howned (h.saved_of_length htouched.1)
    refine ⟨⟨m, file', rfl, hkept⟩, fun hyes => absurd hyes hwritable, fun _ => rfl,
      fun id' hid' => Or.inr hid', ?_⟩
    rintro id' placed _ ⟨m', file'', hm', hkept', hstored⟩
    rw [hm] at hm'
    cases hm'
    have hsame := hkept'.capacity_file.symm.trans h.capacity_file
    cases hsame
    refine ⟨m, file', rfl, hkept, hstored.listed, ?_, hstored.fit⟩
    intro p hp
    rw [htouched.2 p.1 (hstored.not_taken howned hp chunks)]
    exact hstored.holds p hp

theorem store_offered (h : Kept s file) (hm : s.slot_allocator.slot_map = some m)
    {id : Text} (hnew : id ∉ s.slot_allocator.content_slot_map) (chunks : List Bytes) :
    Offered s (after (store_content_chunks o id chunks) s) id chunks := by
  refine Ends.after (P := fun t => Offered s t id chunks) ?_
  unfold store_content_chunks
  rw [ends_bind]
  refine (storeSection_offered o h hm hnew chunks).mono ?_ (fun _ _ h => h)
  intro r t ht
  rw [ends_bind]
  refine (update_merkle_tree_for_content_ends o r.1 r.2 t).mono ?_ ?_
  · rintro root _ ⟨tree, _, rfl⟩
    rw [ends_pure]
    obtain ⟨m', file', hm', hkept⟩ := ht.loaded
    refine ⟨⟨m', file', hm', hkept.withTree tree⟩, ?_, ht.dropped, ht.listed, ?_⟩
    · intro hwritable
      obtain ⟨placed, hchunks, hstanding⟩ := ht.stored hwritable
      exact ⟨placed, hchunks, hstanding.withTree tree⟩
    · intro id' placed hne hstanding
      exact (ht.others id' placed hne hstanding).withTree tree
  · rintro _ _ rfl
    exact ht

/-! ## The two laws -/

/-- A call on the message handler or a pass, with the answers of the operating system to the
slots and to the list. -/
inductive SyncEvent
  | announce (content_key : Text) (has_temp_blob : Bool) (now : Except String UInt64)
      (os saves : List Answer)
  | response (content_key content : Text) (os saves : List Answer)
  | pass (clock : MissingContentRecord → Except String UInt64)
      (missing : List MissingContentRecord) (os saves : List Answer)

/-- A pass over the periodic list, with what it requested. -/
def SyncNode.pass (clock : MissingContentRecord → Except String UInt64)
    (missing : List MissingContentRecord) (os saves : List Answer) (n : SyncNode) : SyncPass :=
  after (check_and_request_missing clock missing)
    ⟨n.manager.answered os, ⟨n.periodic, n.file, saves⟩, []⟩

def SyncNode.next (n : SyncNode) : SyncEvent → SyncNode
  | .announce content_key has_temp_blob now os saves =>
    (handle_announce content_key has_temp_blob now saves
      { n with manager := n.manager.answered os }).1
  | .response content_key content os saves =>
    handle_content_response o content_key content saves
      { n with manager := n.manager.answered os }
  | .pass clock missing os saves =>
    let p := n.pass clock missing os saves
    { n with manager := p.manager, periodic := p.tracker.records, file := p.tracker.file }

/-- A pass works on the records of its list, in any order. -/
def SyncNode.step (n : SyncNode) (e : SyncEvent) : Option SyncNode :=
  match e with
  | .pass _ missing _ _ =>
    if missing.isPerm (get_all_missing_content n.periodic) then
      some (n.next o e)
    else none
  | _ => some (n.next o e)

/-- A content leaves one of the two lists. -/
def Forgets (n n' : SyncNode) (id : Bytes32) : Prop :=
  (Listed n.handler id ∧ ¬ Listed n'.handler id) ∨
    (Listed n.periodic id ∧ ¬ Listed n'.periodic id)

/-- What leaves a list is read back from the slots, as bytes with its hash. -/
def RetainsUntilStored (n : SyncNode) (e : SyncEvent) : Prop :=
  ∀ id, Forgets n (n.next o e) id → ∃ bytes,
    ReadsBack (n.next o e).manager (hexKey id) bytes ∧ o.sha256 bytes = id

/-- What a pass finds in the slots is removed from the list and not requested. -/
def RecognisesStored (n : SyncNode) : SyncEvent → Prop
  | .pass clock missing os saves =>
    ∀ r ∈ select_missing_for_pass missing MAX_MISSING_CONTENT_PER_PASS,
      (∃ bytes, ReadsBack n.manager (hexKey r.content_id) bytes) →
        hexKey r.content_id ∉ (n.pass clock missing os saves).requested ∧
          ¬ Listed (n.pass clock missing os saves).tracker.records r.content_id
  | _ => True

/-- A response that is accepted for a listed content can be written, and a pass has no stored
content to recognise. -/
def SyncNode.Retains (n : SyncNode) : SyncEvent → Prop
  | .announce .. => True
  | .response content_key content os _ =>
    ∀ bytes, o.base64.decode content = some bytes → hexKey (o.sha256 bytes) = content_key →
      content_key ∉ n.manager.slot_allocator.content_slot_map →
        Listed n.handler (o.sha256 bytes) →
          Writable (n.manager.answered os) (chunks MAX_CHUNK_SIZE bytes)
  | .pass _ missing _ _ =>
    ∀ r ∈ select_missing_for_pass missing MAX_MISSING_CONTENT_PER_PASS,
      hexKey r.content_id ∉ n.manager.slot_allocator.content_slot_map

/-- Every content in the slots stands there under the hash of its bytes. -/
structure SyncNode.Canonical (n : SyncNode) : Prop where
  loaded : ∃ m file, n.manager.slot_allocator.slot_map = some m ∧ Kept n.manager file
  contents : ∀ key ∈ n.manager.slot_allocator.content_slot_map, ∃ placed,
    key = hexKey (o.sha256 (placed.map Prod.snd).flatten) ∧ Standing n.manager key placed
  handler : Named n.handler
  periodic : Named n.periodic

/-! ## The handler -/

variable {n : SyncNode}

theorem Standing.used {id : Text} {placed : List (Nat × Bytes)} (h : Standing s id placed)
    (hused : Used s t) : Standing t id placed := by
  obtain ⟨as, _, rfl⟩ := hused
  exact h.answered as

theorem SyncNode.Canonical.answered (h : n.Canonical o) (os : List Answer) :
    ({ n with manager := n.manager.answered os } : SyncNode).Canonical o := by
  obtain ⟨m, file, hm, hkept⟩ := h.loaded
  refine ⟨⟨m, file, hm, hkept.answered os⟩, ?_, h.handler, h.periodic⟩
  intro key hkey
  obtain ⟨placed, hname, hstanding⟩ := h.contents key hkey
  exact ⟨placed, hname, hstanding.answered os⟩

/-- Reading leaves the contents as they are. -/
theorem SyncNode.Canonical.used (h : n.Canonical o) {s : CapacityManager}
    (hused : Used n.manager s) : ({ n with manager := s } : SyncNode).Canonical o := by
  obtain ⟨as, _, rfl⟩ := hused
  exact h.answered o as

/-- So do changes of the lists. -/
theorem SyncNode.Canonical.relisted (h : n.Canonical o) {n' : SyncNode}
    (hm : n'.manager = n.manager) (hh : Named n'.handler) (hp : Named n'.periodic) :
    n'.Canonical o := by
  obtain ⟨manager, handler, periodic, file⟩ := n'
  cases hm
  exact ⟨h.loaded, h.contents, hh, hp⟩

theorem get_content_used (key : Text) (s : CapacityManager) :
    (∀ r t, get_content_from_slots key s = .ok r t → Used s t) ∧
      ∀ e t, get_content_from_slots key s = .error e t → Used s t := by
  have hreads := ReadsOnly.get_content_from_slots key s
  exact ⟨fun r t hget => hreads.of_ok hget, fun e t hget => hreads.of_error hget⟩

/-- A call on the handler's tracker changes the handler's list only. -/
theorem SyncNode.onHandler_spec (h : Named n.handler) (call : TrackerCall) (saves : List Answer) :
    (n.onHandler call.run saves).manager = n.manager ∧
      (n.onHandler call.run saves).periodic = n.periodic ∧
      (n.onHandler call.run saves).handler = (call.change n.handler).getD n.handler := by
  obtain ⟨as, hafter⟩ := run_after (t := ⟨n.handler, n.file, saves⟩) h call
  refine ⟨rfl, rfl, ?_⟩
  unfold SyncNode.onHandler
  simp only [hafter]
  cases call.change n.handler with
  | none => rfl
  | some records => rfl

theorem named_getD_change {records : MissingRecords} (h : Named records) (call : TrackerCall) :
    Named ((call.change records).getD records) := by
  cases hchange : call.change records with
  | none => exact h
  | some records' => exact call.change_named h hchange

/-- An announcement takes nothing from the list. -/
theorem listed_upsert {records : MissingRecords} (h : Named records) (content_id : Text)
    (now : Except String UInt64) {id : Bytes32} (hid : Listed records id) :
    Listed (((TrackerCall.upsert content_id now).change records).getD records) id := by
  unfold TrackerCall.change
  simp only
  cases parse_content_id content_id with
  | error e => exact hid
  | ok d =>
    cases now with
    | error e => exact hid
    | ok now =>
      obtain ⟨hsynthetic, hcontent⟩ := h.attempted d now
      have hlisted := h.listed_insert hsynthetic id
      rw [hcontent] at hlisted
      exact hlisted.mpr (Or.inr hid)

/-- An accepted response takes its own content from the list. -/
theorem listed_mark {records : MissingRecords} (h : Named records) (digest id : Bytes32) :
    Listed (((TrackerCall.mark_by_content_id (hexKey digest)).change records).getD records) id ↔
      id ≠ digest ∧ Listed records id := by
  unfold TrackerCall.change
  simp only [parse_hexKey]
  by_cases hmem : idText digest ∈ records
  · rw [if_pos hmem, Option.getD_some, h.listed_erase]
    apply and_congr_left
    intro _
    exact not_congr ⟨idText_inj, fun heq => heq ▸ rfl⟩
  · rw [if_neg hmem, Option.getD_none]
    constructor
    · intro hid
      refine ⟨?_, hid⟩
      rintro rfl
      exact hmem ((h.listed_iff _).mp hid)
    · exact And.right

theorem announce_next (h : n.Canonical o) (content_key : Text) (has_temp_blob : Bool)
    (now : Except String UInt64) (saves : List Answer) :
    ((handle_announce content_key has_temp_blob now saves n).1).Canonical o ∧
      ∀ id, ¬ Forgets n (handle_announce content_key has_temp_blob now saves n).1 id := by
  have hnothing : ∀ s : CapacityManager, ∀ id, ¬ Forgets n { n with manager := s } id := by
    rintro s id (⟨hl, hnot⟩ | ⟨hl, hnot⟩)
    · exact hnot hl
    · exact hnot hl
  obtain ⟨hok, herror⟩ := get_content_used content_key n.manager
  unfold handle_announce
  cases has_temp_blob with
  | true => exact ⟨h, fun id hf => hnothing n.manager id hf⟩
  | false =>
    simp only [Bool.false_eq_true, if_false]
    cases hget : get_content_from_slots content_key n.manager with
    | error e s => exact ⟨h.used o (herror e s hget), hnothing s⟩
    | ok r s =>
      have hused := h.used o (hok r s hget)
      cases r with
      | some bytes => exact ⟨hused, hnothing s⟩
      | none =>
        have hlast : ∀ n' : SyncNode, n'.manager = s → n'.periodic = n.periodic →
            n'.handler = ((TrackerCall.upsert content_key now).change n.handler).getD n.handler →
              n'.Canonical o ∧ ∀ id, ¬ Forgets n n' id := by
          intro n' hmanager hperiodic hhandler
          refine ⟨hused.relisted o hmanager ?_ ?_, ?_⟩
          · rw [hhandler]
            exact named_getD_change h.handler _
          · rw [hperiodic]
            exact h.periodic
          · rintro id (⟨hl, hnot⟩ | ⟨hl, hnot⟩)
            · apply hnot
              rw [hhandler]
              exact listed_upsert h.handler content_key now hl
            · apply hnot
              rw [hperiodic]
              exact hl
        obtain ⟨hmanager, hperiodic, hhandler⟩ := SyncNode.onHandler_spec
          (n := { n with manager := s }) h.handler (.upsert content_key now) saves
        exact hlast _ hmanager hperiodic hhandler

/-- A response leaves the node as it was but for the answers, or it is accepted. -/
theorem response_cases (content_key content : Text) (saves : List Answer) :
    (∃ s, Used n.manager s ∧
      handle_content_response o content_key content saves n =
        { n with manager := s } ∧
      (content_key ∈ n.manager.slot_allocator.content_slot_map ∨ ∀ bytes,
        o.base64.decode content = some bytes → hexKey (o.sha256 bytes) ≠ content_key)) ∨
    (∃ bytes, o.base64.decode content = some bytes ∧ hexKey (o.sha256 bytes) = content_key ∧
      content_key ∉ n.manager.slot_allocator.content_slot_map ∧
      handle_content_response o content_key content saves n =
        SyncNode.onHandler (TrackerCall.mark_by_content_id (hexKey (o.sha256 bytes))).run saves
          { n with manager := after (store_content_chunks o content_key
            (chunks MAX_CHUNK_SIZE bytes)) n.manager }) := by
  obtain ⟨hok, herror⟩ := get_content_used content_key n.manager
  unfold handle_content_response
  by_cases hmem : content_key ∈ n.manager.slot_allocator.content_slot_map
  · left
    cases hget : get_content_from_slots content_key n.manager with
    | error e s => exact ⟨s, herror e s hget, rfl, Or.inl hmem⟩
    | ok r s =>
      cases r with
      | some bytes => exact ⟨s, hok _ s hget, rfl, Or.inl hmem⟩
      | none =>
        obtain ⟨bytes, hbytes⟩ := (get_content_listed hmem).of_ok hget
        cases hbytes
  · have hget := get_content_unlisted hmem
    rw [hget]
    simp only
    cases hdecode : o.base64.decode content with
    | none =>
      left
      exact ⟨n.manager, Used.refl _, rfl, Or.inr (fun _ h => by cases h)⟩
    | some bytes =>
      simp only
      by_cases hkey : hexKey (o.sha256 bytes) = content_key
      · right
        refine ⟨bytes, rfl, hkey, hmem, ?_⟩
        rw [if_neg (not_not.mpr hkey), hkey]
        unfold mirrorContent
        rw [hget]
        rfl
      · left
        rw [if_pos hkey]
        refine ⟨n.manager, Used.refl _, rfl, Or.inr ?_⟩
        rintro _ ⟨⟩
        exact hkey

theorem not_readsBack {key : Text} {bytes : Bytes}
    (h : key ∉ s.slot_allocator.content_slot_map) : ¬ ReadsBack s key bytes := by
  intro hreads
  obtain ⟨v, hv⟩ := hreads [] (fun a ha => by cases ha)
  rw [get_content_unlisted (s := s.answered []) h] at hv
  cases hv

/-- An accepted content leaves the slots canonical, whether or not it could be written. -/
theorem Offered.canonical (h : n.Canonical o) {bytes : Bytes}
    (hnew : hexKey (o.sha256 bytes) ∉ n.manager.slot_allocator.content_slot_map)
    (hoffered : Offered n.manager t (hexKey (o.sha256 bytes)) (chunks MAX_CHUNK_SIZE bytes)) :
    ({ n with manager := t } : SyncNode).Canonical o := by
  refine ⟨hoffered.loaded, ?_, h.handler, h.periodic⟩
  intro key hkey
  have hold : key ∈ n.manager.slot_allocator.content_slot_map → ∃ placed,
      key = hexKey (o.sha256 (placed.map Prod.snd).flatten) ∧ Standing t key placed := by
    intro hmem
    obtain ⟨placed, hname, hstanding⟩ := h.contents key hmem
    refine ⟨placed, hname, hoffered.others key placed ?_ hstanding⟩
    rintro rfl
    exact hnew hmem
  by_cases hwritable : Writable n.manager (chunks MAX_CHUNK_SIZE bytes)
  · rcases hoffered.listed key hkey with hsame | hmem
    · obtain ⟨placed, hchunks, hstanding⟩ := hoffered.stored hwritable
      refine ⟨placed, ?_, hsame ▸ hstanding⟩
      rw [hsame, hchunks, flatten_chunks chunk_size_pos]
    · exact hold hmem
  · apply hold
    have hsame := hoffered.dropped hwritable
    rw [← hsame]
    exact hkey

theorem response_next (h : n.Canonical o) (content_key content : Text) (saves : List Answer) :
    (handle_content_response o content_key content saves n).Canonical o ∧
      ((∀ id, Forgets n (handle_content_response o content_key content saves n) id →
        ∃ bytes, ReadsBack (handle_content_response o content_key content saves
          n).manager (hexKey id) bytes ∧ o.sha256 bytes = id) ↔
      ∀ bytes, o.base64.decode content = some bytes → hexKey (o.sha256 bytes) = content_key →
        content_key ∉ n.manager.slot_allocator.content_slot_map →
          Listed n.handler (o.sha256 bytes) →
            Writable n.manager (chunks MAX_CHUNK_SIZE bytes)) := by
  rcases response_cases o (n := n) content_key content saves with
    ⟨s, hused, hnext, hwhy⟩ | ⟨bytes, hdecode, hkey, hnew, hnext⟩
  · rw [hnext]
    refine ⟨h.used o hused, iff_of_true ?_ ?_⟩
    · rintro id (⟨hl, hnot⟩ | ⟨hl, hnot⟩)
      · exact absurd hl hnot
      · exact absurd hl hnot
    · intro bytes hdecode hkey hnew
      rcases hwhy with hmem | hother
      · exact absurd hmem hnew
      · exact absurd hkey (hother bytes hdecode)
  · subst hkey
    obtain ⟨m, file, hm, hkept⟩ := h.loaded
    have hoffered := store_offered o hkept hm hnew (chunks MAX_CHUNK_SIZE bytes)
    have hcanonical := hoffered.canonical o h hnew
    obtain ⟨hmanager, hperiodic, hhandler⟩ := SyncNode.onHandler_spec
      (n := { n with manager := after (store_content_chunks o (hexKey (o.sha256 bytes))
        (chunks MAX_CHUNK_SIZE bytes)) n.manager }) h.handler
      (.mark_by_content_id (hexKey (o.sha256 bytes))) saves
    rw [← hnext] at hmanager hperiodic hhandler
    refine ⟨hcanonical.relisted o hmanager ?_ ?_, ?_⟩
    · rw [hhandler]
      exact named_getD_change h.handler _
    · rw [hperiodic]
      exact h.periodic
    · unfold Forgets
      simp only [hhandler, hperiodic, hmanager, listed_mark h.handler]
      constructor
      · intro hlaw bytes' hdecode' _ _ hlisted
        rw [hdecode] at hdecode'
        cases hdecode'
        by_contra hnot
        obtain ⟨read, hread, _⟩ := hlaw (o.sha256 bytes)
          (Or.inl ⟨hlisted, fun hstill => hstill.1 rfl⟩)
        apply not_readsBack ?_ hread
        rw [hoffered.dropped hnot]
        exact hnew
      · rintro hwritable id (⟨hlisted, hgone⟩ | ⟨hlisted, hgone⟩)
        · have hid : id = o.sha256 bytes := by
            by_contra hne
            exact hgone ⟨hne, hlisted⟩
          subst hid
          obtain ⟨placed, hchunks, hstanding⟩ :=
            hoffered.stored (hwritable bytes hdecode rfl hnew hlisted)
          refine ⟨bytes, ?_, rfl⟩
          have hread := readsBack_of_standing hstanding
          rw [hchunks, flatten_chunks chunk_size_pos] at hread
          exact hread
        · exact absurd hlisted hgone

/-! ## The pass -/

/-- What a pass keeps: the contents, and every record of the list. -/
structure PassKeeps (s : CapacityManager) (records : MissingRecords) (p : SyncPass) : Prop where
  manager : ∃ as, p.manager = s.answered as
  named : Named p.tracker.records
  listed : ∀ id, Listed records id → Listed p.tracker.records id

variable {records : MissingRecords}

theorem onTracker_ends {call : TrackerProg Unit} {p : SyncPass} {P : SyncPass → Prop}
    (h : P { p with tracker := after call p.tracker }) :
    Ends (onTracker call) p (fun _ q => P q) (fun _ q => P q) := by
  cases hcall : call p.tracker with
  | ok a t =>
    rw [after_of_ok hcall] at h
    apply ends_of_ok (a := ()) (t := { p with tracker := t }) ?_ h
    simp only [onTracker, hcall]
  | error e t =>
    rw [after_of_error hcall] at h
    apply ends_of_error (e := e) (t := { p with tracker := t }) ?_ h
    simp only [onTracker, hcall]

/-- A clock that fails leaves the list, and an update keeps what it lists. -/
theorem PassKeeps.update {p : SyncPass} (h : PassKeeps s records p)
    {clock : MissingContentRecord → Except String UInt64} {record : MissingContentRecord}
    (hsynthetic : record.manifest_id = record.content_id) :
    Ends (onTracker (do
      let now ← orThrow (systemTime "get_system_time" (clock record))
      MissingContentTracker.update_missing_content_record { record with
        attempt_count := record.attempt_count + 1
        last_attempt := some now })) p (fun _ q => PassKeeps s records q)
      (fun _ q => PassKeeps s records q) := by
  refine onTracker_ends (P := fun q => PassKeeps s records q) ?_
  cases hclock : clock record with
  | error e => exact ⟨h.manager, h.named, h.listed⟩
  | ok now =>
    obtain ⟨as, hafter⟩ := run_after h.named (.update { record with
      attempt_count := record.attempt_count + 1
      last_attempt := some now } hsynthetic)
    have hrun : after (do
        let now ← orThrow (systemTime "get_system_time" (.ok now))
        MissingContentTracker.update_missing_content_record { record with
          attempt_count := record.attempt_count + 1
          last_attempt := some now }) p.tracker = after (TrackerCall.run (.update { record with
            attempt_count := record.attempt_count + 1
            last_attempt := some now } hsynthetic)) p.tracker := rfl
    rw [hrun, hafter]
    refine ⟨h.manager, h.named.insert hsynthetic, ?_⟩
    intro id hid
    exact (h.named.listed_insert (r := { record with
      attempt_count := record.attempt_count + 1
      last_attempt := some now }) hsynthetic id).mpr (Or.inr (h.listed id hid))

theorem syncRecord_keeps {p : SyncPass} (h : PassKeeps s records p)
    (clock : MissingContentRecord → Except String UInt64) {record : MissingContentRecord}
    (hsynthetic : record.manifest_id = record.content_id)
    (hunnamed : idText record.content_id ∉ s.slot_allocator.content_slot_map) :
    Ends (syncRecord clock record) p (fun _ q => PassKeeps s records q)
      (fun _ q => PassKeeps s records q) := by
  obtain ⟨as, hmanager⟩ := h.manager
  have hget : get_content_from_slots (idText record.content_id) p.manager =
      .ok none p.manager := by
    apply get_content_unlisted
    rw [hmanager]
    exact hunnamed
  have hrun : syncRecord clock record p = (do
      modify (fun p : SyncPass => { p with
        requested := p.requested ++ [trim_start_matches_0x (idText record.content_id)] })
      onTracker (do
        let now ← orThrow (systemTime "get_system_time" (clock record))
        MissingContentTracker.update_missing_content_record { record with
          attempt_count := record.attempt_count + 1
          last_attempt := some now })) p := by
    simp only [syncRecord, hget]
  unfold Ends
  rw [hrun]
  refine (ends_bind _ _ p _ _).mpr ?_
  rw [ends_modify]
  have hasked : PassKeeps s records { p with
      requested := p.requested ++ [trim_start_matches_0x (idText record.content_id)] } :=
    ⟨⟨as, hmanager⟩, h.named, h.listed⟩
  exact hasked.update hsynthetic

theorem syncRecords_keeps {p : SyncPass} (h : PassKeeps s records p)
    (clock : MissingContentRecord → Except String UInt64) {batch : List MissingContentRecord}
    (hbatch : ∀ r ∈ batch, r.manifest_id = r.content_id ∧
      idText r.content_id ∉ s.slot_allocator.content_slot_map) :
    Ends (syncRecords clock batch) p (fun _ q => PassKeeps s records q)
      (fun _ q => PassKeeps s records q) := by
  induction batch generalizing p with
  | nil => exact h
  | cons record batch ih =>
    obtain ⟨hsynthetic, hunnamed⟩ := hbatch record List.mem_cons_self
    rw [syncRecords, ends_bind]
    refine (syncRecord_keeps h clock hsynthetic hunnamed).mono ?_ (fun _ _ h => h)
    intro _ q hq
    exact ih hq (fun r hr => hbatch r (List.mem_cons_of_mem _ hr))

theorem select_missing_subset {missing : List MissingContentRecord} {limit : Nat}
    {r : MissingContentRecord} (h : r ∈ select_missing_for_pass missing limit) : r ∈ missing := by
  unfold select_missing_for_pass at h
  exact (List.mergeSort_perm missing earlier).mem_iff.mp (List.mem_of_mem_take h)

theorem mem_all_missing {r : MissingContentRecord} (h : r ∈ get_all_missing_content records) :
    ∃ k : Text, records[k]? = some r := by
  obtain ⟨p, hp, rfl⟩ := List.mem_map.mp h
  exact ⟨p.1, (mem_toList _ p).mp hp⟩

/-- No content of a canonical node stands under the spelling that a pass looks for. -/
theorem SyncNode.Canonical.not_prefixed (h : n.Canonical o) (id : Bytes32) :
    idText id ∉ n.manager.slot_allocator.content_slot_map := by
  intro hmem
  obtain ⟨placed, hname, _⟩ := h.contents _ hmem
  exact idText_ne_hexKey _ _ hname

/-- A pass keeps the contents and every record of its list. -/
theorem SyncNode.Canonical.pass_keeps (h : n.Canonical o)
    (clock : MissingContentRecord → Except String UInt64) {missing : List MissingContentRecord}
    (hmissing : missing.Perm (get_all_missing_content n.periodic)) (os saves : List Answer) :
    PassKeeps n.manager n.periodic (n.pass clock missing os saves) := by
  have hstart : PassKeeps n.manager n.periodic
      ⟨n.manager.answered os, ⟨n.periodic, n.file, saves⟩, []⟩ :=
    ⟨⟨os, rfl⟩, h.periodic, fun _ hid => hid⟩
  refine Ends.after (P := fun p => PassKeeps n.manager n.periodic p) ?_
  apply syncRecords_keeps hstart
  intro r hr
  obtain ⟨k, hk⟩ := mem_all_missing (hmissing.mem_iff.mp (select_missing_subset hr))
  exact ⟨(h.periodic k r hk).2, h.not_prefixed o _⟩

/-! ## Runs -/

/-- On a canonical node an event keeps both laws exactly when it retains, and the node stays
canonical. -/
theorem SyncNode.Canonical.next_iff (h : n.Canonical o) {e : SyncEvent} {n' : SyncNode}
    (hstep : n.step o e = some n') :
    n'.Canonical o ∧ ((RetainsUntilStored o n e ∧ RecognisesStored n e) ↔
      n.Retains o e) := by
  cases e with
  | announce content_key has_temp_blob now os saves =>
    cases hstep
    obtain ⟨hcanonical, hnone⟩ := announce_next o (h.answered o os) content_key has_temp_blob now
      saves
    refine ⟨hcanonical, iff_of_true ⟨?_, trivial⟩ trivial⟩
    intro id hf
    exact absurd hf (hnone id)
  | response content_key content os saves =>
    cases hstep
    obtain ⟨hcanonical, hiff⟩ := response_next o (h.answered o os) content_key
      content saves
    refine ⟨hcanonical, ?_⟩
    unfold RetainsUntilStored RecognisesStored SyncNode.Retains
    simp only [and_true]
    exact hiff
  | pass clock missing os saves =>
    unfold SyncNode.step at hstep
    simp only [Option.ite_none_right_eq_some, Option.some.injEq] at hstep
    obtain ⟨hmissing, rfl⟩ := hstep
    have hperm := List.isPerm_iff.mp hmissing
    have hkeeps := h.pass_keeps o clock hperm os saves
    obtain ⟨as, hmanager⟩ := hkeeps.manager
    refine ⟨(h.answered o as).relisted o hmanager h.handler hkeeps.named, ?_⟩
    have hretains : RetainsUntilStored o n (.pass clock missing os saves) := by
      rintro id (⟨hl, hgone⟩ | ⟨hl, hgone⟩)
      · exact absurd hl hgone
      · exact absurd (hkeeps.listed id hl) hgone
    rw [and_iff_right hretains]
    unfold RecognisesStored SyncNode.Retains
    constructor
    · intro hlaw r hr hmem
      obtain ⟨placed, _, hstanding⟩ := h.contents _ hmem
      obtain ⟨_, hgone⟩ := hlaw r hr ⟨_, readsBack_of_standing hstanding⟩
      obtain ⟨k, hk⟩ := mem_all_missing (hperm.mem_iff.mp (select_missing_subset hr))
      exact hgone (hkeeps.listed _ ⟨k, r, hk, rfl⟩)
    · rintro hnone r hr ⟨bytes, hread⟩
      exact absurd hread (not_readsBack (hnone r hr))

/-- In a run from a canonical node, every event keeps both laws exactly when every event
retains in the state it meets. -/
theorem content_retained_in_runs_iff (h : n.Canonical o) (events : List SyncEvent) :
    (∀ p ∈ runs.visits (SyncNode.step o) events n,
      (p.1.step o p.2).isSome →
        RetainsUntilStored o p.1 p.2 ∧ RecognisesStored p.1 p.2) ↔
      ∀ p ∈ runs.visits (SyncNode.step o) events n,
        (p.1.step o p.2).isSome → p.1.Retains o p.2 := by
  refine @runs.visits_iff _ _ (SyncNode.step o) (SyncNode.Canonical o)
    (fun n e => (n.step o e).isSome →
      RetainsUntilStored o n e ∧ RecognisesStored n e)
    (fun n e => (n.step o e).isSome → n.Retains o e) ?_ ?_ n h events
  · intro n e hn
    apply imp_congr_right
    intro hsome
    obtain ⟨n', hstep⟩ := Option.isSome_iff_exists.mp hsome
    exact (hn.next_iff o hstep).2
  · intro n e n' hn _ hstep
    exact (hn.next_iff o hstep).1

/-! ## A run that forgets -/

/-- One open slot, in a file of its size. -/
def oneSlot : SlotMap := ⟨[⟨0, 1024, .Open⟩], 1024, 1, 7⟩

def threeDigest : Bytes32 := Outside.openSlots.sha256 [1, 2, 3]

/-- What the handler lists once the three bytes are announced. -/
def threeMissing : MissingRecords :=
  ExtTreeMap.insert ∅ (idText (newRecord threeDigest 5).content_id) (newRecord threeDigest 5)

/-- A node that has just allocated one slot, and misses the three bytes. -/
def SyncNode.waiting : SyncNode :=
  let s := CapacityManager.fresh
  ⟨{ s with
      slot_allocator := { s.slot_allocator with slot_map := some oneSlot }
      disk := ⟨some (List.replicate 1024 7), some (.whole oneSlot), none⟩ }, threeMissing, ∅, none⟩

/-- The bytes arrive, and the operating system answers so. -/
def threeArrive (os : List Answer) : SyncEvent := .response (hexKey threeDigest) "AQID".toList os []

theorem oneSlot_layout : Layout oneSlot (List.replicate 1024 7) := by
  have hslot : ∀ (k : Nat) (slot : Slot), oneSlot.slots[k]? = some slot →
      k = 0 ∧ slot = ⟨0, 1024, .Open⟩ := by
    intro k slot h
    cases k with
    | zero =>
      cases h
      exact ⟨rfl, rfl⟩
    | succ k => cases h
  refine ⟨?_, ?_, ?_⟩
  · intro k slot h
    rw [(hslot k slot h).2, List.length_replicate]
    exact le_rfl
  · intro i k a b ha hb hne
    exact absurd ((hslot i a ha).1.trans (hslot k b hb).1.symm) hne
  · intro k slot h
    rw [(hslot k slot h).2]
    exact le_rfl

theorem SyncNode.waiting_canonical : SyncNode.waiting.Canonical .openSlots := by
  refine ⟨⟨oneSlot, List.replicate 1024 7, rfl, rfl, ⟨_, rfl, oneSlot_layout⟩, ?_⟩, ?_,
    named_empty.insert (r := newRecord threeDigest 5) rfl, named_empty⟩
  · rintro m ⟨⟩
    exact ⟨oneSlot_layout, owned_empty oneSlot⟩
  · intro key hkey
    exact absurd hkey ExtTreeMap.not_mem_empty

theorem threeMissing_listed : Listed threeMissing threeDigest :=
  (named_empty.listed_insert (r := newRecord threeDigest 5) rfl threeDigest).mpr (Or.inl rfl)

theorem chunks_three : chunks MAX_CHUNK_SIZE [1, 2, 3] = [[1, 2, 3]] := by decide

/-- The slot is open and large enough. -/
theorem waiting_writable (os : List Answer) :
    Writable (SyncNode.waiting.manager.answered os) [[1, 2, 3]] ↔ Quiet (os.take 3) := by
  unfold Writable
  constructor
  · rintro ⟨m, _, _, _, hquiet⟩
    exact hquiet
  · intro hquiet
    refine ⟨oneSlot, rfl, le_rfl, ?_, hquiet⟩
    intro p hp
    have hzip : (openSlots oneSlot [[(1 : UInt8), 2, 3]].length).zip [[(1 : UInt8), 2, 3]] =
        [(0, [1, 2, 3])] := rfl
    rw [hzip, List.mem_singleton] at hp
    subst hp
    exact ⟨by decide, _, rfl, le_rfl⟩

theorem decode_three : Outside.openSlots.base64.decode "AQID".toList = some [1, 2, 3] := by
  decide +kernel

theorem waiting_retains (os : List Answer) :
    SyncNode.waiting.Retains .openSlots (threeArrive os) ↔ Quiet (os.take 3) := by
  rw [← waiting_writable, ← chunks_three]
  constructor
  · intro h
    exact h [1, 2, 3] decode_three rfl ExtTreeMap.not_mem_empty threeMissing_listed
  · intro h bytes hbytes _ _ _
    rw [decode_three] at hbytes
    cases hbytes
    exact h

/-- Bytes that can be written are stored before they leave the list. -/
theorem content_retained_in_runs_iff_of_written : SyncNode.waiting.Canonical .openSlots ∧
    ∀ p ∈ runs.visits (SyncNode.step .openSlots) [threeArrive []] SyncNode.waiting,
      (p.1.step .openSlots p.2).isSome →
        RetainsUntilStored .openSlots p.1 p.2 ∧ RecognisesStored p.1 p.2 := by
  refine ⟨SyncNode.waiting_canonical, ?_⟩
  rw [content_retained_in_runs_iff .openSlots SyncNode.waiting_canonical]
  intro p hp _
  rw [List.mem_singleton.mp hp]
  exact (waiting_retains []).mpr (fun a ha => by cases ha)

/-- The disk refuses the bytes, and they leave the list. -/
theorem refused_content_is_forgotten : SyncNode.waiting.Canonical .openSlots ∧
    ¬ ∀ p ∈ runs.visits (SyncNode.step .openSlots)
      [threeArrive [.refused "No space left on device"]] SyncNode.waiting,
        (p.1.step .openSlots p.2).isSome →
          RetainsUntilStored .openSlots p.1 p.2 ∧ RecognisesStored p.1 p.2 := by
  refine ⟨SyncNode.waiting_canonical, ?_⟩
  intro hall
  have hlaws := hall _ List.mem_cons_self rfl
  have hretains := (SyncNode.waiting_canonical.next_iff .openSlots rfl).2.mp hlaws
  have hquiet := (waiting_retains _).mp hretains
  have hdone := hquiet (.refused "No space left on device") List.mem_cons_self
  cases hdone

end eld_chain
