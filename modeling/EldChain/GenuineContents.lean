-- The contents of a peer are what their keys name. Nothing is stored under a
-- key that is not the hash of its bytes, whatever arrives from the network,
-- so what the peer serves has the hash that was asked for. Only a content
-- whose deletion the operating system has stopped may be something else.
import EldChain.ContentPeers

open Std

namespace eld_chain

open fallible regions finite_map

variable {o : Outside} {s t : CapacityManager} {m : SlotMap} {file file' : Bytes}

/-! ## Taking a content away -/

/-- What the deletion of a content comes to, however it ends: the other contents still stand,
and unless the operating system fails the content is no longer listed. -/
structure Removed (s t : CapacityManager) (id : Text) : Prop where
  loaded : ∃ m file, t.slot_allocator.slot_map = some m ∧ Kept t file
  listed : ∀ id' ∈ t.slot_allocator.content_slot_map, id' ∈ s.slot_allocator.content_slot_map
  others : ∀ id' placed, id ≠ id' → Standing s id' placed → Standing t id' placed
  gone : Quiet s.answers → id ∉ t.slot_allocator.content_slot_map

theorem Removed.withTree {id : Text} (h : Removed s t id)
    (tree : Option CapacityProofMerkleTree) : Removed s { t with merkle_tree := tree } id := by
  obtain ⟨m, file, hm, hkept⟩ := h.loaded
  refine ⟨⟨m, file, hm, hkept.withTree tree⟩, h.listed, ?_, h.gone⟩
  intro id' placed hne hstanding
  exact (h.others id' placed hne hstanding).withTree tree

/-- A content stands through writes to slots that are not its own. -/
theorem Stored.touched {id : Text} {placed : List (Nat × Bytes)} {indices : List Nat}
    {sf : Option (JsonFile SlotMap)} {cf : Option (JsonFile ContentSlotMap)} {as : List Answer}
    (h : Stored s m file id placed) (hown : ∀ p ∈ placed, p.1 ∉ indices)
    (htouched : Touched m indices file file') :
    Stored (s.moved m s.slot_allocator.content_slot_map file' sf cf as) m file' id placed := by
  refine ⟨h.listed, ?_, h.fit⟩
  intro p hp
  rw [htouched.2 p.1 (hown p hp)]
  exact h.holds p hp

/-- The slots of a content are not those of another one. -/
theorem Stored.disjoint {id id' : Text} {placed : List (Nat × Bytes)} {sizes : List (Nat × Nat)}
    (h : Stored s m file id placed) (howned : Owned m s.slot_allocator.content_slot_map)
    (hid : s.slot_allocator.content_slot_map[id']? = some sizes) (hother : id' ≠ id) :
    ∀ p ∈ placed, p.1 ∉ sizes.map Prod.fst := by
  intro p hp
  exact howned.disjoint h.listed hid (fun heq => hother heq.symm) (p := (p.1, p.2.length))
    (List.mem_map_of_mem hp)

/-- A content that stands here stands in the one map and file of this state. -/
theorem Standing.stored {id : Text} {placed : List (Nat × Bytes)} (h : Standing s id placed)
    (hm : s.slot_allocator.slot_map = some m) (hkept : Kept s file) :
    Stored s m file id placed := by
  obtain ⟨m', file', hm', hkept', hstored⟩ := h
  rw [hm] at hm'
  cases hm'
  have hsame := hkept'.capacity_file.symm.trans hkept.capacity_file
  cases hsame
  exact hstored

section Deleting

variable {id : Text} {sizes : List (Nat × Nat)} {sf : Option (JsonFile SlotMap)}
  {cf : Option (JsonFile ContentSlotMap)} {as : List Answer}

theorem removed_of_erased (h : Kept s file) (hm : s.slot_allocator.slot_map = some m)
    (hid : s.slot_allocator.content_slot_map[id]? = some sizes)
    (htouched : Touched m (sizes.map Prod.fst) file file')
    (hsaved : ∃ json, sf = some json ∧ Layout (JsonFile.value json) file') :
    Removed s (s.moved (m.restate .Open (sizes.map Prod.fst))
      (s.slot_allocator.content_slot_map.erase id) file' sf cf as) id := by
  obtain ⟨hlayout, howned⟩ := h.loaded m hm
  have hlayout' := (hlayout.of_length htouched.1).restate .Open (sizes.map Prod.fst)
  have hkept : Kept (s.moved (m.restate .Open (sizes.map Prod.fst))
      (s.slot_allocator.content_slot_map.erase id) file' sf cf as) file' :=
    Kept.of_parts hlayout' (howned.delete hid) hsaved
  refine ⟨⟨_, file', rfl, hkept⟩, fun id' hmem => ExtTreeMap.mem_of_mem_erase hmem, ?_, ?_⟩
  · intro id' placed hne hstanding
    have hstored := hstanding.stored hm h
    exact ⟨_, file', rfl, hkept, hstored.delete howned hne hid htouched⟩
  · intro _ hmem
    exact (ExtTreeMap.mem_erase.mp hmem).1 ReflCmp.compare_self

theorem deleteSection_removed (h : Kept s file) (hm : s.slot_allocator.slot_map = some m)
    (id : Text) :
    Ends (deleteSection o id) s (fun _ t => Removed s t id) (fun _ t => Removed s t id) := by
  obtain ⟨hlayout, howned⟩ := h.loaded m hm
  cases hid : s.slot_allocator.content_slot_map[id]? with
  | none =>
    refine (deleteSection_unknown o hid).mono (fun _ _ h => h.elim) ?_
    rintro _ _ rfl
    refine ⟨⟨m, file, hm, h⟩, fun _ hmem => hmem, fun _ _ _ hstanding => hstanding, ?_⟩
    intro _ hmem
    rw [ExtTreeMap.getElem?_eq_some_getElem hmem] at hid
    cases hid
  | some sizes =>
    refine (deleteSection_ends o hm h.capacity_file hlayout hid
      (fun p hp => howned.lt hid hp)).mono ?_ ?_
    · rintro _ t ⟨_, file', as, _, htouched, _, rfl⟩
      have hlayout' := (hlayout.of_length htouched.1).restate .Open (sizes.map Prod.fst)
      exact removed_of_erased h hm hid htouched ⟨_, rfl, hlayout'⟩
    · rintro _ t ⟨hfailed, ⟨file', as, _, htouched, rfl⟩ |
        ⟨file', as, sf', cf', _, htouched, _, rfl, hstop⟩⟩
      · have hkept : Kept (s.moved m s.slot_allocator.content_slot_map file' s.disk.slots_file
            s.disk.content_slot_map_file as) file' :=
          Kept.of_parts (hlayout.of_length htouched.1) howned (h.saved_of_length htouched.1)
        refine ⟨⟨m, file', rfl, hkept⟩, fun _ hmem => hmem, ?_, fun hquiet => absurd hquiet hfailed⟩
        intro id' placed hne hstanding
        have hstored := hstanding.stored hm h
        exact ⟨m, file', rfl, hkept,
          hstored.touched (hstored.disjoint howned hid hne) htouched⟩
      · have hlayout' := (hlayout.of_length htouched.1).restate .Open (sizes.map Prod.fst)
        exact removed_of_erased h hm hid htouched
          (hstop.saved hlayout' (h.saved_of_length htouched.1))

end Deleting

theorem delete_removed (h : Kept s file) (hm : s.slot_allocator.slot_map = some m) (id : Text) :
    Removed s (after (delete_content_from_slots o id) s) id := by
  refine Ends.after (P := fun t => Removed s t id) ?_
  unfold delete_content_from_slots
  rw [ends_bind]
  refine (deleteSection_removed h hm id).mono ?_ (fun _ _ h => h)
  intro released t ht
  rw [ends_bind]
  refine (get_merkle_root_ends t).mono ?_ ?_
  · rintro _ _ rfl
    rw [ends_bind]
    refine (update_merkle_tree_for_content_ends o released.1 released.2 t).mono ?_ ?_
    · rintro _ _ ⟨tree, _, rfl⟩
      exact ht.withTree tree
    · rintro _ _ rfl
      exact ht
  · rintro _ _ ⟨_, rfl⟩
    exact ht

/-! ## Genuine slots -/

/-- Every content in the slots, but for torn ones, stands there under the hash of its bytes. -/
structure Genuine (o : Outside) (Torn : Text → Prop) (s : CapacityManager) : Prop where
  loaded : ∃ m file, s.slot_allocator.slot_map = some m ∧ Kept s file
  contents : ∀ key ∈ s.slot_allocator.content_slot_map, ¬ Torn key → ∃ placed,
    key = hexKey (o.sha256 (placed.map Prod.snd).flatten) ∧ Standing s key placed

variable {Torn Torn' : Text → Prop}

theorem Genuine.mono (h : Genuine o Torn s) (hmore : ∀ key, Torn key → Torn' key) :
    Genuine o Torn' s := by
  refine ⟨h.loaded, ?_⟩
  intro key hkey hwhole
  exact h.contents key hkey (fun htorn => hwhole (hmore key htorn))

theorem Genuine.used (h : Genuine o Torn s) (hused : Used s t) : Genuine o Torn t := by
  obtain ⟨m, file, hm, hkept⟩ := h.loaded
  obtain ⟨as, _, rfl⟩ := hused
  refine ⟨⟨m, file, hm, hkept.answered as⟩, ?_⟩
  intro key hkey hwhole
  obtain ⟨placed, hname, hstanding⟩ := h.contents key hkey hwhole
  exact ⟨placed, hname, hstanding.answered as⟩

theorem Genuine.answered (h : Genuine o Torn s) (os : List Answer) :
    Genuine o Torn (s.answered os) := by
  obtain ⟨m, file, hm, hkept⟩ := h.loaded
  refine ⟨⟨m, file, hm, hkept.answered os⟩, ?_⟩
  intro key hkey hwhole
  obtain ⟨placed, hname, hstanding⟩ := h.contents key hkey hwhole
  exact ⟨placed, hname, hstanding.answered os⟩

/-- What is read under a key has its hash. -/
theorem Genuine.read (h : Genuine o Torn s) {key : Text} {bytes : Bytes}
    (hget : get_content_from_slots key s = .ok (some bytes) t) (hwhole : ¬ Torn key) :
    key = hexKey (o.sha256 bytes) := by
  have hlisted : key ∈ s.slot_allocator.content_slot_map := by
    by_contra hnew
    rw [get_content_unlisted hnew] at hget
    cases hget
  obtain ⟨placed, hname, m, file, hm, hkept, hstored⟩ := h.contents key hlisted hwhole
  have hread := (hstored.read hm hkept.capacity_file).of_ok hget
  rw [Option.some.injEq] at hread
  rw [hread]
  exact hname

/-- A mirrored content is stored unless it is listed. -/
theorem mirror_cases (o : Outside) (key : Text) (bytes : Bytes) (s : CapacityManager) :
    (key ∈ s.slot_allocator.content_slot_map ∧ Used s (mirrorContent o key bytes s)) ∨
      (key ∉ s.slot_allocator.content_slot_map ∧ mirrorContent o key bytes s =
        after (store_content_chunks o key (chunks MAX_CHUNK_SIZE bytes)) s) := by
  obtain ⟨hok, herror⟩ := get_content_used key s
  unfold mirrorContent
  by_cases hlisted : key ∈ s.slot_allocator.content_slot_map
  · left
    refine ⟨hlisted, ?_⟩
    cases hget : get_content_from_slots key s with
    | error e t => exact herror e t hget
    | ok r t =>
      obtain ⟨bytes', rfl⟩ := (get_content_listed hlisted).of_ok hget
      exact hok _ t hget
  · right
    rw [get_content_unlisted hlisted]
    exact ⟨hlisted, rfl⟩

/-- So is what comes of a store of a new content, whether or not it could be written. -/
theorem Genuine.offered (h : Genuine o Torn s) {bytes : Bytes}
    (hnew : hexKey (o.sha256 bytes) ∉ s.slot_allocator.content_slot_map)
    (hoffered : Offered s t (hexKey (o.sha256 bytes)) (chunks MAX_CHUNK_SIZE bytes)) :
    Genuine o Torn t := by
  refine ⟨hoffered.loaded, ?_⟩
  intro key hkey hwhole
  by_cases hsame : hexKey (o.sha256 bytes) = key
  · subst hsame
    by_cases hwritable : Writable s (chunks MAX_CHUNK_SIZE bytes)
    · obtain ⟨placed, hchunks, hstanding⟩ := hoffered.stored hwritable
      refine ⟨placed, ?_, hstanding⟩
      rw [hchunks, flatten_chunks chunk_size_pos]
    · rw [hoffered.dropped hwritable] at hkey
      exact absurd hkey hnew
  · rcases hoffered.listed key hkey with heq | hold
    · exact absurd heq.symm hsame
    · obtain ⟨placed, hname, hstanding⟩ := h.contents key hold hwhole
      exact ⟨placed, hname, hoffered.others key placed hsame hstanding⟩

theorem Genuine.mirror (h : Genuine o Torn s) {key : Text} {bytes : Bytes}
    (hname : key = hexKey (o.sha256 bytes)) : Genuine o Torn (mirrorContent o key bytes s) := by
  rw [hname]
  rcases mirror_cases o (hexKey (o.sha256 bytes)) bytes s with ⟨_, hused⟩ | ⟨hnew, hstore⟩
  · exact h.used hused
  · obtain ⟨m, file, hm, hkept⟩ := h.loaded
    rw [hstore]
    exact h.offered hnew (store_offered o hkept hm hnew _)

/-- A deletion that the operating system stops tears its content, and no other. -/
theorem Genuine.collect (h : Genuine o Torn s) (key : Text) :
    Genuine o (fun k => Torn k ∨ (k = key ∧ ¬ Quiet s.answers))
      (after (delete_content_from_slots o key) s) := by
  obtain ⟨m, file, hm, hkept⟩ := h.loaded
  have hremoved : Removed s (after (delete_content_from_slots o key) s) key :=
    delete_removed hkept hm key
  refine ⟨hremoved.loaded, ?_⟩
  intro k hk hwhole
  rw [not_or] at hwhole
  have hne : key ≠ k := by
    rintro rfl
    have hquiet : Quiet s.answers := by
      by_contra hfailed
      exact hwhole.2 ⟨rfl, hfailed⟩
    exact hremoved.gone hquiet hk
  obtain ⟨placed, hname, hstanding⟩ := h.contents k (hremoved.listed k hk) hwhole.1
  exact ⟨placed, hname, hremoved.others k placed hne hstanding⟩

end eld_chain
