-- The metadata of snapshots in the database. It stands at a path that is the
-- hash of the height, under a key that follows its contents. Puts and
-- deletes of one height leave the others where they are, as long as
-- SHA-256 tells them apart.
import EldChain.CadoStore
import EldChain.SnapshotCodec

open Std

namespace eld_chain

variable (o : Outside)

/-! ## Snapshots -/

def PATH_PREFIX_SNAPSHOT_METADATA : Text := "/@eld/snapshot_metadata/".toList

/-- The path of the metadata of a height: its name is the hash of the decimal text. -/
def snapshot_path (height : I64) : CadoPath :=
  .snapshot_metadata (o.sha256 (Text.bytes (toString height.val).toList))

theorem snapshot_canonical (height : I64) : (snapshot_path o height).Canonical := trivial

def snapshot_parsed (height : I64) : ParsedPath :=
  (snapshot_path o height).parsedPath (snapshot_canonical o height)

def snapshotOwner : CADOMetadata := ⟨.SnapshotMetadata, "system".toList⟩

def CadoStore.put_snapshot_metadata (st : CadoStore) (m : SnapshotMetadata) :
    Except EldError CadoStore :=
  st.put_cado_data o (snapshot_parsed o m.height) (m.serialize o) snapshotOwner

def CadoStore.delete_snapshot_metadata (st : CadoStore) (height : I64) :
    Except EldError CadoStore :=
  st.system_delete_cado o (snapshot_path o height).parts snapshotOwner.owner

/-- `get_deserialized_cado_by_path::<SnapshotMetadata>`. -/
def CadoStore.get_deserialized_snapshot (st : CadoStore) (p : PathText) :
    Except EldError SnapshotMetadata :=
  match st.get_cado_by_path o p with
  | .error e => .error e
  | .ok none => .error (.NotFoundError "CADO" (String.ofList p.path))
  | .ok (some cado) => SnapshotMetadata.deserialize_bin o cado.data

/-- A path that leads to no metadata is logged and passed over. -/
def CadoStore.read_snapshot (st : CadoStore) (p : PathText) : Option SnapshotMetadata :=
  (st.get_deserialized_snapshot o p).toOption

theorem I64.compare_lt {a b : I64} : compare a b = .lt ↔ a.val < b.val :=
  (compare_lt_iff_lt : compare a.val b.val = .lt ↔ a.val < b.val)

/-! ## What is stored -/

variable {o : Outside} {st st' : CadoStore} {stored : List SnapshotMetadata}

/-- The text of the path of a snapshot's metadata. -/
def SnapshotMetadata.text (o : Outside) (m : SnapshotMetadata) : Text :=
  (snapshot_path o m.height).parts.path

/-- The object that a put writes. -/
def SnapshotMetadata.cado (o : Outside) (m : SnapshotMetadata) : CadoBody Bytes :=
  .of_bytes o (m.serialize o) snapshotOwner

/-- The key of that object, which follows its contents. -/
def SnapshotMetadata.key (o : Outside) (m : SnapshotMetadata) : Bytes32 :=
  keyFor o .SnapshotMetadata (hexDigits 64 (o.sha256 (m.serialize o)).toNat)

/-- The object is short enough to be read. -/
def SnapshotMetadata.Readable (o : Outside) (m : SnapshotMetadata) : Prop :=
  (m.cado o).serialized_len o ≤ MAX_CADO_DATA_SIZE

instance (m : SnapshotMetadata) : Decidable (m.Readable o) :=
  inferInstanceAs (Decidable (_ ≤ _))

/-- The snapshots that a database holds: the rows under the prefix are theirs, and each has the
object that was put for it, which bincode reads back. -/
structure HoldsSnapshots (o : Outside) (st : CadoStore) (stored : List SnapshotMetadata) :
    Prop where
  distinct : (stored.map SnapshotMetadata.height).Nodup
  rows : ∀ path, PATH_PREFIX_SNAPSHOT_METADATA <+: path →
    (path ∈ st.path_index.rows ↔ ∃ m ∈ stored, m.text o = path)
  indexed : ∀ m ∈ stored, st.path_index.rows[m.text o]? = some (m.key o)
  objects : ∀ m ∈ stored, st.cado[m.key o]? = some (m.cado o)
  reads_back : ∀ m ∈ stored, o.bincode.ReadsBack .snapshot_metadata m

theorem deletable_snapshot (n : Bytes32) : (CadoPath.snapshot_metadata n).Deletable :=
  Or.inr (Or.inr rfl)

/-- The key of an immutable object at a path of a snapshot follows its hash. -/
theorem generate_snapshot (n : Bytes32) (c : CADO Bytes) :
    (CadoPath.snapshot_metadata n).parts.generate o (.Immutable c) =
      .ok ⟨keyFor o .SnapshotMetadata (hexDigits 64 c.hash.toNat), none⟩ :=
  generate_of_contents (deletable_snapshot n) c

theorem HoldsSnapshots.get_row (h : HoldsSnapshots o st stored) {m : SnapshotMetadata}
    (hm : m ∈ stored) : st.get_cado_by_path o (snapshot_path o m.height).parts =
      (snapshot_path o m.height).parts.read_row o (m.key o) (some (m.cado o)) := by
  have hvalid : validate_cado_path_internal (snapshot_path o m.height).parts = .ok () :=
    validate_cado_path_as_str trivial
  rw [← h.objects m hm]
  exact get_of_row hvalid (h.indexed m hm)

theorem HoldsSnapshots.get_stored (h : HoldsSnapshots o st stored) {m : SnapshotMetadata}
    (hm : m ∈ stored) (hreadable : m.Readable o) :
    st.get_cado_by_path o (snapshot_path o m.height).parts = .ok (some (m.cado o)) := by
  have hsize : (snapshot_path o m.height).parts.max_stored_size = MAX_CADO_DATA_SIZE :=
    max_stored_size_of_contents (deletable_snapshot _)
  rw [h.get_row hm]
  apply read_row_eq_some_iff.mpr
  exact ⟨rfl, by rw [hsize]; exact hreadable, _, generate_snapshot _ _, rfl⟩

/-- The metadata that a database holds is read back, unless it is too long. -/
theorem HoldsSnapshots.read_stored (h : HoldsSnapshots o st stored) {m : SnapshotMetadata}
    (hm : m ∈ stored) :
    st.read_snapshot o (snapshot_path o m.height).parts =
      if m.Readable o then some m else none := by
  unfold CadoStore.read_snapshot CadoStore.get_deserialized_snapshot
  by_cases hreadable : m.Readable o
  · have hdata : (m.cado o).data = m.serialize o := rfl
    rw [h.get_stored hm hreadable, if_pos hreadable]
    simp only [hdata, SnapshotMetadata.deserialize_serialize (h.reads_back m hm)]
    rfl
  · have hsize : (snapshot_path o m.height).parts.max_stored_size = MAX_CADO_DATA_SIZE :=
      max_stored_size_of_contents (deletable_snapshot _)
    have hlong : (snapshot_path o m.height).parts.max_stored_size <
        (m.cado o).serialized_len o := by
      rw [hsize]
      exact Nat.lt_of_not_le hreadable
    obtain ⟨e, herror⟩ := @read_row_of_long o _ (m.key o) _ hlong
    rw [h.get_row hm, herror, if_neg hreadable]
    rfl

/-! ## Puts and deletes -/

theorem parsedPath_eq (p : CadoPath) (hp : p.Canonical) : (p.parsedPath hp).toPathText = p.parts :=
  rfl

theorem path_of_parts (p : CadoPath) : p.parts.path = p.as_str.toList := rfl

theorem type_of_parts (p : CadoPath) : p.parts.type_ = p.type_.as_str.toList := rfl

/-- What a put of metadata leaves. -/
def CadoStore.withSnapshot (o : Outside) (st : CadoStore) (m : SnapshotMetadata) : CadoStore :=
  ⟨st.path_index.put (snapshot_parsed o m.height) (m.key o),
    st.cado.insert (m.key o) (m.cado o)⟩

theorem put_snapshot_eq (o : Outside) (st : CadoStore) (m : SnapshotMetadata) :
    st.put_snapshot_metadata o m = .ok (st.withSnapshot o m) :=
  put_of_contents (deletable_snapshot _) (m.serialize o) snapshotOwner

/-- SHA-256 tells the heights of the snapshots apart, and their encodings. -/
def HashesApart (o : Outside) (ms : List SnapshotMetadata) : Prop :=
  ∀ m ∈ ms, ∀ n ∈ ms, (m.text o = n.text o → m.height = n.height) ∧
    (m.key o = n.key o → m.serialize o = n.serialize o)

/-- The rows of a store after a put: the row of the put path, and the others. -/
theorem mem_put_rows {index : PathIndex} {p : ParsedPath} {key : Bytes32} {path : Text} :
    path ∈ (index.put p key).rows ↔ p.path = path ∨ path ∈ index.rows := by
  unfold PathIndex.put
  rw [ExtTreeMap.mem_insert, LawfulEqCmp.compare_eq_iff_eq]

theorem get_put_rows {index : PathIndex} {p : ParsedPath} {key : Bytes32} {path : Text} :
    (index.put p key).rows[path]? = if p.path = path then some key else index.rows[path]? :=
  finite_map.get_insert _ _ _ _

/-- A put takes the place of the metadata of its height. -/
theorem HoldsSnapshots.put (h : HoldsSnapshots o st stored) {m : SnapshotMetadata}
    (hapart : HashesApart o (m :: stored)) (hback : o.bincode.ReadsBack .snapshot_metadata m) :
    HoldsSnapshots o (st.withSnapshot o m) (m :: stored.filter (fun n => n.height ≠ m.height)) := by
  have hpath : (snapshot_parsed o m.height).path = m.text o := rfl
  have hother : ∀ n ∈ stored.filter (fun n => n.height ≠ m.height),
      n ∈ stored ∧ m.text o ≠ n.text o := by
    intro n hn
    obtain ⟨hstored, hheight⟩ := List.mem_filter.mp hn
    refine ⟨hstored, fun htext => of_decide_eq_true hheight ?_⟩
    exact ((hapart m List.mem_cons_self n (List.mem_cons_of_mem _ hstored)).1 htext).symm
  refine ⟨?_, ?_, ?_, ?_, ?_⟩
  · rw [List.map_cons, List.nodup_cons]
    constructor
    · intro hmem
      obtain ⟨n, hn, hheight⟩ := List.mem_map.mp hmem
      exact of_decide_eq_true (List.mem_filter.mp hn).2 hheight
    · exact h.distinct.sublist (List.filter_sublist.map _)
  · intro path hlead
    unfold CadoStore.withSnapshot
    rw [mem_put_rows, hpath, h.rows path hlead]
    constructor
    · rintro (htext | ⟨n, hn, htext⟩)
      · exact ⟨m, List.mem_cons_self, htext⟩
      · by_cases hheight : n.height = m.height
        · refine ⟨m, List.mem_cons_self, ?_⟩
          rw [← htext]
          unfold SnapshotMetadata.text
          rw [hheight]
        · exact ⟨n, List.mem_cons_of_mem _ (List.mem_filter.mpr ⟨hn, decide_eq_true hheight⟩),
            htext⟩
    · rintro ⟨n, hn, htext⟩
      rcases List.mem_cons.mp hn with rfl | hn
      · exact Or.inl htext
      · exact Or.inr ⟨n, (hother n hn).1, htext⟩
  · intro n hn
    unfold CadoStore.withSnapshot
    rw [get_put_rows, hpath]
    rcases List.mem_cons.mp hn with rfl | hn
    · rw [if_pos rfl]
    · rw [if_neg (hother n hn).2, h.indexed n (hother n hn).1]
  · intro n hn
    unfold CadoStore.withSnapshot
    simp only [finite_map.get_insert]
    rcases List.mem_cons.mp hn with rfl | hn
    · rw [if_pos rfl]
    · have hstored := (hother n hn).1
      by_cases hkey : m.key o = n.key o
      · have hsame := (hapart m List.mem_cons_self n (List.mem_cons_of_mem _ hstored)).2 hkey
        rw [if_pos hkey]
        unfold SnapshotMetadata.cado
        rw [hsame]
      · rw [if_neg hkey, h.objects n hstored]
  · intro n hn
    rcases List.mem_cons.mp hn with rfl | hn
    · exact hback
    · exact h.reads_back n (hother n hn).1

theorem HoldsSnapshots.empty (o : Outside) : HoldsSnapshots o .empty [] where
  distinct := List.nodup_nil
  rows path _ := by
    have hnone : path ∉ CadoStore.empty.path_index.rows := ExtTreeMap.not_mem_empty
    simp [hnone]
  indexed _ hm := by cases hm
  objects _ hm := by cases hm
  reads_back _ hm := by cases hm

/-- Any snapshots of distinct heights can be stored, one after another. -/
theorem holds_puts {ms : List SnapshotMetadata} (hdistinct : (ms.map SnapshotMetadata.height).Nodup)
    (hapart : HashesApart o ms) (hback : ∀ m ∈ ms, o.bincode.ReadsBack .snapshot_metadata m) :
    ∃ st, ms.reverse.foldlM (fun st m => st.put_snapshot_metadata o m) CadoStore.empty = .ok st ∧
      HoldsSnapshots o st ms := by
  induction ms with
  | nil => exact ⟨_, rfl, HoldsSnapshots.empty o⟩
  | cons m ms ih =>
    rw [List.map_cons, List.nodup_cons] at hdistinct
    have hrest : HashesApart o ms := fun a ha b hb =>
      hapart a (List.mem_cons_of_mem _ ha) b (List.mem_cons_of_mem _ hb)
    obtain ⟨st, hst, hheld⟩ :=
      ih hdistinct.2 hrest (fun n hn => hback n (List.mem_cons_of_mem _ hn))
    have hnew : ms.filter (fun n => n.height ≠ m.height) = ms := by
      rw [List.filter_eq_self]
      intro n hn
      exact decide_eq_true (fun hheight => hdistinct.1 (List.mem_map.mpr ⟨n, hn, hheight⟩))
    have hput := hheld.put hapart (hback m List.mem_cons_self)
    rw [hnew] at hput
    refine ⟨st.withSnapshot o m, ?_, hput⟩
    rw [List.reverse_cons, List.foldlM_append, hst]
    simp only [bind, Except.bind, List.foldlM_cons, put_snapshot_eq, List.foldlM_nil, pure,
      Except.pure]

/-- Two stored snapshots with one encoding are one. -/
theorem HoldsSnapshots.serialize_inj (h : HoldsSnapshots o st stored) {m n : SnapshotMetadata}
    (hm : m ∈ stored) (hn : n ∈ stored) (hsame : m.serialize o = n.serialize o) : m = n := by
  have hread := SnapshotMetadata.deserialize_serialize (h.reads_back m hm)
  rw [hsame, SnapshotMetadata.deserialize_serialize (h.reads_back n hn), Except.ok.injEq] at hread
  exact hread.symm

/-- A delete of metadata that can be read takes it away, and no other. -/
theorem HoldsSnapshots.delete (h : HoldsSnapshots o st stored) {m : SnapshotMetadata}
    (hm : m ∈ stored) (hreadable : m.Readable o) (hapart : HashesApart o stored) :
    ∃ st', st.delete_snapshot_metadata o m.height = .ok st' ∧
      HoldsSnapshots o st' (stored.filter (fun n => n.height ≠ m.height)) := by
  have hprepare : st.prepare_system_cado_deletion o (snapshot_path o m.height).parts
      snapshotOwner.owner = .ok ⟨m.key o, none⟩ :=
    @prepare_of_contents o st (snapshot_path o m.height) (deletable_snapshot _)
      ⟨o.sha256 (m.serialize o), m.serialize o, snapshotOwner⟩ (h.get_stored hm hreadable)
  have hother : ∀ n ∈ stored.filter (fun n => n.height ≠ m.height),
      n ∈ stored ∧ m.text o ≠ n.text o ∧ m.key o ≠ n.key o := by
    intro n hn
    obtain ⟨hstored, hheight⟩ := List.mem_filter.mp hn
    refine ⟨hstored, fun htext => of_decide_eq_true hheight ?_,
      fun hkey => of_decide_eq_true hheight ?_⟩
    · exact ((hapart m hm n hstored).1 htext).symm
    · rw [h.serialize_inj hm hstored ((hapart m hm n hstored).2 hkey)]
  have hpath : (snapshot_path o m.height).parts.path = m.text o := rfl
  refine ⟨st.delete_keys (snapshot_path o m.height).parts ⟨m.key o, none⟩, ?_, ?_, ?_, ?_, ?_, ?_⟩
  · unfold CadoStore.delete_snapshot_metadata CadoStore.system_delete_cado
    rw [hprepare]
    rfl
  · exact h.distinct.sublist (List.filter_sublist.map _)
  · intro path hlead
    unfold CadoStore.delete_keys PathIndex.delete_path_index
    rw [hpath, ExtTreeMap.mem_erase, h.rows path hlead]
    simp only [ne_eq, LawfulEqCmp.compare_eq_iff_eq]
    constructor
    · rintro ⟨hne, n, hn, rfl⟩
      refine ⟨n, List.mem_filter.mpr ⟨hn, decide_eq_true ?_⟩, rfl⟩
      intro hheight
      apply hne
      unfold SnapshotMetadata.text
      rw [hheight]
    · rintro ⟨n, hn, rfl⟩
      exact ⟨(hother n hn).2.1, n, (hother n hn).1, rfl⟩
  · intro n hn
    unfold CadoStore.delete_keys PathIndex.delete_path_index
    rw [hpath]
    simp only [finite_map.get_erase]
    rw [if_neg (hother n hn).2.1, h.indexed n (hother n hn).1]
  · intro n hn
    unfold CadoStore.delete_keys eraseKey
    simp only [finite_map.get_erase]
    rw [if_neg (hother n hn).2.2, h.objects n (hother n hn).1]
  · intro n hn
    exact h.reads_back n (hother n hn).1

end eld_chain
