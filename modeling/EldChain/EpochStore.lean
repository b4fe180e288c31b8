-- The records of epochs in the database. The name of a record's path is its
-- epoch, written with a fixed width, so the texts of the paths are in the
-- order of the epochs. The latest record stands once more under an alias.
import EldChain.IndexKeys
import EldChain.SnapshotStore

open Std

namespace eld_chain

variable (o : Outside)

/-! ## Names -/

/-- The text of `epoch_record_path_name`: `0x` and the epoch as 64 hex digits. -/
def epoch_record_name (epoch : I64) : Except EldError Text :=
  (epoch_record_path_name epoch).map Bytes32.text

/-- `epoch_from_record_path_name`, of any text. -/
def epoch_from_record_name (name : Text) : Option I64 :=
  if starts_with_0x name = false ∨ utf8Len name ≠ 66 then none
  else
    let hex_part := name.drop 2
    if hex_part.all (fun c => (hexVal c).isSome) = false then none
    else (from_str_radix_16 64 hex_part).bind (fun epoch_u64 => I64.checked epoch_u64)

def PATH_PREFIX_EPOCH_RECORD : Text := "/@eld/epoch_record/".toList

def EPOCH_RECORD_PATH_INDEX_UPPER_EXCLUSIVE : Text := "/@eld/epoch_record;".toList

def epoch_number_from_record_path_str (path_str : Text) : Option I64 :=
  match PathText.parse path_str with
  | .error _ => none
  | .ok path =>
    if path.type_ ≠ CadoType.EpochRecord.as_str.toList then none
    else if path.name = Bytes32.text LATEST then none
    else epoch_from_record_name path.name

/-- `get_deserialized_cado_by_path`, with the decoder of one data type. -/
def CadoStore.get_deserialized_cado_by_path {T : Type} (st : CadoStore) (p : PathText)
    (deserialize_bin : Bytes → Except EldError T) : Except EldError T :=
  match st.get_cado_by_path o p with
  | .error e => .error e
  | .ok none => .error (.NotFoundError "CADO" (String.ofList p.path))
  | .ok (some cado) => deserialize_bin cado.data

def EpochRecord.deserialize_bin (data : Bytes) : Except EldError EpochRecord :=
  (o.bincode.deserialize .epoch_record data).mapError (fun e =>
    .StorageError "deserialize_epoch_record" ("Failed to deserialize EpochRecord: " ++ e))

def CadoStore.read_epoch_record (st : CadoStore) (path_str : Text) :
    Except EldError EpochRecord := do
  let cado_path ← PathText.parse path_str
  st.get_deserialized_cado_by_path o cado_path (EpochRecord.deserialize_bin o)

/-! ## The names of epochs -/

variable {o : Outside} {st : CadoStore} {records : List EpochRecord}

theorem toNat_epoch_name (epoch : I64) :
    (BitVec.ofNat 256 epoch.val.toNat).toNat = epoch.val.toNat := by
  have hhi := epoch.hi
  rw [BitVec.toNat_ofNat, Nat.mod_eq_of_lt (by omega)]

theorem epoch_record_name_of_path {epoch : I64} (h : 0 ≤ epoch.val) :
    epoch_record_name epoch = .ok (Bytes32.text (BitVec.ofNat 256 epoch.val.toNat)) := by
  unfold epoch_record_name epoch_record_path_name
  rw [if_neg (by omega), Except.map]

theorem epoch_record_name_eq {epoch : I64} (h : 0 ≤ epoch.val) :
    epoch_record_name epoch = .ok ('0' :: 'x' :: hexDigits 64 epoch.val.toNat) := by
  rw [epoch_record_name_of_path h]
  unfold Bytes32.text
  rw [toNat_epoch_name]

/-- What a name of hex digits reads as: an epoch, if it is one. -/
theorem epoch_from_record_text (name : Bytes32) :
    epoch_from_record_name (Bytes32.text name) = epoch_from_record_path_name name := by
  have hdigits : ∀ c ∈ hexDigits 64 name.toNat, (hexVal c).isSome = true := by
    intro c hc
    obtain ⟨d, hd, rfl⟩ := mem_hexDigits hc
    rw [hexVal_hexChar hd]
    rfl
  have hlen : utf8Len (Bytes32.text name) = 66 := by
    have hrest : utf8Len (hexDigits 64 name.toNat) = 64 := by
      rw [utf8Len_of_hex hdigits, length_hexDigits]
    unfold Bytes32.text
    rw [utf8Len_cons, utf8Len_cons, hrest]
    rfl
  have hdrop : (Bytes32.text name).drop 2 = hexDigits 64 name.toNat := rfl
  have hstart : starts_with_0x (Bytes32.text name) = true := starts_with_0x_cons _
  have hhead : (hexDigits 64 name.toNat).head? ≠ some '+' := by
    intro hhead
    obtain ⟨d, hd, heq⟩ := mem_hexDigits (List.mem_of_head? hhead)
    exact (hexChar_plain hd).2 heq.symm
  have hne : hexDigits 64 name.toNat ≠ [] := by
    intro hnil
    have hlength := length_hexDigits 64 name.toNat
    rw [hnil] at hlength
    cases hlength
  have hnumber : hexNumber (hexDigits 64 name.toNat) = some name.toNat :=
    hexNumber_hexDigits name.isLt
  unfold epoch_from_record_name
  rw [hstart, hlen, if_neg (by simp), hdrop]
  simp only [List.all_eq_true.mpr hdigits, Bool.true_eq_false, if_false]
  unfold from_str_radix_16 epoch_from_record_path_name I64.checked
  simp only [if_neg hhead, if_neg hne, hnumber, Option.bind_some]
  by_cases hfits : name.toNat < 2 ^ 63
  · rw [if_pos (by omega), dif_pos hfits, Option.bind_some, dif_pos (by omega),
      dif_pos (by omega)]
  · rw [dif_neg hfits]
    by_cases hword : name.toNat < 2 ^ 64
    · rw [if_pos hword, Option.bind_some, dif_pos (by omega), dif_neg (by omega)]
    · rw [if_neg hword, Option.bind_none]

theorem nonneg_of_name {epoch : I64} {name : Text} (h : epoch_record_name epoch = .ok name) :
    0 ≤ epoch.val := by
  by_contra hneg
  unfold epoch_record_name epoch_record_path_name at h
  rw [if_pos (by omega)] at h
  cases h

/-- An epoch is read back from its name. -/
theorem epoch_from_record_name_eq {epoch : I64} {name : Text}
    (h : epoch_record_name epoch = .ok name) : epoch_from_record_name name = some epoch := by
  have hlo := nonneg_of_name h
  have hhi := epoch.hi
  rw [epoch_record_name_of_path hlo, Except.ok.injEq] at h
  rw [← h, epoch_from_record_text]
  unfold epoch_from_record_path_name
  rw [dif_pos (by rw [toNat_epoch_name]; omega), Option.some.injEq]
  apply I64.ext_val
  change ((BitVec.ofNat 256 epoch.val.toNat).toNat : Int) = epoch.val
  rw [toNat_epoch_name]
  omega

/-- The names of epochs are in the order of the epochs. -/
theorem compare_epoch_names {epoch epoch' : I64} {name name' : Text}
    (h : epoch_record_name epoch = .ok name) (h' : epoch_record_name epoch' = .ok name') :
    compare name name' = compare epoch epoch' := by
  have hlo := nonneg_of_name h
  have hlo' := nonneg_of_name h'
  have hhi := epoch.hi
  have hhi' := epoch'.hi
  have hwidth := @compare_hexDigits 64 epoch.val.toNat epoch'.val.toNat (by omega) (by omega) [] []
  rw [List.append_nil, List.append_nil, ReflOrd.compare_self, Ordering.then_eq] at hwidth
  have hint : compare epoch.val.toNat epoch'.val.toNat = compare epoch epoch' := by
    rcases Int.lt_trichotomy epoch.val epoch'.val with hlt | heq | hgt
    · rw [I64.compare_lt.mpr hlt]
      exact Nat.compare_eq_lt.mpr (by omega)
    · rw [heq, I64.ext_val heq, ReflOrd.compare_self, ReflOrd.compare_self]
    · rw [OrientedCmp.gt_of_lt (I64.compare_lt.mpr hgt)]
      exact Nat.compare_eq_gt.mpr (by omega)
  rw [epoch_record_name_eq hlo, Except.ok.injEq] at h
  rw [epoch_record_name_eq hlo', Except.ok.injEq] at h'
  rw [← h, ← h', List.compare_cons_cons, List.compare_cons_cons, ReflOrd.compare_self,
    ReflOrd.compare_self, hwidth, hint]
  rfl

/-! ## What is stored -/

/-- The path of the record of an epoch that is not negative. -/
def epoch_path (epoch : I64) : CadoPath := .epoch_record (BitVec.ofNat 256 epoch.val.toNat)

theorem epoch_canonical (epoch : I64) : (epoch_path epoch).Canonical := trivial

def EpochRecord.text (r : EpochRecord) : Text := (epoch_path r.epoch).parts.path

def EpochRecord.key (o : Outside) (r : EpochRecord) : Bytes32 :=
  keyFor o .EpochRecord (epoch_path r.epoch).name

/-- What bincode writes of a record. -/
def EpochRecord.encoded (o : Outside) (r : EpochRecord) : Bytes :=
  o.bincode.serialize .epoch_record r

theorem deserialize_encoded {r : EpochRecord} (h : o.bincode.ReadsBack .epoch_record r) :
    EpochRecord.deserialize_bin o (r.encoded o) = .ok r := by
  have hback : o.bincode.deserialize .epoch_record (r.encoded o) = .ok r := h
  unfold EpochRecord.deserialize_bin
  rw [hback]
  rfl

def latest_path : CadoPath := .epoch_record LATEST

theorem latest_canonical : latest_path.Canonical := trivial

def latest_key (o : Outside) : Bytes32 := keyFor o .EpochRecord latest_path.name

/-- The epoch records that a database holds: but for the alias of the latest one, the rows under
the prefix are theirs, and each leads to an object with its data. -/
structure HoldsEpochs (o : Outside) (st : CadoStore) (records : List EpochRecord) : Prop where
  distinct : (records.map EpochRecord.epoch).Nodup
  nonnegative : ∀ r ∈ records, 0 ≤ r.epoch.val
  rows : ∀ path, PATH_PREFIX_EPOCH_RECORD <+: path → path ≠ latest_path.parts.path →
    (path ∈ st.path_index.rows ↔ ∃ r ∈ records, r.text = path)
  indexed : ∀ r ∈ records, st.path_index.rows[r.text]? = some (r.key o)
  objects : ∀ r ∈ records, ∃ cado, st.cado[r.key o]? = some cado ∧ cado.data = r.encoded o
  latest : ∀ key, st.path_index.rows[latest_path.parts.path]? = some key → key = latest_key o

/-- The object of a record is short enough to be read. -/
def EpochRecord.Readable (o : Outside) (st : CadoStore) (r : EpochRecord) : Prop :=
  ∀ cado, st.cado[r.key o]? = some cado → cado.serialized_len o ≤ MAX_CADO_DATA_SIZE

instance (r : EpochRecord) : Decidable (r.Readable o st) :=
  decidable_of_iff ((st.cado[r.key o]?).all
    (fun cado => decide (cado.serialized_len o ≤ MAX_CADO_DATA_SIZE)) = true) (by
      unfold EpochRecord.Readable
      cases st.cado[r.key o]? <;> simp)

theorem epoch_text_eq (name : Bytes32) : (CadoPath.epoch_record name).parts.path =
    PATH_PREFIX_EPOCH_RECORD ++ Bytes32.text name := by
  have hlead : PATH_PREFIX_EPOCH_RECORD =
      '/' :: (SCOPE_ELD_ROOT ++ '/' :: (CadoType.EpochRecord.as_str.toList ++ ['/'])) := by decide
  have hpath := as_str_toList (CadoPath.epoch_record name)
  have htype : (CadoPath.epoch_record name).type_ = .EpochRecord := rfl
  have hname : (CadoPath.epoch_record name).name = Bytes32.text name := rfl
  rw [htype, hname] at hpath
  rw [path_of_parts, hpath, hlead]
  simp only [List.cons_append, List.append_assoc, List.nil_append]

theorem epoch_number_of_text (name : Bytes32) :
    epoch_number_from_record_path_str (CadoPath.epoch_record name).parts.path =
      if Bytes32.text name = Bytes32.text LATEST then none
      else epoch_from_record_path_name name := by
  have hparse : PathText.parse (CadoPath.epoch_record name).parts.path =
      .ok (CadoPath.epoch_record name).parts := by
    rw [path_of_parts]
    exact parse_as_str trivial
  have htype : (CadoPath.epoch_record name).parts.type_ = CadoType.EpochRecord.as_str.toList := by
    rw [type_of_parts]
    rfl
  have hname : (CadoPath.epoch_record name).parts.name = Bytes32.text name := rfl
  unfold epoch_number_from_record_path_str
  rw [hparse]
  simp only [htype, hname, ne_eq, not_true_eq_false, if_false]
  rw [epoch_from_record_text]

theorem epoch_of_path {epoch : I64} (h : 0 ≤ epoch.val) :
    epoch_number_from_record_path_str (epoch_path epoch).parts.path = some epoch := by
  have hname := epoch_record_name_of_path h
  have hepoch := epoch_from_record_name_eq hname
  have hlatest : Bytes32.text (BitVec.ofNat 256 epoch.val.toNat) ≠ Bytes32.text LATEST := by
    intro heq
    rw [heq, epoch_from_record_text] at hepoch
    have hnone : epoch_from_record_path_name LATEST = none := by decide
    rw [hnone] at hepoch
    cases hepoch
  rw [epoch_from_record_text] at hepoch
  unfold epoch_path
  rw [epoch_number_of_text, if_neg hlatest, hepoch]

theorem latest_has_no_epoch :
    epoch_number_from_record_path_str latest_path.parts.path = none := by
  unfold latest_path
  rw [epoch_number_of_text, if_pos rfl]

theorem epoch_text_lead (r : EpochRecord) : PATH_PREFIX_EPOCH_RECORD <+: r.text := by
  unfold EpochRecord.text epoch_path
  rw [epoch_text_eq]
  exact List.prefix_append _ _

/-- The rows of the records are in the order of their epochs. -/
theorem compare_epoch_texts {epoch epoch' : I64} (h : 0 ≤ epoch.val) (h' : 0 ≤ epoch'.val) :
    compare (epoch_path epoch).parts.path (epoch_path epoch').parts.path =
      compare epoch epoch' := by
  unfold epoch_path
  rw [epoch_text_eq, epoch_text_eq, scans.compare_append_same]
  exact compare_epoch_names (epoch_record_name_of_path h) (epoch_record_name_of_path h')

/-! ## Reading a record -/

/-- The key of an object at a path of a record follows the path. -/
theorem generate_epoch_key (name : Bytes32) (cado : CadoBody Bytes) :
    (CadoPath.epoch_record name).parts.generate_key o cado =
      .ok (keyFor o .EpochRecord (CadoPath.epoch_record name).name) := by
  have hparse : CadoType.parse_type (CadoPath.epoch_record name).parts.type_ =
      some .EpochRecord := parse_type_as_str _
  unfold PathText.generate_key
  rw [hparse, keyFor_parts]
  rfl

theorem generate_epoch (name : Bytes32) (cado : CadoBody Bytes) :
    (CadoPath.epoch_record name).parts.generate o cado =
      .ok ⟨keyFor o .EpochRecord (CadoPath.epoch_record name).name, none⟩ := by
  have hparse : CadoType.parse_type (CadoPath.epoch_record name).parts.type_ =
      some .EpochRecord := parse_type_as_str _
  have hlatest : (CadoPath.epoch_record name).parts.generate_latest_key o cado = .ok none := by
    unfold PathText.generate_latest_key
    rw [hparse]
  unfold PathText.generate
  rw [generate_epoch_key, hlatest]
  rfl

theorem max_stored_size_epoch (name : Bytes32) :
    (CadoPath.epoch_record name).parts.max_stored_size = MAX_CADO_DATA_SIZE := by
  have hparse : CadoType.parse_type (CadoPath.epoch_record name).parts.type_ =
      some .EpochRecord := parse_type_as_str _
  unfold PathText.max_stored_size
  rw [hparse, if_neg (by decide)]

theorem HoldsEpochs.get_row (h : HoldsEpochs o st records) {r : EpochRecord} (hr : r ∈ records) :
    st.get_cado_by_path o (epoch_path r.epoch).parts =
      (epoch_path r.epoch).parts.read_row o (r.key o) st.cado[r.key o]? := by
  have hvalid : validate_cado_path_internal (epoch_path r.epoch).parts = .ok () :=
    validate_cado_path_as_str trivial
  have hindexed := h.indexed r hr
  unfold EpochRecord.text at hindexed
  exact get_of_row hvalid hindexed

theorem read_epoch_record_eq (r : EpochRecord) : st.read_epoch_record o r.text =
    st.get_deserialized_cado_by_path o (epoch_path r.epoch).parts
      (EpochRecord.deserialize_bin o) := by
  have hparse : PathText.parse r.text = .ok (epoch_path r.epoch).parts := by
    unfold EpochRecord.text
    rw [path_of_parts]
    exact parse_as_str trivial
  unfold CadoStore.read_epoch_record
  simp only [hparse, bind, Except.bind]

/-- A stored record is read back. -/
theorem HoldsEpochs.read_stored (h : HoldsEpochs o st records) {r : EpochRecord}
    (hr : r ∈ records) (hreadable : r.Readable o st)
    (hback : o.bincode.ReadsBack .epoch_record r) : st.read_epoch_record o r.text = .ok r := by
  obtain ⟨cado, hcado, hdata⟩ := h.objects r hr
  have hsize : (epoch_path r.epoch).parts.max_stored_size = MAX_CADO_DATA_SIZE :=
    max_stored_size_epoch _
  have hget : st.get_cado_by_path o (epoch_path r.epoch).parts = .ok (some cado) := by
    rw [h.get_row hr, hcado]
    apply read_row_eq_some_iff.mpr
    exact ⟨rfl, by rw [hsize]; exact hreadable cado hcado, _, generate_epoch _ _, rfl⟩
  rw [read_epoch_record_eq]
  unfold CadoStore.get_deserialized_cado_by_path
  rw [hget]
  simp only [hdata, deserialize_encoded hback]

/-- A record whose object is too long is an error. -/
theorem HoldsEpochs.read_long (h : HoldsEpochs o st records) {r : EpochRecord}
    (hr : r ∈ records) (hlong : ¬ r.Readable o st) :
    ∃ e, st.read_epoch_record o r.text = .error e := by
  obtain ⟨cado, hcado, _⟩ := h.objects r hr
  have hsize : (epoch_path r.epoch).parts.max_stored_size = MAX_CADO_DATA_SIZE :=
    max_stored_size_epoch _
  have habove : (epoch_path r.epoch).parts.max_stored_size < cado.serialized_len o := by
    rw [hsize]
    by_contra hfits
    apply hlong
    intro cado' hcado'
    rw [hcado, Option.some.injEq] at hcado'
    rw [← hcado']
    exact Nat.le_of_not_lt hfits
  obtain ⟨e, herror⟩ := @read_row_of_long o _ (r.key o) _ habove
  refine ⟨e, ?_⟩
  rw [read_epoch_record_eq]
  unfold CadoStore.get_deserialized_cado_by_path
  rw [h.get_row hr, hcado, herror]

/-! ## Puts -/

def epoch_parsed (epoch : I64) : ParsedPath := (epoch_path epoch).parsedPath (epoch_canonical epoch)

def latest_parsed : ParsedPath := latest_path.parsedPath latest_canonical

/-- Stores a record, and once more under the alias. -/
def CadoStore.put_epoch_record (o : Outside) (st : CadoStore) (r : EpochRecord) (owner : Text) :
    Except EldError CadoStore := do
  let cado := CadoBody.of_bytes o (r.encoded o) ⟨.EpochRecord, owner⟩
  let st ← st.put_cado_type o (epoch_parsed r.epoch) cado
  st.put_cado_type o latest_parsed cado

/-- What a put of an object leaves. -/
def CadoStore.withRow (st : CadoStore) (p : ParsedPath) (key : Bytes32) (cado : CadoBody Bytes) :
    CadoStore := ⟨st.path_index.put p key, st.cado.insert key cado⟩

/-- A put at a path of a record writes under the key of the path. -/
theorem put_at_epoch_path {name : Bytes32} (hname : (CadoPath.epoch_record name).Canonical)
    (cado : CadoBody Bytes)
    (hkey : ∀ key, st.path_index.rows[(CadoPath.epoch_record name).parts.path]? = some key →
      key = keyFor o .EpochRecord (CadoPath.epoch_record name).name) :
    st.put_cado_type o ((CadoPath.epoch_record name).parsedPath hname) cado =
      .ok (st.withRow ((CadoPath.epoch_record name).parsedPath hname)
        (keyFor o .EpochRecord (CadoPath.epoch_record name).name) cado) := by
  have hvalid : validate_cado_path_internal (CadoPath.epoch_record name).parts = .ok () :=
    validate_cado_path_as_str hname
  have hput : (CadoPath.epoch_record name).parts.put_key o "generate_key"
      st.path_index.rows[(CadoPath.epoch_record name).parts.path]? cado =
        .ok (keyFor o .EpochRecord (CadoPath.epoch_record name).name) := by
    unfold PathText.put_key
    rw [hvalid]
    simp only [bind, Except.bind]
    cases hrow : st.path_index.rows[(CadoPath.epoch_record name).parts.path]? with
    | none => simp only [generate_epoch_key, Except.mapError]
    | some key => simp only [hkey key hrow]
  unfold CadoStore.put_cado_type
  rw [parsedPath_eq, hput]
  rfl

/-- SHA-256 tells the keys of the records apart, and that of the alias from them. -/
def EpochKeysApart (o : Outside) (records : List EpochRecord) : Prop :=
  ∀ r ∈ records, r.key o ≠ latest_key o ∧ ∀ s ∈ records, r.key o = s.key o → r.epoch = s.epoch

theorem epoch_parsed_path (r : EpochRecord) : (epoch_parsed r.epoch).path = r.text := rfl

theorem latest_parsed_path : latest_parsed.path = latest_path.parts.path := rfl

/-- Two records with one path are of one epoch. -/
theorem epoch_of_text {r s : EpochRecord} (hr : 0 ≤ r.epoch.val) (hs : 0 ≤ s.epoch.val)
    (h : r.text = s.text) : r.epoch = s.epoch := by
  have hepoch : epoch_number_from_record_path_str r.text = some r.epoch := epoch_of_path hr
  have hepoch' : epoch_number_from_record_path_str s.text = some s.epoch := epoch_of_path hs
  rw [h, hepoch', Option.some.injEq] at hepoch
  exact hepoch.symm

theorem text_ne_latest {r : EpochRecord} (hr : 0 ≤ r.epoch.val) :
    r.text ≠ latest_path.parts.path := by
  intro h
  have hepoch : epoch_number_from_record_path_str r.text = some r.epoch := epoch_of_path hr
  rw [h, latest_has_no_epoch] at hepoch
  cases hepoch

theorem key_of_epoch {r s : EpochRecord} (h : r.epoch = s.epoch) : r.key o = s.key o := by
  unfold EpochRecord.key
  rw [h]

theorem text_of_epoch {r s : EpochRecord} (h : r.epoch = s.epoch) : r.text = s.text := by
  unfold EpochRecord.text
  rw [h]

/-- A put takes the place of the record of its epoch. -/
theorem HoldsEpochs.put (h : HoldsEpochs o st records) {r : EpochRecord} (hlo : 0 ≤ r.epoch.val)
    {cado : CadoBody Bytes} (hdata : cado.data = r.encoded o)
    (hapart : EpochKeysApart o (r :: records)) :
    HoldsEpochs o (st.withRow (epoch_parsed r.epoch) (r.key o) cado)
      (r :: records.filter (fun s => s.epoch ≠ r.epoch)) := by
  have hother : ∀ s ∈ records.filter (fun s => s.epoch ≠ r.epoch),
      s ∈ records ∧ r.text ≠ s.text ∧ r.key o ≠ s.key o := by
    intro s hs
    obtain ⟨hstored, hepoch⟩ := List.mem_filter.mp hs
    have hepoch := of_decide_eq_true hepoch
    refine ⟨hstored, ?_, ?_⟩
    · intro htext
      exact hepoch (epoch_of_text hlo (h.nonnegative s hstored) htext).symm
    · intro hkey
      exact hepoch ((hapart r List.mem_cons_self).2 s (List.mem_cons_of_mem _ hstored) hkey).symm
  refine ⟨?_, ?_, ?_, ?_, ?_, ?_⟩
  · rw [List.map_cons, List.nodup_cons]
    constructor
    · intro hmem
      obtain ⟨s, hs, hepoch⟩ := List.mem_map.mp hmem
      exact of_decide_eq_true (List.mem_filter.mp hs).2 hepoch
    · exact h.distinct.sublist (List.filter_sublist.map _)
  · intro s hs
    rcases List.mem_cons.mp hs with rfl | hs
    · exact hlo
    · exact h.nonnegative s (hother s hs).1
  · intro path hlead hlatest
    unfold CadoStore.withRow
    rw [mem_put_rows, epoch_parsed_path, h.rows path hlead hlatest]
    constructor
    · rintro (htext | ⟨s, hs, htext⟩)
      · exact ⟨r, List.mem_cons_self, htext⟩
      · by_cases hepoch : s.epoch = r.epoch
        · exact ⟨r, List.mem_cons_self, (text_of_epoch hepoch).symm.trans htext⟩
        · exact ⟨s, List.mem_cons_of_mem _ (List.mem_filter.mpr ⟨hs, decide_eq_true hepoch⟩),
            htext⟩
    · rintro ⟨s, hs, htext⟩
      rcases List.mem_cons.mp hs with rfl | hs
      · exact Or.inl htext
      · exact Or.inr ⟨s, (hother s hs).1, htext⟩
  · intro s hs
    unfold CadoStore.withRow
    rw [get_put_rows, epoch_parsed_path]
    rcases List.mem_cons.mp hs with rfl | hs
    · rw [if_pos rfl]
    · rw [if_neg (hother s hs).2.1, h.indexed s (hother s hs).1]
  · intro s hs
    unfold CadoStore.withRow
    simp only [finite_map.get_insert]
    rcases List.mem_cons.mp hs with rfl | hs
    · exact ⟨cado, if_pos rfl, hdata⟩
    · rw [if_neg (hother s hs).2.2]
      exact h.objects s (hother s hs).1
  · intro key hkey
    unfold CadoStore.withRow at hkey
    rw [get_put_rows, epoch_parsed_path, if_neg (text_ne_latest hlo)] at hkey
    exact h.latest key hkey

/-- A put at the alias leaves the records. -/
theorem HoldsEpochs.put_latest (h : HoldsEpochs o st records)
    (hapart : ∀ r ∈ records, r.key o ≠ latest_key o) (cado : CadoBody Bytes) :
    HoldsEpochs o (st.withRow latest_parsed (latest_key o) cado) records where
  distinct := h.distinct
  nonnegative := h.nonnegative
  rows path hlead hlatest := by
    unfold CadoStore.withRow
    rw [mem_put_rows, latest_parsed_path, h.rows path hlead hlatest]
    simp only [hlatest.symm, false_or]
  indexed r hr := by
    unfold CadoStore.withRow
    rw [get_put_rows, latest_parsed_path, if_neg (text_ne_latest (h.nonnegative r hr)).symm]
    exact h.indexed r hr
  objects r hr := by
    unfold CadoStore.withRow
    simp only [finite_map.get_insert, if_neg (hapart r hr).symm]
    exact h.objects r hr
  latest key hkey := by
    unfold CadoStore.withRow at hkey
    rw [get_put_rows, latest_parsed_path, if_pos rfl, Option.some.injEq] at hkey
    exact hkey.symm

theorem HoldsEpochs.empty (o : Outside) : HoldsEpochs o .empty [] where
  distinct := List.nodup_nil
  nonnegative _ hr := by cases hr
  rows path _ _ := by
    have hnone : path ∉ CadoStore.empty.path_index.rows := ExtTreeMap.not_mem_empty
    simp [hnone]
  indexed _ hr := by cases hr
  objects _ hr := by cases hr
  latest key hkey := by
    have hnone : CadoStore.empty.path_index.rows[latest_path.parts.path]? = none :=
      ExtTreeMap.getElem?_empty
    rw [hnone] at hkey
    cases hkey

/-- The store after a record was stored, and once more under the alias. -/
def CadoStore.withEpoch (o : Outside) (st : CadoStore) (r : EpochRecord) (owner : Text) :
    CadoStore :=
  let cado := CadoBody.of_bytes o (r.encoded o) ⟨.EpochRecord, owner⟩
  (st.withRow (epoch_parsed r.epoch) (r.key o) cado).withRow latest_parsed (latest_key o) cado

/-- The row of an epoch, where there is one, has the key of the epoch. -/
theorem HoldsEpochs.key_of_row (h : HoldsEpochs o st records) {r : EpochRecord}
    (hlo : 0 ≤ r.epoch.val) {key : Bytes32} (hkey : st.path_index.rows[r.text]? = some key) :
    key = r.key o := by
  have hrow : r.text ∈ st.path_index.rows := by
    rw [ExtTreeMap.mem_iff_isSome_getElem?, hkey]
    rfl
  obtain ⟨s, hs, htext⟩ := (h.rows _ (epoch_text_lead r) (text_ne_latest hlo)).mp hrow
  have hindex := h.indexed s hs
  rw [htext, hkey, Option.some.injEq] at hindex
  rw [hindex]
  exact key_of_epoch (epoch_of_text (h.nonnegative s hs) hlo htext)

theorem HoldsEpochs.put_epoch_record_eq (h : HoldsEpochs o st records) {r : EpochRecord}
    (hlo : 0 ≤ r.epoch.val) (hapart : EpochKeysApart o (r :: records)) (owner : Text) :
    st.put_epoch_record o r owner = .ok (st.withEpoch o r owner) ∧
      HoldsEpochs o (st.withEpoch o r owner) (r :: records.filter (fun s => s.epoch ≠ r.epoch)) := by
  have hfirst : ∀ cado, st.put_cado_type o (epoch_parsed r.epoch) cado =
      .ok (st.withRow (epoch_parsed r.epoch) (r.key o) cado) := by
    intro cado
    apply put_at_epoch_path
    intro key hkey
    exact h.key_of_row hlo hkey
  have hheld := @HoldsEpochs.put o st records h r hlo
    (.of_bytes o (r.encoded o) ⟨.EpochRecord, owner⟩) rfl hapart
  have hsecond : ∀ cado, (st.withRow (epoch_parsed r.epoch) (r.key o)
      (CadoBody.of_bytes o (r.encoded o) ⟨.EpochRecord, owner⟩)).put_cado_type o latest_parsed cado =
        .ok ((st.withRow (epoch_parsed r.epoch) (r.key o)
          (CadoBody.of_bytes o (r.encoded o) ⟨.EpochRecord, owner⟩)).withRow latest_parsed
            (latest_key o) cado) := by
    intro cado
    apply put_at_epoch_path
    exact hheld.latest
  constructor
  · unfold CadoStore.put_epoch_record
    simp only [hfirst, hsecond, bind, Except.bind]
    rfl
  · apply hheld.put_latest
    intro s hs
    have hmem : s ∈ r :: records := by
      rcases List.mem_cons.mp hs with rfl | hs
      · exact List.mem_cons_self
      · exact List.mem_cons_of_mem _ (List.mem_of_mem_filter hs)
    exact (hapart s hmem).1

/-- Any records of distinct epochs that are not negative can be stored, one after another. -/
theorem holds_epoch_puts {rs : List EpochRecord} (hdistinct : (rs.map EpochRecord.epoch).Nodup)
    (hlo : ∀ r ∈ rs, 0 ≤ r.epoch.val) (hapart : EpochKeysApart o rs) (owner : Text) :
    ∃ st, rs.reverse.foldlM (fun st r => st.put_epoch_record o r owner) CadoStore.empty = .ok st ∧
      HoldsEpochs o st rs := by
  induction rs with
  | nil => exact ⟨_, rfl, HoldsEpochs.empty o⟩
  | cons r rs ih =>
    rw [List.map_cons, List.nodup_cons] at hdistinct
    have hrest : EpochKeysApart o rs := fun a ha =>
      ⟨(hapart a (List.mem_cons_of_mem _ ha)).1, fun b hb =>
        (hapart a (List.mem_cons_of_mem _ ha)).2 b (List.mem_cons_of_mem _ hb)⟩
    obtain ⟨st, hst, hheld⟩ :=
      ih hdistinct.2 (fun s hs => hlo s (List.mem_cons_of_mem _ hs)) hrest
    have hnew : rs.filter (fun s => s.epoch ≠ r.epoch) = rs := by
      rw [List.filter_eq_self]
      intro s hs
      exact decide_eq_true (fun hepoch => hdistinct.1 (List.mem_map.mpr ⟨s, hs, hepoch⟩))
    obtain ⟨hput, hheld'⟩ := hheld.put_epoch_record_eq (hlo r List.mem_cons_self) hapart owner
    rw [hnew] at hheld'
    refine ⟨_, ?_, hheld'⟩
    rw [List.reverse_cons, List.foldlM_append, hst]
    simp only [bind, Except.bind, List.foldlM_cons, hput, List.foldlM_nil, pure, Except.pure]

end eld_chain
