-- The listing of epoch records by their epochs. The walk goes over the rows
-- between two bounds, in either direction from the cursor, and passes over
-- the alias of the latest record. Its limit is looked at after each record,
-- so a listing has no less than one record where there is one.
import EldChain.EpochStore
import EldChain.Library.Selection

open Std selection

namespace eld_chain

variable (o : Outside)

/-! ## The walk -/

inductive EpochRecordListOrder
  | Asc | Desc
deriving DecidableEq

/-- The rows between the bounds of `epoch_record_path_index_read_options`. -/
def PathIndex.epoch_record_rows (index : PathIndex) : List Text :=
  index.rows.keys.filter (fun path => (compare PATH_PREFIX_EPOCH_RECORD path).isLE &&
    (compare path EPOCH_RECORD_PATH_INDEX_UPPER_EXCLUSIVE).isLT)

/-- `iterator_cf_opt`: from the seek key on, forward or in reverse. -/
def PathIndex.epoch_record_iter (index : PathIndex) (order : EpochRecordListOrder)
    (seek_key : Option Text) : List Text :=
  match order with
  | .Desc => (index.epoch_record_rows.filter (fun path =>
      (compare path (seek_key.getD EPOCH_RECORD_PATH_INDEX_UPPER_EXCLUSIVE)).isLE)).reverse
  | .Asc => scans.seek (seek_key.getD PATH_PREFIX_EPOCH_RECORD) index.epoch_record_rows

/-- Whether an epoch is strictly beyond the cursor. -/
def beyond (order : EpochRecordListOrder) (after_epoch : Option I64) (epoch : I64) : Bool :=
  match order, after_epoch with
  | .Desc, some ae => decide (epoch.val < ae.val)
  | .Asc, some ae => decide (ae.val < epoch.val)
  | _, none => true

/-- The loop of the listing. The limit is looked at after each record. -/
def epochLoop (read : Text → Except EldError EpochRecord) (included : I64 → Bool)
    (fetch_limit : Nat) : List Text → List EpochRecord → Except EldError (List EpochRecord)
  | [], out => .ok out
  | path_str :: rows, out =>
    if PATH_PREFIX_EPOCH_RECORD.isPrefixOf path_str = false then .ok out
    else match epoch_number_from_record_path_str path_str with
      | none => epochLoop read included fetch_limit rows out
      | some epoch =>
        if included epoch = false then epochLoop read included fetch_limit rows out
        else match read path_str with
          | .error e => .error e
          | .ok record =>
            let out := out ++ [record]
            if fetch_limit ≤ out.length then .ok out
            else epochLoop read included fetch_limit rows out

/-- `seek_key_owned`: the path of the cursor. -/
def seek_key_owned : Option I64 → Except EldError (Option Text)
  | none => .ok none
  | some ae => (epoch_record_name ae).map (fun name => some (PATH_PREFIX_EPOCH_RECORD ++ name))

def CadoStore.list_epoch_records_chron (st : CadoStore) (order : EpochRecordListOrder)
    (after_epoch : Option I64) (fetch_limit : Nat) : Except EldError (List EpochRecord) := do
  let seek_key ← seek_key_owned after_epoch
  epochLoop (st.read_epoch_record o) (beyond order after_epoch) fetch_limit
    (st.path_index.epoch_record_iter order seek_key) []

/-- The loop of `count_epoch_records`. -/
def epochCountLoop : List Text → UInt64 → UInt64
  | [], n => n
  | path_str :: rows, n =>
    if PATH_PREFIX_EPOCH_RECORD.isPrefixOf path_str = false then n
    else if (epoch_number_from_record_path_str path_str).isSome then epochCountLoop rows (n + 1)
    else epochCountLoop rows n

def PathIndex.count_epoch_records (index : PathIndex) : UInt64 :=
  epochCountLoop (index.epoch_record_iter .Asc none) 0

variable {o : Outside} {st : CadoStore} {records : List EpochRecord}

/-! ## The rows of the walk -/

/-- The parts of a parsed text. -/
theorem parts_of_parse {path : Text} {p : PathText} (h : PathText.parse path = .ok p) :
    (∃ rest, splitn 4 (path.drop 1) = p.scope :: p.type_ :: p.name :: rest) ∧
      VALID_TYPES.contains p.type_ = true := by
  unfold PathText.parse at h
  split at h
  · cases h
  · split at h
    · rename_i scope type_ name rest hsplit
      split at h
      · cases h
      · split at h
        · cases h
        · rename_i hvalid
          split at h
          · cases h
          · split at h
            · cases h
            · cases h
              exact ⟨⟨rest, hsplit⟩, by simpa using hvalid⟩
    · cases h

theorem take_splitn (n : Nat) (s : Text) : (splitn n s).take (n - 1) = (s.splitOn '/').take (n - 1) := by
  unfold splitn
  simp only
  by_cases hfew : (s.splitOn '/').length ≤ n
  · rw [if_pos hfew]
  · have hlen : ((s.splitOn '/').take (n - 1)).length = n - 1 := by
      rw [List.length_take]
      omega
    rw [if_neg hfew, List.take_append_of_le_length (Nat.le_of_eq hlen.symm),
      List.take_of_length_le (Nat.le_of_eq hlen)]

/-- The first part of a text that begins without a slash begins with that beginning. -/
theorem head_splitOn {lead : Text} (hlead : '/' ∉ lead) (rest : Text) :
    ∃ more tail, (lead ++ rest).splitOn '/' = (lead ++ more) :: tail := by
  by_cases hslash : '/' ∈ rest
  · obtain ⟨more, tail, rfl, hmore⟩ := List.eq_append_cons_of_mem hslash
    refine ⟨more, tail.splitOn '/', ?_⟩
    rw [← List.append_assoc]
    exact List.splitOn_append_cons_self_of_not_mem (by simp [hlead, hmore]) tail
  · exact ⟨rest, [], List.splitOn_eq_singleton (by simp [hlead, hslash])⟩

/-- No type goes on after `epoch_record`. -/
theorem epoch_record_type_ends (b : Char) (more : Text) :
    VALID_TYPES.contains (CadoType.EpochRecord.as_str.toList ++ b :: more) = false := by
  have hall : VALID_TYPES.all (fun t =>
      !CadoType.EpochRecord.as_str.toList.isPrefixOf t || t.length == 12) = true := by decide
  have hlen : CadoType.EpochRecord.as_str.toList.length = 12 := by decide
  rw [Bool.eq_false_iff]
  intro hmem
  have htype := List.all_eq_true.mp hall _ (List.contains_iff_mem.mp hmem)
  have hlead : CadoType.EpochRecord.as_str.toList.isPrefixOf
      (CadoType.EpochRecord.as_str.toList ++ b :: more) = true :=
    List.isPrefixOf_iff_prefix.mpr (List.prefix_append _ _)
  rw [hlead, Bool.not_true, Bool.false_or, beq_iff_eq, List.length_append, hlen,
    List.length_cons] at htype
  omega

/-- Every row between the bounds has the prefix: what follows the type in the text of a path is
a slash. -/
theorem lead_of_epoch_row {index : PathIndex} {path : Text} (h : path ∈ index.epoch_record_rows) :
    PATH_PREFIX_EPOCH_RECORD <+: path := by
  have hlow : PATH_PREFIX_EPOCH_RECORD = "/@eld/epoch_record".toList ++ ['/'] := by decide
  have hup : EPOCH_RECORD_PATH_INDEX_UPPER_EXCLUSIVE = "/@eld/epoch_record".toList ++ [';'] := by
    decide
  unfold PathIndex.epoch_record_rows at h
  rw [List.mem_filter, ExtTreeMap.mem_keys, Bool.and_eq_true, hlow, hup] at h
  obtain ⟨hrow, hlower, hupper⟩ := h
  obtain ⟨b, rest, hpath, _, _⟩ := scans.split_of_between hlower hupper
  by_cases hslash : b = '/'
  · rw [hpath, hslash, hlow]
    exact ⟨rest, by simp⟩
  · obtain ⟨p, hp⟩ := index.paths path hrow
    obtain ⟨⟨more, hsplit⟩, hvalid⟩ := parts_of_parse hp
    have hstart : "/@eld/epoch_record".toList =
        '/' :: (SCOPE_ELD_ROOT ++ '/' :: CadoType.EpochRecord.as_str.toList) := by decide
    have hdrop : path.drop 1 =
        SCOPE_ELD_ROOT ++ '/' :: ((CadoType.EpochRecord.as_str.toList ++ [b]) ++ rest) := by
      rw [hpath, hstart]
      simp
    have hscope : '/' ∉ SCOPE_ELD_ROOT := by decide
    have htype : '/' ∉ CadoType.EpochRecord.as_str.toList ++ [b] := by
      have hplain : '/' ∉ CadoType.EpochRecord.as_str.toList := by decide
      rw [List.mem_append, List.mem_singleton]
      rintro (hmem | heq)
      · exact hplain hmem
      · exact hslash heq.symm
    obtain ⟨tail, parts, hhead⟩ := head_splitOn htype rest
    have htake := take_splitn 4 (path.drop 1)
    rw [hsplit, hdrop, List.splitOn_append_cons_self_of_not_mem hscope, hhead] at htake
    have hsame : p.type_ = CadoType.EpochRecord.as_str.toList ++ [b] ++ tail :=
      (List.cons.inj (List.cons.inj htake).2).1
    rw [hsame, List.append_assoc, List.singleton_append, epoch_record_type_ends] at hvalid
    cases hvalid

/-- The rows between the bounds are those with the prefix. -/
theorem epoch_record_rows_eq (index : PathIndex) :
    index.epoch_record_rows = index.pathsWith PATH_PREFIX_EPOCH_RECORD := by
  unfold PathIndex.epoch_record_rows PathIndex.pathsWith keysWith
  apply List.filter_congr
  intro path hpath
  rw [Bool.eq_iff_iff, List.isPrefixOf_iff_prefix]
  constructor
  · intro hbounds
    apply lead_of_epoch_row
    unfold PathIndex.epoch_record_rows
    exact List.mem_filter.mpr ⟨hpath, hbounds⟩
  · rintro ⟨rest, rfl⟩
    have hlow : PATH_PREFIX_EPOCH_RECORD = "/@eld/epoch_record".toList ++ ['/'] := by decide
    have hup : EPOCH_RECORD_PATH_INDEX_UPPER_EXCLUSIVE = "/@eld/epoch_record".toList ++ [';'] := by
      decide
    have hlower := scans.compare_append_same PATH_PREFIX_EPOCH_RECORD [] rest
    rw [List.append_nil] at hlower
    rw [hlower, hup, hlow, List.append_assoc, scans.compare_append_same, List.singleton_append,
      List.compare_cons_cons]
    cases rest with
    | nil => decide
    | cons c rest => rfl

/-! ## The walk in its order -/

/-- The comparison in whose order a listing is. -/
def EpochRecordListOrder.cmp {A : Type} [Ord A] : EpochRecordListOrder → A → A → Ordering
  | .Asc => compare
  | .Desc => reversed compare

instance {A : Type} [Ord A] [TransOrd A] (order : EpochRecordListOrder) :
    TransCmp (@EpochRecordListOrder.cmp A _ order) :=
  match order with
  | .Asc => inferInstanceAs (TransCmp compare)
  | .Desc => inferInstanceAs (TransCmp (reversed compare))

instance {A : Type} [Ord A] [LawfulEqOrd A] (order : EpochRecordListOrder) :
    LawfulEqCmp (@EpochRecordListOrder.cmp A _ order) :=
  match order with
  | .Asc => inferInstanceAs (LawfulEqCmp compare)
  | .Desc => inferInstanceAs (LawfulEqCmp (reversed compare))

/-- The records in the order of a listing. -/
def inEpochOrder (order : EpochRecordListOrder) (records : List EpochRecord) : List EpochRecord :=
  records.insertionSort (fun a b => (order.cmp a.epoch b.epoch).isLE = true)

theorem perm_inEpochOrder (order : EpochRecordListOrder) (records : List EpochRecord) :
    (inEpochOrder order records).Perm records := List.perm_insertionSort _ _

theorem beyond_iff {order : EpochRecordListOrder} {after_epoch : Option I64} {epoch : I64} :
    beyond order after_epoch epoch = true ↔
      ∀ ae, after_epoch = some ae → order.cmp ae epoch = .lt := by
  cases after_epoch with
  | none => cases order <;> simp [beyond]
  | some ae =>
    cases order with
    | Asc => simp [beyond, EpochRecordListOrder.cmp, I64.compare_lt]
    | Desc => simp [beyond, EpochRecordListOrder.cmp, reversed, I64.compare_lt]

theorem sorted_iter (index : PathIndex) (order : EpochRecordListOrder) (seek_key : Option Text) :
    (index.epoch_record_iter order seek_key).Pairwise (fun a b => order.cmp a b = .lt) := by
  have hrising : scans.Rising index.epoch_record_rows := (rising_keys index.rows).filter _
  cases order with
  | Asc => exact hrising.sublist (List.dropWhile_sublist _)
  | Desc => exact List.pairwise_reverse.mpr (hrising.filter _)

/-- The walk meets the rows with the prefix that are not before the seek key. -/
theorem mem_iter {index : PathIndex} {order : EpochRecordListOrder} {seek_key : Option Text}
    {path : Text} : path ∈ index.epoch_record_iter order seek_key ↔
      path ∈ index.pathsWith PATH_PREFIX_EPOCH_RECORD ∧
        ∀ key, seek_key = some key → order.cmp path key ≠ .lt := by
  have hrising : scans.Rising index.epoch_record_rows := (rising_keys index.rows).filter _
  have hbounds : path ∈ index.epoch_record_rows →
      compare path PATH_PREFIX_EPOCH_RECORD ≠ .lt ∧
      compare EPOCH_RECORD_PATH_INDEX_UPPER_EXCLUSIVE path ≠ .lt := by
    intro hpath
    unfold PathIndex.epoch_record_rows at hpath
    have hpath := (List.mem_filter.mp hpath).2
    rw [Bool.and_eq_true, isLE_iff_not_lt, Ordering.isLT_iff_eq_lt] at hpath
    exact ⟨hpath.1, OrientedCmp.not_lt_of_lt hpath.2⟩
  rw [← epoch_record_rows_eq]
  unfold PathIndex.epoch_record_iter EpochRecordListOrder.cmp
  cases order with
  | Asc =>
    simp only
    rw [scans.seek_eq_filter _ hrising, List.mem_filter, Bool.not_eq_true', Bool.eq_false_iff, ne_eq,
      Ordering.isLT_iff_eq_lt]
    apply and_congr_right
    intro hpath
    cases seek_key with
    | none => exact iff_of_true (hbounds hpath).1 (fun _ hkey => by cases hkey)
    | some key => simp
  | Desc =>
    simp only
    rw [List.mem_reverse, List.mem_filter, isLE_iff_not_lt]
    apply and_congr_right
    intro hpath
    cases seek_key with
    | none => exact iff_of_true (hbounds hpath).2 (fun _ hkey => by cases hkey)
    | some key => simp [reversed]

/-- The seek key of a cursor is not before any row that is beyond it. -/
def seekKey (after_epoch : Option I64) : Option Text :=
  after_epoch.map (fun ae => (epoch_path ae).parts.path)

/-- The rows of the walk that the loop reads are those of the records beyond the cursor, in
their order. -/
theorem HoldsEpochs.included_rows (h : HoldsEpochs o st records) (order : EpochRecordListOrder)
    {after_epoch : Option I64} (hafter : ∀ ae, after_epoch = some ae → 0 ≤ ae.val) :
    (st.path_index.epoch_record_iter order (seekKey after_epoch)).filter
        (fun path => (epoch_number_from_record_path_str path).any (beyond order after_epoch)) =
      ((inEpochOrder order records).filter (fun r => beyond order after_epoch r.epoch)).map
        EpochRecord.text := by
  have htexts : ∀ epoch epoch' : I64, 0 ≤ epoch.val → 0 ≤ epoch'.val →
      order.cmp (epoch_path epoch).parts.path (epoch_path epoch').parts.path =
        order.cmp epoch epoch' := by
    intro epoch epoch' hlo hlo'
    cases order with
    | Asc => exact compare_epoch_texts hlo hlo'
    | Desc => exact compare_epoch_texts hlo' hlo
  have hrecords : ((inEpochOrder order records).map EpochRecord.text).Pairwise
      (fun a b => order.cmp a b = .lt) := by
    have hstrict := @strict_sorted_by_key I64 EpochRecord order.cmp _ _ EpochRecord.epoch records
      h.distinct
    rw [List.pairwise_map]
    refine hstrict.sorted.imp_of_mem ?_
    intro a b ha hb hlt
    have ha := h.nonnegative a ((perm_inEpochOrder order records).mem_iff.mp ha)
    have hb := h.nonnegative b ((perm_inEpochOrder order records).mem_iff.mp hb)
    unfold EpochRecord.text
    rw [htexts _ _ ha hb]
    exact hlt
  apply Strict.ext (strict_of_sorted ((sorted_iter _ _ _).filter _))
  · exact strict_of_sorted (hrecords.sublist (List.filter_sublist.map _))
  · intro path
    rw [List.mem_filter, mem_iter, mem_pathsWith, List.mem_map]
    constructor
    · rintro ⟨⟨⟨hrow, hlead⟩, _⟩, hincluded⟩
      have hlatest : path ≠ latest_path.parts.path := by
        rintro rfl
        rw [latest_has_no_epoch] at hincluded
        cases hincluded
      obtain ⟨r, hr, rfl⟩ := (h.rows path hlead hlatest).mp hrow
      unfold EpochRecord.text at hincluded
      rw [epoch_of_path (h.nonnegative r hr), Option.any_some] at hincluded
      exact ⟨r, List.mem_filter.mpr ⟨(perm_inEpochOrder order records).mem_iff.mpr hr,
        hincluded⟩, rfl⟩
    · rintro ⟨r, hr, rfl⟩
      obtain ⟨hr, hbeyond⟩ := List.mem_filter.mp hr
      have hr := (perm_inEpochOrder order records).mem_iff.mp hr
      have hlo := h.nonnegative r hr
      have hepoch : epoch_number_from_record_path_str r.text = some r.epoch := epoch_of_path hlo
      have hrow : r.text ∈ st.path_index.rows := ExtTreeMap.mem_iff_isSome_getElem?.mpr (by
        rw [h.indexed r hr]
        rfl)
      refine ⟨⟨⟨hrow, epoch_text_lead r⟩, ?_⟩, by rw [hepoch]; exact hbeyond⟩
      intro key hkey
      unfold seekKey at hkey
      obtain ⟨ae, hae, rfl⟩ := Option.map_eq_some_iff.mp hkey
      have hlt := beyond_iff.mp hbeyond ae hae
      unfold EpochRecord.text
      rw [htexts _ _ hlo (hafter ae hae)]
      exact OrientedCmp.not_lt_of_lt hlt

/-! ## The loops -/

section Loop

variable {read : Text → Except EldError EpochRecord} {included : I64 → Bool} {fetch_limit : Nat}

/-- Rows without an epoch or before the cursor do nothing. -/
theorem epochLoop_included {rows : List Text}
    (hlead : ∀ path ∈ rows, PATH_PREFIX_EPOCH_RECORD <+: path) (out : List EpochRecord) :
    epochLoop read included fetch_limit rows out = epochLoop read included fetch_limit
      (rows.filter (fun path => (epoch_number_from_record_path_str path).any included)) out := by
  induction rows generalizing out with
  | nil => rfl
  | cons path rows ih =>
    have hrest := ih (fun p hp => hlead p (List.mem_cons_of_mem _ hp))
    have hfirst : PATH_PREFIX_EPOCH_RECORD.isPrefixOf path = true :=
      List.isPrefixOf_iff_prefix.mpr (hlead path List.mem_cons_self)
    cases hepoch : epoch_number_from_record_path_str path with
    | none =>
      rw [List.filter_cons_of_neg (by simp [hepoch]), epochLoop, hfirst, hepoch, ← hrest]
      rfl
    | some epoch =>
      cases hincluded : included epoch with
      | false =>
        rw [List.filter_cons_of_neg (by simp [hepoch, hincluded]), epochLoop, hfirst, hepoch,
          ← hrest]
        simp only [hincluded, Bool.true_eq_false, if_true, if_false]
      | true =>
        rw [List.filter_cons_of_pos (by simp [hepoch, hincluded]), epochLoop, epochLoop, hfirst,
          hepoch]
        simp only [hincluded, Bool.true_eq_false, if_false, hrest]

/-- The loop reads the rows of records until it has as many as the limit. -/
theorem epochLoop_cons {r : EpochRecord} (hlo : 0 ≤ r.epoch.val) (hincluded : included r.epoch = true)
    (rows : List Text) (out : List EpochRecord) :
    epochLoop read included fetch_limit (r.text :: rows) out =
      match read r.text with
      | .error e => .error e
      | .ok record =>
        if fetch_limit ≤ (out ++ [record]).length then .ok (out ++ [record])
        else epochLoop read included fetch_limit rows (out ++ [record]) := by
  have hlead : PATH_PREFIX_EPOCH_RECORD.isPrefixOf r.text = true :=
    List.isPrefixOf_iff_prefix.mpr (epoch_text_lead r)
  have hepoch : epoch_number_from_record_path_str r.text = some r.epoch := epoch_of_path hlo
  rw [epochLoop, hlead, hepoch]
  simp only [hincluded, Bool.true_eq_false, if_false]

theorem epochLoop_readable {ms : List EpochRecord}
    (hms : ∀ r ∈ ms, 0 ≤ r.epoch.val ∧ included r.epoch = true) (out : List EpochRecord)
    (hroom : out.length < fetch_limit)
    (hread : ∀ r ∈ ms.take (fetch_limit - out.length), read r.text = .ok r) :
    epochLoop read included fetch_limit (ms.map EpochRecord.text) out =
      .ok (out ++ ms.take (fetch_limit - out.length)) := by
  induction ms generalizing out with
  | nil => rw [List.map_nil, epochLoop, List.take_nil, List.append_nil]
  | cons r ms ih =>
    have hleft : fetch_limit - out.length = fetch_limit - (out.length + 1) + 1 := by omega
    have hlen : (out ++ [r]).length = out.length + 1 := by simp
    rw [hleft, List.take_succ_cons] at hread ⊢
    obtain ⟨hlo, hincluded⟩ := hms r List.mem_cons_self
    rw [List.map_cons, epochLoop_cons hlo hincluded, hread r List.mem_cons_self]
    simp only [hlen]
    by_cases hfull : fetch_limit ≤ out.length + 1
    · have hnone : fetch_limit - (out.length + 1) = 0 := by omega
      rw [if_pos hfull, hnone, List.take_zero]
    · have hrest := ih (fun m hm => hms m (List.mem_cons_of_mem _ hm)) (out ++ [r])
        (by rw [hlen]; omega) (by
          rw [hlen]
          exact fun m hm => hread m (List.mem_cons_of_mem _ hm))
      rw [if_neg hfull, hrest, hlen, List.append_assoc]
      rfl

theorem epochLoop_fails {ms : List EpochRecord}
    (hms : ∀ r ∈ ms, 0 ≤ r.epoch.val ∧ included r.epoch = true) (out : List EpochRecord)
    (hroom : out.length < fetch_limit)
    (hread : ∀ r ∈ ms, read r.text = .ok r ∨ ∃ e, read r.text = .error e)
    (hfails : ∃ r ∈ ms.take (fetch_limit - out.length), ∃ e, read r.text = .error e) :
    ∃ e, epochLoop read included fetch_limit (ms.map EpochRecord.text) out = .error e := by
  induction ms generalizing out with
  | nil =>
    obtain ⟨r, hr, _⟩ := hfails
    rw [List.take_nil] at hr
    cases hr
  | cons r ms ih =>
    have hleft : fetch_limit - out.length = fetch_limit - (out.length + 1) + 1 := by omega
    have hlen : (out ++ [r]).length = out.length + 1 := by simp
    rw [hleft, List.take_succ_cons] at hfails
    obtain ⟨hlo, hincluded⟩ := hms r List.mem_cons_self
    rw [List.map_cons, epochLoop_cons hlo hincluded]
    rcases hread r List.mem_cons_self with hok | ⟨e, herror⟩
    · obtain ⟨m, hm, e, herror⟩ := hfails
      have hlater : m ∈ ms.take (fetch_limit - (out.length + 1)) := by
        rcases List.mem_cons.mp hm with rfl | hm
        · rw [hok] at herror
          cases herror
        · exact hm
      have hmore : ¬ fetch_limit ≤ out.length + 1 := by
        intro hfull
        have hnone : fetch_limit - (out.length + 1) = 0 := by omega
        rw [hnone, List.take_zero] at hlater
        cases hlater
      rw [hok]
      simp only [hlen, if_neg hmore]
      apply ih (fun m hm => hms m (List.mem_cons_of_mem _ hm)) _ (by rw [hlen]; omega)
        (fun m hm => hread m (List.mem_cons_of_mem _ hm))
      rw [hlen]
      exact ⟨m, hlater, e, herror⟩
    · rw [herror]
      exact ⟨e, rfl⟩

end Loop

/-- The count is of the rows with an epoch. -/
theorem epochCountLoop_eq {rows : List Text}
    (hlead : ∀ path ∈ rows, PATH_PREFIX_EPOCH_RECORD <+: path) (n : UInt64) :
    epochCountLoop rows n = n + .ofNat (rows.filter
      (fun path => (epoch_number_from_record_path_str path).any (fun _ => true))).length := by
  induction rows generalizing n with
  | nil => simp [epochCountLoop]
  | cons path rows ih =>
    have hrest := ih (fun p hp => hlead p (List.mem_cons_of_mem _ hp))
    have hfirst : PATH_PREFIX_EPOCH_RECORD.isPrefixOf path = true :=
      List.isPrefixOf_iff_prefix.mpr (hlead path List.mem_cons_self)
    rw [epochCountLoop, hfirst]
    cases hepoch : epoch_number_from_record_path_str path with
    | none =>
      rw [List.filter_cons_of_neg (by simp [hepoch]), ← hrest]
      rfl
    | some epoch =>
      rw [List.filter_cons_of_pos (by simp [hepoch]), List.length_cons, if_neg (by simp),
        Option.isSome_some, if_pos rfl, hrest, UInt64.ofNat_add, UInt64.add_assoc]
      congr 1
      exact UInt64.add_comm _ _

/-! ## The listing -/

/-- The first records beyond a cursor, in the order of a listing. -/
def firstBeyond (order : EpochRecordListOrder) (after_epoch : Option I64) (fetch_limit : Nat)
    (records : List EpochRecord) : List EpochRecord :=
  ((inEpochOrder order records).filter (fun r => beyond order after_epoch r.epoch)).take fetch_limit

theorem length_epochs_le (h : HoldsEpochs o st records) : records.length ≤ 2 ^ 63 := by
  have hnodup : (records.map (fun r => r.epoch.val.toNat)).Nodup := by
    refine h.distinct.of_map.map_on ?_
    intro r hr s hs hsame
    have hlo := h.nonnegative r hr
    have hlo' := h.nonnegative s hs
    exact List.inj_on_of_nodup_map h.distinct hr hs (I64.ext_val (by omega))
  have hsub : records.map (fun r => r.epoch.val.toNat) ⊆ List.range (2 ^ 63) := by
    intro n hn
    obtain ⟨r, _, rfl⟩ := List.mem_map.mp hn
    have hhi := r.epoch.hi
    exact List.mem_range.mpr (by omega)
  have hle := (List.subperm_of_subset hnodup hsub).length_le
  rwa [List.length_map, List.length_range] at hle

theorem iter_lead (order : EpochRecordListOrder) (seek_key : Option Text) :
    ∀ path ∈ st.path_index.epoch_record_iter order seek_key, PATH_PREFIX_EPOCH_RECORD <+: path :=
  fun _ hpath => (mem_pathsWith.mp (mem_iter.mp hpath).1).2

theorem HoldsEpochs.list_eq (h : HoldsEpochs o st records)
    (order : EpochRecordListOrder)
    {after_epoch : Option I64} (hafter : ∀ ae, after_epoch = some ae → 0 ≤ ae.val)
    (fetch_limit : Nat) :
    st.list_epoch_records_chron o order after_epoch fetch_limit =
      epochLoop (st.read_epoch_record o) (beyond order after_epoch) fetch_limit
        (((inEpochOrder order records).filter (fun r => beyond order after_epoch r.epoch)).map
          EpochRecord.text) [] := by
  have hseek : seek_key_owned after_epoch = .ok (seekKey after_epoch) := by
    cases after_epoch with
    | none => rfl
    | some ae =>
      have hpath : (epoch_path ae).parts.path = PATH_PREFIX_EPOCH_RECORD ++
          Bytes32.text (BitVec.ofNat 256 ae.val.toNat) := epoch_text_eq _
      simp only [seek_key_owned, seekKey, Option.map_some, hpath,
        epoch_record_name_of_path (hafter ae rfl), Except.map]
  unfold CadoStore.list_epoch_records_chron
  rw [hseek]
  simp only [bind, Except.bind]
  rw [epochLoop_included (iter_lead order _), h.included_rows order hafter]

theorem HoldsEpochs.count_eq (h : HoldsEpochs o st records) :
    st.path_index.count_epoch_records.toNat = records.length := by
  have hnone : ∀ ae : I64, none = some ae → 0 ≤ ae.val := fun _ hae => by cases hae
  have hrows := h.included_rows .Asc hnone
  have hall : beyond .Asc none = fun _ => true := rfl
  have hkey : seekKey none = none := rfl
  have hbound := length_epochs_le h
  rw [hall, hkey] at hrows
  unfold PathIndex.count_epoch_records
  rw [epochCountLoop_eq (iter_lead .Asc none), hrows, List.length_map,
    List.filter_true, (perm_inEpochOrder .Asc records).length_eq, UInt64.zero_add,
    UInt64.toNat_ofNat', Nat.mod_eq_of_lt (by omega)]

theorem list_of_negative (st : CadoStore)
    (order : EpochRecordListOrder)
    {ae : I64} (hneg : ae.val < 0) (fetch_limit : Nat) :
    st.list_epoch_records_chron o order (some ae) fetch_limit =
      .error (.ValidationError "epoch" (toString ae.val) "Epoch number must be non-negative") := by
  have hname : epoch_record_name ae =
      .error (.ValidationError "epoch" (toString ae.val) "Epoch number must be non-negative") := by
    unfold epoch_record_name epoch_record_path_name
    rw [if_pos hneg, Except.map]
  unfold CadoStore.list_epoch_records_chron seek_key_owned
  simp only [hname, Except.map, bind, Except.bind]

/-- The records beyond the cursor, in the order of the listing. -/
theorem mem_beyond (h : HoldsEpochs o st records) {order : EpochRecordListOrder}
    {after_epoch : Option I64} {r : EpochRecord}
    (hr : r ∈ (inEpochOrder order records).filter (fun r => beyond order after_epoch r.epoch)) :
    r ∈ records ∧ 0 ≤ r.epoch.val ∧ beyond order after_epoch r.epoch = true := by
  obtain ⟨hr, hbeyond⟩ := List.mem_filter.mp hr
  have hr := (perm_inEpochOrder order records).mem_iff.mp hr
  exact ⟨hr, h.nonnegative r hr, hbeyond⟩

section Listing

variable {order : EpochRecordListOrder} {after_epoch : Option I64} {fetch_limit : Nat}

/-- A listing with a limit has the first records beyond its cursor. -/
theorem HoldsEpochs.list_readable (h : HoldsEpochs o st records)
    (hback : ∀ r ∈ records, o.bincode.ReadsBack .epoch_record r)
    (hafter : ∀ ae, after_epoch = some ae → 0 ≤ ae.val) (hlimit : 0 < fetch_limit)
    (hreadable : ∀ r ∈ firstBeyond order after_epoch fetch_limit records, r.Readable o st) :
    st.list_epoch_records_chron o order after_epoch fetch_limit =
      .ok (firstBeyond order after_epoch fetch_limit records) := by
  rw [h.list_eq order hafter,
    epochLoop_readable (fun r hr => (mem_beyond h hr).2) [] hlimit]
  · rfl
  · intro r hr
    have hstored := (mem_beyond h (List.mem_of_mem_take hr)).1
    exact h.read_stored hstored (hreadable r hr) (hback r hstored)

/-- One of them that is too long is an error. -/
theorem HoldsEpochs.list_long (h : HoldsEpochs o st records)
    (hback : ∀ r ∈ records, o.bincode.ReadsBack .epoch_record r)
    (hafter : ∀ ae, after_epoch = some ae → 0 ≤ ae.val) (hlimit : 0 < fetch_limit)
    (hlong : ¬ ∀ r ∈ firstBeyond order after_epoch fetch_limit records, r.Readable o st) :
    ∃ e, st.list_epoch_records_chron o order after_epoch fetch_limit =
      .error e := by
  rw [h.list_eq order hafter]
  obtain ⟨r, hlong⟩ := not_forall.mp hlong
  obtain ⟨hr, hlong⟩ := Classical.not_imp.mp hlong
  apply epochLoop_fails (fun r hr => (mem_beyond h hr).2) [] hlimit
  · intro m hm
    have hm := (mem_beyond h hm).1
    by_cases hreadable : m.Readable o st
    · exact Or.inl (h.read_stored hm hreadable (hback m hm))
    · exact Or.inr (h.read_long hm hreadable)
  · exact ⟨r, hr, h.read_long (mem_beyond h (List.mem_of_mem_take hr)).1 hlong⟩

end Listing

/-- For every set of stored epoch records, with the alias of the latest one or without: a
listing with a limit has exactly the first records strictly beyond its cursor, in the order of
their epochs, where they are short enough to be read, and is an error otherwise; a negative
cursor is refused; the count is the number of epochs. The names of epochs are in the order of
the epochs, and give them back. -/
theorem epoch_listing_is_exact (o : Outside) (st : CadoStore) (records : List EpochRecord)
    (hstored : HoldsEpochs o st records)
    (hback : ∀ r ∈ records, o.bincode.ReadsBack .epoch_record r)
    (order : EpochRecordListOrder) (after_epoch : Option I64) (fetch_limit : Nat)
    (hlimit : 0 < fetch_limit) :
    ((∀ ae, after_epoch = some ae → 0 ≤ ae.val) →
      ((∀ r ∈ firstBeyond order after_epoch fetch_limit records, r.Readable o st) →
        st.list_epoch_records_chron o order after_epoch fetch_limit =
          .ok (firstBeyond order after_epoch fetch_limit records)) ∧
      (¬ (∀ r ∈ firstBeyond order after_epoch fetch_limit records, r.Readable o st) →
        ∃ e, st.list_epoch_records_chron o order after_epoch fetch_limit =
          .error e)) ∧
    (∀ ae, after_epoch = some ae → ae.val < 0 →
      st.list_epoch_records_chron o order after_epoch fetch_limit =
        .error (.ValidationError "epoch" (toString ae.val) "Epoch number must be non-negative")) ∧
    st.path_index.count_epoch_records.toNat = records.length ∧
    (∀ epoch epoch' : I64, ∀ name name', epoch_record_name epoch = .ok name →
      epoch_record_name epoch' = .ok name' → compare name name' = compare epoch epoch') ∧
    (∀ epoch : I64, 0 ≤ epoch.val →
      ∃ name, epoch_record_name epoch = .ok name ∧ epoch_from_record_name name = some epoch) := by
  refine ⟨?_, ?_, hstored.count_eq, fun _ _ _ _ => compare_epoch_names, ?_⟩
  · intro hafter
    constructor
    · intro hreadable
      exact hstored.list_readable hback hafter hlimit hreadable
    · intro hlong
      exact hstored.list_long hback hafter hlimit hlong
  · rintro ae rfl hneg
    exact list_of_negative st order hneg fetch_limit
  · intro epoch hlo
    exact ⟨_, epoch_record_name_eq hlo, epoch_from_record_name_eq (epoch_record_name_eq hlo)⟩

def epochNumber (n : UInt16) : I64 where
  val := n.toNat
  lo := by omega
  hi := by have := n.toNat_lt; omega

/-- A record of an epoch without validators. -/
def emptyEpoch (n : UInt16) : EpochRecord where
  epoch := epochNumber n
  start_block := n.toNat * 20
  active_validators := []
  active_capacity_validator := none
  challenged_capacity_validators := []

def secondAndTenth : List EpochRecord := [emptyEpoch 10, emptyEpoch 2]

/-- A reader that knows these two records. -/
def readSecondAndTenth (data : Bytes) : Except String EpochRecord :=
  match secondAndTenth.find? (fun r => EpochRecord.toyBytes r == data) with
  | some r => .ok r
  | none => .error "io error: unexpected end of file"

def deserializeEpochs : (T : BinType) → Bytes → Except String T.type
  | .epoch_record, data => readSecondAndTenth data
  | T, data => toyDeserialize T data

def Outside.epochReader : Outside :=
  { Outside.toy with bincode := ⟨toySerialize, deserializeEpochs⟩ }

def twoEpochStore : CadoStore :=
  (CadoStore.empty.withEpoch Outside.epochReader (emptyEpoch 2) "2".toList).withEpoch Outside.epochReader
    (emptyEpoch 10) "10".toList

instance (rs : List EpochRecord) : Decidable (EpochKeysApart o rs) :=
  inferInstanceAs (Decidable (∀ r ∈ rs, r.key o ≠ latest_key o ∧
    ∀ s ∈ rs, r.key o = s.key o → r.epoch = s.epoch))

theorem twoEpochStore_holds : HoldsEpochs Outside.epochReader twoEpochStore secondAndTenth := by
  have hfirst := ((HoldsEpochs.empty Outside.epochReader).put_epoch_record_eq (r := emptyEpoch 2)
    (by decide) (by decide +kernel) "2".toList).2
  exact (hfirst.put_epoch_record_eq (r := emptyEpoch 10) (by decide) (by decide +kernel)
    "10".toList).2

theorem epochReader_readsBack : ∀ r ∈ secondAndTenth,
    Outside.epochReader.bincode.ReadsBack .epoch_record r := by
  intro r hr
  rcases List.mem_cons.mp hr with rfl | hr
  · rfl
  · rw [List.mem_singleton.mp hr]
    rfl

theorem epoch_listing_of_two :
    twoEpochStore.list_epoch_records_chron Outside.epochReader .Desc (some (epochNumber 10)) 5 =
      .ok [emptyEpoch 2] ∧
    twoEpochStore.path_index.count_epoch_records.toNat = 2 := by
  have hexact := epoch_listing_is_exact Outside.epochReader twoEpochStore secondAndTenth
    twoEpochStore_holds epochReader_readsBack .Desc (some (epochNumber 10)) 5 (by decide)
  have hfirst : firstBeyond .Desc (some (epochNumber 10)) 5 secondAndTenth = [emptyEpoch 2] := by
    decide +kernel
  have hreadable : (emptyEpoch 2).Readable Outside.epochReader twoEpochStore := by decide +kernel
  rw [hfirst] at hexact
  refine ⟨(hexact.1 ?_).1 ?_, hexact.2.2.1⟩
  · intro ae hae
    rw [← Option.some.inj hae]
    decide
  · intro r hr
    rw [List.mem_singleton.mp hr]
    exact hreadable

def minusOne : I64 := ⟨-1, by decide, by decide⟩

/-- A store with a record whose object has this owner. -/
def ownedEpochStore (owner : Text) : CadoStore :=
  CadoStore.empty.withRow (epoch_parsed (epochNumber 2)) ((emptyEpoch 2).key Outside.epochReader)
    (.of_bytes Outside.epochReader ((emptyEpoch 2).encoded Outside.epochReader) ⟨.EpochRecord, owner⟩)

theorem ownedEpochStore_holds (owner : Text) :
    HoldsEpochs Outside.epochReader (ownedEpochStore owner) [emptyEpoch 2] :=
  (HoldsEpochs.empty Outside.epochReader).put (r := emptyEpoch 2) (by decide) rfl (by decide +kernel)

/-- A long owner makes an object too long. -/
theorem not_readable_of_owner {owner : Text}
    (howner : MAX_CADO_DATA_SIZE ≤ (Text.bytes owner).length) :
    ¬ (emptyEpoch 2).Readable Outside.epochReader (ownedEpochStore owner) := by
  intro hreadable
  have hrow : (ownedEpochStore owner).cado[(emptyEpoch 2).key Outside.epochReader]? =
      some (.of_bytes Outside.epochReader ((emptyEpoch 2).encoded Outside.epochReader)
        ⟨.EpochRecord, owner⟩) := by
    unfold ownedEpochStore CadoStore.withRow
    rw [finite_map.get_insert, if_pos rfl]
  have hle := hreadable _ hrow
  have hlen := toy_fixedWidths.immutable (Outside.epochReader.sha256
    ((emptyEpoch 2).encoded Outside.epochReader)) ((emptyEpoch 2).encoded Outside.epochReader)
    ⟨.EpochRecord, owner⟩
  have hlong := Nat.le_trans hlen.symm.le hle
  simp only at hlong
  omega

def longOwner : Text := List.replicate (2 ^ 20) 'a'

theorem longOwner_length : MAX_CADO_DATA_SIZE ≤ (Text.bytes longOwner).length := by
  have hsize : Char.utf8Size 'a' = 1 := by decide
  unfold longOwner
  rw [length_bytes, utf8Len, List.map_replicate, hsize, List.sum_replicate_nat, Nat.mul_one]
  decide

/-- The limit 0 gives a record, a cursor below 0 is an error, and so is a record whose object is
too long. -/
theorem listing_of_none_gives_one :
    (twoEpochStore.list_epoch_records_chron Outside.epochReader .Asc none 0 = .ok [emptyEpoch 2] ∧
      firstBeyond .Asc none 0 secondAndTenth = []) ∧
    ((∃ e, twoEpochStore.list_epoch_records_chron Outside.epochReader .Asc (some minusOne) 5 = .error e) ∧
      firstBeyond .Asc (some minusOne) 5 secondAndTenth = [emptyEpoch 2, emptyEpoch 10]) ∧
    (∃ e, (ownedEpochStore longOwner).list_epoch_records_chron Outside.epochReader .Asc none 1 = .error e) ∧
      firstBeyond .Asc none 1 [emptyEpoch 2] = [emptyEpoch 2] := by
  have hnone : ∀ ae : I64, none = some ae → 0 ≤ ae.val := fun _ hae => by cases hae
  refine ⟨⟨?_, rfl⟩, ⟨⟨_, list_of_negative _ _ (by decide) _⟩, by decide +kernel⟩, ?_,
    by decide +kernel⟩
  · have hrows : (inEpochOrder .Asc secondAndTenth).filter
        (fun r => beyond .Asc none r.epoch) = [emptyEpoch 2, emptyEpoch 10] := by decide +kernel
    have hread : twoEpochStore.read_epoch_record Outside.epochReader (emptyEpoch 2).text =
        .ok (emptyEpoch 2) :=
      twoEpochStore_holds.read_stored (by decide) (by decide +kernel)
        (epochReader_readsBack _ (by decide))
    rw [twoEpochStore_holds.list_eq .Asc hnone, hrows, List.map_cons,
      epochLoop_cons (by decide) rfl, hread]
    rfl
  · apply (ownedEpochStore_holds longOwner).list_long _ hnone (by decide)
    · intro hall
      exact not_readable_of_owner longOwner_length (hall _ (by decide +kernel))
    · intro r hr
      exact epochReader_readsBack r (List.mem_cons_of_mem _ hr)

end eld_chain
