-- Two trackers over one file: the message handler and the periodic sync
-- service each load the list once and then write their own copy back. When
-- the file still lists what was announced as missing, and when the periodic
-- service works from the same list.
import EldChain.MissingContent
import EldChain.Library.Runs

open Std

namespace eld_chain

open fallible finite_map

/-! ## Calls on two trackers -/

/-- The record of an update comes from the list, where the content id stands for the
manifest id. -/
inductive TrackerCall
  | upsert (content_id : Text) (now : Except String UInt64)
  | mark_by_content_id (content_id : Text)
  | mark (manifest_id : Text)
  | update (record : MissingContentRecord) (synthetic : record.manifest_id = record.content_id)

def TrackerCall.run : TrackerCall → TrackerProg Unit
  | .upsert content_id now =>
    MissingContentTracker.upsert_missing_content_by_content_id content_id now
  | .mark_by_content_id content_id =>
    MissingContentTracker.mark_content_synced_by_content_id content_id
  | .mark manifest_id => MissingContentTracker.mark_content_synced manifest_id
  | .update record _ => MissingContentTracker.update_missing_content_record record

/-- What has been announced as missing and not marked as synced, after a call. An update
announces nothing. -/
def TrackerCall.expect : TrackerCall → List Bytes32 → List Bytes32
  | .upsert content_id _, expected =>
    match parse_content_id content_id with
    | .ok id => id :: expected
    | .error _ => expected
  | .mark_by_content_id content_id, expected =>
    match parse_content_id content_id with
    | .ok id => expected.filter (fun e => e ≠ id)
    | .error _ => expected
  | .mark manifest_id, expected => expected.filter (fun e => idText e ≠ manifest_id)
  | .update _ _, expected => expected

inductive Holder
  | handler
  | periodic

structure TrackerEvent where
  holder : Holder
  call : TrackerCall
  answers : List Answer

/-- The list of each tracker, and the file of both. -/
structure TwoTrackers where
  handler : MissingRecords
  periodic : MissingRecords
  file : Option (JsonFile MissingRecords)
  expected : List Bytes32

def TwoTrackers.next (w : TwoTrackers) (e : TrackerEvent) : TwoTrackers :=
  match e.holder with
  | .handler =>
    let t := after e.call.run ⟨w.handler, w.file, e.answers⟩
    { w with handler := t.records, file := t.file, expected := e.call.expect w.expected }
  | .periodic =>
    let t := after e.call.run ⟨w.periodic, w.file, e.answers⟩
    { w with periodic := t.records, file := t.file, expected := e.call.expect w.expected }

def TwoTrackers.step (w : TwoTrackers) (e : TrackerEvent) : Option TwoTrackers := some (w.next e)

/-! ## What the lists promise -/

def Listed (records : MissingRecords) (id : Bytes32) : Prop :=
  ∃ (k : Text) (r : MissingContentRecord), records[k]? = some r ∧ r.content_id = id

/-- What a load of the file would give. -/
def fileRecords : Option (JsonFile MissingRecords) → Option MissingRecords
  | none => some ∅
  | some (.whole records) => some records
  | some (.cut _ _) => none

/-- The file lists exactly the contents that are expected, and the periodic service has the
same list. -/
def TwoTrackers.NothingLost (w : TwoTrackers) : Prop :=
  ∃ records, fileRecords w.file = some records ∧
    (∀ id, Listed records id ↔ id ∈ w.expected) ∧ w.periodic = records

/-- Every record stands under its content id. -/
def Named (records : MissingRecords) : Prop :=
  ∀ (k : Text) (r : MissingContentRecord), records[k]? = some r →
    k = idText r.content_id ∧ r.manifest_id = r.content_id

/-- How a save ends. -/
inductive SaveResult
  | saved
  | refused
  | torn
deriving DecidableEq

def saveResult : List Answer → SaveResult
  | [] | [.done] | .done :: .done :: _ => .saved
  | .done :: .cut _ _ :: _ => .torn
  | .done :: .refused _ :: _ | .refused _ :: _ | .cut _ _ :: _ => .refused

def AgreeOff (k : Text) (a b : MissingRecords) : Prop := ∀ i, i ≠ k → a[i]? = b[i]?

/-- The record that an announcement leaves. -/
def attempted (records : MissingRecords) (id : Bytes32) (now : UInt64) : MissingContentRecord :=
  { records.getD (idText id) (newRecord id now) with last_attempt := some now }

/-- The calls that keep the promise. The periodic service may announce and remove while its
saves succeed, and update what it lists. A call of the handler keeps it only when the periodic
list has its outcome already. -/
def TwoTrackers.Safe (w : TwoTrackers) : TrackerEvent → Prop
  | ⟨.periodic, .upsert content_id now, answers⟩ =>
    ∀ id, parse_content_id content_id = .ok id →
      match now with
      | .error _ => Listed w.periodic id
      | .ok now => saveResult answers = .saved ∨ (saveResult answers = .refused ∧
          w.periodic[idText id]? = some (attempted w.periodic id now))
  | ⟨.periodic, .mark_by_content_id content_id, answers⟩ =>
    ∀ id, parse_content_id content_id = .ok id → Listed w.periodic id → saveResult answers = .saved
  | ⟨.periodic, .mark manifest_id, answers⟩ =>
    manifest_id ∈ w.periodic → saveResult answers = .saved
  | ⟨.periodic, .update record _, answers⟩ =>
    Listed w.periodic record.content_id ∧ (saveResult answers = .saved ∨
      (saveResult answers = .refused ∧ w.periodic[idText record.content_id]? = some record))
  | ⟨.handler, .upsert content_id now, answers⟩ =>
    ∀ id, parse_content_id content_id = .ok id →
      match now with
      | .error _ => Listed w.periodic id
      | .ok now =>
        (saveResult answers = .saved ∧ AgreeOff (idText id) w.handler w.periodic ∧
          w.periodic[idText id]? = some (attempted w.handler id now)) ∨
        (saveResult answers = .refused ∧ Listed w.periodic id)
  | ⟨.handler, .mark_by_content_id content_id, answers⟩ =>
    ∀ id, parse_content_id content_id = .ok id → ¬ Listed w.periodic id ∧
      (Listed w.handler id → (saveResult answers = .saved ∧
        AgreeOff (idText id) w.handler w.periodic) ∨ saveResult answers = .refused)
  | ⟨.handler, .mark manifest_id, answers⟩ =>
    manifest_id ∉ w.periodic ∧ (manifest_id ∈ w.handler → (saveResult answers = .saved ∧
      AgreeOff manifest_id w.handler w.periodic) ∨ saveResult answers = .refused)
  | ⟨.handler, .update record _, answers⟩ =>
    (saveResult answers = .saved ∧ AgreeOff (idText record.content_id) w.handler w.periodic ∧
      w.periodic[idText record.content_id]? = some record) ∨ saveResult answers = .refused

/-! ## The map of a tracker -/

variable {records : MissingRecords}

theorem idText_inj {a b : Bytes32} (h : idText a = idText b) : a = b := by
  unfold idText at h
  simp only [List.cons.injEq, true_and] at h
  have ha : a.toNat < 16 ^ 64 := a.isLt
  have hb : b.toNat < 16 ^ 64 := b.isLt
  exact BitVec.eq_of_toNat_eq (hexDigits_inj ha hb h)

theorem mem_iff_some {k : Text} : k ∈ records ↔ ∃ r, records[k]? = some r := by
  rw [ExtTreeMap.mem_iff_isSome_getElem?, Option.isSome_iff_exists]

theorem Named.listed_iff (h : Named records) (id : Bytes32) :
    Listed records id ↔ idText id ∈ records := by
  rw [mem_iff_some]
  constructor
  · rintro ⟨k, r, hr, rfl⟩
    obtain ⟨rfl, _⟩ := h k r hr
    exact ⟨r, hr⟩
  · rintro ⟨r, hr⟩
    exact ⟨_, r, hr, (idText_inj (h _ r hr).1).symm⟩

theorem named_empty : Named ∅ := by
  intro k r hr
  rw [ExtTreeMap.getElem?_empty] at hr
  cases hr

theorem Named.insert (h : Named records) {r : MissingContentRecord}
    (hr : r.manifest_id = r.content_id) : Named (records.insert (idText r.content_id) r) := by
  intro k r' hk
  rw [get_insert] at hk
  by_cases heq : idText r.content_id = k
  · rw [if_pos heq] at hk
    cases hk
    exact ⟨heq.symm, hr⟩
  · rw [if_neg heq] at hk
    exact h k r' hk

theorem Named.erase (h : Named records) (k : Text) : Named (records.erase k) := by
  intro j r hj
  rw [finite_map.get_erase] at hj
  by_cases heq : k = j
  · rw [if_pos heq] at hj
    cases hj
  · rw [if_neg heq] at hj
    exact h j r hj

theorem Named.listed_insert (h : Named records) {r : MissingContentRecord}
    (hr : r.manifest_id = r.content_id) (id : Bytes32) :
    Listed (records.insert (idText r.content_id) r) id ↔
      id = r.content_id ∨ Listed records id := by
  rw [(h.insert hr).listed_iff, h.listed_iff, ExtTreeMap.mem_insert,
    LawfulEqCmp.compare_eq_iff_eq]
  constructor
  · rintro (heq | hmem)
    · exact Or.inl (idText_inj heq).symm
    · exact Or.inr hmem
  · rintro (rfl | hmem)
    · exact Or.inl rfl
    · exact Or.inr hmem

theorem Named.listed_erase (h : Named records) (k : Text) (id : Bytes32) :
    Listed (records.erase k) id ↔ idText id ≠ k ∧ Listed records id := by
  rw [(h.erase k).listed_iff, h.listed_iff, ExtTreeMap.mem_erase]
  simp only [ne_eq, LawfulEqCmp.compare_eq_iff_eq]
  exact and_congr_left (fun _ => not_congr eq_comm)

theorem Named.attempted (h : Named records) (id : Bytes32) (now : UInt64) :
    (attempted records id now).manifest_id = (attempted records id now).content_id ∧
      (attempted records id now).content_id = id := by
  unfold eld_chain.attempted
  rw [ExtTreeMap.getD_eq_getD_getElem?]
  cases hr : records[idText id]? with
  | none => exact ⟨rfl, rfl⟩
  | some r =>
    obtain ⟨hid, hsame⟩ := h _ r hr
    exact ⟨hsame, (idText_inj hid).symm⟩

/-- Removing the records of a content is removing the one under its id. -/
theorem Named.filter_eq_erase (h : Named records) (id : Bytes32) :
    records.filter (fun _ r => r.content_id != id) = records.erase (idText id) := by
  apply ExtTreeMap.ext_getElem?
  intro k
  rw [ExtTreeMap.getElem?_filter', finite_map.get_erase]
  cases hr : records[k]? with
  | none => simp
  | some r =>
    obtain ⟨rfl, _⟩ := h k r hr
    by_cases heq : r.content_id = id
    · simp [heq]
    · have hne : idText id ≠ idText r.content_id := fun h => heq (idText_inj h).symm
      simp [heq, hne]

theorem Named.any_iff (h : Named records) (id : Bytes32) :
    records.toList.any (fun p => p.2.content_id == id) = true ↔ idText id ∈ records := by
  rw [← h.listed_iff, List.any_eq_true]
  simp only [beq_iff_eq]
  constructor
  · rintro ⟨p, hp, hid⟩
    exact ⟨p.1, p.2, (mem_toList _ p).mp hp, hid⟩
  · rintro ⟨k, r, hr, hid⟩
    exact ⟨(k, r), (mem_toList _ _).mpr hr, hid⟩

theorem erase_of_not_mem {k : Text} (h : k ∉ records) : records.erase k = records := by
  apply ExtTreeMap.ext_getElem?
  intro j
  rw [finite_map.get_erase]
  by_cases heq : k = j
  · rw [if_pos heq, ← heq, ExtTreeMap.getElem?_eq_none h]
  · rw [if_neg heq]

theorem insert_eq_iff {a b : MissingRecords} {k : Text} {r : MissingContentRecord} :
    a.insert k r = b ↔ AgreeOff k a b ∧ b[k]? = some r := by
  constructor
  · rintro rfl
    refine ⟨?_, ?_⟩
    · intro i hi
      rw [get_insert, if_neg (fun h => hi h.symm)]
    · rw [get_insert, if_pos rfl]
  · rintro ⟨hoff, hk⟩
    apply ExtTreeMap.ext_getElem?
    intro i
    rw [get_insert]
    by_cases heq : k = i
    · rw [if_pos heq, ← heq, hk]
    · rw [if_neg heq, hoff i (fun h => heq h.symm)]

theorem erase_eq_iff {a b : MissingRecords} {k : Text} :
    a.erase k = b ↔ AgreeOff k a b ∧ k ∉ b := by
  constructor
  · rintro rfl
    refine ⟨?_, ?_⟩
    · intro i hi
      rw [finite_map.get_erase, if_neg (fun h => hi h.symm)]
    · simp
  · rintro ⟨hoff, hk⟩
    apply ExtTreeMap.ext_getElem?
    intro i
    rw [finite_map.get_erase]
    by_cases heq : k = i
    · rw [if_pos heq, ← heq, ExtTreeMap.getElem?_eq_none hk]
    · rw [if_neg heq, hoff i (fun h => heq h.symm)]

/-! ## What a call does -/

/-- The file after a save. -/
def savedFile (records : MissingRecords) (file : Option (JsonFile MissingRecords)) :
    List Answer → Option (JsonFile MissingRecords)
  | [] | [.done] | .done :: .done :: _ => some (.whole records)
  | .done :: .cut n _ :: _ => some (.cut records n)
  | .done :: .refused _ :: _ | .refused _ :: _ | .cut _ _ :: _ => file

theorem save_after (t : MissingContentTracker) :
    ∃ as, after MissingContentTracker.save t =
      ⟨t.records, savedFile t.records t.file t.answers, as⟩ := by
  obtain ⟨records, file, answers⟩ := t
  cases answers with
  | nil => exact ⟨_, rfl⟩
  | cons a answers =>
    cases a with
    | refused e => exact ⟨_, rfl⟩
    | cut n e => exact ⟨_, rfl⟩
    | done =>
      cases answers with
      | nil => exact ⟨_, rfl⟩
      | cons b answers => cases b <;> exact ⟨_, rfl⟩

theorem fileRecords_savedFile (records : MissingRecords) (file : Option (JsonFile MissingRecords))
    (answers : List Answer) :
    fileRecords (savedFile records file answers) =
      match saveResult answers with
      | .saved => some records
      | .refused => fileRecords file
      | .torn => none := by
  cases answers with
  | nil => rfl
  | cons a answers =>
    cases a with
    | refused e => rfl
    | cut n e => rfl
    | done =>
      cases answers with
      | nil => rfl
      | cons b answers => cases b <;> rfl

/-- The list that a call makes and saves, if it saves one. -/
def TrackerCall.change : TrackerCall → MissingRecords → Option MissingRecords
  | .upsert content_id now, records =>
    match parse_content_id content_id, now with
    | .ok id, .ok now => some (records.insert (idText id) (attempted records id now))
    | _, _ => none
  | .mark_by_content_id content_id, records =>
    match parse_content_id content_id with
    | .ok id => if idText id ∈ records then some (records.erase (idText id)) else none
    | .error _ => none
  | .mark manifest_id, records =>
    if manifest_id ∈ records then some (records.erase manifest_id) else none
  | .update record _, records => some (records.insert (idText record.content_id) record)

/-- Whatever the operating system answers, the tracker has the new list. -/
theorem run_after {t : MissingContentTracker} (h : Named t.records) (call : TrackerCall) :
    ∃ as, after call.run t =
      match call.change t.records with
      | none => ⟨t.records, t.file, as⟩
      | some records => ⟨records, savedFile records t.file t.answers, as⟩ := by
  cases call with
  | upsert content_id now =>
    unfold TrackerCall.run TrackerCall.change
      MissingContentTracker.upsert_missing_content_by_content_id
    simp only
    cases hid : parse_content_id content_id with
    | error e => exact ⟨t.answers, rfl⟩
    | ok id =>
      cases now with
      | error e => exact ⟨t.answers, rfl⟩
      | ok now => exact save_after { t with
          records := t.records.insert (idText id) (attempted t.records id now) }
  | mark_by_content_id content_id =>
    unfold TrackerCall.run TrackerCall.change
      MissingContentTracker.mark_content_synced_by_content_id
    simp only
    cases hid : parse_content_id content_id with
    | error e => exact ⟨t.answers, rfl⟩
    | ok id =>
      have hrun : after (do
          let needle ← orThrow (.ok id)
          let found := (← get).records.toList.any (fun p => p.2.content_id == needle)
          modify (fun t => { t with
            records := t.records.filter (fun _ r => r.content_id != needle) })
          if found then MissingContentTracker.save else pure ()) t =
            after (if t.records.toList.any (fun p => p.2.content_id == id) then
              MissingContentTracker.save else pure ()) { t with
                records := t.records.filter (fun _ r => r.content_id != id) } := rfl
      rw [hrun, h.filter_eq_erase id]
      simp only
      by_cases hmem : idText id ∈ t.records
      · rw [if_pos ((h.any_iff id).mpr hmem), if_pos hmem]
        exact save_after { t with records := t.records.erase (idText id) }
      · rw [if_neg (fun hany => hmem ((h.any_iff id).mp hany)), if_neg hmem,
          erase_of_not_mem hmem]
        exact ⟨t.answers, rfl⟩
  | mark manifest_id =>
    unfold TrackerCall.run TrackerCall.change MissingContentTracker.mark_content_synced
    simp only
    have hrun : after (do
        if manifest_id ∈ (← get).records then
          modify (fun t : MissingContentTracker => { t with
            records := t.records.erase manifest_id })
          MissingContentTracker.save
        else pure ()) t = after (if manifest_id ∈ t.records then do
          modify (fun t : MissingContentTracker => { t with
            records := t.records.erase manifest_id })
          MissingContentTracker.save
        else pure ()) t := rfl
    rw [hrun]
    by_cases hmem : manifest_id ∈ t.records
    · rw [if_pos hmem, if_pos hmem]
      exact save_after { t with records := t.records.erase manifest_id }
    · rw [if_neg hmem, if_neg hmem]
      exact ⟨t.answers, rfl⟩
  | update record synthetic =>
    unfold TrackerCall.run TrackerCall.change MissingContentTracker.update_missing_content_record
    simp only
    rw [← synthetic]
    exact save_after { t with records := t.records.insert (idText record.manifest_id) record }

/-! ## One call -/

/-- What `NothingLost` asks of a list. -/
def Meets (records : MissingRecords) (expected : List Bytes32) : Prop :=
  ∀ id, Listed records id ↔ id ∈ expected

theorem nothingLost_iff {w : TwoTrackers} :
    w.NothingLost ↔ fileRecords w.file = some w.periodic ∧ Meets w.periodic w.expected := by
  constructor
  · rintro ⟨records, hfile, hlisted, rfl⟩
    exact ⟨hfile, hlisted⟩
  · rintro ⟨hfile, hlisted⟩
    exact ⟨_, hfile, hlisted, rfl⟩

variable {w : TwoTrackers}

/-- A call of the periodic service keeps the promise when the list it makes is saved, or was
there before. -/
theorem periodic_next_iff (h : w.NothingLost) (hp : Named w.periodic) (call : TrackerCall)
    (answers : List Answer) :
    (w.next ⟨.periodic, call, answers⟩).NothingLost ↔
      match call.change w.periodic with
      | none => Meets w.periodic (call.expect w.expected)
      | some records => Meets records (call.expect w.expected) ∧
          (saveResult answers = .saved ∨
            (saveResult answers = .refused ∧ records = w.periodic)) := by
  obtain ⟨hfile, _⟩ := nothingLost_iff.mp h
  obtain ⟨as, hafter⟩ := run_after (t := ⟨w.periodic, w.file, answers⟩) hp call
  rw [nothingLost_iff]
  unfold TwoTrackers.next
  simp only [hafter]
  cases call.change w.periodic with
  | none => simp [hfile]
  | some records =>
    simp only [fileRecords_savedFile, hfile]
    cases saveResult answers with
    | saved => simp
    | torn => simp
    | refused =>
      simp only [Option.some.injEq, reduceCtorEq, false_or, true_and]
      rw [and_comm, eq_comm]

/-- A call of the handler leaves the periodic list as it is. -/
theorem handler_next_iff (h : w.NothingLost) (hh : Named w.handler) (call : TrackerCall)
    (answers : List Answer) :
    (w.next ⟨.handler, call, answers⟩).NothingLost ↔
      Meets w.periodic (call.expect w.expected) ∧
        match call.change w.handler with
        | none => True
        | some records => (saveResult answers = .saved ∧ records = w.periodic) ∨
            saveResult answers = .refused := by
  obtain ⟨hfile, _⟩ := nothingLost_iff.mp h
  obtain ⟨as, hafter⟩ := run_after (t := ⟨w.handler, w.file, answers⟩) hh call
  rw [nothingLost_iff]
  unfold TwoTrackers.next
  simp only [hafter]
  cases call.change w.handler with
  | none => simp [hfile]
  | some records =>
    simp only [fileRecords_savedFile, hfile]
    cases saveResult answers with
    | saved => simp [and_comm]
    | torn => simp
    | refused => simp

/-! ## What the calls expect -/

variable {expected : List Bytes32}

theorem meets_cons (h : Meets records expected) (id : Bytes32) :
    Meets records (id :: expected) ↔ Listed records id := by
  unfold Meets at *
  constructor
  · intro hall
    exact (hall id).mpr List.mem_cons_self
  · intro hid e
    rw [h e, List.mem_cons]
    constructor
    · exact Or.inr
    · rintro (rfl | he)
      · exact (h e).mp hid
      · exact he

theorem meets_filter (h : Meets records expected) (id : Bytes32) :
    Meets records (expected.filter (fun e => e ≠ id)) ↔ ¬ Listed records id := by
  unfold Meets at *
  constructor
  · intro hall hid
    have hmem := (hall id).mp hid
    simp at hmem
  · intro hid e
    rw [h e, List.mem_filter, decide_eq_true_eq]
    constructor
    · intro he
      refine ⟨he, ?_⟩
      rintro rfl
      exact hid ((h e).mpr he)
    · exact And.left

theorem Named.meets_filter_text (hn : Named records) (h : Meets records expected) (k : Text) :
    Meets records (expected.filter (fun e => idText e ≠ k)) ↔ k ∉ records := by
  unfold Meets at *
  constructor
  · intro hall hk
    obtain ⟨r, hr⟩ := mem_iff_some.mp hk
    obtain ⟨rfl, _⟩ := hn k r hr
    have hmem := (hall r.content_id).mp ⟨_, r, hr, rfl⟩
    simp at hmem
  · intro hk e
    rw [h e, List.mem_filter, decide_eq_true_eq]
    constructor
    · intro he
      refine ⟨he, ?_⟩
      rintro rfl
      exact hk ((hn.listed_iff e).mp ((h e).mpr he))
    · exact And.left

/-- An announcement lists what it expects. -/
theorem Named.meets_insert_cons (hn : Named records) (h : Meets records expected)
    {r : MissingContentRecord} (hr : r.manifest_id = r.content_id) :
    Meets (records.insert (idText r.content_id) r) (r.content_id :: expected) := by
  intro e
  rw [hn.listed_insert hr, h e, List.mem_cons]

/-- An update lists nothing new when its content is listed. -/
theorem Named.meets_insert (hn : Named records) (h : Meets records expected)
    {r : MissingContentRecord} (hr : r.manifest_id = r.content_id) :
    Meets (records.insert (idText r.content_id) r) expected ↔ Listed records r.content_id := by
  unfold Meets at *
  constructor
  · intro hall
    rw [h, ← hall, hn.listed_insert hr]
    exact Or.inl rfl
  · intro hid e
    rw [hn.listed_insert hr, ← h e]
    constructor
    · rintro (rfl | he)
      · exact hid
      · exact he
    · exact Or.inr

theorem Named.meets_erase (hn : Named records) (h : Meets records expected) (k : Text) :
    Meets (records.erase k) (expected.filter (fun e => idText e ≠ k)) := by
  intro e
  rw [hn.listed_erase, h e, List.mem_filter, decide_eq_true_eq, and_comm]

theorem Named.meets_erase_id (hn : Named records) (h : Meets records expected) (id : Bytes32) :
    Meets (records.erase (idText id)) (expected.filter (fun e => e ≠ id)) := by
  intro e
  rw [hn.listed_erase, h e, List.mem_filter, decide_eq_true_eq, and_comm]
  apply and_congr_right
  intro _
  exact not_congr ⟨idText_inj, fun h => h ▸ rfl⟩

/-! ## Runs -/

/-- The promise, with every record of both lists under its content id. -/
structure TwoTrackers.Good (w : TwoTrackers) : Prop where
  nothing_lost : w.NothingLost
  handler : Named w.handler
  periodic : Named w.periodic

theorem periodic_safe_iff (h : w.Good) (call : TrackerCall) (answers : List Answer) :
    (w.next ⟨.periodic, call, answers⟩).NothingLost ↔ w.Safe ⟨.periodic, call, answers⟩ := by
  rw [periodic_next_iff h.nothing_lost h.periodic]
  have hmeets := (nothingLost_iff.mp h.nothing_lost).2
  have hn := h.periodic
  cases call with
  | upsert content_id now =>
    unfold TrackerCall.change TrackerCall.expect TwoTrackers.Safe
    simp only
    cases hid : parse_content_id content_id with
    | error e => simp [hmeets]
    | ok id =>
      cases now with
      | error e => simp [meets_cons hmeets]
      | ok now =>
        obtain ⟨hsynthetic, hcontent⟩ := hn.attempted id now
        have hnew := hn.meets_insert_cons hmeets hsynthetic
        rw [hcontent] at hnew
        simp only [Except.ok.injEq, forall_eq', hnew, true_and, insert_eq_iff, AgreeOff,
          implies_true]
  | mark_by_content_id content_id =>
    unfold TrackerCall.change TrackerCall.expect TwoTrackers.Safe
    simp only
    cases hid : parse_content_id content_id with
    | error e => simp [hmeets]
    | ok id =>
      simp only [Except.ok.injEq, forall_eq', hn.listed_iff]
      by_cases hmem : idText id ∈ w.periodic
      · have hnew := hn.meets_erase_id hmeets id
        simp only [hmem, if_true, hnew, true_and, erase_eq_iff, not_true, and_false, or_false,
          true_implies]
      · simp only [hmem, if_false, false_implies, iff_true]
        exact (meets_filter hmeets id).mpr (fun hl => hmem ((hn.listed_iff id).mp hl))
  | mark manifest_id =>
    unfold TrackerCall.change TrackerCall.expect TwoTrackers.Safe
    simp only
    by_cases hmem : manifest_id ∈ w.periodic
    · have hnew := hn.meets_erase hmeets manifest_id
      simp only [hmem, if_true, hnew, true_and, erase_eq_iff, not_true, and_false, or_false,
        true_implies]
    · simp only [hmem, if_false, false_implies, iff_true]
      exact (hn.meets_filter_text hmeets manifest_id).mpr hmem
  | update record synthetic =>
    unfold TrackerCall.change TrackerCall.expect TwoTrackers.Safe
    simp only [hn.meets_insert hmeets synthetic, insert_eq_iff, AgreeOff, implies_true, true_and]

theorem handler_safe_iff (h : w.Good) (call : TrackerCall) (answers : List Answer) :
    (w.next ⟨.handler, call, answers⟩).NothingLost ↔ w.Safe ⟨.handler, call, answers⟩ := by
  rw [handler_next_iff h.nothing_lost h.handler]
  have hmeets := (nothingLost_iff.mp h.nothing_lost).2
  have hn := h.periodic
  cases call with
  | upsert content_id now =>
    unfold TrackerCall.change TrackerCall.expect TwoTrackers.Safe
    simp only
    cases hid : parse_content_id content_id with
    | error e => simp [hmeets]
    | ok id =>
      cases now with
      | error e => simp [meets_cons hmeets]
      | ok now =>
        simp only [Except.ok.injEq, forall_eq', meets_cons hmeets, insert_eq_iff]
        have hlists : w.periodic[idText id]? = some (attempted w.handler id now) →
            Listed w.periodic id :=
          fun hr => ⟨_, _, hr, (h.handler.attempted id now).2⟩
        constructor
        · rintro ⟨hlisted, hsaved | hrefused⟩
          · exact Or.inl hsaved
          · exact Or.inr ⟨hrefused, hlisted⟩
        · rintro (hsaved | ⟨hrefused, hlisted⟩)
          · exact ⟨hlists hsaved.2.2, Or.inl hsaved⟩
          · exact ⟨hlisted, Or.inr hrefused⟩
  | mark_by_content_id content_id =>
    unfold TrackerCall.change TrackerCall.expect TwoTrackers.Safe
    simp only
    cases hid : parse_content_id content_id with
    | error e => simp [hmeets]
    | ok id =>
      simp only [Except.ok.injEq, forall_eq', meets_filter hmeets, h.handler.listed_iff]
      apply and_congr_right
      intro hnot
      rw [hn.listed_iff] at hnot
      by_cases hmem : idText id ∈ w.handler
      · simp [hmem, erase_eq_iff, hnot]
      · simp [hmem]
  | mark manifest_id =>
    unfold TrackerCall.change TrackerCall.expect TwoTrackers.Safe
    simp only [hn.meets_filter_text hmeets]
    apply and_congr_right
    intro hnot
    by_cases hmem : manifest_id ∈ w.handler
    · simp [hmem, erase_eq_iff, hnot]
    · simp [hmem]
  | update record synthetic =>
    unfold TrackerCall.change TrackerCall.expect TwoTrackers.Safe
    simp only [insert_eq_iff, hmeets, true_and]

/-- A tracker keeps each record under its content id, whatever is called. -/
theorem TrackerCall.change_named (h : Named records) (call : TrackerCall) {records' : MissingRecords}
    (hchange : call.change records = some records') : Named records' := by
  cases call with
  | upsert content_id now =>
    unfold TrackerCall.change at hchange
    simp only at hchange
    cases hid : parse_content_id content_id with
    | error e => rw [hid] at hchange; cases hchange
    | ok id =>
      rw [hid] at hchange
      cases now with
      | error e => cases hchange
      | ok now =>
        cases hchange
        obtain ⟨hsynthetic, hcontent⟩ := h.attempted id now
        have hnew := h.insert hsynthetic
        rw [hcontent] at hnew
        exact hnew
  | mark_by_content_id content_id =>
    unfold TrackerCall.change at hchange
    simp only at hchange
    cases hid : parse_content_id content_id with
    | error e => rw [hid] at hchange; cases hchange
    | ok id =>
      rw [hid] at hchange
      simp only [Option.ite_none_right_eq_some, Option.some.injEq] at hchange
      rw [← hchange.2]
      exact h.erase _
  | mark manifest_id =>
    unfold TrackerCall.change at hchange
    simp only [Option.ite_none_right_eq_some, Option.some.injEq] at hchange
    rw [← hchange.2]
    exact h.erase _
  | update record synthetic =>
    cases hchange
    exact h.insert synthetic

theorem run_after_named {t : MissingContentTracker} (h : Named t.records) (call : TrackerCall) :
    Named (after call.run t).records := by
  obtain ⟨as, hafter⟩ := run_after h call
  rw [hafter]
  cases hchange : call.change t.records with
  | none => exact h
  | some records => exact call.change_named h hchange

theorem TwoTrackers.Good.next (h : w.Good) {e : TrackerEvent} (hnext : (w.next e).NothingLost) :
    (w.next e).Good := by
  obtain ⟨holder, call, answers⟩ := e
  cases holder with
  | handler => exact ⟨hnext, run_after_named (t := ⟨w.handler, w.file, answers⟩) h.handler call,
      h.periodic⟩
  | periodic => exact ⟨hnext, h.handler,
      run_after_named (t := ⟨w.periodic, w.file, answers⟩) h.periodic call⟩

/-- From lists that keep the promise, a run keeps it after every call exactly when every call
is safe in the state it meets. -/
theorem nothing_lost_in_runs_iff (h : w.Good) (events : List TrackerEvent) :
    (∀ p ∈ runs.visits TwoTrackers.step events w, (p.1.next p.2).NothingLost) ↔
      ∀ p ∈ runs.visits TwoTrackers.step events w, p.1.Safe p.2 := by
  refine @runs.visits_iff _ _ TwoTrackers.step TwoTrackers.Good
    (fun w e => (w.next e).NothingLost) TwoTrackers.Safe ?_ ?_ w h events
  · rintro w ⟨holder, call, answers⟩ hw
    cases holder with
    | handler => exact handler_safe_iff hw call answers
    | periodic => exact periodic_safe_iff hw call answers
  · rintro w e _ hw hnext ⟨⟩
    exact hw.next hnext

/-- While its saves succeed the periodic service may announce and remove what it likes. -/
theorem safe_of_saved (w : TwoTrackers) {call : TrackerCall} {answers : List Answer}
    (hcall : ∀ record synthetic, call ≠ .update record synthetic) (hclock : ∀ id e,
      call ≠ .upsert id (.error e)) (hsaved : saveResult answers = .saved) :
    w.Safe ⟨.periodic, call, answers⟩ := by
  cases call with
  | upsert content_id now =>
    cases now with
    | error e => exact absurd rfl (hclock content_id e)
    | ok now => exact fun _ _ => Or.inl hsaved
  | mark_by_content_id content_id => exact fun _ _ _ => hsaved
  | mark manifest_id => exact fun _ => hsaved
  | update record synthetic => exact absurd rfl (hcall record synthetic)

/-- Two trackers that have just loaded one file. -/
def TwoTrackers.loaded (records : MissingRecords) (expected : List Bytes32) : TwoTrackers :=
  ⟨records, records, some (.whole records), expected⟩

/-- The periodic service announces a content and then finds it. -/
theorem nothing_lost_in_runs_iff_of_periodic : (TwoTrackers.loaded ∅ []).Good ∧
    ∀ p ∈ runs.visits TwoTrackers.step [⟨.periodic, .upsert (idText 1) (.ok 5), []⟩,
      ⟨.periodic, .mark (idText 1), []⟩] (TwoTrackers.loaded ∅ []),
        (p.1.next p.2).NothingLost := by
  have hgood : (TwoTrackers.loaded ∅ []).Good := by
    refine ⟨⟨∅, rfl, ?_, rfl⟩, named_empty, named_empty⟩
    intro id
    rw [named_empty.listed_iff]
    simp [TwoTrackers.loaded]
  refine ⟨hgood, ?_⟩
  rw [nothing_lost_in_runs_iff hgood]
  intro p hp
  rcases List.mem_cons.mp hp with rfl | hp
  · exact safe_of_saved _ (by simp) (by simp) rfl
  · rw [List.mem_singleton.mp hp]
    exact safe_of_saved _ (by simp) (by simp) rfl

theorem parse_idText (id : Bytes32) : parse_content_id (idText id) = .ok id := by
  have hleading : with_0x_prefix (idText id) = idText id := rfl
  have hstrip : strip_optional_hex_prefix (idText id) = hexDigits 64 id.toNat := rfl
  unfold parse_content_id ContentId.parse_hex
  rw [hleading]
  exact decode_fixed_hex_of_strip (n := 32) (by decide) id (idText id) "content ID" hstrip

theorem expect_upsert_idText (id : Bytes32) (now : Except String UInt64)
    (expected : List Bytes32) :
    (TrackerCall.upsert (idText id) now).expect expected = id :: expected := by
  unfold TrackerCall.expect
  simp only [parse_idText]

/-- Content 1 is missing. -/
def oneMissing : MissingRecords :=
  ExtTreeMap.insert ∅ (idText (newRecord 1 5).content_id) (newRecord 1 5)

theorem oneMissing_named : Named oneMissing := named_empty.insert (r := newRecord 1 5) rfl

theorem oneMissing_meets : Meets oneMissing [1] := by
  intro id
  have hnone : ¬ Listed ∅ id := by
    rw [named_empty.listed_iff]
    simp
  have hlisted := named_empty.listed_insert (r := newRecord 1 5) rfl id
  rw [oneMissing, hlisted]
  simp [newRecord, hnone]

/-- The handler announces content 2. -/
def announceTwo : TrackerEvent := ⟨.handler, .upsert (idText 2) (.ok 7), []⟩

/-- The periodic service has asked for content 1 once more. -/
def updateOne : TrackerEvent :=
  ⟨.periodic, .update { newRecord 1 5 with attempt_count := 1 } rfl, []⟩

/-- The handler's announcement is written to the file, and the next save of the periodic
service overwrites it: content 2 is expected and not in the file. -/
theorem announcement_is_overwritten : (TwoTrackers.loaded oneMissing [1]).Good ∧
    ¬ ∀ p ∈ runs.visits TwoTrackers.step [announceTwo, updateOne]
      (TwoTrackers.loaded oneMissing [1]), (p.1.next p.2).NothingLost := by
  refine ⟨⟨⟨oneMissing, rfl, oneMissing_meets, rfl⟩, oneMissing_named, oneMissing_named⟩, ?_⟩
  intro hall
  have hlast := hall ((TwoTrackers.loaded oneMissing [1]).next announceTwo, updateOne)
    (List.mem_cons_of_mem _ List.mem_cons_self)
  have hmeets := (nothingLost_iff.mp hlast).2
  obtain ⟨as, hafter⟩ := run_after (t := ⟨oneMissing, ((TwoTrackers.loaded oneMissing [1]).next
    announceTwo).file, []⟩) oneMissing_named updateOne.call
  have hlisted : Listed (after updateOne.call.run ⟨oneMissing,
      ((TwoTrackers.loaded oneMissing [1]).next announceTwo).file, []⟩).records 2 := by
    apply (hmeets 2).mpr
    change 2 ∈ (TrackerCall.upsert (idText 2) (.ok 7)).expect [1]
    rw [expect_upsert_idText]
    exact List.mem_cons_self
  rw [hafter] at hlisted
  rcases (oneMissing_named.listed_insert (r := { newRecord 1 5 with attempt_count := 1 }) rfl
    2).mp hlisted with h | h
  · simp [newRecord] at h
  · have hmem := (oneMissing_meets 2).mp h
    simp at hmem

end eld_chain
