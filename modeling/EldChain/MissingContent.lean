-- The list of contents that a node still has to fetch: one file on disk,
-- and trackers that each load it once and later write their own copy of
-- the whole list back.
import EldChain.SlotAllocator

open Std

namespace eld_chain

open fallible

/-! ## Records -/

/-- The canonical text of a content id or a manifest id. -/
def idText (id : Bytes32) : Text := '0' :: 'x' :: hexDigits 64 id.toNat

def ContentId.parse_hex (s : Text) : Except EldError Bytes32 := decode_fixed_hex 32 s "content ID"

structure MissingContentRecord where
  manifest_id : Bytes32
  content_id : Bytes32
  block_height : UInt64
  discovered_at : UInt64
  attempt_count : UInt32
  last_attempt : Option UInt64
deriving DecidableEq

/-- manifest id -> record. -/
abbrev MissingRecords := ExtTreeMap Text MissingContentRecord compare

/-! ## A tracker at work -/

/-- A tracker, the file, and the answers of the operating system still to come. When they
run out every call succeeds. -/
structure MissingContentTracker where
  records : MissingRecords
  file : Option (JsonFile MissingRecords)
  answers : List Answer

abbrev TrackerProg := EStateM EldError MissingContentTracker

def nextTrackerAnswer : TrackerProg Answer := fun t =>
  match t.answers with
  | [] => .ok .done t
  | a :: rest => .ok a { t with answers := rest }

def MissingContentTracker.save : TrackerProg Unit := do
  match ← nextTrackerAnswer with
  | .done => pure ()
  | .refused e | .cut _ e =>
    throw (.StorageError "save_missing_content" ("Failed to create directory: " ++ e))
  match ← nextTrackerAnswer with
  | .done => modify (fun t => { t with file := some (.whole t.records) })
  | .refused e =>
    throw (.StorageError "save_missing_content" ("Failed to write missing content file: " ++ e))
  | .cut n e => do
    modify (fun t => { t with file := some (.cut t.records n) })
    throw (.StorageError "save_missing_content" ("Failed to write missing content file: " ++ e))

/-- A file that is not there leaves the tracker empty. `json_error` is what serde_json says of
the first bytes of a text. -/
def MissingContentTracker.load (json_error : MissingRecords → Nat → String) :
    TrackerProg Unit := do
  match (← get).file with
  | none => pure ()
  | some file =>
    match ← nextTrackerAnswer with
    | .refused e | .cut _ e =>
      throw (.StorageError "load_missing_content" ("Failed to read missing content file: " ++ e))
    | .done =>
      match file with
      | .whole records => modify (fun t => { t with records := records })
      | .cut records n => throw (.StorageError "load_missing_content"
          ("Failed to deserialize missing content file: " ++ json_error records n))

/-! ## Changing the list -/

def with_0x_prefix : Text → Text
  | '0' :: 'x' :: rest => '0' :: 'x' :: rest
  | input => '0' :: 'x' :: input

def parse_content_id (input : Text) : Except EldError Bytes32 :=
  ContentId.parse_hex ( with_0x_prefix input)

/-- An error ends the call. -/
def orThrow {A : Type} : Except EldError A → TrackerProg A
  | .ok a => pure a
  | .error e => throw e

def MissingContentTracker.mark_content_synced (manifest_id : Text) : TrackerProg Unit := do
  if manifest_id ∈ (← get).records then
    modify (fun t => { t with records := t.records.erase manifest_id })
    save
  else pure ()

def MissingContentTracker.mark_content_synced_by_content_id (content_id : Text) :
    TrackerProg Unit := do
  let needle ← orThrow (parse_content_id content_id)
  let found := (← get).records.toList.any (fun p => p.2.content_id == needle)
  modify (fun t => { t with records := t.records.filter (fun _ r => r.content_id != needle) })
  if found then save else pure ()

/-- The records in the order of their keys. The hash map of the source has them in no
particular order. -/
def get_all_missing_content (records : MissingRecords) : List MissingContentRecord :=
  records.toList.map Prod.snd

/-- The record of a content that is missing for the first time. -/
def newRecord (content_id : Bytes32) (now : UInt64) : MissingContentRecord where
  manifest_id := content_id
  content_id := content_id
  block_height := 0
  discovered_at := now
  attempt_count := 0
  last_attempt := none

/-- `now` is the system clock, or what it says when it stands before its epoch. -/
def systemTime (operation : String) (now : Except String UInt64) : Except EldError UInt64 :=
  now.mapError (fun e => .StorageError operation ("Failed to get system time: " ++ e))

def MissingContentTracker.upsert_missing_content_by_content_id (content_id : Text)
    (now : Except String UInt64) : TrackerProg Unit := do
  let content_id ← orThrow (parse_content_id content_id)
  let now ← orThrow (systemTime "missing_content_now" now)
  let key := idText content_id
  let record := (← get).records.getD key (newRecord content_id now)
  modify (fun t => { t with
    records := t.records.insert key { record with last_attempt := some now } })
  save

def MissingContentTracker.update_missing_content_record (record : MissingContentRecord) :
    TrackerProg Unit := do
  modify (fun t => { t with records := t.records.insert (idText record.manifest_id) record })
  save

end eld_chain
