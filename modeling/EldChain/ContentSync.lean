-- Contents that the network announces: the message handler that lists what
-- is missing and stores what arrives, and the periodic pass that asks again.
-- The two look a content up under different spellings of its key.
import EldChain.MissingContent
import EldChain.CapacityManager

open Std

namespace eld_chain

open fallible

/-- A node's slots with its two lists of missing contents, and the file of both. -/
structure SyncNode where
  manager : CapacityManager
  handler : MissingRecords
  periodic : MissingRecords
  file : Option (JsonFile MissingRecords)

/-- `slice::chunks`. -/
def chunksOf (size : Nat) : Nat → Bytes → List Bytes
  | 0, _ => []
  | _ + 1, [] => []
  | fuel + 1, b :: bytes =>
    (b :: bytes).take size :: chunksOf size fuel ((b :: bytes).drop size)

/-- At most as many chunks as bytes. -/
def chunks (size : Nat) (bytes : Bytes) : List Bytes := chunksOf size bytes.length bytes

/-- `hex::encode` of a digest. -/
def hexKey (digest : Bytes32) : Text := hexDigits 64 digest.toNat

variable (o : Outside)

/-! ## The message handler -/

/-- A call on the handler's tracker. Its error is only logged. -/
def SyncNode.onHandler (call : TrackerProg Unit) (saves : List Answer) (n : SyncNode) : SyncNode :=
  let t := after call ⟨n.handler, n.file, saves⟩
  { n with handler := t.records, file := t.file }

/-- `has_temp_blob` is what the temporary storage says of the key. The second part of the
result is the content that is requested. -/
def handle_announce (content_key : Text) (has_temp_blob : Bool) (now : Except String UInt64)
    (saves : List Answer) (n : SyncNode) : SyncNode × Option Text :=
  if has_temp_blob then (n, none)
  else
    match get_content_from_slots content_key n.manager with
    | .ok (some _) s => ({ n with manager := s }, none)
    | .ok none s =>
      (SyncNode.onHandler (MissingContentTracker.upsert_missing_content_by_content_id content_key
        now) saves { n with manager := s }, some content_key)
    | .error _ s => ({ n with manager := s }, none)

/-- The slots once a content was offered to them. An error of the store is only logged. -/
def mirrorContent (content_key : Text) (content_bytes : Bytes) (s : CapacityManager) :
    CapacityManager :=
  match get_content_from_slots content_key s with
  | .ok (some _) s => s
  | .ok none s =>
    after (store_content_chunks o content_key (chunks MAX_CHUNK_SIZE content_bytes)) s
  | .error _ s => s

def handle_content_response (content_key content : Text) (saves : List Answer) (n : SyncNode) :
    SyncNode :=
  match get_content_from_slots content_key n.manager with
  | .ok (some _) s => { n with manager := s }
  | .error _ s => { n with manager := s }
  | .ok none s =>
    match o.base64.decode content with
    | none => { n with manager := s }
    | some content_bytes =>
      let computed_key := hexKey (o.sha256 content_bytes)
      if computed_key ≠ content_key then { n with manager := s }
      else
        -- the content leaves the list whether or not it was stored
        SyncNode.onHandler (MissingContentTracker.mark_content_synced_by_content_id content_key)
          saves { n with manager := mirrorContent o content_key content_bytes s }

/-! ## The periodic pass -/

def MAX_MISSING_CONTENT_PER_PASS : Nat := 32

/-- The oldest attempts first, a record that was never tried before all others. -/
def attemptKey (record : MissingContentRecord) : Nat × Nat :=
  ((record.last_attempt.getD 0).toNat, record.discovered_at.toNat)

def earlier (a b : MissingContentRecord) : Bool :=
  (attemptKey a).1 < (attemptKey b).1 ||
    ((attemptKey a).1 == (attemptKey b).1 && (attemptKey a).2 ≤ (attemptKey b).2)

def select_missing_for_pass (records : List MissingContentRecord) (limit : Nat) :
    List MissingContentRecord :=
  (records.mergeSort earlier).take limit

def trim_start_matches_0x : Text → Text
  | '0' :: 'x' :: rest => trim_start_matches_0x rest
  | s => s

/-- A pass under way, with the contents that it has requested. -/
structure SyncPass where
  manager : CapacityManager
  tracker : MissingContentTracker
  requested : List Text

abbrev PassProg := EStateM EldError SyncPass

def onTracker (call : TrackerProg Unit) : PassProg Unit := fun p =>
  match call p.tracker with
  | .ok _ t => .ok () { p with tracker := t }
  | .error e t => .error e { p with tracker := t }

/-- `clock` is the system time when a record is handled. -/
def syncRecord (clock : MissingContentRecord → Except String UInt64)
    (record : MissingContentRecord) : PassProg Unit := fun p =>
  match get_content_from_slots (idText record.content_id) p.manager with
  | .ok (some _) s =>
    onTracker (MissingContentTracker.mark_content_synced (idText record.manifest_id))
      { p with manager := s }
  | .ok none s =>
    (do
      modify (fun p : SyncPass => { p with
        requested := p.requested ++ [trim_start_matches_0x (idText record.content_id)] })
      onTracker (do
        let now ← orThrow (systemTime "get_system_time" (clock record))
        MissingContentTracker.update_missing_content_record { record with
          attempt_count := record.attempt_count + 1
          last_attempt := some now })) { p with manager := s }
  | .error _ s => .ok () { p with manager := s }

def syncRecords (clock : MissingContentRecord → Except String UInt64) :
    List MissingContentRecord → PassProg Unit
  | [] => pure ()
  | record :: rest => do
    syncRecord clock record
    syncRecords clock rest

/-- `missing` are the records of the tracker, in the order of its hash map. -/
def check_and_request_missing (clock : MissingContentRecord → Except String UInt64)
    (missing : List MissingContentRecord) : PassProg Unit :=
  syncRecords clock (select_missing_for_pass missing MAX_MISSING_CONTENT_PER_PASS)

end eld_chain
