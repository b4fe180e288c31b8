-- The index of events. Each event is stored under its transaction, with a
-- row under its type and one under its block, whose keys hold the numbers
-- of the block in plain decimals. The listing of all events walks the rows
-- of the blocks from the last key down and counts its way to a page.
import EldChain.Indexer

open Std

namespace eld_chain

/-! ## Keys -/

def event_primary_key (tx_id : Text) (event_index : UInt32) : Text :=
  "tx_id:".toList ++ tx_id ++ ":event_index:".toList ++ Nat.toDigits 10 event_index.toNat

def event_block_index_key (block_height : UInt64) (block_index event_index : UInt32) : Text :=
  "block_height:".toList ++ Nat.toDigits 10 block_height.toNat ++ ":block_index:".toList
    ++ Nat.toDigits 10 block_index.toNat ++ ":event_index:".toList
    ++ Nat.toDigits 10 event_index.toNat

def event_type_index_key (event_type : String) (block_height : UInt64)
    (block_index event_index : UInt32) : Text :=
  "type:".toList ++ event_type.toList ++ ':' ::
    event_block_index_key block_height block_index event_index

/-- `contains`, of one text in another. -/
def Text.contains_text (t sub : Text) : Bool := t.tails.any (fun rest => sub.isPrefixOf rest)

def is_block_index_key (key_str : Text) : Bool :=
  "block_height:".toList.isPrefixOf key_str &&
    Text.contains_text key_str ":block_index:".toList &&
    Text.contains_text key_str ":event_index:".toList

/-! ## Indexing -/

/-- What a row of the column family holds: an event as JSON, whose plain fields come back as
they are, or the key of one. -/
inductive EventRow
  | event (indexed_event : IndexedEvent)
  | primary_key (key : Text)

/-- The column family, in the order of its keys. -/
abbrev IndexedEvents := ExtTreeMap Text EventRow compare

/-- The arguments of `index_event`, and the time of the call. -/
structure EventCall where
  tx_id : Text
  event_index : UInt32
  event : Event
  block_height : UInt64
  block_index : UInt32
  timestamp : UInt64

namespace EventCall

variable (call : EventCall)

def primary_key : Text := event_primary_key call.tx_id call.event_index

def block_key : Text :=
  event_block_index_key call.block_height call.block_index call.event_index

def type_key : Text :=
  event_type_index_key call.event.type_ call.block_height call.block_index call.event_index

def indexed_event : IndexedEvent where
  tx_id := call.tx_id
  event_index := call.event_index
  event_type := call.event.type_
  attributes := call.event.attributes
  block_height := call.block_height
  block_index := call.block_index
  timestamp := call.timestamp

end EventCall

def index_event (cf : IndexedEvents) (call : EventCall) : IndexedEvents :=
  ((cf.insert call.primary_key (.event call.indexed_event)).insert
    call.type_key (.primary_key call.primary_key)).insert
    call.block_key (.primary_key call.primary_key)

/-- The column family after some calls, from an empty one. -/
def indexedEvents (calls : List EventCall) : IndexedEvents := calls.foldl index_event ∅

/-! ## Listing -/

/-- The variables of the loop. The counts are of rows of one database. -/
structure EventScan where
  events : List IndexedEvent
  count : Nat
  skipped : Nat

/-- One row of the loop. -/
def EventScan.row (cf : IndexedEvents) (offset limit : Nat) (scan : EventScan) :
    Text × EventRow → Except EldError EventScan
  | (key_str, value) =>
    if is_block_index_key key_str then
      let scan := { scan with count := scan.count + 1 }
      if scan.skipped < offset then .ok { scan with skipped := scan.skipped + 1 }
      else if scan.events.length < limit then
        match value with
        -- no key is the JSON of an event
        | .event _ => .ok scan
        | .primary_key key =>
          match cf[key]? with
          | none => .ok scan
          | some (.event indexed_event) =>
            .ok { scan with events := scan.events ++ [indexed_event] }
          -- a key starts like `true`
          | some (.primary_key _) => .error (.StorageError "deserialize_indexed_event"
              "Failed to deserialize indexed event: expected ident at line 1 column 2")
      else .ok scan
    else .ok scan

/-- `get_all_events`, where the product of the offset wraps round. -/
def get_all_events (cf : IndexedEvents) (page limit : UInt32) :
    Except EldError (List IndexedEvent × Nat) :=
  let offset := ((page - 1) * limit).toNat
  (cf.toList.reverse.foldlM (EventScan.row cf offset limit.toNat) ⟨[], 0, 0⟩).map
    (fun scan => (scan.events, scan.count))

end eld_chain
