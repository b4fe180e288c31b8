-- The garbage collector of the pinboard: a tick reads the newest messages
-- from the commit index, page by page, keeps the latest expiry it saw for
-- each content, and deletes from the slots the contents that it has seen
-- expire. The tick reads the tables as they are when it starts.
import EldChain.Pinboard
import EldChain.SlotAllocator

open Std

namespace eld_chain

def PINBOARD_GC_MAX_SCAN_PER_TICK : Nat := 500

def PINBOARD_GC_MAX_DELETES_PER_TICK : Nat := 200

def PINBOARD_GC_PAGE_SIZE : Nat := 200

/-! ## Pages of the commit index -/

inductive PinboardGlobalFeedOrder
  | Asc
  | Desc
deriving DecidableEq

structure PrefixQueryOptions where
  page : Nat
  page_size : Nat
  max_results : Nat
  max_memory_bytes : Nat

/-- The default options with a page. -/
def PrefixQueryOptions.with_pagination (page page_size : Nat) : PrefixQueryOptions :=
  ⟨page, page_size, 1000, 50 * 1024 * 1024⟩

def PrefixQueryOptions.offset (options : PrefixQueryOptions) : Nat :=
  options.page * options.page_size

def PrefixQueryOptions.validate (options : PrefixQueryOptions) : Except EldError Unit :=
  if options.max_results < options.page_size then
    .error (.ValidationError "page size" (toString options.page_size)
      ("Page size " ++ toString options.page_size ++ " exceeds maximum allowed size "
        ++ toString options.max_results))
  else if options.page_size = 0 then
    .error (.ValidationError "page size" "0" "Page size must be greater than 0")
  else if options.max_results = 0 then
    .error (.ValidationError "max results" "0" "Max results must be greater than 0")
  else if options.max_memory_bytes = 0 then
    .error (.ValidationError "max memory bytes" "0" "Max memory bytes must be greater than 0")
  else .ok ()

structure PaginatedResult (T : Type) where
  items : List T
  page : Nat
  page_size : Nat
  has_more : Bool

/-- What follows the first colon of a key, or the key if it has none. -/
def message_id_of_commit_key (key : Text) : Text :=
  match key.dropWhile (fun x => x ≠ ':') with
  | _ :: message_id => message_id
  | [] => key

/-- The walk over the keys: the ids of the page, and how many keys it has processed. -/
def collectPage (options : PrefixQueryOptions) :
    List Text → List Text → Nat → Nat → List Text × Nat
  | [], items, total_processed, _ => (items, total_processed)
  | key :: keys, items, total_processed, memory =>
    let total_processed := total_processed + 1
    let memory := memory + (Text.bytes key).length
    if options.max_memory_bytes < memory then (items, total_processed)
    else if options.max_results < total_processed then (items, total_processed)
    else if options.offset < total_processed then
      if items.length < options.page_size then
        collectPage options keys (items ++ [message_id_of_commit_key key]) total_processed memory
      else (items, total_processed)
    else collectPage options keys items total_processed memory

/-- The keys of the commit index, the newest first for `Desc`. -/
def PinboardTables.commit_keys (t : PinboardTables) : PinboardGlobalFeedOrder → List Text
  | .Asc => t.idx_commit.toList
  | .Desc => t.idx_commit.toList.reverse

/-- `allowed` is the answer of the rate limiter to this query. -/
def PinboardTables.get_pinboard_message_ids_global_secure (t : PinboardTables)
    (order : PinboardGlobalFeedOrder) (options : PrefixQueryOptions) (allowed : Bool) :
    Except EldError (PaginatedResult Text) :=
  match options.validate with
  | .error e => .error (.ValidationError "prefix_query_options" "invalid"
      ("Failed to validate prefix query options: " ++ e.to_string))
  | .ok () =>
    if allowed = false then
      .error (.StorageError "rate_limited_query" "Rate limit exceeded for global pinboard feed")
    else
      let found := collectPage options (t.commit_keys order) [] 0 0
      .ok ⟨found.1, options.page, options.page_size,
        decide (options.offset + found.1.length < found.2)⟩

/-! ## A tick -/

def PinboardTables.get_pinboard_metadata (t : PinboardTables) (message_id : Text) :
    Option PinboardMessageMetadata := t.metadata[message_id]?

/-- The latest expiry seen for each content. -/
abbrev ContentExpiry := ExtTreeMap Text UInt64 compare

def noteExpiry (t : PinboardTables) (content_max_expires : ContentExpiry) (message_id : Text) :
    ContentExpiry :=
  match t.get_pinboard_metadata message_id with
  | none => content_max_expires
  | some metadata =>
    content_max_expires.insert metadata.content_key
      (max (content_max_expires.getD metadata.content_key 0) metadata.expires_height)

/-- The messages of one page, up to the limit of the scan. -/
def scanPage (t : PinboardTables) : List Text → Nat → ContentExpiry → Nat × ContentExpiry
  | [], scanned, content_max_expires => (scanned, content_max_expires)
  | message_id :: ids, scanned, content_max_expires =>
    if PINBOARD_GC_MAX_SCAN_PER_TICK ≤ scanned then (scanned, content_max_expires)
    else scanPage t ids (scanned + 1) (noteExpiry t content_max_expires message_id)

/-- The pages of a tick. Each page but the last brings the scan forward, so that `fuel` above
the limit of the scan is never used up. -/
def scanPages (t : PinboardTables) (is_allowed : Nat → Bool) :
    Nat → Nat → Nat → ContentExpiry → Except EldError (Nat × ContentExpiry)
  | 0, _, scanned, content_max_expires => .ok (scanned, content_max_expires)
  | fuel + 1, page, scanned, content_max_expires =>
    if PINBOARD_GC_MAX_SCAN_PER_TICK ≤ scanned then .ok (scanned, content_max_expires)
    else
      match t.get_pinboard_message_ids_global_secure .Desc
          (.with_pagination page PINBOARD_GC_PAGE_SIZE) (is_allowed page) with
      | .error e => .error e
      | .ok ids =>
        match ids.items with
        | [] => .ok (scanned, content_max_expires)
        | _ =>
          let noted := scanPage t ids.items scanned content_max_expires
          if ids.has_more = false then .ok noted
          else scanPages t is_allowed fuel (page + 1) noted.1 noted.2

/-- The order of the candidates: by expiry, then by content key. -/
def compareCandidates (a b : Text × UInt64) : Ordering := (compare a.2 b.2).then (compare a.1 b.1)

/-- The contents that have expired as far as the scan saw, the earliest expiry first. -/
def deleteCandidates (current_height : UInt64) (content_max_expires : ContentExpiry) :
    List (Text × UInt64) :=
  (content_max_expires.toList.filter (fun p => decide (p.2 ≤ current_height))).insertionSort
    (fun a b => (compareCandidates a b).isLE = true)

/-- A row of the log of deletions: wallet, message id and height. -/
abbrev GcDeletedItem := Text × Text × UInt64

/-- What a tick did: the contents for which it called `delete_content_from_slots`, the rows of
its log, and its metrics. -/
structure GcTick where
  calls : List Text
  deleted_items : List GcDeletedItem
  scanned : Nat
  deletes : Nat
  last_deleted_expires_height : UInt64

def PinboardTables.find_pinboard_metadata_refs_by_content_key (t : PinboardTables)
    (content_key : Text) : List (Text × Text) :=
  (t.metadata.toList.filter (fun p => p.2.content_key = content_key)).map
    (fun p => (Address.text p.2.original_signer, p.2.message_id))

/-- One candidate. A content that is already gone, or that cannot be deleted, counts for nothing. -/
def deleteStep (t : PinboardTables) (current_height : UInt64)
    (delete_content_from_slots : Text → Except EldError Unit) (tick : GcTick)
    (candidate : Text × UInt64) : GcTick :=
  let tick := { tick with calls := tick.calls ++ [candidate.1] }
  match delete_content_from_slots candidate.1 with
  | .error _ => tick
  | .ok () =>
    { tick with
      deleted_items := tick.deleted_items ++
        (t.find_pinboard_metadata_refs_by_content_key candidate.1).map
          (fun p => (p.1, p.2, current_height))
      deletes := tick.deletes + 1
      last_deleted_expires_height := candidate.2 }

def run_gc_tick (t : PinboardTables) (current_height : UInt64) (is_allowed : Nat → Bool)
    (delete_content_from_slots : Text → Except EldError Unit) : Except EldError GcTick :=
  match scanPages t is_allowed (PINBOARD_GC_MAX_SCAN_PER_TICK + 1) 0 0 ∅ with
  | .error e => .error e
  | .ok (scanned, content_max_expires) =>
    .ok (((deleteCandidates current_height content_max_expires).take
      PINBOARD_GC_MAX_DELETES_PER_TICK).foldl (deleteStep t current_height delete_content_from_slots)
      ⟨[], [], scanned, 0, 0⟩)

end eld_chain
