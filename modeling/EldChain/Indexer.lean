-- The transaction indexer: what `index_transaction` writes into its column
-- family, write by write, and how `GET /transactions` reads a page of it.
-- A position leads to a transaction id, and the id to the one record of
-- the transaction.
import EldChain.Codec

open Std json

namespace eld_chain

variable (o : Outside) (s : SerdeJson)

inductive TransactionStatus
  | Success | Failed
deriving DecidableEq

structure IndexedEvent where
  tx_id : Text
  event_index : UInt32
  event_type : String
  attributes : List (String × String)
  block_height : UInt64
  block_index : UInt32
  timestamp : UInt64

structure IndexedTransaction where
  id : Text
  block_height : UInt64
  block_index : UInt32
  timestamp : UInt64
  tx : Tx
  status : TransactionStatus
  gas_used : Option UInt64
  events : List IndexedEvent

/-- A record as `serde_json::to_vec` writes it. Its transaction is the tree that is read
again; the plain fields come back as they are. -/
structure StoredTransaction where
  id : Text
  block_height : UInt64
  block_index : UInt32
  timestamp : UInt64
  tx : Json
  status : TransactionStatus
  gas_used : Option UInt64
  events : List IndexedEvent

def IndexedTransaction.to_vec (ix : IndexedTransaction) : StoredTransaction :=
  ⟨ix.id, ix.block_height, ix.block_index, ix.timestamp, ix.tx.json, ix.status, ix.gas_used,
    ix.events⟩

def IndexedTransaction.from_slice (row : StoredTransaction) : Option IndexedTransaction :=
  (Tx.decode o s row.tx).map (fun tx => ⟨row.id, row.block_height, row.block_index,
    row.timestamp, tx, row.status, row.gas_used, row.events⟩)

/-- What a row of the column family holds: a record, a transaction id, nothing, a count of
eight bytes, or a height in decimal. -/
inductive IndexRow
  | transaction (row : StoredTransaction)
  | tx_id (id : Text)
  | marker
  | count (n : UInt64)
  | height (h : UInt64)

/-- The column family, in the order of its keys. -/
abbrev IndexedTransactions := ExtTreeMap Text IndexRow compare

/-! ## Keys -/

def INDEXED_TRANSACTIONS_PRIMARY_TOTAL_COUNT_KEY : Text :=
  "_meta:indexed_transactions_primary_total".toList

def VERIFIED_PROOF_GLOBAL_REWARDS_COUNT_KEY : Text :=
  "_meta:verified_proof_global_rewards_count".toList

def INDEXER_CURSOR_KEY : Text := "meta:indexer:last_synced_height".toList

def BLOCK_POS_CHRON_LOWER_BOUND : Text := "block_pos:".toList

def BLOCK_POS_CHRON_UPPER_BOUND_EXCLUSIVE : Text := "block_pos;".toList

def block_height_index_key (block_height : UInt64) (block_index : UInt32) : Text :=
  "block_height:".toList ++ Nat.toDigits 10 block_height.toNat ++ ":tx_index:".toList
    ++ Nat.toDigits 10 block_index.toNat

def block_position_chron_index_key (block_height : UInt64) (block_index : UInt32) : Text :=
  "block_pos:".toList ++ hexDigits 16 block_height.toNat ++ ':' :: hexDigits 8 block_index.toNat

def sender_index_key (sender : Address) (nonce : Nonce) : Text :=
  "sender:".toList ++ Address.text sender ++ ":nonce:".toList
    ++ Nat.toDigits 10 nonce.value.toNat

def type_index_key (payload_type tx_id : Text) : Text :=
  "type:".toList ++ payload_type ++ ':' :: tx_id

def verified_proof_reward_index_key (provider : Address) (block_height : UInt64)
    (block_index : UInt32) : Text :=
  "vp:".toList ++ Address.text provider ++ ':' :: hexDigits 16 block_height.toNat
    ++ ':' :: hexDigits 8 block_index.toNat

/-- Strips a leading text. -/
def strip_leading : Text → Text → Option Text
  | [], t => some t
  | _ :: _, [] => none
  | a :: lead, b :: t => if a = b then strip_leading lead t else none

/-- `split_once` at the first occurrence of a character. -/
def split_once (c : Char) : Text → Option (Text × Text)
  | [] => none
  | a :: t => if a = c then some ([], t) else (split_once c t).map (fun p => (a :: p.1, p.2))

/-- `from_str_radix(_, 16)` of an unsigned number of `bits` bits. -/
def from_str_radix_16 (bits : Nat) (t : Text) : Option Nat :=
  let digits := if t.head? = some '+' then t.tail else t
  if digits = [] then none
  else (hexNumber digits).bind (fun n => if n < 2 ^ bits then some n else none)

def parse_block_position_chron_key (key_str : Text) : Option (UInt64 × UInt32) := do
  let rest ← strip_leading "block_pos:".toList key_str
  let parts ← split_once ':' rest
  let block_height ← from_str_radix_16 64 parts.1
  let block_index ← from_str_radix_16 32 parts.2
  some (UInt64.ofNat block_height, UInt32.ofNat block_index)

/-! ## Counters -/

/-- The keys of records: `0x` and no colon. -/
def is_primary_key (key_str : Text) : Bool :=
  "0x".toList.isPrefixOf key_str && !key_str.contains ':'

def count_primary_indexed_transaction_keys (cf : IndexedTransactions) : UInt64 :=
  UInt64.ofNat (cf.toList.countP (fun row => is_primary_key row.1))

def decode_u64_meta : IndexRow → Except EldError UInt64
  | .count n => .ok n
  | _ => .error (.StorageError "decode_indexed_transaction_total_count_meta"
    "Invalid indexed transaction total meta length")

/-- The total that the API reads. A total that is missing is counted and stored. -/
def indexed_transaction_primary_total_count (cf : IndexedTransactions) :
    Except EldError (UInt64 × IndexedTransactions) :=
  match cf[INDEXED_TRANSACTIONS_PRIMARY_TOTAL_COUNT_KEY]? with
  | some bytes => (decode_u64_meta bytes).map (fun n => (n, cf))
  | none =>
    let n := count_primary_indexed_transaction_keys cf
    .ok (n, cf.insert INDEXED_TRANSACTIONS_PRIMARY_TOTAL_COUNT_KEY (.count n))

def bump_indexed_transaction_primary_total_count (cf : IndexedTransactions) :
    Except EldError IndexedTransactions :=
  match cf[INDEXED_TRANSACTIONS_PRIMARY_TOTAL_COUNT_KEY]? with
  | some bytes =>
    match decode_u64_meta bytes with
    | .error e => .error e
    | .ok cur =>
      if cur.toNat + 1 < 2 ^ 64 then
        .ok (cf.insert INDEXED_TRANSACTIONS_PRIMARY_TOTAL_COUNT_KEY (.count (cur + 1)))
      else .error (.StorageError "bump_indexed_transaction_total_count"
        "Indexed transaction total count overflow")
  | none => .ok (cf.insert INDEXED_TRANSACTIONS_PRIMARY_TOTAL_COUNT_KEY
      (.count (count_primary_indexed_transaction_keys cf)))

/-- A rewards count of another length reads as 0. -/
def read_verified_proof_global_rewards_count (cf : IndexedTransactions) : UInt64 :=
  match cf[VERIFIED_PROOF_GLOBAL_REWARDS_COUNT_KEY]? with
  | some (.count n) => n
  | _ => 0

def bump_verified_proof_global_rewards_count (cf : IndexedTransactions) : IndexedTransactions :=
  cf.insert VERIFIED_PROOF_GLOBAL_REWARDS_COUNT_KEY
    (.count (UInt64.saturating_add (read_verified_proof_global_rewards_count cf) 1))

/-! ## Indexing -/

/-- `calculate_tx_id`, over the JSON of the transaction with its signature. -/
def calculate_tx_id (tx : Tx) : Text := Bytes32.text (o.sha256 (Text.bytes tx.to_string))

/-- The arguments of `index_transaction`, and the time of the call. -/
structure IndexCall where
  tx : Tx
  block_height : UInt64
  block_index : UInt32
  status : TransactionStatus
  gas_used : Option UInt64
  events : List Event
  timestamp : UInt64
  readable : tx.Readable o

variable {o}

def IndexCall.tx_id (call : IndexCall o) : Text := calculate_tx_id o call.tx

def indexed_event_from_abci (call : IndexCall o) (event_index : Nat) (event : Event) :
    IndexedEvent where
  tx_id := call.tx_id
  event_index := UInt32.ofNat event_index
  event_type := event.type_
  attributes := event.attributes
  block_height := call.block_height
  block_index := call.block_index
  timestamp := call.timestamp

def IndexCall.indexed_tx (call : IndexCall o) : IndexedTransaction where
  id := call.tx_id
  block_height := call.block_height
  block_index := call.block_index
  timestamp := call.timestamp
  tx := call.tx
  status := call.status
  gas_used := call.gas_used
  events := call.events.zipIdx.map (fun e => indexed_event_from_abci call e.2 e.1)

/-- The row of a reward: a successful proof that did not fail. -/
def IndexCall.reward_key (call : IndexCall o) : Option Text :=
  if call.status = .Success then
    match call.tx.payload.inner with
    | .VerifiedProof vp_tx =>
      if vp_tx.failed then none
      else some (verified_proof_reward_index_key vp_tx.capacity_provider call.block_height
        call.block_index)
    | _ => none
  else none

/-- One write to the column family. -/
inductive IndexWrite
  | put (key : Text) (row : IndexRow)
  | bump_rewards
  | bump_total

def IndexWrite.apply (cf : IndexedTransactions) : IndexWrite → Except EldError IndexedTransactions
  | .put key row => .ok (cf.insert key row)
  | .bump_rewards => .ok (bump_verified_proof_global_rewards_count cf)
  | .bump_total => bump_indexed_transaction_primary_total_count cf

/-- The writes of one call, in their order. Whether the record is new is read before the
first of them. -/
def IndexCall.writes (call : IndexCall o) (cf : IndexedTransactions) : List IndexWrite :=
  let primary_already_present := cf[call.tx_id]?.isSome
  [.put call.tx_id (.transaction call.indexed_tx.to_vec),
    .put (block_height_index_key call.block_height call.block_index) (.tx_id call.tx_id),
    .put (block_position_chron_index_key call.block_height call.block_index) (.tx_id call.tx_id),
    .put (sender_index_key call.tx.payload.inner.sender call.tx.nonce) (.tx_id call.tx_id),
    .put (type_index_key call.tx.payload.type_ call.tx_id) (.tx_id call.tx_id)]
  ++ (match call.reward_key with
    | some vp_key => [.put vp_key .marker, .bump_rewards]
    | none => [])
  ++ (if primary_already_present then [] else [.bump_total])

/-- Makes the writes one after another. An error ends the call. -/
def applyWrites (cf : IndexedTransactions) (writes : List IndexWrite) :
    Except EldError IndexedTransactions :=
  writes.foldlM IndexWrite.apply cf

def index_transaction (cf : IndexedTransactions) (call : IndexCall o) :
    Except EldError IndexedTransactions :=
  applyWrites cf (call.writes cf)

/-! ## Listing -/

structure IndexedTxChronFilters where
  block_height : Option UInt64
  sender : Option Address
  payload_type : Option Text

def indexed_transaction_matches_optional_filters (ix : IndexedTransaction)
    (filters : IndexedTxChronFilters) : Bool :=
  (match filters.block_height with
    | some h => ix.block_height == h
    | none => true) &&
  (match filters.sender with
    | some addr => ix.tx.payload.inner.sender == addr
    | none => true) &&
  (match filters.payload_type with
    | some pt => ix.tx.payload.type_ == pt
    | none => true)

variable (o)

def load_primary_indexed_transaction_by_cf (cf : IndexedTransactions) :
    IndexRow → Except EldError IndexedTransaction
  | .tx_id normalized =>
    match cf[normalized]? with
    | some (.transaction row) =>
      match IndexedTransaction.from_slice o s row with
      | some ix => .ok ix
      | none => .error (.StorageError "deserialize_indexed_transaction_by_secondary"
        (s.tx_error row.tx.compact))
    | some _ => .error (.StorageError "deserialize_indexed_transaction_by_secondary"
        (s.tx_error []))
    | none => .error (.StorageError "missing_primary_for_block_pos_row"
        ("Missing primary IndexedTransaction row for " ++ String.ofList normalized))
  | _ => .error (.StorageError "missing_primary_for_block_pos_row"
        "Missing primary IndexedTransaction row for ")

/-- The rows that a reverse iterator gives between the bounds, from the seek key down. -/
def chron_rows_desc (cf : IndexedTransactions) (seek : Option Text) : List (Text × IndexRow) :=
  (cf.toList.filter (fun row =>
    (compare BLOCK_POS_CHRON_LOWER_BOUND row.1).isLE &&
    (compare row.1 BLOCK_POS_CHRON_UPPER_BOUND_EXCLUSIVE).isLT &&
    (match seek with
      | none => true
      | some key => (compare row.1 key).isLE))).reverse

/-- The loop over the rows, newest first, with the records found so far. -/
def scanLoop (cf : IndexedTransactions) (cursor_tuple : Option (UInt64 × UInt32))
    (filters : IndexedTxChronFilters) (fetch_limit : Nat) :
    List (Text × IndexRow) → List IndexedTransaction →
      Except EldError (List IndexedTransaction)
  | [], out => .ok out
  | (key_str, value) :: rest, out =>
    if !"block_pos:".toList.isPrefixOf key_str then
      scanLoop cf cursor_tuple filters fetch_limit rest out
    else
      match parse_block_position_chron_key key_str with
      | none => .error (.StorageError "parse_block_pos_key"
          ("Malformed block_pos key: " ++ String.ofList key_str))
      | some (kh, ki) =>
        -- rows at or above the cursor are passed over
        if cursor_tuple.any (fun c => c.1 < kh || (kh == c.1 && c.2 ≤ ki)) then
          scanLoop cf cursor_tuple filters fetch_limit rest out
        else
          match load_primary_indexed_transaction_by_cf o s cf value with
          | .error e => .error e
          | .ok indexed_tx =>
            if !indexed_transaction_matches_optional_filters indexed_tx filters then
              scanLoop cf cursor_tuple filters fetch_limit rest out
            else if fetch_limit ≤ (out ++ [indexed_tx]).length then .ok (out ++ [indexed_tx])
            else scanLoop cf cursor_tuple filters fetch_limit rest (out ++ [indexed_tx])

def list_indexed_transactions_chron_desc_scanned (cf : IndexedTransactions)
    (cursor_tuple : Option (UInt64 × UInt32)) (filters : IndexedTxChronFilters)
    (fetch_limit : Nat) : Except EldError (List IndexedTransaction) :=
  scanLoop o s cf cursor_tuple filters fetch_limit
    (chron_rows_desc cf (cursor_tuple.map (fun c => block_position_chron_index_key c.1 c.2))) []

def list_indexed_transactions_chron_desc (cf : IndexedTransactions)
    (cursor_exclusive : Option (UInt64 × UInt32)) (limit : UInt32) (fetch_one_extra_row : Bool)
    (filters : IndexedTxChronFilters) : Except EldError (List IndexedTransaction) :=
  let extra : UInt32 := if fetch_one_extra_row then 1 else 0
  let fetch_limit := max (UInt32.saturating_add limit extra).toNat 1
  list_indexed_transactions_chron_desc_scanned o s cf cursor_exclusive filters fetch_limit

/-- The loop over all rows that counts the matching ones. -/
def countLoop (cf : IndexedTransactions) (filters : IndexedTxChronFilters) :
    List (Text × IndexRow) → Except EldError Nat
  | [] => .ok 0
  | (_, value) :: rest =>
    match load_primary_indexed_transaction_by_cf o s cf value with
    | .error e => .error e
    | .ok indexed_tx =>
      (countLoop cf filters rest).map (fun n =>
        if indexed_transaction_matches_optional_filters indexed_tx filters then n + 1 else n)

def count_indexed_transactions_matching_chron_filters (cf : IndexedTransactions)
    (filters : IndexedTxChronFilters) : Except EldError UInt64 :=
  (countLoop o s cf filters (chron_rows_desc cf none).reverse).map UInt64.ofNat

/-! ## GET /transactions -/

structure TransactionListParams where
  after_height : Option UInt64
  after_index : Option UInt32
  limit : Option UInt32
  block_height : Option UInt64
  sender : Option Text
  payload_type : Option Text

structure TransactionPagination where
  limit : UInt32
  has_next : Bool
  total : Option UInt64

structure TransactionListResponse where
  transactions : List IndexedTransaction
  pagination : TransactionPagination

inductive ApiError
  | BadRequest (message : String) (details : Option String)
  | NotFound (resource_type identifier : String) (details : Option String)
  | InternalServerError (message : String) (details : Option String)

def failedToRetrieve (e : EldError) : ApiError :=
  .InternalServerError "Failed to retrieve transactions" (some e.to_string)

/-- The total of a page: of all records without a filter, of the matching ones on the first
page with one, and none on a later page. -/
def listTotal (cf : IndexedTransactions) (params : TransactionListParams)
    (filters : IndexedTxChronFilters) (first : Bool) :
    Except EldError (Option UInt64 × IndexedTransactions) :=
  if params.block_height.isSome || params.sender.isSome || params.payload_type.isSome then
    if first then
      (count_indexed_transactions_matching_chron_filters o s cf filters).map
        (fun n => (some n, cf))
    else .ok (none, cf)
  else (indexed_transaction_primary_total_count cf).map (fun r => (some r.1, r.2))

/-- The rows of a page, once the parameters are read. -/
def listPage (cf : IndexedTransactions) (params : TransactionListParams) (limit : UInt32)
    (continuation : Option (UInt64 × UInt32)) (filters : IndexedTxChronFilters) :
    Except ApiError (TransactionListResponse × IndexedTransactions) :=
  match listTotal o s cf params filters continuation.isNone with
  | .error e => .error (failedToRetrieve e)
  | .ok (total, cf') =>
    match list_indexed_transactions_chron_desc o s cf' continuation limit true filters with
    | .error e => .error (failedToRetrieve e)
    | .ok rows =>
      let has_next := limit.toNat < rows.length
      .ok (⟨if has_next then rows.take limit.toNat else rows, ⟨limit, has_next, total⟩⟩, cf')

/-- `GET /transactions`, past the rate limit, on a node that runs the indexer. -/
def handle_get_transactions (cf : IndexedTransactions) (params : TransactionListParams) :
    Except ApiError (TransactionListResponse × IndexedTransactions) :=
  let limit : UInt32 := min (params.limit.getD 50) 100
  if limit = 0 then .error (.BadRequest "Invalid limit" (some "Limit must be > 0"))
  else
    match params.after_height, params.after_index with
    | some _, none | none, some _ =>
      .error (.BadRequest "Invalid transaction list continuation"
        (some "Provide both after_height and after_index, or neither."))
    | after_height, after_index =>
      let continuation := after_height.bind (fun h => after_index.map (fun i => (h, i)))
      match params.sender with
      | none => listPage o s cf params limit continuation
          ⟨params.block_height, none, params.payload_type⟩
      | some text =>
        match decode_fixed_hex 20 text "address" with
        | .error _ => .ok (⟨[], ⟨limit, false, some 0⟩⟩, cf)
        | .ok addr => listPage o s cf params limit continuation
            ⟨params.block_height, some addr, params.payload_type⟩

end eld_chain
