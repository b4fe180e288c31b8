-- The loop that keeps the index in step with the chain: one pass fetches the
-- block after the cursor from Tendermint, indexes its transactions one by
-- one, and moves the cursor when none of them failed.
import EldChain.FrontEnd
import EldChain.Indexer

open Std json

namespace eld_chain

variable (o : Outside) (s : SerdeJson)

/-! ## Reading the bytes of a block -/

/-- A transaction that was deserialized. -/
def ReadTx (o : Outside) : Type := { tx : Tx // tx.Readable o }

theorem readable_of_decode {j : Json} {tx : Tx} (h : Tx.decode o s j = some tx) :
    tx.Readable o := by
  unfold Tx.decode at h
  simp only [Option.bind_eq_bind, Option.bind_eq_some_iff] at h
  obtain ⟨members, _, sig, hsig, nonce, _, payload, _, public_key, hkey, fee, hfee, htx⟩ := h
  cases htx
  obtain ⟨js, _, hjs⟩ := required_eq_some.mp hsig
  obtain ⟨jk, _, hjk⟩ := required_eq_some.mp hkey
  obtain ⟨jf, _, hjf⟩ := required_eq_some.mp hfee
  refine ⟨?_, ?_, asUnsigned_lt hjf⟩
  · cases js with
    | str t =>
      have hsame : t = sig := by
        rw [asTxSig] at hjs
        split at hjs
        · exact Option.some.inj hjs
        · cases hjs
      rw [← hsame] at hjs ⊢
      exact hjs
    | _ => cases hjs
  · cases jk with
    | str t =>
      have hsame : t = public_key := by
        rw [asTxPublicKey] at hjk
        split at hjk
        · exact Option.some.inj hjk
        · cases hjk
      rw [← hsame] at hjk ⊢
      exact hjk
    | _ => cases hjk

theorem readable_of_from_str {text : Text} {tx : Tx} (h : s.from_str_tx o text = .ok tx) :
    tx.Readable o := by
  unfold SerdeJson.from_str_tx at h
  split at h
  · cases h
  · rename_i hdecode
    cases h
    obtain ⟨j, _, hj⟩ := Option.bind_eq_some_iff.mp hdecode
    exact readable_of_decode o s hj

/-- `serde_json::from_str::<Tx>`, with what deserializing ensures. -/
def SerdeJson.read_tx (text : Text) : Except String (ReadTx o) :=
  match h : s.from_str_tx o text with
  | .ok tx => .ok ⟨tx, readable_of_from_str o s h⟩
  | .error e => .error e

/-- The decoder of another crate that the client uses. -/
structure WireDecoders (o : Outside) where
  /-- `serde_json::from_slice::<Tx>`, on bytes that are not UTF-8: a string that is skipped
  may hold such bytes. -/
  from_slice_raw : Bytes → Except String (ReadTx o)

variable (d : WireDecoders o)

/-- `serde_json::from_slice::<Tx>`. -/
def from_slice_tx (tx_bytes : Bytes) : Except String (ReadTx o) :=
  match from_utf8 tx_bytes with
  | .ok text => s.read_tx o text
  | .error _ => d.from_slice_raw tx_bytes

def decode_eld_tx_from_wire (tx_bytes : Bytes) : Except EldError (ReadTx o) := do
  let hex_str ← (from_utf8 tx_bytes).mapError (fun e => .ValidationError "tx_bytes"
    (toString tx_bytes.length ++ " bytes") ("Transaction bytes are not UTF-8 hex: " ++ e))
  let json_bytes ← (hex_decode hex_str).mapError (fun e => .ValidationError "tx_hex"
    (String.ofList (hex_str.take 64)) ("Failed to decode transaction hex: " ++ e.to_string))
  let json_str ← (from_utf8 json_bytes).mapError (fun e => .ValidationError "tx_json"
    "decoded hex" ("Decoded transaction is not UTF-8 JSON: " ++ e))
  (s.read_tx o json_str).mapError (fun e => .ValidationError "tx"
    (String.ofList (json_str.take 128)) ("Failed to parse Eld transaction JSON: " ++ e))

/-- Hex of JSON, JSON, or the base64 of bytes that are read in the same way. None when the
recursion is deeper than the fuel. -/
def decode_eld_tx_from_block_tx_bytes : Nat → Bytes → Option (Except EldError (ReadTx o))
  | 0, _ => none
  | fuel + 1, tx_bytes =>
    let last : Except EldError (ReadTx o) :=
      (from_slice_tx o s d tx_bytes).mapError (fun e => .ValidationError "tx"
        (toString tx_bytes.length ++ " bytes")
        ("Failed to decode Eld transaction from block tx bytes: " ++ e))
    match decode_eld_tx_from_wire o s tx_bytes with
    | .ok tx => some (.ok tx)
    | .error _ =>
      match from_utf8 tx_bytes with
      | .error _ => some last
      | .ok json_str =>
        match s.read_tx o json_str with
        | .ok tx => some (.ok tx)
        | .error _ =>
          match o.base64.decode (trim json_str) with
          | none => some last
          | some inner =>
            match decode_eld_tx_from_block_tx_bytes fuel inner with
            | none => none
            | some (.ok tx) => some (.ok tx)
            | some (.error _) => some last

/-! ## Tendermint -/

/-- The answer of `/tx`, as far as the indexer reads it. -/
structure TxResponse where
  tx : Bytes
  code : UInt32
  gas_used : I64
  events : List Event

/-- The calls of Tendermint's RPC: the transactions of the block at a height, and a
transaction with its result by its hash. -/
structure TendermintRpc where
  block : UInt64 → Except EldError (List Bytes)
  tx : Bytes32 → Except EldError TxResponse

variable (rpc : TendermintRpc)

/-- A height is an `i64` on the wire. -/
def TendermintRpc.get_block (height : UInt64) : Except EldError (List Bytes) :=
  if height.toNat < 2 ^ 63 then rpc.block height
  else .error (.ValidationError "block_height" (toString height.toNat)
    "Failed to convert u64 to Height: integer overflow")

def TendermintRpc.get_tx_by_hash (hash : Bytes32) : Except EldError TxResponse := rpc.tx hash

def wire_bytes_to_tx_hash (tx_bytes : Bytes) : Bytes32 := o.sha256 tx_bytes

def tm_tx_result_is_success (code : UInt32) : Bool := code == 0

def tm_tx_gas_used (gas_used : I64) : Option UInt64 :=
  if 0 < gas_used.val then some (asU64 gas_used.val) else none

/-! ## The cursor -/

def get_indexer_cursor (cf : IndexedTransactions) : Except EldError (Option UInt64) :=
  match cf[INDEXER_CURSOR_KEY]? with
  | none => .ok none
  | some (.height h) => .ok (some h)
  | some _ => .error (.StorageError "get_indexer_cursor" "Invalid indexer cursor value")

def set_indexer_cursor (cf : IndexedTransactions) (height : UInt64) : IndexedTransactions :=
  cf.insert INDEXER_CURSOR_KEY (.height height)

/-! ## The loop -/

/-- Makes the writes one after another, and stops at the first error. What was written
stays. -/
def makeWrites (cf : IndexedTransactions) :
    List IndexWrite → IndexedTransactions × Except EldError Unit
  | [] => (cf, .ok ())
  | w :: rest =>
    match w.apply cf with
    | .ok cf' => makeWrites cf' rest
    | .error e => (cf, .error e)

/-- Indexes one entry of a block: it is found by its hash, decoded, and written with the
result that Tendermint gives. -/
def index_tx_from_block_and_tm_tx (fuel : Nat) (cf : IndexedTransactions) (block_tx_wire : Bytes)
    (expected_height : UInt64) (expected_index : UInt32) (timestamp : UInt64) :
    Option (IndexedTransactions × Except EldError Unit) :=
  match rpc.get_tx_by_hash (wire_bytes_to_tx_hash o block_tx_wire) with
  | .error e => some (cf, .error e)
  | .ok tx_resp =>
    match decode_eld_tx_from_block_tx_bytes o s d fuel tx_resp.tx with
    | none => none
    | some (.error e) => some (cf, .error e)
    | some (.ok eld_tx) =>
      let call : IndexCall o := {
        tx := eld_tx.val
        block_height := expected_height
        block_index := expected_index
        status := if tm_tx_result_is_success tx_resp.code then .Success else .Failed
        gas_used := tm_tx_gas_used tx_resp.gas_used
        events := tx_resp.events
        timestamp := timestamp
        readable := eld_tx.property }
      some (makeWrites cf (call.writes cf))

/-- The entries of a block from an index on. The flag tells whether all were written. -/
def indexBlock (fuel : Nat) (height timestamp : UInt64) :
    Nat → List Bytes → IndexedTransactions → Bool → Option (IndexedTransactions × Bool)
  | _, [], cf, block_fully_written => some (cf, block_fully_written)
  | block_index, block_tx_wire :: rest, cf, block_fully_written =>
    match index_tx_from_block_and_tm_tx o s d rpc fuel cf block_tx_wire height
        (UInt32.ofNat block_index) timestamp with
    | none => none
    | some (cf', .ok _) =>
      indexBlock fuel height timestamp (block_index + 1) rest cf' block_fully_written
    | some (cf', .error _) => indexBlock fuel height timestamp (block_index + 1) rest cf' false

/-- The height that a pass asks for. Tendermint has no block 0. -/
def next_height (cursor : Option UInt64) : UInt64 :=
  match cursor with
  | some h => UInt64.saturating_add h 1
  | none => 1

/-- One pass of the loop in `run_indexer_sync_loop`. None when it does not come back. -/
def sync_pass (fuel : Nat) (cf : IndexedTransactions) (timestamp : UInt64) :
    Option IndexedTransactions :=
  match get_indexer_cursor cf with
  | .error _ => some cf
  | .ok cursor =>
    match rpc.get_block (next_height cursor) with
    | .error _ => some cf
    | .ok data =>
      (indexBlock o s d rpc fuel (next_height cursor) timestamp 0 data cf true).map (fun r =>
        if r.2 then set_indexer_cursor r.1 (next_height cursor) else r.1)

end eld_chain
