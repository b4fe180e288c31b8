-- The mempool connection: CheckTx decodes a transaction, verifies it and
-- looks at the nonce and the fee, against the committed state only. A
-- transaction that it accepts is gossiped and put into a block.
import EldChain.Chain
import EldChain.FrontEnd

open json Std

namespace eld_chain

variable (o : Outside) (s : SerdeJson)

/-! ## Answers -/

structure ResponseCheckTx where
  code : Nat := 0
  codespace : String := ""
  log : String := ""
  info : String := ""

def checkErrorResponse (code : Nat) (log info : String) : ResponseCheckTx :=
  { code, codespace := ELD_CODESPACE, log, info }

def response_check_tx_error_nonce_not_sequential (expected_nonce actual_nonce : UInt32)
    (account_address : String) : ResponseCheckTx :=
  let log_message := "Nonce is not sequential for account " ++ account_address ++ ": expected "
    ++ toString expected_nonce ++ ", but got " ++ toString actual_nonce
  checkErrorResponse 3 log_message log_message

def response_check_tx_error_verification_failed : ResponseCheckTx :=
  checkErrorResponse 4 "Tx verification failed" "Tx verification failed"

def response_check_tx_error_nonce_overflow (account_address : String) : ResponseCheckTx :=
  let log_message := "Account nonce overflow for " ++ account_address
    ++ ": cannot increment past u32::MAX"
  checkErrorResponse 6 log_message log_message

def response_check_tx_error_tx_too_large (max_size actual_size : Nat) : ResponseCheckTx :=
  let text := "Transaction too large. Max size is " ++ toString max_size ++ " bytes, but got "
    ++ toString actual_size ++ " bytes"
  checkErrorResponse 7 text text

def response_check_tx_error_sender_doesnt_exist (account_address : String) : ResponseCheckTx :=
  checkErrorResponse 9 ("Sender account not found: " ++ account_address) "Sender doesn't exist"

def response_check_tx_error_insufficient_fee (required_fee provided_fee : Nat) : ResponseCheckTx :=
  let text := "Insufficient fee. Required: " ++ toString required_fee ++ ", provided: "
    ++ toString provided_fee
  checkErrorResponse 11 text text

def response_check_tx_error_fee_calculation_failed (error_details : String) : ResponseCheckTx :=
  checkErrorResponse 75 ("Fee calculation failed: " ++ error_details)
    "Dynamic fee calculation failed due to overflow or invalid parameters"

def response_check_tx_error_invalid_utf8_encoding (error_details : String) : ResponseCheckTx :=
  checkErrorResponse 76 ("Invalid UTF-8 encoding: " ++ error_details)
    "Transaction contains invalid UTF-8 bytes"

def response_check_tx_error_invalid_hex_encoding (error_details : String) : ResponseCheckTx :=
  checkErrorResponse 77 ("Invalid hex encoding: " ++ error_details)
    "Transaction contains invalid hex encoding"

def response_check_tx_error_json_parsing_failed (error_details : String) : ResponseCheckTx :=
  checkErrorResponse 78 ("JSON parsing failed: " ++ error_details) "Failed to parse transaction JSON"

/-! ## The connection -/

/-- The chain id of the configuration, the constants once genesis has set them, and what the
consensus connection shares. -/
structure MempoolConnection where
  chain_id : String
  protocol : Option ProtocolConstants
  committed_state : AppState
  storage : Storage

def Node.mempool (pc : ProtocolConstants) (cfg : GenesisConfig) (n : Node) : MempoolConnection :=
  ⟨cfg.chain_id, some pc, n.conn.committed_state, n.conn.storage⟩

/-- The committed object at a path, or else the one of the database. What is staged does not
count, also not at genesis. -/
def lookup_cado_by_path_excluding_current_cache (committed_state : AppState) (st : Storage)
    (path : CadoPath) : Except EldError (Option (CadoBody StoredData)) :=
  match committed_state.envelope.committed_cado_cache[path]? with
  | some cado => .ok (some cado.stored)
  | none => st.get_cado_by_path o path

/-- The first half of `check_tx`: the transaction that the bytes are, or the answer to them. -/
def checkDecode (pc : ProtocolConstants) (tx_bytes : Bytes) : Except ResponseCheckTx Tx :=
  if pc.max_tx_bytes < tx_bytes.length then
    .error (response_check_tx_error_tx_too_large pc.max_tx_bytes tx_bytes.length)
  else do
    let hex_str ← (from_utf8 tx_bytes).mapError response_check_tx_error_invalid_utf8_encoding
    let decoded_bytes ← (hex_decode hex_str).mapError
      (fun e => response_check_tx_error_invalid_hex_encoding e.to_string)
    let decoded_json ← (from_utf8 decoded_bytes).mapError
      response_check_tx_error_invalid_utf8_encoding
    (s.from_str_tx o decoded_json).mapError response_check_tx_error_json_parsing_failed

/-- The account of a sender. An object that is no account fails the verification. -/
def checkSender (m : MempoolConnection) (sender : Address) : Except ResponseCheckTx Account :=
  match lookup_cado_by_path_excluding_current_cache o m.committed_state m.storage
      (.account sender) with
  | .ok (some (.Mutable ⟨_, .chain (.account account), _, _⟩)) => .ok account
  | .ok (some _) => .error response_check_tx_error_verification_failed
  | .ok none =>
    .error (response_check_tx_error_sender_doesnt_exist (Address.hex_with_prefix sender))
  | .error _ => .error response_check_tx_error_verification_failed

/-- The exact next nonce only, as DeliverTx asks for it. -/
def checkNonce (account : Account) (tx : Tx) : Except ResponseCheckTx Unit :=
  match account.nonce.next with
  | none => .error (response_check_tx_error_nonce_overflow (Address.hex_with_prefix account.address))
  | some expected_nonce =>
    if expected_nonce ≠ tx.nonce then
      .error (response_check_tx_error_nonce_not_sequential expected_nonce.value tx.nonce.value
        (Address.hex_with_prefix account.address))
    else .ok ()

/-- The fee that the transaction offers against the one it needs. The balance is not looked
at. -/
def checkFee (tx : Tx) : Except ResponseCheckTx Unit :=
  match o.calculate_dynamic_fee tx with
  | .error e => .error (response_check_tx_error_fee_calculation_failed e.to_string)
  | .ok required_fee =>
    match Coin.new tx.fee with
    | .error _ => .error (response_check_tx_error_insufficient_fee required_fee.amount tx.fee)
    | .ok provided_fee =>
      if provided_fee.amount < required_fee.amount then
        .error (response_check_tx_error_insufficient_fee required_fee.amount tx.fee)
      else .ok ()

/-- The second half of `check_tx`. -/
def checkDecoded (m : MempoolConnection) (tx : Tx) : Except ResponseCheckTx Unit :=
  if !o.verify tx m.chain_id then .error response_check_tx_error_verification_failed
  else do
    let account ← checkSender o m tx.payload.inner.sender
    checkNonce account tx
    checkFee o tx

def check_tx (m : MempoolConnection) (tx_bytes : Bytes) : ResponseCheckTx :=
  match m.protocol with
  | none => response_check_tx_error_fee_calculation_failed "protocol constants are not loaded"
  | some pc =>
    match checkDecode o s pc tx_bytes >>= checkDecoded o m with
    | .error r => r
    | .ok () => {}

end eld_chain
