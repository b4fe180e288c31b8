-- The answers of DeliverTx: the codes and texts of `errors.rs`, and the
-- answer of a transaction that took effect. Code 0 is success, and no
-- error answer has it.
import EldChain.Types

namespace eld_chain

def ELD_CODESPACE : String := "eld"

/-- An error answer whose log and info texts differ. -/
def errorResponse (code : Nat) (log info : String) : ResponseDeliverTx :=
  { code, codespace := ELD_CODESPACE, log, info }

def response_deliver_tx_error_insufficient_stake : ResponseDeliverTx :=
  errorResponse 1 "Insufficient stake" "Insufficient stake"

def response_deliver_tx_error_minimum_stake : ResponseDeliverTx :=
  errorResponse 2 "Minimum stake not met" "Minimum stake not met"

def response_deliver_tx_error_nonce_not_sequential (expected_nonce actual_nonce : UInt32)
    (account_address : String) : ResponseDeliverTx :=
  let log_message := "Nonce is not sequential for account " ++ account_address ++ ": expected "
    ++ toString expected_nonce ++ ", but got " ++ toString actual_nonce
  errorResponse 3 log_message log_message

def response_deliver_tx_error_insufficient_funds : ResponseDeliverTx :=
  errorResponse 5 "Sender has insufficient funds" "Sender has insufficient funds"

def response_deliver_tx_error_nonce_overflow (account_address : String) : ResponseDeliverTx :=
  let log_message := "Account nonce overflow for " ++ account_address
    ++ ": cannot increment past u32::MAX"
  errorResponse 6 log_message log_message

def response_deliver_tx_error_sender_doesnt_exist (error_log : String) : ResponseDeliverTx :=
  errorResponse 9 ("Sender doesn't exist: " ++ error_log) "Sender doesn't exist"

def response_deliver_tx_error_insufficient_fee (required_fee provided_fee : Nat) :
    ResponseDeliverTx :=
  let text := "Insufficient fee. Required: " ++ toString required_fee ++ ", provided: "
    ++ toString provided_fee
  errorResponse 12 text text

def response_deliver_tx_error_verification_failed : ResponseDeliverTx :=
  errorResponse 13 "Tx verification failed" "Tx verification failed"

def response_deliver_tx_error_validation_failed (error_details : String) : ResponseDeliverTx :=
  errorResponse 51 ("Transaction validation failed: " ++ error_details)
    "Transaction validation failed"

def response_deliver_tx_error_invalid_public_key_format : ResponseDeliverTx :=
  errorResponse 56 "Invalid public key format" "Public key must be hex encoded"

def response_deliver_tx_error_invalid_public_key_length : ResponseDeliverTx :=
  errorResponse 57 "Invalid public key length" "Public key must be 32 bytes"

def response_deliver_tx_error_internal_lock_failed (error_details : String) : ResponseDeliverTx :=
  errorResponse 61 ("Internal lock acquisition failed: " ++ error_details) "Internal system error"

def response_deliver_tx_error_invalid_coin_amount (error_details : String) : ResponseDeliverTx :=
  errorResponse 65 ("Invalid coin amount: " ++ error_details) "Invalid coin amount specified"

def response_deliver_tx_error_fee_validation_failed (error_details : String) : ResponseDeliverTx :=
  errorResponse 66 ("Fee validation failed: " ++ error_details)
    "Transaction fee validation failed"

def response_deliver_tx_error_fee_calculation_failed (error_details : String) :
    ResponseDeliverTx :=
  errorResponse 74 ("Fee calculation failed: " ++ error_details)
    "Dynamic fee calculation failed due to overflow or invalid parameters"

def create_event_attribute (key value : String) : String × String := (key, value)

/-- The answer of a transaction that took effect. -/
def okResponse (log : String) (events : List Event) : ResponseDeliverTx := { code := 0, log, events }

end eld_chain
