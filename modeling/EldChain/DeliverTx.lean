-- DeliverTx: a decoded transaction is verified, its sender pays the fee
-- and moves to the next nonce, and only then the payload goes to its
-- processor. A transaction that is turned away at any check leaves the
-- node as it was.
import EldChain.Challenges

open Std

namespace eld_chain

variable (o : Outside) (pc : ProtocolConstants)

/-! ## Dispatch -/

/-- `ConsensusTxDeliver::process`: the payload decides the processor. A stake payload that
is declared as `Unstake` runs as an unstake. -/
def Tx.process (st : Storage) (e : AppStateEnvelope) (tx : Tx) :
    ResponseDeliverTx × AppStateEnvelope :=
  match tx.payload.inner with
  | .VerifiedProof vp => process_verified_proof_tx o pc st e vp
  | .RegisterCapacity rc => process_register_capacity_tx o pc st e rc tx.public_key
  | .UnregisterCapacity uc => process_unregister_capacity_tx o st e uc
  | .UpdateCapacityMerkleRoot um => process_update_capacity_merkle_root_tx o st e um
  | .Transfer t => process_transfer_tx o st e t
  | .Stake s =>
    if tx.payload.type_ = "Unstake".toList then
      process_unstake_tx o st e ⟨s.sender, s.amount, s.amount_pos, s.amount_le⟩
    else process_stake_tx o pc st e s
  | .Unstake u => process_unstake_tx o st e u
  | .PostMessage pm => process_post_message_tx pc e pm
  | .AddNamespace an => process_add_namespace_tx o st e an

/-! ## Admission -/

/-- The sender after admission: the next nonce, and the fee taken from the balance. -/
def chargedAccount (tx : Tx) (balance : Coin) (nonce : Nonce) : Account :=
  ⟨tx.payload.inner.sender, balance, nonce⟩

/-- The checks on the open block: the account exists, the nonce is the next one and the
balance covers the fee. The sender is then charged. -/
def admitToBlock (st : Storage) (e : AppStateEnvelope) (tx : Tx) :
    Except ResponseDeliverTx AppStateEnvelope :=
  let sender_addr := tx.payload.inner.sender
  match e.get_account_from_cado o st sender_addr with
  | none =>
    .error (response_deliver_tx_error_sender_doesnt_exist (Address.hex_with_prefix sender_addr))
  | some sender =>
    match sender.account.nonce.next with
    | none => .error (response_deliver_tx_error_nonce_overflow
        (Address.hex_with_prefix sender.account.address))
    | some expected_nonce =>
      if expected_nonce ≠ tx.nonce then
        .error (response_deliver_tx_error_nonce_not_sequential expected_nonce.value tx.nonce.value
          (Address.hex_with_prefix sender.account.address))
      else
        match Coin.new tx.fee with
        | .error err => .error (response_deliver_tx_error_invalid_coin_amount err.to_string)
        | .ok fee =>
          if fee.is_zero then
            .error (response_deliver_tx_error_fee_validation_failed
              (EldError.ValidationError "fee amount" "0" "Fee cannot be zero").to_string)
          else if sender.account.balance.amount < fee.amount then
            .error response_deliver_tx_error_insufficient_funds
          else
            match sender.account.balance.sub fee with
            | .error err => .error (response_deliver_tx_error_invalid_coin_amount err.to_string)
            | .ok balance => .ok (e.stage_account o sender_addr sender.hash
                (chargedAccount tx balance expected_nonce))

/-- Admission: signature, fee and then the checks on the open block. -/
def admission (c : ConsensusConnection) (tx : Tx) : Except ResponseDeliverTx AppState :=
  if !o.verify tx c.committed_state.chain_id then
    .error response_deliver_tx_error_verification_failed
  else
    match o.calculate_dynamic_fee tx with
    | .error err => .error (response_deliver_tx_error_fee_calculation_failed err.to_string)
    | .ok required_fee =>
      match Coin.new tx.fee with
      | .error err => .error (response_deliver_tx_error_invalid_coin_amount err.to_string)
      | .ok provided_fee =>
        if provided_fee.amount < required_fee.amount then
          .error (response_deliver_tx_error_insufficient_fee required_fee.amount tx.fee)
        else
          match c.current_state with
          | none => .error (response_deliver_tx_error_internal_lock_failed "current state is None")
          | some state =>
            match admitToBlock o c.storage state.envelope tx with
            | .error r => .error r
            | .ok envelope => .ok { state with envelope }

def withGas (tx : Tx) (r : ResponseDeliverTx) : ResponseDeliverTx :=
  match o.estimated_gas_usage tx with
  | some gas => { r with gas_wanted := gas, gas_used := gas }
  | none => r

/-- `deliver_tx_inner`. The request is what the front end made of the transaction bytes: an
error answer, or the decoded transaction. -/
def deliver_tx_inner (c : ConsensusConnection) (request : Except ResponseDeliverTx Tx) :
    ResponseDeliverTx × ConsensusConnection :=
  match request with
  | .error r => (r, c)
  | .ok tx =>
    match admission o c tx with
    | .error r => (r, c)
    | .ok state =>
      let answer := tx.process o pc c.storage state.envelope
      (withGas o tx answer.1,
        { c with current_state := some { state with envelope := answer.2 } })

end eld_chain
