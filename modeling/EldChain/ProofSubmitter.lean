-- The submitter of verified proofs: it keeps the next nonce of its
-- wallet, builds and broadcasts one transaction at a time, and decides
-- from the answer of the node which nonce comes next. A call waits for
-- that answer while the chain goes on, so it is modelled in two halves.
import EldChain.Identities
import EldChain.TxBuilders

open json

namespace eld_chain

variable (o : Outside) (s : SerdeJson)

/-! ## The optimistic nonce -/

structure SequentialOptimisticNonceSender where
  /-- Nothing until the chain was read, and after `u32::MAX`. -/
  next_tx_nonce : Option Nonce

namespace SequentialOptimisticNonceSender

def new : SequentialOptimisticNonceSender := ⟨none⟩

/-- The nonce that is assigned, and the cursor behind it. The chain is asked only when there
is no cursor. -/
def take_next_nonce (sender : SequentialOptimisticNonceSender)
    (fetch_chain_next_nonce : Except EldError (Option Nonce)) :
    Except EldError Nonce × SequentialOptimisticNonceSender :=
  let slot : Except EldError (Option Nonce) :=
    match sender.next_tx_nonce with
    | some next => .ok (some next)
    | none => fetch_chain_next_nonce
  match slot with
  | .error e => (.error e, sender)
  | .ok none => (.error (.NetworkError "nonce retrieval"
      "SequentialOptimisticNonceSender: failed to obtain initial nonce from chain"), sender)
  | .ok (some current) => (.ok current, ⟨current.next⟩)

def reuse_nonce (assigned : Nonce) : SequentialOptimisticNonceSender := ⟨some assigned⟩

end SequentialOptimisticNonceSender

/-! ## The answer to a broadcast -/

/-- `Value`'s index: `null` for what is not there. -/
def memberAt (v : Json) (name : String) : Json :=
  match v with
  | .obj members => valueAt members name
  | _ => .null

def isNull : Json → Bool
  | .null => true
  | _ => false

/-- The comparison of a `Value` with the integer 0. -/
def isZero : Json → Bool
  | .int n => n == 0
  | _ => false

def rpc_tx_code (value : Json) (field : String) (raw_response : Text) : Except EldError Nat :=
  match asUnsigned 64 value with
  | some code => .ok code
  | none => .error (.NetworkError "parse RPC response"
      ("Missing or non-numeric " ++ field ++ " in: " ++ String.ofList raw_response))

/-- The log of a transaction result. -/
def rpcLog (result : Json) : String :=
  match asStr (memberAt result "log") with
  | some log => String.ofList log
  | none => "Unknown error"

def parse_rpc_response (response : Text) : Except EldError Unit := do
  let json ← (s.from_str_value response).mapError (fun e =>
    .NetworkError "parse RPC response" ("Failed to parse RPC response JSON: " ++ e))
  let result := memberAt json "result"
  if isNull result then
    .error (.TransactionError "unknown"
      ("RPC response has null result. Full response: " ++ String.ofList response))
  else if isNull (memberAt result "check_tx") then
    .error (.TransactionError "unknown"
      ("RPC response missing check_tx field. Result: " ++ valueText result))
  else if !isZero (memberAt (memberAt result "check_tx") "code") then do
    let code ← rpc_tx_code (memberAt (memberAt result "check_tx") "code") "check_tx.code" response
    .error (.TransactionError "mempool_validation" ("Transaction rejected by mempool (code "
      ++ toString code ++ "): " ++ rpcLog (memberAt result "check_tx") ++ ". Full result: "
      ++ valueText result))
  else if isNull (memberAt result "deliver_tx") then
    .error (.TransactionError "unknown"
      ("RPC response missing deliver_tx field. Result: " ++ valueText result))
  else if !isZero (memberAt (memberAt result "deliver_tx") "code") then do
    let code ←
      rpc_tx_code (memberAt (memberAt result "deliver_tx") "code") "deliver_tx.code" response
    .error (.TransactionError "consensus" ("Transaction failed at consensus (code "
      ++ toString code ++ "): " ++ rpcLog (memberAt result "deliver_tx")))
  else .ok ()

/-- What the HTTP client gets for a broadcast. -/
inductive HttpReply
  /-- The configuration names no URL, so nothing is sent. -/
  | no_url (e : EldError)
  | send_failed (e : String)
  | bad_status (status : String)
  | unreadable (e : String)
  | body (response_text : Text)

def send_tx_rpc : HttpReply → Except EldError Json
  | .no_url e => .error e
  | .send_failed e =>
    .error (.NetworkError "RPC request" ("Failed to send RPC request: " ++ e))
  | .bad_status status =>
    .error (.NetworkError "RPC request" ("RPC request failed with status: " ++ status))
  | .unreadable e =>
    .error (.NetworkError "RPC response reading" ("Failed to read RPC response: " ++ e))
  | .body response_text => do
    parse_rpc_response s response_text
    (s.from_str_value response_text).mapError (fun e =>
      .NetworkError "parse RPC response" ("Failed to parse RPC response JSON: " ++ e))

/-! ## The nonce of the account on the chain -/

/-- What becomes of a query of the node: it fails on the way, the node answers with an error,
or it looks the object up. -/
inductive CadoQuery
  | failed (e : EldError)
  | refused
  | answered

def next_nonce_from_account (account : Account) : Except EldError Nonce :=
  match account.nonce.next with
  | some next => .ok next
  | none => .error (.ValidationError "nonce" (toString account.nonce.value)
      "Account nonce overflowed (u32::MAX); wrap-around is not allowed")

/-- The next nonce of the account in the database. An error answer of the node has no
object, and reads like an account that is not there. -/
def get_next_nonce_for_account_cado (st : Storage) (address : Address) :
    CadoQuery → Except EldError (Option Nonce)
  | .failed e => .error e
  | .refused => .ok none
  | .answered =>
    match st.get_cado_by_path o (.account address) with
    | .error _ => .ok none
    | .ok none => .ok none
    | .ok (some (.Immutable _)) => .ok none
    | .ok (some (.Mutable cado)) =>
      match cado.data with
      | .chain (.account account) => (next_nonce_from_account account).map some
      | _ => .error (.ValidationError "account_data" "" "Failed to deserialize account")

/-! ## One call -/

/-- What the submitter is set up with. -/
structure SubmitterConfig (fl : Floats) where
  wallet_name : String
  wallet : Wallet
  chain_id : String
  fee_config : FeeConfig fl

structure VerifiedProofChainSubmitter where
  nonce_sender : SequentialOptimisticNonceSender
  /-- The persisted claims: the sender and the challenge. -/
  claims : List (String × Text)

def VerifiedProofChainSubmitter.new (claims : List (String × Text)) :
    VerifiedProofChainSubmitter := ⟨.new, claims⟩

/-- The arguments of a call, and what the wallets, the claims, the node and the clock answer
before the transaction is sent. -/
structure SubmitCall where
  capacity_provider : Text
  challenge_id : Text
  block_height : I64
  proof_fields : VerifiedProofSubmissionProofs
  wallet_found : Except EldError Bool
  claim_read : Except EldError Unit
  query : CadoQuery
  verified_at_timestamp : Except String UInt64

/-- How far a call comes before it waits for the node. -/
inductive Progress
  | returned (result : Except String Unit)
  | sent (tx : Tx)

variable {fl : Floats} (sc : SubmitterConfig fl)

/-- The builder at the time of the clock. -/
def SubmitCall.build (call : SubmitCall) (assigned_nonce : Nonce) : Except String Tx := do
  let verified_at_timestamp ← call.verified_at_timestamp
  buildVerifiedProof fl sc.fee_config sc.wallet sc.chain_id assigned_nonce call.capacity_provider
    call.challenge_id call.block_height call.proof_fields verified_at_timestamp

def SubmitterConfig.sender_str (sc : SubmitterConfig fl) : String :=
  Address.hex_with_prefix sc.wallet.address

/-- `submit_verified_proof` up to the broadcast. -/
def submit_verified_proof_until_send (st : Storage) (v : VerifiedProofChainSubmitter)
    (call : SubmitCall) : Progress × VerifiedProofChainSubmitter :=
  match call.wallet_found with
  | .error e => (.returned (.error e.to_string), v)
  | .ok false => (.returned (.error ("Wallet '" ++ sc.wallet_name ++ "' not found")), v)
  | .ok true =>
    match call.claim_read with
    | .error e => (.returned (.error e.to_string), v)
    | .ok () =>
      if v.claims.contains (sc.sender_str, call.challenge_id) then (.returned (.ok ()), v)
      else
        match v.nonce_sender.take_next_nonce
            (get_next_nonce_for_account_cado o st sc.wallet.address call.query) with
        | (.error e, nonce_sender) =>
          (.returned (.error e.to_string), { v with nonce_sender := nonce_sender })
        | (.ok assigned_nonce, nonce_sender) =>
          match call.build sc assigned_nonce with
          | .error e =>
            (.returned (.error e), { v with nonce_sender := .reuse_nonce assigned_nonce })
          | .ok tx => (.sent tx, { v with nonce_sender := nonce_sender })

/-- The nonce that comes next when the broadcast of `assigned_nonce` failed. -/
def nonceAfterError (st : Storage) (assigned_nonce : Nonce) (query : CadoQuery) :
    EldError → Nonce
  | .NetworkError _ _ =>
    match get_next_nonce_for_account_cado o st sc.wallet.address query with
    | .ok (some next) => next
    | .ok none => assigned_nonce
    | .error _ => assigned_nonce
  | _ => assigned_nonce

/-- `submit_verified_proof` from the answer on. -/
def submit_verified_proof_after_reply (st : Storage) (v : VerifiedProofChainSubmitter)
    (assigned_nonce : Nonce) (challenge_id : Text) (reply : HttpReply) (query : CadoQuery)
    (claim_write : Except EldError Unit) : Except String Unit × VerifiedProofChainSubmitter :=
  match send_tx_rpc s reply with
  | .ok _ =>
    match claim_write with
    | .error e => (.error ("Failed to persist submission claim: " ++ e.to_string), v)
    | .ok () =>
      if v.claims.contains (sc.sender_str, challenge_id) then (.ok (), v)
      else (.ok (), { v with claims := (sc.sender_str, challenge_id) :: v.claims })
  | .error e =>
    (.error ("Failed to submit transaction: " ++ e.to_string),
      { v with nonce_sender := .reuse_nonce (nonceAfterError o sc st assigned_nonce query e) })

/-! ## The submitter and the chain -/

/-- A transaction whose call waits for the answer, with the codes that the open block gave it
and those of the committed blocks. -/
structure Submission where
  tx : Tx
  challenge_id : Text
  delivered : List Nat
  included : List Nat

/-- What a call of the node makes of the transaction that is waited for. -/
def Submission.observe (pc : ProtocolConstants) (n : Node) (request : Request)
    (sub : Submission) : Submission :=
  match request with
  | .DeliverTx (.ok tx) =>
    if tx = sub.tx then
      { sub with delivered := sub.delivered ++ [(deliver_tx_inner o pc n.conn (.ok tx)).1.code] }
    else sub
  | .Commit => { sub with delivered := [], included := sub.included ++ sub.delivered }
  | _ => sub

/-- No block has delivered the transaction. -/
def Submission.untouched (sub : Submission) : Bool :=
  sub.delivered.isEmpty && sub.included.isEmpty

/-- The codes of CheckTx and of DeliverTx that an answer reports, if it does. -/
def reportedCodes (response_text : Text) : Option (Nat × Nat) :=
  match s.from_str_value response_text with
  | .error _ => none
  | .ok json =>
    let result := memberAt json "result"
    match asUnsigned 64 (memberAt (memberAt result "check_tx") "code"),
        asUnsigned 64 (memberAt (memberAt result "deliver_tx") "code") with
    | some check, some deliver => some (check, deliver)
    | _, _ => none

/-- The answer says that the transaction did not get into the mempool. -/
def HttpReply.turnsAway : HttpReply → Bool
  | .no_url _ => true
  | .body response_text =>
    match reportedCodes s response_text with
    | some (check, _) => check != 0
    | none => false
  | _ => false

/-- Tendermint tells the truth about a transaction: one that CheckTx refused was never
delivered, and the code of DeliverTx is one that a committed block gave. Every other answer
may come at any time. -/
def HttpReply.truthful (reply : HttpReply) (sub : Submission) : Bool :=
  if reply.turnsAway s then sub.untouched
  else
    match reply with
    | .body response_text =>
      match reportedCodes s response_text with
      | some (_, deliver) => sub.included.contains deliver
      | none => true
    | _ => true

/-- A node, the one submitter that uses the wallet, and the transactions of the wallet that
a block may still include. -/
structure SubmitterSystem where
  node : Node
  submitter : VerifiedProofChainSubmitter
  waiting : Option Submission
  pending : List Tx

inductive SubmitterEvent
  | chain (request : Request)
  /-- The mempools lose a transaction. -/
  | dropped (tx : Tx)
  | submit (call : SubmitCall)
  | reply (reply : HttpReply) (query : CadoQuery) (claim_write : Except EldError Unit)

/-- A submitter that starts between two blocks. -/
def SubmitterSystem.start (n : Node) (claims : List (String × Text)) : SubmitterSystem :=
  ⟨n, .new claims, none, []⟩

/-- The transaction of the wallet that a call of the node charges. -/
def chargedTx (n : Node) (request : Request) : Option Tx :=
  match dispatched o n request with
  | none => none
  | some (tx, _) => if tx.payload.inner.sender = sc.wallet.address then some tx else none

/-- One event. Nobody else uses the wallet, so a transaction that a block charges to it is one
of the submitter. Only one call at a time is in the lane. -/
def SubmitterSystem.step (pc : ProtocolConstants) (w : SubmitterSystem) :
    SubmitterEvent → Option SubmitterSystem
  | .chain request =>
    match w.node.step o pc request with
    | none => none
    | some node =>
      let observed := { w with
        node := node
        waiting := w.waiting.map (Submission.observe o pc w.node request) }
      match chargedTx o sc w.node request with
      | none => some observed
      | some tx =>
        if w.pending.contains tx then
          some { observed with pending := w.pending.filter (fun t => t != tx) }
        else none
  | .dropped tx => some { w with pending := w.pending.filter (fun t => t != tx) }
  | .submit call =>
    match w.waiting with
    | some _ => none
    | none =>
      match submit_verified_proof_until_send o sc w.node.conn.storage w.submitter call with
      | (.returned _, submitter) => some { w with submitter := submitter }
      | (.sent tx, submitter) => some { w with
          submitter := submitter
          waiting := some ⟨tx, call.challenge_id, [], []⟩
          pending := tx :: w.pending }
  | .reply reply query claim_write =>
    match w.waiting with
    | none => none
    | some sub =>
      if reply.truthful s sub then
        some { w with
          submitter := (submit_verified_proof_after_reply o s sc w.node.conn.storage w.submitter
            sub.tx.nonce sub.challenge_id reply query claim_write).2
          waiting := none
          pending := if reply.turnsAway s then w.pending.filter (fun t => t != sub.tx)
            else w.pending }
      else none

/-- No call is in the lane, and no transaction of the wallet can still be included. -/
def SubmitterSystem.Settled (w : SubmitterSystem) : Prop := w.waiting = none ∧ w.pending = []

/-- The nonce that the next call assigns, if it gets one. -/
def SubmitterSystem.nextNonce (w : SubmitterSystem) (query : CadoQuery) : Except EldError Nonce :=
  (w.submitter.nonce_sender.take_next_nonce
    (get_next_nonce_for_account_cado o w.node.conn.storage sc.wallet.address query)).1

end eld_chain
