-- The chain as a whole: a node starts from the accounts of its
-- configuration and the validators of InitChain, and Tendermint then
-- calls BeginBlock, DeliverTx, EndBlock and Commit, block after block.
-- Between the calls a user may upload the blob of a message.
import EldChain.Commit
import EldChain.Library.Runs

open Std

namespace eld_chain

variable (o : Outside) (pc : ProtocolConstants)

/-! ## Genesis -/

/-- A validator of RequestInitChain: its power, and its key if it is an Ed25519 key. -/
structure GenesisValidator where
  power : I64
  ed25519 : Option Bytes

/-- The configured accounts under their names, the chain id and the genesis validators. -/
structure GenesisConfig where
  chain_id : String
  accounts : List (Text × Account)
  validators : List GenesisValidator

/-- The order of `ordered_accounts`: by address, then by name. -/
def compareConfigAccounts (a b : Text × Account) : Ordering :=
  (compare a.2.address b.2.address).then (compare a.1 b.1)

def genesis_account_cado (account : Account) : CadoBody CadoData :=
  CadoBody.mutable_new o (.account account) ⟨.Account, Address.text account.address⟩

/-- A fresh start stages the configured accounts in the committed state. -/
def fresh_start (cfg : GenesisConfig) : AppState :=
  let ordered_accounts :=
    cfg.accounts.insertionSort (fun a b => (compareConfigAccounts a b).isLE = true)
  { AppState.default with
    chain_id := cfg.chain_id
    envelope := ordered_accounts.foldl (fun e p =>
      e.update_cado_cache (.account p.2.address) (genesis_account_cado o p.2))
      AppStateEnvelope.default }

/-- The stake of a genesis validator: a negative power counts as 0. -/
def genesisStake (power : I64) : Except EldError Coin := Coin.new power.val.toNat

/-- One validator of InitChain. A key or a power that is not valid skips it, and an account
is staged for it unless there is one. -/
def initValidator (acc : List ValidatorInfo × AppStateEnvelope) (v : GenesisValidator) :
    List ValidatorInfo × AppStateEnvelope :=
  match v.ed25519 with
  | none => acc
  | some bytes =>
    if bytes.length ≠ 32 then acc
    else
      match o.verifying_key (bytes.flatMap (fun b => hexDigits 2 b.toNat)) with
      | none => acc
      | some key =>
        match genesisStake v.power with
        | .error _ => acc
        | .ok stake =>
          let address := o.address_of_key key
          (acc.1 ++ [⟨address, stake, bytes⟩],
            if acc.2.has_cado_in_working_set (.account address) then acc.2
            else acc.2.update_cado_cache (.account address)
              (genesis_account_cado o ⟨address, stake, Nonce.zero⟩))

def init_chain_inner (s : AppState) (validators : List GenesisValidator) : AppState :=
  let done := validators.foldl (initValidator o) ([], s.envelope)
  select_active_capacity_validator_for_epoch o pc
    { s with
      envelope := { done.2 with
        validators := done.1
        active_validators := (sortedValidators done.1).take pc.validators_per_epoch } }
    I64.zero

/-! ## The node -/

/-- Where the node is in a block. -/
inductive Phase
  | idle
  | delivering
  | ended
deriving DecidableEq

structure Node where
  phase : Phase
  conn : ConsensusConnection

/-- The node after InitChain, with an empty database. -/
def genesis (cfg : GenesisConfig) : Node where
  phase := .idle
  conn := ⟨init_chain_inner o pc (fresh_start o cfg) cfg.validators, none, Storage.empty⟩

/-- What reaches a node from outside. -/
inductive Request
  | BeginBlock
  | DeliverTx (request : Except ResponseDeliverTx Tx)
  | EndBlock (height : I64)
  | Commit
  | UploadBlob (content_key : Text) (blob : Bytes)

/-- One call. There is no next state when Tendermint makes no such call in this phase, or
when the call ends the process. Block heights only grow. -/
def Node.step (n : Node) : Request → Option Node
  | .BeginBlock =>
    if n.phase = .idle then some ⟨.delivering, begin_block_inner n.conn⟩ else none
  | .DeliverTx request =>
    if n.phase = .delivering then some ⟨.delivering, (deliver_tx_inner o pc n.conn request).2⟩
    else none
  | .EndBlock height =>
    if n.phase = .delivering ∧
        n.conn.committed_state.envelope.block_height.val < height.val then
      match end_block_inner o pc n.conn height with
      | .error _ => none
      | .ok (_, conn) => some ⟨.ended, conn⟩
    else none
  | .Commit =>
    if n.phase = .ended then
      match commit_inner o pc n.conn with
      | .error _ => none
      | .ok conn => some ⟨.idle, conn⟩
    else none
  | .UploadBlob content_key blob =>
    some ⟨n.phase, { n.conn with storage := { n.conn.storage with
      pinboard_temp_blobs := n.conn.storage.pinboard_temp_blobs.insert content_key blob } }⟩

/-- The calls that lead from genesis to a node. -/
def RunsTo (cfg : GenesisConfig) (requests : List Request) (n : Node) : Prop :=
  runs.run (Node.step o pc) requests (genesis o pc cfg) = some n

def Reachable (cfg : GenesisConfig) (n : Node) : Prop := ∃ requests, RunsTo o pc cfg requests n

/-- The working state: the one of the open block, or the committed one between blocks. -/
def Node.state (n : Node) : AppState :=
  match n.phase with
  | .idle => n.conn.committed_state
  | _ => n.conn.current_state.getD n.conn.committed_state

/-! ## A small chain to evaluate -/

/-- A local chain with epochs of two blocks. -/
def smallConstants : ProtocolConstants :=
  { ProtocolConstants.local_dev with
    blocks_per_epoch := ⟨2, by decide, by decide⟩
    blocks_pos := by decide }

def alice : Address := Outside.toy.address_of_key 1

def bob : Address := Outside.toy.address_of_key 2

/-- Alice has a million base units, and Bob has as many as an account can hold. -/
def smallConfig : GenesisConfig where
  chain_id := "small"
  accounts := [("alice".toList, ⟨alice, ⟨1000000, by decide⟩, Nonce.zero⟩),
    ("bob".toList, ⟨bob, ⟨MAX_COIN, by decide⟩, Nonce.zero⟩)]
  validators := []

/-- A transaction of the holder of a key, with the base fee. -/
def signed (key : Nat) (nonce : UInt32) (type_ : String) (inner : PayloadInner) : Tx where
  sig := hexDigits 128 key
  nonce := ⟨nonce⟩
  payload := ⟨type_.toList, inner⟩
  public_key := hexDigits 64 key
  fee := 1000

/-- A block number of the small chain. -/
def smallHeight (n : UInt8) : I64 where
  val := n.toNat
  lo := by omega
  hi := by have := n.toNat_lt; omega

theorem smallHeight_two_pos : 0 < (smallHeight 2).val := by decide

theorem smallHeight_three_pos : 0 < (smallHeight 3).val := by decide

/-- An address that has no account yet. -/
def carol : Address := 7

theorem alice_ne_bob : alice ≠ bob := by decide

theorem alice_ne_carol : alice ≠ carol := by decide

/-- Alice sends base units, one at least. -/
def aliceSends (nonce : UInt32) (recipient : Address) (distinct : alice ≠ recipient)
    (amount : UInt32) : Tx :=
  signed 1 nonce "Transfer" (.Transfer {
    sender := alice
    recipient := recipient
    amount := max 1 amount.toNat
    sender_ne_recipient := distinct
    amount_pos := by omega
    amount_le := by
      have := amount.toNat_lt
      unfold MAX_COIN
      omega })

/-- Alice stakes, and names a key for her node. -/
def aliceStakes (nonce : UInt32) (key : Char) (hex : (hexVal key).isSome) : Tx :=
  signed 1 nonce "Stake" (.Stake {
    sender := alice
    amount := 100
    public_key := some (List.replicate 64 key)
    amount_pos := by omega
    amount_le := by unfold MAX_COIN; omega
    key_hex := by
      intro pk hpk
      cases hpk
      refine ⟨List.length_replicate, fun c hc => ?_⟩
      rw [List.eq_of_mem_replicate hc]
      exact hex })

theorem hexVal_a : (hexVal 'a').isSome := by decide

/-- Alice registers one chunk of storage. -/
def registration : Tx :=
  signed 1 1 "RegisterCapacity" (.RegisterCapacity
    ⟨alice, 1, hash_chunk Outside.toy [1], 9, 1, by decide⟩)

/-- The id of the challenge that Alice issues to herself at a height of the first epoch. -/
def aliceChallenge (height : I64) : ChallengeId :=
  compute_challenge_id Outside.toy alice alice height
    (select_challenge_chunk_indices Outside.toy (epochOf smallConstants height) alice height alice 1
      smallConstants.chunks_per_challenge)

theorem id_length : 0 < 64 ∧ 64 ≤ 100 := by decide

theorem minTimestamp_range : MIN_TIMESTAMP ≤ MIN_TIMESTAMP ∧ MIN_TIMESTAMP ≤ MAX_TIMESTAMP := by
  decide

/-- Alice's answer to that challenge, with the chunk that she stored or with another one. -/
def answer (nonce : UInt32) (challenge_id : Text)
    (safe : validate_verified_proof_challenge_id challenge_id = .ok ()) (height : I64)
    (pos : 0 < height.val) (stored : Bool) : Tx :=
  signed 1 nonce "VerifiedProof" (.VerifiedProof {
    sender := alice
    capacity_provider := alice
    challenge_id := challenge_id
    block_height := height
    verified_at_block := height
    verified_at_timestamp := MIN_TIMESTAMP
    proofs := [⟨0, if stored then [1] else [2],
      hash_chunk Outside.toy (if stored then [1] else [2]), [], .Proof, zero_lt_u64⟩]
    generated_at := MIN_TIMESTAMP
    provider_pubkey := hexDigits 64 1
    provider_signature := "00".toList
    failed := !stored
    id_safe := safe
    height_pos := pos
    verified_after := Int.le_refl _
    verified_at_range := minTimestamp_range
    proofs_nonempty := List.cons_ne_nil _ _
    generated_at_range := minTimestamp_range
    pubkey_nonempty := List.cons_ne_nil _ _
    signature_nonempty := List.cons_ne_nil _ _ })

theorem oneByte_ne : (1 : UInt64) ≠ 0 := by decide

/-- Alice registers some chunks of storage under a root. -/
def registers (merkle_root : Bytes32) (chunk_count : UInt32) : Tx :=
  signed 1 1 "RegisterCapacity" (.RegisterCapacity
    ⟨alice, 1, merkle_root, 9, chunk_count, oneByte_ne⟩)

/-- An answer of Alice to a challenge of height 2, with any proofs. -/
def answerWith (challenge_id : Text)
    (safe : validate_verified_proof_challenge_id challenge_id = .ok ()) (proofs : List ChunkProof)
    (nonempty : proofs ≠ []) (failed : Bool) : VerifiedProofTx where
  sender := alice
  capacity_provider := alice
  challenge_id := challenge_id
  block_height := smallHeight 2
  verified_at_block := smallHeight 2
  verified_at_timestamp := MIN_TIMESTAMP
  proofs := proofs
  generated_at := MIN_TIMESTAMP
  provider_pubkey := hexDigits 64 1
  provider_signature := "00".toList
  failed := failed
  id_safe := safe
  height_pos := smallHeight_two_pos
  verified_after := Int.le_refl _
  verified_at_range := minTimestamp_range
  proofs_nonempty := nonempty
  generated_at_range := minTimestamp_range
  pubkey_nonempty := List.cons_ne_nil _ _
  signature_nonempty := List.cons_ne_nil _ _

/-- A whole block with these transactions. -/
def block (height : I64) (txs : List Tx) : List Request :=
  .BeginBlock :: txs.map (fun tx => .DeliverTx (.ok tx)) ++ [.EndBlock height, .Commit]

/-- Alice registers, the first epoch opens at height 2, and a third block begins. -/
def firstEpoch : List Request :=
  block (smallHeight 1) [registration] ++ block (smallHeight 2) [] ++
    [.BeginBlock]

/-- The blocks up to the first epoch, with another registration. -/
def epochAfter (registration : Tx) : List Request :=
  block (smallHeight 1) [registration] ++ block (smallHeight 2) [] ++ [.BeginBlock]

/-- Alice answers the challenge of the first epoch. -/
def firstAnswer (stored : Bool) : Request :=
  .DeliverTx (.ok (answer 2 (aliceChallenge (smallHeight 2)).to_hex (hex_id_safe 64 _ id_length)
    (smallHeight 2) smallHeight_two_pos stored))

/-- The node that these calls lead to on the small chain, if none of them ends it. -/
def smallRun (requests : List Request) : Option Node :=
  runs.run (Node.step Outside.toy smallConstants) requests
    (genesis Outside.toy smallConstants smallConfig)

/-- What evaluating a run of the small chain shows. -/
theorem smallRun_ends {requests : List Request} {p : Node → Bool}
    (h : (smallRun requests).any p = true) :
    ∃ n, RunsTo Outside.toy smallConstants smallConfig requests n ∧ p n = true :=
  (Option.any_eq_true p _).mp h

end eld_chain
