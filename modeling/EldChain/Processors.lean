-- The payload processors other than VerifiedProof. Each one reads the
-- working state, checks, and stages its writes one after another, in the
-- order of the Rust code: transfer, stake and unstake stage the debit
-- before they compute the credit.
import EldChain.Envelope
import EldChain.Responses

open Std

namespace eld_chain

variable (o : Outside) (pc : ProtocolConstants) (st : Storage)

/-! ## Accounts that may not exist yet -/

/-- The account at an address, or a new one with no coins and the zero hash. -/
def AppStateEnvelope.account_or_new (e : AppStateEnvelope) (address : Address) :
    AccountWithCadoHash :=
  (e.get_account_from_cado o st address).getD ⟨⟨address, Coin.zero, Nonce.zero⟩, 0⟩

/-- The staking account of an address, or a new one of its own. -/
def AppStateEnvelope.staking_account_or_new (e : AppStateEnvelope) (address : Address) :
    StakingAccountWithCadoHash :=
  (e.get_staking_account_from_cado o st address).getD ⟨⟨address, Coin.zero, address⟩, 0⟩

/-! ## Coins that move -/

def process_transfer_tx (e : AppStateEnvelope) (tx : TransferTx) :
    ResponseDeliverTx × AppStateEnvelope :=
  match Coin.new tx.amount with
  | .error err => (response_deliver_tx_error_validation_failed err.to_string, e)
  | .ok amount_coin =>
    match e.get_account_from_cado o st tx.sender with
    | none =>
      (response_deliver_tx_error_sender_doesnt_exist (Address.hex_with_prefix tx.sender), e)
    | some sender =>
      let recipient := e.account_or_new o st tx.recipient
      if sender.account.balance.amount < amount_coin.amount then
        (response_deliver_tx_error_insufficient_funds, e)
      else
        match sender.account.balance.sub amount_coin with
        | .error err => (response_deliver_tx_error_validation_failed err.to_string, e)
        | .ok balance =>
          let e1 := e.stage_account o tx.sender sender.hash { sender.account with balance }
          match recipient.account.balance.add amount_coin with
          -- the debit is staged already
          | .error err => (response_deliver_tx_error_validation_failed err.to_string, e1)
          | .ok balance =>
            (okResponse "Transfer transaction processed successfully"
              [⟨"Transfer", [create_event_attribute "sender" (Address.hex_with_prefix tx.sender),
                create_event_attribute "recipient" (Address.hex_with_prefix tx.recipient),
                create_event_attribute "amount" (toString tx.amount)]⟩],
              e1.stage_account o tx.recipient recipient.hash { recipient.account with balance })

/-- The bytes of 64 hex digits, as `hex::decode` gives them. -/
def hexBytes : Text → Option Bytes
  | [] => some []
  | [_] => none
  | c :: d :: rest =>
    match hexVal c, hexVal d, hexBytes rest with
    | some hi, some lo, some bytes => some (UInt8.ofNat (16 * hi + lo) :: bytes)
    | _, _, _ => none

/-- Updates the first validator with an address. -/
def updateFirst {α : Type} (p : α → Bool) (f : α → α) : List α → List α
  | [] => []
  | x :: xs => if p x then f x :: xs else x :: updateFirst p f xs

/-- The validator list after a stake with a public key. -/
def upsertValidator (validators : List ValidatorInfo) (address : Address) (stake : Coin)
    (public_key : Bytes) : List ValidatorInfo :=
  if validators.any (fun v => v.address == address) then
    updateFirst (fun v => v.address == address) (fun v => { v with stake, public_key }) validators
  else validators ++ [⟨address, stake, public_key⟩]

def stakeOk (tx : StakeTx) : ResponseDeliverTx :=
  okResponse "Stake transaction processed successfully"
    [⟨"Stake", [create_event_attribute "sender" (Address.hex_with_prefix tx.sender),
      create_event_attribute "amount" (toString tx.amount)]⟩]

/-- The stake after the checks: it debits the sender, credits the stake and lists the
validator. -/
def stageStake (e : AppStateEnvelope) (tx : StakeTx) (sender : AccountWithCadoHash)
    (amount_coin : Coin) : ResponseDeliverTx × AppStateEnvelope :=
  match sender.account.balance.sub amount_coin with
  | .error err => (response_deliver_tx_error_validation_failed err.to_string, e)
  | .ok balance =>
    let staking := e.staking_account_or_new o st tx.sender
    let e1 := e.stage_account o tx.sender sender.hash { sender.account with balance }
    match staking.account.stake_balance.add amount_coin with
    -- the debit is staged already
    | .error err => (response_deliver_tx_error_validation_failed err.to_string, e1)
    | .ok stake_balance =>
      let e2 := e1.stage_staking_account o tx.sender staking.hash
        { staking.account with stake_balance }
      match tx.public_key with
      | none => (stakeOk tx, e2)
      | some public_key =>
        match hexBytes public_key with
        | none => (response_deliver_tx_error_invalid_public_key_format, e2)
        | some public_key_bytes =>
          if public_key_bytes.length ≠ 32 then
            (response_deliver_tx_error_invalid_public_key_length, e2)
          else
            (stakeOk tx, { e2 with
              validators := upsertValidator e2.validators tx.sender stake_balance public_key_bytes })

def process_stake_tx (e : AppStateEnvelope) (tx : StakeTx) :
    ResponseDeliverTx × AppStateEnvelope :=
  match Coin.new tx.amount with
  | .error err => (response_deliver_tx_error_validation_failed err.to_string, e)
  | .ok amount_coin =>
    match e.get_account_from_cado o st tx.sender with
    | none =>
      (response_deliver_tx_error_sender_doesnt_exist (Address.hex_with_prefix tx.sender), e)
    | some sender =>
      if sender.account.balance.amount < amount_coin.amount then
        (response_deliver_tx_error_insufficient_funds, e)
      else
        let existing_stake := (e.staking_account_or_new o st tx.sender).account.stake_balance
        -- the first stake must meet the minimum, a later one may be any positive amount
        if existing_stake.is_zero then
          if amount_coin.amount < pc.min_stake_amount.amount then
            (response_deliver_tx_error_minimum_stake, e)
          else stageStake o st e tx sender amount_coin
        else if amount_coin.is_zero then
          (response_deliver_tx_error_validation_failed "Stake amount cannot be zero", e)
        else stageStake o st e tx sender amount_coin

def process_unstake_tx (e : AppStateEnvelope) (tx : UnstakeTx) :
    ResponseDeliverTx × AppStateEnvelope :=
  match Coin.new tx.amount with
  | .error err => (response_deliver_tx_error_validation_failed err.to_string, e)
  | .ok amount_coin =>
    match e.get_account_from_cado o st tx.sender with
    | none =>
      (response_deliver_tx_error_sender_doesnt_exist (Address.hex_with_prefix tx.sender), e)
    | some sender =>
      match e.get_staking_account_from_cado o st tx.sender with
      | none => (response_deliver_tx_error_insufficient_stake, e)
      | some staking =>
        if staking.account.stake_balance.amount < amount_coin.amount then
          (response_deliver_tx_error_insufficient_stake, e)
        else
          match staking.account.stake_balance.sub amount_coin with
          | .error err => (response_deliver_tx_error_validation_failed err.to_string, e)
          | .ok stake_balance =>
            let e1 := e.stage_staking_account o tx.sender staking.hash
              { staking.account with stake_balance }
            match sender.account.balance.add amount_coin with
            -- the stake is debited already
            | .error err => (response_deliver_tx_error_validation_failed err.to_string, e1)
            | .ok balance =>
              (okResponse "Unstake transaction processed successfully"
                [⟨"Unstake", [create_event_attribute "sender" (Address.hex_with_prefix tx.sender),
                  create_event_attribute "amount" (toString tx.amount)]⟩],
                e1.stage_account o tx.sender sender.hash { sender.account with balance })

/-! ## Capacity registrations -/

/-- The new entry of a registration. -/
def newCapacityValidator (tx : RegisterCapacityTx) (public_key : Bytes32) (height : I64) :
    CapacityValidatorInfo where
  address := tx.sender
  stake := Coin.zero
  public_key := public_key
  storage_capacity := tx.capacity_bytes
  merkle_root := some tx.merkle_root
  seed := some tx.seed
  chunk_count := some tx.chunk_count
  registered_at := some (asU64 height.val)
  last_merkle_root_update := some (asU64 height.val)
  registered_block := asU64 (height.val + 1)
  registration_duration := pc.registration_duration_blocks

/-- An entry that registers again. -/
def renewCapacityValidator (tx : RegisterCapacityTx) (height : I64)
    (provider : CapacityValidatorInfo) : CapacityValidatorInfo :=
  { provider with
    merkle_root := some tx.merkle_root
    seed := some tx.seed
    chunk_count := some tx.chunk_count
    storage_capacity := tx.capacity_bytes
    registered_at := provider.registered_at.or (some (asU64 height.val))
    last_merkle_root_update := some (asU64 height.val)
    registered_block := asU64 (height.val + 1)
    registration_duration := pc.registration_duration_blocks }

def process_register_capacity_tx (e : AppStateEnvelope) (tx : RegisterCapacityTx)
    (outer_public_key : Text) : ResponseDeliverTx × AppStateEnvelope :=
  match o.verifying_key outer_public_key with
  | none => (response_deliver_tx_error_invalid_public_key_format, e)
  | some public_key =>
    if tx.sender ≠ o.address_of_key public_key then
      (response_deliver_tx_error_validation_failed
        "RegisterCapacity sender does not match outer tx public_key", e)
    else
      match e.get_account_from_cado o st tx.sender with
      | none =>
        (response_deliver_tx_error_sender_doesnt_exist (Address.hex_with_prefix tx.sender), e)
      | some _ =>
        let height := e.block_height
        let ok := okResponse "RegisterCapacity transaction processed successfully"
          [⟨"RegisterCapacity",
            [create_event_attribute "sender" (Address.hex_with_prefix tx.sender),
              create_event_attribute "capacity_bytes" (toString tx.capacity_bytes),
              create_event_attribute "chunk_count" (toString tx.chunk_count),
              create_event_attribute "merkle_root" (String.ofList (hexDigits 64 tx.merkle_root.toNat)),
              create_event_attribute "seed" (String.ofList (hexDigits 64 tx.seed.toNat)),
              create_event_attribute "registered_at" (toString height.val)]⟩]
        match e.capacity_validators.find? (fun p => p.address == tx.sender) with
        | none =>
          (ok, { e with capacity_validators :=
            e.capacity_validators ++ [newCapacityValidator pc tx public_key height] })
        | some provider =>
          if provider.public_key ≠ public_key then
            (response_deliver_tx_error_validation_failed
              "capacity_validators public key conflict for address", e)
          else
            (ok, { e with
              capacity_validators := updateFirst (fun p => p.address == tx.sender)
                (renewCapacityValidator pc tx height) e.capacity_validators })

def process_unregister_capacity_tx (e : AppStateEnvelope) (tx : UnregisterCapacityTx) :
    ResponseDeliverTx × AppStateEnvelope :=
  match e.get_account_from_cado o st tx.sender with
  | none =>
    (response_deliver_tx_error_sender_doesnt_exist (Address.hex_with_prefix tx.sender), e)
  | some _ =>
    (okResponse "UnregisterCapacity transaction processed successfully"
      [⟨"UnregisterCapacity",
        [create_event_attribute "sender" (Address.hex_with_prefix tx.sender),
          create_event_attribute "unregister" (toString tx.unregister)]⟩],
      { e with capacity_validators :=
        e.capacity_validators.filter (fun p => p.address != tx.sender) })

def process_update_capacity_merkle_root_tx (e : AppStateEnvelope)
    (tx : UpdateCapacityMerkleRootTx) : ResponseDeliverTx × AppStateEnvelope :=
  match e.get_account_from_cado o st tx.sender with
  | none =>
    (response_deliver_tx_error_sender_doesnt_exist (Address.hex_with_prefix tx.sender), e)
  | some _ =>
    if e.capacity_validators.any (fun p => p.address == tx.sender) then
      (okResponse "UpdateCapacityMerkleRoot transaction processed successfully"
        [⟨"UpdateCapacityMerkleRoot",
          [create_event_attribute "sender" (Address.hex_with_prefix tx.sender),
            create_event_attribute "merkle_root"
              (String.ofList (hexDigits 64 tx.merkle_root.toNat)),
            create_event_attribute "block_height" (toString e.block_height.val)]⟩],
        { e with
          capacity_validators := updateFirst (fun p => p.address == tx.sender)
            (fun p => { p with
              merkle_root := some tx.merkle_root
              last_merkle_root_update := some (asU64 e.block_height.val) })
            e.capacity_validators })
    else
      (response_deliver_tx_error_validation_failed ("Capacity provider '"
        ++ Address.hex_with_prefix tx.sender ++ "' not registered. Must register capacity first."), e)

/-! ## Messages and namespaces -/

/-- `validate_namespace_upload_authorization`: a post into a namespace comes from its owner. -/
def validate_namespace_upload_authorization (namespace_ : Option Text) (signer : Address)
    (lookup : Text → Except EldError (Option NamespaceRecord)) :
    Except EldError (Option Text) :=
  match resolve_optional_namespace namespace_ with
  | .error err => .error err
  | .ok none => .ok none
  | .ok (some canonical) =>
    match lookup canonical with
    | .error err => .error err
    | .ok none => .error (.ValidationError "namespace" (String.ofList canonical)
        "Namespace is not registered")
    | .ok (some record) =>
      if record.owner ≠ signer then
        .error (.ValidationError "namespace" (String.ofList canonical)
          "Signer is not the namespace owner")
      else .ok (some canonical)

/-- The metadata that a post stages, with the expiry as an absolute height. -/
def postMetadata (tx : PostMessageTx) (committed_height : UInt64) : PinboardMessageMetadata where
  message_id := tx.message_id
  original_signer := tx.original_signer
  content_key := tx.content_key
  content_type := tx.content_type
  expires_height := UInt64.saturating_add committed_height
    (if tx.expires_height = 0 then pc.default_pinboard_post_ttl_blocks else tx.expires_height)
  visibility := tx.visibility
  topic := tx.topic
  tags := tx.tags
  committed_height := committed_height
  received_timestamp := tx.received_timestamp
  namespace_ := tx.namespace_

/-- Whether the blob is held locally only decides if the node asks its peers for it. -/
def process_post_message_tx (e : AppStateEnvelope) (tx : PostMessageTx) :
    ResponseDeliverTx × AppStateEnvelope :=
  match validate_namespace_upload_authorization tx.namespace_ tx.original_signer
      e.resolve_namespace with
  | .error err => (response_deliver_tx_error_validation_failed err.to_string, e)
  | .ok _ =>
    let committed_height := asU64 (e.block_height.val + 1)
    let metadata := postMetadata pc tx committed_height
    let id := metadata.message_id
    ({ code := 0 }, { e with
      pinboard_meta_cache := e.pinboard_meta_cache.insert id metadata
      pinboard_idx_wallet_add :=
        e.pinboard_idx_wallet_add ++ [(Address.text metadata.original_signer, committed_height, id)]
      pinboard_idx_tag_add :=
        e.pinboard_idx_tag_add ++ metadata.tags.map (fun tag => (tag, committed_height, id))
      pinboard_idx_expiry_add := e.pinboard_idx_expiry_add ++ [(metadata.expires_height, id)]
      pinboard_idx_commit_add := e.pinboard_idx_commit_add ++ [(committed_height, id)]
      pinboard_refcount_deltas := e.pinboard_refcount_deltas.insert metadata.content_key
        (e.pinboard_refcount_deltas.getD metadata.content_key 0 + 1) })

/-- The registration after the checks: it debits the fee and stages the record. -/
def stageNamespace (e : AppStateEnvelope) (tx : AddNamespaceTx) (registration_fee : Coin) :
    ResponseDeliverTx × AppStateEnvelope :=
  match e.get_account_from_cado o st tx.sender with
  | none =>
    (response_deliver_tx_error_sender_doesnt_exist (Address.hex_with_prefix tx.sender), e)
  | some sender =>
    if sender.account.balance.amount < registration_fee.amount then
      (response_deliver_tx_error_insufficient_funds, e)
    else
      match sender.account.balance.sub registration_fee with
      | .error err => (response_deliver_tx_error_validation_failed err.to_string, e)
      | .ok balance =>
        let e1 := e.stage_account o tx.sender sender.hash
          ⟨tx.sender, balance, sender.account.nonce⟩
        (okResponse "AddNamespace transaction staged successfully"
          [⟨"AddNamespace",
            [create_event_attribute "namespace" (String.ofList tx.namespace_slug),
              create_event_attribute "owner" (Address.hex_with_prefix tx.sender),
              create_event_attribute "registry_path"
                ("/@eld/namespace/" ++ String.ofList tx.namespace_slug)]⟩],
          { e1 with
            namespace_registry_cache := e1.namespace_registry_cache.insert tx.namespace_slug
              ⟨tx.namespace_slug, tx.sender, asU64 (e.block_height.val + 1)⟩ })

def process_add_namespace_tx (e : AppStateEnvelope) (tx : AddNamespaceTx) :
    ResponseDeliverTx × AppStateEnvelope :=
  match Coin.new tx.registration_fee with
  | .error err => (response_deliver_tx_error_validation_failed err.to_string, e)
  | .ok registration_fee =>
    match e.validate_add_namespace_not_taken tx.namespace_slug with
    | .error err => (response_deliver_tx_error_validation_failed err.to_string, e)
    | .ok () =>
      match slug_to_namespace_cadopath tx.namespace_slug with
      | .error err => (response_deliver_tx_error_validation_failed err.to_string, e)
      | .ok _ =>
        if registration_fee = Coin.zero then
          (response_deliver_tx_error_validation_failed
            "registration_fee must be greater than zero", e)
        else stageNamespace o st e tx registration_fee

end eld_chain
