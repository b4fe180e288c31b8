-- The application state as consensus reads it: a path is looked up in
-- the objects staged in this block, then in the committed ones, then in
-- the database. Here stand the lookups, the staging of accounts and the
-- indexes that are rebuilt from the committed objects.
import EldChain.Storage

open Std

namespace eld_chain

variable (o : Outside)

/-! ## Paths -/

def LATEST : Bytes32 := 0x5e1e2bcac305958b27077ca136f35f0abae7cf38c9af678f7d220ed0cb51d4f8#256

def CadoPath.is_infrastructure : CadoPath → Bool
  | .app_state_tip _ | .app_state_snapshot _ | .snapshot_metadata _ | .snapshot_chunk _ => true
  | _ => false

/-- The epoch as 64 hex digits. -/
def epoch_record_path_name (epoch : I64) : Except EldError Bytes32 :=
  if epoch.val < 0 then
    .error (.ValidationError "epoch" (toString epoch.val) "Epoch number must be non-negative")
  else .ok (BitVec.ofNat 256 epoch.val.toNat)

/-- The epoch that a path name spells: nothing for `LATEST`, or for any name above `i64`. -/
def epoch_from_record_path_name (name : Bytes32) : Option I64 :=
  if h : name.toNat < 2 ^ 63 then some ⟨name.toNat, by omega, by omega⟩ else none

def slug_to_namespace_cadopath (slug : Text) : Except EldError CadoPath :=
  match normalize_namespace_slug slug with
  | .error e => .error e
  | .ok canonical =>
    if is_reserved_namespace_slug canonical then
      .error (.ValidationError "namespace_slug" (String.ofList canonical)
        "Namespace slug is reserved")
    else .ok (.namespace_registry canonical)

/-! ## Lookups -/

/-- An object of the database, read as one of the chain state. -/
def CadoBody.chain? : CadoBody StoredData → Option (CadoBody CadoData)
  | .Immutable ⟨h, .chain d, m⟩ => some (.Immutable ⟨h, d, m⟩)
  | .Mutable ⟨h, .chain d, m, l⟩ => some (.Mutable ⟨h, d, m, l⟩)
  | _ => none

/-- The object at a path of the working state: staged in this block, or else committed. -/
def AppStateEnvelope.working (e : AppStateEnvelope) (path : CadoPath) :
    Option (CadoBody CadoData) :=
  e.cado_cache[path]?.or e.committed_cado_cache[path]?

def AppStateEnvelope.lookup_cado_staged_committed_then_db (e : AppStateEnvelope) (st : Storage)
    (path : CadoPath) : Option (CadoBody CadoData) :=
  match e.cado_cache[path]? with
  | some cado => some cado
  | none =>
    match e.committed_cado_cache[path]? with
    | some cado => some cado
    | none =>
      match st.get_cado_by_path o path with
      | .ok (some cado) => cado.chain?
      | .ok none => none
      | .error _ => none

structure AccountWithCadoHash where
  account : Account
  hash : Bytes32

structure StakingAccountWithCadoHash where
  account : StakingAccount
  hash : Bytes32

/-- The account that an object holds. -/
def CadoBody.account? : CadoBody CadoData → Option AccountWithCadoHash
  | .Mutable ⟨h, .account a, _, _⟩ => some ⟨a, h⟩
  | _ => none

/-- The staking account that an object holds. -/
def CadoBody.staking_account? : CadoBody CadoData → Option StakingAccountWithCadoHash
  | .Mutable ⟨h, .staking_account a, _, _⟩ => some ⟨a, h⟩
  | _ => none

def AppStateEnvelope.get_account_from_cado (e : AppStateEnvelope) (st : Storage)
    (address : Address) : Option AccountWithCadoHash :=
  (e.lookup_cado_staged_committed_then_db o st (.account address)).bind CadoBody.account?

def AppStateEnvelope.get_staking_account_from_cado (e : AppStateEnvelope) (st : Storage)
    (address : Address) : Option StakingAccountWithCadoHash :=
  (e.lookup_cado_staged_committed_then_db o st (.staking_account address)).bind
    CadoBody.staking_account?

def AppStateEnvelope.get_epoch_record (e : AppStateEnvelope) (st : Storage) (epoch : I64) :
    Except EldError (Option EpochRecord) :=
  match epoch_record_path_name epoch with
  | .error err => .error err
  | .ok name =>
    match e.lookup_cado_staged_committed_then_db o st (.epoch_record name) with
    | none => .ok none
    | some cado =>
      match cado.data with
      | .epoch_record r => .ok (some r)
      | _ => .error (.StorageError "deserialize_epoch_record" "Failed to deserialize EpochRecord")

/-! ## Staging -/

def AppStateEnvelope.update_cado_cache (e : AppStateEnvelope) (path : CadoPath)
    (cado : CadoBody CadoData) : AppStateEnvelope :=
  if path.is_infrastructure then e else { e with cado_cache := e.cado_cache.insert path cado }

def AppStateEnvelope.has_cado_in_working_set (e : AppStateEnvelope) (path : CadoPath) : Bool :=
  e.cado_cache.contains path || e.committed_cado_cache.contains path

/-- The next version of the account at an address. -/
def account_cado (address : Address) (hash : Bytes32) (account : Account) : CadoBody CadoData :=
  CadoBody.mutable_updated o hash (.account account) ⟨.Account, Address.text address⟩

/-- The next version of the staking account at an address. -/
def staking_account_cado (address : Address) (hash : Bytes32) (account : StakingAccount) :
    CadoBody CadoData :=
  CadoBody.mutable_updated o hash (.staking_account account)
    ⟨.StakingAccount, Address.text address⟩

/-- Stages the next version of an account, as every processor does it. -/
def AppStateEnvelope.stage_account (e : AppStateEnvelope) (address : Address) (hash : Bytes32)
    (account : Account) : AppStateEnvelope :=
  e.update_cado_cache (.account address) (account_cado o address hash account)

def AppStateEnvelope.stage_staking_account (e : AppStateEnvelope) (address : Address)
    (hash : Bytes32) (account : StakingAccount) : AppStateEnvelope :=
  e.update_cado_cache (.staking_account address) (staking_account_cado o address hash account)

/-! ## The dedup keys of verified proofs -/

def AppStateEnvelope.is_verified_proof_challenge_rewarded (e : AppStateEnvelope) (st : Storage)
    (challenge_id : Text) : Bool :=
  e.verified_proof_rewarded_cache.contains challenge_id || st.vp_rewarded.contains challenge_id

def AppStateEnvelope.is_verified_proof_challenge_failed (e : AppStateEnvelope) (st : Storage)
    (challenge_id : Text) : Bool :=
  e.failed_proof_counted_cache.contains challenge_id || st.vp_failed.contains challenge_id

/-! ## Namespaces -/

def AppStateEnvelope.is_namespace_registered_on_chain (e : AppStateEnvelope) (slug : Text) :
    Except EldError Bool :=
  match slug_to_namespace_cadopath slug with
  | .error err => .error err
  | .ok path => .ok (e.committed_cado_cache.contains path)

def AppStateEnvelope.validate_add_namespace_not_taken (e : AppStateEnvelope) (slug : Text) :
    Except EldError Unit :=
  match normalize_namespace_slug slug with
  | .error err => .error err
  | .ok canonical =>
    if e.namespace_registry_cache.contains canonical then
      .error (.ValidationError "namespace_slug" (String.ofList canonical)
        "Namespace already registered in this block")
    else
      match e.is_namespace_registered_on_chain canonical with
      | .error err => .error err
      | .ok true => .error (.ValidationError "namespace_slug" (String.ofList canonical)
          "Namespace already registered on chain")
      | .ok false => .ok ()

def AppStateEnvelope.resolve_namespace (e : AppStateEnvelope) (slug : Text) :
    Except EldError (Option NamespaceRecord) :=
  match normalize_namespace_slug slug with
  | .error err => .error err
  | .ok canonical =>
    match e.namespace_registry_cache[canonical]? with
    | some record => .ok (some record)
    | none =>
      match slug_to_namespace_cadopath canonical with
      | .error err => .error err
      | .ok path =>
        match e.committed_cado_cache[path]? with
        | none => .ok none
        | some cado =>
          match cado.data with
          | .namespace_record r => .ok (some r)
          | _ => .error (.StorageError "deserialize_namespace_record"
              "Failed to deserialize NamespaceRecord")

/-! ## Rebuilt indexes -/

/-- The cache is iterated by growing path. -/
def AppStateEnvelope.rebuild_state_trie_from_cache (e : AppStateEnvelope) : AppStateEnvelope :=
  { e with
    state_trie := e.committed_cado_cache.toList.foldl
      (fun t p => t.insert o p.1 p.2.content_hash) StateTrie.empty }

/-- The epoch of a record's path, `LATEST` and every other path excepted. -/
def epoch_number_from_record_path : CadoPath → Option I64
  | .epoch_record name => epoch_from_record_path_name name
  | _ => none

def epoch_numbers_from_committed_cache (cache : CadoCache) : ExtTreeSet I64 compare :=
  cache.toList.foldl (fun epochs p =>
    match epoch_number_from_record_path p.1 with
    | some epoch => epochs.insert epoch
    | none => epochs) ∅

def AppStateEnvelope.rebuild_epoch_records_index (e : AppStateEnvelope) : AppStateEnvelope :=
  { e with epoch_records_index := epoch_numbers_from_committed_cache e.committed_cado_cache }

def AppStateEnvelope.insert_epoch_records_index_from_path (e : AppStateEnvelope)
    (path : CadoPath) : AppStateEnvelope :=
  match epoch_number_from_record_path path with
  | some epoch => { e with epoch_records_index := e.epoch_records_index.insert epoch }
  | none => e

/-- The slug of a registry path that is not empty. -/
def namespace_slug_from_registry_path : CadoPath → Option Text
  | .namespace_registry [] => none
  | .namespace_registry slug => some slug
  | _ => none

/-- One step of the index rebuild: only an immutable object at a registry path counts, and
it must decode. -/
def namespaceIndexStep (index : ExtTreeMap Text NamespaceRecord compare)
    (p : CadoPath × CadoBody CadoData) :
    Except EldError (ExtTreeMap Text NamespaceRecord compare) :=
  match namespace_slug_from_registry_path p.1, p.2 with
  | some slug, .Immutable ⟨_, .namespace_record r, _⟩ => .ok (index.insert slug r)
  | some _, .Immutable _ => .error (.StorageError "deserialize_namespace_record"
      "Failed to deserialize NamespaceRecord")
  | _, _ => .ok index

def namespace_registry_index_from_committed_cache (cache : CadoCache) :
    Except EldError (ExtTreeMap Text NamespaceRecord compare) :=
  cache.toList.foldlM namespaceIndexStep ∅

/-! ## What staging changes -/

theorem stage_account_eq (e : AppStateEnvelope) (a : Address) (h : Bytes32) (acc : Account) :
    e.stage_account o a h acc =
      { e with cado_cache := e.cado_cache.insert (.account a) (account_cado o a h acc) } := rfl

theorem stage_staking_account_eq (e : AppStateEnvelope) (a : Address) (h : Bytes32)
    (acc : StakingAccount) :
    e.stage_staking_account o a h acc =
      { e with cado_cache :=
          e.cado_cache.insert (.staking_account a) (staking_account_cado o a h acc) } := rfl

/-- A lookup sees the last staged object first. -/
theorem lookup_staged (e : AppStateEnvelope) (st : Storage) (path p : CadoPath)
    (cado : CadoBody CadoData) :
    { e with cado_cache := e.cado_cache.insert path cado }.lookup_cado_staged_committed_then_db
        o st p =
      if path = p then some cado else e.lookup_cado_staged_committed_then_db o st p := by
  unfold AppStateEnvelope.lookup_cado_staged_committed_then_db
  rw [finite_map.get_insert]
  by_cases hp : path = p
  · simp [hp]
  · simp [hp]

@[simp]
theorem account_of_cado (a : Address) (h : Bytes32) (acc : Account) :
    (account_cado o a h acc).account? = some ⟨acc, h⟩ := rfl

@[simp]
theorem staking_account_of_cado (a : Address) (h : Bytes32) (acc : StakingAccount) :
    (staking_account_cado o a h acc).staking_account? = some ⟨acc, h⟩ := rfl

theorem get_account_stage_account (e : AppStateEnvelope) (st : Storage) (a b : Address)
    (h : Bytes32) (acc : Account) :
    (e.stage_account o a h acc).get_account_from_cado o st b =
      if a = b then some ⟨acc, h⟩ else e.get_account_from_cado o st b := by
  unfold AppStateEnvelope.get_account_from_cado
  rw [stage_account_eq, lookup_staged]
  by_cases hab : a = b <;> simp [hab]

theorem get_account_stage_staking (e : AppStateEnvelope) (st : Storage) (a b : Address)
    (h : Bytes32) (acc : StakingAccount) :
    (e.stage_staking_account o a h acc).get_account_from_cado o st b =
      e.get_account_from_cado o st b := by
  unfold AppStateEnvelope.get_account_from_cado
  rw [stage_staking_account_eq, lookup_staged]
  simp

theorem get_staking_stage_account (e : AppStateEnvelope) (st : Storage) (a b : Address)
    (h : Bytes32) (acc : Account) :
    (e.stage_account o a h acc).get_staking_account_from_cado o st b =
      e.get_staking_account_from_cado o st b := by
  unfold AppStateEnvelope.get_staking_account_from_cado
  rw [stage_account_eq, lookup_staged]
  simp

theorem get_staking_stage_staking (e : AppStateEnvelope) (st : Storage) (a b : Address)
    (h : Bytes32) (acc : StakingAccount) :
    (e.stage_staking_account o a h acc).get_staking_account_from_cado o st b =
      if a = b then some ⟨acc, h⟩ else e.get_staking_account_from_cado o st b := by
  unfold AppStateEnvelope.get_staking_account_from_cado
  rw [stage_staking_account_eq, lookup_staged]
  by_cases hab : a = b <;> simp [hab]

end eld_chain
