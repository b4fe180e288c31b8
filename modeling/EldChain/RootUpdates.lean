-- The root of a provider, on the chain and in its node. The registry shows
-- the root of the last transaction of the provider that took effect, the
-- tree has the root that the node submitted last, and a challenge names
-- the root that the registry showed when the epoch opened.
import EldChain.AnswerableChallenges
import EldChain.BuilderFees
import EldChain.CapacityRegistry
import EldChain.ChallengeVerdicts
import EldChain.ProverVerifier
import EldChain.StorageSoundness

open Std

namespace eld_chain

open fallible CapacityProofMerkleTree

/-! ## What the node submits -/

/-- The capacity, the seed and the root that a registration is made of. -/
def get_registration_info : Prog (Nat × Bytes32 × Bytes32) := do
  match (← get).slot_allocator.slot_map with
  | none => throw (storageError "get_registration_info"
      "Slot map not loaded - capacity not allocated")
  | some slot_map => do
    let merkle_root ← get_merkle_root
    pure (slot_map.capacity_bytes, slot_map.seed, merkle_root)

/-- `capacity_bytes.div_ceil(MAX_CHUNK_SIZE as u64) as u32`. -/
def registered_chunk_count (capacity_bytes : Nat) : UInt32 :=
  UInt32.ofNat ((capacity_bytes + (MAX_CHUNK_SIZE - 1)) / MAX_CHUNK_SIZE)

section
variable (o : Outside) (fl : Floats) (cfg : FeeConfig fl) (wallet : Wallet) (chain_id : String)
variable (next_nonce : Nonce)

/-- The registration that is sent. `is_registered` is always false, so one is sent at every
start; the sender is the wallet of the capacity validator. -/
def register_capacity_onchain (capacity_bytes : Nat) (seed merkle_root : Bytes32) :
    Except EldError Tx :=
  submit_capacity_registration_tx o fl cfg wallet chain_id next_nonce
    (Address.hex_with_prefix wallet.address).toList (UInt64.ofNat capacity_bytes) seed merkle_root
    (registered_chunk_count capacity_bytes)

end

/-- What a node asks its client to send. -/
inductive RootSubmission
  | submit_merkle_root_update (new_merkle_root : Bytes32)
  | register_capacity_onchain (capacity_bytes : Nat) (seed merkle_root : Bytes32)

def RootSubmission.root : RootSubmission → Bytes32
  | .submit_merkle_root_update new_merkle_root => new_merkle_root
  | .register_capacity_onchain _ _ merkle_root => merkle_root

/-- Runs after the first commit of a process. An error of `get_registration_info` is only
logged. -/
def submit_registration_if_allocated : Prog (Option RootSubmission) := fun s =>
  if s.disk.slots_file.isSome then
    match get_registration_info s with
    | .ok info t => .ok (some (.register_capacity_onchain info.1 info.2.1 info.2.2)) t
    | .error .panic t => .error .panic t
    | .error (.error _) t => .ok none t
  else .ok none s

/-- The wallet and the nonce that the client finds for a submission. -/
structure Client where
  wallet : Wallet
  next_nonce : Nonce

/-- What the transactions of a node are made with. -/
structure ProviderConfig where
  floats : Floats
  fee_config : FeeConfig floats
  chain_id : String

/-- The transaction that goes out for a submission: none where the client finds no wallet or no
nonce, or where none can be built. -/
def RootSubmission.tx (o : Outside) (config : ProviderConfig) (provider_id : Address)
    (client : Option Client) (submission : RootSubmission) : Option Tx :=
  client.bind (fun c =>
    match submission with
    | .submit_merkle_root_update new_merkle_root =>
      (eld_chain.submit_merkle_root_update o config.floats config.fee_config c.wallet config.chain_id
        c.next_nonce provider_id new_merkle_root).toOption
    | .register_capacity_onchain capacity_bytes seed merkle_root =>
      (eld_chain.register_capacity_onchain o config.floats config.fee_config c.wallet
        config.chain_id c.next_nonce capacity_bytes seed merkle_root).toOption)

/-- A call, a start, or the first commit after one, with what the client finds then. -/
inductive ProviderEvent
  | call (c : SlotCall) (answers : List Answer) (client : Option Client)
  | restart (answers : List Answer)
  | on_ready (client : Option Client)

/-- A node that provides a capacity, with all that it has submitted since it was allocated. -/
structure ProviderNode where
  manager : CapacityManager
  submitted : List (RootSubmission × Option Tx)

section
variable (o : Outside) (x : ChunkSource) (j : JsonErrors) (config : ProviderConfig)

/-- What an event that succeeds submits, and the manager after it. -/
def ProviderEvent.run (s : CapacityManager) :
    ProviderEvent → Option (Option RootSubmission × CapacityManager)
  | .call c answers _ => (resultOf (c.run o) (s.answered answers)).map (fun r =>
      (r.1.map .submit_merkle_root_update, r.2))
  | .restart answers => (resultOf (initialize_manager o x j) (s.reopened answers)).map (fun r =>
      (none, r.2))
  | .on_ready _ => resultOf submit_registration_if_allocated s

def ProviderEvent.client : ProviderEvent → Option Client
  | .call _ _ client => client
  | .restart _ => none
  | .on_ready client => client

def ProviderNode.step (p : ProviderNode) (e : ProviderEvent) : Option ProviderNode :=
  (e.run o x j p.manager).map (fun r => ⟨r.2, p.submitted ++ r.1.toList.map (fun submission =>
    (submission, submission.tx o config p.manager.provider_id e.client))⟩)

end

/-- The roots that a node has submitted. -/
def ProviderNode.roots (p : ProviderNode) : List Bytes32 := p.submitted.map (fun q => q.1.root)

/-- The transactions that a node has sent. -/
def ProviderNode.transactions (p : ProviderNode) : List Tx := p.submitted.filterMap Prod.snd

/-- The root of the tree. -/
def CapacityManager.root (s : CapacityManager) : Option Bytes32 :=
  s.merkle_tree.map CapacityProofMerkleTree.root

variable {o : Outside} {x : ChunkSource} {j : JsonErrors} {config : ProviderConfig}
variable {s s₀ s₁ t : CapacityManager} {p p' : ProviderNode}

/-! ### The root of the tree after a call -/

theorem get_merkle_root_ok {root : Bytes32} (h : get_merkle_root s = .ok root t) :
    t = s ∧ s.root = some root := by
  unfold get_merkle_root at h
  obtain ⟨_, _, hget, h⟩ := bind_ok h
  cases hget
  cases htree : s.merkle_tree with
  | none =>
    rw [htree] at h
    cases h
  | some tree =>
    rw [htree] at h
    cases h
    unfold CapacityManager.root
    rw [htree]
    exact ⟨rfl, rfl⟩

/-- A call that succeeds submits the root that the tree has then, but where it is the old one. -/
theorem Mirror.call_root {m : SlotMap} {file : Bytes} (h : Mirror o x s m file) {call : SlotCall}
    {new : Option Bytes32} (hcall : call.run o s = .ok new t) : t.root = new.or s.root := by
  cases call with
  | store id chunks =>
    obtain ⟨_, _, hstore, hpure⟩ := bind_ok hcall
    cases hpure
    obtain ⟨_, _, _, hupdated⟩ := bind_ok hstore
    obtain ⟨root, _, hupdate, hpure⟩ := bind_ok hupdated
    cases hpure
    obtain ⟨tree, hroot, rfl⟩ := (update_merkle_tree_for_content_ends o _ _ _).of_ok hupdate
    exact hroot
  | delete id =>
    obtain ⟨_, u, hsection, hread⟩ := bind_ok hcall
    obtain ⟨sizes, hid, hin⟩ := deleteSection_in_range o h.slot_map hsection
    obtain ⟨_, file', as, _, _, _, rfl⟩ :=
      (deleteSection_ends o h.slot_map h.capacity_file h.layout hid hin).of_ok hsection
    obtain ⟨previous, _, hprevious, hupdated⟩ := bind_ok hread
    obtain ⟨rfl, hold⟩ := get_merkle_root_ok hprevious
    obtain ⟨root, _, hupdate, hpure⟩ := bind_ok hupdated
    cases hpure
    obtain ⟨tree, hroot, rfl⟩ := (update_merkle_tree_for_content_ends o _ _ _).of_ok hupdate
    by_cases hsame : previous = root
    · rw [if_pos hsame, Option.none_or]
      exact hroot.trans (hsame ▸ hold.symm)
    · rw [if_neg hsame, Option.some_or]
      exact hroot

/-- A call that succeeds keeps the size of the capacity and the name of the provider. -/
theorem Mirror.keeps {m : SlotMap} {file : Bytes} (h : Mirror o x s m file) {call : SlotCall}
    {new : Option Bytes32} (hcall : call.run o s = .ok new t) :
    ∃ m' file', Mirror o x t m' file' ∧ t.disk.slots_file = some (.whole m') ∧
      m'.slots.length = m.slots.length ∧ m'.capacity_bytes = m.capacity_bytes ∧
      t.provider_id = s.provider_id ∧ t.initialized = s.initialized := by
  cases call with
  | store id chunks =>
    obtain ⟨file', as, root, hplaced, hupdate⟩ :=
      store_ok o h.slot_map h.capacity_file h.layout hcall
    obtain ⟨u, hupdate', hmirror, hu⟩ := h.stored o hplaced
    rw [hupdate'] at hupdate
    cases hupdate
    exact ⟨_, _, hmirror, by rw [hu]; rfl, length_restate _ _ m, rfl, by rw [hu]; rfl,
      by rw [hu]; rfl⟩
  | delete id =>
    obtain ⟨sizes, file', as, root, hid, hin, htouched, hzero, hupdate⟩ :=
      delete_ok o h.slot_map h.capacity_file h.layout hcall
    obtain ⟨u, hupdate', hmirror, hu⟩ := h.deleted o hin htouched hzero
    rw [hupdate'] at hupdate
    cases hupdate
    exact ⟨_, _, hmirror, by rw [hu]; rfl, length_restate _ _ m, rfl, by rw [hu]; rfl,
      by rw [hu]; rfl⟩

/-- The number of chunks of a capacity. -/
def chunkCount (capacity_bytes : Nat) : Nat :=
  (capacity_bytes + (MAX_CHUNK_SIZE - 1)) / MAX_CHUNK_SIZE

/-- A manager that provides a capacity, whose tree has this root. -/
structure Provides (o : Outside) (x : ChunkSource) (provider : Address) (capacity : Nat)
    (root : Option Bytes32) (s : CapacityManager) : Prop where
  mirror : ∃ m file, Mirror o x s m file ∧ s.disk.slots_file = some (.whole m) ∧
    m.slots.length = chunkCount capacity ∧ m.capacity_bytes = capacity
  provider_id : s.provider_id = provider
  initialized : s.initialized = true
  root : s.root = root

/-- A registration takes the capacity of the slot map and the root of the tree. -/
theorem registration_info_ends {m : SlotMap} {root : Bytes32}
    (hmap : s.slot_allocator.slot_map = some m) (hroot : s.root = some root) :
    Ends get_registration_info s
      (fun info t => t = s ∧ info = (m.capacity_bytes, m.seed, root)) (fun _ _ => False) := by
  obtain ⟨tree, htree, rfl⟩ := Option.map_eq_some_iff.mp hroot
  unfold get_registration_info
  rw [ends_bind, ends_get, hmap]
  simp only
  unfold get_merkle_root
  rw [ends_bind, ends_bind, ends_get, htree]
  simp only
  rw [ends_pure, ends_pure]
  exact ⟨rfl, rfl⟩

/-- What a submission of a capacity says. -/
def RootSubmission.Of (capacity : Nat) : RootSubmission → Prop
  | .submit_merkle_root_update _ => True
  | .register_capacity_onchain capacity_bytes _ _ => capacity_bytes = capacity

theorem Provides.ready {provider : Address} {capacity : Nat} {root : Option Bytes32}
    (h : Provides o x provider capacity root s) :
    Ends submit_registration_if_allocated s (fun submission t => t = s ∧
      (submission.map RootSubmission.root).or root = root ∧
      ∀ sub ∈ submission, sub.Of capacity) (fun _ _ => False) := by
  obtain ⟨m, file, hm, hsaved, _, hbytes⟩ := h.mirror
  have htree : s.root = some (treeOf o (leavesOf o m file)).root := by
    unfold CapacityManager.root
    rw [hm.tree]
    rfl
  have hends := registration_info_ends hm.slot_map htree
  have hallocated : s.disk.slots_file.isSome = true := by
    rw [hsaved]
    rfl
  have hsubmits : submit_registration_if_allocated s = .ok (some (.register_capacity_onchain
      m.capacity_bytes m.seed (treeOf o (leavesOf o m file)).root)) s := by
    unfold submit_registration_if_allocated
    rw [if_pos hallocated]
    cases hinfo : get_registration_info s with
    | ok info t =>
      obtain ⟨rfl, rfl⟩ := hends.of_ok hinfo
      rfl
    | error e t => exact (hends.of_error hinfo).elim
  refine ends_of_ok hsubmits ⟨rfl, ?_, ?_⟩
  · rw [← h.root, htree]
    rfl
  · intro sub hsub
    cases hsub
    exact hbytes

/-- What an event that succeeds submits is the root that the tree has then. -/
theorem Provides.run {provider : Address} {capacity : Nat} {root : Option Bytes32}
    (h : Provides o x provider capacity root s) {e : ProviderEvent}
    {submission : Option RootSubmission} (hrun : e.run o x j s = some (submission, t)) :
    Provides o x provider capacity ((submission.map RootSubmission.root).or root) t ∧
      ∀ sub ∈ submission, sub.Of capacity := by
  obtain ⟨m, file, hm, hsaved, hlength, hbytes⟩ := h.mirror
  cases e with
  | call c answers client =>
    obtain ⟨⟨new, t⟩, hresult, heq⟩ := Option.map_eq_some_iff.mp hrun
    cases heq
    have hcall := eq_ok_of_resultOf hresult
    have hm' := hm.answered o answers
    obtain ⟨m', file', hmirror, hsaved', hlength', hbytes', hprovider, hinit⟩ := hm'.keeps hcall
    have hnew : ∀ new : Option Bytes32,
        (new.map RootSubmission.submit_merkle_root_update).map RootSubmission.root = new := by
      rintro (_ | new) <;> rfl
    refine ⟨⟨⟨m', file', hmirror, hsaved', hlength'.trans hlength, hbytes'.trans hbytes⟩,
      hprovider.trans h.provider_id, hinit.trans h.initialized, ?_⟩, ?_⟩
    · rw [hnew, ← h.root]
      exact hm'.call_root hcall
    · intro sub hsub
      obtain ⟨_, _, rfl⟩ := Option.map_eq_some_iff.mp hsub
      exact trivial
  | restart answers =>
    obtain ⟨⟨_, t⟩, hresult, heq⟩ := Option.map_eq_some_iff.mp hrun
    cases heq
    have hinit := eq_ok_of_resultOf hresult
    obtain ⟨hmirror, hready, hdisk, hprovider⟩ :=
      (initialize_manager_ends o hm hsaved answers).of_ok hinit
    refine ⟨⟨⟨m, file, hmirror, by rw [hdisk]; exact hsaved, hlength, hbytes⟩,
      hprovider.trans h.provider_id, hready, ?_⟩, fun sub hsub => by cases hsub⟩
    -- the tree is built over the same slots
    rw [Option.map_none, Option.none_or, ← h.root]
    unfold CapacityManager.root
    rw [hmirror.tree, hm.tree]
  | on_ready client =>
    obtain ⟨rfl, hroot, hof⟩ := h.ready.of_ok (eq_ok_of_resultOf hrun)
    rw [hroot]
    exact ⟨h, hof⟩

/-- An allocation returns the root of the tree that it leaves. -/
theorem allocated_root {capacity : Nat} {seed root : Bytes32}
    (halloc : allocate_capacity_internal o x capacity seed s₀ = .ok root s₁) :
    s₁.root = some root := by
  unfold allocate_capacity_internal at halloc
  obtain ⟨_, _, hget, halloc⟩ := bind_ok halloc
  cases hget
  obtain ⟨_, _, hget, halloc⟩ := bind_ok halloc
  cases hget
  obtain ⟨_, _, _, halloc⟩ := bind_ok halloc
  obtain ⟨_, _, _, halloc⟩ := bind_ok halloc
  obtain ⟨_, _, _, halloc⟩ := bind_ok halloc
  obtain ⟨_, _, _, halloc⟩ := bind_ok halloc
  obtain ⟨_, _, _, halloc⟩ := bind_ok halloc
  cases hover : firstOverlap (chunkOffsets o s₀.provider_id capacity seed).zipIdx with
  | some details => rw [hover] at halloc; cases halloc
  | none =>
    rw [hover] at halloc
    simp only at halloc
    obtain ⟨_, _, _, halloc⟩ := bind_ok halloc
    obtain ⟨_, _, _, halloc⟩ := bind_ok halloc
    obtain ⟨_, _, _, halloc⟩ := bind_ok halloc
    obtain ⟨_, _, _, halloc⟩ := bind_ok halloc
    obtain ⟨tree, _, _, halloc⟩ := bind_ok halloc
    obtain ⟨_, _, hput, halloc⟩ := bind_ok halloc
    cases hput
    cases halloc
    rfl

theorem allocated_chunks {capacity : Nat} {seed root : Bytes32}
    (halloc : allocate_capacity_internal o x capacity seed s₀ = .ok root s₁) :
    (newSlotMap o s₀.provider_id capacity seed).slots.length = chunkCount capacity := by
  obtain ⟨m, file, hm, _, rfl, _⟩ := allocate_capacity_internal_mirror o halloc
  have hpos : 0 < capacity := by
    apply Nat.pos_of_ne_zero
    rintro rfl
    exact hm.nonempty rfl
  exact length_initialSlots o s₀.provider_id seed hpos

/-! ## What the registry shows -/

/-- The payload of a provider that a call delivers and that takes effect. -/
def Node.effective (o : Outside) (pc : ProtocolConstants) (provider : Address) (n : Node) :
    Request → Option PayloadInner
  | .DeliverTx (.ok tx) =>
    if tx.payload.inner.sender = provider ∧ (deliver_tx_inner o pc n.conn (.ok tx)).1.code = 0 then
      some tx.payload.inner
    else none
  | _ => none

/-- The payloads of a provider that took effect in a run, in order. -/
def took_effect (o : Outside) (pc : ProtocolConstants) (cfg : GenesisConfig) (provider : Address)
    (requests : List Request) : List PayloadInner :=
  (runs.visits (Node.step o pc) requests (genesis o pc cfg)).filterMap
    (fun v => v.1.effective o pc provider v.2)

/-- The root that a payload writes, if it writes one. -/
def PayloadInner.root : PayloadInner → Option Bytes32
  | .RegisterCapacity t => some t.merkle_root
  | .UpdateCapacityMerkleRoot t => some t.merkle_root
  | _ => none

/-- The roots that a provider's transactions wrote. -/
def roots_written (o : Outside) (pc : ProtocolConstants) (cfg : GenesisConfig) (provider : Address)
    (requests : List Request) : List Bytes32 :=
  (took_effect o pc cfg provider requests).filterMap PayloadInner.root

/-- The number of chunks that a registration writes. -/
def PayloadInner.chunk_count : PayloadInner → Option UInt32
  | .RegisterCapacity t => some t.chunk_count
  | _ => none

/-- The numbers of chunks that a provider's registrations wrote. -/
def counts_written (o : Outside) (pc : ProtocolConstants) (cfg : GenesisConfig) (provider : Address)
    (requests : List Request) : List UInt32 :=
  (took_effect o pc cfg provider requests).filterMap PayloadInner.chunk_count

/-- What the challenges of a provider are made from. -/
structure ProviderListing where
  merkle_root : Option Bytes32
  chunk_count : Option UInt32

def CapacityValidatorInfo.listed (cv : CapacityValidatorInfo) : ProviderListing :=
  ⟨cv.merkle_root, cv.chunk_count⟩

/-- What is listed after a payload of the provider. -/
def ProviderListing.after (l : ProviderListing) (inner : PayloadInner) : ProviderListing :=
  ⟨inner.root.or l.merkle_root, inner.chunk_count.or l.chunk_count⟩

theorem foldl_after (payloads : List PayloadInner) (l : ProviderListing) :
    payloads.foldl ProviderListing.after l =
      ⟨(payloads.filterMap PayloadInner.root).getLast?.or l.merkle_root,
        (payloads.filterMap PayloadInner.chunk_count).getLast?.or l.chunk_count⟩ := by
  induction payloads using List.reverseRecOn with
  | nil => rfl
  | append_singleton payloads inner ih =>
    rw [List.foldl_append, List.foldl_cons, List.foldl_nil, ih, List.filterMap_append,
      List.filterMap_append]
    unfold ProviderListing.after
    rcases hroot : inner.root with _ | root <;> rcases hcount : inner.chunk_count with _ | count <;>
      simp [hroot, hcount]

variable {pc : ProtocolConstants} {cfg : GenesisConfig} {st : Storage} {e : AppStateEnvelope}
variable {n n' m m' : Node} {r : Request} {l l' : List CapacityValidatorInfo}

theorem effective_iff {provider : Address} {inner : PayloadInner} :
    n.effective o pc provider r = some inner ↔
      inner.sender = provider ∧ n.Delivers o pc r inner := by
  constructor
  · intro h
    unfold Node.effective at h
    split at h
    · rename_i tx
      split at h
      · rename_i hboth
        cases h
        exact ⟨hboth.1, tx, rfl, rfl, hboth.2⟩
      · cases h
    · cases h
  · rintro ⟨hsender, tx, rfl, rfl, hcode⟩
    exact if_pos ⟨hsender, hcode⟩

/-- An entry after a call: listed as before, or its owner has written it. -/
theorem CapacityStep.listed (h : CapacityStep o pc n r l l') {cv' : CapacityValidatorInfo}
    (hmem : cv' ∈ l') :
    (∃ cv ∈ l, cv.address = cv'.address ∧ cv'.listed = cv.listed) ∨
    (∃ t, n.effective o pc cv'.address r = some (.RegisterCapacity t)) ∨
    ∃ t, n.effective o pc cv'.address r = some (.UpdateCapacityMerkleRoot t) := by
  cases h with
  | kept => exact Or.inl ⟨cv', hmem, rfl, rfl⟩
  | added delivers owner fresh =>
    rcases List.mem_append.mp hmem with hold | hnew
    · exact Or.inl ⟨cv', hold, rfl, rfl⟩
    · rw [List.mem_singleton.mp hnew]
      exact Or.inr (Or.inl ⟨_, effective_iff.mpr ⟨rfl, delivers⟩⟩)
  | renewed delivers =>
    rcases mem_updateFirst hmem with hold | ⟨cv, hcv, hsender, rfl⟩
    · exact Or.inl ⟨cv', hold, rfl, rfl⟩
    · exact Or.inr (Or.inl ⟨_, effective_iff.mpr ⟨(beq_iff_eq.mp hsender).symm, delivers⟩⟩)
  | rerooted delivers =>
    rcases mem_updateFirst hmem with hold | ⟨cv, hcv, hsender, rfl⟩
    · exact Or.inl ⟨cv', hold, rfl, rfl⟩
    · exact Or.inr (Or.inr ⟨_, effective_iff.mpr ⟨(beq_iff_eq.mp hsender).symm, delivers⟩⟩)
  | slashed | extended =>
    rcases mem_updateFirst hmem with hold | ⟨cv, hcv, _, rfl⟩
    · exact Or.inl ⟨cv', hold, rfl, rfl⟩
    · exact Or.inl ⟨cv, hcv, rfl, rfl⟩
  | unregistered => exact Or.inl ⟨cv', List.mem_of_mem_filter hmem, rfl, rfl⟩
  | expired => exact Or.inl ⟨cv', List.mem_of_mem_filter hmem, rfl, rfl⟩

/-! ## Payloads that take effect -/

theorem process_register_capacity_listed {t : RegisterCapacityTx} {key : Text}
    (hnodup : (e.capacity_validators.map (fun cv => cv.address)).Nodup)
    (hcode : (process_register_capacity_tx o pc st e t key).1.code = 0) :
    ∃ cv ∈ (process_register_capacity_tx o pc st e t key).2.capacity_validators,
      cv.address = t.sender ∧ cv.listed = ⟨some t.merkle_root, some t.chunk_count⟩ := by
  unfold process_register_capacity_tx at hcode ⊢
  cases hkey : o.verifying_key key with
  | none =>
    rw [hkey] at hcode
    cases hcode
  | some public_key =>
    simp only [hkey] at hcode ⊢
    by_cases hsender : t.sender = o.address_of_key public_key
    · rw [if_neg (not_not.mpr hsender)] at hcode ⊢
      cases haccount : e.get_account_from_cado o st t.sender with
      | none =>
        rw [haccount] at hcode
        cases hcode
      | some account =>
        simp only [haccount] at hcode ⊢
        cases hfind : e.capacity_validators.find? (fun p => p.address == t.sender) with
        | none =>
          exact ⟨newCapacityValidator pc t public_key e.block_height,
            List.mem_append_right _ (List.mem_singleton_self _), rfl, rfl⟩
        | some provider =>
          simp only [hfind] at hcode ⊢
          by_cases hconflict : provider.public_key = public_key
          · rw [if_neg (not_not.mpr hconflict)]
            have haddress : provider.address = t.sender := by simpa using List.find?_some hfind
            refine ⟨renewCapacityValidator pc t e.block_height provider, ?_, haddress, rfl⟩
            refine updateFirst_mem (List.mem_of_find?_eq_some hfind) (beq_iff_eq.mpr haddress) ?_
            intro cv hcv hsame
            exact List.inj_on_of_nodup_map hnodup hcv (List.mem_of_find?_eq_some hfind)
              ((beq_iff_eq.mp hsame).trans haddress.symm)
          · rw [if_pos hconflict] at hcode
            cases hcode
    · rw [if_pos hsender] at hcode
      cases hcode

theorem process_update_capacity_merkle_root_listed {t : UpdateCapacityMerkleRootTx}
    (hnodup : (e.capacity_validators.map (fun cv => cv.address)).Nodup)
    (hcode : (process_update_capacity_merkle_root_tx o st e t).1.code = 0) :
    ∃ cv ∈ e.capacity_validators, cv.address = t.sender ∧
      ∃ cv' ∈ (process_update_capacity_merkle_root_tx o st e t).2.capacity_validators,
        cv'.address = t.sender ∧ cv'.listed = ⟨some t.merkle_root, cv.chunk_count⟩ := by
  unfold process_update_capacity_merkle_root_tx at hcode ⊢
  cases haccount : e.get_account_from_cado o st t.sender with
  | none =>
    rw [haccount] at hcode
    cases hcode
  | some account =>
    simp only [haccount] at hcode ⊢
    by_cases hregistered : e.capacity_validators.any (fun p => p.address == t.sender) = true
    · rw [if_pos hregistered]
      obtain ⟨cv, hcv, hsame⟩ := List.any_eq_true.mp hregistered
      have haddress : cv.address = t.sender := beq_iff_eq.mp hsame
      refine ⟨cv, hcv, haddress, _, updateFirst_mem hcv hsame ?_, haddress, rfl⟩
      intro other hother hsame'
      exact List.inj_on_of_nodup_map hnodup hother hcv
        ((beq_iff_eq.mp hsame').trans haddress.symm)
    · rw [if_neg hregistered] at hcode
      cases hcode

/-- What a call does that delivers a payload which takes effect. -/
theorem NodeStep.processed {inner : PayloadInner} (h : NodeStep o pc n r n') (hg : NodeGood o n)
    (hdelivers : n.Delivers o pc r inner) :
    ∃ (tx : Tx) (e : AppStateEnvelope), tx.payload.inner = inner ∧
      e.capacity_validators = n.state.envelope.capacity_validators ∧
      (tx.process o pc n.conn.storage e).1.code = 0 ∧
      n'.state.envelope.capacity_validators =
        (tx.process o pc n.conn.storage e).2.capacity_validators := by
  obtain ⟨tx, rfl, hinner, hcode⟩ := hdelivers
  cases h with
  | turned_away request phase refused =>
    exact absurd hcode (code_of_refused (fun s => refused tx s rfl))
  | @delivered _ after phase admitted =>
    obtain ⟨⟨sender, rest, hto⟩, _, _⟩ := @NodeGood.of_admission o pc _ _ _ hg phase admitted
    have hlist : after.envelope.capacity_validators = n.state.envelope.capacity_validators := by
      rw [hto.staged]
      rfl
    have hsame := (@deliver_tx_inner.spec o pc _ _ _ admitted).1
    exact ⟨tx, after.envelope, hinner, hlist, hsame.symm.trans hcode, rfl⟩

/-! ## Whole runs -/

/-- An entry is unique by its address. -/
theorem entry_unique (hnodup : (l.map (fun cv => cv.address)).Nodup)
    {cv cv' : CapacityValidatorInfo} (hcv : cv ∈ l) (hcv' : cv' ∈ l)
    (haddress : cv.address = cv'.address) : cv = cv' :=
  List.inj_on_of_nodup_map hnodup hcv hcv' haddress

theorem took_effect_snoc {requests : List Request} (provider : Address) (r : Request)
    (h : RunsTo o pc cfg requests n) :
    took_effect o pc cfg provider (requests ++ [r]) =
      took_effect o pc cfg provider requests ++ (n.effective o pc provider r).toList := by
  unfold took_effect
  rw [runs.visits_snoc _ r h, List.filterMap_append]
  rcases hd : n.effective o pc provider r with _ | inner <;> simp [hd]

/-- In every state each entry shows what its owner's payloads have written. -/
theorem listed_after_run {requests : List Request} (hrun : RunsTo o pc cfg requests n) :
    ∀ cv ∈ n.state.envelope.capacity_validators,
      cv.listed =
        (took_effect o pc cfg cv.address requests).foldl ProviderListing.after ⟨none, none⟩ := by
  refine runs.run_induction (Node.step o pc) (fun requests n =>
    ∀ cv ∈ n.state.envelope.capacity_validators,
      cv.listed =
        (took_effect o pc cfg cv.address requests).foldl ProviderListing.after ⟨none, none⟩)
    ?_ ?_ hrun
  · intro cv hcv
    rw [genesis_providers] at hcv
    cases hcv
  · intro earlier m r m' hm ih hstep cv' hcv'
    have hg := reachable_good ⟨earlier, hm⟩
    have hs := step_cases hstep
    have hm' : RunsTo o pc cfg (earlier ++ [r]) m' := by
      unfold RunsTo
      rw [runs.run_snoc, hm]
      exact hstep
    have hnodup := providers_nodup hm
    have hnodup' := providers_nodup hm'
    rw [took_effect_snoc _ r hm, List.foldl_append]
    cases heff : m.effective o pc cv'.address r with
    | none =>
      rcases (hs.capacity hg).listed hcv' with ⟨cv, hcv, haddress, hlisted⟩ | ⟨t, ht⟩ | ⟨t, ht⟩
      · rw [hlisted, ih cv hcv, haddress]
        rfl
      · rw [heff] at ht
        cases ht
      · rw [heff] at ht
        cases ht
    | some inner =>
      obtain ⟨hsender, hdelivers⟩ := effective_iff.mp heff
      obtain ⟨tx, e, hinner, hlist, hcode, hlist'⟩ := hs.processed hg hdelivers
      rw [← hlist] at hnodup
      cases inner with
      | RegisterCapacity t =>
        simp only [Tx.process, hinner] at hcode hlist'
        obtain ⟨cv, hcv, haddress, hlisted⟩ := process_register_capacity_listed hnodup hcode
        rw [← hlist'] at hcv
        rw [entry_unique hnodup' hcv' hcv (hsender.symm.trans haddress.symm), hlisted]
        rfl
      | UpdateCapacityMerkleRoot t =>
        simp only [Tx.process, hinner] at hcode hlist'
        obtain ⟨old, hold, holdAddress, cv, hcv, haddress, hlisted⟩ :=
          process_update_capacity_merkle_root_listed hnodup hcode
        rw [← hlist'] at hcv
        rw [hlist] at hold
        have hshown := ih old hold
        rw [holdAddress.trans hsender] at hshown
        rw [entry_unique hnodup' hcv' hcv (hsender.symm.trans haddress.symm), hlisted,
          ← entry_unique hnodup' hcv' hcv (hsender.symm.trans haddress.symm), ← hshown]
        rfl
      | _ =>
        rcases (hs.capacity hg).listed hcv' with ⟨cv, hcv, haddress, hlisted⟩ | ⟨t, ht⟩ | ⟨t, ht⟩
        · rw [hlisted, ih cv hcv, haddress]
          rfl
        · rw [heff] at ht
          cases ht
        · rw [heff] at ht
          cases ht

/-- The root of an entry is the last that its owner's transactions wrote. -/
theorem root_is_written_last {requests : List Request} (hrun : RunsTo o pc cfg requests n)
    {cv : CapacityValidatorInfo} (hcv : cv ∈ n.state.envelope.capacity_validators) :
    cv.merkle_root = (roots_written o pc cfg cv.address requests).getLast? ∧
      cv.chunk_count = (counts_written o pc cfg cv.address requests).getLast? := by
  have hlisted := listed_after_run hrun cv hcv
  rw [foldl_after] at hlisted
  unfold CapacityValidatorInfo.listed at hlisted
  simp only [Option.or_none, ProviderListing.mk.injEq] at hlisted
  exact hlisted

/-! ## What a challenge asks for -/

/-- The challenges of an opening are issued from the state that it leaves. -/
theorem NodeStep.issued {op : Opening} (h : NodeStep o pc n r n')
    (hop : opening o pc n r = some op) :
    r = .EndBlock op.height ∧
      op.challenges = issuedChallenges o pc n'.state.envelope (epochOf pc op.height) := by
  cases h with
  | begun | turned_away | delivered | committed | uploaded => cases hop
  | @ended height before after out phase grows current ends =>
    simp only [opening, end_block_inner, current, ends] at hop
    rcases endBlockState.spec ends with ⟨_, rfl, _⟩ | ⟨_, s2, hopen, rfl, rfl⟩
    · cases hop
    · cases hop
      exact ⟨rfl, rfl⟩

/-- A challenge names the root that its provider's transactions wrote last, and indices below
the number of chunks that its last registration wrote. -/
theorem challenge_asks_what_was_written {requests : List Request} {op : Opening}
    {c : CapacityChallenge} (hm : RunsTo o pc cfg requests m)
    (hstep : Node.step o pc m r = some m') (hop : opening o pc m r = some op)
    (hc : c ∈ op.challenges) :
    (roots_written o pc cfg c.provider_id requests).getLast? = some c.merkle_root ∧
      ∃ count, (counts_written o pc cfg c.provider_id requests).getLast? = some count ∧
        ∀ i ∈ c.chunk_indices, i < count.toNat := by
  have hm' : RunsTo o pc cfg (requests ++ [r]) m' := by
    unfold RunsTo
    rw [runs.run_snoc, hm]
    exact hstep
  obtain ⟨hr, hissued⟩ := (step_cases hstep).issued hop
  rw [hissued] at hc
  obtain ⟨sv, cp, root, seed, _, _, hcp, hroot, _, hcount, hceq⟩ := mem_issuedChallenges hc
  have haddress : cp.address = c.provider_id := by simpa using List.find?_some hcp
  obtain ⟨hlast, hlastCount⟩ := root_is_written_last hm' (List.mem_of_find?_eq_some hcp)
  -- the call that opens the epoch writes nothing
  have hnone : (m.effective o pc c.provider_id r).toList = [] := by
    rw [hr]
    rfl
  have hsame : took_effect o pc cfg c.provider_id (requests ++ [r]) =
      took_effect o pc cfg c.provider_id requests := by
    rw [took_effect_snoc _ r hm, hnone, List.append_nil]
  rw [haddress] at hlast hlastCount
  unfold roots_written at hlast ⊢
  unfold counts_written at hlastCount ⊢
  rw [hsame] at hlast hlastCount
  refine ⟨?_, ?_⟩
  · rw [← hlast, hroot, hceq]
    rfl
  · cases hshown : cp.chunk_count with
    | none =>
      rw [hshown] at hcount
      exact absurd rfl hcount
    | some count =>
      refine ⟨count, by rw [← hlastCount, hshown], fun i hi => ?_⟩
      rw [hceq, hshown] at hi
      exact select_lt hi

/-! ## The chain and the node -/

theorem buildSigned_inner {fl : Floats} {fees : FeeConfig fl} {wallet : Wallet} {chain_id : String}
    {nonce : Nonce} {failed : EldError → EldError} {unverified : EldError} {inner : PayloadInner}
    {tx : Tx} (h : buildSigned o fl fees wallet chain_id nonce failed unverified inner = .ok tx) :
    tx.payload.inner = inner := by
  unfold buildSigned payAndSign at h
  obtain ⟨signed, hsigned, h⟩ := bind_eq_ok.mp h
  obtain ⟨fee, _, hsigned⟩ := bind_eq_ok.mp hsigned
  have hpayload : signed.payload = Payload.new inner := by
    rw [← Except.ok.inj hsigned, (Tx.sign_parts _ _ _).2.1]
    rfl
  split at h
  · rw [← Except.ok.inj h, hpayload]
    rfl
  · cases h

/-- The update that is sent after a store or a deletion writes the new root. -/
theorem built_update {fl : Floats} {fees : FeeConfig fl} {wallet : Wallet} {chain_id : String}
    {nonce : Nonce} {provider : Address} {root : Bytes32} {tx : Tx}
    (h : submit_merkle_root_update o fl fees wallet chain_id nonce provider root = .ok tx) :
    tx.payload.inner.sender = provider ∧ tx.payload.inner.root = some root ∧
      tx.payload.inner.chunk_count = none := by
  unfold submit_merkle_root_update at h
  obtain ⟨t, ht, hbuilt⟩ := bind_eq_ok.mp h
  rw [buildSigned_inner hbuilt]
  cases ht
  exact ⟨rfl, rfl, rfl⟩

/-- The registration that is sent at a start writes the root and the number of chunks. -/
theorem built_registration {fl : Floats} {fees : FeeConfig fl} {wallet : Wallet}
    {chain_id : String} {nonce : Nonce} {capacity : Nat} {seed root : Bytes32} {tx : Tx}
    (h : register_capacity_onchain o fl fees wallet chain_id nonce capacity seed root = .ok tx) :
    tx.payload.inner.sender = wallet.address ∧ tx.payload.inner.root = some root ∧
      tx.payload.inner.chunk_count = some (registered_chunk_count capacity) := by
  unfold register_capacity_onchain submit_capacity_registration_tx at h
  obtain ⟨sender, hsender, h⟩ := bind_eq_ok.mp h
  obtain ⟨t, ht, hbuilt⟩ := bind_eq_ok.mp h
  have hparsed : parse_validated_address (Address.hex_with_prefix wallet.address).toList =
      .ok wallet.address := by
    unfold parse_validated_address Address.hex_with_prefix
    rw [String.toList_ofList]
    exact @decode_fixed_hex_of_strip 20 (by decide) wallet.address _ "address" rfl
  rw [hparsed] at hsender
  cases hsender
  rw [buildSigned_inner hbuilt]
  unfold RegisterCapacityTx.new at ht
  split at ht
  · cases ht
  · cases ht
    exact ⟨rfl, rfl, rfl⟩

theorem registered_chunk_count_eq {capacity : Nat} (h : chunkCount capacity < 2 ^ 32) :
    (registered_chunk_count capacity).toNat = chunkCount capacity := by
  unfold registered_chunk_count
  rw [UInt32.toNat_ofNat']
  exact Nat.mod_eq_of_lt h

/-- A payload of a node writes a root, and the number of its chunks if it writes one. -/
def PayloadInner.WritesFor (capacity : Nat) (root : Bytes32) (inner : PayloadInner) : Prop :=
  inner.root = some root ∧
    ∀ count, inner.chunk_count = some count → count = registered_chunk_count capacity

/-- The transaction that goes out for a submission writes its root. -/
theorem RootSubmission.tx_writes {capacity : Nat} {submission : RootSubmission} {provider : Address}
    {client : Option Client} {tx : Tx} (hof : submission.Of capacity)
    (h : submission.tx o config provider client = some tx) :
    tx.payload.inner.WritesFor capacity submission.root := by
  obtain ⟨c, _, h⟩ := Option.bind_eq_some_iff.mp h
  cases submission with
  | submit_merkle_root_update new_merkle_root =>
    obtain ⟨_, hroot, hcount⟩ := built_update (toOption_eq_some.mp h)
    refine ⟨hroot, ?_⟩
    rw [hcount]
    exact fun _ hnone => by cases hnone
  | register_capacity_onchain capacity_bytes seed merkle_root =>
    obtain ⟨_, hroot, hcount⟩ := built_registration (toOption_eq_some.mp h)
    refine ⟨hroot, ?_⟩
    rw [hcount, show capacity_bytes = capacity from hof]
    exact fun _ hsome => (Option.some.inj hsome).symm

theorem allocated_provides {capacity : Nat} {seed root : Bytes32}
    (halloc : allocate_capacity_internal o x capacity seed s₀ = .ok root s₁)
    (hready : s₀.initialized = true) :
    Provides o x s₀.provider_id capacity (some root) s₁ := by
  obtain ⟨m, file, hm, hsaved, hmap, _, _, hinit, hprovider⟩ :=
    allocate_capacity_internal_mirror o halloc
  refine ⟨⟨m, file, hm, hsaved, ?_, by rw [hmap]; rfl⟩, hprovider, hinit.trans hready,
    allocated_root halloc⟩
  rw [hmap]
  exact allocated_chunks halloc

/-- Whatever succeeded since the allocation, the tree has the root that the node submitted last,
or that of the allocation, and each transaction of the node writes what it was sent for. -/
theorem provides_after_run {capacity : Nat} {seed root : Bytes32}
    (halloc : allocate_capacity_internal o x capacity seed s₀ = .ok root s₁)
    (hready : s₀.initialized = true) {events : List ProviderEvent}
    (hrun : runs.run (ProviderNode.step o x j config) events ⟨s₁, []⟩ = some p) :
    Provides o x s₀.provider_id capacity (root :: p.roots).getLast? p.manager ∧
      ∀ q ∈ p.submitted, ∀ tx, q.2 = some tx → tx.payload.inner.WritesFor capacity q.1.root := by
  refine runs.run_invariant (ProviderNode.step o x j config) (fun p =>
    Provides o x s₀.provider_id capacity (root :: p.roots).getLast? p.manager ∧
      ∀ q ∈ p.submitted, ∀ tx, q.2 = some tx → tx.payload.inner.WritesFor capacity q.1.root)
    ?_ ⟨allocated_provides halloc hready, by simp⟩ hrun
  rintro p e p' ⟨hprovides, hwrites⟩ hstep
  obtain ⟨⟨submission, t⟩, hevent, rfl⟩ := Option.map_eq_some_iff.mp hstep
  obtain ⟨hafter, hof⟩ := hprovides.run hevent
  cases submission with
  | none =>
    simp only [Option.toList_none, List.map_nil, List.append_nil]
    exact ⟨hafter, hwrites⟩
  | some submission =>
    refine ⟨?_, ?_⟩
    · unfold ProviderNode.roots
      rw [Option.toList_some, List.map_append, List.map_singleton, List.map_singleton,
        ← List.cons_append, List.getLast?_concat]
      exact hafter
    · intro q hq tx htx
      rcases List.mem_append.mp hq with hold | hnew
      · exact hwrites q hold tx htx
      · obtain rfl := List.mem_singleton.mp hnew
        exact RootSubmission.tx_writes (hof submission rfl) htx

/-- The tree of a provider has a leaf for each chunk that a registration of its capacity writes. -/
theorem Provides.asked_leaves {provider : Address} {capacity : Nat} {root : Option Bytes32}
    (h : Provides o x provider capacity root s) (hfits : chunkCount capacity < 2 ^ 32)
    {indices : List Nat} (hbelow : ∀ i ∈ indices, i < (registered_chunk_count capacity).toNat) :
    ∃ tree, s.merkle_tree = some tree ∧ ∀ i ∈ indices, i < tree.leaves.length := by
  obtain ⟨m, file, hmirror, _, hlength, _⟩ := h.mirror
  refine ⟨_, hmirror.tree, fun i hi => ?_⟩
  have hleaves : (treeOf o (leavesOf o m file)).leaves.length = chunkCount capacity := by
    rw [show (treeOf o (leavesOf o m file)).leaves = leavesOf o m file from rfl,
      length_leavesOf, hlength]
  rw [hleaves, ← registered_chunk_count_eq hfits]
  exact hbelow i hi

/-- In every state the registry shows for each provider what its transactions wrote last. In
every run of a node since its allocation the tree has the root that the node submitted last, and
its transactions write what they were sent for. When an epoch opens, a challenge asks a provider
for the root of its tree exactly when the root that took effect last is the one submitted last,
which is the one in its transaction if one went out; and if the registrations that took effect
are the node's own, then the challenge asks for leaves that the tree has. -/
theorem a_challenge_asks_for_the_current_root_iff {requests : List Request} {capacity : Nat}
    {seed root : Bytes32} {events : List ProviderEvent} (hm : RunsTo o pc cfg requests m)
    (halloc : allocate_capacity_internal o x capacity seed s₀ = .ok root s₁)
    (hready : s₀.initialized = true)
    (hrun : runs.run (ProviderNode.step o x j config) events ⟨s₁, []⟩ = some p) :
    (∀ cv ∈ m.state.envelope.capacity_validators,
      cv.merkle_root = (roots_written o pc cfg cv.address requests).getLast? ∧
      cv.chunk_count = (counts_written o pc cfg cv.address requests).getLast?) ∧
    (p.manager.root = (root :: p.roots).getLast? ∧
      ∀ q ∈ p.submitted, ∀ tx, q.2 = some tx → tx.payload.inner.WritesFor capacity q.1.root) ∧
    ∀ r m' op c, Node.step o pc m r = some m' → opening o pc m r = some op → c ∈ op.challenges →
      (p.manager.root = some c.merkle_root ↔
        (roots_written o pc cfg c.provider_id requests).getLast? = (root :: p.roots).getLast?) ∧
      (∀ q tx, p.submitted.getLast? = some q → q.2 = some tx →
        (p.manager.root = some c.merkle_root ↔
          (roots_written o pc cfg c.provider_id requests).getLast? = tx.payload.inner.root)) ∧
      (chunkCount capacity < 2 ^ 32 →
        (∀ inner ∈ took_effect o pc cfg c.provider_id requests, inner.chunk_count.isSome = true →
          ∃ tx ∈ p.transactions, tx.payload.inner = inner) →
        ∃ tree, p.manager.merkle_tree = some tree ∧
          ∀ i ∈ c.chunk_indices, i < tree.leaves.length) := by
  obtain ⟨hprovides, hwrites⟩ := provides_after_run halloc hready hrun
  refine ⟨fun cv hcv => root_is_written_last hm hcv, ⟨hprovides.root, hwrites⟩, ?_⟩
  intro r m' op c hstep hop hc
  obtain ⟨hroot, count, hcount, hbelow⟩ := challenge_asks_what_was_written hm hstep hop hc
  have hasks : p.manager.root = some c.merkle_root ↔
      (roots_written o pc cfg c.provider_id requests).getLast? = (root :: p.roots).getLast? := by
    rw [hprovides.root, hroot]
    exact eq_comm
  refine ⟨hasks, ?_, ?_⟩
  · intro q tx hlast htx
    have hsent : (root :: p.roots).getLast? = some q.1.root := by
      unfold ProviderNode.roots
      rw [List.getLast?_cons, List.getLast?_map, hlast]
      rfl
    rw [hasks, hsent, (hwrites q (List.mem_of_getLast? hlast) tx htx).1]
  · intro hfits hown
    -- the registration that wrote the number of chunks is one that the node sent
    obtain ⟨inner, hinner, hwritten⟩ := List.mem_filterMap.mp (List.mem_of_getLast? hcount)
    obtain ⟨tx, htx, rfl⟩ := hown inner hinner (by rw [hwritten]; rfl)
    obtain ⟨q, hq, hqtx⟩ := List.mem_filterMap.mp htx
    have hchunks := (hwrites q hq tx hqtx).2 count hwritten
    rw [hchunks] at hbelow
    exact hprovides.asked_leaves hfits hbelow

/-- Alice allocates one slot. -/
def aliceAllocates : Option (Bytes32 × CapacityManager) :=
  resultOf (allocate_capacity_internal .openChain .sevens 1024 3) aliceManager

def aliceConfig : ProviderConfig := ⟨tenths, defaultFees, "small"⟩

/-- She registers and then stores a content. -/
def aliceStores : List ProviderEvent :=
  [.on_ready (some ⟨aliceWallet, ⟨1⟩⟩),
    .call (.store ['a'] [[1, 2, 3]]) [] (some ⟨aliceWallet, ⟨2⟩⟩)]

/-- Her two transactions are delivered before the first epoch opens. -/
def deliversBoth : List Tx → List Request
  | [registration, update] =>
    block (smallHeight 1) [registration] ++ [.BeginBlock, .DeliverTx (.ok update)]
  | _ => []

theorem a_challenge_asks_for_the_updated_root :
    ∃ root s₁ p m op c requests q tx,
      allocate_capacity_internal .openChain .sevens 1024 3 aliceManager = .ok root s₁ ∧
      runs.run (ProviderNode.step .openChain .sevens .eof aliceConfig) aliceStores ⟨s₁, []⟩ =
        some p ∧
      RunsTo .openChain smallConstants smallConfig requests m ∧
      opening .openChain smallConstants m (.EndBlock (smallHeight 2)) = some op ∧
      c ∈ op.challenges ∧ p.submitted.getLast? = some q ∧ q.2 = some tx ∧
      (roots_written .openChain smallConstants smallConfig c.provider_id requests).getLast? =
        tx.payload.inner.root := by
  have hrun : (aliceAllocates.bind (fun a =>
      (runs.run (ProviderNode.step .openChain .sevens .eof aliceConfig) aliceStores
        ⟨a.2, []⟩).bind (fun p =>
          (runs.run (Node.step .openChain smallConstants) (deliversBoth p.transactions)
            (genesis .openChain smallConstants smallConfig)).map (fun m => (a, p, m))))).any
      (fun w => (Node.step .openChain smallConstants w.2.2 (.EndBlock (smallHeight 2))).isSome &&
        w.2.1.submitted.getLast?.any (fun q => q.2.isSome) &&
        (opening .openChain smallConstants w.2.2 (.EndBlock (smallHeight 2))).any (fun op =>
          op.challenges.any (fun c => decide (w.2.1.manager.root = some c.merkle_root)))) =
        true := by
    decide +kernel
  obtain ⟨w, hw, hfields⟩ := (Option.any_eq_true _ _).mp hrun
  obtain ⟨a, ha, hw⟩ := Option.bind_eq_some_iff.mp hw
  obtain ⟨p, hp, hw⟩ := Option.bind_eq_some_iff.mp hw
  obtain ⟨m, hm, rfl⟩ := Option.map_eq_some_iff.mp hw
  simp only [Bool.and_eq_true] at hfields
  obtain ⟨⟨hends, hsent⟩, hopens⟩ := hfields
  obtain ⟨m', hstep⟩ := Option.isSome_iff_exists.mp hends
  obtain ⟨q, hq, hsome⟩ := (Option.any_eq_true _ _).mp hsent
  obtain ⟨tx, htx⟩ := Option.isSome_iff_exists.mp hsome
  obtain ⟨op, hop, hany⟩ := (Option.any_eq_true _ _).mp hopens
  obtain ⟨c, hc, hsame⟩ := List.any_eq_true.mp hany
  have halloc := eq_ok_of_resultOf ha
  obtain ⟨_, _, hasks⟩ := a_challenge_asks_for_the_current_root_iff hm halloc rfl hp
  exact ⟨a.1, a.2, p, m, op, c, _, q, tx, halloc, hp, hm, hop, hc, hq, htx,
    ((hasks _ m' op c hstep hop hc).2.1 q tx hq htx).mp (of_decide_eq_true hsame)⟩

end eld_chain
