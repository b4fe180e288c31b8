-- The two registries. No two entries of a list have the same address, the
-- address of a provider is that of its key, and a provider has all that a
-- challenge needs. The last part rests on the check of the declared type:
-- a registration that declares another type can count no chunks.
import EldChain.CapacitySteps
import EldChain.MempoolAdmission
import EldChain.StakeRegistry

open json Std

namespace eld_chain

variable {o : Outside} {pc : ProtocolConstants} {s : SerdeJson} {cfg : GenesisConfig}
variable {st : Storage} {e : AppStateEnvelope}

/-! ## The entries -/

/-- An entry that a challenge can be made from, under the address of its key. -/
structure CapacityValidatorInfo.WellFormed (o : Outside) (cv : CapacityValidatorInfo) : Prop where
  address : cv.address = o.address_of_key cv.public_key
  merkle_root : cv.merkle_root.isSome = true
  seed : cv.seed.isSome = true
  capacity : 1 ≤ cv.storage_capacity
  chunks : ∃ count, cv.chunk_count = some count ∧ 1 ≤ count

structure WellFormedRegistries (o : Outside) (e : AppStateEnvelope) : Prop where
  validators : (e.validators.map (fun v => v.address)).Nodup
  providers : (e.capacity_validators.map (fun cv => cv.address)).Nodup
  entries : ∀ cv ∈ e.capacity_validators, cv.WellFormed o

/-- A change of an entry that says nothing new about who stores what. A root may change, but
it does not go away. -/
structure Touches (cv cv' : CapacityValidatorInfo) : Prop where
  address : cv'.address = cv.address
  public_key : cv'.public_key = cv.public_key
  storage_capacity : cv'.storage_capacity = cv.storage_capacity
  merkle_root : cv.merkle_root.isSome = true → cv'.merkle_root.isSome = true
  seed : cv'.seed = cv.seed
  chunk_count : cv'.chunk_count = cv.chunk_count

theorem Touches.well_formed {cv cv' : CapacityValidatorInfo} (h : Touches cv cv')
    (hcv : cv.WellFormed o) : cv'.WellFormed o := by
  refine ⟨?_, h.merkle_root hcv.merkle_root, ?_, ?_, ?_⟩
  · rw [h.address, h.public_key]
    exact hcv.address
  · rw [h.seed]
    exact hcv.seed
  · rw [h.storage_capacity]
    exact hcv.capacity
  · rw [h.chunk_count]
    exact hcv.chunks

theorem one_le_of_ne {x : UInt64} (h : x ≠ 0) : 1 ≤ x := by
  rw [UInt64.le_iff_toNat_le]
  have hne : x.toNat ≠ 0 := fun heq => h (UInt64.toNat_inj.mp heq)
  exact Nat.one_le_iff_ne_zero.mpr hne

theorem one_le_count {x : UInt32} (h : x ≠ 0) : 1 ≤ x := by
  rw [UInt32.le_iff_toNat_le]
  have hne : x.toNat ≠ 0 := fun heq => h (UInt32.toNat_inj.mp heq)
  exact Nat.one_le_iff_ne_zero.mpr hne

theorem newCapacityValidator_well_formed {t : RegisterCapacityTx} {key : Bytes32}
    (howner : t.sender = o.address_of_key key) (hcount : t.chunk_count ≠ 0) (height : I64) :
    (newCapacityValidator pc t key height).WellFormed o :=
  ⟨howner, rfl, rfl, one_le_of_ne t.capacity_pos, t.chunk_count, rfl, one_le_count hcount⟩

theorem renewCapacityValidator_well_formed {t : RegisterCapacityTx} {cv : CapacityValidatorInfo}
    (hcv : cv.WellFormed o) (hcount : t.chunk_count ≠ 0) (height : I64) :
    (renewCapacityValidator pc t height cv).WellFormed o :=
  ⟨hcv.address, rfl, rfl, one_le_of_ne t.capacity_pos, t.chunk_count, rfl, one_le_count hcount⟩

/-! ## What a call does to the providers -/

/-- The call delivers this registration. -/
def Request.Registers (r : Request) (t : RegisterCapacityTx) : Prop :=
  ∃ tx, r = .DeliverTx (.ok tx) ∧ tx.payload.inner = .RegisterCapacity t

/-- Everything that a call can do to the list of providers. -/
inductive ProvidersStep (o : Outside) (pc : ProtocolConstants) (r : Request)
    (l : List CapacityValidatorInfo) : List CapacityValidatorInfo → Prop
  | kept : ProvidersStep o pc r l l
  | added {t : RegisterCapacityTx} {key : Bytes32} (height : I64) (registers : r.Registers t)
      (owner : t.sender = o.address_of_key key) (fresh : ∀ cv ∈ l, cv.address ≠ t.sender) :
      ProvidersStep o pc r l (l ++ [newCapacityValidator pc t key height])
  | renewed {t : RegisterCapacityTx} (height : I64) (registers : r.Registers t) :
      ProvidersStep o pc r l
        (updateFirst (fun cv => cv.address == t.sender) (renewCapacityValidator pc t height) l)
  | touched (p : CapacityValidatorInfo → Bool) (f : CapacityValidatorInfo → CapacityValidatorInfo)
      (touches : ∀ cv, Touches cv (f cv)) : ProvidersStep o pc r l (updateFirst p f l)
  | removed (p : CapacityValidatorInfo → Bool) : ProvidersStep o pc r l (l.filter p)

theorem map_address_touched {p : CapacityValidatorInfo → Bool}
    {f : CapacityValidatorInfo → CapacityValidatorInfo} (hf : ∀ cv, (f cv).address = cv.address)
    (l : List CapacityValidatorInfo) :
    (updateFirst p f l).map (fun cv => cv.address) = l.map (fun cv => cv.address) := by
  induction l with
  | nil => rfl
  | cons x l ih =>
    rw [updateFirst]
    split
    · rw [List.map_cons, List.map_cons, hf]
    · rw [List.map_cons, List.map_cons, ih]

variable {r : Request} {l l' : List CapacityValidatorInfo}

theorem ProvidersStep.nodup (h : ProvidersStep o pc r l l')
    (hl : (l.map (fun cv => cv.address)).Nodup) : (l'.map (fun cv => cv.address)).Nodup := by
  cases h with
  | kept => exact hl
  | @added t key height registers owner fresh =>
    rw [List.map_append, List.nodup_append]
    refine ⟨hl, List.nodup_singleton _, fun a ha b hb heq => ?_⟩
    obtain ⟨cv, hcv, rfl⟩ := List.mem_map.mp ha
    have hb : b = t.sender := List.mem_singleton.mp hb
    exact fresh cv hcv (heq.trans hb)
  | renewed height registers =>
    rw [map_address_touched (f := renewCapacityValidator pc _ height) (fun _ => rfl)]
    exact hl
  | touched p f touches =>
    rw [map_address_touched (fun cv => (touches cv).address)]
    exact hl
  | removed p => exact (List.filter_sublist.map _).nodup hl

/-- A call that registers no empty storage keeps the entries well formed. -/
theorem ProvidersStep.well_formed (h : ProvidersStep o pc r l l')
    (hcounts : ∀ t, r.Registers t → t.chunk_count ≠ 0) (hl : ∀ cv ∈ l, cv.WellFormed o) :
    ∀ cv ∈ l', cv.WellFormed o := by
  intro cv hcv
  cases h with
  | kept => exact hl cv hcv
  | added height registers owner fresh =>
    rw [List.mem_append, List.mem_singleton] at hcv
    rcases hcv with hcv | rfl
    · exact hl cv hcv
    · exact newCapacityValidator_well_formed owner (hcounts _ registers) height
  | renewed height registers =>
    rcases mem_updateFirst hcv with hcv | ⟨old, hold, _, rfl⟩
    · exact hl cv hcv
    · exact renewCapacityValidator_well_formed (hl old hold) (hcounts _ registers) height
  | touched p f touches =>
    rcases mem_updateFirst hcv with hcv | ⟨old, hold, _, rfl⟩
    · exact hl cv hcv
    · exact (touches old).well_formed (hl old hold)
  | removed p => exact hl cv (List.mem_of_mem_filter hcv)

/-! ## Calls -/

theorem Node.Delivers.registers {n : Node} {t : RegisterCapacityTx}
    (h : n.Delivers o pc r (.RegisterCapacity t)) : r.Registers t := by
  obtain ⟨tx, hr, hinner, _⟩ := h
  exact ⟨tx, hr, hinner⟩

theorem CapacityStep.providers {n : Node} (h : CapacityStep o pc n r l l') :
    ProvidersStep o pc r l l' := by
  cases h with
  | kept => exact .kept
  | added delivers owner fresh => exact .added _ delivers.registers owner fresh
  | renewed delivers => exact .renewed _ delivers.registers
  | rerooted => exact .touched _ _ (fun cv => ⟨rfl, rfl, rfl, fun _ => rfl, rfl, rfl⟩)
  | slashed => exact .touched _ _ (fun cv => ⟨rfl, rfl, rfl, id, rfl, rfl⟩)
  | extended => exact .touched _ _ (fun cv => ⟨rfl, rfl, rfl, id, rfl, rfl⟩)
  | unregistered => exact .removed _
  | expired => exact .removed _

theorem NodeStep.providers {n n' : Node} {r : Request} (h : NodeStep o pc n r n')
    (hg : NodeGood o n) : ProvidersStep o pc r n.state.envelope.capacity_validators
      n'.state.envelope.capacity_validators := (h.capacity hg).providers

/-! ## Genesis -/

/-- The Ed25519 keys of the genesis validators. -/
def genesisKeys (cfg : GenesisConfig) : List Bytes := cfg.validators.filterMap (fun v => v.ed25519)

/-- The address that InitChain derives from the bytes of a key. -/
def genesisAddress (o : Outside) (bytes : Bytes) : Option Address :=
  (o.verifying_key (hex_encode bytes)).map o.address_of_key

/-- The entry that InitChain makes for a validator, unless it skips it. -/
def genesisEntry (o : Outside) (v : GenesisValidator) : Option ValidatorInfo := do
  let bytes ← v.ed25519
  guard (bytes.length = 32)
  let address ← genesisAddress o bytes
  let stake ← (genesisStake v.power).toOption
  some ⟨address, stake, bytes⟩

theorem initValidator_entries (acc : List ValidatorInfo × AppStateEnvelope) (v : GenesisValidator) :
    (initValidator o acc v).1 = acc.1 ++ (genesisEntry o v).toList := by
  unfold initValidator genesisEntry genesisAddress
  rcases v.ed25519 with _ | bytes
  · simp
  · by_cases hlength : bytes.length = 32
    · simp only [hlength, ne_eq, not_true_eq_false, if_false]
      have hhex : hex_encode bytes = bytes.flatMap (fun b => hexDigits 2 b.toNat) := rfl
      rw [← hhex]
      rcases hkey : o.verifying_key (hex_encode bytes) with _ | key
      · simp [hlength, hkey]
      · rcases hstake : genesisStake v.power with err | stake
        · simp [Except.toOption]
        · simp [hlength, hkey, Except.toOption]
    · simp [hlength]

theorem foldl_initValidator (validators : List GenesisValidator)
    (acc : List ValidatorInfo × AppStateEnvelope) :
    (validators.foldl (initValidator o) acc).1 = acc.1 ++ validators.filterMap (genesisEntry o) := by
  induction validators generalizing acc with
  | nil => simp
  | cons v validators ih =>
    rw [List.foldl_cons, ih, initValidator_entries, List.filterMap_cons, List.append_assoc]
    rcases genesisEntry o v with _ | entry <;> rfl

theorem genesisEntry_eq_some {v : GenesisValidator} {entry : ValidatorInfo}
    (h : genesisEntry o v = some entry) :
    v.ed25519 = some entry.public_key ∧ genesisAddress o entry.public_key = some entry.address := by
  unfold genesisEntry at h
  obtain ⟨bytes, hbytes, h⟩ := Option.bind_eq_some_iff.mp h
  obtain ⟨_, _, h⟩ := Option.bind_eq_some_iff.mp h
  obtain ⟨address, haddress, h⟩ := Option.bind_eq_some_iff.mp h
  obtain ⟨stake, _, h⟩ := Option.bind_eq_some_iff.mp h
  cases h
  exact ⟨hbytes, haddress⟩

/-- No two keys of genesis have one address. -/
def DerivesApart (o : Outside) (cfg : GenesisConfig) : Prop :=
  ∀ a ∈ genesisKeys cfg, ∀ b ∈ genesisKeys cfg, (genesisAddress o a).isSome = true →
    genesisAddress o a = genesisAddress o b → a = b

theorem genesisValidators_nodup (hkeys : (genesisKeys cfg).Nodup) (hapart : DerivesApart o cfg) :
    ((genesisValidators o cfg).map (fun v => v.address)).Nodup := by
  unfold genesisValidators
  rw [foldl_initValidator, List.nil_append]
  unfold List.Nodup
  rw [List.pairwise_map, List.pairwise_filterMap]
  have hpairs := List.pairwise_filterMap.mp hkeys
  refine hpairs.imp_of_mem ?_
  intro v w hv hw hne entry hentry entry' hentry' heq
  obtain ⟨hkey, haddress⟩ := genesisEntry_eq_some hentry
  obtain ⟨hkey', haddress'⟩ := genesisEntry_eq_some hentry'
  refine hne _ hkey _ hkey' (hapart _ ?_ _ ?_ ?_ ?_)
  · exact List.mem_filterMap.mpr ⟨v, hv, hkey⟩
  · exact List.mem_filterMap.mpr ⟨w, hw, hkey'⟩
  · rw [haddress]
    rfl
  · rw [haddress, haddress', heq]

/-- Entries that extend those of genesis are apart if those are. -/
theorem Extends.nodup_all {genesis vs : List ValidatorInfo} (h : Extends genesis vs)
    (hgenesis : (genesis.map (fun v => v.address)).Nodup) : (vs.map (fun v => v.address)).Nodup := by
  rw [← List.take_append_drop genesis.length vs, List.map_append, List.nodup_append]
  refine ⟨by rw [h.old]; exact hgenesis, h.nodup, fun a ha b hb heq => ?_⟩
  obtain ⟨v, hv, rfl⟩ := List.mem_map.mp hb
  rw [h.old, heq] at ha
  exact h.apart v hv ha

/-! ## Declared registrations -/

theorem chunk_count_read {members : Members} {t : RegisterCapacityTx}
    (h : PayloadInner.decode members = some (.RegisterCapacity t)) :
    required asUInt32 members "chunk_count" = some t.chunk_count := by
  obtain ⟨type_, _, hdecode⟩ := List.exists_of_findSome?_eq_some h
  cases type_ with
  | RegisterCapacity =>
    obtain ⟨t', hread, heq⟩ := Option.map_eq_some_iff.mp hdecode
    cases heq
    simp only [RegisterCapacityTx.decode, bind, Option.bind_eq_some_iff] at hread
    obtain ⟨_, _, _, _, _, _, _, _, count, hcount, hnew⟩ := hread
    rw [hcount]
    unfold RegisterCapacityTx.new at hnew
    split at hnew
    · cases hnew
    · cases hnew
      rfl
  | _ =>
    obtain ⟨_, _, heq⟩ := Option.map_eq_some_iff.mp hdecode
    cases heq

/-- The count that the checks saw is the one that the decoder read. -/
theorem Shows.chunk_count {members payload : Members} {t : RegisterCapacityTx}
    (hshows : Shows payload .RegisterCapacity)
    (hout : s.valueMembers [] members = some payload)
    (hinner : PayloadInner.decode (innerMembers members) = some (.RegisterCapacity t)) :
    t.chunk_count ≠ 0 := by
  have hread := chunk_count_read hinner
  obtain ⟨_, _, _, _, count, _, _, _, _, _, _, _, hfound, hpos⟩ := hshows
  rw [← required_eq_found (leaf_asUnsigned s) hout (once_of_required hread) (by decide)] at hfound
  obtain ⟨j, hj, hcount⟩ := required_eq_some.mp hfound
  obtain ⟨j', hj', hcount'⟩ := required_eq_some.mp hread
  rw [hj] at hj'
  cases hj'
  obtain ⟨rfl, _⟩ := asUnsigned_eq_some hcount
  obtain ⟨n, hn, heq⟩ := Option.map_eq_some_iff.mp hcount'
  obtain ⟨hint, hlt⟩ := asUnsigned_eq_some hn
  have hsame : count = n := Int.ofNat.inj (Json.int.inj hint)
  intro hzero
  rw [hzero] at heq
  have hnat := congrArg UInt32.toNat heq
  rw [UInt32.toNat_ofNat_of_lt' hlt] at hnat
  simp only [UInt32.toNat_zero] at hnat
  omega

/-- What DeliverTx decodes passed the structural checks. -/
theorem deliverDecode_passes {tx_bytes : Bytes} {tx : Tx}
    (h : deliverDecode o pc s tx_bytes = .ok tx) : ∃ text v, s.from_str_value text = .ok v ∧
      validate_transaction_structure v = .ok () ∧ s.from_str_tx o text = .ok tx := by
  simp only [deliverDecode, unless_eq_ok, bind_eq_ok, mapError_eq_ok, exists_unit] at h
  obtain ⟨_, _, _, _, _, _, text, _, _, v, hv, hvalid, htx⟩ := h
  exact ⟨text, v, hv, hvalid, htx⟩

/-- A registration that is declared as one counts its chunks. -/
theorem declared_registration_counts {tx_bytes : Bytes} {tx : Tx} {t : RegisterCapacityTx}
    (h : deliverDecode o pc s tx_bytes = .ok tx)
    (htype : tx.payload.type_ = key TxType.RegisterCapacity.as_str)
    (hinner : tx.payload.inner = .RegisterCapacity t) : t.chunk_count ≠ 0 := by
  obtain ⟨text, v, hvalue, hvalid, htx⟩ := deliverDecode_passes h
  obtain ⟨j, htree, _, hv⟩ := SerdeJson.from_str_value_eq_ok.mp hvalue
  obtain ⟨j', htree', hdecode⟩ := SerdeJson.from_str_tx_eq_ok.mp htx
  rw [htree] at htree'
  cases htree'
  obtain ⟨declared, obj, payload, hpasses⟩ := (validate_transaction_structure_eq_ok v).mp hvalid
  obtain ⟨hmembers, hname, hread⟩ := hpasses.decoded hv hdecode
  have hsame : declared = .RegisterCapacity := TxType.as_str_inj (hname.symm.trans htype)
  rw [hsame] at hpasses
  rw [hinner] at hread
  exact hpasses.shows.chunk_count hmembers hread

/-! ## Whole runs -/

/-- The bytes are a registration of no chunks that is declared as something else. -/
def DisguisedRegistration (o : Outside) (pc : ProtocolConstants) (s : SerdeJson)
    (tx_bytes : Bytes) : Prop :=
  ∃ tx t, deliverDecode o pc s tx_bytes = .ok tx ∧ tx.payload.inner = .RegisterCapacity t ∧
    t.chunk_count = 0 ∧ tx.payload.type_ ≠ key TxType.RegisterCapacity.as_str

/-- Every transaction of the calls came in as bytes. -/
def FromBytes (o : Outside) (pc : ProtocolConstants) (s : SerdeJson) (requests : List Request) :
    Prop :=
  ∀ request, .DeliverTx request ∈ requests → ∃ tx_bytes, request = deliverDecode o pc s tx_bytes

theorem genesis_providers (o : Outside) (pc : ProtocolConstants) (cfg : GenesisConfig) :
    (genesis o pc cfg).state.envelope.capacity_validators = [] := by
  obtain ⟨selected, cache, _, heq⟩ := genesis.spec o pc cfg
  exact congrArg AppStateEnvelope.capacity_validators heq

theorem providers_nodup {requests : List Request} {n : Node} (hrun : RunsTo o pc cfg requests n) :
    (n.state.envelope.capacity_validators.map (fun cv => cv.address)).Nodup := by
  refine runs.run_induction (Node.step o pc) (fun _ m =>
    (m.state.envelope.capacity_validators.map (fun cv => cv.address)).Nodup) ?_ ?_ hrun
  · rw [genesis_providers]
    exact List.nodup_nil
  · intro earlier m r m' hm hnodup hstep
    exact ((step_cases hstep).providers (reachable_good ⟨earlier, hm⟩)).nodup hnodup

/-- A run in which every registration counts a chunk leaves well-formed entries. -/
theorem providers_well_formed {requests : List Request} {n : Node}
    (hrun : RunsTo o pc cfg requests n)
    (hcounts : ∀ r ∈ requests, ∀ t, r.Registers t → t.chunk_count ≠ 0) :
    ∀ cv ∈ n.state.envelope.capacity_validators, cv.WellFormed o := by
  revert hcounts
  -- by induction on the run; the condition on its calls is handed on to the earlier ones
  refine runs.run_induction (Node.step o pc) (fun earlier m =>
    (∀ r ∈ earlier, ∀ t, r.Registers t → t.chunk_count ≠ 0) →
      ∀ cv ∈ m.state.envelope.capacity_validators, cv.WellFormed o) ?_ ?_ hrun
  · intro _ cv hcv
    rw [genesis_providers] at hcv
    cases hcv
  · intro earlier m r m' hm ih hstep hall
    have hearlier : ∀ cv ∈ m.state.envelope.capacity_validators, cv.WellFormed o := by
      refine ih (fun r' hr' => ?_)
      exact hall r' (List.mem_append_left _ hr')
    refine ((step_cases hstep).providers (reachable_good ⟨earlier, hm⟩)).well_formed ?_ hearlier
    exact hall r (List.mem_append_right _ (List.mem_singleton_self r))

/-- In every run from distinct keys, in which no registration of no chunks is disguised, the
registries are well formed. -/
theorem registries_well_formed (o : Outside) (pc : ProtocolConstants) (s : SerdeJson)
    (cfg : GenesisConfig) (hkeys : (genesisKeys cfg).Nodup) (hapart : DerivesApart o cfg)
    (requests : List Request) (n : Node) (hrun : RunsTo o pc cfg requests n)
    (hbytes : FromBytes o pc s requests)
    (hdeclared : ∀ tx_bytes, .DeliverTx (deliverDecode o pc s tx_bytes) ∈ requests →
      ¬ DisguisedRegistration o pc s tx_bytes) :
    WellFormedRegistries o n.state.envelope := by
  have hcounts : ∀ r ∈ requests, ∀ t, r.Registers t → t.chunk_count ≠ 0 := by
    rintro r hr t ⟨tx, rfl, hinner⟩ hzero
    obtain ⟨tx_bytes, hdecode⟩ := hbytes _ hr
    by_cases htype : tx.payload.type_ = key TxType.RegisterCapacity.as_str
    · exact declared_registration_counts hdecode.symm htype hinner hzero
    · rw [hdecode] at hr
      exact hdeclared tx_bytes hr ⟨tx, t, hdecode.symm, hinner, hzero, htype⟩
  refine ⟨?_, providers_nodup hrun, providers_well_formed hrun hcounts⟩
  exact (list_shape hrun).extends_genesis.nodup_all (genesisValidators_nodup hkeys hapart)

/-! ## From bytes -/

theorem length_hex_encode_tx (tx : Tx) : (hex_encode_tx tx).length = 2 * utf8Len tx.to_string := by
  unfold hex_encode_tx
  rw [(hexPairs_encode _ 0).2, length_bytes]

/-- A written transaction whose payload shows what its declared type asks for is decoded, if
it is not too long. -/
theorem deliverDecode_written {tx : Tx} {t : TxType} {obj payload : Members} (hwired : tx.Wired o)
    (hw : tx.Written s obj payload) (hsize : 2 * utf8Len tx.to_string ≤ pc.max_tx_bytes)
    (hshort : utf8Len tx.to_string ≤ 1024 * 1024) (hscan : scanBrackets 10 0 tx.to_string = .ok 0)
    (hfee : tx.fee ≤ 2 ^ 32 - 1) (htype : tx.payload.type_ = key t.as_str)
    (hshows : Shows payload t) : deliverDecode o pc s (hex_encode_tx tx) = .ok tx := by
  have htext : utf8Len tx.to_string ≤ MAX_TRANSACTION_SIZE_BYTES := by
    unfold MAX_TRANSACTION_SIZE_BYTES
    omega
  have hlength := length_hex_encode_tx tx
  have hjson : validate_json_string s tx.to_string (10 * 1024 * 1024) 10 = .ok () :=
    validate_json_string_eq_ok.mpr ⟨tx.to_string_ne_nil, htext, hscan, _, hw.parses⟩
  have hvalid : validate_transaction_structure (.obj obj) = .ok () :=
    (validate_transaction_structure_eq_ok _).mpr
      ⟨t, obj, payload, hw.passes hwired htext hfee htype hshows⟩
  exact (deliverDecode_eq_ok (by omega) (wireText_hex_encode_tx tx)
    (Tx.from_to_string _ hwired)).mpr ⟨rfl, by omega, hjson, _, hw.parses, hvalid⟩

theorem smallConstants_max_tx_bytes : 2000 ≤ smallConstants.max_tx_bytes := by decide

/-- The registration of Alice, as it is sent. -/
theorem deliverDecode_registration : deliverDecode Outside.toy smallConstants SerdeJson.plain
    (hex_encode_tx registration) = .ok registration := by
  have hwired : registration.Wired Outside.toy := signed_wired 1 1 _ _
  obtain ⟨obj, payload, hw⟩ := registration.written SerdeJson.plain (by decide)
  have hsize : utf8Len registration.to_string ≤ 1000 := by decide +kernel
  have hmax := smallConstants_max_tx_bytes
  refine deliverDecode_written (t := .RegisterCapacity) hwired hw (by omega) (by omega)
    (by decide +kernel) (by decide) rfl ?_
  exact (register_capacity_shows_iff hw.members).mpr (by decide)

/-- A block of one transaction that came in as bytes. -/
def blockOf (tx_bytes : Bytes) : List Request :=
  [.BeginBlock, .DeliverTx (deliverDecode Outside.toy smallConstants SerdeJson.plain tx_bytes),
    .EndBlock (smallHeight 1), .Commit]

theorem blockOf_fromBytes (tx_bytes : Bytes) :
    FromBytes Outside.toy smallConstants SerdeJson.plain (blockOf tx_bytes) := by
  intro request hr
  simp only [blockOf, List.mem_cons, Request.DeliverTx.injEq, reduceCtorEq, List.not_mem_nil,
    or_false, false_or] at hr
  exact ⟨tx_bytes, hr⟩

/-- The only key of the chain with one validator. -/
theorem validatorConfig_keys : genesisKeys validatorConfig = [List.replicate 32 3] := rfl

theorem validatorConfig_apart :
    (genesisKeys validatorConfig).Nodup ∧ DerivesApart Outside.toy validatorConfig := by
  unfold DerivesApart
  rw [validatorConfig_keys]
  refine ⟨List.nodup_singleton _, fun a ha b hb _ _ => ?_⟩
  rw [List.mem_singleton.mp ha, List.mem_singleton.mp hb]

theorem registries_well_formed_of_registration :
    ∃ n, RunsTo Outside.toy smallConstants validatorConfig (blockOf (hex_encode_tx registration)) n ∧
      n.state.envelope.capacity_validators.map (fun cv => cv.address) = [alice] ∧
      WellFormedRegistries Outside.toy n.state.envelope := by
  have hbytes := blockOf_fromBytes (hex_encode_tx registration)
  have hdeclared : ∀ tx_bytes, Request.DeliverTx
      (deliverDecode Outside.toy smallConstants SerdeJson.plain tx_bytes) ∈
        blockOf (hex_encode_tx registration) →
      ¬ DisguisedRegistration Outside.toy smallConstants SerdeJson.plain tx_bytes := by
    rintro tx_bytes hr ⟨tx, t, hdecode, _, _, htype⟩
    simp only [blockOf, List.mem_cons, Request.DeliverTx.injEq, reduceCtorEq, List.not_mem_nil,
      or_false, false_or] at hr
    rw [hr, deliverDecode_registration] at hdecode
    rw [← Except.ok.inj hdecode] at htype
    exact htype rfl
  have hends : ∃ n, RunsTo Outside.toy smallConstants validatorConfig
      (blockOf (hex_encode_tx registration)) n ∧
      (n.state.envelope.capacity_validators.map (fun cv => cv.address) == [alice]) = true := by
    unfold blockOf
    rw [deliverDecode_registration]
    exact validatorRun_ends (by decide +kernel)
  obtain ⟨n, hn, heval⟩ := hends
  exact ⟨n, hn, beq_iff_eq.mp heval, registries_well_formed Outside.toy smallConstants
    SerdeJson.plain validatorConfig validatorConfig_apart.1 validatorConfig_apart.2 _ n hn hbytes
    hdeclared⟩

/-! ## A registration of no chunks -/

/-- The fields of a registration are all that the checks of a new root ask for. -/
theorem register_capacity_shows_update {t : RegisterCapacityTx} {type_ : Text} {payload : Members}
    (h : s.valueMembers [] ((key "type", .str type_) :: (PayloadInner.RegisterCapacity t).members)
      = some payload) : Shows payload .UpdateCapacityMerkleRoot := by
  refine ⟨t.sender, _, written_sender h, ?_, hex32_hexUpTo t.merkle_root⟩
  exact written_str h (by decide) (by simp [PayloadInner.members, entries_cons, hex32Json])

/-- Alice registers one byte and no chunk, and declares a new root. -/
def disguised : Tx :=
  signed 1 1 "UpdateCapacityMerkleRoot" (.RegisterCapacity ⟨alice, 1, 8, 9, 0, oneByte_ne⟩)

theorem deliverDecode_disguised : deliverDecode Outside.toy smallConstants SerdeJson.plain
    (hex_encode_tx disguised) = .ok disguised := by
  have hwired : disguised.Wired Outside.toy := signed_wired 1 1 _ _
  obtain ⟨obj, payload, hw⟩ := disguised.written SerdeJson.plain (by decide)
  have hsize : utf8Len disguised.to_string ≤ 1000 := by decide +kernel
  have hmax := smallConstants_max_tx_bytes
  exact deliverDecode_written (t := .UpdateCapacityMerkleRoot) hwired hw (by omega) (by omega)
    (by decide +kernel) (by decide) rfl (register_capacity_shows_update hw.members)

/-- The block with these bytes leaves a provider of no chunks. -/
theorem disguised_registers_no_chunks :
    (genesisKeys validatorConfig).Nodup ∧ DerivesApart Outside.toy validatorConfig ∧
      FromBytes Outside.toy smallConstants SerdeJson.plain (blockOf (hex_encode_tx disguised)) ∧
      ∃ n cv, RunsTo Outside.toy smallConstants validatorConfig
          (blockOf (hex_encode_tx disguised)) n ∧
        cv ∈ n.state.envelope.capacity_validators ∧ cv.address = alice ∧ cv.chunk_count = some 0 ∧
        ¬ WellFormedRegistries Outside.toy n.state.envelope := by
  have hends : ∃ n, RunsTo Outside.toy smallConstants validatorConfig
      (blockOf (hex_encode_tx disguised)) n ∧
      (n.state.envelope.capacity_validators.any (fun cv =>
        cv.address == alice && cv.chunk_count == some 0)) = true := by
    unfold blockOf
    rw [deliverDecode_disguised]
    exact validatorRun_ends (by decide +kernel)
  obtain ⟨n, hn, heval⟩ := hends
  obtain ⟨cv, hcv, hentry⟩ := List.any_eq_true.mp heval
  simp only [Bool.and_eq_true, beq_iff_eq] at hentry
  refine ⟨validatorConfig_apart.1, validatorConfig_apart.2, blockOf_fromBytes _, n, cv, hn, hcv,
    hentry.1, hentry.2, fun hw => ?_⟩
  obtain ⟨count, hcount, hpos⟩ := (hw.entries cv hcv).chunks
  rw [hentry.2] at hcount
  rw [← Option.some.inj hcount] at hpos
  exact absurd hpos (by decide)

end eld_chain
