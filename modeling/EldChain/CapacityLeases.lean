-- The leases of the capacity providers. A lease is two fields, and three
-- parts of the chain write or read them at their own idea of the height. A
-- registration or a proof that holds makes the lease run for its full
-- time from its block, nothing else moves it, and the entry leaves at the
-- first epoch that opens after the lease.
import EldChain.CapacityRegistry
import EldChain.EpochRecords

open Std

namespace eld_chain

variable {o : Outside} {pc : ProtocolConstants} {cfg : GenesisConfig}

/-! ## Leases -/

/-- The last block of a lease. -/
def CapacityValidatorInfo.lease_end (cv : CapacityValidatorInfo) : Nat :=
  cv.registered_block.toNat + cv.registration_duration.toNat

/-- The height of the block that is open, or of the last one. -/
def Node.height (n : Node) : Int :=
  match n.phase with
  | .delivering => n.state.envelope.block_height.val + 1
  | _ => n.state.envelope.block_height.val

/-- The last block of a lease that starts now. -/
def Node.full_lease (pc : ProtocolConstants) (n : Node) : Int :=
  n.height + pc.registration_duration_blocks.toNat

def Node.providers (n : Node) : List CapacityValidatorInfo := n.state.envelope.capacity_validators

/-- What a call may do to the leases. -/
structure LeaseDiscipline (o : Outside) (pc : ProtocolConstants) (n : Node) (r : Request)
    (n' : Node) : Prop where
  changed : ∀ cv ∈ n.providers, ∀ cv' ∈ n'.providers, cv'.address = cv.address →
    cv'.lease_end ≠ cv.lease_end →
    (∃ t, n.Delivers o pc r (.RegisterCapacity t) ∧ t.sender = cv.address) ∨
    ∃ vp, n.Delivers o pc r (.VerifiedProof vp) ∧ n.Proves o pc r vp ∧
      vp.capacity_provider = cv.address
  extended : ∀ vp, n.Delivers o pc r (.VerifiedProof vp) → vp.failed = false →
    ∀ cv ∈ n.providers, cv.address = vp.capacity_provider → ∃ cv' ∈ n'.providers,
      cv'.address = cv.address ∧ (cv'.lease_end : Int) = n.full_lease pc ∧
      cv.lease_end ≤ cv'.lease_end
  bounded : ∀ cv ∈ n'.providers, (cv.lease_end : Int) ≤ n'.full_lease pc
  expired : ∀ height, n.OpensEpoch pc r height → ∀ cv ∈ n.providers,
    (cv ∉ n'.providers ↔ (cv.lease_end : Int) < height.val)
  removed : ∀ cv ∈ n.providers, (∀ cv' ∈ n'.providers, cv'.address ≠ cv.address) →
    (∃ t, n.Delivers o pc r (.UnregisterCapacity t) ∧ t.sender = cv.address) ∨
    ∃ height, n.OpensEpoch pc r height ∧ (cv.lease_end : Int) < height.val

/-! ## Entries -/

/-- An entry whose lease has started and is no longer than a new one. -/
structure CapacityValidatorInfo.Leased (pc : ProtocolConstants) (height : Int)
    (cv : CapacityValidatorInfo) : Prop where
  started : cv.registered_block ≠ 0 ∧ (cv.registered_block.toNat : Int) ≤ height
  bounded : (cv.lease_end : Int) ≤ height + pc.registration_duration_blocks.toNat

theorem CapacityValidatorInfo.Leased.mono {height height' : Int} {cv : CapacityValidatorInfo}
    (h : cv.Leased pc height) (hle : height ≤ height') : cv.Leased pc height' := by
  obtain ⟨⟨hne, hstart⟩, hbound⟩ := h
  exact ⟨⟨hne, by omega⟩, by omega⟩

/-- The same lease, under the same address. -/
structure SameLease (cv cv' : CapacityValidatorInfo) : Prop where
  address : cv'.address = cv.address
  registered_block : cv'.registered_block = cv.registered_block
  registration_duration : cv'.registration_duration = cv.registration_duration

theorem SameLease.lease_end {cv cv' : CapacityValidatorInfo} (h : SameLease cv cv') :
    cv'.lease_end = cv.lease_end := by
  unfold CapacityValidatorInfo.lease_end
  rw [h.registered_block, h.registration_duration]

theorem SameLease.leased {cv cv' : CapacityValidatorInfo} {height : Int} (h : SameLease cv cv')
    (hcv : cv.Leased pc height) : cv'.Leased pc height := by
  refine ⟨?_, ?_⟩
  · rw [h.registered_block]
    exact hcv.started
  · rw [h.lease_end]
    exact hcv.bounded

/-- A block height that fits leaves room for the next block. -/
structure FitsLease (pc : ProtocolConstants) (height : I64) : Prop where
  nonneg : 0 ≤ height.val
  fits : height.val + 1 + pc.registration_duration_blocks.toNat < 2 ^ 64

variable {height : I64}

theorem FitsLease.next (h : FitsLease pc height) :
    ((asU64 (height.val + 1)).toNat : Int) = height.val + 1 := by
  obtain ⟨hnonneg, hfits⟩ := h
  apply toNat_asU64
  · omega
  · omega

/-- A registration starts a full lease. -/
theorem lease_of_registration (h : FitsLease pc height) {cv : CapacityValidatorInfo}
    (hblock : cv.registered_block = asU64 (height.val + 1))
    (hduration : cv.registration_duration = pc.registration_duration_blocks) :
    (cv.lease_end : Int) = height.val + 1 + pc.registration_duration_blocks.toNat ∧
      cv.Leased pc (height.val + 1) := by
  have hnext := h.next
  have hnonneg := h.nonneg
  have hend : (cv.lease_end : Int) = height.val + 1 + pc.registration_duration_blocks.toNat := by
    unfold CapacityValidatorInfo.lease_end
    rw [hblock, hduration]
    omega
  refine ⟨hend, ⟨?_, ?_⟩, by omega⟩
  · rw [hblock]
    intro hzero
    rw [hzero] at hnext
    simp at hnext
    omega
  · rw [hblock, hnext]

/-- A proof makes a started lease a full one. -/
theorem lease_of_proof (h : FitsLease pc height) {cv : CapacityValidatorInfo}
    (hcv : cv.Leased pc (height.val + 1)) :
    ((extendCapacityValidator pc height cv).lease_end : Int) =
      height.val + 1 + pc.registration_duration_blocks.toNat ∧
      (extendCapacityValidator pc height cv).Leased pc (height.val + 1) := by
  have hnext := h.next
  obtain ⟨⟨hne, hstart⟩, _⟩ := hcv
  have hfits := h.fits
  have hend : ((extendCapacityValidator pc height cv).lease_end : Int) =
      height.val + 1 + pc.registration_duration_blocks.toNat := by
    unfold CapacityValidatorInfo.lease_end extendCapacityValidator UInt64.saturating_sub
    simp only [UInt64.toNat_add, UInt64.toNat_ofNat']
    omega
  exact ⟨hend, ⟨hne, hstart⟩, by omega⟩

/-! ## What a call leaves -/

variable {n n' : Node} {r : Request} {l l' : List CapacityValidatorInfo}

/-- An entry after a call: with the lease of before, just registered, or extended by a proof. -/
inductive LeaseEntry (o : Outside) (pc : ProtocolConstants) (n : Node) (r : Request)
    (l : List CapacityValidatorInfo) (cv' : CapacityValidatorInfo) : Prop
  | same {cv : CapacityValidatorInfo} (mem : cv ∈ l) (lease : SameLease cv cv')
  | registered {t : RegisterCapacityTx} (delivers : n.Delivers o pc r (.RegisterCapacity t))
      (sender : t.sender = cv'.address)
      (block : cv'.registered_block = asU64 (n.state.envelope.block_height.val + 1))
      (duration : cv'.registration_duration = pc.registration_duration_blocks)
  | extended {vp : VerifiedProofTx} {cv : CapacityValidatorInfo}
      (delivers : n.Delivers o pc r (.VerifiedProof vp)) (failed : vp.failed = false)
      (mem : cv ∈ l) (provider : cv.address = vp.capacity_provider)
      (entry : cv' = extendCapacityValidator pc n.state.envelope.block_height cv)

theorem LeaseEntry.refl {cv : CapacityValidatorInfo} (h : cv ∈ l) : LeaseEntry o pc n r l cv :=
  .same h ⟨rfl, rfl, rfl⟩

theorem CapacityStep.entry (h : CapacityStep o pc n r l l') {cv' : CapacityValidatorInfo}
    (hmem : cv' ∈ l') : LeaseEntry o pc n r l cv' := by
  cases h with
  | kept => exact .refl hmem
  | added delivers owner fresh =>
    rw [List.mem_append, List.mem_singleton] at hmem
    rcases hmem with hmem | rfl
    · exact .refl hmem
    · exact .registered delivers rfl rfl rfl
  | renewed delivers =>
    rcases mem_updateFirst hmem with hmem | ⟨cv, hcv, hsender, rfl⟩
    · exact .refl hmem
    · exact .registered delivers (beq_iff_eq.mp hsender).symm rfl rfl
  | rerooted delivers =>
    rcases mem_updateFirst hmem with hmem | ⟨cv, hcv, _, rfl⟩
    · exact .refl hmem
    · exact .same hcv ⟨rfl, rfl, rfl⟩
  | slashed delivers failed =>
    rcases mem_updateFirst hmem with hmem | ⟨cv, hcv, _, rfl⟩
    · exact .refl hmem
    · exact .same hcv ⟨rfl, rfl, rfl⟩
  | extended delivers failed =>
    rcases mem_updateFirst hmem with hmem | ⟨cv, hcv, hprovider, rfl⟩
    · exact .refl hmem
    · rw [Bool.and_eq_true, beq_iff_eq] at hprovider
      exact .extended delivers failed hcv hprovider.1 rfl
  | unregistered => exact .refl (List.mem_of_mem_filter hmem)
  | expired => exact .refl (List.mem_of_mem_filter hmem)

theorem Node.Delivers.unique {inner inner' : PayloadInner} (h : n.Delivers o pc r inner)
    (h' : n.Delivers o pc r inner') : inner = inner' := by
  obtain ⟨tx, rfl, hinner, _⟩ := h
  exact hinner.symm.trans h'.of_tx.1

theorem Node.Delivers.not_end {inner : PayloadInner} (h : n.Delivers o pc r inner)
    (height : I64) : ¬ n.OpensEpoch pc r height := by
  obtain ⟨tx, rfl, _⟩ := h
  exact not_opensEpoch_deliver _ height

/-- An entry whose address is gone was taken out by its owner or by a new epoch. -/
theorem CapacityStep.removed (h : CapacityStep o pc n r l l') {cv : CapacityValidatorInfo}
    (hmem : cv ∈ l) (hgone : ∀ cv' ∈ l', cv'.address ≠ cv.address) :
    (∃ t, n.Delivers o pc r (.UnregisterCapacity t) ∧ t.sender = cv.address) ∨
    ∃ height, n.OpensEpoch pc r height ∧
      l' = expire_capacity_registrations l (asU64 height.val) := by
  have htouched : ∀ (p : CapacityValidatorInfo → Bool) (f : CapacityValidatorInfo →
      CapacityValidatorInfo), (∀ cv, (f cv).address = cv.address) → l' ≠ updateFirst p f l := by
    rintro p f hf rfl
    have haddress : cv.address ∈ (updateFirst p f l).map (fun cv => cv.address) := by
      rw [map_address_touched hf]
      exact List.mem_map_of_mem hmem
    obtain ⟨cv', hcv', heq⟩ := List.mem_map.mp haddress
    exact hgone cv' hcv' heq
  cases h with
  | kept => exact absurd rfl (hgone cv hmem)
  | added => exact absurd rfl (hgone cv (List.mem_append_left _ hmem))
  | renewed => exact absurd rfl (htouched _ _ (fun _ => rfl))
  | rerooted => exact absurd rfl (htouched _ _ (fun _ => rfl))
  | slashed => exact absurd rfl (htouched _ _ (fun _ => rfl))
  | extended => exact absurd rfl (htouched _ _ (fun _ => rfl))
  | @unregistered t delivers =>
    left
    refine ⟨t, delivers, ?_⟩
    by_contra hne
    apply hgone cv ?_ rfl
    rw [List.mem_filter, bne_iff_ne]
    exact ⟨hmem, fun heq => hne heq.symm⟩
  | expired opens => exact Or.inr ⟨_, opens, rfl⟩

/-- A new epoch takes out the leases that ended before its first block. -/
theorem mem_expire_iff {cv : CapacityValidatorInfo} (hmem : cv ∈ l) {height : I64}
    (hnonneg : 0 ≤ height.val) (hfits : cv.lease_end < 2 ^ 64) :
    cv ∉ expire_capacity_registrations l (asU64 height.val) ↔
      (cv.lease_end : Int) < height.val := by
  have hhi := height.hi
  have hheight : ((asU64 height.val).toNat : Int) = height.val := by
    apply toNat_asU64
    · omega
    · omega
  unfold expire_capacity_registrations
  rw [List.mem_filter, not_and]
  unfold capacity_registration_expired UInt64.saturating_add
  unfold CapacityValidatorInfo.lease_end at hfits ⊢
  simp only [hmem, forall_const, Bool.not_eq_true', decide_eq_false_iff_not, not_not,
    UInt64.lt_iff_toNat_lt, UInt64.toNat_ofNat']
  omega

/-! ## Heights -/

/-- The height of a node never falls. -/
theorem NodeStep.height_le (h : NodeStep o pc n r n') (hg : NodeGood o n) (hd : NodeDated pc n) :
    n.height ≤ n'.height := by
  cases h with
  | begun phase =>
    have hstate := state_of_idle phase
    unfold Node.height
    rw [phase, hstate]
    exact Int.le_add_one le_rfl
  | turned_away => exact le_rfl
  | @delivered tx s phase admitted =>
    obtain ⟨hcharged, _, hout⟩ := @NodeGood.of_admission o pc _ _ _ hg phase admitted
    have hheight := (hcharged.framed.trans hout.framed).block_height
    unfold Node.height
    rw [phase]
    change _ ≤ (tx.process o pc n.conn.storage s.envelope).2.block_height.val + 1
    rw [hheight]
  | @ended height s s' out phase grows current ends =>
    obtain ⟨hstate, _⟩ := hg.of_current (by simp [phase]) current
    have hopen := hd.open_block phase
    have hworking := hd.working
    rw [hstate] at hopen hworking
    obtain ⟨hheight, _⟩ := endBlock_dated ends hworking (by rw [hopen]; exact grows)
    unfold Node.height
    rw [phase, hstate, hopen]
    change _ ≤ s'.envelope.block_height.val
    rw [hheight]
    exact grows
  | @committed s c' phase current commits =>
    obtain ⟨hstate, hgood⟩ := hg.of_current (by simp [phase]) current
    unfold Node.height
    rw [phase, hstate]
    change _ ≤ c'.committed_state.envelope.block_height.val
    rw [(commit_inner.spec current hgood commits).envelope.block_height]
  | uploaded content_key blob => exact le_rfl

theorem height_of_delivering (h : n.phase = .delivering) :
    n.height = n.state.envelope.block_height.val + 1 := by
  unfold Node.height
  rw [h]

/-! ## One call -/

/-- A node whose leases have started and are no longer than a new one, one for each address. -/
structure NodeLeases (o : Outside) (pc : ProtocolConstants) (n : Node) : Prop where
  good : NodeGood o n
  dated : NodeDated pc n
  nodup : (n.providers.map (fun cv => cv.address)).Nodup
  leased : ∀ cv ∈ n.providers, cv.Leased pc n.height

/-- A full lease of the open block fits 64 bits. -/
def Node.LeaseFits (pc : ProtocolConstants) (n : Node) : Prop := n.full_lease pc < 2 ^ 64

theorem NodeLeases.fits (h : NodeLeases o pc n) (hfits : n.LeaseFits pc)
    (hphase : n.phase = .delivering) : FitsLease pc n.state.envelope.block_height := by
  unfold Node.LeaseFits Node.full_lease at hfits
  rw [height_of_delivering hphase] at hfits
  exact ⟨h.dated.working.height, hfits⟩

theorem NodeStep.delivering_of_deliver {request : Except ResponseDeliverTx Tx}
    (h : NodeStep o pc n (.DeliverTx request) n') :
    n.phase = .delivering ∧ n'.phase = .delivering := by
  cases h with
  | turned_away request phase => exact ⟨phase, phase⟩
  | delivered phase => exact ⟨phase, rfl⟩

/-- The call starts a lease, or extends the one of a registered provider. -/
def Node.GrantsLease (o : Outside) (pc : ProtocolConstants) (n : Node) (r : Request) : Prop :=
  (∃ t, n.Delivers o pc r (.RegisterCapacity t)) ∨
  ∃ vp, n.Delivers o pc r (.VerifiedProof vp) ∧ vp.failed = false ∧
    ∃ cv ∈ n.providers, cv.address = vp.capacity_provider

theorem NodeStep.delivering_of_delivers {inner : PayloadInner} (h : NodeStep o pc n r n')
    (hdelivers : n.Delivers o pc r inner) : n.phase = .delivering := by
  obtain ⟨tx, rfl, _⟩ := hdelivers
  exact h.delivering_of_deliver.1

/-- A call that grants a lease makes it a full one of the open block. -/
theorem NodeLeases.granted (h : NodeLeases o pc n) (hstep : NodeStep o pc n r n')
    (hfits : n.GrantsLease o pc r → n.LeaseFits pc) {cv' : CapacityValidatorInfo}
    (hcv' : cv' ∈ n'.providers) :
    (∃ cv ∈ n.providers, SameLease cv cv') ∨
    (n.LeaseFits pc ∧ (cv'.lease_end : Int) = n.full_lease pc ∧ cv'.Leased pc n.height) := by
  cases (hstep.capacity h.good).entry hcv' with
  | same mem lease => exact Or.inl ⟨_, mem, lease⟩
  | registered delivers sender block duration =>
    have hroom := hfits (Or.inl ⟨_, delivers⟩)
    have hphase := hstep.delivering_of_delivers delivers
    obtain ⟨hend, hleased⟩ := lease_of_registration (h.fits hroom hphase) block duration
    rw [← height_of_delivering hphase] at hend hleased
    exact Or.inr ⟨hroom, hend, hleased⟩
  | extended delivers failed mem provider entry =>
    have hroom := hfits (Or.inr ⟨_, delivers, failed, _, mem, provider⟩)
    have hphase := hstep.delivering_of_delivers delivers
    have hbefore := h.leased _ mem
    rw [height_of_delivering hphase] at hbefore
    obtain ⟨hend, hleased⟩ := lease_of_proof (h.fits hroom hphase) hbefore
    rw [← height_of_delivering hphase, ← entry] at hend hleased
    exact Or.inr ⟨hroom, hend, hleased⟩

theorem NodeLeases.next (h : NodeLeases o pc n) (hfits : n.GrantsLease o pc r → n.LeaseFits pc)
    (hstep : NodeStep o pc n r n') : NodeLeases o pc n' := by
  have hheight := hstep.height_le h.good h.dated
  refine ⟨hstep.good h.good, hstep.dated h.good h.dated,
    (hstep.capacity h.good).providers.nodup h.nodup, fun cv' hcv' => ?_⟩
  rcases h.granted hstep hfits hcv' with ⟨cv, hcv, hsame⟩ | ⟨_, _, hleased⟩
  · exact (hsame.leased (h.leased cv hcv)).mono hheight
  · exact hleased.mono hheight

/-- A proof that takes effect makes the lease of its provider a full one. -/
theorem NodeLeases.extended (h : NodeLeases o pc n) (hfits : n.LeaseFits pc)
    (hstep : NodeStep o pc n r n') {vp : VerifiedProofTx}
    (hdelivers : n.Delivers o pc r (.VerifiedProof vp)) (hflag : vp.failed = false)
    {cv : CapacityValidatorInfo} (hcv : cv ∈ n.providers)
    (hprovider : cv.address = vp.capacity_provider) : ∃ cv' ∈ n'.providers,
      cv'.address = cv.address ∧ (cv'.lease_end : Int) = n.full_lease pc ∧
      cv.lease_end ≤ cv'.lease_end := by
  have hphase : n.phase = .delivering := by
    obtain ⟨tx, rfl, _⟩ := hdelivers
    exact hstep.delivering_of_deliver.1
  have hold := height_of_delivering hphase
  have hleased := h.leased cv hcv
  rw [hold] at hleased
  have hcapacity := hstep.capacity h.good
  generalize hl' : n'.state.envelope.capacity_validators = l' at hcapacity
  have hmem : extendCapacityValidator pc n.state.envelope.block_height cv ∈ l' := by
    cases hcapacity with
    | kept unproved =>
      rw [unproved vp hdelivers] at hflag
      cases hflag
    | added delivers => cases delivers.unique hdelivers
    | renewed delivers => cases delivers.unique hdelivers
    | rerooted delivers => cases delivers.unique hdelivers
    | unregistered delivers => cases delivers.unique hdelivers
    | expired opens => exact absurd opens (hdelivers.not_end _)
    | slashed delivers failed =>
      cases delivers.unique hdelivers
      rw [failed] at hflag
      cases hflag
    | extended delivers =>
      cases delivers.unique hdelivers
      apply updateFirst_mem hcv
      · simp [hprovider, hleased.started.1]
      · intro x hx hpx
        rw [Bool.and_eq_true, beq_iff_eq] at hpx
        exact List.inj_on_of_nodup_map h.nodup hx hcv (hpx.1.trans hprovider.symm)
  have hend := (lease_of_proof (h.fits hfits hphase) hleased).1
  refine ⟨extendCapacityValidator pc n.state.envelope.block_height cv, ?_, rfl, ?_, ?_⟩
  · rw [Node.providers, hl']
    exact hmem
  · unfold Node.full_lease
    rw [hold]
    exact hend
  · have hbound := hleased.bounded
    omega

theorem CapacityStep.of_opens (h : CapacityStep o pc n r l l')
    (hopens : n.OpensEpoch pc r height) :
    l' = expire_capacity_registrations l (asU64 height.val) := by
  cases h with
  | kept _ same_epoch => exact absurd hopens (same_epoch height)
  | added delivers => exact absurd hopens (delivers.not_end _)
  | renewed delivers => exact absurd hopens (delivers.not_end _)
  | rerooted delivers => exact absurd hopens (delivers.not_end _)
  | slashed delivers => exact absurd hopens (delivers.not_end _)
  | extended delivers => exact absurd hopens (delivers.not_end _)
  | unregistered delivers => exact absurd hopens (delivers.not_end _)
  | expired opens =>
    obtain ⟨rfl, _⟩ := hopens
    cases opens.1
    rfl

/-- A new epoch takes the ended leases out, and no others. -/
theorem NodeLeases.expired (h : NodeLeases o pc n) (hfits : n.LeaseFits pc)
    (hstep : NodeStep o pc n r n') (hopens : n.OpensEpoch pc r height)
    {cv : CapacityValidatorInfo} (hcv : cv ∈ n.providers) :
    cv ∉ n'.providers ↔ (cv.lease_end : Int) < height.val := by
  have hbound := (h.leased cv hcv).bounded
  unfold Node.LeaseFits Node.full_lease at hfits
  have hlist : n'.providers = expire_capacity_registrations n.providers (asU64 height.val) :=
    (hstep.capacity h.good).of_opens hopens
  rw [hlist]
  apply mem_expire_iff hcv
  · obtain ⟨rfl, _⟩ := hopens
    have hcommitted := h.dated.committed.height
    cases hstep with
    | ended phase grows => omega
  · omega

theorem NodeLeases.discipline (h : NodeLeases o pc n) (hfits : n.LeaseFits pc)
    (hstep : NodeStep o pc n r n') : LeaseDiscipline o pc n r n' := by
  have hcapacity := hstep.capacity h.good
  refine ⟨?_, ?_, ?_, ?_, ?_⟩
  · intro cv hcv cv' hcv' haddress hlease
    have hentry := hcapacity.entry hcv'
    cases hentry with
    | @same old mem lease =>
      have hold : old = cv := List.inj_on_of_nodup_map h.nodup mem hcv
        (lease.address.symm.trans haddress)
      rw [← hold] at hlease
      exact absurd lease.lease_end hlease
    | registered delivers sender => exact Or.inl ⟨_, delivers, sender.trans haddress⟩
    | extended delivers failed mem provider entry =>
      right
      refine ⟨_, delivers, hstep.proves h.good delivers failed, ?_⟩
      rw [← provider, ← haddress, entry]
      rfl
  · intro vp hdelivers hflag cv hcv hprovider
    exact h.extended hfits hstep hdelivers hflag hcv hprovider
  · intro cv hcv
    exact ((h.next (fun _ => hfits) hstep).leased cv hcv).bounded
  · intro height hopens cv hcv
    exact h.expired hfits hstep hopens hcv
  · intro cv hcv hgone
    rcases hcapacity.removed hcv hgone with hunregistered | ⟨height, hopens, _⟩
    · exact Or.inl hunregistered
    · refine Or.inr ⟨height, hopens, (h.expired hfits hstep hopens hcv).mp ?_⟩
      intro hmem
      exact hgone cv hmem rfl

/-! ## Runs -/

theorem leases_of_run {requests : List Request}
    (hfits : ∀ p ∈ runs.visits (Node.step o pc) requests (genesis o pc cfg),
      p.1.GrantsLease o pc p.2 → p.1.LeaseFits pc)
    {earlier : List Request} (hearlier : earlier <+: requests) (hrun : RunsTo o pc cfg earlier n) :
    NodeLeases o pc n := by
  revert hearlier
  refine runs.run_induction (Node.step o pc) (fun es m => es <+: requests → NodeLeases o pc m)
    ?_ ?_ hrun
  · intro _
    have hempty := genesis_providers o pc cfg
    refine ⟨genesis_good o pc cfg, @reachable_dated o pc cfg [] _ rfl, ?_, ?_⟩
    · rw [Node.providers, hempty]
      exact List.nodup_nil
    · intro cv hcv
      rw [Node.providers, hempty] at hcv
      cases hcv
  · intro es m r m' hm ih hstep hp
    have hfits := hfits (m, r) (runs.mem_visits_of_earlier _ hm hp)
    exact (ih ((List.prefix_append es [r]).trans hp)).next hfits (step_cases hstep)

/-- In every run whose heights leave room for a full lease, every call keeps the discipline of
the leases. -/
theorem leases_are_disciplined (o : Outside) (pc : ProtocolConstants) (cfg : GenesisConfig)
    (requests : List Request)
    (hfits : ∀ p ∈ runs.visits (Node.step o pc) requests (genesis o pc cfg), p.1.LeaseFits pc) :
    ∀ p ∈ runs.visits (Node.step o pc) requests (genesis o pc cfg), ∀ n',
      p.1.step o pc p.2 = some n' → LeaseDiscipline o pc p.1 p.2 n' := by
  rintro ⟨n, r⟩ hvisit n' hstep
  obtain ⟨earlier, hrun, hp⟩ := runs.mem_visits _ hvisit
  have hleases := leases_of_run (fun p hp _ => hfits p hp)
    ((List.prefix_append earlier [r]).trans hp) hrun
  exact hleases.discipline (hfits _ hvisit) (step_cases hstep)

/-- A duration below 2^63 leaves room at every height. -/
theorem leaseFits_of_duration (h : pc.registration_duration_blocks.toNat < 2 ^ 63) (n : Node) :
    n.LeaseFits pc := by
  have hhi := n.state.envelope.block_height.hi
  have hheight : n.height ≤ 2 ^ 63 := by
    unfold Node.height
    split
    · omega
    · omega
  unfold Node.LeaseFits Node.full_lease
  omega

theorem smallConstants_duration : smallConstants.registration_duration_blocks.toNat < 2 ^ 63 := by
  decide

/-- Alice registers in block 1, and her answer in block 3 extends her lease by two blocks. -/
theorem leases_are_disciplined_on_answeredOnce :
    (smallRun firstEpoch).map (fun n => n.providers.map (fun cv => cv.lease_end)) =
      some [1000001] ∧
    (smallRun answeredOnce).map (fun n => n.providers.map (fun cv => cv.lease_end)) =
      some [1000003] ∧
    ∀ p ∈ runs.visits (Node.step Outside.toy smallConstants) answeredOnce
      (genesis Outside.toy smallConstants smallConfig), ∀ n',
        p.1.step Outside.toy smallConstants p.2 = some n' →
          LeaseDiscipline Outside.toy smallConstants p.1 p.2 n' := by
  refine ⟨by decide +kernel, by decide +kernel, ?_⟩
  apply leases_are_disciplined Outside.toy smallConstants smallConfig answeredOnce
  intro p _
  exact leaseFits_of_duration smallConstants_duration p.1

end eld_chain
