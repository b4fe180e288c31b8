-- The machine arithmetic of the leases. Expiry saturates; the selection,
-- the renewals, the epoch record and the total of the capacities use plain
-- operators, which stop a debug build and wrap in a release build. Here
-- each of them is computed with a check, and each operand is bounded over
-- the run.
import EldChain.CapacityLeases
import EldChain.ProviderSelection
import Mathlib.Algebra.Order.BigOperators.Group.List

open Std

namespace eld_chain

variable {o : Outside} {pc : ProtocolConstants} {cfg : GenesisConfig}

/-! ## Operators with a check -/

/-- `a + b` of a build that checks: nothing when the sum leaves `u64`. -/
def UInt64.checked_add (a b : UInt64) : Option UInt64 :=
  if a.toNat + b.toNat < 2 ^ 64 then some (a + b) else none

/-- `iter().sum()` of a build that checks. -/
def checked_sum (xs : List UInt64) : Option UInt64 := xs.foldlM UInt64.checked_add 0

theorem UInt64.checked_add_isSome {a b : UInt64} :
    (UInt64.checked_add a b).isSome = true ↔ a.toNat + b.toNat < 2 ^ 64 := by
  unfold UInt64.checked_add
  by_cases hfits : a.toNat + b.toNat < 2 ^ 64
  · rw [if_pos hfits]
    exact iff_of_true rfl hfits
  · rw [if_neg hfits]
    exact iff_of_false Bool.false_ne_true hfits

theorem I64.checked_isSome {v : Int} :
    (I64.checked v).isSome = true ↔ -2 ^ 63 ≤ v ∧ v < 2 ^ 63 := by
  unfold I64.checked
  by_cases hlo : -2 ^ 63 ≤ v
  · by_cases hhi : v < 2 ^ 63
    · rw [dif_pos hlo, dif_pos hhi]
      simp only [Option.isSome_some, hlo, hhi, and_self]
    · rw [dif_pos hlo, dif_neg hhi]
      simp only [Option.isSome_none, hlo, hhi, and_false, Bool.false_eq_true]
  · rw [dif_neg hlo]
    simp only [Option.isSome_none, hlo, false_and, Bool.false_eq_true]

/-- A sum that starts anywhere goes through exactly when it fits. -/
theorem foldlM_checked_add (xs : List UInt64) (start : UInt64) :
    (xs.foldlM UInt64.checked_add start).isSome = true ↔
      start.toNat + (xs.map UInt64.toNat).sum < 2 ^ 64 := by
  induction xs generalizing start with
  | nil =>
    have hlt := start.toNat_lt
    simp only [List.foldlM_nil, List.map_nil, List.sum_nil, Option.pure_def, Option.isSome_some,
      true_iff]
    omega
  | cons x xs ih =>
    rw [List.foldlM_cons, List.map_cons, List.sum_cons]
    by_cases hfits : start.toNat + x.toNat < 2 ^ 64
    · have hadd : UInt64.checked_add start x = some (start + x) := if_pos hfits
      have hnat : (start + x).toNat = start.toNat + x.toNat := by
        rw [UInt64.toNat_add, Nat.mod_eq_of_lt hfits]
      rw [hadd]
      change (xs.foldlM UInt64.checked_add (start + x)).isSome = true ↔ _
      rw [ih, hnat, Nat.add_assoc]
    · have hadd : UInt64.checked_add start x = none := if_neg hfits
      rw [hadd]
      change (none : Option UInt64).isSome = true ↔ _
      simp only [Option.isSome_none, Bool.false_eq_true, false_iff]
      omega

theorem checked_sum_isSome {xs : List UInt64} :
    (checked_sum xs).isSome = true ↔ (xs.map UInt64.toNat).sum < 2 ^ 64 := by
  unfold checked_sum
  rw [foldlM_checked_add]
  simp

/-! ## The computations -/

/-- The block that is open above a height. -/
def next_block (height : I64) : Option I64 := I64.checked (height.val + 1)

/-- The end of the lease that the selection compares with. -/
def CapacityValidatorInfo.checked_end (cv : CapacityValidatorInfo) : Option UInt64 :=
  UInt64.checked_add cv.registered_block cv.registration_duration

/-- The selection's test of the lease, with the addition as a release build computes it. -/
def within_lease (cv : CapacityValidatorInfo) (current_block : UInt64) : Bool :=
  current_block ≤ cv.registered_block + cv.registration_duration

/-- The duration that a proof gives a lease. -/
def new_duration (pc : ProtocolConstants) (current_block : UInt64) (cv : CapacityValidatorInfo) :
    Option UInt64 :=
  UInt64.checked_add (UInt64.saturating_sub current_block cv.registered_block)
    pc.registration_duration_blocks

/-- The capacity that EndBlock logs at the start of an epoch. -/
def total_reserved_capacity (capacity_validators : List CapacityValidatorInfo) : Option UInt64 :=
  checked_sum (capacity_validators.map (fun p => p.storage_capacity))

/-- The first block of an epoch, as its record has it. -/
def start_block (pc : ProtocolConstants) (new_epoch : I64) : Option I64 :=
  I64.checked (new_epoch.val * pc.blocks_per_epoch.val)

theorem CapacityValidatorInfo.checked_end_isSome {cv : CapacityValidatorInfo} :
    cv.checked_end.isSome = true ↔ cv.lease_end < 2 ^ 64 :=
  UInt64.checked_add_isSome

/-- Expiry and selection agree on an entry at every block exactly when the end of its lease
fits: at the last block expiry keeps every entry, and a sum that wrapped is never that high. -/
theorem expired_eq_not_within_lease {cv : CapacityValidatorInfo} :
    (∀ block, capacity_registration_expired cv block = !within_lease cv block) ↔
      cv.lease_end < 2 ^ 64 := by
  have hblock := cv.registered_block.toNat_lt
  have hduration := cv.registration_duration.toNat_lt
  unfold capacity_registration_expired within_lease UInt64.saturating_add
  unfold CapacityValidatorInfo.lease_end
  constructor
  · intro h
    have hlast := h (UInt64.ofNat (2 ^ 64 - 1))
    by_contra hwraps
    simp only [UInt64.lt_iff_toNat_lt, UInt64.le_iff_toNat_le, UInt64.toNat_add,
      UInt64.toNat_ofNat', ← decide_not, decide_eq_decide] at hlast
    omega
  · intro hfits block
    simp only [UInt64.lt_iff_toNat_lt, UInt64.le_iff_toNat_le, UInt64.toNat_add,
      UInt64.toNat_ofNat', ← decide_not, decide_eq_decide]
    omega

/-- The first block of an epoch is no further from zero than any block of the epoch. -/
theorem start_block_isSome (pc : ProtocolConstants) (height : I64) :
    (start_block pc (epochOf pc height)).isSome = true := by
  have hlo := height.lo
  have hhi := height.hi
  have hpos := pc.blocks_pos
  have hdivision := Int.mul_tdiv_add_tmod height.val pc.blocks_per_epoch.val
  rw [mul_comm] at hdivision
  unfold start_block
  rw [I64.checked_isSome]
  change _ ≤ height.val.tdiv pc.blocks_per_epoch.val * pc.blocks_per_epoch.val ∧ _
  rcases le_total 0 height.val with hsign | hsign
  · have hrest := Int.tmod_nonneg pc.blocks_per_epoch.val hsign
    have hquotient := Int.mul_nonneg (Int.tdiv_nonneg hsign hpos.le) hpos.le
    refine ⟨?_, ?_⟩
    · omega
    · change height.val.tdiv pc.blocks_per_epoch.val * pc.blocks_per_epoch.val < _
      omega
  · have hrest := Int.tmod_nonneg pc.blocks_per_epoch.val (by omega : 0 ≤ -height.val)
    have hquotient := Int.mul_nonneg (Int.tdiv_nonneg (by omega : 0 ≤ -height.val) hpos.le) hpos.le
    rw [Int.neg_tmod] at hrest
    rw [Int.neg_tdiv, neg_mul] at hquotient
    refine ⟨?_, ?_⟩
    · omega
    · change height.val.tdiv pc.blocks_per_epoch.val * pc.blocks_per_epoch.val < _
      omega

/-- The computation of the record is the checked one. -/
theorem build_epoch_record_start_block (e : AppStateEnvelope) (height : I64) :
    (start_block pc (epochOf pc height)).map I64.val =
      some (build_epoch_record pc e (epochOf pc height)).start_block := by
  obtain ⟨block, hblock⟩ := Option.isSome_iff_exists.mp (start_block_isSome pc height)
  rw [hblock]
  unfold start_block I64.checked at hblock
  split at hblock
  · split at hblock
    · cases hblock
      rfl
    · cases hblock
  · cases hblock

/-! ## A call -/

/-- The call delivers a registration, or a proof that holds. -/
def Node.StartsLease (o : Outside) (pc : ProtocolConstants) (n : Node) (r : Request) : Prop :=
  (∃ t, n.Delivers o pc r (.RegisterCapacity t)) ∨
  ∃ vp, n.Delivers o pc r (.VerifiedProof vp) ∧ vp.failed = false

/-- What a call computes fits its type, and what expiry leaves is within its lease. -/
structure ArithmeticSound (o : Outside) (pc : ProtocolConstants) (n : Node) (r : Request)
    (n' : Node) : Prop where
  next_block : n.StartsLease o pc r → (next_block n.state.envelope.block_height).isSome = true
  renewal : ∀ vp, n.Delivers o pc r (.VerifiedProof vp) → vp.failed = false →
    ∀ cv ∈ n.providers, cv.address = vp.capacity_provider →
      (new_duration pc (asU64 (n.state.envelope.block_height.val + 1)) cv).isSome = true
  total : ∀ height, n.OpensEpoch pc r height → (total_reserved_capacity
    (expire_capacity_registrations n.providers (asU64 height.val))).isSome = true
  start_block : ∀ height, n.OpensEpoch pc r height →
    (start_block pc (epochOf pc height)).map I64.val =
      some (build_epoch_record pc n'.state.envelope (epochOf pc height)).start_block
  lease_end : ∀ cv ∈ n'.providers, cv.checked_end.isSome = true
  consistent : ∀ cv ∈ n'.providers, ∀ block,
    capacity_registration_expired cv block = !within_lease cv block
  eligible : ∀ height, n.OpensEpoch pc r height → ∀ cv ∈ n'.providers,
    cv.merkle_root.isSome = true → cv ∈ eligibleValidators n'.state.envelope

/-- The numbers of a call leave room: for the next block in `i64` and a full lease in `u64`
when it starts a lease, and for the capacities of the leases that go on when it opens an
epoch. -/
structure ArithmeticFits (o : Outside) (pc : ProtocolConstants) (n : Node) (r : Request) :
    Prop where
  next_block : n.StartsLease o pc r → n.state.envelope.block_height.val + 1 < 2 ^ 63
  lease : n.GrantsLease o pc r → n.LeaseFits pc
  total : ∀ height, n.OpensEpoch pc r height →
    ((n.providers.filter (fun cv => height.val ≤ cv.lease_end)).map
      (fun cv => cv.storage_capacity.toNat)).sum < 2 ^ 64

/-- A node whose leases end within `u64`. -/
structure SafeLeases (o : Outside) (pc : ProtocolConstants) (n : Node) : Prop where
  leases : NodeLeases o pc n
  ends : ∀ cv ∈ n.providers, cv.lease_end < 2 ^ 64

variable {n n' : Node} {r : Request} {height : I64}

theorem SafeLeases.next (h : SafeLeases o pc n) (hfits : n.GrantsLease o pc r → n.LeaseFits pc)
    (hstep : NodeStep o pc n r n') : SafeLeases o pc n' := by
  refine ⟨h.leases.next hfits hstep, fun cv' hcv' => ?_⟩
  rcases h.leases.granted hstep hfits hcv' with ⟨cv, hcv, hsame⟩ | ⟨hroom, hend, _⟩
  · rw [hsame.lease_end]
    exact h.ends cv hcv
  · unfold Node.LeaseFits at hroom
    omega

theorem NodeStep.opened_height (h : NodeStep o pc n r n') (hgood : NodeGood o n)
    (hdated : NodeDated pc n) (hopens : n.OpensEpoch pc r height) :
    n'.state.envelope.block_height = height ∧ 0 ≤ height.val := by
  have hcommitted := hdated.committed.height
  obtain ⟨rfl, _⟩ := hopens
  cases h with
  | @ended _ s s' out phase grows current ends =>
    obtain ⟨hstate, _⟩ := hgood.of_current (by simp [phase]) current
    have hopen := hdated.open_block phase
    have hworking := hdated.working
    rw [hstate] at hopen hworking
    obtain ⟨hheight, _⟩ := endBlock_dated ends hworking (by rw [hopen]; exact grows)
    exact ⟨hheight, by omega⟩

/-- What expiry leaves is what it left in the condition. -/
theorem SafeLeases.expire_eq (h : SafeLeases o pc n) (hnonneg : 0 ≤ height.val) :
    expire_capacity_registrations n.providers (asU64 height.val) =
      n.providers.filter (fun cv => height.val ≤ cv.lease_end) := by
  unfold expire_capacity_registrations
  apply List.filter_congr
  intro cv hcv
  have hexpired := mem_expire_iff hcv hnonneg (h.ends cv hcv)
  unfold expire_capacity_registrations at hexpired
  simp only [List.mem_filter, hcv, true_and] at hexpired
  rw [Bool.eq_iff_iff, decide_eq_true_iff]
  constructor
  · intro hkept
    by_contra hended
    exact hexpired.mpr (by omega) hkept
  · intro hends
    by_contra hgone
    have := hexpired.mp hgone
    omega

theorem SafeLeases.renewal (h : SafeLeases o pc n) (hroom : n.LeaseFits pc)
    (hphase : n.phase = .delivering) {cv : CapacityValidatorInfo} (hcv : cv ∈ n.providers) :
    (new_duration pc (asU64 (n.state.envelope.block_height.val + 1)) cv).isSome = true := by
  have hlease := h.leases.fits hroom hphase
  have hnext := hlease.next
  have hfits := hlease.fits
  have hstarted := (h.leases.leased cv hcv).started.2
  rw [height_of_delivering hphase] at hstarted
  unfold new_duration
  rw [UInt64.checked_add_isSome]
  unfold UInt64.saturating_sub
  simp only [UInt64.toNat_ofNat']
  omega

theorem SafeLeases.sound (h : SafeLeases o pc n) (hfits : ArithmeticFits o pc n r)
    (hstep : NodeStep o pc n r n') : ArithmeticSound o pc n r n' := by
  have hafter := h.next hfits.lease hstep
  have hheight := h.leases.dated.working.height
  refine ⟨?_, ?_, ?_, ?_, ?_, ?_, ?_⟩
  · intro hstarts
    have hroom := hfits.next_block hstarts
    unfold next_block
    rw [I64.checked_isSome]
    exact ⟨by omega, hroom⟩
  · intro vp hdelivers hflag cv hcv hprovider
    have hroom := hfits.lease (Or.inr ⟨vp, hdelivers, hflag, cv, hcv, hprovider⟩)
    exact h.renewal hroom (hstep.delivering_of_delivers hdelivers) hcv
  · intro height hopens
    have hnonneg := (hstep.opened_height h.leases.good h.leases.dated hopens).2
    unfold total_reserved_capacity
    rw [h.expire_eq hnonneg, checked_sum_isSome, List.map_map]
    exact hfits.total height hopens
  · intro height _
    exact build_epoch_record_start_block n'.state.envelope height
  · intro cv hcv
    exact CapacityValidatorInfo.checked_end_isSome.mpr (hafter.ends cv hcv)
  · intro cv hcv
    exact expired_eq_not_within_lease.mpr (hafter.ends cv hcv)
  · intro height hopens cv hcv hroot
    obtain ⟨hblock, _⟩ := hstep.opened_height h.leases.good h.leases.dated hopens
    have hlist : n'.providers = expire_capacity_registrations n.providers (asU64 height.val) :=
      (hstep.capacity h.leases.good).of_opens hopens
    have hwithin := expired_eq_not_within_lease.mpr (hafter.ends cv hcv) (asU64 height.val)
    have hkept : capacity_registration_expired cv (asU64 height.val) = false := by
      rw [hlist] at hcv
      simpa using List.of_mem_filter hcv
    rw [hkept] at hwithin
    rw [mem_eligibleValidators]
    refine ⟨hcv, hroot, ?_⟩
    rw [hblock]
    unfold within_lease at hwithin
    simpa using hwithin.symm

/-! ## Runs -/

theorem safeLeases_of_run {requests : List Request}
    (hfits : ∀ p ∈ runs.visits (Node.step o pc) requests (genesis o pc cfg),
      p.1.GrantsLease o pc p.2 → p.1.LeaseFits pc)
    {earlier : List Request} (hearlier : earlier <+: requests) (hrun : RunsTo o pc cfg earlier n) :
    SafeLeases o pc n := by
  revert hearlier
  refine runs.run_induction (Node.step o pc) (fun es m => es <+: requests → SafeLeases o pc m)
    ?_ ?_ hrun
  · intro hearlier
    refine ⟨leases_of_run hfits hearlier rfl, fun cv hcv => ?_⟩
    rw [Node.providers, genesis_providers o pc cfg] at hcv
    cases hcv
  · intro es m r m' hm ih hstep hp
    have hfits := hfits (m, r) (runs.mem_visits_of_earlier _ hm hp)
    exact (ih ((List.prefix_append es [r]).trans hp)).next hfits (step_cases hstep)

/-- In every run whose numbers leave room, nothing overflows, and expiry and selection agree
on every provider. -/
theorem arithmetic_is_sound (o : Outside) (pc : ProtocolConstants) (cfg : GenesisConfig)
    (requests : List Request)
    (hfits : ∀ p ∈ runs.visits (Node.step o pc) requests (genesis o pc cfg),
      ArithmeticFits o pc p.1 p.2) :
    ∀ p ∈ runs.visits (Node.step o pc) requests (genesis o pc cfg), ∀ n',
      p.1.step o pc p.2 = some n' → ArithmeticSound o pc p.1 p.2 n' := by
  rintro ⟨n, r⟩ hvisit n' hstep
  obtain ⟨earlier, hrun, hp⟩ := runs.mem_visits _ hvisit
  have hsafe := safeLeases_of_run (fun p hp => (hfits p hp).lease)
    ((List.prefix_append earlier [r]).trans hp) hrun
  exact hsafe.sound (hfits _ hvisit) (step_cases hstep)

/-- A node of the small chain at a low height, whose providers hold less than `u64`. -/
def Node.roomy (n : Node) : Bool :=
  n.state.envelope.block_height.val < 100 &&
    (n.providers.map (fun cv => cv.storage_capacity.toNat)).sum < 2 ^ 64

theorem arithmeticFits_of_roomy {n : Node} (r : Request) (h : n.roomy = true) :
    ArithmeticFits Outside.toy smallConstants n r := by
  unfold Node.roomy at h
  rw [Bool.and_eq_true, decide_eq_true_iff, decide_eq_true_iff] at h
  obtain ⟨hlow, hsum⟩ := h
  refine ⟨fun _ => by omega, fun _ => leaseFits_of_duration smallConstants_duration n, ?_⟩
  intro height _
  have hle := (List.filter_sublist (l := n.providers)
    (p := fun cv => decide (height.val ≤ cv.lease_end))).map
      (fun cv => cv.storage_capacity.toNat)
  exact Nat.lt_of_le_of_lt (hle.sum_le_sum (fun x _ => Nat.zero_le x)) hsum

/-- Alice registers, is selected at the first epoch, and renews her lease with an answer. -/
theorem arithmetic_is_sound_on_answeredOnce :
    ((smallRun answeredOnce).map (fun n => n.providers.map (fun cv => cv.lease_end)) =
      some [1000003]) ∧
    ∀ p ∈ runs.visits (Node.step Outside.toy smallConstants) answeredOnce
      (genesis Outside.toy smallConstants smallConfig), ∀ n',
        p.1.step Outside.toy smallConstants p.2 = some n' →
          ArithmeticSound Outside.toy smallConstants p.1 p.2 n' := by
  have hroomy : (runs.visits (Node.step Outside.toy smallConstants) answeredOnce
      (genesis Outside.toy smallConstants smallConfig)).all (fun p => p.1.roomy) = true := by
    decide +kernel
  refine ⟨by decide +kernel, ?_⟩
  apply arithmetic_is_sound Outside.toy smallConstants smallConfig answeredOnce
  intro p hp
  exact arithmeticFits_of_roomy p.2 (List.all_eq_true.mp hroomy p hp)

/-! ## A total that does not fit -/

theorem halfWord_pos : (9223372036854775808 : UInt64) ≠ 0 := by decide

/-- The holder of a key registers half of what `u64` counts. -/
def hugeRegistration (key : Nat) : Tx :=
  signed key 1 "RegisterCapacity" (.RegisterCapacity {
    sender := Outside.toy.address_of_key key
    capacity_bytes := 9223372036854775808
    merkle_root := 5
    seed := 6
    chunk_count := 1
    capacity_pos := halfWord_pos })

/-- Alice and Bob both register so much in the first block. -/
def hugeBlock : List Request :=
  block (smallHeight 1) [hugeRegistration 1, hugeRegistration 2] ++ [.BeginBlock]

/-- At the epoch that opens at height 2 the sum of the two capacities leaves `u64`. -/
theorem two_halves_overflow : ¬ ∀ p ∈ runs.visits (Node.step Outside.toy smallConstants)
    (hugeBlock ++ [.EndBlock (smallHeight 2)]) (genesis Outside.toy smallConstants smallConfig),
    ∀ n', p.1.step Outside.toy smallConstants p.2 = some n' →
      ArithmeticSound Outside.toy smallConstants p.1 p.2 n' := by
  intro hsound
  obtain ⟨n, hrun, hhuge⟩ := @smallRun_ends hugeBlock (fun n =>
    (total_reserved_capacity (expire_capacity_registrations n.providers
      (asU64 (smallHeight 2).val))).isNone &&
    n.state.envelope.current_epoch.val < (epochOf smallConstants (smallHeight 2)).val &&
    (n.step Outside.toy smallConstants (.EndBlock (smallHeight 2))).isSome) (by decide +kernel)
  rw [Bool.and_eq_true, Bool.and_eq_true, decide_eq_true_iff] at hhuge
  obtain ⟨⟨hnone, hopens⟩, hsome⟩ := hhuge
  obtain ⟨n', hstep⟩ := Option.isSome_iff_exists.mp hsome
  have hvisit := runs.mem_visits_of_earlier (Node.step Outside.toy smallConstants) hrun
    (List.prefix_refl (hugeBlock ++ [.EndBlock (smallHeight 2)]))
  have htotal := (hsound _ hvisit n' hstep).total (smallHeight 2) ⟨rfl, hopens⟩
  rw [Option.isNone_iff_eq_none.mp hnone] at htotal
  cases htotal

end eld_chain
