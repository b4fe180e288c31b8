-- The fee schedules that a genesis may install. A schedule is accepted when
-- its numbers are positive. The fee of a kind can then still be refused, by
-- the calculation where the multiplier is below one, and by the structural
-- checks where the fee is no u32.
import EldChain.BuilderFees
import Mathlib.Data.Rat.Floor
import Mathlib.Tactic.NormNum

open json

namespace eld_chain

/-! ## Exact multipliers -/

/-- The operations of the schedule on exact numbers. A conversion to `u128` saturates. -/
def rationals : Floats where
  F64 := ℚ
  not_positive x := decide (x ≤ 0)
  less_one x := x - 1
  times_as_u128 n x := min (2 ^ 128 - 1) ⌊(n : ℚ) * x⌋.toNat
  to_string x := toString x

/-! ## The genesis -/

def PARAMS_VERSION : UInt32 := 1

/-- Multipliers are basis points. -/
structure ProtocolFees where
  base_fee : Coin
  size_fee_per_kb : Coin
  gas_price : Coin
  transfer_multiplier_bps : UInt32
  stake_multiplier_bps : UInt32
  content_manifest_multiplier_bps : UInt32
  verified_proof_multiplier_bps : UInt32
  device_operation_multiplier_bps : UInt32

def bps_to_multiplier (bps : UInt32) : rationals.F64 := (bps.toNat : ℚ) / 10000

def ProtocolFees.to_fee_config (fees : ProtocolFees) : FeeConfig rationals where
  base_fee := fees.base_fee.amount
  size_fee_per_kb := fees.size_fee_per_kb.amount
  gas_price := fees.gas_price.amount
  transfer_multiplier := bps_to_multiplier fees.transfer_multiplier_bps
  stake_multiplier := bps_to_multiplier fees.stake_multiplier_bps
  content_manifest_multiplier := bps_to_multiplier fees.content_manifest_multiplier_bps
  verified_proof_multiplier := bps_to_multiplier fees.verified_proof_multiplier_bps
  device_operation_multiplier := bps_to_multiplier fees.device_operation_multiplier_bps

theorem not_positive_bps {bps : UInt32} :
    rationals.not_positive (bps_to_multiplier bps) = true ↔ bps.toNat = 0 := by
  have hle : ((bps.toNat : ℚ) / 10000 ≤ 0) ↔ bps.toNat = 0 := by
    rw [div_le_iff₀ (by norm_num), zero_mul]
    exact_mod_cast Nat.le_zero
  exact (decide_eq_true_iff (p := (bps.toNat : ℚ) / 10000 ≤ 0)).trans hle

theorem validateMultiplier_bps {bps : UInt32} {field details : String} :
    validateMultiplier rationals (bps_to_multiplier bps) field details = .ok () ↔
      0 < bps.toNat := by
  unfold validateMultiplier
  split
  · rename_i hzero
    rw [not_positive_bps] at hzero
    exact iff_of_false (fun h => nomatch h) (by omega)
  · rename_i hzero
    rw [not_positive_bps] at hzero
    exact iff_of_true rfl (by omega)

/-- A schedule is accepted when its numbers are positive, however small its multipliers are. -/
theorem to_fee_config_valid_iff {fees : ProtocolFees} :
    fees.to_fee_config.validate = .ok () ↔
      0 < fees.base_fee.amount ∧ 0 < fees.size_fee_per_kb.amount ∧ 0 < fees.gas_price.amount ∧
      0 < fees.transfer_multiplier_bps.toNat ∧ 0 < fees.stake_multiplier_bps.toNat ∧
      0 < fees.content_manifest_multiplier_bps.toNat ∧
      0 < fees.verified_proof_multiplier_bps.toNat ∧
      0 < fees.device_operation_multiplier_bps.toNat := by
  simp only [FeeConfig.validate, ProtocolFees.to_fee_config, bind_eq_ok, exists_unit,
    validateNonzero_eq_ok, validateMultiplier_bps]

/-- The `ProtocolConstants` that a genesis holds, before they are validated. -/
structure GenesisConstants where
  params_version : UInt32
  min_stake_amount : Coin
  validators_per_epoch : Nat
  blocks_per_epoch : I64
  active_storage_validators_per_epoch : Nat
  challenges_per_epoch : Nat
  chunks_per_challenge : Nat
  registration_duration_blocks : UInt64
  verified_proof_reward_base_amount : Coin
  failed_proofs_before_slash : UInt32
  default_pinboard_post_ttl_blocks : UInt64
  max_pinboard_message_bytes : Nat
  max_tx_bytes : Nat
  fees : ProtocolFees

def GenesisConstants.fee_config (c : GenesisConstants) : FeeConfig rationals :=
  c.fees.to_fee_config

/-- A number that has to be positive: the check of `u128`, `usize` and the fixed widths. -/
def require_positive (field : String) (value : Nat) : Except EldError Unit :=
  validateNonzero value field (field ++ " must be positive")

def GenesisConstants.validate (c : GenesisConstants) : Except EldError Unit := do
  ensure (c.params_version = PARAMS_VERSION)
    (.ValidationError "params_version" (toString c.params_version.toNat)
      ("unsupported protocol params version (want " ++ toString PARAMS_VERSION.toNat ++ ")"))
  require_positive "min_stake_amount" c.min_stake_amount.amount
  require_positive "validators_per_epoch" c.validators_per_epoch
  ensure (0 < c.blocks_per_epoch.val)
    (.ValidationError "blocks_per_epoch" (toString c.blocks_per_epoch.val)
      "blocks_per_epoch must be positive")
  require_positive "active_storage_validators_per_epoch" c.active_storage_validators_per_epoch
  require_positive "challenges_per_epoch" c.challenges_per_epoch
  require_positive "chunks_per_challenge" c.chunks_per_challenge
  require_positive "registration_duration_blocks" c.registration_duration_blocks.toNat
  require_positive "verified_proof_reward_base_amount" c.verified_proof_reward_base_amount.amount
  require_positive "failed_proofs_before_slash" c.failed_proofs_before_slash.toNat
  require_positive "default_pinboard_post_ttl_blocks" c.default_pinboard_post_ttl_blocks.toNat
  require_positive "max_pinboard_message_bytes" c.max_pinboard_message_bytes
  require_positive "max_tx_bytes" c.max_tx_bytes
  c.fee_config.validate

theorem require_positive_eq_ok {field : String} {value : Nat} :
    require_positive field value = .ok () ↔ 0 < value := validateNonzero_eq_ok

/-- What the chain relies on once a genesis is accepted. -/
structure GenesisConstants.Accepted (c : GenesisConstants) : Prop where
  version : c.params_version = PARAMS_VERSION
  min_stake : 0 < c.min_stake_amount.amount
  validators : 0 < c.validators_per_epoch
  blocks : 0 < c.blocks_per_epoch.val
  storage_validators : 0 < c.active_storage_validators_per_epoch
  challenges : 0 < c.challenges_per_epoch
  chunks : 0 < c.chunks_per_challenge
  duration : 0 < c.registration_duration_blocks.toNat
  reward : 0 < c.verified_proof_reward_base_amount.amount
  slash : 0 < c.failed_proofs_before_slash.toNat
  ttl : 0 < c.default_pinboard_post_ttl_blocks.toNat
  message_bytes : 0 < c.max_pinboard_message_bytes
  tx_bytes : 0 < c.max_tx_bytes
  fees : c.fee_config.validate = .ok ()

theorem GenesisConstants.validate_eq_ok {c : GenesisConstants} :
    c.validate = .ok () ↔ c.Accepted := by
  simp only [GenesisConstants.validate, bind_eq_ok, exists_unit, require_positive_eq_ok, ensure_eq_ok]
  constructor
  · rintro ⟨h₁, h₂, h₃, h₄, h₅, h₆, h₇, h₈, h₉, h₁₀, h₁₁, h₁₂, h₁₃, h₁₄⟩
    exact ⟨h₁, h₂, h₃, h₄, h₅, h₆, h₇, h₈, h₉, h₁₀, h₁₁, h₁₂, h₁₃, h₁₄⟩
  · rintro ⟨h₁, h₂, h₃, h₄, h₅, h₆, h₇, h₈, h₉, h₁₀, h₁₁, h₁₂, h₁₃, h₁₄⟩
    exact ⟨h₁, h₂, h₃, h₄, h₅, h₆, h₇, h₈, h₉, h₁₀, h₁₁, h₁₂, h₁₃, h₁₄⟩

/-- The constants that the handlers of the chain run with. -/
def GenesisConstants.installed (c : GenesisConstants) (h : c.Accepted) : ProtocolConstants where
  min_stake_amount := c.min_stake_amount
  validators_per_epoch := c.validators_per_epoch
  blocks_per_epoch := c.blocks_per_epoch
  challenges_per_epoch := c.challenges_per_epoch
  chunks_per_challenge := c.chunks_per_challenge
  registration_duration_blocks := c.registration_duration_blocks
  verified_proof_reward_base_amount := c.verified_proof_reward_base_amount
  failed_proofs_before_slash := c.failed_proofs_before_slash
  default_pinboard_post_ttl_blocks := c.default_pinboard_post_ttl_blocks
  max_tx_bytes := c.max_tx_bytes
  min_stake_pos := h.min_stake
  validators_pos := h.validators
  blocks_pos := h.blocks
  challenges_pos := h.challenges
  chunks_pos := h.chunks
  duration_pos := fun hzero => absurd h.duration (by rw [hzero]; decide)
  reward_pos := h.reward
  slash_pos := fun hzero => absurd h.slash (by rw [hzero]; decide)
  ttl_pos := fun hzero => absurd h.ttl (by rw [hzero]; decide)
  max_tx_bytes_pos := h.tx_bytes

/-! ## The fee of a schedule -/

/-- The basis points of a payload's kind. -/
def ProtocolFees.multiplier_bps (fees : ProtocolFees) : PayloadInner → UInt32
  | .Transfer _ => fees.transfer_multiplier_bps
  | .Stake _ => fees.stake_multiplier_bps
  | .Unstake _ => fees.stake_multiplier_bps
  | .RegisterCapacity _ => fees.device_operation_multiplier_bps
  | .UnregisterCapacity _ => fees.device_operation_multiplier_bps
  | .UpdateCapacityMerkleRoot _ => fees.device_operation_multiplier_bps
  | .VerifiedProof _ => fees.verified_proof_multiplier_bps
  | .PostMessage _ => fees.content_manifest_multiplier_bps
  | .AddNamespace _ => fees.transfer_multiplier_bps

theorem get_complexity_multiplier_bps (fees : ProtocolFees) (payload : PayloadInner) :
    get_complexity_multiplier rationals payload fees.to_fee_config =
      bps_to_multiplier (fees.multiplier_bps payload) := by
  cases payload <;> rfl

/-- A base fee times a multiplier is rounded down. -/
theorem times_bps {base : Nat} (hbase : base ≤ MAX_COIN) (bps : UInt32) :
    rationals.times_as_u128 base (bps_to_multiplier bps) = base * bps.toNat / 10000 := by
  have hfloor : ⌊(base : ℚ) * ((bps.toNat : ℚ) / 10000)⌋ = ((base * bps.toNat / 10000 : Nat) : Int) := by
    have hmul : (base : ℚ) * ((bps.toNat : ℚ) / 10000) =
        ((base * bps.toNat : Nat) : ℚ) / ((10000 : Nat) : ℚ) := by
      push_cast
      rw [mul_div_assoc]
    rw [hmul, Rat.floor_natCast_div_natCast]
    rfl
  have hsmall : base * bps.toNat / 10000 ≤ 2 ^ 128 - 1 := by
    have hbps := bps.toNat_lt
    have hproduct : base * bps.toNat ≤ MAX_COIN * 2 ^ 32 :=
      Nat.mul_le_mul hbase (Nat.le_of_lt hbps)
    have hle := Nat.div_le_self (base * bps.toNat) 10000
    have hmax : MAX_COIN * 2 ^ 32 ≤ 2 ^ 128 - 1 := by decide
    omega
  have hvalue : (⌊(base : ℚ) * ((bps.toNat : ℚ) / 10000)⌋).toNat = base * bps.toNat / 10000 := by
    rw [hfloor, Int.toNat_natCast]
  change min (2 ^ 128 - 1) (⌊(base : ℚ) * ((bps.toNat : ℚ) / 10000)⌋).toNat = _
  rw [hvalue, Nat.min_eq_right hsmall]

/-- The second part of the fee exists for multipliers from one on. -/
theorem calculate_complexity_fee_eq_ok {base n : Nat} (hpos : 0 < base) (hbase : base ≤ MAX_COIN)
    {bps : UInt32} :
    calculate_complexity_fee rationals base (bps_to_multiplier bps) = .ok n ↔
      10000 ≤ bps.toNat ∧ base + n = base * bps.toNat / 10000 := by
  have hword : base < 2 ^ 64 := Nat.lt_of_le_of_lt hbase (by decide)
  have hone : base ≤ base * bps.toNat / 10000 ↔ 10000 ≤ bps.toNat := by
    rw [Nat.le_div_iff_mul_le (by decide), Nat.mul_le_mul_left_iff hpos]
  unfold calculate_complexity_fee
  rw [if_pos hword, times_bps hbase]
  by_cases hzero : bps.toNat = 0
  · rw [if_pos (not_positive_bps.mpr hzero)]
    exact iff_of_false (fun h => nomatch h) fun h => by omega
  · rw [if_neg (mt not_positive_bps.mp hzero)]
    simp only
    split
    · rename_i hunder
      exact iff_of_false (fun h => nomatch h) fun h => by omega
    · rename_i hroom
      rw [Except.ok.injEq]
      omega

/-- The fee of a transaction at these basis points and this gas, in the order of its parts: the
base with its multiplier, the started kibibytes and the gas. -/
def ProtocolFees.total (fees : ProtocolFees) (payload : PayloadInner) (size gas : Nat) : Nat :=
  fees.base_fee.amount * (fees.multiplier_bps payload).toNat / 10000 +
    startedKb size * fees.size_fee_per_kb.amount + gas * fees.gas_price.amount

theorem estimate_gas_usage_ok (payload : PayloadInner) :
    ∃ gas, estimate_gas_usage payload = .ok gas ∧ gas ≤ MAX_GAS_USAGE := by
  unfold estimate_gas_usage MAX_GAS_USAGE
  refine ⟨_, if_neg (Nat.not_lt.mpr ?_), ?_⟩
  all_goals
    cases payload
    all_goals
      simp only
      omega

/-- The calculation succeeds where the multiplier is at least one and the total is a coin. -/
theorem calculate_dynamic_fee_total {fees : ProtocolFees} (hpos : 0 < fees.base_fee.amount)
    {tx : Tx} (hsize : utf8Len tx.to_string ≤ MAX_TRANSACTION_SIZE_BYTES) {gas : Nat}
    (hgas : estimate_gas_usage tx.payload.inner = .ok gas) {fee : Coin} :
    calculate_dynamic_fee rationals fees.to_fee_config tx = .ok fee ↔
      10000 ≤ (fees.multiplier_bps tx.payload.inner).toNat ∧
        fee.amount = fees.total tx.payload.inner (utf8Len tx.to_string) gas := by
  have hbase := fees.base_fee.le_max
  have hcomplexity (n : Nat) : calculate_complexity_fee rationals fees.to_fee_config.base_fee
      (get_complexity_multiplier rationals tx.payload.inner fees.to_fee_config) = .ok n ↔
      10000 ≤ (fees.multiplier_bps tx.payload.inner).toNat ∧ fees.base_fee.amount + n =
        fees.base_fee.amount * (fees.multiplier_bps tx.payload.inner).toNat / 10000 := by
    rw [get_complexity_multiplier_bps]
    exact calculate_complexity_fee_eq_ok hpos hbase
  rw [calculate_dynamic_fee_eq_ok]
  constructor
  · rintro ⟨-, hfee⟩
    obtain ⟨complexity_fee, gas', hcomplex, hgas', hamount⟩ := feeForSize_amount hfee
    rw [hgas] at hgas'
    cases hgas'
    obtain ⟨hone, htimes⟩ := (hcomplexity _).mp hcomplex
    refine ⟨hone, ?_⟩
    rw [hamount, ProtocolFees.total, ← htimes]
    simp only [ProtocolFees.to_fee_config]
    omega
  · rintro ⟨hone, hamount⟩
    have hmax := fee.le_max
    have hu128 : MAX_COIN < 2 ^ 128 := by decide
    have hlimit : MAX_COIN ≤ MAX_FEE := by decide
    have hpaid : fees.base_fee.amount ≤
        fees.base_fee.amount * (fees.multiplier_bps tx.payload.inner).toNat / 10000 := by
      rw [Nat.le_div_iff_mul_le (by decide)]
      exact Nat.mul_le_mul_left _ hone
    obtain ⟨extra, hextra⟩ := Nat.exists_eq_add_of_le hpaid
    obtain ⟨gas', hgas', hbound⟩ := estimate_gas_usage_ok tx.payload.inner
    rw [hgas] at hgas'
    cases hgas'
    rw [ProtocolFees.total, hextra] at hamount
    refine ⟨hsize, ?_⟩
    simp only [feeForSize, calculate_size_fee, calculate_gas_fee, bind_eq_ok, checkedU128_eq_ok,
      unless_eq_ok, Coin.new_eq_ok]
    refine ⟨_, ⟨?_, rfl⟩, extra, (hcomplexity extra).mpr ⟨hone, hextra.symm⟩, gas, hgas, _,
      ⟨Nat.not_lt.mpr hbound, ?_, rfl⟩, _, ⟨?_, rfl⟩, _, ⟨?_, rfl⟩, _, ⟨?_, rfl⟩, ?_, ?_⟩
    all_goals simp only [ProtocolFees.to_fee_config]
    all_goals omega

/-- The check of the fee field, on a transaction that names this fee. -/
def acceptsFee (fee : Coin) : Prop :=
  envelopeNumber [(key "fee", .int fee.amount)] "fee" = .ok ()

theorem acceptsFee_iff {fee : Coin} : acceptsFee fee ↔ fee.amount ≤ 2 ^ 32 - 1 := by
  have hvalue : valueAt [(key "fee", .int fee.amount)] "fee" = .int fee.amount := by
    simp only [valueAt, json.get, entries_cons_self, List.head?_cons, Option.getD_some]
  have hread : asUnsigned 64 (.int fee.amount) = some fee.amount :=
    asUnsigned_int (Nat.lt_of_le_of_lt fee.le_max (by decide))
  unfold acceptsFee envelopeNumber
  simp only [bind_eq_ok, typedField_eq_ok, hvalue, hread, validate_positive_integer_eq_ok]
  constructor
  · rintro ⟨-, -, n, hn, -, hmax⟩
    rw [Option.some.inj hn]
    exact hmax _ rfl
  · intro hmax
    refine ⟨(), rfl, _, rfl, fun m hm => ?_, fun m hm => ?_⟩
    · rw [← Option.some.inj hm]
      exact Nat.zero_le _
    · rw [← Option.some.inj hm]
      exact hmax

/-- A fee that the calculation gives, that is no less than the base fee and that the structural
checks let through. -/
def UsableFee (c : GenesisConstants) (tx : Tx) : Prop :=
  ∃ fee, calculate_dynamic_fee rationals c.fee_config tx = .ok fee ∧
    c.fees.base_fee.amount ≤ fee.amount ∧ acceptsFee fee

theorem base_fee_pos {c : GenesisConstants} (hvalid : c.validate = .ok ()) :
    0 < c.fees.base_fee.amount := by
  exact (to_fee_config_valid_iff.mp (GenesisConstants.validate_eq_ok.mp hvalid).fees).1

theorem base_fee_le_total {fees : ProtocolFees} {payload : PayloadInner} {size gas : Nat}
    (h : 10000 ≤ (fees.multiplier_bps payload).toNat) :
    fees.base_fee.amount ≤ fees.total payload size gas := by
  have hbase : fees.base_fee.amount ≤
      fees.base_fee.amount * (fees.multiplier_bps payload).toNat / 10000 := by
    rw [Nat.le_div_iff_mul_le (by decide)]
    exact Nat.mul_le_mul_left _ h
  unfold ProtocolFees.total
  omega

theorem usableFee_iff {c : GenesisConstants} (hvalid : c.validate = .ok ()) {tx : Tx}
    (hsize : utf8Len tx.to_string ≤ MAX_TRANSACTION_SIZE_BYTES) {gas : Nat}
    (hgas : estimate_gas_usage tx.payload.inner = .ok gas) :
    UsableFee c tx ↔ 10000 ≤ (c.fees.multiplier_bps tx.payload.inner).toNat ∧
      c.fees.total tx.payload.inner (utf8Len tx.to_string) gas ≤ 2 ^ 32 - 1 := by
  have hfee {fee : Coin} := @calculate_dynamic_fee_total c.fees (base_fee_pos hvalid) tx hsize
    gas hgas fee
  constructor
  · rintro ⟨fee, hok, -, haccepted⟩
    obtain ⟨hone, hamount⟩ := hfee.mp hok
    rw [← hamount]
    exact ⟨hone, acceptsFee_iff.mp haccepted⟩
  · rintro ⟨hone, hmax⟩
    have hcoin : 2 ^ 32 - 1 ≤ MAX_COIN := by decide
    obtain ⟨fee, -, hamount⟩ := Coin.new_of_le (Nat.le_trans hmax hcoin)
    refine ⟨fee, hfee.mpr ⟨hone, hamount⟩, ?_, ?_⟩
    · rw [hamount]
      exact base_fee_le_total hone
    · rw [acceptsFee_iff, hamount]
      exact hmax

/-- An accepted schedule has a usable fee for a transaction exactly when the multiplier of its
kind is at least one and the total fits in `u32`. -/
theorem fee_is_usable_iff {c : GenesisConstants} (hvalid : c.validate = .ok ()) {tx : Tx}
    (hsize : utf8Len tx.to_string ≤ MAX_TRANSACTION_SIZE_BYTES) :
    UsableFee c tx ↔ 10000 ≤ (c.fees.multiplier_bps tx.payload.inner).toNat ∧
      ∀ gas, estimate_gas_usage tx.payload.inner = .ok gas →
        c.fees.total tx.payload.inner (utf8Len tx.to_string) gas ≤ 2 ^ 32 - 1 := by
  obtain ⟨gas, hgas, -⟩ := estimate_gas_usage_ok tx.payload.inner
  rw [usableFee_iff hvalid hsize hgas]
  constructor
  · rintro ⟨hone, hmax⟩
    refine ⟨hone, fun gas' hgas' => ?_⟩
    rw [hgas] at hgas'
    cases hgas'
    exact hmax
  · rintro ⟨hone, hmax⟩
    exact ⟨hone, hmax gas hgas⟩

/-! ## Three schedules -/

/-- `ProtocolConstants::local_dev()`, with the fees of the default schedule. -/
def localDev : GenesisConstants where
  params_version := 1
  min_stake_amount := ⟨5, five_le_maxCoin⟩
  validators_per_epoch := 4
  blocks_per_epoch := smallHeight 20
  active_storage_validators_per_epoch := 1
  challenges_per_epoch := 5
  chunks_per_challenge := 10
  registration_duration_blocks := 1000000
  verified_proof_reward_base_amount := ⟨1000, thousand_le_maxCoin⟩
  failed_proofs_before_slash := 3
  default_pinboard_post_ttl_blocks := 1000
  max_pinboard_message_bytes := 1024 * 1024
  max_tx_bytes := 10 * 1024 * 1024
  fees := {
    base_fee := ⟨1000, thousand_le_maxCoin⟩
    size_fee_per_kb := ⟨100, toNat_le_maxCoin 100⟩
    gas_price := ⟨1, toNat_le_maxCoin 1⟩
    transfer_multiplier_bps := 10000
    stake_multiplier_bps := 15000
    content_manifest_multiplier_bps := 25000
    verified_proof_multiplier_bps := 20000
    device_operation_multiplier_bps := 18000 }

theorem localDev_valid : localDev.validate = .ok () := by
  rw [GenesisConstants.validate_eq_ok]
  refine ⟨rfl, ?_, ?_, ?_, ?_, ?_, ?_, ?_, ?_, ?_, ?_, ?_, ?_, ?_⟩
  case refine_13 => exact to_fee_config_valid_iff.mpr (by decide)
  all_goals decide

/-- The same with other fees. -/
def localDevWith (fees : ProtocolFees) : GenesisConstants := { localDev with fees := fees }

theorem localDevWith_valid {fees : ProtocolFees} (h : fees.to_fee_config.validate = .ok ()) :
    (localDevWith fees).validate = .ok () := by
  rw [GenesisConstants.validate_eq_ok]
  have hdev := GenesisConstants.validate_eq_ok.mp localDev_valid
  exact ⟨hdev.version, hdev.min_stake, hdev.validators, hdev.blocks, hdev.storage_validators,
    hdev.challenges, hdev.chunks, hdev.duration, hdev.reward, hdev.slash, hdev.ttl,
    hdev.message_bytes, hdev.tx_bytes, h⟩

theorem aliceSendsFive_size : utf8Len aliceSendsFive.to_string ≤ MAX_TRANSACTION_SIZE_BYTES := by
  decide +kernel

theorem fee_is_usable_iff_of_aliceSendsFive : UsableFee localDev aliceSendsFive := by
  rw [fee_is_usable_iff localDev_valid aliceSendsFive_size]
  refine ⟨by decide, fun gas hgas => ?_⟩
  cases hgas
  decide +kernel

/-- A transfer at half the base fee. -/
def halfTransfers : ProtocolFees :=
  { localDev.fees with transfer_multiplier_bps := 5000 }

/-- Gas at a coin a unit. -/
def dearGas : ProtocolFees := { localDev.fees with gas_price := ⟨1000000, toNat_le_maxCoin 1000000⟩ }

theorem accepted_schedules_without_a_fee :
    ((localDevWith halfTransfers).validate = .ok () ∧
      ¬ UsableFee (localDevWith halfTransfers) aliceSendsFive) ∧
    (localDevWith dearGas).validate = .ok () ∧ ¬ UsableFee (localDevWith dearGas) aliceSendsFive := by
  have hhalf : (localDevWith halfTransfers).validate = .ok () :=
    localDevWith_valid (to_fee_config_valid_iff.mpr (by decide))
  have hdear : (localDevWith dearGas).validate = .ok () :=
    localDevWith_valid (to_fee_config_valid_iff.mpr (by decide))
  refine ⟨⟨hhalf, ?_⟩, hdear, ?_⟩
  · rw [usableFee_iff hhalf aliceSendsFive_size rfl]
    exact fun h => absurd h.1 (by decide)
  · rw [usableFee_iff hdear aliceSendsFive_size rfl]
    exact fun h => absurd h.2 (by decide +kernel)

end eld_chain
