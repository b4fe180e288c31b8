-- The fee schedule: a base fee, a fee for every started kibibyte of the
-- JSON text, a fee for the kind of the payload and one for its gas.
import EldChain.Codec
import EldChain.Validation

open json

namespace eld_chain

/-! ## The configuration -/

/-- The `f64` operations of the schedule. The laws of the fees assume nothing of them. -/
structure Floats where
  F64 : Type
  /-- `x <= 0.0`. -/
  not_positive : F64 → Bool
  /-- `x - 1.0`. -/
  less_one : F64 → F64
  /-- `(n as f64 * x) as u128`. -/
  times_as_u128 : Nat → F64 → Nat
  to_string : F64 → String

structure FeeConfig (fl : Floats) where
  base_fee : Nat
  size_fee_per_kb : Nat
  gas_price : Nat
  transfer_multiplier : fl.F64
  stake_multiplier : fl.F64
  content_manifest_multiplier : fl.F64
  verified_proof_multiplier : fl.F64
  device_operation_multiplier : fl.F64

variable (fl : Floats)

/-- A number of the configuration that may not be zero. -/
def validateNonzero (value : Nat) (field details : String) : Except EldError Unit :=
  if value = 0 then .error (.ValidationError field (toString value) details) else .ok ()

/-- A multiplier of the configuration that must be positive. -/
def validateMultiplier (x : fl.F64) (field details : String) : Except EldError Unit :=
  if fl.not_positive x then .error (.ValidationError field (fl.to_string x) details) else .ok ()

def FeeConfig.validate (cfg : FeeConfig fl) : Except EldError Unit := do
  validateNonzero cfg.base_fee "base_fee" "Base fee cannot be zero"
  validateNonzero cfg.size_fee_per_kb "size_fee_per_kb" "Size fee per KB cannot be zero"
  validateNonzero cfg.gas_price "gas_price" "Gas price cannot be zero"
  validateMultiplier fl cfg.transfer_multiplier "transfer_multiplier"
    "Transfer multiplier must be positive"
  validateMultiplier fl cfg.stake_multiplier "stake_multiplier" "Stake multiplier must be positive"
  validateMultiplier fl cfg.content_manifest_multiplier "content_manifest_multiplier"
    "Content manifest multiplier must be positive"
  validateMultiplier fl cfg.verified_proof_multiplier "verified_proof_multiplier"
    "Verified proof multiplier must be positive"
  validateMultiplier fl cfg.device_operation_multiplier "device_operation_multiplier"
    "Device operation multiplier must be positive"

/-! ## The parts of a fee -/

def MAX_GAS_USAGE : Nat := 110000000

/-- A quarter of the largest `u128`. -/
def MAX_FEE : Nat := (2 ^ 128 - 1) / 4

/-- A sum or a product that has to be a `u128`. -/
def checkedU128 (value : Nat) (operation details : String) : Except EldError Nat :=
  if value < 2 ^ 128 then .ok value else .error (.FeeError operation details)

def estimate_transaction_size (tx : Tx) : Except EldError Nat :=
  let size := utf8Len tx.to_string
  if MAX_TRANSACTION_SIZE_BYTES < size then
    .error (.FeeError "size_validation" ("Transaction size " ++ toString size
      ++ " bytes exceeds maximum allowed size " ++ toString MAX_TRANSACTION_SIZE_BYTES ++ " bytes"))
  else if size = 0 then .ok 1024
  else .ok size

/-- The kibibytes that a text of this length starts. -/
def startedKb (tx_size_bytes : Nat) : Nat := (tx_size_bytes + 1023) / 1024

def calculate_size_fee (tx_size_bytes size_fee_per_kb : Nat) : Except EldError Nat :=
  let kb := startedKb tx_size_bytes
  checkedU128 (kb * size_fee_per_kb) "size_fee_calculation"
    ("Size fee calculation overflow: " ++ toString kb ++ " KB * " ++ toString size_fee_per_kb
      ++ " per KB")

/-- The product is taken in floating point. Above `u64::MAX` the sum may wrap. -/
def calculate_complexity_fee (base_fee : Nat) (complexity_multiplier : fl.F64) :
    Except EldError Nat :=
  if fl.not_positive complexity_multiplier then
    .error (.FeeError "complexity_multiplier" "Complexity multiplier must be positive")
  else
    let total_complexity_fee :=
      if base_fee < 2 ^ 64 then fl.times_as_u128 base_fee complexity_multiplier
      else (base_fee + fl.times_as_u128 base_fee (fl.less_one complexity_multiplier)) % 2 ^ 128
    if total_complexity_fee < base_fee then
      .error (.FeeError "complexity_fee_calculation" ("Complexity fee calculation underflow: "
        ++ toString total_complexity_fee ++ " - " ++ toString base_fee))
    else .ok (total_complexity_fee - base_fee)

def gasLimitText (estimated_gas : Nat) : String :=
  "Estimated gas usage " ++ toString estimated_gas ++ " exceeds maximum allowed gas usage "
    ++ toString MAX_GAS_USAGE

def calculate_gas_fee (estimated_gas gas_price : Nat) : Except EldError Nat :=
  if MAX_GAS_USAGE < estimated_gas then
    .error (.FeeError "gas_validation" (gasLimitText estimated_gas))
  else checkedU128 (estimated_gas * gas_price) "gas_fee_calculation"
    ("Gas fee calculation overflow: " ++ toString estimated_gas ++ " gas * " ++ toString gas_price
      ++ " price")

def get_complexity_multiplier (payload : PayloadInner) (cfg : FeeConfig fl) : fl.F64 :=
  match payload with
  | .Transfer _ => cfg.transfer_multiplier
  | .Stake _ => cfg.stake_multiplier
  | .Unstake _ => cfg.stake_multiplier
  | .RegisterCapacity _ => cfg.device_operation_multiplier
  | .UnregisterCapacity _ => cfg.device_operation_multiplier
  | .UpdateCapacityMerkleRoot _ => cfg.device_operation_multiplier
  | .VerifiedProof _ => cfg.verified_proof_multiplier
  | .PostMessage _ => cfg.content_manifest_multiplier
  | .AddNamespace _ => cfg.transfer_multiplier

def estimate_gas_usage (payload : PayloadInner) : Except EldError Nat :=
  let gas_usage :=
    match payload with
    | .Transfer _ => 21000
    | .Stake _ => 50000
    | .Unstake _ => 50000
    | .PostMessage _ => 120000
    | .VerifiedProof _ => 50000
    | .RegisterCapacity _ => 60000
    | .UnregisterCapacity _ => 40000
    | .UpdateCapacityMerkleRoot _ => 40000
    | .AddNamespace _ => 40000
  if MAX_GAS_USAGE < gas_usage then .error (.FeeError "gas_estimation" (gasLimitText gas_usage))
  else .ok gas_usage

/-! ## The fee -/

/-- The fee of a payload in a text of this length. -/
def feeForSize (cfg : FeeConfig fl) (payload : PayloadInner) (tx_size_bytes : Nat) :
    Except EldError Coin := do
  let size_fee ← calculate_size_fee tx_size_bytes cfg.size_fee_per_kb
  let complexity_fee ← calculate_complexity_fee fl cfg.base_fee
    (get_complexity_multiplier fl payload cfg)
  let estimated_gas ← estimate_gas_usage payload
  let gas_fee ← calculate_gas_fee estimated_gas cfg.gas_price
  let sized ← checkedU128 (cfg.base_fee + size_fee) "fee_calculation"
    "Fee calculation overflow: base_fee + size_fee"
  let complex ← checkedU128 (sized + complexity_fee) "fee_calculation"
    "Fee calculation overflow: adding complexity_fee"
  let total_fee ← checkedU128 (complex + gas_fee) "fee_calculation"
    "Fee calculation overflow: adding gas_fee"
  if MAX_FEE < total_fee then
    .error (.FeeError "fee_validation" ("Calculated fee " ++ toString total_fee
      ++ " exceeds maximum allowed fee " ++ toString MAX_FEE))
  else Coin.new total_fee

def calculate_dynamic_fee (cfg : FeeConfig fl) (tx : Tx) : Except EldError Coin := do
  let tx_size_bytes ← estimate_transaction_size tx
  feeForSize fl cfg tx.payload.inner tx_size_bytes

/-- The outside with this fee schedule. -/
def Outside.withFees (o : Outside) (cfg : FeeConfig fl) : Outside :=
  { o with calculate_dynamic_fee := eld_chain.calculate_dynamic_fee fl cfg }

end eld_chain
