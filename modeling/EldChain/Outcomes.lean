-- Everything that a payload can do, said once: it is turned away and
-- leaves the state alone, it debits one purse and then fails to credit
-- the other, or it takes effect. The laws of the chain split on these
-- outcomes and never open a processor again.
import EldChain.Ledger

open Std

namespace eld_chain

variable (o : Outside) (pc : ProtocolConstants) (st : Storage)

/-! ## The outcomes -/

/-- A registry entry as RegisterCapacity makes it. -/
def CapacityValidatorInfo.Registered (cv : CapacityValidatorInfo) : Prop :=
  cv.merkle_root.isSome = true ∧ cv.seed.isSome = true

/-- What a payload can do to the registry of capacity providers. -/
inductive RegistryChange (l : List CapacityValidatorInfo) : List CapacityValidatorInfo → Prop
  | added (cv : CapacityValidatorInfo) (h : cv.Registered) : RegistryChange l (l ++ [cv])
  | updated (p : CapacityValidatorInfo → Bool) (f : CapacityValidatorInfo → CapacityValidatorInfo)
      (h : ∀ cv, cv.Registered → (f cv).Registered) : RegistryChange l (updateFirst p f l)
  | removed (p : CapacityValidatorInfo → Bool) : RegistryChange l (l.filter p)

/-- A proof that passed every gate but the last. -/
structure Accepts (e : AppStateEnvelope) (vp : VerifiedProofTx) (binding : VerifiedProofBinding) :
    Prop where
  not_rewarded : e.is_verified_proof_challenge_rewarded st vp.challenge_id = false
  not_failed : e.is_verified_proof_challenge_failed st vp.challenge_id = false
  bound : ∃ proof_epoch record, proof_epoch_in_window pc vp.block_height e.current_epoch =
      .ok proof_epoch ∧ e.get_epoch_record o st proof_epoch = .ok record ∧
    bind_verified_proof o pc record e.current_epoch vp.sender vp.capacity_provider vp.challenge_id
      vp.block_height = .ok binding
  signed : verify_capacity_challenge_response o vp binding.challenged_provider_id
    binding.validator_address = .ok ()

/-- The chunk proofs against the root and the indices that the binding names. -/
def proofErrors (vp : VerifiedProofTx) (binding : VerifiedProofBinding) : List String :=
  validate_challenge_proof o vp.proofs binding.expected_merkle_root binding.expected_indices

/-- The state after a failure is counted. -/
def countedState (e : AppStateEnvelope) (vp : VerifiedProofTx) : AppStateEnvelope :=
  { (record_failed_capacity_proof pc e vp.capacity_provider).2 with
    failed_proof_counted_cache := e.failed_proof_counted_cache.insert vp.challenge_id }

/-- The state after a reward, when `sum` is the provider's new balance. -/
def rewardedState (e : AppStateEnvelope) (vp : VerifiedProofTx) (sum : Coin) : AppStateEnvelope :=
  { extendLease pc (e.setCoins o st (.account vp.capacity_provider) sum) vp.capacity_provider with
    verified_proof_rewarded_cache := e.verified_proof_rewarded_cache.insert vp.challenge_id }

/-- The outcomes of a payload on an admitted state. -/
inductive Outcome (e : AppStateEnvelope) (tx : Tx) : ResponseDeliverTx → AppStateEnvelope → Prop
  | rejected {r : ResponseDeliverTx} (code : r.code ≠ 0) (fits : ¬ CreditOverflow o st e tx) :
      Outcome e tx r e
  | burnt {r : ResponseDeliverTx} {src dst : Purse} {amount : Nat} {rest : Coin}
      (code : r.code ≠ 0) (move : tx.move = some (src, dst, amount))
      (debit : rest.amount + amount = (e.coins o st src).amount)
      (overflow : MAX_COIN < (e.coins o st dst).amount + amount) :
      Outcome e tx r (e.setCoins o st src rest)
  | moved {r : ResponseDeliverTx} {src dst : Purse} {amount : Nat} {rest sum : Coin}
      {validators : List ValidatorInfo} (code : r.code = 0)
      (move : tx.move = some (src, dst, amount))
      (debit : rest.amount + amount = (e.coins o st src).amount)
      (credit : sum.amount = (e.coins o st dst).amount + amount) :
      Outcome e tx r
        { (e.setCoins o st src rest).setCoins o st dst sum with validators := validators }
  | registry {r : ResponseDeliverTx} {l : List CapacityValidatorInfo} (code : r.code = 0)
      (coinless : tx.coinless = true) (change : RegistryChange e.capacity_validators l) :
      Outcome e tx r { e with capacity_validators := l }
  | posted {r : ResponseDeliverTx} {meta_cache refcounts wallet tags expiry commits}
      (code : r.code = 0) (coinless : tx.coinless = true) :
      Outcome e tx r { e with
        pinboard_meta_cache := meta_cache, pinboard_refcount_deltas := refcounts,
        pinboard_idx_wallet_add := wallet, pinboard_idx_tag_add := tags,
        pinboard_idx_expiry_add := expiry, pinboard_idx_commit_add := commits }
  | namespaced {r : ResponseDeliverTx} {an : AddNamespaceTx} {rest : Coin}
      {record : NamespaceRecord} (code : r.code = 0) (inner : tx.payload.inner = .AddNamespace an)
      (debit : rest.amount + an.registration_fee = (e.coins o st (.account an.sender)).amount)
      (free : e.validate_add_namespace_not_taken an.namespace_slug = .ok ()) :
      Outcome e tx r { e.setCoins o st (.account an.sender) rest with
        namespace_registry_cache := e.namespace_registry_cache.insert an.namespace_slug record }
  | counted {r : ResponseDeliverTx} {vp : VerifiedProofTx} {binding : VerifiedProofBinding}
      (code : r.code = 0) (inner : tx.payload.inner = .VerifiedProof vp)
      (accepts : Accepts o pc st e vp binding) (flag : vp.failed = true)
      (invalid : proofErrors o vp binding ≠ []) : Outcome e tx r (countedState pc e vp)
  | rewarded {r : ResponseDeliverTx} {vp : VerifiedProofTx} {binding : VerifiedProofBinding}
      {sum : Coin} (code : r.code = 0) (inner : tx.payload.inner = .VerifiedProof vp)
      (accepts : Accepts o pc st e vp binding) (flag : vp.failed = false)
      (valid : proofErrors o vp binding = [])
      (credit : sum.amount = (e.coins o st (.account vp.capacity_provider)).amount
        + pc.verified_proof_reward_base_amount.amount) :
      Outcome e tx r (rewardedState o pc st e vp sum)

/-! ## Payloads that move coins -/

/-- A payload whose source purse does not cover the amount never overflows. -/
theorem fits_of_uncovered {e : AppStateEnvelope} {tx : Tx} {src dst : Purse} {amount : Nat}
    (hmove : tx.move = some (src, dst, amount)) (h : (e.coins o st src).amount < amount) :
    ¬ CreditOverflow o st e tx := by
  rintro ⟨src', dst', amount', hmove', hle, _⟩
  rw [hmove] at hmove'
  cases hmove'
  omega

theorem fits_of_credit {e : AppStateEnvelope} {tx : Tx} {src dst : Purse} {amount : Nat}
    (hmove : tx.move = some (src, dst, amount))
    (h : (e.coins o st dst).amount + amount ≤ MAX_COIN) : ¬ CreditOverflow o st e tx := by
  rintro ⟨src', dst', amount', hmove', _, hlt⟩
  rw [hmove] at hmove'
  cases hmove'
  omega

theorem fits_of_no_move {e : AppStateEnvelope} {tx : Tx} (hmove : tx.move = none) :
    ¬ CreditOverflow o st e tx := by
  rintro ⟨src, dst, amount, hmove', _⟩
  rw [hmove] at hmove'
  cases hmove'

theorem fits_of_coinless {e : AppStateEnvelope} {tx : Tx} (h : tx.coinless = true) :
    ¬ CreditOverflow o st e tx := by
  apply fits_of_no_move
  unfold Tx.coinless at h
  unfold Tx.move
  split at h <;> simp_all

theorem process_transfer_outcome (e : AppStateEnvelope) {tx : Tx} {t : TransferTx}
    (h : tx.payload.inner = .Transfer t) :
    Outcome o pc st e tx (process_transfer_tx o st e t).1 (process_transfer_tx o st e t).2 := by
  have hmove : tx.move = some (.account t.sender, .account t.recipient, t.amount) := by
    simp [Tx.move, h]
  obtain ⟨amount_coin, hnew, hval⟩ := Coin.new_of_le t.amount_le
  unfold process_transfer_tx
  simp only [hnew]
  rcases hs : e.get_account_from_cado o st t.sender with _ | sender
  · refine .rejected (Nat.succ_ne_zero _) (fits_of_uncovered o st hmove ?_)
    rw [coins_account_of_none o st hs]
    exact t.amount_pos
  · have hcoins := coins_account_of_some o st hs
    simp only
    split
    · rename_i hlt
      exact .rejected (Nat.succ_ne_zero _) (fits_of_uncovered o st hmove (by rw [hcoins]; omega))
    · rename_i hle
      obtain ⟨rest, hsub, hrest⟩ := Coin.sub_of_le (Nat.le_of_not_lt hle)
      have hdebit : rest.amount + t.amount = (e.coins o st (.account t.sender)).amount := by
        rw [hcoins]; omega
      have hne : Purse.account t.sender ≠ .account t.recipient := (move_facts hmove).1
      simp only [hsub]
      rw [← setCoins_account_of_some o st hs]
      rcases hadd : (e.account_or_new o st t.recipient).account.balance.add amount_coin with
        err | sum
      · refine .burnt (Nat.succ_ne_zero _) hmove hdebit ?_
        rw [← hval]
        exact Coin.add_error_iff.mp ⟨err, hadd⟩
      · have hcredit := Coin.add_eq_ok.mp hadd
        simp only
        rw [← setCoins_account_of_ne o st rest sum hne]
        exact .moved rfl hmove hdebit (by rw [hcredit, hval]; rfl)

theorem process_unstake_outcome (e : AppStateEnvelope) {tx : Tx} {u : UnstakeTx}
    (hmove : tx.move = some (.stake u.sender, .account u.sender, u.amount)) :
    Outcome o pc st e tx (process_unstake_tx o st e u).1 (process_unstake_tx o st e u).2 := by
  obtain ⟨amount_coin, hnew, hval⟩ := Coin.new_of_le u.amount_le
  unfold process_unstake_tx
  simp only [hnew]
  rcases hs : e.get_account_from_cado o st u.sender with _ | sender
  · refine .rejected (Nat.succ_ne_zero _) (fits_of_credit o st hmove ?_)
    rw [coins_account_of_none o st hs, Nat.zero_add]
    exact u.amount_le
  · rcases hk : e.get_staking_account_from_cado o st u.sender with _ | staking
    · refine .rejected (Nat.succ_ne_zero _) (fits_of_uncovered o st hmove ?_)
      rw [coins_stake_of_none o st hk]
      exact u.amount_pos
    · have hcoins := coins_stake_of_some o st hk
      simp only
      split
      · rename_i hlt
        exact .rejected (Nat.succ_ne_zero _) (fits_of_uncovered o st hmove (by rw [hcoins]; omega))
      · rename_i hle
        obtain ⟨rest, hsub, hrest⟩ := Coin.sub_of_le (Nat.le_of_not_lt hle)
        have hdebit : rest.amount + u.amount = (e.coins o st (.stake u.sender)).amount := by
          rw [hcoins]; omega
        simp only [hsub]
        rw [← setCoins_stake_of_some o st hk]
        rcases hadd : sender.account.balance.add amount_coin with err | sum
        · refine .burnt (Nat.succ_ne_zero _) hmove hdebit ?_
          rw [coins_account_of_some o st hs, ← hval]
          exact Coin.add_error_iff.mp ⟨err, hadd⟩
        · have hcredit := Coin.add_eq_ok.mp hadd
          have hx := account_or_new_of_some o st hs
          have hset := setCoins_account_of_ne o st (e := e) rest sum
            (p := .stake u.sender) (a := u.sender) (by simp)
          rw [hx] at hset
          simp only
          rw [← hset]
          exact .moved rfl hmove hdebit (by rw [coins_account_of_some o st hs, hcredit, hval])

/-- Hex digits of either case decode, two to a byte. -/
theorem hexBytes_of_hex (n : Nat) {s : Text} (hlen : s.length = 2 * n)
    (hhex : ∀ c ∈ s, (hexVal c).isSome) : ∃ bytes, hexBytes s = some bytes ∧ bytes.length = n := by
  induction n generalizing s with
  | zero =>
    obtain rfl := List.length_eq_zero_iff.mp hlen
    exact ⟨[], rfl, rfl⟩
  | succ n ih =>
    match s, hlen, hhex with
    | c :: d :: rest, hlen, hhex =>
      obtain ⟨hi, hc⟩ := Option.isSome_iff_exists.mp (hhex c (by simp))
      obtain ⟨lo, hd⟩ := Option.isSome_iff_exists.mp (hhex d (by simp))
      obtain ⟨bytes, hb, hbl⟩ := ih (s := rest) (by simp at hlen; omega)
        (fun x hx => hhex x (by simp [hx]))
      refine ⟨UInt8.ofNat (16 * hi + lo) :: bytes, ?_, by simp [hbl]⟩
      simp only [hexBytes, hc, hd, hb]

theorem stageStake_outcome (e : AppStateEnvelope) {tx : Tx} {s : StakeTx}
    {sender : AccountWithCadoHash} {amount_coin : Coin}
    (hmove : tx.move = some (.account s.sender, .stake s.sender, s.amount))
    (hs : e.get_account_from_cado o st s.sender = some sender)
    (hval : amount_coin.amount = s.amount)
    (hle : amount_coin.amount ≤ sender.account.balance.amount) :
    Outcome o pc st e tx (stageStake o st e s sender amount_coin).1
      (stageStake o st e s sender amount_coin).2 := by
  obtain ⟨rest, hsub, hrest⟩ := Coin.sub_of_le hle
  have hdebit : rest.amount + s.amount = (e.coins o st (.account s.sender)).amount := by
    rw [coins_account_of_some o st hs]; omega
  unfold stageStake
  simp only [hsub]
  rw [← setCoins_account_of_some o st hs]
  rcases hadd : (e.staking_account_or_new o st s.sender).account.stake_balance.add amount_coin with
    err | sum
  · refine .burnt (Nat.succ_ne_zero _) hmove hdebit ?_
    rw [← hval]
    exact Coin.add_error_iff.mp ⟨err, hadd⟩
  · have hcredit : sum.amount = (e.coins o st (.stake s.sender)).amount + s.amount := by
      rw [Coin.add_eq_ok.mp hadd, hval]; rfl
    simp only
    rw [← setCoins_stake_of_ne o st rest sum (by simp)]
    rcases hpk : s.public_key with _ | public_key
    · exact .moved rfl hmove hdebit hcredit
    · obtain ⟨hlen, hhex⟩ := s.key_hex public_key hpk
      obtain ⟨bytes, hb, hbl⟩ := hexBytes_of_hex 32 hlen hhex
      simp only [hb, hbl, ne_eq, not_true_eq_false, if_false]
      exact .moved rfl hmove hdebit hcredit

theorem process_stake_outcome (e : AppStateEnvelope) {tx : Tx} {s : StakeTx}
    (hmove : tx.move = some (.account s.sender, .stake s.sender, s.amount)) :
    Outcome o pc st e tx (process_stake_tx o pc st e s).1 (process_stake_tx o pc st e s).2 := by
  obtain ⟨amount_coin, hnew, hval⟩ := Coin.new_of_le s.amount_le
  unfold process_stake_tx
  simp only [hnew]
  rcases hs : e.get_account_from_cado o st s.sender with _ | sender
  · refine .rejected (Nat.succ_ne_zero _) (fits_of_uncovered o st hmove ?_)
    rw [coins_account_of_none o st hs]
    exact s.amount_pos
  · simp only
    split
    · rename_i hlt
      refine .rejected (Nat.succ_ne_zero _) (fits_of_uncovered o st hmove ?_)
      rw [coins_account_of_some o st hs]
      omega
    · rename_i hle
      have hstage := stageStake_outcome o pc st e hmove hs hval (Nat.le_of_not_lt hle)
      split
      · rename_i hzero
        split
        · -- a first stake below the minimum: with no stake yet the credit always fits
          refine .rejected (Nat.succ_ne_zero _) (fits_of_credit o st hmove ?_)
          have h0 : (e.coins o st (.stake s.sender)).amount = 0 := by
            simpa [Coin.is_zero, AppStateEnvelope.coins] using hzero
          rw [h0, Nat.zero_add]
          exact s.amount_le
        · exact hstage
      · split
        · rename_i hzero
          have h0 : amount_coin.amount = 0 := by simpa [Coin.is_zero] using hzero
          exact absurd s.amount_pos (by omega)
        · exact hstage

/-! ## Capacity registrations -/

theorem process_register_capacity_outcome (e : AppStateEnvelope) {tx : Tx}
    (rc : RegisterCapacityTx) (hcoinless : tx.coinless = true) :
    Outcome o pc st e tx (process_register_capacity_tx o pc st e rc tx.public_key).1
      (process_register_capacity_tx o pc st e rc tx.public_key).2 := by
  have hfits := fits_of_coinless o st (e := e) hcoinless
  unfold process_register_capacity_tx
  split
  · exact .rejected (Nat.succ_ne_zero _) hfits
  · split
    · exact .rejected (Nat.succ_ne_zero _) hfits
    · split
      · exact .rejected (Nat.succ_ne_zero _) hfits
      · simp only
        split
        · exact .registry rfl hcoinless (.added _ ⟨rfl, rfl⟩)
        · split
          · exact .rejected (Nat.succ_ne_zero _) hfits
          · exact .registry rfl hcoinless (.updated _ _ (fun _ _ => ⟨rfl, rfl⟩))

theorem process_unregister_capacity_outcome (e : AppStateEnvelope) {tx : Tx}
    (uc : UnregisterCapacityTx) (hcoinless : tx.coinless = true) :
    Outcome o pc st e tx (process_unregister_capacity_tx o st e uc).1
      (process_unregister_capacity_tx o st e uc).2 := by
  unfold process_unregister_capacity_tx
  split
  · exact .rejected (Nat.succ_ne_zero _) (fits_of_coinless o st hcoinless)
  · exact .registry rfl hcoinless (.removed _)

theorem process_update_capacity_merkle_root_outcome (e : AppStateEnvelope) {tx : Tx}
    (um : UpdateCapacityMerkleRootTx) (hcoinless : tx.coinless = true) :
    Outcome o pc st e tx (process_update_capacity_merkle_root_tx o st e um).1
      (process_update_capacity_merkle_root_tx o st e um).2 := by
  have hfits := fits_of_coinless o st (e := e) hcoinless
  unfold process_update_capacity_merkle_root_tx
  split
  · exact .rejected (Nat.succ_ne_zero _) hfits
  · split
    · exact .registry rfl hcoinless (.updated _ _ (fun _ h => ⟨rfl, h.2⟩))
    · exact .rejected (Nat.succ_ne_zero _) hfits

/-! ## Messages and namespaces -/

theorem process_post_message_outcome (e : AppStateEnvelope) {tx : Tx} (pm : PostMessageTx)
    (hcoinless : tx.coinless = true) :
    Outcome o pc st e tx (process_post_message_tx pc e pm).1 (process_post_message_tx pc e pm).2 := by
  unfold process_post_message_tx
  split
  · exact .rejected (Nat.succ_ne_zero _) (fits_of_coinless o st hcoinless)
  · exact .posted rfl hcoinless

/-- The address in an account is the address of its path. -/
def AddressesMatch (e : AppStateEnvelope) : Prop :=
  ∀ a x, e.get_account_from_cado o st a = some x → x.account.address = a

theorem stageNamespace_outcome {e : AppStateEnvelope} {tx : Tx} {an : AddNamespaceTx} {fee : Coin}
    (haddr : AddressesMatch o st e) (hinner : tx.payload.inner = .AddNamespace an)
    (hfee : fee.amount = an.registration_fee)
    (hfree : e.validate_add_namespace_not_taken an.namespace_slug = .ok ()) :
    Outcome o pc st e tx (stageNamespace o st e an fee).1 (stageNamespace o st e an fee).2 := by
  have hfits : ¬ CreditOverflow o st e tx := fits_of_no_move o st (by simp [Tx.move, hinner])
  unfold stageNamespace
  rcases hs : e.get_account_from_cado o st an.sender with _ | sender
  · exact .rejected (Nat.succ_ne_zero _) hfits
  · simp only
    split
    · exact .rejected (Nat.succ_ne_zero _) hfits
    · rename_i hle
      obtain ⟨rest, hsub, hrest⟩ := Coin.sub_of_le (Nat.le_of_not_lt hle)
      have hdebit : rest.amount + an.registration_fee
          = (e.coins o st (.account an.sender)).amount := by
        rw [coins_account_of_some o st hs]; omega
      have hacc : (⟨an.sender, rest, sender.account.nonce⟩ : Account)
          = { sender.account with balance := rest } := by
        rw [← haddr _ _ hs]
      simp only [hsub]
      rw [hacc, ← setCoins_account_of_some o st hs]
      exact .namespaced rfl hinner hdebit hfree

theorem process_add_namespace_outcome {e : AppStateEnvelope} {tx : Tx} {an : AddNamespaceTx}
    (haddr : AddressesMatch o st e) (hinner : tx.payload.inner = .AddNamespace an) :
    Outcome o pc st e tx (process_add_namespace_tx o st e an).1
      (process_add_namespace_tx o st e an).2 := by
  have hfits : ¬ CreditOverflow o st e tx := fits_of_no_move o st (by simp [Tx.move, hinner])
  obtain ⟨fee, hnew, hval⟩ := Coin.new_of_le an.fee_le
  unfold process_add_namespace_tx
  simp only [hnew]
  split
  · exact .rejected (Nat.succ_ne_zero _) hfits
  · rename_i hfree
    split
    · exact .rejected (Nat.succ_ne_zero _) hfits
    · split
      · exact .rejected (Nat.succ_ne_zero _) hfits
      · exact stageNamespace_outcome o pc st haddr hinner hval hfree

/-! ## Verified proofs -/

theorem stageFailure_outcome {e : AppStateEnvelope} {tx : Tx} {vp : VerifiedProofTx}
    {binding : VerifiedProofBinding} (hinner : tx.payload.inner = .VerifiedProof vp)
    (haccepts : Accepts o pc st e vp binding) (hflag : vp.failed = true) :
    Outcome o pc st e tx (stageFailure pc e vp (proofErrors o vp binding)).1
      (stageFailure pc e vp (proofErrors o vp binding)).2 := by
  unfold stageFailure
  split
  · exact .rejected (Nat.succ_ne_zero _) (fits_of_no_move o st (by simp [Tx.move, hinner]))
  · rename_i hinvalid
    have hcache : (record_failed_capacity_proof pc e vp.capacity_provider).2.failed_proof_counted_cache
        = e.failed_proof_counted_cache := by
      unfold record_failed_capacity_proof
      simp only
      split <;> rfl
    simp only [hcache]
    exact .counted rfl hinner haccepts hflag hinvalid

theorem stageReward_outcome {e : AppStateEnvelope} {tx : Tx} {vp : VerifiedProofTx}
    {binding : VerifiedProofBinding} (hinner : tx.payload.inner = .VerifiedProof vp)
    (haccepts : Accepts o pc st e vp binding) (hflag : vp.failed = false) :
    Outcome o pc st e tx
      (stageReward o pc st e vp (proofErrors o vp binding) pc.verified_proof_reward_base_amount).1
      (stageReward o pc st e vp (proofErrors o vp binding)
        pc.verified_proof_reward_base_amount).2 := by
  have hfits : ¬ CreditOverflow o st e tx := fits_of_no_move o st (by simp [Tx.move, hinner])
  unfold stageReward
  split
  · exact .rejected (Nat.succ_ne_zero _) hfits
  · rename_i hvalid
    unfold credit_verified_proof_reward
    simp only
    rcases hadd : (e.account_or_new o st vp.capacity_provider).account.balance.add
        pc.verified_proof_reward_base_amount with err | sum
    · exact .rejected (Nat.succ_ne_zero _) hfits
    · exact .rewarded rfl hinner haccepts hflag (by simpa using hvalid) (Coin.add_eq_ok.mp hadd)

theorem process_verified_proof_outcome {e : AppStateEnvelope} {tx : Tx} {vp : VerifiedProofTx}
    (hinner : tx.payload.inner = .VerifiedProof vp) :
    Outcome o pc st e tx (process_verified_proof_tx o pc st e vp).1
      (process_verified_proof_tx o pc st e vp).2 := by
  have hfits : ¬ CreditOverflow o st e tx := fits_of_no_move o st (by simp [Tx.move, hinner])
  unfold process_verified_proof_tx
  simp only [Coin.new_amount]
  split
  · exact .rejected (Nat.succ_ne_zero _) hfits
  · rename_i hrewarded
    split
    · exact .rejected (Nat.succ_ne_zero _) hfits
    · rename_i hfailed
      split
      · exact .rejected (Nat.succ_ne_zero _) hfits
      · rename_i proof_epoch hwindow
        split
        · exact .rejected (Nat.succ_ne_zero _) hfits
        · rename_i record hrecord
          split
          · exact .rejected (Nat.succ_ne_zero _) hfits
          · rename_i binding hbind
            unfold judgeProof
            split
            · exact .rejected (Nat.succ_ne_zero _) hfits
            · rename_i hsigned
              have haccepts : Accepts o pc st e vp binding :=
                ⟨by simpa using hrewarded, by simpa using hfailed,
                  ⟨proof_epoch, record, hwindow, hrecord, hbind⟩, hsigned⟩
              simp only
              split
              · exact stageFailure_outcome o pc st hinner haccepts ‹_›
              · rename_i hflag
                exact stageReward_outcome o pc st hinner haccepts (by simpa using hflag)

/-! ## Every payload -/

/-- Whatever the payload, its processor ends in one of the outcomes. -/
theorem process_outcome {e : AppStateEnvelope} (tx : Tx) (haddr : AddressesMatch o st e) :
    Outcome o pc st e tx (tx.process o pc st e).1 (tx.process o pc st e).2 := by
  unfold Tx.process
  rcases hinner : tx.payload.inner with t | u | s | vp | rc | uc | um | pm | an
  · exact process_transfer_outcome o pc st e hinner
  · exact process_unstake_outcome o pc st e (by simp [Tx.move, hinner])
  · simp only
    split
    · rename_i htype
      exact process_unstake_outcome o pc st e
        (u := ⟨s.sender, s.amount, s.amount_pos, s.amount_le⟩) (by simp [Tx.move, hinner, htype])
    · rename_i htype
      exact process_stake_outcome o pc st e (by simp only [Tx.move, hinner, if_neg htype])
  · exact process_verified_proof_outcome o pc st hinner
  · exact process_register_capacity_outcome o pc st e rc (by simp [Tx.coinless, hinner])
  · exact process_unregister_capacity_outcome o pc st e uc (by simp [Tx.coinless, hinner])
  · exact process_update_capacity_merkle_root_outcome o pc st e um (by simp [Tx.coinless, hinner])
  · exact process_post_message_outcome o pc st e pm (by simp [Tx.coinless, hinner])
  · exact process_add_namespace_outcome o pc st haddr hinner

end eld_chain
