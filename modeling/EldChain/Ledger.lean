-- The chain as a ledger: an account or a stake is a purse, a payload
-- moves coins from one purse to another, and setting the coins of one
-- purse leaves every other purse, nonce and hash as it was.
import EldChain.DeliverTx

open Std

namespace eld_chain

/-! ## Purses -/

/-- A place that holds coins. -/
inductive Purse
  | account (a : Address)
  | stake (a : Address)
deriving DecidableEq

/-- The path of a purse. -/
def Purse.path : Purse → CadoPath
  | .account a => .account a
  | .stake a => .staking_account a

variable (o : Outside) (pc : ProtocolConstants) (st : Storage)

/-- The coins of a purse: 0 when there is no such account. -/
def AppStateEnvelope.coins (e : AppStateEnvelope) : Purse → Coin
  | .account a => (e.account_or_new o st a).account.balance
  | .stake a => (e.staking_account_or_new o st a).account.stake_balance

/-- Stages a purse with other coins. Its nonce, its address and its hash stay. -/
def AppStateEnvelope.setCoins (e : AppStateEnvelope) (p : Purse) (c : Coin) : AppStateEnvelope :=
  match p with
  | .account a => e.stage_account o a (e.account_or_new o st a).hash
      { (e.account_or_new o st a).account with balance := c }
  | .stake a => e.stage_staking_account o a (e.staking_account_or_new o st a).hash
      { (e.staking_account_or_new o st a).account with stake_balance := c }

theorem account_or_new_setCoins (e : AppStateEnvelope) (p : Purse) (c : Coin) (a : Address) :
    (e.setCoins o st p c).account_or_new o st a =
      if p = .account a then
        ⟨{ (e.account_or_new o st a).account with balance := c }, (e.account_or_new o st a).hash⟩
      else e.account_or_new o st a := by
  cases p with
  | account b =>
    simp only [AppStateEnvelope.setCoins, Purse.account.injEq]
    rw [AppStateEnvelope.account_or_new, get_account_stage_account]
    by_cases hba : b = a
    · subst hba; simp
    · simp only [hba, if_false]
      rfl
  | stake b =>
    simp only [AppStateEnvelope.setCoins, reduceCtorEq, if_false]
    rw [AppStateEnvelope.account_or_new, get_account_stage_staking]
    rfl

theorem staking_account_or_new_setCoins (e : AppStateEnvelope) (p : Purse) (c : Coin)
    (a : Address) :
    (e.setCoins o st p c).staking_account_or_new o st a =
      if p = .stake a then
        ⟨{ (e.staking_account_or_new o st a).account with stake_balance := c },
          (e.staking_account_or_new o st a).hash⟩
      else e.staking_account_or_new o st a := by
  cases p with
  | account b =>
    simp only [AppStateEnvelope.setCoins, reduceCtorEq, if_false]
    rw [AppStateEnvelope.staking_account_or_new, get_staking_stage_account]
    rfl
  | stake b =>
    simp only [AppStateEnvelope.setCoins, Purse.stake.injEq]
    rw [AppStateEnvelope.staking_account_or_new, get_staking_stage_staking]
    by_cases hba : b = a
    · subst hba; simp
    · simp only [hba, if_false]
      rfl

theorem coins_setCoins (e : AppStateEnvelope) (p q : Purse) (c : Coin) :
    (e.setCoins o st p c).coins o st q = if p = q then c else e.coins o st q := by
  cases q with
  | account a =>
    simp only [AppStateEnvelope.coins]
    rw [account_or_new_setCoins]
    split <;> rfl
  | stake a =>
    simp only [AppStateEnvelope.coins]
    rw [staking_account_or_new_setCoins]
    split <;> rfl

/-- Setting two purses, the second from what the first state holds of it. -/
theorem setCoins_account_of_ne {e : AppStateEnvelope} {p : Purse} {a : Address} (c d : Coin)
    (h : p ≠ .account a) :
    (e.setCoins o st p c).setCoins o st (.account a) d =
      (e.setCoins o st p c).stage_account o a (e.account_or_new o st a).hash
        { (e.account_or_new o st a).account with balance := d } := by
  rw [AppStateEnvelope.setCoins]
  simp only
  rw [account_or_new_setCoins, if_neg h]

theorem setCoins_stake_of_ne {e : AppStateEnvelope} {p : Purse} {a : Address} (c d : Coin)
    (h : p ≠ .stake a) :
    (e.setCoins o st p c).setCoins o st (.stake a) d =
      (e.setCoins o st p c).stage_staking_account o a (e.staking_account_or_new o st a).hash
        { (e.staking_account_or_new o st a).account with stake_balance := d } := by
  rw [AppStateEnvelope.setCoins]
  simp only
  rw [staking_account_or_new_setCoins, if_neg h]

/-- An account that exists is the one that `account_or_new` gives. -/
theorem account_or_new_of_some {e : AppStateEnvelope} {a : Address} {x : AccountWithCadoHash}
    (h : e.get_account_from_cado o st a = some x) : e.account_or_new o st a = x := by
  rw [AppStateEnvelope.account_or_new, h, Option.getD_some]

theorem staking_account_or_new_of_some {e : AppStateEnvelope} {a : Address}
    {x : StakingAccountWithCadoHash} (h : e.get_staking_account_from_cado o st a = some x) :
    e.staking_account_or_new o st a = x := by
  rw [AppStateEnvelope.staking_account_or_new, h, Option.getD_some]

theorem coins_account_of_some {e : AppStateEnvelope} {a : Address} {x : AccountWithCadoHash}
    (h : e.get_account_from_cado o st a = some x) :
    e.coins o st (.account a) = x.account.balance := by
  rw [AppStateEnvelope.coins, account_or_new_of_some o st h]

theorem coins_stake_of_some {e : AppStateEnvelope} {a : Address} {x : StakingAccountWithCadoHash}
    (h : e.get_staking_account_from_cado o st a = some x) :
    e.coins o st (.stake a) = x.account.stake_balance := by
  rw [AppStateEnvelope.coins, staking_account_or_new_of_some o st h]

/-- A purse that does not exist holds nothing. -/
theorem coins_account_of_none {e : AppStateEnvelope} {a : Address}
    (h : e.get_account_from_cado o st a = none) : (e.coins o st (.account a)).amount = 0 := by
  rw [AppStateEnvelope.coins, AppStateEnvelope.account_or_new, h]
  rfl

theorem coins_stake_of_none {e : AppStateEnvelope} {a : Address}
    (h : e.get_staking_account_from_cado o st a = none) :
    (e.coins o st (.stake a)).amount = 0 := by
  rw [AppStateEnvelope.coins, AppStateEnvelope.staking_account_or_new, h]
  rfl

theorem setCoins_account_of_some {e : AppStateEnvelope} {a : Address} {x : AccountWithCadoHash}
    (h : e.get_account_from_cado o st a = some x) (c : Coin) :
    e.setCoins o st (.account a) c =
      e.stage_account o a x.hash { x.account with balance := c } := by
  rw [AppStateEnvelope.setCoins]
  simp only
  rw [account_or_new_of_some o st h]

theorem setCoins_stake_of_some {e : AppStateEnvelope} {a : Address}
    {x : StakingAccountWithCadoHash} (h : e.get_staking_account_from_cado o st a = some x)
    (c : Coin) :
    e.setCoins o st (.stake a) c =
      e.stage_staking_account o a x.hash { x.account with stake_balance := c } := by
  rw [AppStateEnvelope.setCoins]
  simp only
  rw [staking_account_or_new_of_some o st h]

/-! ## What a payload moves -/

/-- The coins that a payload moves: from which purse, to which, and how many. A stake
payload that is declared as `Unstake` moves them back. -/
def Tx.move (tx : Tx) : Option (Purse × Purse × Nat) :=
  match tx.payload.inner with
  | .Transfer t => some (.account t.sender, .account t.recipient, t.amount)
  | .Stake s =>
    if tx.payload.type_ = "Unstake".toList then
      some (.stake s.sender, .account s.sender, s.amount)
    else some (.account s.sender, .stake s.sender, s.amount)
  | .Unstake u => some (.stake u.sender, .account u.sender, u.amount)
  | _ => none

/-- A payload of the provider registry or of the message board. It handles no coins. -/
def Tx.coinless (tx : Tx) : Bool :=
  match tx.payload.inner with
  | .RegisterCapacity _ | .UnregisterCapacity _ | .UpdateCapacityMerkleRoot _ | .PostMessage _ =>
    true
  | _ => false

/-- The purse to debit covers the amount, but the purse to credit would go above the supply. -/
def CreditOverflow (e : AppStateEnvelope) (tx : Tx) : Prop :=
  ∃ src dst amount, tx.move = some (src, dst, amount) ∧
    amount ≤ (e.coins o st src).amount ∧ MAX_COIN < (e.coins o st dst).amount + amount

/-- A payload never moves coins from a purse to itself, and never moves none. -/
theorem move_facts {tx : Tx} {src dst : Purse} {amount : Nat}
    (h : tx.move = some (src, dst, amount)) : src ≠ dst ∧ 0 < amount ∧ amount ≤ MAX_COIN := by
  unfold Tx.move at h
  split at h
  · rename_i t ht
    cases h
    exact ⟨fun heq => t.sender_ne_recipient (by simpa using heq), t.amount_pos, t.amount_le⟩
  · rename_i s hs
    split at h <;> cases h <;> exact ⟨by simp, s.amount_pos, s.amount_le⟩
  · rename_i u hu
    cases h
    exact ⟨by simp, u.amount_pos, u.amount_le⟩
  · cases h

end eld_chain
