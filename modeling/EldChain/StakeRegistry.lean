-- The stake of a validator is kept twice: in its staking account and in
-- its entry of the validator list. A Stake with a key writes both. A
-- Stake without a key and an Unstake write the account alone, and from
-- then on the entry is out of date.
import EldChain.ActiveValidators
import EldChain.Atomicity

open Std

namespace eld_chain

variable {o : Outside} {pc : ProtocolConstants} {cfg : GenesisConfig}
variable {e e' : AppStateEnvelope} {st st' : Storage}

/-! ## The entries that stakes created -/

/-- The entries behind those of genesis. The list only grows at its end, when a Stake names a
key for an address that has no entry. -/
def createdEntries (genesis vs : List ValidatorInfo) : List ValidatorInfo := vs.drop genesis.length

/-- The list begins with the genesis entries, and each later entry is the only one of its
address. -/
structure Extends (genesis vs : List ValidatorInfo) : Prop where
  old : (vs.take genesis.length).map (fun v => v.address) = genesis.map (fun v => v.address)
  nodup : ((createdEntries genesis vs).map (fun v => v.address)).Nodup
  apart : ∀ v ∈ createdEntries genesis vs, v.address ∉ genesis.map (fun v => v.address)

theorem Extends.refl (genesis : List ValidatorInfo) : Extends genesis genesis := by
  refine ⟨by rw [List.take_length], ?_, ?_⟩ <;> simp [createdEntries]

/-- The update of a stake: the stake and the key of an entry are replaced. -/
def restaked (stake : Coin) (key : Bytes) (v : ValidatorInfo) : ValidatorInfo :=
  { v with stake, public_key := key }

theorem updateFirst_append {α : Type} (p : α → Bool) (f : α → α) (l l' : List α) :
    updateFirst p f (l ++ l') =
      if l.any p then updateFirst p f l ++ l' else l ++ updateFirst p f l' := by
  induction l with
  | nil => rfl
  | cons x l ih =>
    rw [List.cons_append, updateFirst, updateFirst, List.any_cons]
    rcases hx : p x with _ | _
    · rw [ih]
      by_cases hany : l.any p = true
      · simp [hany]
      · simp [hany]
    · simp

theorem map_address_updateFirst (a : Address) (stake : Coin) (key : Bytes)
    (l : List ValidatorInfo) :
    (updateFirst (fun v => v.address == a) (restaked stake key) l).map (fun v => v.address) =
      l.map (fun v => v.address) := by
  induction l with
  | nil => rfl
  | cons x l ih =>
    rw [updateFirst]
    split
    · rfl
    · rw [List.map_cons, List.map_cons, ih]

/-- In a list without two entries of an address, an update replaces the one entry. -/
theorem mem_updateFirst_restaked {a : Address} {stake : Coin} {key : Bytes}
    {l : List ValidatorInfo} {v : ValidatorInfo} (hnodup : (l.map (fun v => v.address)).Nodup)
    (h : v ∈ updateFirst (fun v => v.address == a) (restaked stake key) l) :
    (v.address = a ∧ v.stake = stake) ∨ (v.address ≠ a ∧ v ∈ l) := by
  induction l with
  | nil => cases h
  | cons x l ih =>
    rw [List.map_cons, List.nodup_cons] at hnodup
    rw [updateFirst] at h
    by_cases hx : x.address = a
    · rw [if_pos (by simpa using hx), List.mem_cons] at h
      rcases h with rfl | h
      · exact Or.inl ⟨hx, rfl⟩
      · refine Or.inr ⟨fun heq => hnodup.1 ?_, List.mem_cons_of_mem _ h⟩
        rw [hx, ← heq]
        exact List.mem_map_of_mem h
    · rw [if_neg (by simpa using hx), List.mem_cons] at h
      rcases h with rfl | h
      · exact Or.inr ⟨hx, List.mem_cons_self⟩
      · rcases ih hnodup.2 h with h | ⟨hne, h⟩
        · exact Or.inl h
        · exact Or.inr ⟨hne, List.mem_cons_of_mem _ h⟩

/-- A list in two parts, the first with the addresses of the genesis entries. -/
theorem extends_append_iff {genesis l : List ValidatorInfo}
    (hold : l.map (fun v => v.address) = genesis.map (fun v => v.address))
    (l' : List ValidatorInfo) :
    createdEntries genesis (l ++ l') = l' ∧
      (Extends genesis (l ++ l') ↔
        (l'.map (fun v => v.address)).Nodup ∧
          ∀ v ∈ l', v.address ∉ l.map (fun v => v.address)) := by
  have hlen : l.length = genesis.length := by
    have := congrArg List.length hold
    simpa using this
  have htake : (l ++ l').take genesis.length = l := by
    rw [← hlen]
    exact List.take_left
  have hdrop : createdEntries genesis (l ++ l') = l' := by
    unfold createdEntries
    rw [← hlen]
    exact List.drop_left
  refine ⟨hdrop, ?_⟩
  constructor
  · rintro ⟨_, hnodup, hapart⟩
    rw [hdrop] at hnodup hapart
    rw [hold]
    exact ⟨hnodup, hapart⟩
  · rintro ⟨hnodup, hapart⟩
    rw [hold] at hapart
    exact ⟨by rw [htake, hold], by rw [hdrop]; exact hnodup, by rw [hdrop]; exact hapart⟩

/-- What a stake of `a` makes of the created entries: its own entry has the new stake, and the
others are as they were. -/
def Restakes (genesis vs : List ValidatorInfo) (a : Address) (stake : Coin)
    (vs' : List ValidatorInfo) : Prop :=
  Extends genesis vs' ∧ ∀ v ∈ createdEntries genesis vs',
    (v.address = a ∧ v.stake = stake) ∨ (v.address ≠ a ∧ v ∈ createdEntries genesis vs)

section upsert

variable {genesis l l' : List ValidatorInfo} {a : Address}
variable (hold : l.map (fun v => v.address) = genesis.map (fun v => v.address))
include hold

/-- The entry of a genesis validator. -/
theorem Extends.restake_genesis (h : Extends genesis (l ++ l'))
    (hgen : l.any (fun v => v.address == a) = true) (stake : Coin) (key : Bytes) :
    Restakes genesis (l ++ l') a stake
      (updateFirst (fun v => v.address == a) (restaked stake key) l ++ l') := by
  obtain ⟨hcreated, hiff⟩ := extends_append_iff hold l'
  obtain ⟨hnodup, hapart⟩ := hiff.mp h
  have haddresses := map_address_updateFirst a stake key l
  obtain ⟨hcreated', hiff'⟩ := extends_append_iff (haddresses.trans hold) l'
  refine ⟨hiff'.mpr ⟨hnodup, by rw [haddresses]; exact hapart⟩, ?_⟩
  intro v hv
  rw [hcreated'] at hv
  rw [hcreated]
  refine Or.inr ⟨fun heq => hapart v hv ?_, hv⟩
  obtain ⟨w, hw, hwa⟩ := List.any_eq_true.mp hgen
  rw [heq, ← beq_iff_eq.mp hwa]
  exact List.mem_map_of_mem hw

/-- The entry that an earlier stake created. -/
theorem Extends.restake_created (h : Extends genesis (l ++ l')) (stake : Coin) (key : Bytes) :
    Restakes genesis (l ++ l') a stake
      (l ++ updateFirst (fun v => v.address == a) (restaked stake key) l') := by
  obtain ⟨hcreated, hiff⟩ := extends_append_iff hold l'
  obtain ⟨hnodup, hapart⟩ := hiff.mp h
  have haddresses := map_address_updateFirst a stake key l'
  obtain ⟨hcreated', hiff'⟩ :=
    extends_append_iff hold (updateFirst (fun v => v.address == a) (restaked stake key) l')
  refine ⟨hiff'.mpr ⟨by rw [haddresses]; exact hnodup, ?_⟩, ?_⟩
  · intro v hv hmem
    have haddress : v.address ∈ l'.map (fun v => v.address) := by
      rw [← haddresses]
      exact List.mem_map_of_mem hv
    obtain ⟨w, hw, hwa⟩ := List.mem_map.mp haddress
    exact hapart w hw (hwa ▸ hmem)
  · intro v hv
    rw [hcreated'] at hv
    rw [hcreated]
    exact mem_updateFirst_restaked hnodup hv

/-- A new entry. -/
theorem Extends.restake_new (h : Extends genesis (l ++ l'))
    (hfresh : ∀ v ∈ l ++ l', v.address ≠ a) (stake : Coin) (key : Bytes) :
    Restakes genesis (l ++ l') a stake (l ++ (l' ++ [⟨a, stake, key⟩])) := by
  obtain ⟨hcreated, hiff⟩ := extends_append_iff hold l'
  obtain ⟨hnodup, hapart⟩ := hiff.mp h
  obtain ⟨hcreated', hiff'⟩ := extends_append_iff hold (l' ++ [⟨a, stake, key⟩])
  refine ⟨hiff'.mpr ⟨?_, ?_⟩, ?_⟩
  · rw [List.map_append, List.nodup_append]
    refine ⟨hnodup, List.nodup_singleton _, fun x hx y hy heq => ?_⟩
    obtain ⟨v, hv, rfl⟩ := List.mem_map.mp hx
    have hya : y = a := List.mem_singleton.mp hy
    exact hfresh v (List.mem_append_right _ hv) (heq.trans hya)
  · intro v hv hmem
    rw [List.mem_append, List.mem_singleton] at hv
    rcases hv with hv | rfl
    · exact hapart v hv hmem
    · obtain ⟨w, hw, hwa⟩ := List.mem_map.mp hmem
      exact hfresh w (List.mem_append_left _ hw) hwa
  · intro v hv
    rw [hcreated', List.mem_append, List.mem_singleton] at hv
    rw [hcreated]
    rcases hv with hv | rfl
    · exact Or.inr ⟨hfresh v (List.mem_append_right _ hv), hv⟩
    · exact Or.inl ⟨rfl, rfl⟩

end upsert

/-- What a stake with a key makes of the created entries. -/
theorem Extends.upsert {genesis vs : List ValidatorInfo} (h : Extends genesis vs) (a : Address)
    (stake : Coin) (key : Bytes) :
    Restakes genesis vs a stake (upsertValidator vs a stake key) := by
  have hsplit : vs.take genesis.length ++ vs.drop genesis.length = vs := List.take_append_drop _ _
  have hold := h.old
  generalize vs.take genesis.length = l at hsplit hold
  generalize vs.drop genesis.length = l' at hsplit
  subst hsplit
  unfold upsertValidator
  by_cases hany : (l ++ l').any (fun v => v.address == a) = true
  · rw [if_pos hany]
    change Restakes genesis (l ++ l') a stake
      (updateFirst (fun v => v.address == a) (restaked stake key) (l ++ l'))
    rw [updateFirst_append]
    by_cases hgen : l.any (fun v => v.address == a) = true
    · rw [if_pos hgen]
      exact h.restake_genesis hold hgen stake key
    · rw [if_neg hgen]
      exact h.restake_created hold stake key
  · rw [if_neg hany, List.append_assoc]
    refine h.restake_new hold (fun v hv heq => ?_) stake key
    exact hany (List.any_eq_true.mpr ⟨v, hv, by simpa using heq⟩)

/-! ## What a payload does to the stakes -/

/-- The payload is a Stake that names no key. -/
def Tx.keyless (tx : Tx) : Bool :=
  match tx.payload.inner with
  | .Stake s => s.public_key.isNone
  | _ => false

/-- The stake passes the checks of its processor. -/
def StakePasses (o : Outside) (pc : ProtocolConstants) (st : Storage) (e : AppStateEnvelope)
    (a : Address) (amount : Nat) : Prop :=
  amount ≤ (e.coins o st (.account a)).amount ∧
    (e.coins o st (.stake a)).amount + amount ≤ MAX_COIN ∧
    ((e.coins o st (.stake a)).amount = 0 → pc.min_stake_amount.amount ≤ amount)

/-- The payload changes the staking account of `a` and leaves its entry: coins are taken out
of the stake, or are added to it by a Stake without a key. -/
inductive Unmirrored (o : Outside) (pc : ProtocolConstants) (st : Storage) (e : AppStateEnvelope)
    (tx : Tx) (a : Address) : Prop
  | withdrawn {amount : Nat} (move : tx.move = some (.stake a, .account a, amount))
      (covered : amount ≤ (e.coins o st (.stake a)).amount)
  | added {amount : Nat} (move : tx.move = some (.account a, .stake a, amount))
      (keyless : tx.keyless = true) (passes : StakePasses o pc st e a amount)

/-- What a payload can do to the list of validators and to the stakes. -/
inductive StakeEffect (o : Outside) (pc : ProtocolConstants) (st : Storage) (e : AppStateEnvelope)
    (tx : Tx) (e' : AppStateEnvelope) : Prop
  | untouched (validators : e'.validators = e.validators)
      (stakes : ∀ a, e'.coins o st (.stake a) = e.coins o st (.stake a))
      (none : ∀ a, ¬ Unmirrored o pc st e tx a)
  | mirrored {a : Address} {stake : Coin} {key : Bytes} (positive : 0 < stake.amount)
      (validators : e'.validators = upsertValidator e.validators a stake key)
      (own : e'.coins o st (.stake a) = stake)
      (others : ∀ b, b ≠ a → e'.coins o st (.stake b) = e.coins o st (.stake b))
      (none : ∀ b, ¬ Unmirrored o pc st e tx b)
  | unmirrored {a : Address} (validators : e'.validators = e.validators)
      (changed : e'.coins o st (.stake a) ≠ e.coins o st (.stake a))
      (others : ∀ b, b ≠ a → e'.coins o st (.stake b) = e.coins o st (.stake b))
      (found : Unmirrored o pc st e tx a)

/-- Staging an account leaves the stakes. -/
theorem coins_stake_stage_account (e : AppStateEnvelope) (a b : Address) (h : Bytes32)
    (acc : Account) :
    (e.stage_account o a h acc).coins o st (.stake b) = e.coins o st (.stake b) := by
  simp only [AppStateEnvelope.coins, AppStateEnvelope.staking_account_or_new,
    get_staking_stage_account]

theorem coins_stake_stage_staking (e : AppStateEnvelope) (a b : Address) (h : Bytes32)
    (acc : StakingAccount) :
    (e.stage_staking_account o a h acc).coins o st (.stake b) =
      if a = b then acc.stake_balance else e.coins o st (.stake b) := by
  simp only [AppStateEnvelope.coins, AppStateEnvelope.staking_account_or_new,
    get_staking_stage_staking]
  split <;> rfl

/-- A stake writes the account and then the staking account of its sender. -/
theorem coins_staked (e : AppStateEnvelope) (a : Address) (h h' : Bytes32) (acc : Account)
    (k : StakingAccount) :
    ((e.stage_account o a h acc).stage_staking_account o a h' k).coins o st (.stake a) =
        k.stake_balance ∧
      ∀ b, b ≠ a →
        ((e.stage_account o a h acc).stage_staking_account o a h' k).coins o st (.stake b) =
          e.coins o st (.stake b) := by
  refine ⟨by rw [coins_stake_stage_staking, if_pos rfl], ?_⟩
  intro b hb
  rw [coins_stake_stage_staking, if_neg (Ne.symm hb), coins_stake_stage_account]

/-- The stakes only depend on the caches. -/
theorem coins_of_caches (hs : e'.cado_cache = e.cado_cache)
    (hc : e'.committed_cado_cache = e.committed_cado_cache) (p : Purse) :
    e'.coins o st p = e.coins o st p := by
  cases p <;>
    simp only [AppStateEnvelope.coins, AppStateEnvelope.account_or_new,
      AppStateEnvelope.staking_account_or_new, AppStateEnvelope.get_account_from_cado,
      AppStateEnvelope.get_staking_account_from_cado,
      AppStateEnvelope.lookup_cado_staged_committed_then_db, hs, hc]

theorem process_unstake_effect {tx : Tx} {u : UnstakeTx} {sender : AccountWithCadoHash}
    (hmove : tx.move = some (.stake u.sender, .account u.sender, u.amount))
    (hs : e.get_account_from_cado o st u.sender = some sender) :
    StakeEffect o pc st e tx (process_unstake_tx o st e u).2 := by
  obtain ⟨amount_coin, hnew, hval⟩ := Coin.new_of_le u.amount_le
  have hpos := u.amount_pos
  have honly : ∀ a, Unmirrored o pc st e tx a → u.amount ≤ (e.coins o st (.stake u.sender)).amount := by
    intro a hu
    cases hu with
    | withdrawn move covered =>
      rw [hmove] at move
      cases move
      exact covered
    | added move =>
      rw [hmove] at move
      cases move
  unfold process_unstake_tx
  simp only [hnew, hs]
  rcases hk : e.get_staking_account_from_cado o st u.sender with _ | staking
  · refine .untouched rfl (fun _ => rfl) (fun a hu => ?_)
    have hle := honly a hu
    rw [coins_stake_of_none o st hk] at hle
    omega
  · have hcoins := coins_stake_of_some o st hk
    simp only
    split
    · refine .untouched rfl (fun _ => rfl) (fun a hu => ?_)
      have hle := honly a hu
      rw [hcoins] at hle
      omega
    · rename_i hle
      obtain ⟨rest, hsub, hrest⟩ := Coin.sub_of_le (Nat.le_of_not_lt hle)
      have hfound : Unmirrored o pc st e tx u.sender :=
        .withdrawn hmove (by rw [hcoins]; omega)
      have hchanged : rest ≠ e.coins o st (.stake u.sender) := by
        intro heq
        rw [heq, hcoins] at hrest
        omega
      simp only [hsub]
      split
      · refine .unmirrored rfl ?_ (fun b hb => ?_) hfound
        · rw [coins_stake_stage_staking, if_pos rfl]
          exact hchanged
        · rw [coins_stake_stage_staking, if_neg (Ne.symm hb)]
      · refine .unmirrored rfl ?_ (fun b hb => ?_) hfound
        · rw [coins_stake_stage_account, coins_stake_stage_staking, if_pos rfl]
          exact hchanged
        · rw [coins_stake_stage_account, coins_stake_stage_staking, if_neg (Ne.symm hb)]

/-- Only a Stake without a key that passes its checks is unmirrored. -/
theorem Unmirrored.of_stake {tx : Tx} {t : StakeTx} {a : Address}
    (hinner : tx.payload.inner = .Stake t)
    (hmove : tx.move = some (.account t.sender, .stake t.sender, t.amount))
    (h : Unmirrored o pc st e tx a) :
    t.public_key = none ∧ StakePasses o pc st e t.sender t.amount := by
  cases h with
  | withdrawn move =>
    rw [hmove] at move
    cases move
  | added move keyless passes =>
    rw [hmove] at move
    cases move
    simp only [Tx.keyless, hinner, Option.isNone_iff_eq_none] at keyless
    exact ⟨keyless, passes⟩

/-- The writes of a stake that passed the checks before them. -/
theorem stageStake_effect (pc : ProtocolConstants) {tx : Tx} {t : StakeTx} {sender : AccountWithCadoHash}
    {amount_coin : Coin} (hinner : tx.payload.inner = .Stake t)
    (hmove : tx.move = some (.account t.sender, .stake t.sender, t.amount))
    (hs : e.get_account_from_cado o st t.sender = some sender)
    (hval : amount_coin.amount = t.amount)
    (hle : amount_coin.amount ≤ sender.account.balance.amount)
    (hmin : (e.coins o st (.stake t.sender)).amount = 0 → pc.min_stake_amount.amount ≤ t.amount) :
    StakeEffect o pc st e tx (stageStake o st e t sender amount_coin).2 := by
  obtain ⟨rest, hsub, _⟩ := Coin.sub_of_le hle
  have hpos := t.amount_pos
  unfold stageStake
  simp only [hsub]
  rcases hadd : (e.staking_account_or_new o st t.sender).account.stake_balance.add amount_coin with
    err | sum
  · -- the credit does not fit: only the account was debited
    have hover : MAX_COIN < (e.coins o st (.stake t.sender)).amount + amount_coin.amount :=
      Coin.add_error_iff.mp ⟨err, hadd⟩
    refine .untouched rfl (fun a => coins_stake_stage_account _ _ _ _ _) (fun a hu => ?_)
    have hfits := (hu.of_stake hinner hmove).2.2.1
    omega
  · have hsum : sum.amount = (e.coins o st (.stake t.sender)).amount + t.amount := by
      rw [Coin.add_eq_ok.mp hadd, hval]
      rfl
    rcases hpk : t.public_key with _ | public_key
    · simp only
      refine .unmirrored rfl ?_ (coins_staked _ _ _ _ _ _).2 (.added hmove ?_ ⟨?_, ?_, hmin⟩)
      · rw [(coins_staked _ _ _ _ _ _).1]
        intro (heq : sum = _)
        rw [heq] at hsum
        omega
      · simp [Tx.keyless, hinner, hpk]
      · rw [coins_account_of_some o st hs]
        omega
      · rw [← hsum]
        exact sum.le_max
    · obtain ⟨hlen, hhex⟩ := t.key_hex public_key hpk
      obtain ⟨bytes, hb, hbl⟩ := hexBytes_of_hex 32 hlen hhex
      simp only [hb, hbl, ne_eq, not_true_eq_false, if_false]
      have hpositive : 0 < sum.amount := by omega
      refine .mirrored (a := t.sender) hpositive rfl
        ((coins_of_caches rfl rfl _).trans (coins_staked _ _ _ _ _ _).1)
        (fun b hne => (coins_of_caches rfl rfl _).trans ((coins_staked _ _ _ _ _ _).2 b hne))
        (fun b hu => ?_)
      have hnone := (hu.of_stake hinner hmove).1
      rw [hpk] at hnone
      cases hnone

theorem process_stake_effect {tx : Tx} {t : StakeTx} {sender : AccountWithCadoHash}
    (hinner : tx.payload.inner = .Stake t)
    (hmove : tx.move = some (.account t.sender, .stake t.sender, t.amount))
    (hs : e.get_account_from_cado o st t.sender = some sender) :
    StakeEffect o pc st e tx (process_stake_tx o pc st e t).2 := by
  obtain ⟨amount_coin, hnew, hval⟩ := Coin.new_of_le t.amount_le
  have hcoins := coins_account_of_some o st hs
  unfold process_stake_tx
  simp only [hnew, hs]
  split
  · refine .untouched rfl (fun _ => rfl) (fun a hu => ?_)
    have hcovered := (hu.of_stake hinner hmove).2.1
    rw [hcoins] at hcovered
    omega
  · rename_i hle
    have hstage := stageStake_effect pc hinner hmove hs hval (Nat.le_of_not_lt hle)
    have hstake : (e.staking_account_or_new o st t.sender).account.stake_balance =
      e.coins o st (.stake t.sender) := rfl
    rw [hstake]
    split
    · rename_i hzero
      have hzero : (e.coins o st (.stake t.sender)).amount = 0 := by
        simpa [Coin.is_zero] using hzero
      split
      · refine .untouched rfl (fun _ => rfl) (fun a hu => ?_)
        have hmin := (hu.of_stake hinner hmove).2.2.2 hzero
        omega
      · exact hstage (fun _ => by omega)
    · rename_i hzero
      have hnonzero : (e.coins o st (.stake t.sender)).amount ≠ 0 := by
        simpa [Coin.is_zero] using hzero
      split
      · rename_i hnone
        have h0 : amount_coin.amount = 0 := by simpa [Coin.is_zero] using hnone
        exact absurd t.amount_pos (by omega)
      · exact hstage (fun h => absurd h hnonzero)

/-- A payload that moves coins between accounts at most leaves every stake. -/
theorem Outcome.stakes {tx : Tx} {r : ResponseDeliverTx} (h : Outcome o pc st e tx r e')
    (hmove : ∀ src dst amount, tx.move = some (src, dst, amount) →
      ∀ a, src ≠ .stake a ∧ dst ≠ .stake a) (a : Address) :
    e'.coins o st (.stake a) = e.coins o st (.stake a) := by
  cases h with
  | rejected => rfl
  | burnt _ move =>
    rw [coins_setCoins, if_neg (hmove _ _ _ move a).1]
  | @moved src dst _ rest sum _ _ move =>
    obtain ⟨hsrc, hdst⟩ := hmove _ _ _ move a
    refine Eq.trans (b := ((e.setCoins o st src rest).setCoins o st dst sum).coins o st (.stake a))
      (coins_of_caches rfl rfl _) ?_
    rw [coins_setCoins, if_neg hdst, coins_setCoins, if_neg hsrc]
  | registry => exact coins_of_caches rfl rfl _
  | posted => exact coins_of_caches rfl rfl _
  | @namespaced an rest record =>
    refine Eq.trans (b := (e.setCoins o st (.account an.sender) rest).coins o st (.stake a))
      (coins_of_caches rfl rfl _) ?_
    rw [coins_setCoins, if_neg (by simp)]
  | @counted vp =>
    exact coins_of_caches (cado_cache_countedState pc e vp)
      (framed_countedState pc e vp).committed_cado_cache _
  | @rewarded vp _ sum =>
    refine Eq.trans (b := (e.setCoins o st (.account vp.capacity_provider) sum).coins o st (.stake a))
      (coins_of_caches rfl rfl _) ?_
    rw [coins_setCoins, if_neg (by simp)]

/-- A payload that moves no coins leaves the list of validators. -/
theorem Outcome.validators {tx : Tx} {r : ResponseDeliverTx} (h : Outcome o pc st e tx r e')
    (hmove : tx.move = none) : e'.validators = e.validators := by
  cases h with
  | rejected => rfl
  | burnt _ move => rw [hmove] at move; cases move
  | moved _ move => rw [hmove] at move; cases move
  | registry => rfl
  | posted => rfl
  | namespaced => rfl
  | @counted vp =>
    unfold countedState record_failed_capacity_proof
    simp only
    split <;> rfl
  | rewarded => rfl

theorem process_transfer_validators (t : TransferTx) :
    (process_transfer_tx o st e t).2.validators = e.validators := by
  unfold process_transfer_tx
  split
  · rfl
  · split
    · rfl
    · simp only
      split
      · rfl
      · split
        · rfl
        · split <;> rfl

/-- A payload of another kind leaves the stakes. -/
theorem StakeEffect.of_move {tx : Tx} {r : ResponseDeliverTx} (hout : Outcome o pc st e tx r e')
    (hmove : ∀ src dst amount, tx.move = some (src, dst, amount) →
      ∀ a, src ≠ .stake a ∧ dst ≠ .stake a) (hvalidators : e'.validators = e.validators) :
    StakeEffect o pc st e tx e' := by
  refine .untouched hvalidators (hout.stakes hmove) (fun a hu => ?_)
  cases hu with
  | withdrawn move => exact (hmove _ _ _ move a).1 rfl
  | added move => exact (hmove _ _ _ move a).2 rfl

/-- Whatever the payload, the stakes and the entries change together, or it is unmirrored. -/
theorem process_effect {tx : Tx} {sender : AccountWithCadoHash}
    (hs : e.get_account_from_cado o st tx.payload.inner.sender = some sender)
    (hout : Outcome o pc st e tx (tx.process o pc st e).1 (tx.process o pc st e).2) :
    StakeEffect o pc st e tx (tx.process o pc st e).2 := by
  rcases hinner : tx.payload.inner with t | u | t | vp | rc | uc | um | pm | an
  case Unstake =>
    have hprocess : (tx.process o pc st e).2 = (process_unstake_tx o st e u).2 := by
      simp only [Tx.process, hinner]
    rw [hinner] at hs
    rw [hprocess]
    exact process_unstake_effect (by simp [Tx.move, hinner]) hs
  case Stake =>
    rw [hinner] at hs
    by_cases hdeclared : tx.payload.type_ = "Unstake".toList
    · have hprocess : (tx.process o pc st e).2 =
          (process_unstake_tx o st e ⟨t.sender, t.amount, t.amount_pos, t.amount_le⟩).2 := by
        simp only [Tx.process, hinner, if_pos hdeclared]
      rw [hprocess]
      exact process_unstake_effect (by simp only [Tx.move, hinner, if_pos hdeclared]) hs
    · have hprocess : (tx.process o pc st e).2 = (process_stake_tx o pc st e t).2 := by
        simp only [Tx.process, hinner, if_neg hdeclared]
      rw [hprocess]
      exact process_stake_effect hinner (by simp only [Tx.move, hinner, if_neg hdeclared]) hs
  case Transfer =>
    refine StakeEffect.of_move hout ?_ ?_
    · intro src dst amount hmove a
      simp only [Tx.move, hinner, Option.some.injEq, Prod.mk.injEq] at hmove
      obtain ⟨rfl, rfl, _⟩ := hmove
      exact ⟨by simp, by simp⟩
    · simp only [Tx.process, hinner]
      exact process_transfer_validators t
  all_goals
    have hmove : tx.move = none := by simp [Tx.move, hinner]
    refine StakeEffect.of_move hout ?_ (hout.validators hmove)
    intro src dst amount hmove'
    rw [hmove] at hmove'
    cases hmove'

/-! ## One call -/

/-- The same on the state before the transaction, whose sender still has to pay the fee. -/
inductive UnmirroredAfterFee (o : Outside) (pc : ProtocolConstants) (st : Storage)
    (e : AppStateEnvelope) (tx : Tx) (a : Address) : Prop
  | withdrawn {amount : Nat} (move : tx.move = some (.stake a, .account a, amount))
      (covered : amount ≤ (e.coins o st (.stake a)).amount)
  | added {amount : Nat} (move : tx.move = some (.account a, .stake a, amount))
      (keyless : tx.keyless = true)
      (covered : amount + tx.feeFrom (.account a) ≤ (e.coins o st (.account a)).amount)
      (fits : (e.coins o st (.stake a)).amount + amount ≤ MAX_COIN)
      (minimum : (e.coins o st (.stake a)).amount = 0 → pc.min_stake_amount.amount ≤ amount)

theorem Charged.unmirrored_iff {tx : Tx} (h : Charged o st e tx e') (a : Address) :
    Unmirrored o pc st e' tx a ↔ UnmirroredAfterFee o pc st e tx a := by
  have hstake : (e'.coins o st (.stake a)).amount = (e.coins o st (.stake a)).amount := by
    have := h.coins (.stake a)
    simpa [Tx.feeFrom] using this
  have haccount := h.coins (.account a)
  constructor
  · intro hu
    cases hu with
    | withdrawn move covered => exact .withdrawn move (by omega)
    | added move keyless passes =>
      obtain ⟨hcovered, hfits, hmin⟩ := passes
      exact .added move keyless (by omega) (by omega) (fun h0 => hmin (by omega))
  · intro hu
    cases hu with
    | withdrawn move covered => exact .withdrawn move (by omega)
    | added move keyless covered fits minimum =>
      exact .added move keyless ⟨by omega, by omega, fun h0 => minimum (by omega)⟩

/-- The call delivers an admitted transaction that changes the stake of `a` and not its
entry. -/
def Drifts (o : Outside) (pc : ProtocolConstants) (n : Node) (r : Request) (a : Address) : Prop :=
  ∃ tx s, r = .DeliverTx (.ok tx) ∧ admission o n.conn tx = .ok s ∧
    UnmirroredAfterFee o pc n.conn.storage n.state.envelope tx a

/-- A call drifts from one stake at most. -/
theorem Drifts.unique {n : Node} {r : Request} {a b : Address} (ha : Drifts o pc n r a)
    (hb : Drifts o pc n r b) : a = b := by
  obtain ⟨tx, s, rfl, _, ha⟩ := ha
  obtain ⟨tx', s', heq, _, hb⟩ := hb
  cases heq
  cases ha with
  | withdrawn move =>
    cases hb with
    | withdrawn move' =>
      rw [move] at move'
      cases move'
      rfl
    | added move' =>
      rw [move] at move'
      cases move'
  | added move =>
    cases hb with
    | withdrawn move' =>
      rw [move] at move'
      cases move'
    | added move' =>
      rw [move] at move'
      cases move'
      rfl

/-- The coins that an address has staked. -/
def Node.stake (o : Outside) (n : Node) (a : Address) : Coin :=
  n.state.envelope.coins o n.conn.storage (.stake a)

/-- What a call can do to the list of validators and to the stakes. -/
inductive StakeStep (o : Outside) (pc : ProtocolConstants) (n : Node) (r : Request) (n' : Node) :
    Prop
  | kept (validators : n'.state.envelope.validators = n.state.envelope.validators)
      (stakes : ∀ a, n'.stake o a = n.stake o a) (none : ∀ a, ¬ Drifts o pc n r a)
  | listed {a : Address} {stake : Coin} {key : Bytes} (positive : 0 < stake.amount)
      (validators : n'.state.envelope.validators =
        upsertValidator n.state.envelope.validators a stake key)
      (own : n'.stake o a = stake) (others : ∀ b, b ≠ a → n'.stake o b = n.stake o b)
      (none : ∀ b, ¬ Drifts o pc n r b)
  | drifted {a : Address}
      (validators : n'.state.envelope.validators = n.state.envelope.validators)
      (changed : n'.stake o a ≠ n.stake o a) (others : ∀ b, b ≠ a → n'.stake o b = n.stake o b)
      (found : Drifts o pc n r a)

/-- A stake is read from memory. -/
theorem coins_stake_of_good (h : GoodCommitted o e st) (a : Address) :
    e.coins o st (.stake a) =
      ((e.staking_account? a).getD ⟨⟨a, Coin.zero, a⟩, 0⟩).account.stake_balance := by
  rw [AppStateEnvelope.coins, AppStateEnvelope.staking_account_or_new, get_staking_of_good h]

theorem coins_stage_epoch_record (o : Outside) (st : Storage) (e : AppStateEnvelope)
    (name : Bytes32) (b : CadoBody CadoData) (a : Address) :
    { e with cado_cache := e.cado_cache.insert (.epoch_record name) b }.coins o st (.stake a) =
      e.coins o st (.stake a) := by
  simp only [AppStateEnvelope.coins, AppStateEnvelope.staking_account_or_new,
    AppStateEnvelope.get_staking_account_from_cado]
  rw [lookup_staged, if_neg (by simp)]

theorem endBlock_stakes (st : Storage) {s s' : AppState} {height : I64} {out : EndBlockOutcome}
    (h : endBlockState o pc s height = .ok (out, s')) (a : Address) :
    s'.envelope.validators = s.envelope.validators ∧
      s'.envelope.coins o st (.stake a) = s.envelope.coins o st (.stake a) := by
  rcases endBlockState.spec h with ⟨_, _, rfl⟩ | ⟨_, s2, hopen, _, rfl⟩
  · exact ⟨rfl, coins_of_caches rfl rfl _⟩
  · obtain ⟨name, _, rfl⟩ := openEpoch.spec hopen
    obtain ⟨selected, hsel⟩ := chosenState.spec o pc (s.atHeight height) (epochOf pc height)
    have hvalidators : (chosenState o pc (s.atHeight height) (epochOf pc height)).envelope.validators =
        s.envelope.validators := by
      rw [hsel]
      rfl
    obtain ⟨hsame, hcache⟩ := chosenState_same o pc (s.atHeight height) (epochOf pc height)
    generalize chosenState o pc (s.atHeight height) (epochOf pc height) = chosen at *
    refine ⟨hvalidators, ?_⟩
    have hchosen : chosen.envelope.coins o st (.stake a) = s.envelope.coins o st (.stake a) :=
      coins_of_caches hcache hsame.committed_cado_cache _
    generalize epoch_record_cado o (build_epoch_record pc chosen.envelope (epochOf pc height)) = cado
    have hnamed := coins_stage_epoch_record o st chosen.envelope name cado a
    have hlatest := coins_stage_epoch_record o st
      { chosen.envelope with
        cado_cache := chosen.envelope.cado_cache.insert (.epoch_record name) cado } LATEST cado a
    rw [← hchosen, ← hnamed, ← hlatest]
    exact coins_of_caches rfl rfl _

theorem Committed.stake (h : Committed o pc e e') (hg : GoodCommitted o e st)
    (hg' : GoodCommitted o e' st') (a : Address) :
    e'.coins o st' (.stake a) = e.coins o st (.stake a) := by
  rw [coins_stake_of_good hg, coins_stake_of_good hg']
  unfold AppStateEnvelope.staking_account?
  rw [show e'.working (.staking_account a) = e.working (.staking_account a) from
    h.working_purse (.stake a)]

/-- An admitted transaction, whose payload works on the state after the fee. -/
theorem Charged.delivered_stakes {n : Node} {tx : Tx} {s : AppState}
    (hcharged : Charged o n.conn.storage n.state.envelope tx s.envelope)
    (hadmitted : admission o n.conn tx = .ok s)
    (hout : Outcome o pc n.conn.storage s.envelope tx (tx.process o pc n.conn.storage s.envelope).1
      (tx.process o pc n.conn.storage s.envelope).2) :
    StakeStep o pc n (.DeliverTx (.ok tx)) ⟨.delivering, { n.conn with
      current_state := some { s with
        envelope := (tx.process o pc n.conn.storage s.envelope).2 } }⟩ := by
  have hpaid : ∀ a, s.envelope.coins o n.conn.storage (.stake a) = n.stake o a := by
    intro a
    have := hcharged.coins (.stake a)
    exact Coin.ext_amount (by simpa [Tx.feeFrom, Node.stake] using this)
  have hlist : s.envelope.validators = n.state.envelope.validators := by
    obtain ⟨sender, rest, hto⟩ := hcharged
    rw [hto.staged]
    rfl
  have hdrifts : ∀ a, Drifts o pc n (.DeliverTx (.ok tx)) a ↔
      Unmirrored o pc n.conn.storage s.envelope tx a := by
    intro a
    rw [hcharged.unmirrored_iff]
    constructor
    · rintro ⟨tx', s', heq, _, hu⟩
      cases heq
      exact hu
    · intro hu
      exact ⟨tx, s, rfl, hadmitted, hu⟩
  obtain ⟨sender, hsender⟩ : ∃ sender, s.envelope.get_account_from_cado o n.conn.storage
      tx.payload.inner.sender = some sender := by
    obtain ⟨sender, rest, hto⟩ := hcharged
    rw [hto.staged, get_account_stage_account, if_pos rfl]
    exact ⟨_, rfl⟩
  cases process_effect hsender hout with
  | untouched validators stakes none =>
    refine .kept (validators.trans hlist) (fun a => (stakes a).trans (hpaid a)) (fun a hd => ?_)
    exact none a ((hdrifts a).mp hd)
  | mirrored positive validators own others none =>
    rw [hlist] at validators
    refine .listed positive validators own (fun b hb => (others b hb).trans (hpaid b)) ?_
    exact fun b hd => none b ((hdrifts b).mp hd)
  | @unmirrored a validators changed others found =>
    refine .drifted (a := a) (validators.trans hlist) ?_
      (fun b hb => (others b hb).trans (hpaid b)) ((hdrifts a).mpr found)
    rw [← hpaid a]
    exact changed

theorem NodeStep.stakes {n n' : Node} {r : Request} (h : NodeStep o pc n r n')
    (hg : NodeGood o n) : StakeStep o pc n r n' := by
  have hg' := h.good hg
  -- only a delivered transaction can drift
  have hquiet : (∀ request, r ≠ .DeliverTx request) → ∀ a, ¬ Drifts o pc n r a := by
    rintro hr a ⟨tx, s, heq, _⟩
    exact hr _ heq
  cases h with
  | begun phase =>
    have hstate := state_of_idle phase
    refine .kept ?_ (fun a => ?_) (hquiet (by simp))
    · rw [hstate]
      rfl
    · unfold Node.stake
      rw [hstate]
      rfl
  | turned_away request phase refused =>
    refine .kept rfl (fun _ => rfl) ?_
    rintro a ⟨tx, s, heq, hadmitted, _⟩
    cases heq
    exact refused tx s rfl hadmitted
  | @delivered tx s phase admitted =>
    obtain ⟨hcharged, _, hout⟩ := @NodeGood.of_admission o pc _ _ _ hg phase admitted
    exact hcharged.delivered_stakes admitted hout
  | @ended height s s' out phase grows current ends =>
    obtain ⟨hstate, _⟩ := hg.of_current (by simp [phase]) current
    refine .kept ?_ (fun a => ?_) (hquiet (by simp))
    · rw [hstate]
      exact (endBlock_stakes n.conn.storage ends 0).1
    · unfold Node.stake
      rw [hstate]
      exact (endBlock_stakes _ ends a).2
  | @committed s c' phase current commits =>
    obtain ⟨hstate, hgood⟩ := hg.of_current (by simp [phase]) current
    have hcommit := (commit_inner.spec current hgood commits).envelope
    refine .kept ?_ (fun a => ?_) (hquiet (by simp))
    · rw [hstate]
      exact hcommit.validators
    · unfold Node.stake
      rw [hstate]
      exact hcommit.stake hgood.committed hg'.committed.committed a
  | uploaded content_key blob =>
    refine .kept rfl (fun a => ?_) (hquiet (by simp))
    exact (coins_stake_of_good hg'.working.committed a).trans
      (coins_stake_of_good hg.working.committed a).symm

/-! ## Whole runs -/

/-- The entries of a node that Stake transactions created. -/
def Node.createdEntries (o : Outside) (cfg : GenesisConfig) (n : Node) : List ValidatorInfo :=
  eld_chain.createdEntries (genesisValidators o cfg) n.state.envelope.validators

/-- Every entry that a Stake created has the stake of its staking account. -/
def StakesAgree (o : Outside) (cfg : GenesisConfig) (n : Node) : Prop :=
  ∀ v ∈ n.createdEntries o cfg, ∃ x,
    n.state.envelope.get_staking_account_from_cado o n.conn.storage v.address = some x ∧
      x.account.stake_balance = v.stake

/-- The shape of the list of validators: it extends the genesis entries, and no entry behind
them was created with nothing staked. -/
structure ListShape (o : Outside) (cfg : GenesisConfig) (n : Node) : Prop where
  extends_genesis : Extends (genesisValidators o cfg) n.state.envelope.validators
  positive : ∀ v ∈ n.createdEntries o cfg, 0 < v.stake.amount

theorem StakeStep.shape {n n' : Node} {r : Request} (h : StakeStep o pc n r n')
    (hs : ListShape o cfg n) : ListShape o cfg n' := by
  have hsame : n'.state.envelope.validators = n.state.envelope.validators → ListShape o cfg n' := by
    intro heq
    refine ⟨by rw [heq]; exact hs.extends_genesis, fun v hv => hs.positive v ?_⟩
    unfold Node.createdEntries at hv ⊢
    rw [← heq]
    exact hv
  cases h with
  | kept validators => exact hsame validators
  | drifted validators => exact hsame validators
  | @listed a stake key positive validators =>
    obtain ⟨hextends, hentries⟩ := hs.extends_genesis.upsert a stake key
    rw [← validators] at hextends hentries
    refine ⟨hextends, fun v hv => ?_⟩
    rcases hentries v hv with ⟨_, hstake⟩ | ⟨_, hold⟩
    · rw [hstake]
      exact positive
    · exact hs.positive v hold

/-- At genesis no Stake has created an entry. -/
theorem genesis_createdEntries (o : Outside) (pc : ProtocolConstants) (cfg : GenesisConfig) :
    (genesis o pc cfg).state.envelope.validators = genesisValidators o cfg ∧
      (genesis o pc cfg).createdEntries o cfg = [] := by
  obtain ⟨selected, cache, _, heq⟩ := genesis.spec o pc cfg
  have hlist : (genesis o pc cfg).state.envelope.validators = genesisValidators o cfg :=
    congrArg AppStateEnvelope.validators heq
  refine ⟨hlist, ?_⟩
  unfold Node.createdEntries eld_chain.createdEntries
  rw [hlist, List.drop_length]

/-- In every run the list of validators has its shape. -/
theorem list_shape {requests : List Request} {n : Node} (hrun : RunsTo o pc cfg requests n) :
    ListShape o cfg n := by
  refine runs.run_induction (Node.step o pc) (fun _ n => ListShape o cfg n) ?_ ?_ hrun
  · obtain ⟨hlist, hnone⟩ := genesis_createdEntries o pc cfg
    refine ⟨by rw [hlist]; exact .refl _, fun v hv => ?_⟩
    rw [hnone] at hv
    cases hv
  · intro earlier m r m' hm hold hs
    exact ((step_cases hs).stakes (reachable_good ⟨earlier, hm⟩)).shape hold

/-- The entries agree when each of them has the coins that its address staked. -/
theorem stakesAgree_iff {n : Node} (hs : ListShape o cfg n) :
    StakesAgree o cfg n ↔ ∀ v ∈ n.createdEntries o cfg, n.stake o v.address = v.stake := by
  refine forall₂_congr (fun v hv => ?_)
  have hpos := hs.positive v hv
  constructor
  · rintro ⟨x, hx, hstake⟩
    exact (coins_stake_of_some o _ hx).trans hstake
  · intro hstake
    rcases hx : n.state.envelope.get_staking_account_from_cado o n.conn.storage v.address with _ | x
    · have hzero := coins_stake_of_none o _ hx
      have hstake : n.state.envelope.coins o n.conn.storage (.stake v.address) = v.stake := hstake
      rw [hstake] at hzero
      omega
    · exact ⟨x, rfl, (coins_stake_of_some o _ hx).symm.trans hstake⟩

/-- A call that does not drift keeps the entries right, and one that drifts from the stake of
an entry does not. -/
theorem StakeStep.agree_iff {n n' : Node} {r : Request} (h : StakeStep o pc n r n')
    (hs : ListShape o cfg n) (ha : StakesAgree o cfg n) :
    StakesAgree o cfg n' ↔ ∀ v ∈ n.createdEntries o cfg, ¬ Drifts o pc n r v.address := by
  have hs' := h.shape hs
  rw [stakesAgree_iff hs] at ha
  rw [stakesAgree_iff hs']
  cases h with
  | kept validators stakes none =>
    refine ⟨fun _ v _ => none v.address, fun _ v hv => ?_⟩
    unfold Node.createdEntries at hv
    rw [validators] at hv
    rw [stakes]
    exact ha v hv
  | @listed a stake key positive validators own others none =>
    refine ⟨fun _ v _ => none v.address, fun _ v hv => ?_⟩
    unfold Node.createdEntries at hv
    rw [validators] at hv
    rcases (hs.extends_genesis.upsert a stake key).2 v hv with ⟨haddr, hstake⟩ | ⟨haddr, hold⟩
    · rw [haddr, own, hstake]
    · rw [others _ haddr]
      exact ha v hold
  | @drifted a validators changed others found =>
    have hentries : n'.createdEntries o cfg = n.createdEntries o cfg := by
      unfold Node.createdEntries
      rw [validators]
    rw [hentries]
    constructor
    · intro hall v hv hd
      have haddr := hd.unique found
      have hkept := hall v hv
      rw [haddr] at hkept
      have hbefore := ha v hv
      rw [haddr] at hbefore
      exact changed (hkept.trans hbefore.symm)
    · intro hnone v hv
      have hne : v.address ≠ a := by
        intro heq
        exact hnone v hv (heq ▸ found)
      rw [others _ hne]
      exact ha v hv

/-- In a run every created entry has the stake of its account in every state exactly when no
call of the run drifts from the stake of an entry. -/
theorem validators_hold_their_stakes (o : Outside) (pc : ProtocolConstants) (cfg : GenesisConfig)
    (requests : List Request) (n : Node) (hrun : RunsTo o pc cfg requests n) :
    (∀ earlier m, earlier <+: requests → RunsTo o pc cfg earlier m → StakesAgree o cfg m) ↔
    ∀ earlier m r, RunsTo o pc cfg earlier m → earlier ++ [r] <+: requests →
      ∀ v ∈ m.createdEntries o cfg, ¬ Drifts o pc m r v.address := by
  have hstep : ∀ earlier m r m', RunsTo o pc cfg earlier m → m.step o pc r = some m' →
      StakesAgree o cfg m → (StakesAgree o cfg m' ↔
        ∀ v ∈ m.createdEntries o cfg, ¬ Drifts o pc m r v.address) := by
    intro earlier m r m' hm hs ha
    exact ((step_cases hs).stakes (reachable_good ⟨earlier, hm⟩)).agree_iff (list_shape hm) ha
  constructor
  · intro hall earlier m r hm hp
    obtain ⟨m', hs⟩ := runs.step_of_earlier _ hrun hp hm
    have hm' : RunsTo o pc cfg (earlier ++ [r]) m' := by
      unfold RunsTo at hm ⊢
      rw [runs.run_snoc, hm]
      exact hs
    refine (hstep earlier m r m' hm hs (hall earlier m ?_ hm)).mp (hall _ m' hp hm')
    exact (List.prefix_append _ _).trans hp
  · intro hnone earlier m hp hm
    -- by induction on the earlier part, with the condition on its own calls
    have hlaw : earlier <+: requests → StakesAgree o cfg m := by
      refine runs.run_induction (Node.step o pc)
        (fun es s => es <+: requests → StakesAgree o cfg s) ?_ ?_ hm
      · intro _ v hv
        rw [(genesis_createdEntries o pc cfg).2] at hv
        cases hv
      · intro es s r s' hs ih hstep' hp'
        have hes : es <+: requests := (List.prefix_append _ _).trans hp'
        exact (hstep es s r s' hs hstep' (ih hes)).mpr (hnone es s r hs hp')
    exact hlaw hp

/-- A Stake that names a key never drifts. -/
theorem not_drifts_of_keyed {n : Node} (tx : Tx) {t : StakeTx}
    (hinner : tx.payload.inner = .Stake t)
    (hdeclared : tx.payload.type_ ≠ "Unstake".toList) (hkey : t.public_key.isSome = true)
    (a : Address) : ¬ Drifts o pc n (.DeliverTx (.ok tx)) a := by
  rintro ⟨tx', s, heq, _, hu⟩
  cases heq
  have hmove : tx.move = some (.account t.sender, .stake t.sender, t.amount) := by
    simp only [Tx.move, hinner, if_neg hdeclared]
  cases hu with
  | withdrawn move =>
    rw [hmove] at move
    cases move
  | added _ keyless =>
    simp only [Tx.keyless, hinner, Option.isNone_iff_eq_none] at keyless
    rw [keyless] at hkey
    cases hkey

theorem validators_hold_their_stakes_on_stakedBlock :
    ∃ n, RunsTo Outside.toy smallConstants validatorConfig stakedBlock n ∧
      (n.createdEntries Outside.toy validatorConfig).map (fun v => (v.address, v.stake.amount)) =
        [(alice, 100)] ∧ StakesAgree Outside.toy validatorConfig n := by
  obtain ⟨n, hn, heval⟩ := @validatorRun_ends stakedBlock (fun n =>
    (n.createdEntries Outside.toy validatorConfig).map (fun v => (v.address, v.stake.amount)) ==
      [(alice, 100)]) (by decide +kernel)
  refine ⟨n, hn, beq_iff_eq.mp heval, ?_⟩
  refine (validators_hold_their_stakes Outside.toy smallConstants validatorConfig stakedBlock n
    hn).mpr (fun earlier m r hm hp v _ => ?_) stakedBlock n List.prefix_rfl hn
  have hr : r ∈ stakedBlock := hp.subset (by simp)
  simp only [stakedBlock, List.mem_cons, List.not_mem_nil, or_false] at hr
  rcases hr with rfl | rfl | rfl
  · rintro ⟨tx, s, heq, _⟩
    cases heq
  · exact not_drifts_of_keyed (aliceStakes 1 'a' hexVal_a) rfl (by decide) rfl v.address
  · rintro ⟨tx, s, heq, _⟩
    cases heq

/-- Alice stakes 100 base units with a key, and takes 40 of them back. -/
def unstakedAgain : List Request :=
  [.BeginBlock, .DeliverTx (.ok (aliceStakes 1 'a' hexVal_a)),
    .DeliverTx (.ok (signed 1 2 "Unstake" (.Unstake ⟨alice, 40, Nat.succ_pos 39, toNat_le_maxCoin 40⟩)))]

/-- Her entry still has 100, and her staking account has 60. -/
theorem unstakedAgain_leaves_the_entry :
    ∃ n v, RunsTo Outside.toy smallConstants validatorConfig unstakedAgain n ∧
      v ∈ n.createdEntries Outside.toy validatorConfig ∧ v.address = alice ∧
      v.stake.amount = 100 ∧ (n.stake Outside.toy alice).amount = 60 ∧
      ¬ StakesAgree Outside.toy validatorConfig n := by
  obtain ⟨n, hn, heval⟩ := @validatorRun_ends unstakedAgain (fun n =>
    (n.createdEntries Outside.toy validatorConfig).any (fun v =>
      v.address == alice && v.stake.amount == 100) &&
    (n.stake Outside.toy alice).amount == 60) (by decide +kernel)
  rw [Bool.and_eq_true, beq_iff_eq] at heval
  obtain ⟨v, hv, hentry⟩ := List.any_eq_true.mp heval.1
  simp only [Bool.and_eq_true, beq_iff_eq] at hentry
  refine ⟨n, v, hn, hv, hentry.1, hentry.2, heval.2, fun hagree => ?_⟩
  have hstake := (stakesAgree_iff (list_shape hn)).mp hagree v hv
  rw [hentry.1] at hstake
  have hamount := heval.2
  rw [hstake, hentry.2] at hamount
  exact absurd hamount (by decide)

end eld_chain
