-- The law of failed transactions: a payload that fails leaves the sender
-- charged and nothing else. It holds unless the credit of a transfer, a
-- stake or an unstake would go above the supply: the debit is staged by
-- then, and it stays.
import EldChain.Reachable

open Std

namespace eld_chain

variable {o : Outside} {pc : ProtocolConstants} {e e' : AppStateEnvelope} {st : Storage}

/-! ## The charge -/

/-- A charge has one result. -/
theorem Charged.unique {tx : Tx} {e₁ e₂ : AppStateEnvelope} (h₁ : Charged o st e tx e₁)
    (h₂ : Charged o st e tx e₂) : e₁ = e₂ := by
  obtain ⟨sender, rest, h₁⟩ := h₁
  obtain ⟨sender', rest', h₂⟩ := h₂
  have hs : sender = sender' := by
    have := h₁.account
    rw [h₂.account] at this
    exact (Option.some.inj this).symm
  subst hs
  have hrest : rest = rest' := by
    apply Coin.ext_amount
    have := h₁.fee
    have := h₂.fee
    omega
  rw [h₁.staged, h₂.staged, hrest]

/-- What the fee of a transaction takes from a purse. -/
def Tx.feeFrom (tx : Tx) (p : Purse) : Nat :=
  if p = .account tx.payload.inner.sender then tx.fee else 0

/-- After the charge every purse holds what it held, less the fee. -/
theorem Charged.coins {tx : Tx} (h : Charged o st e tx e') (p : Purse) :
    (e'.coins o st p).amount + tx.feeFrom p = (e.coins o st p).amount := by
  obtain ⟨sender, rest, h⟩ := h
  rw [h.staged]
  cases p with
  | account a =>
    unfold Tx.feeFrom
    simp only [AppStateEnvelope.coins, AppStateEnvelope.account_or_new]
    rw [get_account_stage_account]
    by_cases ha : tx.payload.inner.sender = a
    · subst ha
      rw [if_pos rfl, if_pos rfl, h.account, Option.getD_some, Option.getD_some]
      exact h.fee
    · have hne : Purse.account a ≠ .account tx.payload.inner.sender := by
        intro heq
        exact ha (Purse.account.inj heq).symm
      rw [if_neg ha, if_neg hne, Nat.add_zero]
  | stake a =>
    unfold Tx.feeFrom
    simp only [AppStateEnvelope.coins, AppStateEnvelope.staking_account_or_new]
    rw [get_staking_stage_account, if_neg (by simp), Nat.add_zero]

/-- The condition of the defect, on the state before the transaction: after the fee the
purse to debit covers the amount, but the purse to credit would go above the supply. -/
def CreditOverflowAfterFee (o : Outside) (st : Storage) (e : AppStateEnvelope) (tx : Tx) : Prop :=
  ∃ src dst amount, tx.move = some (src, dst, amount) ∧
    amount + tx.feeFrom src ≤ (e.coins o st src).amount ∧
    MAX_COIN + tx.feeFrom dst < (e.coins o st dst).amount + amount

theorem Charged.overflow_iff {tx : Tx} (h : Charged o st e tx e') :
    CreditOverflow o st e' tx ↔ CreditOverflowAfterFee o st e tx := by
  constructor
  · rintro ⟨src, dst, amount, hmove, hsrc, hdst⟩
    have := h.coins src
    have := h.coins dst
    exact ⟨src, dst, amount, hmove, by omega, by omega⟩
  · rintro ⟨src, dst, amount, hmove, hsrc, hdst⟩
    have := h.coins src
    have := h.coins dst
    exact ⟨src, dst, amount, hmove, by omega, by omega⟩

/-! ## Failed payloads -/

/-- Only a payload that moves coins can overflow, and one that took effect did not. -/
theorem Outcome.no_overflow {tx : Tx} {r : ResponseDeliverTx} (h : Outcome o pc st e tx r e')
    (hcode : r.code = 0) : ¬ CreditOverflow o st e tx := by
  cases h with
  | rejected code => exact absurd hcode code
  | burnt code => exact absurd hcode code
  | @moved _ _ _ _ sum _ _ move _ credit =>
    apply fits_of_credit o st move
    rw [← credit]
    exact sum.le_max
  | registry _ coinless => exact fits_of_coinless o st coinless
  | posted _ coinless => exact fits_of_coinless o st coinless
  | namespaced _ inner => exact fits_of_no_move o st (by simp [Tx.move, inner])
  | counted _ inner => exact fits_of_no_move o st (by simp [Tx.move, inner])
  | rewarded _ inner => exact fits_of_no_move o st (by simp [Tx.move, inner])

/-- A failed payload leaves its state alone exactly when no credit overflowed. -/
theorem Outcome.unchanged_iff {tx : Tx} {r : ResponseDeliverTx} (h : Outcome o pc st e tx r e')
    (hcode : r.code ≠ 0) : e' = e ↔ ¬ CreditOverflow o st e tx := by
  cases h with
  | rejected code fits => exact ⟨fun _ => fits, fun _ => rfl⟩
  | @burnt src dst amount rest code move debit overflow =>
    have hpos := (move_facts move).2.1
    constructor
    · intro heq
      have hcoins := coins_setCoins o st e src src rest
      rw [heq, if_pos rfl] at hcoins
      rw [hcoins] at debit
      omega
    · intro hfits
      exact absurd ⟨src, dst, amount, move, by omega, overflow⟩ hfits
  | moved code => exact absurd code hcode
  | registry code => exact absurd code hcode
  | posted code => exact absurd code hcode
  | namespaced code => exact absurd code hcode
  | counted code => exact absurd code hcode
  | rewarded code => exact absurd code hcode

/-- If the payload fails, the node is as before but for the sender's charge. -/
def FailsAtomically (o : Outside) (pc : ProtocolConstants) (c : ConsensusConnection) (tx : Tx) :
    Prop :=
  (deliver_tx_inner o pc c (.ok tx)).1.code ≠ 0 →
    ∃ s s', c.current_state = some s ∧ Charged o c.storage s.envelope tx s'.envelope ∧
      s'.app_hash = s.app_hash ∧ s'.chain_id = s.chain_id ∧
      (deliver_tx_inner o pc c (.ok tx)).2 = { c with current_state := some s' }

/-- A failed transaction is atomic exactly when no credit overflows. -/
theorem a_failed_transaction_only_charges_its_sender (o : Outside) (pc : ProtocolConstants)
    (cfg : GenesisConfig) (n : Node) (s s' : AppState) (tx : Tx) (hreach : Reachable o pc cfg n)
    (hphase : n.phase = .delivering) (hcurrent : n.conn.current_state = some s)
    (hadmitted : admission o n.conn tx = .ok s') :
    FailsAtomically o pc n.conn tx ↔
      ¬ CreditOverflowAfterFee o n.conn.storage s.envelope tx := by
  obtain ⟨_, _, hout⟩ := @NodeGood.of_admission o pc _ _ _ (reachable_good hreach) hphase hadmitted
  obtain ⟨s₁, hs₁, happ, hchain, hcharged, _⟩ := admission.spec hadmitted
  rw [hcurrent] at hs₁
  cases hs₁
  rw [← hcharged.overflow_iff]
  obtain ⟨hcode, hconn⟩ := @deliver_tx_inner.spec o pc _ _ _ hadmitted
  unfold FailsAtomically
  rw [hcode, hconn]
  by_cases hzero : (tx.process o pc n.conn.storage s'.envelope).1.code = 0
  · exact ⟨fun _ => hout.no_overflow hzero, fun _ hne => absurd hzero hne⟩
  · rw [← hout.unchanged_iff hzero]
    constructor
    · intro h
      obtain ⟨s₂, s₃, hs₂, hch, _, _, hres⟩ := h hzero
      rw [hcurrent] at hs₂
      cases hs₂
      have henv := congrArg (fun c => c.current_state.map AppState.envelope) hres
      simp only [Option.map_some, Option.some.injEq] at henv
      rw [henv]
      exact hch.unique hcharged
    · intro h _
      exact ⟨s, s', hcurrent, hcharged, happ, hchain, by rw [h]⟩

/-- Alice sends more than she has. -/
def uncoveredTransfer : Tx := aliceSends 1 bob alice_ne_bob 5000000

theorem a_failed_transaction_only_charges_its_sender_on_uncoveredTransfer :
    ∃ n s s', RunsTo Outside.toy smallConstants smallConfig [.BeginBlock] n ∧
      n.phase = .delivering ∧ n.conn.current_state = some s ∧
      admission Outside.toy n.conn uncoveredTransfer = .ok s' ∧
      (deliver_tx_inner Outside.toy smallConstants n.conn (.ok uncoveredTransfer)).1.code = 5 ∧
      FailsAtomically Outside.toy smallConstants n.conn uncoveredTransfer := by
  obtain ⟨n, hn, heval⟩ := @smallRun_ends [.BeginBlock] (fun n =>
    n.phase == .delivering && n.conn.current_state.any (fun s =>
      (s.envelope.coins Outside.toy n.conn.storage (.account alice)).amount == 1000000) &&
    (admission Outside.toy n.conn uncoveredTransfer).toOption.isSome &&
    (deliver_tx_inner Outside.toy smallConstants n.conn (.ok uncoveredTransfer)).1.code == 5)
    (by decide +kernel)
  simp only [Bool.and_eq_true, beq_iff_eq] at heval
  obtain ⟨⟨⟨hphase, hcoins⟩, hadmitted⟩, hcode⟩ := heval
  obtain ⟨s, hs, hcoins⟩ := (Option.any_eq_true _ _).mp hcoins
  rcases hadm : admission Outside.toy n.conn uncoveredTransfer with r | s'
  · rw [hadm] at hadmitted; cases hadmitted
  · refine ⟨n, s, s', hn, hphase, hs, hadm, hcode,
      (a_failed_transaction_only_charges_its_sender Outside.toy smallConstants smallConfig n s s'
        uncoveredTransfer ⟨_, hn⟩ hphase hs hadm).mpr ?_⟩
    have hamount : uncoveredTransfer.move = some (.account alice, .account bob, 5000000) := by decide
    rintro ⟨src, dst, amount, hmove, hsrc, _⟩
    rw [hamount] at hmove
    cases hmove
    rw [beq_iff_eq.mp hcoins] at hsrc
    omega

/-- Alice sends five base units to Bob, who holds as many as an account can hold. -/
def overflowingTransfer : Tx := aliceSends 1 bob alice_ne_bob 5

/-- The transfer fails with code 51, and the five base units are gone. -/
theorem overflowingTransfer_burns :
    ∃ n s', RunsTo Outside.toy smallConstants smallConfig [.BeginBlock] n ∧
      n.phase = .delivering ∧
      admission Outside.toy n.conn overflowingTransfer = .ok s' ∧
      (deliver_tx_inner Outside.toy smallConstants n.conn (.ok overflowingTransfer)).1.code = 51 ∧
      ¬ FailsAtomically Outside.toy smallConstants n.conn overflowingTransfer := by
  obtain ⟨n, hn, heval⟩ := @smallRun_ends [.BeginBlock] (fun n =>
    n.phase == .delivering && n.conn.current_state.any (fun s =>
      (s.envelope.coins Outside.toy n.conn.storage (.account alice)).amount == 1000000) &&
    (admission Outside.toy n.conn overflowingTransfer).toOption.isSome &&
    (deliver_tx_inner Outside.toy smallConstants n.conn (.ok overflowingTransfer)).1.code == 51 &&
    (deliver_tx_inner Outside.toy smallConstants n.conn
      (.ok overflowingTransfer)).2.current_state.any (fun s =>
        (s.envelope.coins Outside.toy n.conn.storage (.account alice)).amount == 998995))
    (by decide +kernel)
  simp only [Bool.and_eq_true, beq_iff_eq] at heval
  obtain ⟨⟨⟨⟨hphase, hbefore⟩, hadmitted⟩, hcode⟩, hafter⟩ := heval
  obtain ⟨s, hs, hbefore⟩ := (Option.any_eq_true _ _).mp hbefore
  rcases hadm : admission Outside.toy n.conn overflowingTransfer with r | s'
  · rw [hadm] at hadmitted; cases hadmitted
  · refine ⟨n, s', hn, hphase, hadm, hcode, fun hatomic => ?_⟩
    obtain ⟨s₀, s₁, hs₀, hcharged, _, _, hres⟩ := hatomic (by rw [hcode]; decide)
    rw [hs] at hs₀
    cases hs₀
    simp only [hres, Option.any_some, beq_iff_eq] at hafter
    -- the charge alone leaves 999000
    have hcharge := hcharged.coins (.account alice)
    have hfee : overflowingTransfer.feeFrom (.account alice) = 1000 := by decide
    rw [hfee, beq_iff_eq.mp hbefore] at hcharge
    omega

end eld_chain
