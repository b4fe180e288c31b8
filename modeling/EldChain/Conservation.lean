-- The law of the supply: the coins of all accounts and all stakes, read
-- in the working state. A charged transaction burns its fee, a namespace
-- registration burns its own fee, a rewarded proof mints the reward, and
-- no other call changes the supply. One kind of transaction breaks the
-- law: it debits a purse and cannot credit the other.
import EldChain.Atomicity

open Std

namespace eld_chain

variable {o : Outside} {pc : ProtocolConstants} {e e' : AppStateEnvelope} {st : Storage}

/-! ## The supply -/

/-- The objects of the working state: the staged ones over the committed ones. -/
def AppStateEnvelope.working_set (e : AppStateEnvelope) : CadoCache :=
  e.committed_cado_cache ∪ e.cado_cache

theorem get_working_set (e : AppStateEnvelope) (p : CadoPath) :
    e.working_set[p]? = e.working p := ExtTreeMap.getElem?_union

/-- The coins that an object holds at its path. -/
def coinWeight : CadoPath → CadoBody CadoData → Nat
  | .account _, b => (b.account?.map (fun x => x.account.balance.amount)).getD 0
  | .staking_account _, b =>
    (b.staking_account?.map (fun x => x.account.stake_balance.amount)).getD 0
  | _, _ => 0

/-- All account balances and all stakes of the working state. -/
def AppStateEnvelope.supply (e : AppStateEnvelope) : Nat :=
  finite_map.total coinWeight e.working_set

def Node.supply (n : Node) : Nat := n.state.envelope.supply

/-- The supply counts a purse with the coins that a processor reads in it. -/
theorem weightAt_purse (h : GoodCommitted o e st) (p : Purse) :
    finite_map.weightAt coinWeight e.working_set p.path = (e.coins o st p).amount := by
  unfold finite_map.weightAt
  rw [get_working_set]
  cases p with
  | account a =>
    simp only [AppStateEnvelope.coins, AppStateEnvelope.account_or_new, Purse.path]
    rw [get_account_of_good h, AppStateEnvelope.account?]
    rcases e.working (.account a) with _ | b
    · rfl
    · rw [Option.map_some, Option.getD_some, Option.bind_some, coinWeight]
      rcases b.account? with _ | x <;> rfl
  | stake a =>
    simp only [AppStateEnvelope.coins, AppStateEnvelope.staking_account_or_new, Purse.path]
    rw [get_staking_of_good h, AppStateEnvelope.staking_account?]
    rcases e.working (.staking_account a) with _ | b
    · rfl
    · rw [Option.map_some, Option.getD_some, Option.bind_some, coinWeight]
      rcases b.staking_account? with _ | x <;> rfl

theorem working_set_stage (e : AppStateEnvelope) (p : CadoPath) (b : CadoBody CadoData) :
    { e with cado_cache := e.cado_cache.insert p b }.working_set = e.working_set.insert p b := by
  apply ExtTreeMap.ext_getElem?
  intro q
  rw [finite_map.get_insert, get_working_set, get_working_set]
  unfold AppStateEnvelope.working
  rw [finite_map.get_insert]
  split <;> rfl

/-- Staging an object replaces what its path held in the supply. -/
theorem supply_stage (e : AppStateEnvelope) (p : CadoPath) (b : CadoBody CadoData) :
    { e with cado_cache := e.cado_cache.insert p b }.supply +
      finite_map.weightAt coinWeight e.working_set p = e.supply + coinWeight p b := by
  unfold AppStateEnvelope.supply
  rw [working_set_stage]
  exact finite_map.total_insert coinWeight e.working_set p b

theorem supply_of_same (hs : e'.cado_cache = e.cado_cache)
    (hc : e'.committed_cado_cache = e.committed_cado_cache) : e'.supply = e.supply := by
  unfold AppStateEnvelope.supply AppStateEnvelope.working_set
  rw [hs, hc]

/-! ## What moves the supply -/

theorem supply_setCoins (h : GoodCommitted o e st) (p : Purse) (c : Coin) :
    (e.setCoins o st p c).supply + (e.coins o st p).amount = e.supply + c.amount := by
  rw [← weightAt_purse h]
  cases p with
  | account a => exact supply_stage e (.account a) _
  | stake a => exact supply_stage e (.staking_account a) _

/-- The charge burns the fee. -/
theorem Charged.supply {tx : Tx} (hc : Charged o st e tx e') (h : GoodCommitted o e st) :
    e'.supply + tx.fee = e.supply := by
  obtain ⟨sender, rest, hc⟩ := hc
  have hstage : e'.supply + (e.coins o st (.account tx.payload.inner.sender)).amount =
      e.supply + rest.amount := by
    rw [hc.staged, ← weightAt_purse h]
    exact supply_stage e (.account tx.payload.inner.sender) _
  rw [coins_account_of_some o st hc.account] at hstage
  have := hc.fee
  omega

/-- What a transaction burns beyond its fee, given the code of its answer. -/
def Tx.burns (tx : Tx) (code : Nat) : Nat :=
  match tx.payload.inner with
  | .AddNamespace an => if code = 0 then an.registration_fee else 0
  | _ => 0

/-- What a transaction mints: the reward of a proof that is accepted as a valid one. -/
def Tx.mints (pc : ProtocolConstants) (tx : Tx) (code : Nat) : Nat :=
  match tx.payload.inner with
  | .VerifiedProof vp =>
    if code = 0 ∧ vp.failed = false then pc.verified_proof_reward_base_amount.amount else 0
  | _ => 0

theorem burns_of_move {tx : Tx} {m : Purse × Purse × Nat} (h : tx.move = some m) (code : Nat) :
    tx.burns code = 0 ∧ tx.mints pc code = 0 := by
  unfold Tx.move at h
  unfold Tx.burns Tx.mints
  rcases hinner : tx.payload.inner with t | u | s | vp | rc | uc | um | pm | an <;>
    simp only [hinner, and_self, reduceCtorEq] at h ⊢

theorem burns_of_coinless {tx : Tx} (h : tx.coinless = true) (code : Nat) :
    tx.burns code = 0 ∧ tx.mints pc code = 0 := by
  unfold Tx.coinless at h
  unfold Tx.burns Tx.mints
  rcases hinner : tx.payload.inner with t | u | s | vp | rc | uc | um | pm | an <;>
    simp only [hinner, and_self, Bool.false_eq_true] at h ⊢

theorem burns_of_failed {tx : Tx} {code : Nat} (h : code ≠ 0) :
    tx.burns code = 0 ∧ tx.mints pc code = 0 := by
  unfold Tx.burns Tx.mints
  rcases tx.payload.inner with t | u | s | vp | rc | uc | um | pm | an <;> simp [h]

/-- A payload burns and mints what the law says, and one that overflows burns its amount. -/
theorem Outcome.supply {tx : Tx} {r : ResponseDeliverTx} (ho : Outcome o pc st e tx r e')
    (h : Good o e st) :
    (¬ CreditOverflow o st e tx ∧ e'.supply + tx.burns r.code = e.supply + tx.mints pc r.code) ∨
      (CreditOverflow o st e tx ∧ e'.supply < e.supply ∧ tx.burns r.code = 0 ∧
        tx.mints pc r.code = 0) := by
  cases ho with
  | rejected code fits =>
    obtain ⟨hb, hm⟩ := @burns_of_failed pc tx _ code
    exact Or.inl ⟨fits, by omega⟩
  | @burnt src dst amount rest code move debit overflow =>
    have hset := supply_setCoins h.committed src rest
    have hpos := (move_facts move).2.1
    exact Or.inr ⟨⟨src, dst, amount, move, by omega, overflow⟩, by omega, burns_of_failed code⟩
  | @moved src dst amount rest sum validators code move debit credit =>
    obtain ⟨hb, hm⟩ := @burns_of_move pc _ _ move r.code
    have hdebit := supply_setCoins h.committed src rest
    have hcredit := supply_setCoins (h.committed.of_same (@framed_setCoins o st e src rest).1) dst sum
    rw [coins_setCoins, if_neg (move_facts move).1] at hcredit
    refine Or.inl ⟨fits_of_credit o st move (credit ▸ sum.le_max), ?_⟩
    change ((e.setCoins o st src rest).setCoins o st dst sum).supply + _ = _
    omega
  | registry code coinless =>
    obtain ⟨hb, hm⟩ := @burns_of_coinless pc _ coinless r.code
    refine Or.inl ⟨fits_of_coinless o st coinless, ?_⟩
    rw [hb, hm]
    rfl
  | posted code coinless =>
    obtain ⟨hb, hm⟩ := @burns_of_coinless pc _ coinless r.code
    refine Or.inl ⟨fits_of_coinless o st coinless, ?_⟩
    rw [hb, hm]
    rfl
  | @namespaced an rest record code inner debit free =>
    have hset := supply_setCoins h.committed (.account an.sender) rest
    refine Or.inl ⟨fits_of_no_move o st (by simp [Tx.move, inner]), ?_⟩
    simp only [Tx.burns, Tx.mints, inner, code, if_true]
    change (e.setCoins o st (.account an.sender) rest).supply + _ = _
    omega
  | @counted vp binding code inner accepts flag invalid =>
    refine Or.inl ⟨fits_of_no_move o st (by simp [Tx.move, inner]), ?_⟩
    simp only [Tx.burns, Tx.mints, inner, flag, Bool.true_eq_false, and_false, if_false]
    exact supply_of_same (cado_cache_countedState pc e vp)
      (framed_countedState pc e vp).committed_cado_cache
  | @rewarded vp binding sum code inner accepts flag valid credit =>
    have hset := supply_setCoins h.committed (.account vp.capacity_provider) sum
    refine Or.inl ⟨fits_of_no_move o st (by simp [Tx.move, inner]), ?_⟩
    simp only [Tx.burns, Tx.mints, inner, flag, code, and_self, if_true]
    change (e.setCoins o st (.account vp.capacity_provider) sum).supply + _ = _
    omega

/-! ## What leaves the supply alone -/

/-- An epoch record holds no coins. -/
theorem supply_stage_epoch_record (e : AppStateEnvelope) (name : Bytes32)
    (b : CadoBody CadoData) :
    { e with cado_cache := e.cado_cache.insert (.epoch_record name) b }.supply = e.supply := by
  have hstage := supply_stage e (.epoch_record name) b
  have hold : finite_map.weightAt coinWeight e.working_set (.epoch_record name) = 0 := by
    unfold finite_map.weightAt
    rcases e.working_set[CadoPath.epoch_record name]? with _ | b <;> rfl
  rw [hold] at hstage
  exact hstage

theorem endBlock_supply {s s' : AppState} {height : I64} {out : EndBlockOutcome}
    (h : endBlockState o pc s height = .ok (out, s')) :
    s'.envelope.supply = s.envelope.supply := by
  rcases endBlockState.spec h with ⟨_, _, rfl⟩ | ⟨_, s2, hopen, _, rfl⟩
  · rfl
  · obtain ⟨name, _, rfl⟩ := openEpoch.spec hopen
    obtain ⟨hsame, hcache⟩ :=
      chosenState_same o pc (s.atHeight height) (epochOf pc height)
    generalize chosenState o pc (s.atHeight height) (epochOf pc height) = chosen at hsame hcache
    have h1 := supply_stage_epoch_record chosen.envelope name
      (epoch_record_cado o (build_epoch_record pc chosen.envelope (epochOf pc height)))
    have h2 := supply_stage_epoch_record { chosen.envelope with
      cado_cache := chosen.envelope.cado_cache.insert (.epoch_record name)
        (epoch_record_cado o (build_epoch_record pc chosen.envelope (epochOf pc height))) } LATEST
      (epoch_record_cado o (build_epoch_record pc chosen.envelope (epochOf pc height)))
    exact (h2.trans h1).trans (supply_of_same hcache hsame.committed_cado_cache)

/-- A commit moves objects from the staged part to the committed part, and the registrations
that it adds hold no coins. -/
theorem Committed.supply (h : Committed o pc e e') : e'.supply = e.supply := by
  apply finite_map.total_congr
  intro p
  unfold finite_map.weightAt
  rw [get_working_set, get_working_set]
  unfold AppStateEnvelope.working
  rw [h.cado_cache, h.objects, ExtTreeMap.getElem?_empty, Option.none_or]
  cases p with
  | namespace_registry slug =>
    generalize e.cado_cache[CadoPath.namespace_registry slug]? = x
    generalize e.stagedNamespace o (.namespace_registry slug) = y
    generalize e.committed_cado_cache[CadoPath.namespace_registry slug]? = z
    cases x <;> cases y <;> cases z <;> rfl
  | _ => rfl

/-! ## Every call -/

/-- What a call may do to the supply. -/
def SupplyLaw (o : Outside) (pc : ProtocolConstants) (n : Node) (r : Request) (n' : Node) : Prop :=
  match r with
  | .DeliverTx (.ok tx) =>
    match admission o n.conn tx with
    | .error _ => n'.supply = n.supply
    | .ok _ => n'.supply + tx.fee + tx.burns (deliver_tx_inner o pc n.conn (.ok tx)).1.code =
        n.supply + tx.mints pc (deliver_tx_inner o pc n.conn (.ok tx)).1.code
  | _ => n'.supply = n.supply

theorem supplyLaw_admitted {n n' : Node} {tx : Tx} {s : AppState}
    (h : admission o n.conn tx = .ok s) :
    SupplyLaw o pc n (.DeliverTx (.ok tx)) n' ↔
      n'.supply + tx.fee + tx.burns (deliver_tx_inner o pc n.conn (.ok tx)).1.code =
        n.supply + tx.mints pc (deliver_tx_inner o pc n.conn (.ok tx)).1.code := by
  simp only [SupplyLaw, h]

/-- The call delivers a transaction that debits a purse and then cannot credit the other. -/
def Overflows (o : Outside) (n : Node) (r : Request) : Prop :=
  ∃ tx s s', r = .DeliverTx (.ok tx) ∧ n.phase = .delivering ∧ n.conn.current_state = some s ∧
    admission o n.conn tx = .ok s' ∧ CreditOverflowAfterFee o n.conn.storage s.envelope tx

/-- Only a delivered transaction can overflow. -/
theorem not_overflows {n : Node} {r : Request}
    (h : ∀ tx s, r = .DeliverTx (.ok tx) → admission o n.conn tx ≠ .ok s) : ¬ Overflows o n r := by
  rintro ⟨tx, s, s', hr, _, _, hadmitted, _⟩
  exact h tx s' hr hadmitted

theorem delivered_supply {n : Node} {tx : Tx} {s : AppState} (hg : NodeGood o n)
    (phase : n.phase = .delivering) (admitted : admission o n.conn tx = .ok s) :
    SupplyLaw o pc n (.DeliverTx (.ok tx)) ⟨.delivering, { n.conn with
      current_state := some { s with
        envelope := (tx.process o pc n.conn.storage s.envelope).2 } }⟩ ↔
      ¬ Overflows o n (.DeliverTx (.ok tx)) := by
  obtain ⟨s₀, hs₀, hgood₀⟩ := hg.current (by simp [phase])
  have hstate := state_of_current (by simp [phase]) hs₀
  obtain ⟨hcharged, hgood, hout⟩ := @NodeGood.of_admission o pc _ _ _ hg phase admitted
  rw [hstate] at hcharged
  have hsupply : n.supply = s₀.envelope.supply := by rw [Node.supply, hstate]
  have hfee := hcharged.supply hgood₀.committed
  have hoverflows : Overflows o n (.DeliverTx (.ok tx)) ↔
      CreditOverflow o n.conn.storage s.envelope tx := by
    rw [hcharged.overflow_iff]
    constructor
    · rintro ⟨tx', s', s₂, hr, _, hs', _, hover⟩
      cases hr
      rw [hs₀] at hs'
      cases hs'
      exact hover
    · intro hover
      exact ⟨tx, s₀, s, rfl, phase, hs₀, admitted, hover⟩
  rw [supplyLaw_admitted admitted, hoverflows, (@deliver_tx_inner.spec o pc _ _ _ admitted).1, hsupply]
  change (tx.process o pc n.conn.storage s.envelope).2.supply + _ + _ = _ ↔ _
  rcases hout.supply hgood with ⟨hfits, hlaw⟩ | ⟨hover, hlt, hb, hm⟩
  · exact ⟨fun _ => hfits, fun _ => by omega⟩
  · exact ⟨fun hlaw => absurd hlaw (by omega), fun hfits => absurd hover hfits⟩

/-- A call keeps the law of the supply exactly when it does not overflow. -/
theorem NodeStep.supply {n n' : Node} {r : Request} (h : NodeStep o pc n r n')
    (hg : NodeGood o n) : SupplyLaw o pc n r n' ↔ ¬ Overflows o n r := by
  cases h with
  | begun phase =>
    refine iff_of_true ?_ (not_overflows (fun _ _ hr => by cases hr))
    change n.conn.committed_state.envelope.supply = n.supply
    rw [Node.supply, state_of_idle phase]
  | turned_away request phase refused =>
    refine iff_of_true ?_ (not_overflows (fun tx s hr => ?_))
    · rcases request with r | tx
      · rfl
      · simp only [SupplyLaw]
        rcases hadmitted : admission o n.conn tx with r | s
        · trivial
        · exact absurd hadmitted (refused tx s rfl)
    · cases hr
      exact refused tx s rfl
  | delivered phase admitted => exact delivered_supply hg phase admitted
  | @ended height s s' out phase grows current ends =>
    refine iff_of_true ?_ (not_overflows (fun _ _ hr => by cases hr))
    change s'.envelope.supply = n.supply
    rw [Node.supply, state_of_current (by simp [phase]) current, endBlock_supply ends]
  | @committed s c' phase current commits =>
    refine iff_of_true ?_ (not_overflows (fun _ _ hr => by cases hr))
    obtain ⟨hstate, hgood⟩ := hg.of_current (by simp [phase]) current
    change c'.committed_state.envelope.supply = n.supply
    rw [Node.supply, hstate, (commit_inner.spec current hgood commits).envelope.supply]
  | uploaded => exact iff_of_true rfl (not_overflows (fun _ _ hr => by cases hr))

/-- The supply is conserved in a run exactly when no transaction of it overflows. -/
theorem the_supply_is_conserved (o : Outside) (pc : ProtocolConstants) (cfg : GenesisConfig)
    (requests : List Request) :
    (∀ n r n', (n, r) ∈ runs.visits (Node.step o pc) requests (genesis o pc cfg) →
      n.step o pc r = some n' → SupplyLaw o pc n r n') ↔
    ∀ n r, (n, r) ∈ runs.visits (Node.step o pc) requests (genesis o pc cfg) →
      ¬ Overflows o n r := by
  have hstep : ∀ n r n', (n, r) ∈ runs.visits (Node.step o pc) requests (genesis o pc cfg) →
      n.step o pc r = some n' → (SupplyLaw o pc n r n' ↔ ¬ Overflows o n r) := by
    intro n r n' hvisit hs
    obtain ⟨earlier, hrun, _⟩ := runs.mem_visits _ hvisit
    exact (step_cases hs).supply (reachable_good ⟨earlier, hrun⟩)
  constructor
  · intro hlaw n r hvisit hover
    obtain ⟨tx, s, s', rfl, phase, hs, hadmitted, hcredit⟩ := id hover
    -- a delivering node takes every transaction, so this step was made
    have hmade : n.step o pc (.DeliverTx (.ok tx)) =
        some ⟨.delivering, (deliver_tx_inner o pc n.conn (.ok tx)).2⟩ := by
      rw [Node.step, if_pos phase]
    exact (hstep n _ _ hvisit hmade).mp (hlaw n _ _ hvisit hmade) hover
  · intro hfits n r n' hvisit hs
    exact (hstep n r n' hvisit hs).mpr (hfits n r hvisit)

/-- Alice's transfer to Bob overflows: the supply falls by 1005 where the law allows 1000. -/
theorem overflowingTransfer_breaks_the_law :
    ∃ n n', RunsTo Outside.toy smallConstants smallConfig [.BeginBlock] n ∧
      n.step Outside.toy smallConstants (.DeliverTx (.ok overflowingTransfer)) = some n' ∧
      n'.supply + 1005 = n.supply ∧
      ¬ SupplyLaw Outside.toy smallConstants n (.DeliverTx (.ok overflowingTransfer)) n' := by
  obtain ⟨n, hn, heval⟩ := @smallRun_ends [.BeginBlock] (fun n =>
    (admission Outside.toy n.conn overflowingTransfer).toOption.isSome &&
    (n.step Outside.toy smallConstants (.DeliverTx (.ok overflowingTransfer))).any (fun n' =>
      n'.supply + 1005 == n.supply)) (by decide +kernel)
  simp only [Bool.and_eq_true] at heval
  obtain ⟨n', hn', hsupply⟩ := (Option.any_eq_true _ _).mp heval.2
  have hsupply := beq_iff_eq.mp hsupply
  refine ⟨n, n', hn, hn', hsupply, ?_⟩
  rcases hadmitted : admission Outside.toy n.conn overflowingTransfer with r | s
  · rw [hadmitted] at heval
    cases heval.1
  · rw [supplyLaw_admitted hadmitted]
    change ¬ n'.supply + 1000 + 0 = n.supply + 0
    omega

end eld_chain
