-- What admission and EndBlock do to a state, said once each, and that
-- both keep it good.
import EldChain.Invariants

open Std

namespace eld_chain

variable {o : Outside} {pc : ProtocolConstants} {e e' : AppStateEnvelope} {st : Storage}

/-! ## Admission -/

/-- The state `e` with the sender charged and nothing else changed: the next nonce, and the
fee taken from the balance. -/
structure ChargedTo (o : Outside) (st : Storage) (e : AppStateEnvelope) (tx : Tx)
    (sender : AccountWithCadoHash) (rest : Coin) (e' : AppStateEnvelope) : Prop where
  account : e.get_account_from_cado o st tx.payload.inner.sender = some sender
  nonce : sender.account.nonce.next = some tx.nonce
  fee : rest.amount + tx.fee = sender.account.balance.amount
  staged : e' = e.stage_account o tx.payload.inner.sender sender.hash
    (chargedAccount tx rest tx.nonce)

/-- `e'` is `e` with the sender of the transaction charged. -/
def Charged (o : Outside) (st : Storage) (e : AppStateEnvelope) (tx : Tx)
    (e' : AppStateEnvelope) : Prop := ∃ sender rest, ChargedTo o st e tx sender rest e'

theorem admitToBlock.spec {tx : Tx} (h : admitToBlock o st e tx = .ok e') :
    Charged o st e tx e' ∧ 0 < tx.fee := by
  unfold admitToBlock at h
  simp only at h
  split at h
  · cases h
  · rename_i sender hs
    split at h
    · cases h
    · rename_i expected_nonce hnext
      split at h
      · cases h
      · rename_i hnonce
        have hnonce : expected_nonce = tx.nonce := by simpa using hnonce
        split at h
        · cases h
        · rename_i fee hfee
          have hfee := Coin.new_eq_ok.mp hfee
          split at h
          · cases h
          · rename_i hzero
            split at h
            · cases h
            · split at h
              · cases h
              · rename_i rest hrest
                have hrest := Coin.sub_eq_ok.mp hrest
                cases h
                subst hnonce
                refine ⟨⟨sender, rest, hs, hnext, by omega, rfl⟩, ?_⟩
                have : fee.amount ≠ 0 := by simpa [Coin.is_zero] using hzero
                omega

/-- An admitted transaction was signed by its sender, and its sender was charged. -/
theorem admission.spec {c : ConsensusConnection} {tx : Tx} {s' : AppState}
    (h : admission o c tx = .ok s') :
    ∃ s, c.current_state = some s ∧ s'.app_hash = s.app_hash ∧ s'.chain_id = s.chain_id ∧
      Charged o c.storage s.envelope tx s'.envelope ∧ 0 < tx.fee := by
  unfold admission at h
  split at h
  · cases h
  · split at h
    · cases h
    · split at h
      · cases h
      · split at h
        · cases h
        · split at h
          · cases h
          · rename_i s hs
            split at h
            · cases h
            · rename_i e' hadmitted
              cases h
              obtain ⟨hcharged, hfee⟩ := admitToBlock.spec hadmitted
              exact ⟨s, hs, rfl, rfl, hcharged, hfee⟩

theorem Charged.framed {tx : Tx} (h : Charged o st e tx e') : Framed e e' := by
  obtain ⟨sender, rest, hc⟩ := h
  rw [hc.staged]
  exact ⟨⟨rfl, rfl, rfl, rfl⟩, rfl, rfl, rfl, rfl, rfl⟩

theorem Charged.good {tx : Tx} (hc : Charged o st e tx e') (h : Good o e st) : Good o e' st := by
  refine ⟨?_, h.committed.of_same hc.framed.1⟩
  obtain ⟨sender, rest, hc⟩ := hc
  rw [hc.staged]
  exact h.staged.stage (.account _ _ _ _ rfl) rfl

/-- An admitted transaction runs its payload on the charged state. -/
theorem deliver_tx_inner.spec {c : ConsensusConnection} {tx : Tx} {s : AppState}
    (h : admission o c tx = .ok s) :
    (deliver_tx_inner o pc c (.ok tx)).1.code = (tx.process o pc c.storage s.envelope).1.code ∧
      (deliver_tx_inner o pc c (.ok tx)).2 = { c with current_state := some { s with
        envelope := (tx.process o pc c.storage s.envelope).2 } } := by
  simp only [deliver_tx_inner, h, withGas, and_true]
  split <;> rfl

/-- Every error of admission has an error code. -/
theorem admitToBlock_code {st : Storage} {e : AppStateEnvelope} {tx : Tx} {r : ResponseDeliverTx}
    (h : admitToBlock o st e tx = .error r) : r.code ≠ 0 := by
  unfold admitToBlock at h
  simp only at h
  repeat' split at h
  all_goals cases h
  all_goals exact Nat.succ_ne_zero _

theorem admission_code {c : ConsensusConnection} {tx : Tx} {r : ResponseDeliverTx}
    (h : admission o c tx = .error r) : r.code ≠ 0 := by
  unfold admission at h
  repeat' split at h
  any_goals cases h
  any_goals exact Nat.succ_ne_zero _
  rename_i hadmit
  exact admitToBlock_code hadmit

/-- A transaction that is turned away is answered with an error code. -/
theorem code_of_refused {c : ConsensusConnection} {tx : Tx}
    (h : ∀ s, admission o c tx ≠ .ok s) : (deliver_tx_inner o pc c (.ok tx)).1.code ≠ 0 := by
  unfold deliver_tx_inner
  cases hadmission : admission o c tx with
  | ok s => exact absurd hadmission (h s)
  | error r =>
    simp only [hadmission]
    exact admission_code hadmission

/-! ## EndBlock -/

/-- The selection only writes the selected validator. -/
theorem select_active.spec (o : Outside) (pc : ProtocolConstants) (s : AppState) (epoch : I64) :
    ∃ selected, select_active_capacity_validator_for_epoch o pc s epoch =
      { s with envelope := { s.envelope with active_capacity_validator := selected } } := by
  unfold select_active_capacity_validator_for_epoch
  simp only
  split
  · exact ⟨none, rfl⟩
  · exact ⟨some _, rfl⟩

/-- The state in which the record of a new epoch is built: expired registrations are gone
and the validators of the epoch are chosen. -/
def chosenState (o : Outside) (pc : ProtocolConstants) (s : AppState) (new_epoch : I64) :
    AppState :=
  select_active_capacity_validator_for_epoch o pc
    { s with envelope := select_validators_for_epoch pc { s.envelope with
      capacity_validators := expire_capacity_registrations s.envelope.capacity_validators
        (asU64 s.envelope.block_height.val) } } new_epoch

/-- The object of an epoch record. -/
def epoch_record_cado (o : Outside) (record : EpochRecord) : CadoBody CadoData :=
  CadoBody.immutable o (.epoch_record record) ⟨.EpochRecord, (toString record.epoch.val).toList⟩

theorem openEpoch.spec {s s' : AppState} {new_epoch : I64}
    (h : openEpoch o pc s new_epoch = .ok s') :
    ∃ name, epoch_record_path_name new_epoch = .ok name ∧
      s' = { chosenState o pc s new_epoch with
        envelope := { (chosenState o pc s new_epoch).envelope with
          cado_cache := ((chosenState o pc s new_epoch).envelope.cado_cache.insert
            (.epoch_record name) (epoch_record_cado o
              (build_epoch_record pc (chosenState o pc s new_epoch).envelope new_epoch))).insert
            (.epoch_record LATEST) (epoch_record_cado o
              (build_epoch_record pc (chosenState o pc s new_epoch).envelope new_epoch))
          current_epoch := new_epoch } } := by
  unfold openEpoch store_epoch_record at h
  simp only [build_epoch_record] at h
  rcases hname : epoch_record_path_name new_epoch with err | name
  · rw [hname] at h
    cases h
  · rw [hname] at h
    cases h
    exact ⟨name, rfl, rfl⟩

theorem objectAt_epoch_record (o : Outside) (name : Bytes32) (record : EpochRecord) :
    ObjectAt o (.epoch_record name) (epoch_record_cado o record) := .epoch_record name record _

/-- Choosing writes the registry, the active validators and the selected one. -/
theorem chosenState.spec (o : Outside) (pc : ProtocolConstants) (s : AppState) (new_epoch : I64) :
    ∃ selected, chosenState o pc s new_epoch = { s with envelope := { s.envelope with
      capacity_validators := expire_capacity_registrations s.envelope.capacity_validators
        (asU64 s.envelope.block_height.val)
      active_validators := (sortedValidators s.envelope.validators).take pc.validators_per_epoch
      active_capacity_validator := selected } } := by
  obtain ⟨selected, hsel⟩ := select_active.spec o pc
    { s with envelope := select_validators_for_epoch pc { s.envelope with
      capacity_validators := expire_capacity_registrations s.envelope.capacity_validators
        (asU64 s.envelope.block_height.val) } } new_epoch
  exact ⟨selected, hsel⟩

theorem chosenState_same (o : Outside) (pc : ProtocolConstants) (s : AppState) (new_epoch : I64) :
    SameCommitted s.envelope (chosenState o pc s new_epoch).envelope ∧
      (chosenState o pc s new_epoch).envelope.cado_cache = s.envelope.cado_cache := by
  obtain ⟨selected, hsel⟩ := chosenState.spec o pc s new_epoch
  rw [hsel]
  exact ⟨⟨rfl, rfl, rfl, rfl⟩, rfl⟩

theorem chosenState_height (o : Outside) (pc : ProtocolConstants) (s : AppState) (new_epoch : I64) :
    (chosenState o pc s new_epoch).envelope.block_height = s.envelope.block_height := by
  obtain ⟨selected, hsel⟩ := chosenState.spec o pc s new_epoch
  rw [hsel]

theorem goodStaged_chosenState (o : Outside) (pc : ProtocolConstants) {s : AppState}
    (h : GoodStaged o s.envelope) (new_epoch : I64) :
    GoodStaged o (chosenState o pc s new_epoch).envelope := by
  obtain ⟨selected, hsel⟩ := chosenState.spec o pc s new_epoch
  rw [hsel]
  exact ⟨h.objects, h.slugs, h.no_deletes,
    fun cv hcv => h.registered cv (List.mem_of_mem_filter hcv)⟩

theorem openEpoch_good {s s' : AppState} {new_epoch : I64}
    (h : openEpoch o pc s new_epoch = .ok s') (hg : Good o s.envelope st) :
    Good o s'.envelope st := by
  obtain ⟨name, _, rfl⟩ := openEpoch.spec h
  have hsame := (chosenState_same o pc s new_epoch).1
  have h1 := (goodStaged_chosenState o pc hg.staged new_epoch).stage
    (objectAt_epoch_record o name
      (build_epoch_record pc (chosenState o pc s new_epoch).envelope new_epoch)) rfl
  have h2 := h1.stage (objectAt_epoch_record o LATEST
      (build_epoch_record pc (chosenState o pc s new_epoch).envelope new_epoch)) rfl
  exact ⟨⟨h2.objects, h2.slugs, h2.no_deletes, h2.registered⟩,
    hg.committed.of_same ⟨hsame.1, hsame.2, hsame.3, hsame.4⟩⟩

/-- The open state at the height of its block. -/
def AppState.atHeight (s : AppState) (height : I64) : AppState :=
  { s with envelope := { s.envelope with block_height := height } }

/-- EndBlock sets the height and the app hash. When the height reaches a new epoch it opens
that epoch first. -/
theorem endBlockState.spec {s s' : AppState} {height : I64} {out : EndBlockOutcome}
    (h : endBlockState o pc s height = .ok (out, s')) :
    (¬ s.envelope.current_epoch.val < (epochOf pc height).val ∧ out = ⟨none, []⟩ ∧
      s' = (s.atHeight height).set_app_hash
        ((s.atHeight height).envelope.calculate_app_hash o)) ∨
    (s.envelope.current_epoch.val < (epochOf pc height).val ∧ ∃ s2,
      openEpoch o pc (s.atHeight height) (epochOf pc height) = .ok s2 ∧
      out = ⟨some (validatorUpdates s2.envelope),
        issuedChallenges o pc s2.envelope (epochOf pc height)⟩ ∧
      s' = s2.set_app_hash (s2.envelope.calculate_app_hash o)) := by
  unfold endBlockState at h
  simp only at h
  split at h
  · rename_i hnew
    split at h
    · cases h
    · rename_i s2 hopen
      cases h
      exact Or.inr ⟨hnew, s2, hopen, rfl, rfl⟩
  · rename_i hold
    cases h
    exact Or.inl ⟨hold, rfl, rfl⟩

/-- EndBlock writes the height, the app hash, the choices of an epoch and the staged objects. -/
theorem endBlockState.fields {s s' : AppState} {height : I64} {out : EndBlockOutcome}
    (h : endBlockState o pc s height = .ok (out, s')) :
    ∃ registry active selected staged epoch app_hash, s' = { s with
      app_hash := app_hash
      envelope := { s.envelope with
        block_height := height
        capacity_validators := registry
        active_validators := active
        active_capacity_validator := selected
        cado_cache := staged
        current_epoch := epoch } } := by
  rcases endBlockState.spec h with ⟨_, _, rfl⟩ | ⟨_, s2, hopen, _, rfl⟩
  · exact ⟨_, _, _, _, _, _, rfl⟩
  · obtain ⟨name, _, rfl⟩ := openEpoch.spec hopen
    obtain ⟨selected, hsel⟩ := chosenState.spec o pc (s.atHeight height) (epochOf pc height)
    rw [hsel]
    exact ⟨_, _, _, _, _, _, rfl⟩

theorem good_atHeight {s : AppState} (h : Good o s.envelope st) (height : I64) :
    Good o (s.atHeight height).envelope st :=
  ⟨⟨h.staged.objects, h.staged.slugs, h.staged.no_deletes, h.staged.registered⟩,
    h.committed.of_same ⟨rfl, rfl, rfl, rfl⟩⟩

theorem endBlock_good {s s' : AppState} {height : I64} {out : EndBlockOutcome}
    (h : endBlockState o pc s height = .ok (out, s')) (hg : Good o s.envelope st) :
    Good o s'.envelope st := by
  rcases endBlockState.spec h with ⟨_, _, rfl⟩ | ⟨_, s2, hopen, _, rfl⟩
  · exact good_atHeight hg height
  · have hs2 : Good o s2.envelope st := openEpoch_good hopen (good_atHeight hg height)
    exact hs2

end eld_chain
