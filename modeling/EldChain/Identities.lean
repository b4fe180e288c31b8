-- What stays when coins move: the nonce of an account, and the hash that
-- an account or a stake got when it was created. Admission moves the
-- nonce of its sender, and nothing else in the chain moves either.
import EldChain.Reachable

open Std

namespace eld_chain

variable {o : Outside} {pc : ProtocolConstants} {e e' : AppStateEnvelope} {st st' : Storage}

/-! ## Nonces and creation hashes -/

/-- The nonce that an account has, or will be created with. -/
def AppStateEnvelope.nonce (o : Outside) (st : Storage) (e : AppStateEnvelope) (a : Address) :
    Nonce := (e.account_or_new o st a).account.nonce

/-- The hash that a purse was created with, or will be. -/
def AppStateEnvelope.creationHash (o : Outside) (st : Storage) (e : AppStateEnvelope) :
    Purse → Bytes32
  | .account a => (e.account_or_new o st a).hash
  | .stake a => (e.staking_account_or_new o st a).hash

/-- Two states in which every account has the same nonce, and every purse the same hash. -/
structure SameIdentities (o : Outside) (st : Storage) (e : AppStateEnvelope) (st' : Storage)
    (e' : AppStateEnvelope) : Prop where
  nonce : ∀ a, e'.nonce o st' a = e.nonce o st a
  creationHash : ∀ p, e'.creationHash o st' p = e.creationHash o st p

theorem SameIdentities.refl (e : AppStateEnvelope) : SameIdentities o st e st e :=
  ⟨fun _ => rfl, fun _ => rfl⟩

theorem SameIdentities.trans {st₂ : Storage} {e₂ : AppStateEnvelope}
    (h : SameIdentities o st e st' e') (h' : SameIdentities o st' e' st₂ e₂) :
    SameIdentities o st e st₂ e₂ :=
  ⟨fun a => (h'.nonce a).trans (h.nonce a), fun p => (h'.creationHash p).trans (h.creationHash p)⟩

/-- Lookups that agree on the purses give the same identities. -/
theorem SameIdentities.of_accounts
    (ha : ∀ a, e'.get_account_from_cado o st' a = e.get_account_from_cado o st a)
    (hs : ∀ a, e'.get_staking_account_from_cado o st' a = e.get_staking_account_from_cado o st a) :
    SameIdentities o st e st' e' := by
  refine ⟨fun a => ?_, fun p => ?_⟩
  · unfold AppStateEnvelope.nonce AppStateEnvelope.account_or_new
    rw [ha]
  · cases p with
    | account a =>
      simp only [AppStateEnvelope.creationHash, AppStateEnvelope.account_or_new]
      rw [ha]
    | stake a =>
      simp only [AppStateEnvelope.creationHash, AppStateEnvelope.staking_account_or_new]
      rw [hs]

theorem SameIdentities.of_caches (hs : e'.cado_cache = e.cado_cache)
    (hc : e'.committed_cado_cache = e.committed_cado_cache) : SameIdentities o st e st e' := by
  apply SameIdentities.of_accounts
  · intro a
    unfold AppStateEnvelope.get_account_from_cado
      AppStateEnvelope.lookup_cado_staged_committed_then_db
    rw [hs, hc]
  · intro a
    unfold AppStateEnvelope.get_staking_account_from_cado
      AppStateEnvelope.lookup_cado_staged_committed_then_db
    rw [hs, hc]

/-- New coins in a purse leave its nonce and its hash. -/
theorem sameIdentities_setCoins (e : AppStateEnvelope) (p : Purse) (c : Coin) :
    SameIdentities o st e st (e.setCoins o st p c) := by
  refine ⟨fun a => ?_, fun q => ?_⟩
  · unfold AppStateEnvelope.nonce
    rw [account_or_new_setCoins]
    split <;> rfl
  · cases q with
    | account a =>
      simp only [AppStateEnvelope.creationHash]
      rw [account_or_new_setCoins]
      split <;> rfl
    | stake a =>
      simp only [AppStateEnvelope.creationHash]
      rw [staking_account_or_new_setCoins]
      split <;> rfl

/-! ## Payloads -/

/-- What changed purses keep, and what depends on the epoch and the caches alone, every outcome
keeps. -/
theorem Outcome.keeps {R : AppStateEnvelope → AppStateEnvelope → Prop}
    (hcoins : ∀ e p c, R e (e.setCoins o st p c))
    (htrans : ∀ {a b c}, R a b → R b c → R a c)
    (hsame : ∀ {a b}, b.current_epoch = a.current_epoch → b.cado_cache = a.cado_cache →
      b.committed_cado_cache = a.committed_cado_cache → R a b)
    {tx : Tx} {r : ResponseDeliverTx} (h : Outcome o pc st e tx r e') : R e e' := by
  cases h with
  | rejected => exact hsame rfl rfl rfl
  | burnt => exact hcoins e _ _
  | @moved src dst _ rest sum _ =>
    have hboth := htrans (hcoins e src rest) (hcoins _ dst sum)
    exact htrans hboth (hsame rfl rfl rfl)
  | registry => exact hsame rfl rfl rfl
  | posted => exact hsame rfl rfl rfl
  | @namespaced an rest record =>
    exact htrans (hcoins e (.account an.sender) rest) (hsame rfl rfl rfl)
  | @counted vp =>
    have hframed := framed_countedState pc e vp
    exact hsame hframed.current_epoch (cado_cache_countedState pc e vp)
      hframed.committed_cado_cache
  | @rewarded vp _ sum =>
    exact htrans (hcoins e (.account vp.capacity_provider) sum) (hsame rfl rfl rfl)

/-- No payload moves a nonce or a hash, whether it takes effect or fails. -/
theorem Outcome.identities {tx : Tx} {r : ResponseDeliverTx} (h : Outcome o pc st e tx r e') :
    SameIdentities o st e st e' := by
  refine h.keeps (R := fun a b => SameIdentities o st a st b) ?_ ?_ ?_
  · exact fun e p c => sameIdentities_setCoins e p c
  · exact fun hab hbc => hab.trans hbc
  · exact fun _ hcache hcommitted => .of_caches hcache hcommitted

/-! ## Admission -/

/-- The charge moves the sender to the nonce of the transaction, which is its next one. -/
theorem Charged.nonce {tx : Tx} (h : Charged o st e tx e') (a : Address) :
    e'.nonce o st a = if tx.payload.inner.sender = a then tx.nonce else e.nonce o st a := by
  obtain ⟨sender, rest, h⟩ := h
  unfold AppStateEnvelope.nonce AppStateEnvelope.account_or_new
  rw [h.staged, get_account_stage_account]
  split <;> rfl

theorem Charged.next {tx : Tx} (h : Charged o st e tx e') :
    (e.nonce o st tx.payload.inner.sender).next = some tx.nonce := by
  obtain ⟨sender, rest, h⟩ := h
  unfold AppStateEnvelope.nonce
  rw [account_or_new_of_some o st h.account]
  exact h.nonce

theorem Charged.creationHash {tx : Tx} (h : Charged o st e tx e') (p : Purse) :
    e'.creationHash o st p = e.creationHash o st p := by
  obtain ⟨sender, rest, h⟩ := h
  rw [h.staged]
  cases p with
  | account a =>
    simp only [AppStateEnvelope.creationHash, AppStateEnvelope.account_or_new]
    rw [get_account_stage_account]
    by_cases ha : tx.payload.inner.sender = a
    · subst ha
      rw [if_pos rfl, h.account]
      rfl
    · rw [if_neg ha]
  | stake a =>
    simp only [AppStateEnvelope.creationHash, AppStateEnvelope.staking_account_or_new]
    rw [get_staking_stage_account]

/-! ## EndBlock and Commit -/

theorem sameIdentities_stage_epoch_record (e : AppStateEnvelope) (name : Bytes32)
    (b : CadoBody CadoData) :
    SameIdentities o st e st
      { e with cado_cache := e.cado_cache.insert (.epoch_record name) b } := by
  apply SameIdentities.of_accounts
  · intro a
    unfold AppStateEnvelope.get_account_from_cado
    rw [lookup_staged, if_neg (by simp)]
  · intro a
    unfold AppStateEnvelope.get_staking_account_from_cado
    rw [lookup_staged, if_neg (by simp)]

theorem endBlock_identities {s s' : AppState} {height : I64} {out : EndBlockOutcome}
    (h : endBlockState o pc s height = .ok (out, s')) :
    SameIdentities o st s.envelope st s'.envelope := by
  rcases endBlockState.spec h with ⟨_, _, rfl⟩ | ⟨_, s2, hopen, _, rfl⟩
  · exact .of_caches rfl rfl
  · obtain ⟨name, _, rfl⟩ := openEpoch.spec hopen
    obtain ⟨hsame, hcache⟩ :=
      chosenState_same o pc (s.atHeight height) (epochOf pc height)
    generalize chosenState o pc (s.atHeight height) (epochOf pc height) = chosen at hsame hcache
    have hchosen : SameIdentities o st s.envelope st chosen.envelope :=
      .of_caches hcache hsame.committed_cado_cache
    refine hchosen.trans ((sameIdentities_stage_epoch_record _ name _).trans
      ((sameIdentities_stage_epoch_record _ LATEST _).trans (.of_caches rfl rfl)))

/-- A commit keeps every object, the registrations of namespaces apart. -/
theorem Committed.working (h : Committed o pc e e') {p : CadoPath}
    (hp : e.stagedNamespace o p = none) : e'.working p = e.working p := by
  unfold AppStateEnvelope.working
  rw [h.cado_cache, h.objects, hp, ExtTreeMap.getElem?_empty, Option.none_or, Option.none_or]

/-- A commit keeps every object of an account or a stake. -/
theorem Committed.working_purse (h : Committed o pc e e') (p : Purse) :
    e'.working p.path = e.working p.path := by
  apply h.working
  cases p <;> rfl

theorem Committed.identities (h : Committed o pc e e') (hg : GoodCommitted o e st)
    (hg' : GoodCommitted o e' st') : SameIdentities o st e st' e' := by
  apply SameIdentities.of_accounts
  · intro a
    rw [get_account_of_good hg', get_account_of_good hg]
    exact congrArg (fun b => b.bind CadoBody.account?) (h.working_purse (.account a))
  · intro a
    rw [get_staking_of_good hg', get_staking_of_good hg]
    exact congrArg (fun b => b.bind CadoBody.staking_account?) (h.working_purse (.stake a))

/-! ## Every call -/

def Node.nonce (o : Outside) (n : Node) (a : Address) : Nonce :=
  n.state.envelope.nonce o n.conn.storage a

def Node.creationHash (o : Outside) (n : Node) (p : Purse) : Bytes32 :=
  n.state.envelope.creationHash o n.conn.storage p

/-- The transaction that a call hands to its processor, with the state it is handed on. -/
def dispatched (o : Outside) (n : Node) : Request → Option (Tx × AppState)
  | .DeliverTx (.ok tx) =>
    if n.phase = .delivering then (admission o n.conn tx).toOption.map (fun s => (tx, s)) else none
  | _ => none

/-- What one call does to the identities. Here `s` is the state between admission and the
processor. -/
inductive IdentityStep (o : Outside) (n : Node) (r : Request) (n' : Node) : Prop
  | kept (none : dispatched o n r = none)
      (same : SameIdentities o n.conn.storage n.state.envelope n'.conn.storage n'.state.envelope)
  | dispatched {tx : Tx} {s : AppState} (some : dispatched o n r = some (tx, s))
      (charged : Charged o n.conn.storage n.state.envelope tx s.envelope)
      (same : SameIdentities o n.conn.storage s.envelope n'.conn.storage n'.state.envelope)

theorem NodeStep.identities {n n' : Node} {r : Request} (h : NodeStep o pc n r n')
    (hg : NodeGood o n) : IdentityStep o n r n' := by
  have hg' := h.good hg
  cases h with
  | begun phase =>
    refine .kept rfl ?_
    rw [state_of_idle phase]
    exact .refl _
  | turned_away request phase refused =>
    refine .kept ?_ (.refl _)
    rcases request with r | tx
    · rfl
    · rw [eld_chain.dispatched, if_pos phase]
      rcases hadmitted : admission o n.conn tx with r | s
      · rfl
      · exact absurd hadmitted (refused tx s rfl)
  | @delivered tx s phase admitted =>
    obtain ⟨hcharged, _, hout⟩ := @NodeGood.of_admission o pc _ _ _ hg phase admitted
    have hdispatched : eld_chain.dispatched o n (.DeliverTx (.ok tx)) = some (tx, s) := by
      rw [eld_chain.dispatched, if_pos phase, admitted]
      rfl
    exact .dispatched hdispatched hcharged hout.identities
  | @ended height s s' out phase grows current ends =>
    refine .kept rfl ?_
    rw [state_of_current (by simp [phase]) current]
    exact endBlock_identities ends
  | @committed s c' phase current commits =>
    refine .kept rfl ?_
    obtain ⟨hstate, hgood⟩ := hg.of_current (by simp [phase]) current
    rw [hstate]
    have hstep := commit_inner.spec current hgood commits
    exact hstep.envelope.identities hgood.committed hg'.committed.committed
  | uploaded content_key blob =>
    exact .kept rfl (.of_accounts (fun _ => rfl) (fun _ => rfl))

end eld_chain
