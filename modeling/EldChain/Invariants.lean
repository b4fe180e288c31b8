-- What every reachable state keeps: each object is of the kind its path
-- names, the database indexes no object that the committed cache lacks,
-- and the two indexes read as if rebuilt from that cache. So a lookup
-- never has to go to the database.
import EldChain.Outcomes
import EldChain.Chain

open Std

namespace eld_chain

variable (o : Outside) (pc : ProtocolConstants)

/-! ## Well-formed objects -/

/-- An object as the chain makes it for its path. -/
inductive ObjectAt : CadoPath → CadoBody CadoData → Prop
  | account (a : Address) (hash latest : Bytes32) (acc : Account) (address : acc.address = a) :
      ObjectAt (.account a) (.Mutable ⟨hash, .account acc, ⟨.Account, Address.text a⟩, latest⟩)
  | staking_account (a : Address) (hash latest : Bytes32) (acc : StakingAccount)
      (address : acc.address = a) :
      ObjectAt (.staking_account a)
        (.Mutable ⟨hash, .staking_account acc, ⟨.StakingAccount, Address.text a⟩, latest⟩)
  | epoch_record (name : Bytes32) (r : EpochRecord) (owner : Text) :
      ObjectAt (.epoch_record name) (CadoBody.immutable o (.epoch_record r) ⟨.EpochRecord, owner⟩)
  | namespace_registry (slug : Text) (r : NamespaceRecord) (canonical : CanonicalSlug slug) :
      ObjectAt (.namespace_registry slug) (namespace_cado o slug r)

variable {o} in
theorem ObjectAt.not_infrastructure {p : CadoPath} {b : CadoBody CadoData} (h : ObjectAt o p b) :
    p.is_infrastructure = false := by
  cases h <;> rfl

/-- The slugs that a state stages or holds are not staged as objects. -/
def CadoPath.is_registry : CadoPath → Bool
  | .namespace_registry _ => true
  | _ => false

/-- The record of a registry object. -/
def CadoBody.namespace_record? : CadoBody CadoData → Option NamespaceRecord
  | .Immutable ⟨_, .namespace_record r, _⟩ => some r
  | _ => none

/-- The staged part of a state. -/
structure GoodStaged (e : AppStateEnvelope) : Prop where
  objects : ∀ (p : CadoPath) b, e.cado_cache[p]? = some b → ObjectAt o p b ∧ p.is_registry = false
  slugs : ∀ slug r, e.namespace_registry_cache[slug]? = some r → CanonicalSlug slug
  no_deletes : e.cado_cache_to_delete = []
  registered : ∀ cv ∈ e.capacity_validators, cv.Registered

/-- The committed part of a state, read against the database. -/
structure GoodCommitted (e : AppStateEnvelope) (st : Storage) : Prop where
  objects : ∀ (p : CadoPath) b, e.committed_cado_cache[p]? = some b → ObjectAt o p b
  indexed : ∀ p : CadoPath, p.is_infrastructure = false → st.path_index[p]?.isSome = true →
    e.committed_cado_cache[p]?.isSome = true
  epochs : ∀ epoch, epoch ∈ e.epoch_records_index ↔
    ∃ p : CadoPath, e.committed_cado_cache[p]?.isSome = true ∧ epoch_number_from_record_path p = some epoch
  namespaces : ∀ slug, e.namespace_registry_index[slug]? =
    e.committed_cado_cache[CadoPath.namespace_registry slug]?.bind CadoBody.namespace_record?

structure Good (e : AppStateEnvelope) (st : Storage) : Prop where
  staged : GoodStaged o e
  committed : GoodCommitted o e st

/-! ## Lookups stay in memory -/

variable {o} {e e' : AppStateEnvelope} {st st' : Storage}

/-- No registration is staged as an object. -/
theorem GoodStaged.registry_unstaged (h : GoodStaged o e) (slug : Text) :
    e.cado_cache[CadoPath.namespace_registry slug]? = none := by
  rcases hb : e.cado_cache[CadoPath.namespace_registry slug]? with _ | b
  · rfl
  · exact absurd (h.objects _ b hb).2 (by simp [CadoPath.is_registry])

/-- In a good state a lookup reads the staged object, or else the committed one. -/
theorem lookup_of_good (h : GoodCommitted o e st) (p : CadoPath)
    (hp : p.is_infrastructure = false) :
    e.lookup_cado_staged_committed_then_db o st p = e.working p := by
  unfold AppStateEnvelope.lookup_cado_staged_committed_then_db AppStateEnvelope.working
  rcases e.cado_cache[p]? with _ | b
  · rcases hc : e.committed_cado_cache[p]? with _ | b
    · have hnone : st.path_index[p]? = none := by
        rcases hi : st.path_index[p]? with _ | key
        · rfl
        · have := h.indexed p hp (by rw [hi]; rfl)
          rw [hc] at this
          cases this
      simp only [get_of_unindexed o hnone, Option.or]
    · rfl
  · rfl

theorem working_object (hs : GoodStaged o e) (hc : GoodCommitted o e st) {p : CadoPath}
    {b : CadoBody CadoData} (h : e.working p = some b) : ObjectAt o p b := by
  unfold AppStateEnvelope.working at h
  rcases Option.or_eq_some_iff.mp h with h | ⟨_, h⟩
  · exact (hs.objects p b h).1
  · exact hc.objects p b h

/-- The account in memory. -/
def AppStateEnvelope.account? (e : AppStateEnvelope) (a : Address) : Option AccountWithCadoHash :=
  (e.working (.account a)).bind CadoBody.account?

/-- The staking account in memory. -/
def AppStateEnvelope.staking_account? (e : AppStateEnvelope) (a : Address) :
    Option StakingAccountWithCadoHash :=
  (e.working (.staking_account a)).bind CadoBody.staking_account?

theorem get_account_of_good (h : GoodCommitted o e st) (a : Address) :
    e.get_account_from_cado o st a = e.account? a := by
  rw [AppStateEnvelope.get_account_from_cado, lookup_of_good h _ rfl]
  rfl

theorem get_staking_of_good (h : GoodCommitted o e st) (a : Address) :
    e.get_staking_account_from_cado o st a = e.staking_account? a := by
  rw [AppStateEnvelope.get_staking_account_from_cado, lookup_of_good h _ rfl]
  rfl

theorem addresses_match (h : Good o e st) : AddressesMatch o st e := by
  intro a x hx
  rw [get_account_of_good h.committed] at hx
  obtain ⟨b, hb, hacc⟩ := Option.bind_eq_some_iff.mp hx
  have hobj := working_object h.staged h.committed hb
  cases hobj with
  | account _ hash latest acc haddr =>
    cases hacc
    exact haddr

theorem staking_addresses_match (h : Good o e st) {a : Address} {x : StakingAccountWithCadoHash}
    (hx : e.get_staking_account_from_cado o st a = some x) : x.account.address = a := by
  rw [get_staking_of_good h.committed] at hx
  obtain ⟨b, hb, hacc⟩ := Option.bind_eq_some_iff.mp hx
  have hobj := working_object h.staged h.committed hb
  cases hobj with
  | staking_account _ hash latest acc haddr =>
    cases hacc
    exact haddr

/-! ## The part that a block leaves alone -/

/-- The fields that only a commit writes. -/
structure SameCommitted (e e' : AppStateEnvelope) : Prop where
  committed_cado_cache : e'.committed_cado_cache = e.committed_cado_cache
  state_trie : e'.state_trie = e.state_trie
  epoch_records_index : e'.epoch_records_index = e.epoch_records_index
  namespace_registry_index : e'.namespace_registry_index = e.namespace_registry_index

/-- The fields that no payload writes. -/
structure Framed (e e' : AppStateEnvelope) : Prop extends SameCommitted e e' where
  cado_cache_to_delete : e'.cado_cache_to_delete = e.cado_cache_to_delete
  block_height : e'.block_height = e.block_height
  current_epoch : e'.current_epoch = e.current_epoch
  active_validators : e'.active_validators = e.active_validators
  active_capacity_validator : e'.active_capacity_validator = e.active_capacity_validator

theorem SameCommitted.refl (e : AppStateEnvelope) : SameCommitted e e := ⟨rfl, rfl, rfl, rfl⟩

theorem SameCommitted.trans {e₁ e₂ e₃ : AppStateEnvelope} (h : SameCommitted e₁ e₂)
    (h' : SameCommitted e₂ e₃) : SameCommitted e₁ e₃ :=
  ⟨h'.1.trans h.1, h'.2.trans h.2, h'.3.trans h.3, h'.4.trans h.4⟩

theorem Framed.refl (e : AppStateEnvelope) : Framed e e := ⟨.refl e, rfl, rfl, rfl, rfl, rfl⟩

theorem Framed.trans {e₁ e₂ e₃ : AppStateEnvelope} (h : Framed e₁ e₂) (h' : Framed e₂ e₃) :
    Framed e₁ e₃ :=
  ⟨h.1.trans h'.1, h'.2.trans h.2, h'.3.trans h.3, h'.4.trans h.4, h'.5.trans h.5, h'.6.trans h.6⟩

theorem GoodCommitted.of_same (h : GoodCommitted o e st) (hf : SameCommitted e e') :
    GoodCommitted o e' st where
  objects := by rw [hf.committed_cado_cache]; exact h.objects
  indexed := by rw [hf.committed_cado_cache]; exact h.indexed
  epochs := by rw [hf.committed_cado_cache, hf.epoch_records_index]; exact h.epochs
  namespaces := by rw [hf.committed_cado_cache, hf.namespace_registry_index]; exact h.namespaces

theorem framed_setCoins (e : AppStateEnvelope) (p : Purse) (c : Coin) :
    Framed e (e.setCoins o st p c) := by
  cases p <;> exact ⟨⟨rfl, rfl, rfl, rfl⟩, rfl, rfl, rfl, rfl, rfl⟩

theorem framed_countedState (e : AppStateEnvelope) (vp : VerifiedProofTx) :
    Framed e (countedState pc e vp) := by
  unfold countedState record_failed_capacity_proof
  simp only
  split <;> exact ⟨⟨rfl, rfl, rfl, rfl⟩, rfl, rfl, rfl, rfl, rfl⟩

theorem cado_cache_countedState (pc : ProtocolConstants) (e : AppStateEnvelope)
    (vp : VerifiedProofTx) : (countedState pc e vp).cado_cache = e.cado_cache := by
  unfold countedState record_failed_capacity_proof
  simp only
  split <;> rfl

theorem Outcome.framed {pc : ProtocolConstants} {tx : Tx} {r : ResponseDeliverTx}
    (h : Outcome o pc st e tx r e') : Framed e e' := by
  cases h with
  | rejected => exact .refl e
  | burnt => exact framed_setCoins e _ _
  | @moved src dst _ rest sum _ =>
    have h12 := (@framed_setCoins o st e src rest).trans (@framed_setCoins o st _ dst sum)
    exact ⟨⟨h12.1.1, h12.1.2, h12.1.3, h12.1.4⟩, h12.2, h12.3, h12.4, h12.5, h12.6⟩
  | registry => exact ⟨⟨rfl, rfl, rfl, rfl⟩, rfl, rfl, rfl, rfl, rfl⟩
  | posted => exact ⟨⟨rfl, rfl, rfl, rfl⟩, rfl, rfl, rfl, rfl, rfl⟩
  | namespaced => exact ⟨⟨rfl, rfl, rfl, rfl⟩, rfl, rfl, rfl, rfl, rfl⟩
  | counted => exact framed_countedState pc e _
  | rewarded => exact ⟨⟨rfl, rfl, rfl, rfl⟩, rfl, rfl, rfl, rfl, rfl⟩

/-! ## A payload keeps the state good -/

/-- Staging a well-formed object. -/
theorem GoodStaged.stage (h : GoodStaged o e) {p : CadoPath} {b : CadoBody CadoData}
    (hb : ObjectAt o p b) (hp : p.is_registry = false) :
    GoodStaged o { e with cado_cache := e.cado_cache.insert p b } where
  objects := by
    intro q c hq
    rw [finite_map.get_insert] at hq
    split at hq
    · rename_i hpq
      subst hpq
      cases hq
      exact ⟨hb, hp⟩
    · exact h.objects q c hq
  slugs := h.slugs
  no_deletes := h.no_deletes
  registered := h.registered

theorem account_or_new_address (h : Good o e st) (a : Address) :
    (e.account_or_new o st a).account.address = a := by
  unfold AppStateEnvelope.account_or_new
  rcases hx : e.get_account_from_cado o st a with _ | x
  · rfl
  · exact addresses_match h a x hx

theorem staking_account_or_new_address (h : Good o e st) (a : Address) :
    (e.staking_account_or_new o st a).account.address = a := by
  unfold AppStateEnvelope.staking_account_or_new
  rcases hx : e.get_staking_account_from_cado o st a with _ | x
  · rfl
  · exact staking_addresses_match h hx

theorem good_setCoins (h : Good o e st) (p : Purse) (c : Coin) :
    Good o (e.setCoins o st p c) st := by
  refine ⟨?_, h.committed.of_same (framed_setCoins e p c).1⟩
  cases p with
  | account a =>
    exact h.staged.stage (.account a _ _ _ (account_or_new_address h a)) rfl
  | stake a =>
    exact h.staged.stage (.staking_account a _ _ _ (staking_account_or_new_address h a)) rfl

theorem mem_updateFirst {α : Type} {p : α → Bool} {f : α → α} {l : List α} {x : α}
    (h : x ∈ updateFirst p f l) : x ∈ l ∨ ∃ y ∈ l, p y = true ∧ x = f y := by
  induction l with
  | nil => cases h
  | cons y l ih =>
    rw [updateFirst] at h
    by_cases hy : p y = true
    · rw [if_pos hy] at h
      rcases List.mem_cons.mp h with rfl | h
      · exact Or.inr ⟨y, List.mem_cons_self, hy, rfl⟩
      · exact Or.inl (List.mem_cons_of_mem _ h)
    · rw [if_neg hy] at h
      rcases List.mem_cons.mp h with rfl | h
      · exact Or.inl List.mem_cons_self
      · rcases ih h with h | ⟨z, hz, hpz, hx⟩
        · exact Or.inl (List.mem_cons_of_mem _ h)
        · exact Or.inr ⟨z, List.mem_cons_of_mem _ hz, hpz, hx⟩

/-- The only entry that an update looks for is updated. -/
theorem updateFirst_mem {α : Type} {p : α → Bool} {f : α → α} {l : List α} {y : α} (hy : y ∈ l)
    (hp : p y = true) (honly : ∀ x ∈ l, p x = true → x = y) : f y ∈ updateFirst p f l := by
  induction l with
  | nil => cases hy
  | cons x l ih =>
    rw [updateFirst]
    by_cases hx : p x = true
    · rw [if_pos hx, honly x List.mem_cons_self hx]
      exact List.mem_cons_self
    · rw [if_neg hx]
      rcases List.mem_cons.mp hy with rfl | hy
      · exact absurd hp hx
      · exact List.mem_cons_of_mem _ (ih hy (fun z hz => honly z (List.mem_cons_of_mem _ hz)))

/-- An update that keeps entries registered keeps the registry registered. -/
theorem registered_updateFirst {p : CapacityValidatorInfo → Bool}
    {f : CapacityValidatorInfo → CapacityValidatorInfo} {l : List CapacityValidatorInfo}
    (hf : ∀ cv, cv.Registered → (f cv).Registered) (hl : ∀ cv ∈ l, cv.Registered) :
    ∀ cv ∈ updateFirst p f l, cv.Registered := by
  intro cv hcv
  rcases mem_updateFirst hcv with h | ⟨y, hy, _, rfl⟩
  · exact hl cv h
  · exact hf y (hl y hy)

theorem RegistryChange.registered {l l' : List CapacityValidatorInfo} (h : RegistryChange l l')
    (hl : ∀ cv ∈ l, cv.Registered) : ∀ cv ∈ l', cv.Registered := by
  cases h with
  | added cv hcv =>
    intro x hx
    rcases List.mem_append.mp hx with hx | hx
    · exact hl x hx
    · rw [List.mem_singleton.mp hx]; exact hcv
  | updated p f hf => exact registered_updateFirst hf hl
  | removed p => exact fun x hx => hl x (List.mem_of_mem_filter hx)

theorem goodStaged_countedState (h : GoodStaged o e) (vp : VerifiedProofTx) :
    GoodStaged o (countedState pc e vp) := by
  unfold countedState record_failed_capacity_proof
  simp only
  split
  · exact ⟨h.objects, h.slugs, h.no_deletes, registered_updateFirst (fun _ hcv => hcv) h.registered⟩
  · exact ⟨h.objects, h.slugs, h.no_deletes, h.registered⟩

/-- Whatever a payload does, the state stays good. -/
theorem Outcome.good {pc : ProtocolConstants} {tx : Tx} {r : ResponseDeliverTx}
    (ho : Outcome o pc st e tx r e') (h : Good o e st) : Good o e' st := by
  refine ⟨?_, h.committed.of_same ho.framed.1⟩
  cases ho with
  | rejected => exact h.staged
  | burnt => exact (good_setCoins h _ _).staged
  | @moved src dst _ rest sum _ =>
    have h12 := (good_setCoins (good_setCoins h src rest) dst sum).staged
    exact ⟨h12.objects, h12.slugs, h12.no_deletes, h12.registered⟩
  | registry code coinless change =>
    exact ⟨h.staged.objects, h.staged.slugs, h.staged.no_deletes, change.registered h.staged.registered⟩
  | posted => exact ⟨h.staged.objects, h.staged.slugs, h.staged.no_deletes, h.staged.registered⟩
  | @namespaced an rest record =>
    have h1 := (good_setCoins h (.account an.sender) rest).staged
    refine ⟨h1.objects, ?_, h1.no_deletes, h1.registered⟩
    intro slug r hslug
    rw [finite_map.get_insert] at hslug
    split at hslug
    · rename_i heq
      exact heq ▸ an.slug_canonical
    · exact h.staged.slugs slug r hslug
  | counted => exact goodStaged_countedState pc h.staged _
  | @rewarded vp _ sum =>
    have h1 := (good_setCoins h (.account vp.capacity_provider) sum).staged
    exact ⟨h1.objects, h1.slugs, h1.no_deletes,
      registered_updateFirst (fun _ hcv => hcv) h1.registered⟩

end eld_chain
