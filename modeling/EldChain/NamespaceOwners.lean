-- The law of namespaces: over the life of a node a slug is registered
-- once at most, and from then on every spelling of it resolves to the
-- address that registered it, in the open block and after its commit.
import EldChain.NodeStart

open Std

namespace eld_chain

/-! ## The registrations of a life -/

/-- The slug that a transaction registers, and for whom. -/
def Tx.registration (tx : Tx) : Option (Text × Address) :=
  match tx.payload.inner with
  | .AddNamespace an => some (an.namespace_slug, an.sender)
  | _ => none

/-- The registration that a call makes, when it is accepted. -/
def Node.registered (o : Outside) (pc : ProtocolConstants) (n : Node) (r : Request) :
    Option (Text × Address) :=
  match r with
  | .DeliverTx (.ok tx) =>
    if (deliver_tx_inner o pc n.conn (.ok tx)).1.code = 0 then tx.registration else none
  | _ => none

/-- A node with the registrations that succeeded: those of its committed blocks, and those of
the open one. -/
structure NamespaceNode where
  node : Node
  committed : List (Text × Address)
  opened : List (Text × Address)

def NamespaceNode.genesis (o : Outside) (pc : ProtocolConstants) (cfg : GenesisConfig) :
    NamespaceNode := ⟨eld_chain.genesis o pc cfg, [], []⟩

/-- One event. A node that restarts in the middle of a block loses the block with all that it
had done, and Tendermint replays it. -/
def NamespaceNode.live (o : Outside) (pc : ProtocolConstants) (cfg : GenesisConfig)
    (n : NamespaceNode) (event : LifeEvent) : Option NamespaceNode :=
  match n.node.live o pc cfg event with
  | none => none
  | some node =>
    match event with
    | .call .Commit => some ⟨node, n.committed ++ n.opened, []⟩
    | .call r => some ⟨node, n.committed, n.opened ++ (n.node.registered o pc r).toList⟩
    | .restart => some ⟨node, n.committed, []⟩
    | .rebuild => some ⟨node, n.committed, n.opened⟩

/-- Two spellings of one canonical slug. -/
def SameSlug (a b : Text) : Prop :=
  ∃ slug, normalize_namespace_slug a = .ok slug ∧ normalize_namespace_slug b = .ok slug

/-- Every spelling of the slug resolves to a record of this owner. -/
def AppStateEnvelope.OwnedBy (e : AppStateEnvelope) (slug : Text) (owner : Address) : Prop :=
  ∀ spelling, SameSlug spelling slug →
    ∃ record, e.resolve_namespace spelling = .ok (some record) ∧ record.owner = owner

/-- No slug was registered twice, and each has its owner in the working state, and in the
committed state from its commit on. -/
structure NamespaceNode.Unique (n : NamespaceNode) : Prop where
  once : (n.committed ++ n.opened).Pairwise (fun p q => ¬ SameSlug p.1 q.1)
  working : ∀ p ∈ n.committed ++ n.opened, n.node.state.envelope.OwnedBy p.1 p.2
  committed : ∀ p ∈ n.committed, n.node.conn.committed_state.envelope.OwnedBy p.1 p.2

variable {o : Outside} {pc : ProtocolConstants} {cfg : GenesisConfig}
variable {e e' : AppStateEnvelope} {st : Storage}

/-! ## The owner in memory -/

/-- The record of a slug: the staged one, or else the committed one. -/
def AppStateEnvelope.namespace_of (e : AppStateEnvelope) (slug : Text) : Option NamespaceRecord :=
  e.namespace_registry_cache[slug]?.or
    (e.committed_cado_cache[CadoPath.namespace_registry slug]?.bind CadoBody.namespace_record?)

def AppStateEnvelope.owner_of (e : AppStateEnvelope) (slug : Text) : Option Address :=
  (e.namespace_of slug).map NamespaceRecord.owner

theorem resolve_eq (h : GoodCommitted o e st) {spelling slug : Text}
    (hspelling : normalize_namespace_slug spelling = .ok slug) (hslug : CanonicalSlug slug) :
    e.resolve_namespace spelling = .ok (e.namespace_of slug) := by
  unfold AppStateEnvelope.resolve_namespace AppStateEnvelope.namespace_of
  rw [hspelling]
  simp only
  cases hstaged : e.namespace_registry_cache[slug]? with
  | some record => rfl
  | none =>
    rw [registry_path hslug]
    simp only
    cases hcommitted : e.committed_cado_cache[CadoPath.namespace_registry slug]? with
    | none => rfl
    | some b =>
      have hobject := h.objects _ b hcommitted
      cases hobject
      rfl

/-- A slug with a record is canonical. -/
theorem canonical_of_record (h : Good o e st) {slug : Text} {record : NamespaceRecord}
    (hrecord : e.namespace_of slug = some record) : CanonicalSlug slug := by
  rcases Option.or_eq_some_iff.mp hrecord with hstaged | ⟨_, hcommitted⟩
  · exact h.staged.slugs slug record hstaged
  · obtain ⟨b, hb, _⟩ := Option.bind_eq_some_iff.mp hcommitted
    have hobject := h.committed.objects _ b hb
    cases hobject with
    | namespace_registry _ r canonical => exact canonical

/-- A slug that may be registered has no record. -/
theorem free_of_not_taken {slug : Text} (hslug : CanonicalSlug slug)
    (h : e.validate_add_namespace_not_taken slug = .ok ()) : e.namespace_of slug = none := by
  unfold AppStateEnvelope.validate_add_namespace_not_taken at h
  rw [normalize_of_valid hslug.valid] at h
  simp only at h
  by_cases hstaged : e.namespace_registry_cache.contains slug = true
  · rw [if_pos hstaged] at h
    cases h
  · rw [if_neg hstaged] at h
    unfold AppStateEnvelope.is_namespace_registered_on_chain at h
    rw [registry_path hslug] at h
    simp only at h
    cases hcommitted : e.committed_cado_cache.contains (CadoPath.namespace_registry slug) with
    | true =>
      rw [hcommitted] at h
      cases h
    | false =>
      unfold AppStateEnvelope.namespace_of
      simp only [ExtTreeMap.contains_iff_mem] at hstaged
      rw [ExtTreeMap.getElem?_eq_none hstaged, Option.none_or, ExtTreeMap.getElem?_eq_none]
      · rfl
      · rw [← ExtTreeMap.contains_iff_mem, hcommitted]
        exact Bool.false_ne_true

/-- Registered slugs are spelled as they are registered, so two of them are one when they are
spellings of one slug. -/
theorem sameSlug_iff {a b : Text} (ha : CanonicalSlug a) (hb : CanonicalSlug b) :
    SameSlug a b ↔ a = b := by
  unfold SameSlug
  rw [normalize_of_valid ha.valid, normalize_of_valid hb.valid]
  constructor
  · rintro ⟨slug, hsame, hsame'⟩
    cases hsame
    cases hsame'
    rfl
  · rintro rfl
    exact ⟨a, rfl, rfl⟩

theorem ownedBy_of_owner (h : Good o e st) {slug : Text} {owner : Address}
    (howner : e.owner_of slug = some owner) : e.OwnedBy slug owner := by
  obtain ⟨record, hrecord, rfl⟩ := Option.map_eq_some_iff.mp howner
  have hcanonical := canonical_of_record h hrecord
  rintro spelling ⟨slug', hspelling, hslug⟩
  rw [normalize_of_valid hcanonical.valid] at hslug
  cases hslug
  refine ⟨record, ?_, rfl⟩
  rw [resolve_eq h.committed hspelling hcanonical, hrecord]

/-! ## What a transaction registers -/

/-- The staged record is the only one that a registration changes. -/
theorem stageNamespace.spec (o : Outside) (st : Storage) (e : AppStateEnvelope)
    (an : AddNamespaceTx) (fee : Coin) :
    ((stageNamespace o st e an fee).1.code = 0 ∧
      (stageNamespace o st e an fee).2.namespace_registry_cache =
        e.namespace_registry_cache.insert an.namespace_slug
          ⟨an.namespace_slug, an.sender, asU64 (e.block_height.val + 1)⟩) ∨
    ((stageNamespace o st e an fee).1.code ≠ 0 ∧ (stageNamespace o st e an fee).2 = e) := by
  unfold stageNamespace
  cases e.get_account_from_cado o st an.sender with
  | none => exact Or.inr ⟨Nat.succ_ne_zero _, rfl⟩
  | some sender =>
    simp only
    by_cases hfunds : sender.account.balance.amount < fee.amount
    · rw [if_pos hfunds]
      exact Or.inr ⟨Nat.succ_ne_zero _, rfl⟩
    · rw [if_neg hfunds]
      cases sender.account.balance.sub fee with
      | error err => exact Or.inr ⟨Nat.succ_ne_zero _, rfl⟩
      | ok balance => exact Or.inl ⟨rfl, rfl⟩

theorem process_add_namespace_tx.spec (o : Outside) (st : Storage) (e : AppStateEnvelope)
    (an : AddNamespaceTx) :
    ((process_add_namespace_tx o st e an).1.code = 0 ∧
      e.validate_add_namespace_not_taken an.namespace_slug = .ok () ∧
      (process_add_namespace_tx o st e an).2.namespace_registry_cache =
        e.namespace_registry_cache.insert an.namespace_slug
          ⟨an.namespace_slug, an.sender, asU64 (e.block_height.val + 1)⟩) ∨
    ((process_add_namespace_tx o st e an).1.code ≠ 0 ∧
      (process_add_namespace_tx o st e an).2 = e) := by
  unfold process_add_namespace_tx
  cases Coin.new an.registration_fee with
  | error err => exact Or.inr ⟨Nat.succ_ne_zero _, rfl⟩
  | ok fee =>
    simp only
    cases hfree : e.validate_add_namespace_not_taken an.namespace_slug with
    | error err => exact Or.inr ⟨Nat.succ_ne_zero _, rfl⟩
    | ok _ =>
      simp only
      cases slug_to_namespace_cadopath an.namespace_slug with
      | error err => exact Or.inr ⟨Nat.succ_ne_zero _, rfl⟩
      | ok path =>
        simp only
        by_cases hzero : fee = Coin.zero
        · rw [if_pos hzero]
          exact Or.inr ⟨Nat.succ_ne_zero _, rfl⟩
        · rw [if_neg hzero]
          rcases stageNamespace.spec o st e an fee with ⟨hcode, hcache⟩ | hrefused
          · exact Or.inl ⟨hcode, trivial, hcache⟩
          · exact Or.inr hrefused

theorem namespaces_setCoins (e : AppStateEnvelope) (p : Purse) (c : Coin) :
    (e.setCoins o st p c).namespace_registry_cache = e.namespace_registry_cache := by
  cases p <;> rfl

theorem namespaces_countedState (e : AppStateEnvelope) (vp : VerifiedProofTx) :
    (countedState pc e vp).namespace_registry_cache = e.namespace_registry_cache := by
  unfold countedState record_failed_capacity_proof
  simp only
  split <;> rfl

/-- A payload that registers no namespace stages none. -/
theorem Outcome.namespaces {tx : Tx} {r : ResponseDeliverTx} (h : Outcome o pc st e tx r e')
    (hnone : tx.registration = none) :
    e'.namespace_registry_cache = e.namespace_registry_cache := by
  cases h with
  | rejected => rfl
  | burnt => exact namespaces_setCoins e _ _
  | moved => exact (namespaces_setCoins _ _ _).trans (namespaces_setCoins e _ _)
  | registry => rfl
  | posted => rfl
  | namespaced code inner =>
    unfold Tx.registration at hnone
    rw [inner] at hnone
    cases hnone
  | counted => exact namespaces_countedState e _
  | rewarded => exact namespaces_setCoins e _ _

theorem owner_of_congr (hcache : e'.namespace_registry_cache = e.namespace_registry_cache)
    (hcommitted : e'.committed_cado_cache = e.committed_cado_cache) (slug : Text) :
    e'.owner_of slug = e.owner_of slug := by
  unfold AppStateEnvelope.owner_of AppStateEnvelope.namespace_of
  rw [hcache, hcommitted]

/-- What an event does to the owners: it registers a free slug, or it changes nothing. -/
def OwnersChange (registered : Option (Text × Address)) (e e' : AppStateEnvelope) : Prop :=
  match registered with
  | none => ∀ slug, e'.owner_of slug = e.owner_of slug
  | some (slug, owner) => e.owner_of slug = none ∧
      ∀ j, e'.owner_of j = if slug = j then some owner else e.owner_of j

theorem process_owners {tx : Tx} (hgood : Good o e st) :
    OwnersChange (if (tx.process o pc st e).1.code = 0 then tx.registration else none) e
      (tx.process o pc st e).2 := by
  have hout := process_outcome o pc st tx (addresses_match hgood)
  have hcommitted := hout.framed.committed_cado_cache
  rcases hregistration : tx.registration with _ | ⟨slug, owner⟩
  · rw [ite_self]
    exact owner_of_congr (hout.namespaces hregistration) hcommitted
  · unfold Tx.registration at hregistration
    cases hinner : tx.payload.inner with
    | AddNamespace an =>
      rw [hinner] at hregistration
      cases hregistration
      simp only [Tx.process, hinner] at hcommitted ⊢
      rcases process_add_namespace_tx.spec o st e an with ⟨hcode, hfree, hcache⟩ | ⟨hcode, hsame⟩
      · rw [if_pos hcode]
        have hnone : e.owner_of an.namespace_slug = none := by
          unfold AppStateEnvelope.owner_of
          rw [free_of_not_taken an.slug_canonical hfree]
          rfl
        refine ⟨hnone, ?_⟩
        intro j
        unfold AppStateEnvelope.owner_of AppStateEnvelope.namespace_of
        rw [hcache, hcommitted, finite_map.get_insert]
        split <;> rfl
      · rw [if_neg hcode, hsame]
        intro slug
        rfl
    | _ =>
      rw [hinner] at hregistration
      cases hregistration

/-! ## The events of a life -/

variable {n n' : Node} {r : Request}

theorem registered_of_refused {request : Except ResponseDeliverTx Tx}
    (h : ∀ tx s, request = .ok tx → admission o n.conn tx ≠ .ok s) :
    n.registered o pc (.DeliverTx request) = none := by
  cases request with
  | error r => rfl
  | ok tx =>
    have hcode := @code_of_refused o pc _ _ (fun s => h tx s rfl)
    unfold Node.registered
    simp only [if_neg hcode]

theorem endBlock_namespaces {s s' : AppState} {height : I64} {out : EndBlockOutcome}
    (h : endBlockState o pc s height = .ok (out, s')) (slug : Text) :
    s'.envelope.owner_of slug = s.envelope.owner_of slug := by
  obtain ⟨_, _, _, _, _, _, rfl⟩ := endBlockState.fields h
  rfl

/-- A commit turns the staged records into committed ones. -/
theorem Committed.owner_of (hc : Committed o pc e e') (hg : Good o e st) (slug : Text) :
    e'.owner_of slug = e.owner_of slug := by
  unfold AppStateEnvelope.owner_of AppStateEnvelope.namespace_of
  have hcleared : e'.namespace_registry_cache[slug]? = none := by
    rw [hc.namespace_registry_cache]
    simp
  rw [hcleared, Option.none_or, ← hc.namespaces_eq hg, hc.namespaces, hg.committed.namespaces]

theorem NodeStep.owners (h : NodeStep o pc n r n') (hg : NodeGood o n) :
    OwnersChange (n.registered o pc r) n.state.envelope n'.state.envelope := by
  cases h with
  | begun phase =>
    rw [state_of_idle phase]
    intro slug
    rfl
  | turned_away request phase refused =>
    rw [registered_of_refused refused]
    intro slug
    rfl
  | @delivered tx s phase admitted =>
    obtain ⟨hcharged, hgood, _⟩ := @NodeGood.of_admission o pc _ _ _ hg phase admitted
    have hsame : s.envelope.owner_of = n.state.envelope.owner_of := by
      obtain ⟨sender, rest, hcharged⟩ := hcharged
      rw [hcharged.staged]
      rfl
    have hprocess := @process_owners o pc _ _ tx hgood
    rw [← (@deliver_tx_inner.spec o pc _ _ _ admitted).1] at hprocess
    unfold OwnersChange at hprocess ⊢
    rw [hsame] at hprocess
    exact hprocess
  | ended phase grows current ends =>
    rw [(hg.of_current (by simp [phase]) current).1]
    exact endBlock_namespaces ends
  | committed phase current commits =>
    obtain ⟨hstate, hgood⟩ := hg.of_current (by simp [phase]) current
    rw [hstate]
    exact (commit_inner.spec current hgood commits).envelope.owner_of hgood
  | uploaded content_key blob =>
    intro slug
    rfl

/-- Only a commit writes the committed state. -/
theorem NodeStep.committed_same (h : NodeStep o pc n r n') (hr : r ≠ .Commit) :
    n'.conn.committed_state = n.conn.committed_state := by
  cases h with
  | committed => exact absurd rfl hr
  | _ => rfl

/-- Between blocks nothing is open. -/
theorem NodeStep.idle (h : NodeStep o pc n r n') (hr : r ≠ .Commit) (hidle : n'.phase = .idle) :
    n.phase = .idle ∧ n.registered o pc r = none := by
  cases h with
  | committed => exact absurd rfl hr
  | uploaded => exact ⟨hidle, rfl⟩
  | turned_away request phase refused => exact ⟨hidle, registered_of_refused refused⟩
  | _ => cases hidle

/-! ## Over a life -/

structure NamespaceNode.Good (o : Outside) (pc : ProtocolConstants) (cfg : GenesisConfig)
    (n : NamespaceNode) : Prop where
  alive : Alive o pc cfg n.node
  closed : n.node.phase = .idle → n.opened = []
  working : finite_map.Lists (n.committed ++ n.opened) n.node.state.envelope.owner_of
  committed : finite_map.Lists n.committed n.node.conn.committed_state.envelope.owner_of

theorem OwnersChange.lists {registered : Option (Text × Address)} {l : List (Text × Address)}
    (hl : finite_map.Lists l e.owner_of) (h : OwnersChange registered e e') :
    finite_map.Lists (l ++ registered.toList) e'.owner_of := by
  cases registered with
  | none =>
    rw [Option.toList_none, List.append_nil]
    exact hl.congr h
  | some p =>
    obtain ⟨hfree, hadded⟩ := h
    exact hl.add hfree hadded

theorem NamespaceNode.genesis_good (o : Outside) (pc : ProtocolConstants) (cfg : GenesisConfig) :
    (NamespaceNode.genesis o pc cfg).Good o pc cfg := by
  have hnone : ∀ slug, (eld_chain.genesis o pc cfg).conn.committed_state.envelope.owner_of slug =
      none := by
    obtain ⟨selected, cache, _, heq⟩ := genesis.spec o pc cfg
    intro slug
    rw [heq]
    rfl
  have hlists : finite_map.Lists []
      (eld_chain.genesis o pc cfg).conn.committed_state.envelope.owner_of := by
    refine ⟨List.nodup_nil, ?_⟩
    intro slug owner
    rw [hnone]
    simp
  exact ⟨genesis_alive o pc cfg, fun _ => rfl, hlists, hlists⟩

variable {m : NamespaceNode} {event : LifeEvent}

theorem NamespaceNode.Good.next {n n' : NamespaceNode} (h : n.Good o pc cfg)
    (hlive : n.live o pc cfg event = some n') : n'.Good o pc cfg := by
  unfold NamespaceNode.live at hlive
  cases hnode : n.node.live o pc cfg event with
  | none =>
    rw [hnode] at hlive
    cases hlive
  | some node =>
    rw [hnode] at hlive
    have halive := h.alive.next hnode
    rcases live.spec h.alive hnode with ⟨r, rfl, hstep⟩ | ⟨rfl, hidle, _, _, hstate⟩ | ⟨rfl, rfl⟩
    · have howners := hstep.owners h.alive.good
      by_cases hr : r = .Commit
      · subst hr
        cases hlive
        have hworking := howners.lists h.working
        rw [show n.node.registered o pc .Commit = none from rfl, Option.toList_none,
          List.append_nil] at hworking
        cases hstep with
        | committed phase current commits =>
          refine ⟨halive, fun _ => rfl, ?_, hworking⟩
          rw [List.append_nil]
          exact hworking
      · have hn' : n' = ⟨node, n.committed, n.opened ++ (n.node.registered o pc r).toList⟩ := by
          cases r with
          | Commit => exact absurd rfl hr
          | _ => exact (Option.some.inj hlive).symm
        subst hn'
        refine ⟨halive, ?_, ?_, ?_⟩
        · intro hidle
          obtain ⟨hbefore, hnone⟩ := hstep.idle hr hidle
          rw [hnone, h.closed hbefore]
          rfl
        · rw [← List.append_assoc]
          exact howners.lists h.working
        · rw [hstep.committed_same hr]
          exact h.committed
    · cases hlive
      have hsame : finite_map.Lists n.committed node.conn.committed_state.envelope.owner_of := by
        rcases hstate with heq | ⟨heq, _⟩
        · rw [heq]
          exact h.committed
        · rw [heq]
          exact h.committed
      refine ⟨halive, fun _ => rfl, ?_, hsame⟩
      rw [List.append_nil, state_of_idle hidle]
      exact hsame
    · cases hlive
      exact ⟨halive, h.closed, h.working, h.committed⟩

theorem good_of_life {events : List LifeEvent}
    (hrun : runs.run (NamespaceNode.live o pc cfg) events (NamespaceNode.genesis o pc cfg) = some m) :
    m.Good o pc cfg :=
  runs.run_invariant (NamespaceNode.live o pc cfg) (NamespaceNode.Good o pc cfg)
    (fun _ _ _ h hlive => h.next hlive) (NamespaceNode.genesis_good o pc cfg) hrun

theorem NamespaceNode.Good.unique {n : NamespaceNode} (h : n.Good o pc cfg) : n.Unique := by
  have hworking := h.alive.good.working
  have hcommitted := h.alive.good.committed
  have hcanonical : ∀ p ∈ n.committed ++ n.opened, CanonicalSlug p.1 := by
    intro p hp
    obtain ⟨record, hrecord, _⟩ := Option.map_eq_some_iff.mp ((h.working.mem_iff p.1 p.2).mp hp)
    exact canonical_of_record hworking hrecord
  refine ⟨?_, ?_, ?_⟩
  · have hnodup := List.pairwise_map.mp h.working.nodup
    refine hnodup.imp_of_mem ?_
    intro p q hp hq hne hsame
    exact hne ((sameSlug_iff (hcanonical p hp) (hcanonical q hq)).mp hsame)
  · intro p hp
    exact ownedBy_of_owner hworking ((h.working.mem_iff p.1 p.2).mp hp)
  · intro p hp
    exact ownedBy_of_owner hcommitted ((h.committed.mem_iff p.1 p.2).mp hp)

/-- What was registered in a committed block stays registered. -/
theorem committed_grows {events : List LifeEvent} {n : NamespaceNode}
    (hrun : runs.run (NamespaceNode.live o pc cfg) events m = some n) :
    ∀ p ∈ m.committed, p ∈ n.committed := by
  refine runs.run_invariant (NamespaceNode.live o pc cfg)
    (fun n => ∀ p ∈ m.committed, p ∈ n.committed) ?_ (fun _ hp => hp) hrun
  intro n event n' hkept hlive p hp
  unfold NamespaceNode.live at hlive
  split at hlive
  · cases hlive
  · split at hlive
    · cases hlive
      exact List.mem_append_left _ (hkept p hp)
    all_goals
      cases hlive
      exact hkept p hp

/-- What was registered in the open block stays registered unless the node restarts. -/
theorem registered_grows {events : List LifeEvent} {n : NamespaceNode}
    (hrun : runs.run (NamespaceNode.live o pc cfg) events m = some n)
    (hlasts : ∀ event ∈ events, event ≠ .restart) :
    ∀ p ∈ m.committed ++ m.opened, p ∈ n.committed ++ n.opened := by
  induction events generalizing m with
  | nil =>
    cases hrun
    exact fun _ hp => hp
  | cons event events ih =>
    obtain ⟨m', hlive, hrest⟩ := Option.bind_eq_some_iff.mp hrun
    intro p hp
    refine ih hrest (fun e he => hlasts e (List.mem_cons_of_mem _ he)) p ?_
    unfold NamespaceNode.live at hlive
    split at hlive
    · cases hlive
    · split at hlive
      · cases hlive
        rw [List.append_nil]
        exact hp
      · cases hlive
        rw [← List.append_assoc]
        exact List.mem_append_left _ hp
      · exact absurd rfl (hlasts _ List.mem_cons_self)
      · cases hlive
        exact hp

/-- Over a life with restarts and rebuilds a slug is registered once at most, and whatever
spelling of it is looked up later resolves to the address that registered it. -/
theorem namespaces_are_owned_once (o : Outside) (pc : ProtocolConstants) (cfg : GenesisConfig)
    (earlier later : List LifeEvent) (m n : NamespaceNode)
    (hm : runs.run (NamespaceNode.live o pc cfg) earlier (NamespaceNode.genesis o pc cfg) = some m)
    (hn : runs.run (NamespaceNode.live o pc cfg) later m = some n) :
    n.Unique ∧
    (∀ p ∈ m.committed, n.node.state.envelope.OwnedBy p.1 p.2 ∧
      n.node.conn.committed_state.envelope.OwnedBy p.1 p.2) ∧
    ((∀ event ∈ later, event ≠ .restart) →
      ∀ p ∈ m.opened, n.node.state.envelope.OwnedBy p.1 p.2) := by
  have hrun : runs.run (NamespaceNode.live o pc cfg) (earlier ++ later)
      (NamespaceNode.genesis o pc cfg) = some n := by
    rw [runs.run_append, hm]
    exact hn
  have hunique := (good_of_life hrun).unique
  refine ⟨hunique, ?_, ?_⟩
  · intro p hp
    have hkept := committed_grows hn p hp
    exact ⟨hunique.working p (List.mem_append_left _ hkept), hunique.committed p hkept⟩
  · intro hlasts p hp
    exact hunique.working p (registered_grows hn hlasts p (List.mem_append_right _ hp))

/-- Alice registers a namespace and stakes in the second block. -/
def namespaceLife : List LifeEvent := (stakingBlocks ++ [Request.Commit]).map LifeEvent.call

/-- The node restarts after that block. -/
theorem namespaces_are_owned_once_on_stakingBlocks :
    ∃ m n, runs.run (NamespaceNode.live Outside.toy smallConstants smallConfig) namespaceLife
        (NamespaceNode.genesis Outside.toy smallConstants smallConfig) = some m ∧
      runs.run (NamespaceNode.live Outside.toy smallConstants smallConfig)
        [.restart, .rebuild, .call .BeginBlock] m = some n ∧
      m.committed = [("shop".toList, alice)] ∧
      n.node.state.envelope.OwnedBy "shop".toList alice := by
  have heval : (runs.run (NamespaceNode.live Outside.toy smallConstants smallConfig) namespaceLife
      (NamespaceNode.genesis Outside.toy smallConstants smallConfig)).any (fun m =>
        decide (m.committed = [("shop".toList, alice)]) &&
        (runs.run (NamespaceNode.live Outside.toy smallConstants smallConfig)
          [.restart, .rebuild, .call .BeginBlock] m).isSome) = true := by decide +kernel
  obtain ⟨m, hm, hchecks⟩ := (Option.any_eq_true _ _).mp heval
  obtain ⟨hregistered, hlives⟩ := Bool.and_eq_true_iff.mp hchecks
  have hregistered := of_decide_eq_true hregistered
  obtain ⟨n, hn⟩ := Option.isSome_iff_exists.mp hlives
  refine ⟨m, n, hm, hn, hregistered, ?_⟩
  refine ((namespaces_are_owned_once Outside.toy smallConstants smallConfig _ _ m n hm hn).2.1
    ("shop".toList, alice) ?_).1
  rw [hregistered]
  exact List.mem_singleton.mpr rfl

end eld_chain
