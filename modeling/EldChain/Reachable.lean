-- Every reachable node is good: genesis is, and each call keeps it so.
-- The calls of a node are said once, as the cases of `NodeStep`.
import EldChain.CommitLaws

open Std

namespace eld_chain

variable {o : Outside} {pc : ProtocolConstants} {e e' : AppStateEnvelope} {st st' : Storage}

/-! ## A commit keeps the state good -/

/-- The objects of the storage layer: a tip, or the snapshot of an epoch boundary. -/
inductive InfraKind (o : Outside) (pc : ProtocolConstants) :
    CadoPath → CadoBody StoredData → Prop
  | tip (name : Bytes32) (t : AppStateTip) : InfraKind o pc (.app_state_tip name) (t.to_cado o)
  | snapshot (sn : AppStateSnapshot)
      (boundary : sn.block_height.val % pc.blocks_per_epoch.val = 0) :
      InfraKind o pc (AppStateSnapshot.latest_path o) (sn.to_cado o)

/-- The objects that a commit puts: those of the chain state, and those of the storage layer. -/
def CommitKind (o : Outside) (pc : ProtocolConstants) (e : AppStateEnvelope) (p : CadoPath)
    (body : CadoBody StoredData) : Prop := ChainKind o e p body ∨ InfraKind o pc p body

theorem InfraKind.is_infrastructure {p : CadoPath} {body : CadoBody StoredData}
    (h : InfraKind o pc p body) : p.is_infrastructure = true := by
  cases h <;> rfl

/-- The paths of the storage layer that a commit writes to. -/
def InfraPath (o : Outside) (tip : AppStateTip) (p : CadoPath) : Prop :=
  p = .app_state_tip (tip.to_cado o).hash_bytes ∨ p = .app_state_tip LATEST ∨
    p = AppStateSnapshot.latest_path o

theorem storeTip_writes {tip : AppStateTip} (h : storeTip o st tip = .ok st') :
    ∃ l, (∀ q ∈ l, InfraKind o pc q.1 q.2 ∧ InfraPath o tip q.1) ∧ Writes o l st st' := by
  unfold storeTip at h
  simp only at h
  split at h
  · cases h
  · rename_i tx₁ hput
    refine ⟨[(.app_state_tip (tip.to_cado o).hash_bytes, tip.to_cado o),
      (.app_state_tip LATEST, tip.to_cado o)], ?_, .put hput (.put h .done)⟩
    intro q hq
    simp only [List.mem_cons, List.not_mem_nil, or_false] at hq
    rcases hq with rfl | rfl
    · exact ⟨.tip _ tip, Or.inl rfl⟩
    · exact ⟨.tip _ tip, Or.inr (Or.inl rfl)⟩

theorem storeTip_puts {tip : AppStateTip} (h : storeTip o st tip = .ok st') :
    Puts o (InfraKind o pc) st st' := by
  obtain ⟨l, hl, hwrites⟩ := storeTip_writes h
  exact hwrites.puts (fun q hq => (hl q hq).1)

/-- A snapshot is of the height of its state. -/
theorem snapshot_height {s : AppState} {sn : AppStateSnapshot}
    (h : AppStateSnapshot.new s = .ok sn) : sn.block_height = s.envelope.block_height := by
  unfold AppStateSnapshot.new at h
  split at h
  · cases h
  · cases h
    rfl

theorem storeSnapshot_writes {s : AppState} (tip : AppStateTip)
    (h : storeSnapshot o pc st s = .ok st') :
    ∃ l, (∀ q ∈ l, InfraKind o pc q.1 q.2 ∧ InfraPath o tip q.1) ∧ Writes o l st st' := by
  unfold storeSnapshot at h
  split at h
  · rename_i hboundary
    split at h
    · cases h
    · rename_i sn hnew
      refine ⟨[(AppStateSnapshot.latest_path o, sn.to_cado o)], ?_, .put h .done⟩
      intro q hq
      rw [List.mem_singleton.mp hq]
      exact ⟨.snapshot sn (by rw [snapshot_height hnew]; exact hboundary), Or.inr (Or.inr rfl)⟩
  · cases h
    exact ⟨[], by simp, .done⟩

theorem storeSnapshot_puts {s : AppState} (h : storeSnapshot o pc st s = .ok st') :
    Puts o (InfraKind o pc) st st' := by
  obtain ⟨l, hl, hwrites⟩ := storeSnapshot_writes (AppStateTip.genesis o) h
  exact hwrites.puts (fun q hq => (hl q hq).1)

theorem CommitStep.puts {s : AppState} {c c' : ConsensusConnection} (h : CommitStep o pc s c c') :
    Puts o (CommitKind o pc s.envelope) c.storage c'.storage := by
  obtain ⟨app_hash, tx, tx₁, _, hputs, htip, hsnap⟩ := h.storage
  exact ((hputs.mono (fun _ _ => Or.inl)).trans ((storeTip_puts htip).mono (fun _ _ => Or.inr))).trans
    ((storeSnapshot_puts hsnap).mono (fun _ _ => Or.inr))

theorem stagedNamespace_object (h : GoodStaged o e) {p : CadoPath} {b : CadoBody CadoData}
    (hp : e.stagedNamespace o p = some b) : ObjectAt o p b := by
  match p, hp with
  | .namespace_registry slug, hp =>
    obtain ⟨r, hr, rfl⟩ := Option.map_eq_some_iff.mp hp
    exact .namespace_registry slug r (h.slugs slug r hr)

/-- The object that a commit leaves at a path: the staged one, the registered one, or the one
that was there. -/
def AppStateEnvelope.object (o : Outside) (e : AppStateEnvelope) (p : CadoPath) :
    Option (CadoBody CadoData) :=
  e.cado_cache[p]?.or ((e.stagedNamespace o p).or e.committed_cado_cache[p]?)

theorem Good.object (hg : Good o e st) {p : CadoPath} {b : CadoBody CadoData}
    (hp : e.object o p = some b) : ObjectAt o p b := by
  rcases Option.or_eq_some_iff.mp hp with hp | ⟨_, hp⟩
  · exact (hg.staged.objects p b hp).1
  · rcases Option.or_eq_some_iff.mp hp with hp | ⟨_, hp⟩
    · exact stagedNamespace_object hg.staged hp
    · exact hg.committed.objects p b hp

theorem Committed.object (hc : Committed o pc e e') (hg : Good o e st) {p : CadoPath}
    {b : CadoBody CadoData} (hp : e'.committed_cado_cache[p]? = some b) : ObjectAt o p b :=
  hg.object ((hc.objects p).symm.trans hp)

/-- A path holds a committed object when it was staged, registered or committed before. -/
theorem Committed.isSome_iff (hc : Committed o pc e e') (p : CadoPath) :
    e'.committed_cado_cache[p]?.isSome = true ↔ e.cado_cache[p]?.isSome = true ∨
      (e.stagedNamespace o p).isSome = true ∨ e.committed_cado_cache[p]?.isSome = true := by
  rw [hc.objects, Option.isSome_or, Option.isSome_or, Bool.or_eq_true, Bool.or_eq_true]

theorem Committed.epochs_iff (hc : Committed o pc e e') (hg : Good o e st) (epoch : I64) :
    epoch ∈ e'.epoch_records_index ↔ ∃ p : CadoPath,
      e'.committed_cado_cache[p]?.isSome = true ∧ epoch_number_from_record_path p = some epoch := by
  rw [hc.epochs, hg.committed.epochs]
  constructor
  · rintro (⟨p, hp, hn⟩ | ⟨p, hp, hn⟩)
    · exact ⟨p, (hc.isSome_iff p).mpr (Or.inr (Or.inr hp)), hn⟩
    · exact ⟨p, (hc.isSome_iff p).mpr (Or.inl hp), hn⟩
  · rintro ⟨p, hp, hn⟩
    rcases (hc.isSome_iff p).mp hp with hp | hp | hp
    · exact Or.inr ⟨p, hp, hn⟩
    · -- a registry path is no epoch record
      cases p <;> first | cases hp | cases hn
    · exact Or.inl ⟨p, hp, hn⟩

theorem Committed.namespaces_eq (hc : Committed o pc e e') (hg : Good o e st) (slug : Text) :
    e'.namespace_registry_index[slug]? =
      e'.committed_cado_cache[CadoPath.namespace_registry slug]?.bind
        CadoBody.namespace_record? := by
  rw [hc.namespaces, hc.objects, hg.staged.registry_unstaged, Option.none_or, hg.committed.namespaces,
    AppStateEnvelope.stagedNamespace]
  rcases e.namespace_registry_cache[slug]? with _ | r <;> rfl

theorem Committed.good (hc : Committed o pc e e') (hg : Good o e st)
    (hputs : Puts o (CommitKind o pc e) st st') : Good o e' st' where
  staged := {
    objects := by rw [hc.cado_cache]; simp
    slugs := by rw [hc.namespace_registry_cache]; simp
    no_deletes := hc.cado_cache_to_delete
    registered := by rw [hc.capacity_validators]; exact hg.staged.registered }
  committed := {
    objects := fun p b hp => hc.object hg hp
    indexed := by
      intro p hp hi
      rw [hc.isSome_iff]
      rcases hputs.indexed p hi with hi | ⟨body, (⟨b, hb, _⟩ | ⟨b, hb, _⟩) | hinfra⟩
      · exact Or.inr (Or.inr (hg.committed.indexed p hp hi))
      · exact Or.inl (by rw [hb]; rfl)
      · exact Or.inr (Or.inl (by rw [hb]; rfl))
      · rw [hinfra.is_infrastructure] at hp
        cases hp
    epochs := fun epoch => hc.epochs_iff hg epoch
    namespaces := fun slug => hc.namespaces_eq hg slug }

/-! ## The calls of a node -/

/-- What a call can do to a node. -/
inductive NodeStep (o : Outside) (pc : ProtocolConstants) (n : Node) : Request → Node → Prop
  | begun (phase : n.phase = .idle) :
      NodeStep o pc n .BeginBlock ⟨.delivering, begin_block_inner n.conn⟩
  | turned_away (request : Except ResponseDeliverTx Tx) (phase : n.phase = .delivering)
      (refused : ∀ tx s, request = .ok tx → admission o n.conn tx ≠ .ok s) :
      NodeStep o pc n (.DeliverTx request) n
  | delivered {tx : Tx} {s : AppState} (phase : n.phase = .delivering)
      (admitted : admission o n.conn tx = .ok s) :
      NodeStep o pc n (.DeliverTx (.ok tx)) ⟨.delivering, { n.conn with
        current_state := some { s with
          envelope := (tx.process o pc n.conn.storage s.envelope).2 } }⟩
  | ended {height : I64} {s s' : AppState} {out : EndBlockOutcome} (phase : n.phase = .delivering)
      (grows : n.conn.committed_state.envelope.block_height.val < height.val)
      (current : n.conn.current_state = some s)
      (ends : endBlockState o pc s height = .ok (out, s')) :
      NodeStep o pc n (.EndBlock height) ⟨.ended, { n.conn with current_state := some s' }⟩
  | committed {s : AppState} {c' : ConsensusConnection} (phase : n.phase = .ended)
      (current : n.conn.current_state = some s) (commits : commit_inner o pc n.conn = .ok c') :
      NodeStep o pc n .Commit ⟨.idle, c'⟩
  | uploaded (content_key : Text) (blob : Bytes) :
      NodeStep o pc n (.UploadBlob content_key blob) ⟨n.phase, { n.conn with
        storage := { n.conn.storage with pinboard_temp_blobs :=
          n.conn.storage.pinboard_temp_blobs.insert content_key blob } }⟩

theorem step_cases {n n' : Node} {r : Request} (h : n.step o pc r = some n') :
    NodeStep o pc n r n' := by
  cases r with
  | BeginBlock =>
    simp only [Node.step] at h
    split at h
    · cases h; exact .begun ‹_›
    · cases h
  | DeliverTx request =>
    simp only [Node.step] at h
    split at h
    · rename_i hphase
      cases h
      rcases hreq : request with r | tx
      · have hn : (⟨.delivering, n.conn⟩ : Node) = n := by rw [← hphase]
        have hc : (deliver_tx_inner o pc n.conn (.error r)).2 = n.conn := rfl
        rw [hc, hn]
        exact .turned_away _ hphase (fun _ _ hok => by cases hok)
      · rcases hadmitted : admission o n.conn tx with r | s
        · have hn : (⟨.delivering, n.conn⟩ : Node) = n := by rw [← hphase]
          have hc : (deliver_tx_inner o pc n.conn (.ok tx)).2 = n.conn := by
            simp only [deliver_tx_inner, hadmitted]
          rw [hc, hn]
          refine .turned_away _ hphase (fun tx' s hok => ?_)
          cases hok
          rw [hadmitted]
          simp
        · rw [(@deliver_tx_inner.spec o pc _ _ _ hadmitted).2]
          exact .delivered hphase hadmitted
    · cases h
  | EndBlock height =>
    simp only [Node.step] at h
    split at h
    · rename_i hguard
      rcases hs : n.conn.current_state with _ | s
      · simp [end_block_inner, hs] at h
      · rcases hend : endBlockState o pc s height with err | ⟨out, s'⟩
        · simp [end_block_inner, hs, hend] at h
        · simp only [end_block_inner, hs, hend, Option.some.injEq] at h
          subst h
          have := NodeStep.ended (o := o) (n := n) hguard.1 hguard.2 hs hend
          exact this
    · cases h
  | Commit =>
    simp only [Node.step] at h
    split at h
    · rename_i hphase
      rcases hcommit : commit_inner o pc n.conn with err | c'
      · rw [hcommit] at h; cases h
      · rw [hcommit] at h
        cases h
        rcases hs : n.conn.current_state with _ | s
        · simp [commit_inner, hs] at hcommit
        · exact .committed hphase hs hcommit
    · cases h
  | UploadBlob content_key blob =>
    cases h
    exact .uploaded content_key blob

/-! ## Every reachable node is good -/

structure NodeGood (o : Outside) (n : Node) : Prop where
  committed : Good o n.conn.committed_state.envelope n.conn.storage
  current : n.phase ≠ .idle → ∃ s, n.conn.current_state = some s ∧
    Good o s.envelope n.conn.storage

theorem state_of_idle {n : Node} (hphase : n.phase = .idle) : n.state = n.conn.committed_state := by
  unfold Node.state
  rw [hphase]

theorem state_of_current {n : Node} {s : AppState} (hphase : n.phase ≠ .idle)
    (h : n.conn.current_state = some s) : n.state = s := by
  unfold Node.state
  rw [h]
  split
  · exact absurd ‹_› hphase
  · rfl

/-- The working state is good too. -/
theorem NodeGood.working {n : Node} (h : NodeGood o n) :
    Good o n.state.envelope n.conn.storage := by
  by_cases hphase : n.phase = .idle
  · rw [state_of_idle hphase]
    exact h.committed
  · obtain ⟨s, hs, hgood⟩ := h.current hphase
    rw [state_of_current hphase hs]
    exact hgood

/-- The open state is the working one, and it is good. -/
theorem NodeGood.of_current {n : Node} {s : AppState} (h : NodeGood o n) (hphase : n.phase ≠ .idle)
    (hs : n.conn.current_state = some s) : n.state = s ∧ Good o s.envelope n.conn.storage := by
  refine ⟨state_of_current hphase hs, ?_⟩
  obtain ⟨s₀, hs₀, hgood⟩ := h.current hphase
  rw [hs] at hs₀
  cases hs₀
  exact hgood

/-- An admitted transaction charges its sender on the working state, and its payload then has
one of the outcomes. -/
theorem NodeGood.of_admission {n : Node} {tx : Tx} {s : AppState} (h : NodeGood o n)
    (hphase : n.phase = .delivering) (hs : admission o n.conn tx = .ok s) :
    Charged o n.conn.storage n.state.envelope tx s.envelope ∧ Good o s.envelope n.conn.storage ∧
      Outcome o pc n.conn.storage s.envelope tx (tx.process o pc n.conn.storage s.envelope).1
        (tx.process o pc n.conn.storage s.envelope).2 := by
  obtain ⟨s₀, hs₀, _, _, hcharged, _⟩ := admission.spec hs
  obtain ⟨hstate, hgood₀⟩ := h.of_current (by simp [hphase]) hs₀
  have hgood := hcharged.good hgood₀
  rw [hstate]
  exact ⟨hcharged, hgood, process_outcome o pc n.conn.storage tx (addresses_match hgood)⟩

/-- Uploading a blob changes nothing that an invariant reads. -/
theorem Good.of_aside (h : Good o e st) (hi : st'.path_index = st.path_index) : Good o e st' :=
  ⟨h.staged, h.committed.objects, by rw [hi]; exact h.committed.indexed,
    h.committed.epochs, h.committed.namespaces⟩

theorem NodeStep.good {n n' : Node} {r : Request} (h : NodeStep o pc n r n')
    (hg : NodeGood o n) : NodeGood o n' := by
  cases h with
  | begun => exact ⟨hg.committed, fun _ => ⟨_, rfl, hg.committed⟩⟩
  | turned_away => exact hg
  | @delivered tx s phase admitted =>
    obtain ⟨_, hgood, hout⟩ := @NodeGood.of_admission o pc _ _ _ hg phase admitted
    exact ⟨hg.committed, fun _ => ⟨_, rfl, hout.good hgood⟩⟩
  | @ended height s s' out phase grows current ends =>
    obtain ⟨_, hgood⟩ := hg.of_current (by simp [phase]) current
    exact ⟨hg.committed, fun _ => ⟨_, rfl, endBlock_good ends hgood⟩⟩
  | @committed s c' phase current commits =>
    obtain ⟨_, hgood⟩ := hg.of_current (by simp [phase]) current
    have hstep := commit_inner.spec current hgood commits
    exact ⟨hstep.envelope.good hgood hstep.puts, fun hidle => absurd rfl hidle⟩
  | uploaded =>
    refine ⟨hg.committed.of_aside rfl, fun hphase => ?_⟩
    obtain ⟨s, hs, hgood⟩ := hg.current hphase
    exact ⟨s, hs, hgood.of_aside rfl⟩

theorem stage_genesis {a : Address} (h : GoodStaged o e) (acc : Account) (ha : acc.address = a) :
    GoodStaged o (e.update_cado_cache (.account a) (genesis_account_cado o acc)) := by
  subst ha
  exact h.stage (.account _ _ _ acc rfl) rfl

/-- The committed part of a state that has committed nothing yet. -/
structure Empty (e : AppStateEnvelope) : Prop where
  committed_cado_cache : e.committed_cado_cache = ∅
  state_trie : e.state_trie = .empty
  epoch_records_index : e.epoch_records_index = ∅
  namespace_registry_index : e.namespace_registry_index = ∅

theorem Empty.good (h : Empty e) : GoodCommitted o e Storage.empty where
  objects := by rw [h.committed_cado_cache]; simp
  indexed := by simp [Storage.empty]
  epochs := by rw [h.epoch_records_index, h.committed_cado_cache]; simp
  namespaces := by rw [h.namespace_registry_index, h.committed_cado_cache]; simp

/-- A fold keeps what each of its steps keeps. -/
theorem foldl_keeps {α β : Type} {P : β → Prop} {f : β → α → β} (hf : ∀ b a, P b → P (f b a))
    (l : List α) {b : β} (hb : P b) : P (l.foldl f b) := by
  induction l generalizing b with
  | nil => exact hb
  | cons a l ih => exact ih (hf b a hb)

theorem fresh_start_good (o : Outside) (cfg : GenesisConfig) :
    GoodStaged o (fresh_start o cfg).envelope ∧ Empty (fresh_start o cfg).envelope := by
  unfold fresh_start
  refine foldl_keeps (P := fun e => GoodStaged o e ∧ Empty e) ?_ _ ?_
  · rintro e p ⟨hs, he⟩
    exact ⟨stage_genesis hs p.2 rfl, he.1, he.2, he.3, he.4⟩
  · refine ⟨⟨?_, ?_, rfl, ?_⟩, rfl, rfl, rfl, rfl⟩ <;> simp [AppStateEnvelope.default]

theorem initValidator_good {acc : List ValidatorInfo × AppStateEnvelope} (v : GenesisValidator)
    (h : GoodStaged o acc.2 ∧ Empty acc.2) :
    GoodStaged o (initValidator o acc v).2 ∧ Empty (initValidator o acc v).2 := by
  unfold initValidator
  split
  · exact h
  · split
    · exact h
    · split
      · exact h
      · split
        · exact h
        · simp only
          split
          · exact h
          · exact ⟨stage_genesis h.1 _ rfl, h.2.1, h.2.2, h.2.3, h.2.4⟩

theorem genesis_good (o : Outside) (pc : ProtocolConstants) (cfg : GenesisConfig) :
    NodeGood o (genesis o pc cfg) := by
  refine ⟨?_, fun hidle => absurd rfl hidle⟩
  have h := foldl_keeps (P := fun acc : List ValidatorInfo × AppStateEnvelope =>
    GoodStaged o acc.2 ∧ Empty acc.2) (f := initValidator o)
    (fun acc v => initValidator_good v) cfg.validators (b := ([], (fresh_start o cfg).envelope))
    (fresh_start_good o cfg)
  simp only [genesis, init_chain_inner]
  obtain ⟨selected, hsel⟩ := select_active.spec o pc
    { fresh_start o cfg with
      envelope := { (cfg.validators.foldl (initValidator o) ([], (fresh_start o cfg).envelope)).2 with
        validators :=
          (cfg.validators.foldl (initValidator o) ([], (fresh_start o cfg).envelope)).1
        active_validators := (sortedValidators (cfg.validators.foldl (initValidator o)
          ([], (fresh_start o cfg).envelope)).1).take pc.validators_per_epoch } } I64.zero
  rw [hsel]
  exact ⟨⟨h.1.objects, h.1.slugs, h.1.no_deletes, h.1.registered⟩,
    Empty.good ⟨h.2.1, h.2.2, h.2.3, h.2.4⟩⟩

/-- A state in which nothing is set but the validators and some staged accounts. -/
def Initial (validators active : List ValidatorInfo) (selected : Option ActiveCapacityValidator)
    (e : AppStateEnvelope) : Prop :=
  ∃ cache : CadoCache, (∀ p : CadoPath, cache[p]?.isSome = true → ∃ a, p = .account a) ∧
    e = { AppStateEnvelope.default with
      cado_cache := cache
      validators := validators
      active_validators := active
      active_capacity_validator := selected }

theorem Initial.stage_account {vs active : List ValidatorInfo}
    {selected : Option ActiveCapacityValidator} (h : Initial vs active selected e) (a : Address)
    (b : CadoBody CadoData) : Initial vs active selected (e.update_cado_cache (.account a) b) := by
  obtain ⟨cache, hcache, rfl⟩ := h
  refine ⟨cache.insert (.account a) b, fun p hp => ?_, rfl⟩
  rw [finite_map.get_insert] at hp
  split at hp
  · rename_i heq
    exact ⟨a, heq.symm⟩
  · exact hcache p hp

/-- The validators of a genesis configuration. -/
def genesisValidators (o : Outside) (cfg : GenesisConfig) : List ValidatorInfo :=
  (cfg.validators.foldl (initValidator o) ([], (fresh_start o cfg).envelope)).1

/-- The state that a chain starts from. -/
theorem genesis.spec (o : Outside) (pc : ProtocolConstants) (cfg : GenesisConfig) :
    ∃ selected, Initial (genesisValidators o cfg)
      ((sortedValidators (genesisValidators o cfg)).take pc.validators_per_epoch) selected
      (genesis o pc cfg).conn.committed_state.envelope := by
  have hfresh : Initial [] [] none (fresh_start o cfg).envelope := by
    unfold fresh_start
    refine foldl_keeps (P := Initial [] [] none) (fun e p h => h.stage_account _ _) _ ?_
    exact ⟨∅, fun p hp => by simp at hp, rfl⟩
  have hvalidators : Initial [] [] none
      (cfg.validators.foldl (initValidator o) ([], (fresh_start o cfg).envelope)).2 := by
    refine foldl_keeps (P := fun acc : List ValidatorInfo × AppStateEnvelope =>
      Initial [] [] none acc.2) (fun acc v h => ?_) _ hfresh
    unfold initValidator
    repeat' split
    any_goals exact h
    simp only
    split
    · exact h
    · exact h.stage_account _ _
  obtain ⟨cache, hcache, heq⟩ := hvalidators
  simp only [genesis, init_chain_inner]
  obtain ⟨selected, hsel⟩ := select_active.spec o pc
    { fresh_start o cfg with
      envelope := { (cfg.validators.foldl (initValidator o) ([], (fresh_start o cfg).envelope)).2 with
        validators := genesisValidators o cfg
        active_validators := (sortedValidators (genesisValidators o cfg)).take
          pc.validators_per_epoch } } I64.zero
  refine ⟨selected, cache, hcache, ?_⟩
  rw [show (cfg.validators.foldl (initValidator o) ([], (fresh_start o cfg).envelope)).1 =
    genesisValidators o cfg from rfl, hsel, heq]

theorem RunsTo.step {cfg : GenesisConfig} {requests : List Request} {n n' : Node} {r : Request}
    (h : RunsTo o pc cfg requests n) (hs : n.step o pc r = some n') :
    RunsTo o pc cfg (requests ++ [r]) n' := by
  rw [RunsTo, runs.run_snoc, h]
  exact hs

theorem Reachable.step {cfg : GenesisConfig} {n n' : Node} {r : Request}
    (h : Reachable o pc cfg n) (hs : n.step o pc r = some n') : Reachable o pc cfg n' := by
  obtain ⟨requests, hrun⟩ := h
  exact ⟨requests ++ [r], hrun.step hs⟩

theorem reachable_good {cfg : GenesisConfig} {n : Node} (h : Reachable o pc cfg n) :
    NodeGood o n := by
  obtain ⟨requests, hrun⟩ := h
  exact runs.run_invariant _ (NodeGood o) (fun _ _ _ hg hs => (step_cases hs).good hg)
    (genesis_good o pc cfg) hrun

theorem RunsTo.good {cfg : GenesisConfig} {requests : List Request} {n : Node}
    (h : RunsTo o pc cfg requests n) : NodeGood o n := reachable_good ⟨requests, h⟩

/-- A run that ends with a commit committed the open state of the node before it. -/
theorem commit_of_run {cfg : GenesisConfig} {requests : List Request} {n : Node}
    (hrun : RunsTo o pc cfg (requests ++ [.Commit]) n) :
    ∃ m s, RunsTo o pc cfg requests m ∧ m.phase = .ended ∧ m.conn.current_state = some s ∧
      Good o s.envelope m.conn.storage ∧ CommitStep o pc s m.conn n.conn ∧ n.phase = .idle := by
  unfold RunsTo at hrun
  rw [runs.run_snoc] at hrun
  obtain ⟨m, hm, hs⟩ := Option.bind_eq_some_iff.mp hrun
  cases step_cases hs with
  | @committed s c' phase current commits =>
    obtain ⟨_, hgood⟩ :=
      (reachable_good ⟨requests, hm⟩).of_current (by simp [phase]) current
    exact ⟨m, s, hm, phase, current, hgood, commit_inner.spec current hgood commits, rfl⟩

/-! ## The open block -/

/-- An open block starts from the committed objects, and leaves them alone. -/
def Node.OpensCommitted (n : Node) : Prop :=
  n.phase ≠ .idle → ∀ s, n.conn.current_state = some s →
    SameCommitted n.conn.committed_state.envelope s.envelope

theorem endBlock_sameCommitted {s s' : AppState} {height : I64} {out : EndBlockOutcome}
    (h : endBlockState o pc s height = .ok (out, s')) : SameCommitted s.envelope s'.envelope := by
  rcases endBlockState.spec h with ⟨_, _, rfl⟩ | ⟨_, s2, hopen, _, rfl⟩
  · exact ⟨rfl, rfl, rfl, rfl⟩
  · obtain ⟨name, _, rfl⟩ := openEpoch.spec hopen
    have hsame := (chosenState_same o pc (s.atHeight height) (epochOf pc height)).1
    exact ⟨hsame.1, hsame.2, hsame.3, hsame.4⟩

theorem NodeStep.opensCommitted {n n' : Node} {r : Request} (h : NodeStep o pc n r n')
    (hg : NodeGood o n) (hn : n.OpensCommitted) : n'.OpensCommitted := by
  cases h with
  | begun phase =>
    intro _ s hcurrent
    cases hcurrent
    exact .refl _
  | turned_away => exact hn
  | @delivered tx s phase admitted =>
    obtain ⟨hcharged, _, hout⟩ := @NodeGood.of_admission o pc _ _ _ hg phase admitted
    obtain ⟨s₀, hs₀, _⟩ := hg.current (by simp [phase])
    rw [state_of_current (by simp [phase]) hs₀] at hcharged
    intro _ s' hcurrent
    cases hcurrent
    exact (hn (by simp [phase]) s₀ hs₀).trans (hcharged.framed.trans hout.framed).toSameCommitted
  | @ended height s s' out phase grows current ends =>
    intro _ s₁ hcurrent
    cases hcurrent
    exact (hn (by simp [phase]) s current).trans (endBlock_sameCommitted ends)
  | committed => exact fun hidle => absurd rfl hidle
  | uploaded => exact hn

theorem reachable_opensCommitted {cfg : GenesisConfig} {n : Node} (h : Reachable o pc cfg n) :
    n.OpensCommitted := by
  obtain ⟨requests, hrun⟩ := h
  refine runs.run_induction _ (fun _ n => n.OpensCommitted) (fun hidle => absurd rfl hidle) ?_ hrun
  intro earlier m r m' hm hold hs
  exact (step_cases hs).opensCommitted (reachable_good ⟨earlier, hm⟩) hold

end eld_chain
