-- The objects in the database. Each committed object stands there under the
-- key of its path, and a read gives it back exactly when its encoding is
-- within the limit of the reader: the writer has none.
import EldChain.StorageKeys
import EldChain.CommitProgress

open Std

namespace eld_chain

variable {o : Outside} {pc : ProtocolConstants} {cfg : GenesisConfig}
variable {e e' : AppStateEnvelope} {st st' : Storage}

/-! ## A commit -/

/-- The writes of a commit: the objects of the chain state, then those of the storage layer. -/
theorem commit_writes {c c' : ConsensusConnection} {s : AppState}
    (hs : c.current_state = some s) (hg : Good o s.envelope c.storage)
    (h : commit_inner o pc c = .ok c') :
    ∃ tip l, tip.block_height = s.envelope.block_height ∧
      (∀ q ∈ l, InfraKind o pc q.1 q.2 ∧ InfraPath o tip q.1) ∧
      Writes o (s.envelope.chainWrites o ++ l) c.storage c'.storage := by
  have hheight := (commit_inner.spec hs hg h).envelope.block_height
  obtain ⟨_, _, app_hash, tx, tx₁, _, hwrites, _, htip, hsnap⟩ := commit_inner.writes hs hg h
  obtain ⟨tips, htips, hfirst⟩ := @storeTip_writes o pc _ _ _ htip
  obtain ⟨snapshots, hsnapshots, hthen⟩ := storeSnapshot_writes
    ⟨c'.committed_state.envelope.block_height,
      c'.committed_state.envelope.state_trie.root_hash, app_hash⟩ hsnap
  refine ⟨⟨c'.committed_state.envelope.block_height,
      c'.committed_state.envelope.state_trie.root_hash, app_hash⟩, tips ++ snapshots, hheight,
    ?_, hwrites.append (hfirst.append hthen)⟩
  intro q hq
  rcases List.mem_append.mp hq with hq | hq
  · exact htips q hq
  · exact hsnapshots q hq

/-- What a commit writes of the chain state has the key of its path. -/
theorem ChainKind.keyed (hg : GoodStaged o e) {p : CadoPath} {c : CadoBody StoredData}
    (h : ChainKind o e p c) : KeyedBy o p c := by
  rcases h with ⟨b, hb, rfl⟩ | ⟨b, hb, rfl⟩
  · exact (hg.objects p b hb).1.keyed
  · exact (stagedNamespace_object hg hb).keyed

/-- What a commit writes at the path of a committed object is this object. -/
theorem Committed.written (hc : Committed o pc e e') (hg : GoodStaged o e) {p : CadoPath}
    {b : CadoBody CadoData} {c : CadoBody StoredData}
    (hp : e'.committed_cado_cache[p]? = some b) (h : ChainKind o e p c) : c = b.stored := by
  rw [hc.objects] at hp
  rcases h with ⟨staged, hstaged, rfl⟩ | ⟨registered, hregistered, rfl⟩
  · rw [hstaged, Option.some_or, Option.some.injEq] at hp
    rw [hp]
  · have hnone : e.cado_cache[p]? = none := by
      cases p with
      | namespace_registry slug => exact hg.registry_unstaged slug
      | _ => cases hregistered
    rw [hnone, Option.none_or, hregistered, Option.some_or, Option.some.injEq] at hp
    rw [hp]

/-- A committed object is written by the commit, or was committed before. -/
theorem Committed.written_or_old (hc : Committed o pc e e') {p : CadoPath}
    {b : CadoBody CadoData} (hp : e'.committed_cado_cache[p]? = some b) :
    (p, b.stored) ∈ e.chainWrites o ∨ e.committed_cado_cache[p]? = some b := by
  rw [hc.objects] at hp
  rcases Option.or_eq_some_iff.mp hp with hstaged | ⟨_, hp⟩
  · exact Or.inl (List.mem_append_left _ (stagedWrites_mem hstaged))
  · rcases Option.or_eq_some_iff.mp hp with hregistered | ⟨_, hold⟩
    · exact Or.inl (List.mem_append_right _ (registryWrites_mem hregistered))
    · exact Or.inr hold

/-! ## Every call -/

/-- The database indexes each path under its key, and as long as the keys differ each
committed object stands under its own. -/
structure ObjectsStored (o : Outside) (n : Node) : Prop where
  keyed : n.conn.storage.KeyedByPath o
  stands : n.conn.storage.KeysDistinct o → ∀ (p : CadoPath) b,
    n.conn.committed_state.envelope.committed_cado_cache[p]? = some b →
    n.conn.storage.Stands o p b.stored

theorem commit_objectsStored {n : Node} {s : AppState} {c' : ConsensusConnection}
    (hs : n.conn.current_state = some s) (hg : Good o s.envelope n.conn.storage)
    (hopen : SameCommitted n.conn.committed_state.envelope s.envelope) (hn : ObjectsStored o n)
    (h : commit_inner o pc n.conn = .ok c') : ObjectsStored o ⟨.idle, c'⟩ := by
  have hcommitted := (commit_inner.spec hs hg h).envelope
  obtain ⟨_, infra, _, hinfra, hwrites⟩ := commit_writes hs hg h
  have hl : ∀ q ∈ s.envelope.chainWrites o ++ infra, KeyedBy o q.1 q.2 := by
    intro q hq
    rcases List.mem_append.mp hq with hq | hq
    · exact (mem_chainWrites hq).keyed hg.staged
    · exact (hinfra q hq).1.keyed
  refine ⟨hwrites.keyed hl hn.keyed, fun hkeys p b hp => ?_⟩
  have hgood := hcommitted.object hg hp
  apply hwrites.stands hl hn.keyed hkeys
  · intro c hc
    rcases List.mem_append.mp hc with hc | hc
    · exact hcommitted.written hg.staged hp (mem_chainWrites hc)
    · have hpath := (hinfra _ hc).1.is_infrastructure
      rw [hgood.not_infrastructure] at hpath
      cases hpath
  · rcases hcommitted.written_or_old hp with hmem | hold
    · exact Or.inl (List.mem_append_left _ hmem)
    · right
      rw [hopen.committed_cado_cache] at hold
      apply hn.stands _ p b hold
      -- the index only grows, so the keys differed before
      intro q r hq hr
      exact hkeys q r ((hwrites.indexes q).mpr (Or.inr hq)) ((hwrites.indexes r).mpr (Or.inr hr))

theorem NodeStep.objectsStored {n n' : Node} {r : Request} (h : NodeStep o pc n r n')
    (hg : NodeGood o n) (hopen : n.OpensCommitted) (hn : ObjectsStored o n) :
    ObjectsStored o n' := by
  cases h with
  | @committed s c' phase current commits =>
    obtain ⟨_, hgood⟩ := hg.of_current (by simp [phase]) current
    exact commit_objectsStored current hgood (hopen (by simp [phase]) s current) hn commits
  | begun | turned_away | delivered | ended | uploaded => exact ⟨hn.keyed, hn.stands⟩

theorem genesis_objectsStored : ObjectsStored o (genesis o pc cfg) := by
  obtain ⟨selected, cache, _, heq⟩ := genesis.spec o pc cfg
  constructor
  · intro p key hi
    simp [genesis, Storage.empty] at hi
  · intro _ p b hp
    have hempty : (genesis o pc cfg).conn.committed_state.envelope.committed_cado_cache = ∅ := by
      rw [heq]
      rfl
    rw [hempty] at hp
    simp at hp

theorem reachable_objectsStored {n : Node} (h : Reachable o pc cfg n) : ObjectsStored o n := by
  obtain ⟨requests, hrun⟩ := h
  refine runs.run_induction _ (fun _ n => ObjectsStored o n) genesis_objectsStored ?_ hrun
  intro earlier m r m' hm hold hs
  have hreach : Reachable o pc cfg m := ⟨earlier, hm⟩
  exact (step_cases hs).objectsStored (reachable_good hreach) (reachable_opensCommitted hreach) hold

/-! ## What a read gives -/

/-- An object that stands under the key of its path reads back exactly when the reader takes
its size. -/
theorem Storage.Stands.get_iff {p : CadoPath} {b : CadoBody StoredData} (h : st.Stands o p b)
    (hb : KeyedBy o p b) (hbincode : 0 < (o.serialize_body b).length) :
    st.get_cado_by_path o p = .ok (some b) ↔ (o.serialize_body b).length ≤ maxStoredSize p := by
  have hgenerated : generate_key o p b = .ok (p.storageKey o) := hb
  unfold Storage.get_cado_by_path deserialize_stored_cado_type
  rw [h.1]
  simp only [h.2]
  by_cases hsize : (o.serialize_body b).length = 0 ∨ maxStoredSize p < (o.serialize_body b).length
  · rw [if_pos hsize]
    apply iff_of_false
    · intro hread
      cases hread
    · omega
  · rw [if_neg hsize]
    simp only [hgenerated, if_true]
    apply iff_of_true trivial
    omega

theorem maxStoredSize_of_chain {p : CadoPath} (h : p.is_infrastructure = false) :
    maxStoredSize p = MAX_CADO_DATA_SIZE := by
  cases p <;> first | rfl | cases h

end eld_chain
