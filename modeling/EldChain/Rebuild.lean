-- The laws of the indexes and the trie against a rebuild from the
-- committed objects. The indexes that the commits maintain entry by entry
-- are the rebuilt ones. The trie is the rebuilt one only while the greatest
-- committed path is also the one inserted last.
import EldChain.TrieInsertions

open Std

namespace eld_chain

variable {o : Outside} {pc : ProtocolConstants} {e : AppStateEnvelope} {st : Storage}

/-! ## Rebuilding -/

theorem epochs_eq_rebuilt (h : GoodCommitted o e st) :
    e.epoch_records_index = epoch_numbers_from_committed_cache e.committed_cado_cache := by
  apply ExtTreeSet.ext_mem
  intro epoch
  rw [h.epochs, epoch_numbers_from_committed_cache]
  refine Iff.trans ?_ (mem_epoch_fold e.committed_cado_cache.toList ∅ epoch).symm
  constructor
  · rintro ⟨p, hp, hn⟩
    obtain ⟨b, hb⟩ := Option.isSome_iff_exists.mp hp
    exact Or.inr ⟨(p, b), (finite_map.mem_toList _ _).mpr hb, hn⟩
  · rintro (hempty | ⟨q, hq, hn⟩)
    · simp at hempty
    · rw [finite_map.mem_toList] at hq
      exact ⟨q.1, by rw [hq]; rfl, hn⟩

/-- The index entry of an object: its slug and its record, for a registry object. -/
def registryEntry (p : CadoPath) (b : CadoBody CadoData) : Option (Text × NamespaceRecord) :=
  p.slug?.bind (fun slug => b.namespace_record?.map (fun r => (slug, r)))

theorem namespaceIndexStep_ok {p : CadoPath} {b : CadoBody CadoData} (h : ObjectAt o p b)
    (index : ExtTreeMap Text NamespaceRecord compare) :
    namespaceIndexStep index (p, b) = .ok (match registryEntry p b with
      | some (slug, r) => index.insert slug r
      | none => index) := by
  cases h with
  | account => rfl
  | staking_account => rfl
  | epoch_record => rfl
  | namespace_registry slug r canonical =>
    -- a canonical slug is never empty
    match slug, canonical with
    | [], canonical => exact absurd canonical.valid (by decide)
    | c :: rest, _ => rfl

theorem namespaceIndex_fold (l : List (CadoPath × CadoBody CadoData))
    (hl : ∀ q ∈ l, ObjectAt o q.1 q.2) (index : ExtTreeMap Text NamespaceRecord compare) :
    l.foldlM namespaceIndexStep index = .ok (finite_map.insertEach registryEntry l index) := by
  induction l generalizing index with
  | nil => rfl
  | cons q l ih =>
    rw [List.foldlM_cons, namespaceIndexStep_ok (hl q List.mem_cons_self),
      finite_map.insertEach_cons]
    simp only [bind, Except.bind]
    rw [ih (fun r hr => hl r (List.mem_cons_of_mem _ hr))]
    rcases registryEntry q.1 q.2 with _ | ⟨slug, r⟩ <;> rfl

theorem registryEntry_eq_some {p : CadoPath} {b : CadoBody CadoData} {slug : Text}
    {r : NamespaceRecord} (h : registryEntry p b = some (slug, r)) :
    p = .namespace_registry slug ∧ b.namespace_record? = some r := by
  obtain ⟨slug', hslug, hr⟩ := Option.bind_eq_some_iff.mp h
  obtain ⟨r', hr', heq⟩ := Option.map_eq_some_iff.mp hr
  cases heq
  exact ⟨((slug?_eq_some slug p).mp hslug).symm, hr'⟩

theorem namespaces_eq_rebuilt (h : GoodCommitted o e st) :
    namespace_registry_index_from_committed_cache e.committed_cado_cache =
      .ok e.namespace_registry_index := by
  unfold namespace_registry_index_from_committed_cache
  rw [namespaceIndex_fold (o := o) _ (fun q hq => h.objects q.1 q.2 ((finite_map.mem_toList _ _).mp hq))]
  congr 1
  apply ExtTreeMap.ext_getElem?
  intro slug
  rw [h.namespaces]
  rcases hr : e.committed_cado_cache[CadoPath.namespace_registry slug]?.bind
    CadoBody.namespace_record? with _ | r
  · rw [finite_map.get_insertEach_of_untouched]
    · simp
    · intro q hq w hw
      obtain ⟨hp, hb⟩ := registryEntry_eq_some hw
      rw [finite_map.mem_toList, hp] at hq
      rw [hq, Option.bind_some, hb] at hr
      cases hr
  · obtain ⟨b, hb, hrec⟩ := Option.bind_eq_some_iff.mp hr
    apply finite_map.get_insertEach_of_written
    · refine ⟨(.namespace_registry slug, b), (finite_map.mem_toList _ _).mpr hb, ?_⟩
      simp [registryEntry, CadoPath.slug?, hrec]
    · intro q hq w hw
      obtain ⟨hp, hb'⟩ := registryEntry_eq_some hw
      rw [finite_map.mem_toList, hp, hb] at hq
      cases hq
      rw [hrec] at hb'
      exact (Option.some.inj hb').symm

/-- What the commits maintained is what a rebuild from the committed objects gives. -/
structure MaintainedIsRebuilt (o : Outside) (e : AppStateEnvelope) : Prop where
  state_trie : e.state_trie = (e.rebuild_state_trie_from_cache o).state_trie
  epoch_records_index :
    e.epoch_records_index = e.rebuild_epoch_records_index.epoch_records_index
  namespace_registry_index :
    namespace_registry_index_from_committed_cache e.committed_cado_cache =
      .ok e.namespace_registry_index

/-- After a commit the trie and the indexes are the ones that a rebuild from the committed
objects gives, exactly when the leaf that the commits of the run inserted last is the one of the
greatest path. -/
theorem maintained_equals_rebuilt_iff (o : Outside) (pc : ProtocolConstants) (cfg : GenesisConfig)
    (requests : List Request) (n : Node) (hrun : RunsTo o pc cfg (requests ++ [.Commit]) n)
    (hroots : RootsApart o n.conn.committed_state.envelope) :
    MaintainedIsRebuilt o n.conn.committed_state.envelope ↔
      EndsGreatest (insertedPaths o pc cfg (requests ++ [.Commit])) := by
  have hgood := (reachable_good ⟨_, hrun⟩).committed.committed
  have htrie := (inserted_of_run hrun).greatestTrie_iff hroots
  rw [← rebuilt_trie] at htrie
  constructor
  · intro hmaintained
    exact htrie.mp hmaintained.state_trie
  · intro hends
    exact ⟨htrie.mpr hends, epochs_eq_rebuilt hgood, namespaces_eq_rebuilt hgood⟩

/-- The leaf maps of a state, to evaluate. -/
def AppStateEnvelope.leafMapList (e : AppStateEnvelope) : List TrieDBMut :=
  e.leafMap :: e.committed_cado_cache.toList.map
    (fun q => (∅ : TrieDBMut).insert q.1 q.2.content_hash)

theorem rootsApart_of_nodup (h : (e.leafMapList.map o.trie_root).Nodup) : RootsApart o e := by
  have hmem : ∀ leaves ∈ e.leafMaps, leaves ∈ e.leafMapList := by
    rintro leaves (rfl | ⟨p, b, hb, rfl⟩)
    · exact List.mem_cons_self
    · refine List.mem_cons_of_mem _ (List.mem_map.mpr ⟨(p, b), ?_, rfl⟩)
      exact (finite_map.mem_toList _ _).mpr hb
  intro l hl m hm hroot
  exact List.inj_on_of_nodup_map h (hmem l hl) (hmem m hm) hroot

/-- Alice registers a namespace. -/
def shopRegistration : Tx :=
  signed 1 1 "AddNamespace" (.AddNamespace
    ⟨alice, "shop".toList, 500, ⟨by decide, by decide⟩, by decide, by decide⟩)

/-- Alice registers a namespace in the block that opens the first epoch. -/
def namespaceBlocks : List Request :=
  block (smallHeight 1) [] ++
    [.BeginBlock, .DeliverTx (.ok shopRegistration), .EndBlock (smallHeight 2)]

/-- Alice also stakes in that block. Of all the paths that of her stake is the greatest. -/
def stakingBlocks : List Request :=
  block (smallHeight 1) [] ++
    [.BeginBlock, .DeliverTx (.ok shopRegistration),
      .DeliverTx (.ok (aliceStakes 2 'a' hexVal_a)), .EndBlock (smallHeight 2)]

theorem maintained_equals_rebuilt_on_stakingBlocks :
    ∃ n, RunsTo Outside.toy smallConstants smallConfig (stakingBlocks ++ [.Commit]) n ∧
      (n.conn.committed_state.envelope.namespace_registry_index.contains "shop".toList &&
        n.conn.committed_state.envelope.epoch_records_index.contains (smallHeight 1)) = true ∧
      MaintainedIsRebuilt Outside.toy n.conn.committed_state.envelope := by
  obtain ⟨n, hn, heval⟩ := @smallRun_ends (stakingBlocks ++ [.Commit]) (fun n =>
      (n.conn.committed_state.envelope.namespace_registry_index.contains "shop".toList &&
        n.conn.committed_state.envelope.epoch_records_index.contains (smallHeight 1)) &&
      decide (n.conn.committed_state.envelope.leafMapList.map Outside.toy.trie_root).Nodup)
    (by decide +kernel)
  obtain ⟨hboth, hroots⟩ := Bool.and_eq_true_iff.mp heval
  have hends : EndsGreatest (insertedPaths Outside.toy smallConstants smallConfig
      (stakingBlocks ++ [.Commit])) := by decide +kernel
  exact ⟨n, hn, hboth, (maintained_equals_rebuilt_iff Outside.toy smallConstants smallConfig
    stakingBlocks n hn (rootsApart_of_nodup (of_decide_eq_true hroots))).mpr hends⟩

/-- With the namespace alone the epoch records are inserted last, and the path of the namespace
is greater than theirs. -/
theorem namespaceBlocks_are_not_rebuilt :
    ∃ n, RunsTo Outside.toy smallConstants smallConfig (namespaceBlocks ++ [.Commit]) n ∧
      n.conn.committed_state.envelope.state_trie.root_hash ≠
        (n.conn.committed_state.envelope.rebuild_state_trie_from_cache
          Outside.toy).state_trie.root_hash ∧
      ¬ MaintainedIsRebuilt Outside.toy n.conn.committed_state.envelope := by
  obtain ⟨n, hn, hroots⟩ := @smallRun_ends (namespaceBlocks ++ [.Commit]) (fun n =>
      n.conn.committed_state.envelope.state_trie.root_hash !=
        (n.conn.committed_state.envelope.rebuild_state_trie_from_cache
          Outside.toy).state_trie.root_hash) (by decide +kernel)
  have hdiffer := bne_iff_ne.mp hroots
  exact ⟨n, hn, hdiffer, fun h => hdiffer (congrArg StateTrie.root_hash h.state_trie)⟩

end eld_chain
