-- What the state trie holds. The builder resets the root at each insertion,
-- so after any run the trie is that of one leaf: the one which the commits
-- inserted last. A rebuild inserts the committed leaves by growing path, so
-- it ends with the leaf of the greatest.
import EldChain.Reachable

open Std

namespace eld_chain

variable {o : Outside} {pc : ProtocolConstants} {cfg : GenesisConfig}
variable {e e' : AppStateEnvelope} {paths : List CadoPath}

/-! ## The leaves of a state -/

/-- The leaves of the committed objects: the hash of each under its path. -/
def AppStateEnvelope.leafMap (e : AppStateEnvelope) : TrieDBMut :=
  e.committed_cado_cache.map (fun _ b => b.content_hash)

theorem get_leafMap (e : AppStateEnvelope) (p : CadoPath) :
    e.leafMap[p]? = e.committed_cado_cache[p]?.map CadoBody.content_hash :=
  ExtTreeMap.getElem?_map

/-- The trie of the greatest committed path alone, or the empty trie. -/
def AppStateEnvelope.greatestTrie (o : Outside) (e : AppStateEnvelope) : StateTrie :=
  e.committed_cado_cache.toList.getLast?.elim .empty (fun q => .single o q.1 q.2.content_hash)

/-- The trie of all the committed leaves. -/
def AppStateEnvelope.fullTrie (o : Outside) (e : AppStateEnvelope) : StateTrie :=
  if e.committed_cado_cache.isEmpty then .empty else ⟨o.trie_root e.leafMap⟩

/-- Of many objects only the last one has its leaf in the trie. -/
theorem insertObjects_eq (t : StateTrie) (l : List (CadoPath × CadoBody CadoData)) :
    t.insertObjects o l = l.getLast?.elim t (fun q => .single o q.1 q.2.content_hash) :=
  insert_each o (fun q : CadoPath × CadoBody CadoData => q.1) (fun q => q.2.content_hash) l t

/-- The greatest path is inserted last. -/
theorem rebuilt_trie (o : Outside) (e : AppStateEnvelope) :
    (e.rebuild_state_trie_from_cache o).state_trie = e.greatestTrie o :=
  insertObjects_eq .empty e.committed_cado_cache.toList

/-- The leaf maps whose roots are compared: one committed object alone, and all of them. -/
def AppStateEnvelope.leafMaps (e : AppStateEnvelope) : Set TrieDBMut :=
  { leaves | leaves = e.leafMap ∨ ∃ (p : CadoPath) (b : CadoBody CadoData),
    e.committed_cado_cache[p]? = some b ∧ leaves = (∅ : TrieDBMut).insert p b.content_hash }

/-- The roots of the trie tell these leaf maps apart. -/
def RootsApart (o : Outside) (e : AppStateEnvelope) : Prop := Set.InjOn o.trie_root e.leafMaps

theorem path_of_single {p q : CadoPath} {h k : Bytes32}
    (hpq : (∅ : TrieDBMut).insert p h = (∅ : TrieDBMut).insert q k) : p = q := by
  have hread := congrArg (fun leaves : TrieDBMut => leaves[p]?) hpq
  simp only [finite_map.get_insert, if_true] at hread
  by_contra hne
  rw [if_neg (Ne.symm hne)] at hread
  simp at hread

theorem RootsApart.path_eq (h : RootsApart o e) {p q : CadoPath} {b c : CadoBody CadoData}
    (hp : e.committed_cado_cache[p]? = some b) (hq : e.committed_cado_cache[q]? = some c)
    (hroot : StateTrie.single o p b.content_hash = .single o q c.content_hash) : p = q :=
  path_of_single (h (Or.inr ⟨p, b, hp, rfl⟩) (Or.inr ⟨q, c, hq, rfl⟩) (congrArg StateTrie.root hroot))

/-! ## What a commit inserts -/

/-- A commit inserts the leaves of what it registers and of what is staged. -/
theorem mem_insertedObjects {q : CadoPath × CadoBody CadoData} :
    q ∈ e.insertedObjects o ↔
      e.stagedNamespace o q.1 = some q.2 ∨ e.cado_cache[q.1]? = some q.2 := by
  obtain ⟨p, b⟩ := q
  unfold AppStateEnvelope.insertedObjects
  rw [List.mem_append, finite_map.mem_toList, List.mem_map, stagedNamespace_eq]
  apply or_congr _ Iff.rfl
  constructor
  · rintro ⟨⟨slug, record⟩, hmem, heq⟩
    cases heq
    rw [finite_map.mem_toList] at hmem
    simp only [CadoPath.slug?, Option.bind_some, hmem, Option.map_some]
  · intro hregistered
    obtain ⟨slug, hslug, hrecord⟩ := Option.bind_eq_some_iff.mp hregistered
    obtain ⟨record, hmem, rfl⟩ := Option.map_eq_some_iff.mp hrecord
    refine ⟨(slug, record), (finite_map.mem_toList _ _).mpr hmem, ?_⟩
    rw [(slug?_eq_some slug p).mp hslug]

theorem Committed.object_of_inserted (hc : Committed o pc e e') (hg : GoodStaged o e)
    {q : CadoPath × CadoBody CadoData} (hq : q ∈ e.insertedObjects o) :
    e'.committed_cado_cache[q.1]? = some q.2 := by
  rw [hc.objects]
  rcases mem_insertedObjects.mp hq with hregistered | hstaged
  · have hnone : e.cado_cache[q.1]? = none := by
      obtain ⟨slug, hslug, _⟩ := Option.bind_eq_some_iff.mp
        ((stagedNamespace_eq o e q.1).symm.trans hregistered)
      rw [← (slug?_eq_some slug q.1).mp hslug]
      exact hg.registry_unstaged slug
    rw [hnone, Option.none_or, hregistered, Option.some_or]
  · rw [hstaged, Option.some_or]

/-- A commit that inserts nothing leaves the committed objects as they were. -/
theorem Committed.object_of_none (hc : Committed o pc e e') (hnone : e.insertedObjects o = [])
    (p : CadoPath) : e'.committed_cado_cache[p]? = e.committed_cado_cache[p]? := by
  have hempty : ∀ b, (p, b) ∉ e.insertedObjects o := by simp [hnone]
  have hstaged : e.cado_cache[p]? = none :=
    Option.eq_none_iff_forall_ne_some.mpr
      (fun b hb => hempty b (mem_insertedObjects.mpr (Or.inr hb)))
  have hregistered : e.stagedNamespace o p = none :=
    Option.eq_none_iff_forall_ne_some.mpr
      (fun b hb => hempty b (mem_insertedObjects.mpr (Or.inl hb)))
  rw [hc.objects, hstaged, hregistered, Option.none_or, Option.none_or]

/-! ## What a run inserts -/

/-- A state after leaves were inserted at these paths, in this order: they are the paths of the
committed objects, and the trie is that of the last one. -/
structure Inserted (o : Outside) (paths : List CadoPath) (e : AppStateEnvelope) : Prop where
  committed : ∀ p : CadoPath, e.committed_cado_cache[p]?.isSome = true ↔ p ∈ paths
  nothing : paths = [] → e.state_trie = .empty
  last : ∀ p, paths.getLast? = some p → ∃ b, e.committed_cado_cache[p]? = some b ∧
    e.state_trie = .single o p b.content_hash

theorem Inserted.of_same (h : Inserted o paths e) (hs : SameCommitted e e') :
    Inserted o paths e' where
  committed := by rw [hs.committed_cado_cache]; exact h.committed
  nothing := by rw [hs.state_trie]; exact h.nothing
  last := by rw [hs.committed_cado_cache, hs.state_trie]; exact h.last

theorem Committed.inserted (hc : Committed o pc e e') (hg : GoodStaged o e)
    (h : Inserted o paths e) : Inserted o (paths ++ (e.insertedObjects o).map Prod.fst) e' := by
  have htrie := hc.trie.trans (insertObjects_eq e.state_trie (e.insertedObjects o))
  refine ⟨fun p => ?_, fun hnone => ?_, fun p hp => ?_⟩
  · rw [hc.isSome_iff, List.mem_append, ← h.committed]
    have hmem : p ∈ (e.insertedObjects o).map Prod.fst ↔
        e.cado_cache[p]?.isSome = true ∨ (e.stagedNamespace o p).isSome = true := by
      simp only [List.mem_map, Option.isSome_iff_exists]
      constructor
      · rintro ⟨q, hq, rfl⟩
        rcases mem_insertedObjects.mp hq with hregistered | hstaged
        · exact Or.inr ⟨q.2, hregistered⟩
        · exact Or.inl ⟨q.2, hstaged⟩
      · rintro (⟨b, hstaged⟩ | ⟨b, hregistered⟩)
        · exact ⟨(p, b), mem_insertedObjects.mpr (Or.inr hstaged), rfl⟩
        · exact ⟨(p, b), mem_insertedObjects.mpr (Or.inl hregistered), rfl⟩
    rw [hmem]
    tauto
  · rw [List.append_eq_nil_iff, List.map_eq_nil_iff] at hnone
    rw [htrie, hnone.2]
    exact h.nothing hnone.1
  · rw [List.getLast?_append, List.getLast?_map] at hp
    rcases hlast : (e.insertedObjects o).getLast? with _ | q
    · rw [hlast] at hp htrie
      obtain ⟨b, hb, hheld⟩ := h.last p hp
      refine ⟨b, ?_, htrie.trans hheld⟩
      rw [hc.object_of_none (List.getLast?_eq_none_iff.mp hlast), hb]
    · rw [hlast] at hp htrie
      cases hp
      exact ⟨q.2, hc.object_of_inserted hg (List.mem_of_getLast? hlast), htrie⟩

/-- The paths whose leaves a call inserts. -/
def Node.inserts (o : Outside) (n : Node) : Request → List CadoPath
  | .Commit => (n.state.envelope.insertedObjects o).map Prod.fst
  | _ => []

/-- The paths whose leaves the calls of a run insert, in the order of the insertions. -/
def insertedPaths (o : Outside) (pc : ProtocolConstants) (cfg : GenesisConfig)
    (requests : List Request) : List CadoPath :=
  (runs.visits (Node.step o pc) requests (genesis o pc cfg)).flatMap (fun v => v.1.inserts o v.2)

theorem insertedPaths_snoc {requests : List Request} {n : Node}
    (hrun : RunsTo o pc cfg requests n) (r : Request) :
    insertedPaths o pc cfg (requests ++ [r]) =
      insertedPaths o pc cfg requests ++ n.inserts o r := by
  unfold insertedPaths
  rw [runs.visits_snoc _ r hrun, List.flatMap_append, List.flatMap_singleton]

theorem genesis_inserted (o : Outside) (pc : ProtocolConstants) (cfg : GenesisConfig) :
    Inserted o [] (genesis o pc cfg).conn.committed_state.envelope := by
  obtain ⟨selected, cache, _, heq⟩ := genesis.spec o pc cfg
  rw [heq]
  refine ⟨fun p => ?_, fun _ => rfl, fun p hp => ?_⟩
  · simp [AppStateEnvelope.default]
  · cases hp

/-- After any run the committed objects are those whose leaves were inserted, and the trie is
that of the last one. -/
theorem inserted_of_run {requests : List Request} {n : Node} (hrun : RunsTo o pc cfg requests n) :
    Inserted o (insertedPaths o pc cfg requests) n.conn.committed_state.envelope := by
  refine runs.run_induction (Node.step o pc) (fun requests n =>
    Inserted o (insertedPaths o pc cfg requests) n.conn.committed_state.envelope)
    (genesis_inserted o pc cfg) ?_ hrun
  intro earlier m r m' hm hold hs
  rw [insertedPaths_snoc hm]
  have hreach : Reachable o pc cfg m := ⟨earlier, hm⟩
  cases step_cases hs with
  | begun | turned_away | delivered | ended | uploaded =>
    unfold Node.inserts
    rw [List.append_nil]
    exact hold
  | @committed s c' phase current commits =>
    obtain ⟨hstate, hgood⟩ := (reachable_good hreach).of_current (by simp [phase]) current
    have hopen := reachable_opensCommitted hreach (by simp [phase]) s current
    have hcommitted := (commit_inner.spec current hgood commits).envelope
    unfold Node.inserts
    rw [hstate]
    exact hcommitted.inserted hgood.staged (hold.of_same hopen)

/-! ## When a rebuild gives the trie -/

/-- The last path of a list is the greatest of it. -/
def EndsGreatest (paths : List CadoPath) : Prop :=
  ∀ last ∈ paths.getLast?, ∀ p ∈ paths, (compare p last).isLE = true

instance : Decidable (EndsGreatest paths) :=
  inferInstanceAs (Decidable (∀ last ∈ paths.getLast?, ∀ p ∈ paths, (compare p last).isLE = true))

theorem Inserted.greatestTrie_eq (h : Inserted o paths e) (hends : EndsGreatest paths) :
    e.state_trie = e.greatestTrie o := by
  unfold AppStateEnvelope.greatestTrie
  rcases hlast : paths.getLast? with _ | p
  · have hnil := List.getLast?_eq_none_iff.mp hlast
    have hempty : e.committed_cado_cache.toList = [] := by
      rw [List.eq_nil_iff_forall_not_mem]
      intro q hq
      have hsome := (h.committed q.1).mp (by rw [(finite_map.mem_toList _ _).mp hq]; rfl)
      rw [hnil] at hsome
      cases hsome
    rw [h.nothing hnil, hempty]
    rfl
  · obtain ⟨b, hb, htrie⟩ := h.last p hlast
    have hgreatest : e.committed_cado_cache.toList.getLast? = some (p, b) := by
      rw [finite_map.getLast?_toList]
      exact ⟨hb, fun q hq => hends p hlast q ((h.committed q).mp hq)⟩
    rw [htrie, hgreatest]
    rfl

/-- The trie is that of the greatest committed path exactly when this path was inserted last. -/
theorem Inserted.greatestTrie_iff (h : Inserted o paths e) (hroots : RootsApart o e) :
    e.state_trie = e.greatestTrie o ↔ EndsGreatest paths := by
  refine ⟨fun heq => ?_, h.greatestTrie_eq⟩
  intro last hlast p hp
  obtain ⟨b, hb, htrie⟩ := h.last last hlast
  unfold AppStateEnvelope.greatestTrie at heq
  rcases hgreatest : e.committed_cado_cache.toList.getLast? with _ | q
  · rw [List.getLast?_eq_none_iff] at hgreatest
    have hmem := (finite_map.mem_toList _ (last, b)).mpr hb
    rw [hgreatest] at hmem
    cases hmem
  · obtain ⟨hq, hle⟩ := (finite_map.getLast?_toList _ q).mp hgreatest
    rw [htrie, hgreatest] at heq
    rw [hroots.path_eq hb hq heq]
    exact hle p ((h.committed p).mpr hp)

/-! ## When the trie has every leaf -/

/-- The leaves of a state with one object. -/
theorem leafMap_of_only {p : CadoPath} {b : CadoBody CadoData}
    (hb : e.committed_cado_cache[p]? = some b)
    (honly : ∀ q : CadoPath, e.committed_cado_cache[q]?.isSome = true → q = p) :
    e.leafMap = (∅ : TrieDBMut).insert p b.content_hash := by
  apply ExtTreeMap.ext_getElem?
  intro q
  rw [get_leafMap, finite_map.get_insert]
  by_cases hq : p = q
  · rw [if_pos hq, ← hq, hb, Option.map_some]
  · have hnone : e.committed_cado_cache[q]? = none := by
      rw [← Option.not_isSome_iff_eq_none]
      exact fun hsome => hq (honly q hsome).symm
    rw [if_neg hq, hnone]
    simp

theorem fullTrie_of_no_objects (hnone : ∀ p : CadoPath, ¬ e.committed_cado_cache[p]?.isSome = true) :
    e.fullTrie o = .empty := by
  have hempty : e.committed_cado_cache.isEmpty = true := by
    rw [ExtTreeMap.isEmpty_iff]
    apply ExtTreeMap.ext_getElem?
    intro p
    rw [Option.not_isSome_iff_eq_none.mp (hnone p)]
    simp
  unfold AppStateEnvelope.fullTrie
  rw [if_pos hempty]

theorem fullTrie_of_object {p : CadoPath} {b : CadoBody CadoData}
    (hb : e.committed_cado_cache[p]? = some b) : e.fullTrie o = ⟨o.trie_root e.leafMap⟩ := by
  have hsome : ¬ e.committed_cado_cache.isEmpty = true := by
    rw [ExtTreeMap.isEmpty_iff]
    intro hempty
    rw [hempty] at hb
    simp at hb
  unfold AppStateEnvelope.fullTrie
  rw [if_neg hsome]

/-- A state whose leaves are those of one insertion has no object on another path. -/
theorem only_of_leafMap {l : CadoPath} {hash : Bytes32}
    (hleaves : (∅ : TrieDBMut).insert l hash = e.leafMap) {p : CadoPath}
    (hp : e.committed_cado_cache[p]?.isSome = true) : p = l := by
  have hread := congrArg (fun leaves : TrieDBMut => leaves[p]?) hleaves
  simp only [finite_map.get_insert, get_leafMap] at hread
  by_contra hne
  obtain ⟨c, hc⟩ := Option.isSome_iff_exists.mp hp
  rw [if_neg (Ne.symm hne), hc] at hread
  simp at hread

/-- The trie has the leaves of all committed objects exactly when there is one object at most. -/
theorem Inserted.fullTrie_iff (h : Inserted o paths e) (hroots : RootsApart o e) :
    e.state_trie = e.fullTrie o ↔ ∀ p q : CadoPath, e.committed_cado_cache[p]?.isSome = true →
      e.committed_cado_cache[q]?.isSome = true → p = q := by
  rcases hlast : paths.getLast? with _ | l
  · have hnil := List.getLast?_eq_none_iff.mp hlast
    have hnone : ∀ p : CadoPath, ¬ e.committed_cado_cache[p]?.isSome = true := by
      intro p hp
      have hmem := (h.committed p).mp hp
      rw [hnil] at hmem
      cases hmem
    rw [h.nothing hnil, fullTrie_of_no_objects hnone]
    exact iff_of_true rfl (fun p _ hp _ => absurd hp (hnone p))
  · obtain ⟨b, hb, htrie⟩ := h.last l hlast
    rw [htrie, fullTrie_of_object hb]
    constructor
    · intro heq p q hp hq
      have hleaves : (∅ : TrieDBMut).insert l b.content_hash = e.leafMap :=
        hroots (Or.inr ⟨l, b, hb, rfl⟩) (Or.inl rfl) (congrArg StateTrie.root heq)
      rw [only_of_leafMap hleaves hp, only_of_leafMap hleaves hq]
    · intro honly
      rw [leafMap_of_only hb (fun q hq => honly q l hq (by rw [hb]; rfl))]
      rfl

/-- The leaf maps of a state with one object are the same. -/
theorem rootsApart_of_only (honly : ∀ p q : CadoPath, e.committed_cado_cache[p]?.isSome = true →
    e.committed_cado_cache[q]?.isSome = true → p = q) : RootsApart o e := by
  have hsingle : ∀ p b, e.committed_cado_cache[p]? = some b →
      e.leafMap = (∅ : TrieDBMut).insert p b.content_hash := by
    intro p b hb
    exact leafMap_of_only hb (fun q hq => honly q p hq (by rw [hb]; rfl))
  rintro l (rfl | ⟨p, b, hb, rfl⟩) m (rfl | ⟨q, c, hc, rfl⟩) _
  · rfl
  · exact hsingle q c hc
  · exact (hsingle p b hb).symm
  · rw [← hsingle p b hb, hsingle q c hc]

end eld_chain
