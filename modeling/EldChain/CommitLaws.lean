-- What a commit of a good state does: no write fails, every staged
-- object and registration becomes committed, the indexes gain exactly
-- their entries, the trie is left with the leaf that was inserted last,
-- and the staging caches are empty.
import EldChain.Steps

open Std

namespace eld_chain

variable {o : Outside} {pc : ProtocolConstants} {e e' : AppStateEnvelope} {st st' : Storage}

/-! ## Writes to the database -/

/-- Writes that put objects of one kind, and may change what is not an object. -/
inductive Puts (o : Outside) (Kind : CadoPath → CadoBody StoredData → Prop) (st : Storage) :
    Storage → Prop
  | done : Puts o Kind st st
  | put {st₁ st₂ : Storage} {path : CadoPath} {body : CadoBody StoredData} :
      Puts o Kind st st₁ → Kind path body → st₁.put_cado_type_with_tx o path body = .ok st₂ →
      Puts o Kind st st₂
  | aside {st₁ st₂ : Storage} : Puts o Kind st st₁ → st₂.path_index = st₁.path_index →
      st₂.cado = st₁.cado → Puts o Kind st st₂

theorem Puts.mono {Kind Kind' : CadoPath → CadoBody StoredData → Prop}
    (h : Puts o Kind st st') (hk : ∀ p b, Kind p b → Kind' p b) : Puts o Kind' st st' := by
  induction h with
  | done => exact .done
  | put _ hkind hput ih => exact .put ih (hk _ _ hkind) hput
  | aside _ hi hc ih => exact .aside ih hi hc

theorem Puts.trans {Kind : CadoPath → CadoBody StoredData → Prop} {st₁ st₂ : Storage}
    (h : Puts o Kind st st₁) (h' : Puts o Kind st₁ st₂) : Puts o Kind st st₂ := by
  induction h' with
  | done => exact h
  | put _ hkind hput ih => exact .put ih hkind hput
  | aside _ hi hc ih => exact .aside ih hi hc

/-- What a put keeps, and what only reads the objects, holds after the writes. -/
theorem Puts.invariant {Kind : CadoPath → CadoBody StoredData → Prop} (Inv : Storage → Prop)
    (h : Puts o Kind st st')
    (hput : ∀ st₁ st₂ p b, Inv st₁ → Kind p b → st₁.put_cado_type_with_tx o p b = .ok st₂ →
      Inv st₂)
    (haside : ∀ st₁ st₂, Inv st₁ → st₂.path_index = st₁.path_index → st₂.cado = st₁.cado →
      Inv st₂) (h₀ : Inv st) : Inv st' := by
  induction h with
  | done => exact h₀
  | put _ hkind hp ih => exact hput _ _ _ _ ih hkind hp
  | aside _ hi hc ih => exact haside _ _ ih hi hc

/-- A path that is indexed after the writes was indexed before, or was put. -/
theorem Puts.indexed {Kind : CadoPath → CadoBody StoredData → Prop} (h : Puts o Kind st st')
    (p : CadoPath) (hp : st'.path_index[p]?.isSome = true) :
    st.path_index[p]?.isSome = true ∨ ∃ body, Kind p body := by
  revert hp
  refine Puts.invariant (fun t => t.path_index[p]?.isSome = true →
    st.path_index[p]?.isSome = true ∨ ∃ body, Kind p body) h ?_ ?_ Or.inl
  · intro st₁ st₂ q b ih hkind hput hp
    obtain ⟨key, _, rfl⟩ := put.spec o hput
    simp only [finite_map.get_insert] at hp
    split at hp
    · rename_i hq
      exact Or.inr ⟨b, hq ▸ hkind⟩
    · exact ih hp
  · intro st₁ st₂ ih hi _ hp
    rw [hi] at hp
    exact ih hp

/-- Writes that put these objects in this order, and may change what is not an object. -/
inductive Writes (o : Outside) :
    List (CadoPath × CadoBody StoredData) → Storage → Storage → Prop
  | done {st : Storage} : Writes o [] st st
  | put {st st₁ st' : Storage} {path : CadoPath} {body : CadoBody StoredData}
      {l : List (CadoPath × CadoBody StoredData)} :
      st.put_cado_type_with_tx o path body = .ok st₁ → Writes o l st₁ st' →
      Writes o ((path, body) :: l) st st'
  | aside {st st₁ st' : Storage} {l : List (CadoPath × CadoBody StoredData)} :
      st₁.path_index = st.path_index → st₁.cado = st.cado → Writes o l st₁ st' →
      Writes o l st st'

theorem Writes.append {l l' : List (CadoPath × CadoBody StoredData)} {st₁ : Storage}
    (h : Writes o l st st₁) (h' : Writes o l' st₁ st') : Writes o (l ++ l') st st' := by
  induction h with
  | done => exact h'
  | put hput _ ih => exact .put hput (ih h')
  | aside hi hc _ ih => exact .aside hi hc (ih h')

theorem Writes.puts {Kind : CadoPath → CadoBody StoredData → Prop}
    {l : List (CadoPath × CadoBody StoredData)} (h : Writes o l st st')
    (hl : ∀ q ∈ l, Kind q.1 q.2) : Puts o Kind st st' := by
  induction h with
  | done => exact .done
  | put hput _ ih =>
    have hrest := ih (fun q hq => hl q (List.mem_cons_of_mem _ hq))
    exact (Puts.put .done (hl _ List.mem_cons_self) hput).trans hrest
  | aside hi hc _ ih => exact (Puts.aside .done hi hc).trans (ih hl)

/-! ## No write of the chain's objects fails -/

theorem put_ok {p : CadoPath} {b : CadoBody CadoData} (h : ObjectAt o p b) (st : Storage) :
    ∃ st', st.put_cado_type_with_tx o p b.stored = .ok st' := by
  have hkey : ∃ key, st.original_key o p b.stored = .ok key := by
    unfold Storage.original_key
    split
    · exact ⟨_, rfl⟩
    · cases h with
      | account a hash latest acc address =>
        simp [generate_key, accountKey, CadoBody.stored, CadoBody.map, CadoPath.name]
      | staking_account a hash latest acc address =>
        simp [generate_key, accountKey, CadoBody.stored, CadoBody.map, CadoPath.name]
      | epoch_record name r owner => exact ⟨_, rfl⟩
      | namespace_registry slug r canonical => exact ⟨_, rfl⟩
  obtain ⟨key, hkey⟩ := hkey
  unfold Storage.put_cado_type_with_tx
  rw [hkey]
  exact ⟨_, rfl⟩

/-- The column families that hold no objects. -/
def SameAside (st st' : Storage) : Prop :=
  st'.vp_rewarded = st.vp_rewarded ∧ st'.vp_failed = st.vp_failed ∧
    st'.pinboard_temp_blobs = st.pinboard_temp_blobs

theorem put_sameAside {p : CadoPath} {b : CadoBody StoredData}
    (h : st.put_cado_type_with_tx o p b = .ok st') : SameAside st st' := by
  obtain ⟨key, _, rfl⟩ := put.spec o h
  exact ⟨rfl, rfl, rfl⟩

theorem SameAside.trans {st₁ st₂ st₃ : Storage} (h : SameAside st₁ st₂) (h' : SameAside st₂ st₃) :
    SameAside st₁ st₃ := ⟨h'.1.trans h.1, h'.2.1.trans h.2.1, h'.2.2.trans h.2.2⟩

/-- The staged objects as the database stores them. -/
def StagedKind (cache : CadoCache) (p : CadoPath) (body : CadoBody StoredData) : Prop :=
  ∃ b, cache[p]? = some b ∧ body = b.stored

/-- What a commit writes of the staged objects. -/
def AppStateEnvelope.stagedWrites (e : AppStateEnvelope) : List (CadoPath × CadoBody StoredData) :=
  e.cado_cache.toList.map (fun q => (q.1, q.2.stored))

theorem mem_stagedWrites {q : CadoPath × CadoBody StoredData} (h : q ∈ e.stagedWrites) :
    StagedKind e.cado_cache q.1 q.2 := by
  obtain ⟨⟨p, b⟩, hmem, rfl⟩ := List.mem_map.mp h
  exact ⟨b, (finite_map.mem_toList _ _).mp hmem, rfl⟩

theorem stagedWrites_mem {p : CadoPath} {b : CadoBody CadoData} (h : e.cado_cache[p]? = some b) :
    (p, b.stored) ∈ e.stagedWrites :=
  List.mem_map.mpr ⟨(p, b), (finite_map.mem_toList _ _).mpr h, rfl⟩

theorem putStaged_list (cache : CadoCache) (l : List (CadoPath × CadoBody CadoData)) (tx : Storage)
    (hl : ∀ q ∈ l, ObjectAt o q.1 q.2) :
    ∃ tx', l.foldl (putStagedStep o) (tx, cache) = (tx', cache) ∧
      Writes o (l.map (fun q => (q.1, q.2.stored))) tx tx' ∧ SameAside tx tx' := by
  induction l generalizing tx with
  | nil => exact ⟨tx, rfl, .done, rfl, rfl, rfl⟩
  | cons q l ih =>
    have hobj := hl q List.mem_cons_self
    obtain ⟨tx₁, hput⟩ := put_ok hobj tx
    obtain ⟨tx₂, hfold, hwrites, hside⟩ := ih tx₁ (fun r hr => hl r (List.mem_cons_of_mem _ hr))
    refine ⟨tx₂, ?_, .put hput hwrites, (put_sameAside hput).trans hside⟩
    rw [List.foldl_cons, putStagedStep, hobj.not_infrastructure]
    simp only [hput]
    exact hfold

/-- Every staged object is written, and none is dropped. -/
theorem putStaged.spec (h : GoodStaged o e) (tx : Storage) :
    ∃ tx', putStaged o tx e.cado_cache = (tx', e.cado_cache) ∧
      Writes o e.stagedWrites tx tx' ∧ SameAside tx tx' := by
  apply putStaged_list
  intro q hq
  rw [finite_map.mem_toList] at hq
  exact (h.objects q.1 q.2 hq).1

/-! ## Registrations -/

theorem registry_path {slug : Text} (h : CanonicalSlug slug) :
    slug_to_namespace_cadopath slug = .ok (.namespace_registry slug) := by
  unfold slug_to_namespace_cadopath
  rw [normalize_of_valid h.valid]
  simp [h.not_reserved]

/-- The object that a registration adds at a path. -/
def AppStateEnvelope.stagedNamespace (o : Outside) (e : AppStateEnvelope) :
    CadoPath → Option (CadoBody CadoData)
  | .namespace_registry slug => e.namespace_registry_cache[slug]?.map (namespace_cado o slug)
  | _ => none

/-- The registrations as the database stores them. -/
def RegistryKind (o : Outside) (e : AppStateEnvelope) (p : CadoPath)
    (body : CadoBody StoredData) : Prop :=
  ∃ b, e.stagedNamespace o p = some b ∧ body = b.stored

/-- The state after the registrations in a list. -/
def withNamespaces (o : Outside) (l : List (Text × NamespaceRecord)) (e : AppStateEnvelope) :
    AppStateEnvelope :=
  { e with
    committed_cado_cache := finite_map.insertEach (fun slug r =>
      some (CadoPath.namespace_registry slug, namespace_cado o slug r)) l e.committed_cado_cache
    state_trie := l.foldl (fun t q =>
      t.insert o (.namespace_registry q.1) (namespace_cado o q.1 q.2).content_hash) e.state_trie
    namespace_registry_index := finite_map.insertEach (fun slug r => some (slug, r)) l
      e.namespace_registry_index }

/-- What a commit writes of the registrations. -/
def AppStateEnvelope.registryWrites (o : Outside) (e : AppStateEnvelope) :
    List (CadoPath × CadoBody StoredData) :=
  e.namespace_registry_cache.toList.map
    (fun q => (.namespace_registry q.1, (namespace_cado o q.1 q.2).stored))

theorem mem_registryWrites {q : CadoPath × CadoBody StoredData} (h : q ∈ e.registryWrites o) :
    RegistryKind o e q.1 q.2 := by
  obtain ⟨⟨slug, r⟩, hmem, rfl⟩ := List.mem_map.mp h
  rw [finite_map.mem_toList] at hmem
  refine ⟨namespace_cado o slug r, ?_, rfl⟩
  rw [AppStateEnvelope.stagedNamespace, hmem]
  rfl

theorem registryWrites_mem {p : CadoPath} {b : CadoBody CadoData}
    (h : e.stagedNamespace o p = some b) : (p, b.stored) ∈ e.registryWrites o := by
  match p, h with
  | .namespace_registry slug, h =>
    obtain ⟨r, hr, rfl⟩ := Option.map_eq_some_iff.mp h
    exact List.mem_map.mpr ⟨(slug, r), (finite_map.mem_toList _ _).mpr hr, rfl⟩

theorem registerNamespace_list (l : List (Text × NamespaceRecord))
    (hl : ∀ q ∈ l, CanonicalSlug q.1) (tx : Storage) (e : AppStateEnvelope) :
    ∃ tx', l.foldl (registerNamespace o) (tx, e) = (tx', withNamespaces o l e) ∧
      Writes o (l.map (fun q => (.namespace_registry q.1, (namespace_cado o q.1 q.2).stored))) tx
        tx' ∧ SameAside tx tx' := by
  induction l generalizing tx e with
  | nil => exact ⟨tx, rfl, .done, rfl, rfl, rfl⟩
  | cons q l ih =>
    have hslug := hl q List.mem_cons_self
    obtain ⟨tx₁, hput⟩ := put_ok (ObjectAt.namespace_registry (o := o) q.1 q.2 hslug) tx
    obtain ⟨tx₂, hfold, hwrites, hside⟩ := ih (fun r hr => hl r (List.mem_cons_of_mem _ hr)) tx₁
      (registerNamespace o (tx, e) q).2
    refine ⟨tx₂, ?_, .put hput hwrites, (put_sameAside hput).trans hside⟩
    have hstep : registerNamespace o (tx, e) q = (tx₁, (registerNamespace o (tx, e) q).2) := by
      unfold registerNamespace
      simp only [registry_path hslug, hput]
    rw [List.foldl_cons, hstep, hfold]
    unfold registerNamespace
    simp only [registry_path hslug, hput]
    rfl

theorem registerNamespaces.spec (h : GoodStaged o e) (tx : Storage) :
    ∃ tx', registerNamespaces o tx e = (tx',
        { withNamespaces o e.namespace_registry_cache.toList e with
          namespace_registry_cache := ∅ }) ∧
      Writes o (e.registryWrites o) tx tx' ∧ SameAside tx tx' := by
  have hl : ∀ q ∈ e.namespace_registry_cache.toList, CanonicalSlug q.1 := by
    intro q hq
    rw [finite_map.mem_toList] at hq
    exact h.slugs q.1 q.2 hq
  obtain ⟨tx', hfold, hwrites, hside⟩ := registerNamespace_list _ hl tx e
  refine ⟨tx', ?_, hwrites, hside⟩
  unfold registerNamespaces
  rw [hfold]

/-- The slug of a registry path. -/
def CadoPath.slug? : CadoPath → Option Text
  | .namespace_registry slug => some slug
  | _ => none

theorem slug?_eq_some (slug : Text) (p : CadoPath) :
    p.slug? = some slug ↔ CadoPath.namespace_registry slug = p := by
  cases p <;> simp [CadoPath.slug?, eq_comm]

theorem stagedNamespace_eq (o : Outside) (e : AppStateEnvelope) (p : CadoPath) :
    e.stagedNamespace o p =
      p.slug?.bind (fun slug => e.namespace_registry_cache[slug]?.map (namespace_cado o slug)) := by
  cases p <;> rfl

/-- A registry path reads its registration, or else what was committed before. -/
theorem get_withNamespaces (o : Outside) (e : AppStateEnvelope) (p : CadoPath) :
    (withNamespaces o e.namespace_registry_cache.toList e).committed_cado_cache[p]? =
      (e.stagedNamespace o p).or e.committed_cado_cache[p]? := by
  rw [stagedNamespace_eq]
  exact finite_map.get_insertEach_rekeyed CadoPath.namespace_registry CadoPath.slug? slug?_eq_some
    (namespace_cado o) _ _ p

theorem index_withNamespaces (o : Outside) (e : AppStateEnvelope) (slug : Text) :
    (withNamespaces o e.namespace_registry_cache.toList e).namespace_registry_index[slug]? =
      (e.namespace_registry_cache[slug]?).or e.namespace_registry_index[slug]? := by
  have h := finite_map.get_insertEach_rekeyed (fun slug : Text => slug) some
    (fun _ _ => by simp [eq_comm]) (fun (_ : Text) (r : NamespaceRecord) => r)
    e.namespace_registry_cache e.namespace_registry_index slug
  rw [Option.bind_some, Option.map_id'] at h
  exact h

/-! ## The merge -/

/-- The epochs of the records in a list of paths, added to an index. -/
theorem mem_epoch_fold {α : Type} (l : List (CadoPath × α)) (index : ExtTreeSet I64 compare)
    (epoch : I64) :
    epoch ∈ l.foldl (fun epochs p =>
      match epoch_number_from_record_path p.1 with
      | some epoch => epochs.insert epoch
      | none => epochs) index ↔
      epoch ∈ index ∨ ∃ q ∈ l, epoch_number_from_record_path q.1 = some epoch := by
  induction l generalizing index with
  | nil => simp
  | cons q l ih =>
    rw [List.foldl_cons, ih]
    rcases hq : epoch_number_from_record_path q.1 with _ | n
    · simp [hq]
    · simp only [ExtTreeSet.mem_insert, LawfulEqCmp.compare_eq_iff_eq, List.exists_mem_cons_iff, hq,
        Option.some.injEq]
      tauto

theorem insert_epochs_fold (l : List (CadoPath × CadoBody CadoData)) (e : AppStateEnvelope) :
    l.foldl (fun e p => e.insert_epoch_records_index_from_path p.1) e =
      { e with epoch_records_index := l.foldl (fun epochs p =>
          match epoch_number_from_record_path p.1 with
          | some epoch => epochs.insert epoch
          | none => epochs) e.epoch_records_index } := by
  induction l generalizing e with
  | nil => rfl
  | cons q l ih =>
    rw [List.foldl_cons, ih, List.foldl_cons]
    unfold AppStateEnvelope.insert_epoch_records_index_from_path
    rcases epoch_number_from_record_path q.1 with _ | n <;> rfl

/-- Merging the staged objects, when none of them is one of the storage layer. -/
theorem get_merge {W : Type} (f : CadoBody CadoData → W) (cache : CadoCache)
    (base : ExtTreeMap CadoPath W compare)
    (h : ∀ (p : CadoPath) b, cache[p]? = some b → p.is_infrastructure = false) (p : CadoPath) :
    (finite_map.insertEach (fun (path : CadoPath) (cado : CadoBody CadoData) =>
      if path.is_infrastructure then none else some (path, f cado)) cache.toList base)[p]? =
      (cache[p]?.map f).or base[p]? := by
  have hentry : (fun (path : CadoPath) (cado : CadoBody CadoData) =>
      if path.is_infrastructure then none else some (path, f cado)) =
      (fun k v => ((if k.is_infrastructure then none else some (f v)) : Option W).map
        (fun w => (k, w))) := by
    funext k v
    split <;> rfl
  rw [hentry, finite_map.get_insertEach_same_key]
  rcases hp : cache[p]? with _ | b
  · rfl
  · rw [Option.bind_some, h p b hp]
    rfl

/-! ## The whole commit -/

/-- The staging caches are empty. -/
structure Cleared (e : AppStateEnvelope) : Prop where
  cado_cache : e.cado_cache = ∅
  cado_cache_to_delete : e.cado_cache_to_delete = []
  pinboard_meta_cache : e.pinboard_meta_cache = ∅
  pinboard_refcount_deltas : e.pinboard_refcount_deltas = ∅
  pinboard_idx_wallet_add : e.pinboard_idx_wallet_add = []
  pinboard_idx_tag_add : e.pinboard_idx_tag_add = []
  pinboard_idx_expiry_add : e.pinboard_idx_expiry_add = []
  pinboard_idx_commit_add : e.pinboard_idx_commit_add = []
  verified_proof_rewarded_cache : e.verified_proof_rewarded_cache = ∅
  failed_proof_counted_cache : e.failed_proof_counted_cache = ∅
  namespace_registry_cache : e.namespace_registry_cache = ∅

/-- The objects whose leaves a commit inserts, in the order of the insertions: the registered
ones by growing slug, and then the staged ones by growing path. -/
def AppStateEnvelope.insertedObjects (o : Outside) (e : AppStateEnvelope) :
    List (CadoPath × CadoBody CadoData) :=
  e.namespace_registry_cache.toList.map
    (fun q => (.namespace_registry q.1, namespace_cado o q.1 q.2)) ++ e.cado_cache.toList

/-- The trie after the leaves of these objects were inserted into it. -/
def StateTrie.insertObjects (o : Outside) (t : StateTrie) (l : List (CadoPath × CadoBody CadoData)) :
    StateTrie := l.foldl (fun t q => t.insert o q.1 q.2.content_hash) t

/-- `e'` is `e` with everything staged committed. -/
structure Committed (o : Outside) (pc : ProtocolConstants) (e e' : AppStateEnvelope) : Prop
    extends Cleared e' where
  objects : ∀ p : CadoPath, e'.committed_cado_cache[p]? =
    e.cado_cache[p]?.or ((e.stagedNamespace o p).or e.committed_cado_cache[p]?)
  trie : e'.state_trie = e.state_trie.insertObjects o (e.insertedObjects o)
  epochs : ∀ epoch, epoch ∈ e'.epoch_records_index ↔ epoch ∈ e.epoch_records_index ∨
    ∃ p : CadoPath, e.cado_cache[p]?.isSome = true ∧ epoch_number_from_record_path p = some epoch
  namespaces : ∀ slug : Text, e'.namespace_registry_index[slug]? =
    e.namespace_registry_cache[slug]?.or e.namespace_registry_index[slug]?
  block_height : e'.block_height = e.block_height
  current_epoch : e'.current_epoch = e.current_epoch
  validators : e'.validators = e.validators
  active_validators : e'.active_validators = (selectForNextEpoch pc e).active_validators
  capacity_validators : e'.capacity_validators = e.capacity_validators
  active_capacity_validator : e'.active_capacity_validator = e.active_capacity_validator
  failed_proof_counts : e'.failed_proof_counts = e.failed_proof_counts

/-- The objects of the chain state that a commit puts. -/
def ChainKind (o : Outside) (e : AppStateEnvelope) (p : CadoPath) (body : CadoBody StoredData) :
    Prop := StagedKind e.cado_cache p body ∨ RegistryKind o e p body

theorem mergeStaged.spec (h : GoodStaged o e) :
    (∀ p : CadoPath, (mergeStaged o e).committed_cado_cache[p]? =
      e.cado_cache[p]?.or e.committed_cado_cache[p]?) ∧
    (mergeStaged o e).state_trie = e.state_trie.insertObjects o e.cado_cache.toList ∧
    (∀ epoch, epoch ∈ (mergeStaged o e).epoch_records_index ↔ epoch ∈ e.epoch_records_index ∨
      ∃ p : CadoPath, e.cado_cache[p]?.isSome = true ∧
        epoch_number_from_record_path p = some epoch) := by
  have hinfra : ∀ (p : CadoPath) b, e.cado_cache[p]? = some b → p.is_infrastructure = false :=
    fun p b hp => (h.objects p b hp).1.not_infrastructure
  refine ⟨fun p => ?_, ?_, fun epoch => ?_⟩
  · simp only [mergeStaged, insert_epochs_fold]
    have hget := get_merge (fun b => b) e.cado_cache e.committed_cado_cache hinfra p
    rw [Option.map_id'] at hget
    exact hget
  · simp only [mergeStaged, insert_epochs_fold]
    apply List.foldl_ext
    intro t q hq
    rw [finite_map.mem_toList] at hq
    rw [hinfra q.1 q.2 hq]
    rfl
  · simp only [mergeStaged, insert_epochs_fold, mem_epoch_fold]
    apply or_congr Iff.rfl
    constructor
    · rintro ⟨q, hq, hn⟩
      rw [finite_map.mem_toList] at hq
      exact ⟨q.1, by rw [hq]; rfl, hn⟩
    · rintro ⟨p, hp, hn⟩
      obtain ⟨b, hb⟩ := Option.isSome_iff_exists.mp hp
      exact ⟨(p, b), (finite_map.mem_toList _ _).mpr hb, hn⟩

theorem mergeStaged_rest (o : Outside) (e : AppStateEnvelope) :
    mergeStaged o e = { e with
      committed_cado_cache := (mergeStaged o e).committed_cado_cache
      epoch_records_index := (mergeStaged o e).epoch_records_index
      state_trie := (mergeStaged o e).state_trie } := by
  simp only [mergeStaged, insert_epochs_fold]

/-- The state between the registrations and the merge. -/
def registeredState (o : Outside) (e : AppStateEnvelope) : AppStateEnvelope :=
  { withNamespaces o e.namespace_registry_cache.toList (clearStaged e) with
    namespace_registry_cache := ∅ }

theorem goodStaged_registeredState (h : GoodStaged o e) : GoodStaged o (registeredState o e) :=
  ⟨h.objects, by simp [registeredState], h.no_deletes, h.registered⟩

theorem dropDeleted_of_good (h : GoodStaged o e) : dropDeleted o e = e := by
  unfold dropDeleted
  rw [h.no_deletes]
  simp only [List.foldl_nil]
  rw [← h.no_deletes]

/-- What a commit writes of the chain state. -/
def AppStateEnvelope.chainWrites (o : Outside) (e : AppStateEnvelope) :
    List (CadoPath × CadoBody StoredData) := e.stagedWrites ++ e.registryWrites o

theorem mem_chainWrites {q : CadoPath × CadoBody StoredData} (h : q ∈ e.chainWrites o) :
    ChainKind o e q.1 q.2 := by
  rcases List.mem_append.mp h with h | h
  · exact Or.inl (mem_stagedWrites h)
  · exact Or.inr (mem_registryWrites h)

/-- The staged writes of a good state: every one of them is made. -/
theorem writeStaged.spec {tx : Storage} (hg : Good o e st)
    (h : writeStaged o st e = .ok (tx, e')) :
    e' = mergeStaged o (registeredState o e) ∧ Writes o (e.chainWrites o) st tx ∧
      SameAside (flushProofs (flushPinboard st e) e) tx := by
  obtain ⟨tx₁, hput, hwrites₁, hside₁⟩ := putStaged.spec hg.staged st
  unfold writeStaged at h
  rw [hg.staged.no_deletes, deletePending] at h
  simp only [dropDeleted_of_good hg.staged, hput] at h
  split at h
  · cases h
  · have hclear : GoodStaged o (clearStaged e) :=
      ⟨hg.staged.objects, hg.staged.slugs, hg.staged.no_deletes, hg.staged.registered⟩
    obtain ⟨tx₂, hreg, hwrites₂, hside₂⟩ :=
      registerNamespaces.spec hclear (flushProofs (flushPinboard tx₁ e) e)
    rw [hreg] at h
    simp only [Except.ok.injEq, Prod.mk.injEq] at h
    obtain ⟨htx, he'⟩ := h
    subst htx
    have hflush : Writes o (e.registryWrites o) tx₁ tx₂ := by
      refine Writes.aside ?_ ?_ hwrites₂
      · rfl
      · rfl
    have hflushed : SameAside (flushProofs (flushPinboard st e) e)
        (flushProofs (flushPinboard tx₁ e) e) := by
      unfold SameAside flushProofs flushPinboard
      simp only [hside₁.1, hside₁.2.1, hside₁.2.2, and_self]
    exact ⟨he'.symm, hwrites₁.append hflush, hflushed.trans hside₂⟩

/-- Selecting the validators of the next epoch changes nothing else. -/
theorem selectForNextEpoch_eq (pc : ProtocolConstants) (e : AppStateEnvelope) :
    selectForNextEpoch pc e =
      { e with active_validators := (selectForNextEpoch pc e).active_validators } := by
  unfold selectForNextEpoch
  split <;> rfl

theorem good_selectForNextEpoch (pc : ProtocolConstants) (hg : Good o e st) :
    Good o (selectForNextEpoch pc e) st := by
  rw [selectForNextEpoch_eq]
  exact ⟨⟨hg.staged.objects, hg.staged.slugs, hg.staged.no_deletes, hg.staged.registered⟩,
    hg.committed.of_same ⟨rfl, rfl, rfl, rfl⟩⟩

/-- The registrations and the merge of a good state commit everything staged. -/
theorem committed_of_merge (pc : ProtocolConstants) (h : GoodStaged o e) :
    Committed o pc e { mergeStaged o (registeredState o (selectForNextEpoch pc e)) with
      cado_cache := ∅ } := by
  rw [selectForNextEpoch_eq]
  generalize hactive : (selectForNextEpoch pc e).active_validators = active
  have hgood : GoodStaged o { e with active_validators := active } :=
    ⟨h.objects, h.slugs, h.no_deletes, h.registered⟩
  obtain ⟨hobjects, htrie, hepochs⟩ := mergeStaged.spec (goodStaged_registeredState hgood)
  rw [mergeStaged_rest]
  refine ⟨⟨rfl, h.no_deletes, rfl, rfl, rfl, rfl, rfl, rfl, rfl, rfl, rfl⟩, fun p => ?_,
    ?_, hepochs, fun slug => ?_, rfl, rfl, rfl, hactive.symm, rfl, rfl, rfl⟩
  · exact (hobjects p).trans (congrArg _
      (get_withNamespaces o (clearStaged { e with active_validators := active }) p))
  · unfold AppStateEnvelope.insertedObjects StateTrie.insertObjects
    rw [List.foldl_append, List.foldl_map]
    exact htrie
  · exact index_withNamespaces o (clearStaged { e with active_validators := active }) slug

/-- What a commit of the open state `s` does to the node. -/
structure CommitStep (o : Outside) (pc : ProtocolConstants) (s : AppState)
    (c c' : ConsensusConnection) : Prop where
  app_hash : c'.committed_state.app_hash = s.app_hash
  chain_id : c'.committed_state.chain_id = s.chain_id
  current_state : c'.current_state = c.current_state
  envelope : Committed o pc s.envelope c'.committed_state.envelope
  storage : ∃ app_hash tx tx₁, s.app_hash.data = some app_hash ∧
    Puts o (ChainKind o s.envelope) c.storage tx ∧
    storeTip o tx ⟨c'.committed_state.envelope.block_height,
      c'.committed_state.envelope.state_trie.root_hash, app_hash⟩ = .ok tx₁ ∧
    storeSnapshot o pc tx₁ c'.committed_state = .ok c'.storage
  vp_rewarded : c'.storage.vp_rewarded =
    insertAll s.envelope.verified_proof_rewarded_cache c.storage.vp_rewarded
  vp_failed : c'.storage.vp_failed =
    insertAll s.envelope.failed_proof_counted_cache c.storage.vp_failed

theorem storeTip_sameAside {tip : AppStateTip} (h : storeTip o st tip = .ok st') :
    SameAside st st' := by
  unfold storeTip at h
  simp only at h
  split at h
  · cases h
  · rename_i tx₁ hput
    exact (put_sameAside hput).trans (put_sameAside h)

theorem storeSnapshot_sameAside {s : AppState} (h : storeSnapshot o pc st s = .ok st') :
    SameAside st st' := by
  unfold storeSnapshot at h
  split at h
  · split at h
    · cases h
    · exact put_sameAside h
  · cases h
    exact ⟨rfl, rfl, rfl⟩

/-- The writes of a commit: the objects of the chain state, then the tip and the snapshot of
the state that it leaves. -/
theorem commit_inner.writes {c c' : ConsensusConnection} {s : AppState}
    (hs : c.current_state = some s) (hg : Good o s.envelope c.storage)
    (h : commit_inner o pc c = .ok c') :
    c'.committed_state = { s with envelope :=
      { mergeStaged o (registeredState o (selectForNextEpoch pc s.envelope)) with cado_cache := ∅ } } ∧
    c'.current_state = c.current_state ∧
    ∃ app_hash tx tx₁, s.app_hash.data = some app_hash ∧
      Writes o (s.envelope.chainWrites o) c.storage tx ∧
      SameAside (flushProofs (flushPinboard c.storage s.envelope) s.envelope) tx ∧
      storeTip o tx ⟨c'.committed_state.envelope.block_height,
        c'.committed_state.envelope.state_trie.root_hash, app_hash⟩ = .ok tx₁ ∧
      storeSnapshot o pc tx₁ c'.committed_state = .ok c'.storage := by
  unfold commit_inner at h
  simp only [hs] at h
  split at h
  · cases h
  · rename_i app_hash happ
    split at h
    · cases h
    · rename_i tx e₁ hwrite
      split at h
      · cases h
      · rename_i tx₁ htip
        split at h
        · cases h
        · rename_i tx₂ hsnap
          cases h
          obtain ⟨he₁, hwrites, hwritten⟩ :=
            writeStaged.spec (good_selectForNextEpoch pc hg) hwrite
          subst he₁
          rw [selectForNextEpoch_eq] at hwrites hwritten
          exact ⟨rfl, hs.symm, app_hash, tx, tx₁, happ, hwrites, hwritten, htip, hsnap⟩

theorem commit_inner.spec {c c' : ConsensusConnection} {s : AppState}
    (hs : c.current_state = some s) (hg : Good o s.envelope c.storage)
    (h : commit_inner o pc c = .ok c') : CommitStep o pc s c c' := by
  obtain ⟨hstate, hcurrent, app_hash, tx, tx₁, happ, hwrites, hwritten, htip, hsnap⟩ :=
    commit_inner.writes hs hg h
  have hputs := hwrites.puts (fun _ => mem_chainWrites)
  have hside := (hwritten.trans (storeTip_sameAside htip)).trans (storeSnapshot_sameAside hsnap)
  have hcommitted : Committed o pc s.envelope c'.committed_state.envelope := by
    rw [hstate]
    exact committed_of_merge pc hg.staged
  have hsame : c'.committed_state.app_hash = s.app_hash ∧
      c'.committed_state.chain_id = s.chain_id := by
    rw [hstate]
    exact ⟨rfl, rfl⟩
  exact ⟨hsame.1, hsame.2, hcurrent, hcommitted, ⟨app_hash, tx, tx₁, happ, hputs, htip, hsnap⟩,
    hside.1, hside.2.1⟩

end eld_chain
