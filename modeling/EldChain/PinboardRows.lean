-- A row of the pinboard is written once and a reference count is the
-- number of messages that carry its content. Ids come from the senders
-- and nothing compares them, so this holds of a run exactly when no message
-- uses a key that another one has.
import EldChain.Pinboard
import EldChain.EpochRecords

open Std

namespace eld_chain

variable {o : Outside} {pc : ProtocolConstants} {t t' : PinboardTables}

/-! ## Keys -/

/-- The keys under which the metadata of a message stands. -/
def metadataKeys (message_id : Text) (m : PinboardMessageMetadata) : List Text :=
  message_id :: (m.namespace_.map
    (fun namespace_ => pinboard_namespace_content_path namespace_ message_id)).toList

def PinboardMessageMetadata.keys (m : PinboardMessageMetadata) : List Text :=
  metadataKeys m.message_id m

/-- A path is longer than the id in it. -/
theorem path_ne_id (namespace_ message_id : Text) :
    pinboard_namespace_content_path namespace_ message_id ≠ message_id := by
  intro heq
  have hlen := congrArg List.length heq
  unfold pinboard_namespace_content_path at hlen
  simp at hlen
  omega

theorem metadataKeys_nodup (message_id : Text) (m : PinboardMessageMetadata) :
    (metadataKeys message_id m).Nodup := by
  unfold metadataKeys
  cases m.namespace_ with
  | none => simp
  | some namespace_ => simp [(path_ne_id namespace_ message_id).symm]

/-! ## What a put leaves -/

theorem put_metadata_writes : finite_map.Writes (fun (t : PinboardTables) k => t.metadata[k]?)
    (fun t p => t.put_pinboard_metadata_with_tx p.1 p.2) (fun p => metadataKeys p.1 p.2)
    Prod.snd := by
  rintro t ⟨message_id, m⟩ j
  unfold PinboardTables.put_pinboard_metadata_with_tx metadataKeys
  cases hnamespace : m.namespace_ with
  | none =>
    simp only [hnamespace, finite_map.get_insert, Option.map_none, Option.toList_none,
      List.mem_singleton]
    exact ⟨fun heq => if_pos heq.symm, fun hne => if_neg (Ne.symm hne)⟩
  | some namespace_ =>
    simp only [hnamespace, finite_map.get_insert, Option.map_some, Option.toList_some,
      List.mem_cons, List.not_mem_nil, or_false]
    constructor
    · rintro (rfl | rfl)
      · simp
      · simp
    · intro hnot
      simp only [not_or] at hnot
      rw [if_neg (Ne.symm hnot.2), if_neg (Ne.symm hnot.1)]

theorem add_writes : finite_map.Writes (fun (s : StagedPosts) k => s.meta_cache[k]?)
    StagedPosts.add (fun m => [m.message_id]) id := by
  intro s m j
  unfold StagedPosts.add
  simp only [finite_map.get_insert, List.mem_singleton, id_eq]
  exact ⟨fun heq => if_pos heq.symm, fun hne => if_neg (Ne.symm hne)⟩

/-- A loop that leaves a column at each step leaves it. -/
theorem foldl_column {A B : Type} {f : PinboardTables → A → PinboardTables}
    {column : PinboardTables → B} (h : ∀ t a, column (f t a) = column t) (l : List A)
    (t : PinboardTables) : column (l.foldl f t) = column t := by
  induction l generalizing t with
  | nil => rfl
  | cons a l ih => exact (ih (f t a)).trans (h t a)

theorem putIndexes_metadata (t : PinboardTables) (e : AppStateEnvelope) :
    (t.putIndexes e).metadata = t.metadata := by
  unfold PinboardTables.putIndexes
  simp only
  refine (foldl_column ?_ _ _).trans ((foldl_column ?_ _ _).trans
    ((foldl_column ?_ _ _).trans (foldl_column ?_ _ _)))
  all_goals
    intro _ _
    rfl

/-! ## The staged messages -/

variable {posted : List PinboardMessageMetadata}

/-- The staged metadata are those of accepted messages, under their ids. -/
theorem mem_staged {k : Text} {m : PinboardMessageMetadata}
    (h : (StagedPosts.empty.addAll posted).meta_cache[k]? = some m) :
    m ∈ posted ∧ k = m.message_id := by
  rcases add_writes.of_read h with ⟨a, ha, hk, rfl⟩ | hnone
  · exact ⟨ha, List.mem_singleton.mp hk⟩
  · simp [StagedPosts.empty] at hnone

/-- A message whose id no other one has is staged. -/
theorem staged_of_mem {m : PinboardMessageMetadata} (h : m ∈ posted)
    (hagree : ∀ m' ∈ posted, m'.message_id = m.message_id → m' = m) :
    (StagedPosts.empty.addAll posted).meta_cache[m.message_id]? = some m := by
  apply add_writes.read_of_agree
  · intro m' hm' hk
    exact hagree m' hm' (List.mem_singleton.mp hk).symm
  · exact Or.inl ⟨m, h, List.mem_singleton.mpr rfl⟩

/-- A content is staged as often as an accepted message carries it. -/
theorem staged_count (s : StagedPosts) (content_key : Text) :
    (s.addAll posted).refcount_deltas.getD content_key 0 =
      s.refcount_deltas.getD content_key 0 +
        (posted.countP (fun m => m.content_key = content_key) : Nat) := by
  induction posted generalizing s with
  | nil => simp [StagedPosts.addAll]
  | cons m posted ih =>
    have hrest := ih (s.add m)
    unfold StagedPosts.addAll at hrest ⊢
    rw [List.foldl_cons, hrest, List.countP_cons]
    unfold StagedPosts.add
    rw [ExtTreeMap.getD_insert]
    by_cases hkey : m.content_key = content_key
    · simp [hkey]
      omega
    · simp [hkey]

/-! ## Reference counts -/

def PinboardTables.refcount (t : PinboardTables) (content_key : Text) : UInt64 :=
  t.refcounts.getD content_key 0

theorem updateRefcounts_untouched {l : List (Text × Int)}
    {counts counts' : ExtTreeMap Text UInt64 compare} (h : updateRefcounts l counts = .ok counts')
    {key : Text} (hkey : key ∉ l.map Prod.fst) : counts'.getD key 0 = counts.getD key 0 := by
  induction l generalizing counts with
  | nil =>
    cases h
    rfl
  | cons p l ih =>
    rw [List.map_cons, List.mem_cons, not_or] at hkey
    unfold updateRefcounts update_pinboard_refcount_with_tx at h
    simp only at h
    by_cases hneg : ((counts.getD p.1 0).toNat : Int) + p.2 < 0
    · rw [if_pos hneg] at h
      cases h
    · rw [if_neg hneg] at h
      rw [ih h hkey.2, ExtTreeMap.getD_insert, if_neg]
      rw [LawfulEqCmp.compare_eq_iff_eq]
      exact Ne.symm hkey.1

/-- A count takes what was staged for it, in 64 bits. -/
theorem updateRefcounts_touched {l : List (Text × Int)}
    {counts counts' : ExtTreeMap Text UInt64 compare} (h : updateRefcounts l counts = .ok counts')
    (hnodup : (l.map Prod.fst).Nodup) {key : Text} {delta : Nat} (hmem : (key, (delta : Int)) ∈ l) :
    (counts'.getD key 0).toNat = ((counts.getD key 0).toNat + delta) % 2 ^ 64 := by
  induction l generalizing counts with
  | nil => cases hmem
  | cons p l ih =>
    rw [List.map_cons, List.nodup_cons] at hnodup
    unfold updateRefcounts update_pinboard_refcount_with_tx at h
    simp only at h
    by_cases hneg : ((counts.getD p.1 0).toNat : Int) + p.2 < 0
    · rw [if_pos hneg] at h
      cases h
    · rw [if_neg hneg] at h
      rcases List.mem_cons.mp hmem with rfl | hmem
      · have hnext : (((counts.getD key 0).toNat : Int) + (delta : Int)).toNat =
            (counts.getD key 0).toNat + delta := by omega
        rw [updateRefcounts_untouched h hnodup.1, ExtTreeMap.getD_insert_self]
        simp only
        rw [hnext, UInt64.toNat_ofNat']
      · have hne : p.1 ≠ key := by
          rintro rfl
          exact hnodup.1 (List.mem_map.mpr ⟨_, hmem, rfl⟩)
        rw [ih h hnodup.2 hmem, ExtTreeMap.getD_insert, if_neg]
        rw [LawfulEqCmp.compare_eq_iff_eq]
        exact hne

theorem PinboardTables.commit.spec {e : AppStateEnvelope} (h : t.commit e = .ok t') :
    t'.metadata = (t.putMetadata e).metadata ∧
      updateRefcounts e.pinboard_refcount_deltas.toList t.refcounts = .ok t'.refcounts := by
  unfold PinboardTables.commit at h
  cases hcounts : updateRefcounts e.pinboard_refcount_deltas.toList t.refcounts with
  | error err =>
    rw [hcounts] at h
    cases h
  | ok counts =>
    rw [hcounts] at h
    cases h
    exact ⟨putIndexes_metadata _ e, rfl⟩

/-- A count grows by the accepted messages that carry its content. -/
theorem refcount_commit {e : AppStateEnvelope}
    (hstaged : e.staged_posts = StagedPosts.empty.addAll posted) (h : t.commit e = .ok t')
    (content_key : Text) :
    (t'.refcount content_key).toNat = ((t.refcount content_key).toNat +
      posted.countP (fun m => m.content_key = content_key)) % 2 ^ 64 := by
  obtain ⟨_, hcounts⟩ := PinboardTables.commit.spec h
  have hdelta := @staged_count posted .empty content_key
  rw [← hstaged] at hdelta
  have hdelta : e.pinboard_refcount_deltas.getD content_key 0 =
      (posted.countP (fun m => m.content_key = content_key) : Nat) := by
    rw [show e.pinboard_refcount_deltas = e.staged_posts.refcount_deltas from rfl, hdelta]
    simp [StagedPosts.empty]
  unfold PinboardTables.refcount
  rw [ExtTreeMap.getD_eq_getD_getElem?] at hdelta
  cases hget : e.pinboard_refcount_deltas[content_key]? with
  | none =>
    rw [hget, Option.getD_none] at hdelta
    rw [updateRefcounts_untouched hcounts, Int.ofNat_inj.mp hdelta.symm, Nat.add_zero,
      Nat.mod_eq_of_lt (UInt64.toNat_lt _)]
    rw [ExtTreeMap.map_fst_toList_eq_keys, ExtTreeMap.mem_keys,
      ExtTreeMap.mem_iff_isSome_getElem?, hget]
    simp
  | some delta =>
    rw [hget, Option.getD_some] at hdelta
    apply updateRefcounts_touched hcounts
    · rw [ExtTreeMap.map_fst_toList_eq_keys]
      exact ExtTreeMap.nodup_keys
    · rw [finite_map.mem_toList, hget, hdelta]

/-! ## Messages -/

/-- The messages whose row carries a content. A path is no id, so each message counts once. -/
def PinboardTables.messagesWith (t : PinboardTables) (content_key : Text) : Nat :=
  finite_map.total (fun k (m : PinboardMessageMetadata) =>
    if k = m.message_id ∧ m.content_key = content_key then 1 else 0) t.metadata

/-- A message under new keys is one more. -/
theorem messagesWith_put {m : PinboardMessageMetadata}
    (hfresh : ∀ k ∈ m.keys, t.metadata[k]? = none) (content_key : Text) :
    (t.put_pinboard_metadata_with_tx m.message_id m).messagesWith content_key =
      t.messagesWith content_key + if m.content_key = content_key then 1 else 0 := by
  have hid := hfresh m.message_id List.mem_cons_self
  unfold PinboardTables.messagesWith PinboardTables.put_pinboard_metadata_with_tx
  have hfirst := finite_map.total_insert (fun k (m : PinboardMessageMetadata) =>
    if k = m.message_id ∧ m.content_key = content_key then 1 else 0) t.metadata m.message_id m
  unfold finite_map.weightAt at hfirst
  rw [hid] at hfirst
  simp only [true_and, Option.map_none, Option.getD_none, Nat.add_zero] at hfirst
  cases hnamespace : m.namespace_ with
  | none => exact hfirst
  | some namespace_ =>
    have hne := path_ne_id namespace_ m.message_id
    have hpath := hfresh (pinboard_namespace_content_path namespace_ m.message_id)
      (by simp [PinboardMessageMetadata.keys, metadataKeys, hnamespace])
    have hsecond := finite_map.total_insert (fun k (m : PinboardMessageMetadata) =>
      if k = m.message_id ∧ m.content_key = content_key then 1 else 0)
      (t.metadata.insert m.message_id m) (pinboard_namespace_content_path namespace_ m.message_id) m
    unfold finite_map.weightAt at hsecond
    rw [finite_map.get_insert_of_ne _ _ hne.symm, hpath] at hsecond
    simp only [hne, false_and, if_false, Option.map_none, Option.getD_none,
      Nat.add_zero] at hsecond
    exact hsecond.trans hfirst

/-- Messages under new keys, each of its own, are as many more. -/
theorem messagesWith_putAll {l : List (Text × PinboardMessageMetadata)}
    (hid : ∀ p ∈ l, p.1 = p.2.message_id) (hnodup : (l.flatMap (fun p => p.2.keys)).Nodup)
    (hfresh : ∀ p ∈ l, ∀ k ∈ p.2.keys, t.metadata[k]? = none) (content_key : Text) :
    (l.foldl (fun t p => t.put_pinboard_metadata_with_tx p.1 p.2) t).messagesWith content_key =
      t.messagesWith content_key + l.countP (fun p => p.2.content_key = content_key) := by
  induction l generalizing t with
  | nil => rfl
  | cons p l ih =>
    rw [List.flatMap_cons, List.nodup_append] at hnodup
    obtain ⟨_, hrest, hapart⟩ := hnodup
    have hp := hid p List.mem_cons_self
    rw [List.foldl_cons, ih (fun q hq => hid q (List.mem_cons_of_mem _ hq)) hrest, hp,
      messagesWith_put (hfresh p List.mem_cons_self), List.countP_cons]
    · by_cases hkey : p.2.content_key = content_key
      · simp [hkey]
        omega
      · simp [hkey]
    · intro q hq k hk
      have hnot : k ∉ metadataKeys p.1 p.2 := by
        intro hmem
        rw [hp] at hmem
        exact hapart k hmem k (List.mem_flatMap.mpr ⟨q, hq, hk⟩) rfl
      exact ((put_metadata_writes t p k).2 hnot).trans
        (hfresh q (List.mem_cons_of_mem _ hq) k hk)

/-! ## One commit -/

/-- What a commit of these messages should leave: every row of before, the rows of every
message, and counts of messages. -/
structure PinboardTables.WriteOnce (t t' : PinboardTables) (posted : List PinboardMessageMetadata) :
    Prop where
  kept : ∀ (k : Text) m, t.metadata[k]? = some m → t'.metadata[k]? = some m
  written : ∀ m ∈ posted, ∀ k ∈ m.keys, t'.metadata[k]? = some m
  counted : ∀ content_key, (t'.refcount content_key).toNat = t'.messagesWith content_key

/-- No message uses a key of the tables or of another message, and each is accepted once. A
count only shows its low 64 bits. -/
structure PinboardTables.Fresh (t : PinboardTables) (posted : List PinboardMessageMetadata) :
    Prop where
  unused : ∀ m ∈ posted, ∀ k ∈ m.keys, t.metadata[k]? = none
  apart : ∀ m ∈ posted, ∀ m' ∈ posted, m ≠ m' → ∀ k ∈ m.keys, k ∉ m'.keys
  once : ∀ content_key, (t.messagesWith content_key +
      posted.countP (fun m => m.content_key = content_key)) % 2 ^ 64 =
    t.messagesWith content_key + posted.dedup.countP (fun m => m.content_key = content_key)

theorem mem_posted_iff {m : PinboardMessageMetadata}
    (hapart : ∀ m ∈ posted, ∀ m' ∈ posted, m ≠ m' → ∀ k ∈ m.keys, k ∉ m'.keys) :
    m ∈ (StagedPosts.empty.addAll posted).meta_cache.toList.map Prod.snd ↔ m ∈ posted := by
  rw [List.mem_map]
  constructor
  · rintro ⟨p, hp, rfl⟩
    exact (mem_staged ((finite_map.mem_toList _ p).mp hp)).1
  · intro hm
    refine ⟨(m.message_id, m), (finite_map.mem_toList _ _).mpr (staged_of_mem hm ?_), rfl⟩
    intro m' hm' hid
    by_contra hne
    apply hapart m' hm' m hm hne m'.message_id List.mem_cons_self
    rw [hid]
    exact List.mem_cons_self

/-- Each message is staged once, and as no other one. -/
theorem staged_perm
    (hapart : ∀ m ∈ posted, ∀ m' ∈ posted, m ≠ m' → ∀ k ∈ m.keys, k ∉ m'.keys) :
    ((StagedPosts.empty.addAll posted).meta_cache.toList.map Prod.snd).Perm posted.dedup := by
  have hnodup : ((StagedPosts.empty.addAll posted).meta_cache.toList.map Prod.snd).Nodup := by
    have hkeys : ((StagedPosts.empty.addAll posted).meta_cache.toList.map Prod.fst).Nodup := by
      rw [ExtTreeMap.map_fst_toList_eq_keys]
      exact ExtTreeMap.nodup_keys
    have hids : ((StagedPosts.empty.addAll posted).meta_cache.toList.map Prod.snd).map
        PinboardMessageMetadata.message_id =
        (StagedPosts.empty.addAll posted).meta_cache.toList.map Prod.fst := by
      rw [List.map_map]
      apply List.map_congr_left
      intro p hp
      exact (mem_staged ((finite_map.mem_toList _ p).mp hp)).2.symm
    rw [← hids] at hkeys
    exact hkeys.of_map _
  rw [List.perm_ext_iff_of_nodup hnodup (List.nodup_dedup posted)]
  intro m
  rw [mem_posted_iff hapart, List.mem_dedup]

variable {e : AppStateEnvelope}

theorem messagesWith_commit (hstaged : e.staged_posts = StagedPosts.empty.addAll posted)
    (h : t.commit e = .ok t') (hunused : ∀ m ∈ posted, ∀ k ∈ m.keys, t.metadata[k]? = none)
    (hapart : ∀ m ∈ posted, ∀ m' ∈ posted, m ≠ m' → ∀ k ∈ m.keys, k ∉ m'.keys)
    (content_key : Text) : t'.messagesWith content_key = t.messagesWith content_key +
      posted.dedup.countP (fun m => m.content_key = content_key) := by
  have hcache : e.pinboard_meta_cache = (StagedPosts.empty.addAll posted).meta_cache :=
    congrArg StagedPosts.meta_cache hstaged
  have hperm := staged_perm hapart
  rw [← hcache] at hperm
  have hmem : ∀ p ∈ e.pinboard_meta_cache.toList, p.2 ∈ posted ∧ p.1 = p.2.message_id := by
    intro p hp
    rw [hcache] at hp
    exact mem_staged ((finite_map.mem_toList _ p).mp hp)
  have hkeys : (e.pinboard_meta_cache.toList.flatMap (fun p => p.2.keys)).Nodup := by
    have hmap : e.pinboard_meta_cache.toList.flatMap (fun p => p.2.keys) =
        (e.pinboard_meta_cache.toList.map Prod.snd).flatMap PinboardMessageMetadata.keys := by
      rw [List.flatMap_map]
    rw [hmap, (hperm.flatMap_right _).nodup_iff, List.nodup_flatMap]
    refine ⟨fun m _ => metadataKeys_nodup _ m, ?_⟩
    apply (List.nodup_dedup posted).pairwise_of_forall_ne
    intro m hm m' hm' hne k hk hk'
    exact hapart m (List.mem_dedup.mp hm) m' (List.mem_dedup.mp hm') hne k hk hk'
  have hput := messagesWith_putAll (t := t) (fun p hp => (hmem p hp).2) hkeys
    (fun p hp => hunused p.2 (hmem p hp).1) content_key
  unfold PinboardTables.messagesWith
  rw [(PinboardTables.commit.spec h).1]
  refine hput.trans ?_
  rw [← hperm.countP_eq, List.countP_map]
  rfl

/-- What a row reads after a commit. -/
theorem metadata_commit (hstaged : e.staged_posts = StagedPosts.empty.addAll posted)
    (h : t.commit e = .ok t') {k : Text} {m : PinboardMessageMetadata}
    (hagree : ∀ m' ∈ posted, k ∈ m'.keys → m' = m)
    (hsome : (∃ m' ∈ posted, k ∈ m'.keys ∧ ∀ m₂ ∈ posted, m₂.message_id = m'.message_id → m₂ = m') ∨
      t.metadata[k]? = some m) : t'.metadata[k]? = some m := by
  have hcache : e.pinboard_meta_cache = (StagedPosts.empty.addAll posted).meta_cache :=
    congrArg StagedPosts.meta_cache hstaged
  rw [(PinboardTables.commit.spec h).1]
  apply put_metadata_writes.read_of_agree
  · intro p hp hk
    rw [hcache] at hp
    obtain ⟨hposted, hid⟩ := mem_staged ((finite_map.mem_toList _ p).mp hp)
    rw [hid] at hk
    exact hagree p.2 hposted hk
  · rcases hsome with ⟨m', hm', hk, hid⟩ | hold
    · left
      refine ⟨(m'.message_id, m'), ?_, hk⟩
      rw [hcache, finite_map.mem_toList]
      exact staged_of_mem hm' hid
    · exact Or.inr hold

/-- Where no message can be the one that a row already has, a commit leaves the rows and the
counts right exactly when its messages are fresh. -/
theorem writeOnce_iff (hstaged : e.staged_posts = StagedPosts.empty.addAll posted)
    (h : t.commit e = .ok t')
    (hnew : ∀ m ∈ posted, ∀ k : Text, t.metadata[k]? ≠ some m)
    (hcounted : ∀ content_key, (t.refcount content_key).toNat = t.messagesWith content_key) :
    t.WriteOnce t' posted ↔ t.Fresh posted := by
  constructor
  · intro hlaw
    have hunused : ∀ m ∈ posted, ∀ k ∈ m.keys, t.metadata[k]? = none := by
      intro m hm k hk
      cases hold : t.metadata[k]? with
      | none => rfl
      | some m₀ =>
        have hkept := hlaw.kept k m₀ hold
        rw [hlaw.written m hm k hk] at hkept
        cases hkept
        exact absurd hold (hnew m hm k)
    have hapart : ∀ m ∈ posted, ∀ m' ∈ posted, m ≠ m' → ∀ k ∈ m.keys, k ∉ m'.keys := by
      intro m hm m' hm' hne k hk hk'
      have hrow := hlaw.written m hm k hk
      rw [hlaw.written m' hm' k hk'] at hrow
      exact hne (Option.some.inj hrow).symm
    refine ⟨hunused, hapart, ?_⟩
    intro content_key
    rw [← messagesWith_commit hstaged h hunused hapart, ← hlaw.counted, ← hcounted]
    exact (refcount_commit hstaged h content_key).symm
  · intro hfresh
    have hid : ∀ m ∈ posted, ∀ m' ∈ posted, m'.message_id = m.message_id → m' = m := by
      intro m hm m' hm' heq
      by_contra hne
      apply hfresh.apart m' hm' m hm hne m'.message_id List.mem_cons_self
      rw [heq]
      exact List.mem_cons_self
    refine ⟨?_, ?_, ?_⟩
    · intro k m hold
      apply metadata_commit hstaged h ?_ (Or.inr hold)
      intro m' hm' hk
      rw [hfresh.unused m' hm' k hk] at hold
      cases hold
    · intro m hm k hk
      apply metadata_commit hstaged h ?_ (Or.inl ⟨m, hm, hk, hid m hm⟩)
      intro m' hm' hk'
      by_contra hne
      exact hfresh.apart m' hm' m hm hne k hk' hk
    · intro content_key
      rw [refcount_commit hstaged h, messagesWith_commit hstaged h hfresh.unused hfresh.apart,
        hcounted]
      exact hfresh.once content_key

/-! ## Runs -/

variable {cfg : GenesisConfig} {n n' : PinboardNode}

/-- A node whose staged messages are the accepted ones, with the counts of its rows. A row is
older than the open block, and a message of the block is not. -/
structure PinboardNode.Good (o : Outside) (pc : ProtocolConstants) (n : PinboardNode) : Prop where
  good : NodeGood o n.node
  dated : NodeDated pc n.node
  staged : n.node.state.envelope.staged_posts = StagedPosts.empty.addAll n.posted
  grows : n.node.phase = .ended → n.node.conn.committed_state.envelope.block_height.val <
    n.node.state.envelope.block_height.val
  recent : ∀ m ∈ n.posted, (m.committed_height.toNat : Int) =
    n.node.conn.committed_state.envelope.block_height.val + 1
  older : ∀ (k : Text) m, n.tables.metadata[k]? = some m →
    (m.committed_height.toNat : Int) ≤ n.node.conn.committed_state.envelope.block_height.val
  counted : ∀ content_key, (n.tables.refcount content_key).toNat = n.tables.messagesWith content_key

/-- What a commit should leave in the tables. -/
def PinboardNode.RowsStand (o : Outside) (pc : ProtocolConstants) (n : PinboardNode) :
    Request → Prop
  | .Commit => ∀ n', n.step o pc .Commit = some n' → n.tables.WriteOnce n'.tables n.posted
  | _ => True

/-- A block is committed only with messages that are fresh. -/
def PinboardNode.Fresh (o : Outside) (pc : ProtocolConstants) (n : PinboardNode) :
    Request → Prop
  | .Commit => (n.step o pc .Commit).isSome → n.tables.Fresh n.posted
  | _ => True

theorem PinboardNode.step.spec {r : Request} (h : n.step o pc r = some n') :
    n.node.step o pc r = some n'.node ∧
      ((r = .Commit ∧ n.tables.commit n.node.state.envelope = .ok n'.tables ∧ n'.posted = []) ∨
      (r ≠ .Commit ∧ n'.tables = n.tables ∧
        n'.posted = n.posted ++ (n.node.accepted o pc r).toList)) := by
  unfold PinboardNode.step at h
  cases hnode : n.node.step o pc r with
  | none =>
    rw [hnode] at h
    cases h
  | some node =>
    rw [hnode] at h
    cases r with
    | Commit =>
      simp only at h
      cases htables : n.tables.commit n.node.state.envelope with
      | error err =>
        rw [htables] at h
        cases h
      | ok tables =>
        rw [htables] at h
        cases h
        exact ⟨rfl, Or.inl ⟨rfl, rfl, rfl⟩⟩
    | _ =>
      cases h
      exact ⟨rfl, Or.inr ⟨by simp, rfl, rfl⟩⟩

/-- Every call keeps the staged messages those that the open block has accepted. -/
theorem PinboardNode.step.staged {r : Request} (hgood : NodeGood o n.node)
    (hstaged : n.node.state.envelope.staged_posts = StagedPosts.empty.addAll n.posted)
    (hstep : n.step o pc r = some n') :
    n'.node.state.envelope.staged_posts = StagedPosts.empty.addAll n'.posted := by
  obtain ⟨hnode, hwrites⟩ := PinboardNode.step.spec hstep
  have hposts := (step_cases hnode).posts hgood
  rcases hwrites with ⟨rfl, _, hposted⟩ | ⟨hne, _, hposted⟩
  · rw [hposts, hposted]
    rfl
  · have hadded : n'.node.state.envelope.staged_posts =
        n.node.state.envelope.staged_posts.addAll (n.node.accepted o pc r).toList := by
      cases r with
      | Commit => exact absurd rfl hne
      | _ => exact hposts
    rw [hadded, hstaged, hposted]
    unfold StagedPosts.addAll
    rw [List.foldl_append]

/-- An ended block is higher than the committed state, which only a commit replaces. -/
theorem NodeStep.heights {n n' : Node} {r : Request} (h : NodeStep o pc n r n')
    (hg : NodeGood o n) (hd : NodeDated pc n) (hgrows : n.phase = .ended →
      n.conn.committed_state.envelope.block_height.val < n.state.envelope.block_height.val) :
    (n'.phase = .ended → n'.conn.committed_state.envelope.block_height.val <
      n'.state.envelope.block_height.val) ∧
    (r ≠ .Commit → n'.conn.committed_state = n.conn.committed_state) ∧
    (r = .Commit → n.conn.committed_state.envelope.block_height.val <
      n'.conn.committed_state.envelope.block_height.val) := by
  cases h with
  | begun => exact ⟨fun hended => (by cases hended), fun _ => rfl, fun hr => (by cases hr)⟩
  | turned_away => exact ⟨hgrows, fun _ => rfl, fun hr => (by cases hr)⟩
  | delivered => exact ⟨fun hended => (by cases hended), fun _ => rfl, fun hr => (by cases hr)⟩
  | @ended height s s' out phase grows current ends =>
    refine ⟨fun _ => ?_, fun _ => rfl, fun hr => (by cases hr)⟩
    obtain ⟨hstate, _⟩ := hg.of_current (by simp [phase]) current
    have hopen := hd.open_block phase
    have hworking := hd.working
    rw [hstate] at hopen hworking
    obtain ⟨hheight, _⟩ := endBlock_dated ends hworking (by rw [hopen]; exact grows)
    change n.conn.committed_state.envelope.block_height.val < s'.envelope.block_height.val
    rw [hheight]
    exact grows
  | @committed s c' phase current commits =>
    refine ⟨fun hended => (by cases hended), fun hr => absurd rfl hr, fun _ => ?_⟩
    obtain ⟨hstate, hgood⟩ := hg.of_current (by simp [phase]) current
    have hold := hgrows phase
    rw [hstate] at hold
    change _ < c'.committed_state.envelope.block_height.val
    rw [(commit_inner.spec current hgood commits).envelope.block_height]
    exact hold
  | uploaded => exact ⟨hgrows, fun _ => rfl, fun hr => (by cases hr)⟩

/-- The message that a request stages is of the height after the committed one. -/
theorem accepted_height {n : Node} {r : Request} {m : PinboardMessageMetadata}
    (hd : NodeDated pc n) (hphase : n.phase = .delivering) (h : n.accepted o pc r = some m) :
    (m.committed_height.toNat : Int) = n.conn.committed_state.envelope.block_height.val + 1 := by
  have hopen := hd.open_block hphase
  have hpos := hd.committed.height
  have hhi := n.conn.committed_state.envelope.block_height.hi
  have hheight : m.committed_height = asU64 (n.state.envelope.block_height.val + 1) := by
    unfold Node.accepted at h
    cases r with
    | DeliverTx request =>
      cases request with
      | error r => cases h
      | ok tx =>
        simp only at h
        split at h
        · split at h
          · cases h
            rfl
          · cases h
        · cases h
    | _ => cases h
  rw [hheight, hopen]
  apply toNat_asU64
  · omega
  · omega

theorem NodeStep.delivering_of_accepted {n n' : Node} {r : Request} {m : PinboardMessageMetadata}
    (h : NodeStep o pc n r n') (haccepted : n.accepted o pc r = some m) :
    n.phase = .delivering := by
  cases h with
  | turned_away request phase => exact phase
  | delivered phase => exact phase
  | begun => cases haccepted
  | ended => cases haccepted
  | committed => cases haccepted
  | uploaded => cases haccepted

theorem PinboardNode.Good.step_iff (h : n.Good o pc) {r : Request} :
    n.RowsStand o pc r ↔ n.Fresh o pc r := by
  cases r with
  | Commit =>
    unfold PinboardNode.RowsStand PinboardNode.Fresh
    cases hstep : n.step o pc .Commit with
    | none => simp
    | some n' =>
      obtain ⟨_, ⟨_, hcommit, _⟩ | ⟨hne, _⟩⟩ := PinboardNode.step.spec hstep
      · have hnew : ∀ m ∈ n.posted, ∀ k : Text, n.tables.metadata[k]? ≠ some m := by
          intro m hm k hold
          have hrecent := h.recent m hm
          have hrow := h.older k m hold
          omega
        have hiff := writeOnce_iff h.staged hcommit hnew h.counted
        simp only [Option.some.injEq, forall_eq', Option.isSome_some, forall_const]
        exact hiff
      · exact absurd rfl hne
  | _ => exact Iff.rfl

/-- A row after a commit was there before it or is of a message of the block. -/
theorem metadata_of_commit {k : Text} {m : PinboardMessageMetadata}
    (hstaged : e.staged_posts = StagedPosts.empty.addAll posted) (h : t.commit e = .ok t')
    (hrow : t'.metadata[k]? = some m) : m ∈ posted ∨ t.metadata[k]? = some m := by
  have hcache : e.pinboard_meta_cache = (StagedPosts.empty.addAll posted).meta_cache :=
    congrArg StagedPosts.meta_cache hstaged
  rw [(PinboardTables.commit.spec h).1] at hrow
  rcases put_metadata_writes.of_read hrow with ⟨p, hp, _, rfl⟩ | hold
  · rw [hcache] at hp
    exact Or.inl (mem_staged ((finite_map.mem_toList _ p).mp hp)).1
  · exact Or.inr hold

theorem PinboardNode.Good.next (h : n.Good o pc) {r : Request} (hlaw : n.RowsStand o pc r)
    (hstep : n.step o pc r = some n') : n'.Good o pc := by
  obtain ⟨hnode, hwrites⟩ := PinboardNode.step.spec hstep
  have hcases := step_cases hnode
  have hstaged := PinboardNode.step.staged h.good h.staged hstep
  obtain ⟨hgrows, hsame, hraised⟩ := hcases.heights h.good h.dated h.grows
  rcases hwrites with ⟨rfl, hcommit, hposted⟩ | ⟨hne, htables, hposted⟩
  · refine ⟨hcases.good h.good, hcases.dated h.good h.dated, hstaged, hgrows, ?_, ?_, ?_⟩
    · rw [hposted]
      simp
    · intro k m hrow
      have hup := hraised rfl
      rcases metadata_of_commit h.staged hcommit hrow with hm | hold
      · have hrecent := h.recent m hm
        omega
      · have hrow := h.older k m hold
        omega
    · exact (hlaw n' hstep).counted
  · refine ⟨hcases.good h.good, hcases.dated h.good h.dated, hstaged, hgrows, ?_, ?_, ?_⟩
    · rw [hposted, hsame hne]
      intro m hm
      rcases List.mem_append.mp hm with hm | hm
      · exact h.recent m hm
      · have haccepted := Option.mem_toList.mp hm
        exact accepted_height h.dated (hcases.delivering_of_accepted haccepted) haccepted
    · rw [htables, hsame hne]
      exact h.older
    · rw [htables]
      exact h.counted

theorem PinboardNode.genesis_good (o : Outside) (pc : ProtocolConstants) (cfg : GenesisConfig) :
    (PinboardNode.genesis o pc cfg).Good o pc := by
  have hdated : NodeDated pc (eld_chain.genesis o pc cfg) :=
    @reachable_dated o pc cfg [] _ rfl
  refine ⟨eld_chain.genesis_good o pc cfg, hdated, ?_, fun hended => (by cases hended), ?_, ?_, ?_⟩
  · obtain ⟨selected, cache, _, heq⟩ := genesis.spec o pc cfg
    change (eld_chain.genesis o pc cfg).conn.committed_state.envelope.staged_posts = _
    rw [heq]
    rfl
  · intro m hm
    cases hm
  · intro k m hrow
    simp [PinboardNode.genesis, PinboardTables.empty] at hrow
  · intro content_key
    rfl

/-- In a run every commit keeps the rows of earlier messages, writes its own and leaves the
counts right exactly when every block is committed with fresh messages. -/
theorem rows_are_written_once_iff (o : Outside) (pc : ProtocolConstants) (cfg : GenesisConfig)
    (requests : List Request) :
    (∀ p ∈ runs.visits (PinboardNode.step o pc) requests (PinboardNode.genesis o pc cfg),
      p.1.RowsStand o pc p.2) ↔
    ∀ p ∈ runs.visits (PinboardNode.step o pc) requests (PinboardNode.genesis o pc cfg),
      p.1.Fresh o pc p.2 := by
  refine @runs.visits_iff _ _ (PinboardNode.step o pc) (PinboardNode.Good o pc)
    (PinboardNode.RowsStand o pc) (PinboardNode.Fresh o pc) ?_ ?_ _
    (PinboardNode.genesis_good o pc cfg) requests
  · intro n r hn
    exact hn.step_iff
  · intro n r n' hn hlaw hstep
    exact hn.next hlaw hstep

/-- Alice posts the same id in two blocks. -/
def sameIdTwice : List Request :=
  .UploadBlob "k".toList [1] :: block (smallHeight 1) [alicePosts 1] ++
    [.UploadBlob "k".toList [1], .BeginBlock, .DeliverTx (.ok (alicePosts 2)),
      .EndBlock (smallHeight 2)]

/-- The second commit replaces the row of the first. -/
theorem same_id_replaces_row :
    ¬ ∀ p ∈ runs.visits (PinboardNode.step Outside.toy smallConstants) (sameIdTwice ++ [.Commit])
      (PinboardNode.genesis Outside.toy smallConstants smallConfig),
        p.1.RowsStand Outside.toy smallConstants p.2 := by
  intro hall
  have hrun : (runs.run (PinboardNode.step Outside.toy smallConstants) sameIdTwice
      (PinboardNode.genesis Outside.toy smallConstants smallConfig)).any (fun n =>
        (n.step Outside.toy smallConstants .Commit).any (fun n' =>
          (n.tables.metadata["m".toList]?).any (fun m =>
            !decide (n'.tables.metadata["m".toList]? = some m)))) = true := by decide +kernel
  obtain ⟨n, hn, hcommit⟩ := (Option.any_eq_true _ _).mp hrun
  obtain ⟨n', hn', hrow⟩ := (Option.any_eq_true _ _).mp hcommit
  obtain ⟨m, hm, hchanged⟩ := (Option.any_eq_true _ _).mp hrow
  have hvisit := @runs.mem_visits_of_earlier _ _ _ (sameIdTwice ++ [.Commit]) _ _ _ .Commit hn
    List.prefix_rfl
  have hkept := (hall (n, .Commit) hvisit n' hn').kept _ m hm
  rw [hkept] at hchanged
  simp at hchanged

end eld_chain
