-- Histories of the pinboard: the messages of block after block, and the
-- tables that their commits leave. The tables of a node are those of the
-- messages that its blocks accepted.
import EldChain.PinboardRows

open Std

namespace eld_chain

/-- A state that stages the messages of one block and nothing else. -/
def AppStateEnvelope.staging (posted : List PinboardMessageMetadata) : AppStateEnvelope :=
  let staged := StagedPosts.empty.addAll posted
  { AppStateEnvelope.default with
    pinboard_meta_cache := staged.meta_cache
    pinboard_refcount_deltas := staged.refcount_deltas
    pinboard_idx_wallet_add := staged.idx_wallet_add
    pinboard_idx_tag_add := staged.idx_tag_add
    pinboard_idx_expiry_add := staged.idx_expiry_add
    pinboard_idx_commit_add := staged.idx_commit_add }

/-- The tables after the commits of some blocks, each with its messages. -/
def PinboardTables.after : List (List PinboardMessageMetadata) → PinboardTables →
    Except EldError PinboardTables
  | [], t => .ok t
  | posted :: blocks, t =>
    match t.commit (.staging posted) with
    | .error e => .error e
    | .ok t => PinboardTables.after blocks t

/-- The messages of the blocks that were committed, and the tables that this left. -/
structure PinboardHistory where
  blocks : List (List PinboardMessageMetadata)
  tables : PinboardTables
  committed : PinboardTables.after blocks .empty = .ok tables

def PinboardHistory.messages (history : PinboardHistory) : List PinboardMessageMetadata :=
  history.blocks.flatten

variable {o : Outside} {pc : ProtocolConstants} {cfg : GenesisConfig}
variable {t t' : PinboardTables} {e e' : AppStateEnvelope} {posted : List PinboardMessageMetadata}

/-! ## Tables of a node -/

theorem staging_posts (posted : List PinboardMessageMetadata) :
    (AppStateEnvelope.staging posted).staged_posts = StagedPosts.empty.addAll posted := rfl

/-- A commit of the tables reads the staged messages only. -/
theorem commit_congr (t : PinboardTables) (h : e.staged_posts = e'.staged_posts) :
    t.commit e = t.commit e' := by
  have hmeta : e.pinboard_meta_cache = e'.pinboard_meta_cache := congrArg StagedPosts.meta_cache h
  have hrefs : e.pinboard_refcount_deltas = e'.pinboard_refcount_deltas :=
    congrArg StagedPosts.refcount_deltas h
  have hwallet : e.pinboard_idx_wallet_add = e'.pinboard_idx_wallet_add :=
    congrArg StagedPosts.idx_wallet_add h
  have htag : e.pinboard_idx_tag_add = e'.pinboard_idx_tag_add :=
    congrArg StagedPosts.idx_tag_add h
  have hexpiry : e.pinboard_idx_expiry_add = e'.pinboard_idx_expiry_add :=
    congrArg StagedPosts.idx_expiry_add h
  have hcommit : e.pinboard_idx_commit_add = e'.pinboard_idx_commit_add :=
    congrArg StagedPosts.idx_commit_add h
  unfold PinboardTables.commit PinboardTables.putMetadata PinboardTables.putIndexes
  rw [hmeta, hrefs, hwallet, htag, hexpiry, hcommit]

theorem after_snoc {blocks : List (List PinboardMessageMetadata)}
    (h : PinboardTables.after blocks t = .ok t') (posted : List PinboardMessageMetadata) :
    PinboardTables.after (blocks ++ [posted]) t =
      match t'.commit (.staging posted) with
      | .error e => .error e
      | .ok t'' => .ok t'' := by
  induction blocks generalizing t with
  | nil =>
    cases h
    rfl
  | cons first blocks ih =>
    rw [List.cons_append, PinboardTables.after]
    rw [PinboardTables.after] at h
    cases hfirst : t.commit (.staging first) with
    | error e =>
      rw [hfirst] at h
      cases h
    | ok t₁ =>
      rw [hfirst] at h
      exact ih h

/-- In every run the staged messages are those that the open block has accepted. -/
theorem PinboardNode.staged_of_run {requests : List Request} {n : PinboardNode}
    (hrun : runs.run (PinboardNode.step o pc) requests (PinboardNode.genesis o pc cfg) = some n) :
    NodeGood o n.node ∧
      n.node.state.envelope.staged_posts = StagedPosts.empty.addAll n.posted := by
  refine runs.run_invariant (PinboardNode.step o pc) (fun n => NodeGood o n.node ∧
    n.node.state.envelope.staged_posts = StagedPosts.empty.addAll n.posted) ?_ ?_ hrun
  · rintro n r n' ⟨hgood, hstaged⟩ hstep
    exact ⟨(step_cases (PinboardNode.step.spec hstep).1).good hgood,
      PinboardNode.step.staged hgood hstaged hstep⟩
  · have hgenesis := PinboardNode.genesis_good o pc cfg
    exact ⟨hgenesis.good, hgenesis.staged⟩

/-- The metadata of a message that the chain can accept. -/
def PinboardMessageMetadata.IsPost (pc : ProtocolConstants) (m : PinboardMessageMetadata) : Prop :=
  ∃ pm committed_height, m = postMetadata pc pm committed_height

theorem isPost_of_accepted {n : Node} {r : Request} {m : PinboardMessageMetadata}
    (h : n.accepted o pc r = some m) : m.IsPost pc := by
  unfold Node.accepted at h
  split at h
  · split at h
    · split at h
      · cases h
        exact ⟨_, _, rfl⟩
      · cases h
    · cases h
  · cases h

/-- The tables that a run leads to are those of a history of posts, and what the open block has
accepted are posts too. -/
theorem history_of_run {requests : List Request} {n : PinboardNode}
    (hrun : runs.run (PinboardNode.step o pc) requests (PinboardNode.genesis o pc cfg) = some n) :
    (∀ m ∈ n.posted, m.IsPost pc) ∧
    ∃ history : PinboardHistory, history.tables = n.tables ∧
      ∀ m ∈ history.messages, m.IsPost pc := by
  refine runs.run_induction (PinboardNode.step o pc)
    (fun _ n => (∀ m ∈ n.posted, m.IsPost pc) ∧ ∃ history : PinboardHistory,
      history.tables = n.tables ∧ ∀ m ∈ history.messages, m.IsPost pc) ?_ ?_ hrun
  · have hempty : PinboardTables.after [] .empty = .ok .empty := rfl
    have hnone : ∀ m ∈ ([] : List PinboardMessageMetadata), m.IsPost pc := by
      intro m hm
      cases hm
    exact ⟨hnone, ⟨[], .empty, hempty⟩, rfl, hnone⟩
  · rintro earlier n r n' hearlier ⟨hposted, history, htables, hposts⟩ hstep
    obtain ⟨_, hstaged⟩ := PinboardNode.staged_of_run hearlier
    obtain ⟨_, ⟨rfl, hcommit, hempty⟩ | ⟨_, hsame, hmore⟩⟩ := PinboardNode.step.spec hstep
    · rw [commit_congr n.tables (hstaged.trans (staging_posts n.posted).symm), ← htables]
        at hcommit
      refine ⟨by simp [hempty], ⟨history.blocks ++ [n.posted], n'.tables, ?_⟩, rfl, ?_⟩
      · rw [after_snoc history.committed, hcommit]
      · intro m hm
        rw [PinboardHistory.messages, List.flatten_append, List.flatten_singleton,
          List.mem_append] at hm
        rcases hm with hm | hm
        · exact hposts m hm
        · exact hposted m hm
    · refine ⟨?_, history, htables.trans hsame.symm, hposts⟩
      intro m hm
      rw [hmore] at hm
      rcases List.mem_append.mp hm with hm | hm
      · exact hposted m hm
      · exact isPost_of_accepted (Option.mem_toList.mp hm)

/-! ## What a history leaves -/

def PinboardMessageMetadata.commit_key (m : PinboardMessageMetadata) : Text :=
  pinboard_commit_index_key m.committed_height m.message_id

/-- A column to which each message adds some entries has those of every message. -/
theorem staged_column {B : Type} (column : StagedPosts → List B)
    {added : PinboardMessageMetadata → List B}
    (h : ∀ s m, column (s.add m) = column s ++ added m) (posted : List PinboardMessageMetadata)
    (s : StagedPosts) : column (s.addAll posted) = column s ++ posted.flatMap added := by
  induction posted generalizing s with
  | nil => simp [StagedPosts.addAll]
  | cons m posted ih =>
    have hrest := ih (s.add m)
    unfold StagedPosts.addAll at hrest ⊢
    rw [List.foldl_cons, hrest, List.flatMap_cons, h, List.append_assoc]

/-- A loop that puts a key into an index at each step puts all of them. -/
theorem mem_foldl_insert {B : Type} {f : PinboardTables → B → PinboardTables}
    (index : PinboardTables → ExtTreeSet Text compare) {key : B → Text}
    (h : ∀ t b, index (f t b) = (index t).insert (key b)) (l : List B) (t : PinboardTables)
    (k : Text) : k ∈ index (l.foldl f t) ↔ k ∈ index t ∨ ∃ b ∈ l, key b = k := by
  induction l generalizing t with
  | nil => simp
  | cons b l ih =>
    rw [List.foldl_cons, ih, h]
    simp only [ExtTreeSet.mem_insert, LawfulEqCmp.compare_eq_iff_eq, List.exists_mem_cons_iff]
    rw [or_assoc, or_left_comm]

/-- A commit adds the keys of the messages of the block to the commit index. -/
theorem mem_commit_index (h : t.commit (.staging posted) = .ok t') (key : Text) :
    key ∈ t'.idx_commit ↔ key ∈ t.idx_commit ∨ ∃ m ∈ posted, m.commit_key = key := by
  unfold PinboardTables.commit at h
  split at h
  · cases h
  · cases h
    unfold PinboardTables.putIndexes
    simp only
    rw [mem_foldl_insert PinboardTables.idx_commit (fun _ _ => rfl)]
    have hsame : ∀ (t : PinboardTables) (e : AppStateEnvelope),
        (e.pinboard_idx_expiry_add.foldl (fun t p => t.put_pinboard_expiry_index_with_tx p.1 p.2)
          (e.pinboard_idx_tag_add.foldl
            (fun t p => t.put_pinboard_tag_index_with_tx p.1 p.2.1 p.2.2)
            (e.pinboard_idx_wallet_add.foldl
              (fun t p => t.put_pinboard_wallet_index_with_tx p.1 p.2.1 p.2.2)
              (t.putMetadata e)))).idx_commit = t.idx_commit := by
      intro t e
      refine (foldl_column ?_ _ _).trans ((foldl_column ?_ _ _).trans
        ((foldl_column ?_ _ _).trans (foldl_column ?_ _ _)))
      all_goals
        intro _ _
        rfl
    have hadd : (AppStateEnvelope.staging posted).pinboard_idx_commit_add =
        posted.flatMap (fun m => [(m.committed_height, m.message_id)]) :=
      (staged_column StagedPosts.idx_commit_add (fun _ _ => rfl) posted .empty).trans
        (List.nil_append _)
    rw [hsame, hadd]
    apply or_congr_right
    constructor
    · rintro ⟨p, hp, hkey⟩
      obtain ⟨m, hm, hp⟩ := List.mem_flatMap.mp hp
      rw [List.mem_singleton.mp hp] at hkey
      exact ⟨m, hm, hkey⟩
    · rintro ⟨m, hm, hkey⟩
      exact ⟨_, List.mem_flatMap.mpr ⟨m, hm, List.mem_singleton.mpr rfl⟩, hkey⟩

/-- A row after a commit stands under a key of a message of the block, or was there before. -/
theorem row_of_commit (h : t.commit (.staging posted) = .ok t') {k : Text}
    {m : PinboardMessageMetadata} (hrow : t'.metadata[k]? = some m) :
    (m ∈ posted ∧ k ∈ m.keys) ∨ t.metadata[k]? = some m := by
  rw [(PinboardTables.commit.spec h).1] at hrow
  rcases put_metadata_writes.of_read hrow with ⟨p, hp, hk, rfl⟩ | hold
  · obtain ⟨hposted, hid⟩ := mem_staged ((finite_map.mem_toList _ p).mp hp)
    rw [hid] at hk
    exact Or.inl ⟨hposted, hk⟩
  · exact Or.inr hold

/-- A commit leaves a row under the id of each message of the block, and of each before. -/
theorem row_isSome (h : t.commit (.staging posted) = .ok t') {k : Text}
    (hk : (∃ m ∈ posted, m.message_id = k) ∨ t.metadata[k]?.isSome = true) :
    t'.metadata[k]?.isSome = true := by
  rw [(PinboardTables.commit.spec h).1]
  apply put_metadata_writes.isSome
  rcases hk with ⟨m, hm, rfl⟩ | hold
  · left
    have hstaged : (StagedPosts.empty.addAll posted).meta_cache[m.message_id]?.isSome = true :=
      add_writes.isSome (Or.inl ⟨m, hm, List.mem_singleton.mpr rfl⟩)
    obtain ⟨m', hm'⟩ := Option.isSome_iff_exists.mp hstaged
    exact ⟨(m.message_id, m'), (finite_map.mem_toList _ _).mpr hm', List.mem_cons_self⟩
  · exact Or.inr hold

/-- What the tables of a history hold. -/
structure HoldsHistory (messages : List PinboardMessageMetadata) (t : PinboardTables) : Prop where
  indexed : ∀ key, key ∈ t.idx_commit ↔ ∃ m ∈ messages, m.commit_key = key
  rows : ∀ k m, t.metadata[k]? = some m → m ∈ messages ∧ k ∈ m.keys
  present : ∀ m ∈ messages, t.metadata[m.message_id]?.isSome = true

theorem holdsHistory_after {blocks : List (List PinboardMessageMetadata)}
    {before : List PinboardMessageMetadata} (h : HoldsHistory before t)
    (hafter : PinboardTables.after blocks t = .ok t') :
    HoldsHistory (before ++ blocks.flatten) t' := by
  induction blocks generalizing t before with
  | nil =>
    cases hafter
    rw [List.flatten_nil, List.append_nil]
    exact h
  | cons posted blocks ih =>
    rw [PinboardTables.after] at hafter
    cases hcommit : t.commit (.staging posted) with
    | error e =>
      rw [hcommit] at hafter
      cases hafter
    | ok t₁ =>
      rw [hcommit] at hafter
      rw [List.flatten_cons, ← List.append_assoc]
      refine ih ⟨?_, ?_, ?_⟩ hafter
      · intro key
        rw [mem_commit_index hcommit, h.indexed]
        simp only [List.mem_append, or_and_right, exists_or]
      · intro k m hrow
        rcases row_of_commit hcommit hrow with ⟨hm, hk⟩ | hold
        · exact ⟨List.mem_append_right _ hm, hk⟩
        · exact ⟨List.mem_append_left _ (h.rows k m hold).1, (h.rows k m hold).2⟩
      · intro m hm
        apply row_isSome hcommit
        rcases List.mem_append.mp hm with hm | hm
        · exact Or.inr (h.present m hm)
        · exact Or.inl ⟨m, hm, rfl⟩

theorem PinboardHistory.holds (history : PinboardHistory) :
    HoldsHistory history.messages history.tables := by
  have hempty : HoldsHistory [] PinboardTables.empty := by
    constructor
    · simp [PinboardTables.empty]
    · intro k m hrow
      simp [PinboardTables.empty] at hrow
    · simp
  exact holdsHistory_after hempty history.committed

end eld_chain
