-- What a block stages for the pinboard. Only an accepted message adds to
-- it, a commit takes all of it, and every other call leaves it alone.
import EldChain.Reachable

open Std

namespace eld_chain

variable {o : Outside} {pc : ProtocolConstants} {e e' : AppStateEnvelope} {st : Storage}

/-! ## The staged messages -/

/-- The caches of the pinboard in a state. -/
structure StagedPosts where
  meta_cache : ExtTreeMap Text PinboardMessageMetadata compare
  refcount_deltas : ExtTreeMap Text Int compare
  idx_wallet_add : List (Text × UInt64 × Text)
  idx_tag_add : List (Text × UInt64 × Text)
  idx_expiry_add : List (UInt64 × Text)
  idx_commit_add : List (UInt64 × Text)

def AppStateEnvelope.staged_posts (e : AppStateEnvelope) : StagedPosts :=
  ⟨e.pinboard_meta_cache, e.pinboard_refcount_deltas, e.pinboard_idx_wallet_add,
    e.pinboard_idx_tag_add, e.pinboard_idx_expiry_add, e.pinboard_idx_commit_add⟩

def StagedPosts.empty : StagedPosts := ⟨∅, ∅, [], [], [], []⟩

/-- One more message. -/
def StagedPosts.add (s : StagedPosts) (m : PinboardMessageMetadata) : StagedPosts where
  meta_cache := s.meta_cache.insert m.message_id m
  refcount_deltas :=
    s.refcount_deltas.insert m.content_key (s.refcount_deltas.getD m.content_key 0 + 1)
  idx_wallet_add :=
    s.idx_wallet_add ++ [(Address.text m.original_signer, m.committed_height, m.message_id)]
  idx_tag_add := s.idx_tag_add ++ m.tags.map (fun tag => (tag, m.committed_height, m.message_id))
  idx_expiry_add := s.idx_expiry_add ++ [(m.expires_height, m.message_id)]
  idx_commit_add := s.idx_commit_add ++ [(m.committed_height, m.message_id)]

def StagedPosts.addAll (s : StagedPosts) (posted : List PinboardMessageMetadata) : StagedPosts :=
  posted.foldl StagedPosts.add s

/-! ## The payloads -/

/-- A message is turned away, or staged. -/
theorem process_post_message_posts (pc : ProtocolConstants) (e : AppStateEnvelope)
    (pm : PostMessageTx) :
    ((process_post_message_tx pc e pm).1.code ≠ 0 ∧ (process_post_message_tx pc e pm).2 = e) ∨
    ((process_post_message_tx pc e pm).1.code = 0 ∧
      (process_post_message_tx pc e pm).2.staged_posts =
        e.staged_posts.add (postMetadata pc pm (asU64 (e.block_height.val + 1)))) := by
  unfold process_post_message_tx
  cases validate_namespace_upload_authorization pm.namespace_ pm.original_signer
      e.resolve_namespace with
  | error err => exact Or.inl ⟨Nat.succ_ne_zero _, rfl⟩
  | ok slug => exact Or.inr ⟨rfl, rfl⟩

/-- A registry payload stages no message. -/
theorem registry_posts {tx : Tx} (hcoinless : tx.coinless = true)
    (hpost : ∀ pm, tx.payload.inner ≠ .PostMessage pm) :
    (tx.process o pc st e).2.staged_posts = e.staged_posts := by
  rcases hinner : tx.payload.inner with t | u | t | vp | rc | uc | um | pm | an
  case RegisterCapacity =>
    simp only [Tx.process, hinner, process_register_capacity_tx]
    repeat' split
    all_goals rfl
  case UnregisterCapacity =>
    simp only [Tx.process, hinner, process_unregister_capacity_tx]
    split <;> rfl
  case UpdateCapacityMerkleRoot =>
    simp only [Tx.process, hinner, process_update_capacity_merkle_root_tx]
    repeat' split
    all_goals rfl
  case PostMessage => exact absurd hinner (hpost pm)
  all_goals simp [Tx.coinless, hinner] at hcoinless

theorem setCoins_posts (e : AppStateEnvelope) (p : Purse) (c : Coin) :
    (e.setCoins o st p c).staged_posts = e.staged_posts := by
  cases p <;> rfl

theorem countedState_posts (e : AppStateEnvelope) (vp : VerifiedProofTx) :
    (countedState pc e vp).staged_posts = e.staged_posts := by
  unfold countedState record_failed_capacity_proof
  simp only
  split <;> rfl

/-- Nor does any other payload. -/
theorem process_posts {tx : Tx} (hpost : ∀ pm, tx.payload.inner ≠ .PostMessage pm)
    (hout : Outcome o pc st e tx (tx.process o pc st e).1 (tx.process o pc st e).2) :
    (tx.process o pc st e).2.staged_posts = e.staged_posts := by
  by_cases hcoinless : tx.coinless = true
  · exact registry_posts hcoinless hpost
  · generalize (tx.process o pc st e).1 = r at hout
    generalize (tx.process o pc st e).2 = e' at hout ⊢
    cases hout with
    | rejected => rfl
    | burnt => exact setCoins_posts e _ _
    | moved => exact (setCoins_posts _ _ _).trans (setCoins_posts e _ _)
    | registry _ coinless => exact absurd coinless hcoinless
    | posted _ coinless => exact absurd coinless hcoinless
    | namespaced => exact setCoins_posts e _ _
    | counted => exact countedState_posts e _
    | rewarded => exact setCoins_posts e _ _

theorem endBlock_posts {s s' : AppState} {height : I64} {out : EndBlockOutcome}
    (h : endBlockState o pc s height = .ok (out, s')) :
    s'.envelope.staged_posts = s.envelope.staged_posts := by
  obtain ⟨_, _, _, _, _, _, rfl⟩ := endBlockState.fields h
  rfl

/-! ## The calls of a node -/

/-- The metadata of the message that a request stages. -/
def Node.accepted (o : Outside) (pc : ProtocolConstants) (n : Node) (r : Request) :
    Option PinboardMessageMetadata :=
  match r with
  | .DeliverTx (.ok tx) =>
    match tx.payload.inner with
    | .PostMessage pm =>
      if (deliver_tx_inner o pc n.conn (.ok tx)).1.code = 0 then
        some (postMetadata pc pm (asU64 (n.state.envelope.block_height.val + 1)))
      else none
    | _ => none
  | _ => none

/-- A transaction that is turned away stages no message. -/
theorem accepted_of_refused {n : Node} {request : Except ResponseDeliverTx Tx}
    (h : ∀ tx s, request = .ok tx → admission o n.conn tx ≠ .ok s) :
    n.accepted o pc (.DeliverTx request) = none := by
  cases request with
  | error r => rfl
  | ok tx =>
    have hcode := @code_of_refused o pc _ _ (fun s => h tx s rfl)
    unfold Node.accepted
    simp only [if_neg hcode]
    cases tx.payload.inner <;> rfl

/-- An admitted transaction stages the message that it accepts, and no other. -/
theorem delivered_posts {n : Node} {tx : Tx} {s : AppState} (hg : NodeGood o n)
    (hphase : n.phase = .delivering) (hadmitted : admission o n.conn tx = .ok s) :
    (tx.process o pc n.conn.storage s.envelope).2.staged_posts =
      n.state.envelope.staged_posts.addAll (n.accepted o pc (.DeliverTx (.ok tx))).toList := by
  obtain ⟨hcharged, _, hout⟩ := @NodeGood.of_admission o pc _ _ _ hg hphase hadmitted
  have hheight := hcharged.framed.block_height
  have hsame : s.envelope.staged_posts = n.state.envelope.staged_posts := by
    obtain ⟨sender, rest, hcharged⟩ := hcharged
    rw [hcharged.staged]
    rfl
  rw [← hsame]
  unfold Node.accepted
  simp only [(@deliver_tx_inner.spec o pc _ _ _ hadmitted).1]
  by_cases hpost : ∃ pm, tx.payload.inner = .PostMessage pm
  · obtain ⟨pm, hinner⟩ := hpost
    simp only [Tx.process, hinner]
    rcases process_post_message_posts pc s.envelope pm with ⟨hcode, hleft⟩ | ⟨hcode, hadded⟩
    · rw [if_neg hcode, hleft]
      rfl
    · rw [if_pos hcode, hadded, hheight]
      rfl
  · have hpost : ∀ pm, tx.payload.inner ≠ .PostMessage pm := fun pm hpm => hpost ⟨pm, hpm⟩
    rw [process_posts hpost hout]
    cases hinner : tx.payload.inner with
    | PostMessage pm => exact absurd hinner (hpost pm)
    | _ => rfl

/-- A commit takes every staged message, and any other call adds the one it accepts. -/
theorem NodeStep.posts {n n' : Node} {r : Request} (h : NodeStep o pc n r n')
    (hg : NodeGood o n) : n'.state.envelope.staged_posts =
      match r with
      | .Commit => StagedPosts.empty
      | r => n.state.envelope.staged_posts.addAll (n.accepted o pc r).toList := by
  cases h with
  | begun phase =>
    rw [state_of_idle phase]
    rfl
  | turned_away request phase refused =>
    simp only [accepted_of_refused refused]
    rfl
  | delivered phase admitted => exact delivered_posts hg phase admitted
  | ended phase grows current ends =>
    rw [(hg.of_current (by simp [phase]) current).1]
    exact endBlock_posts ends
  | committed phase current commits =>
    obtain ⟨_, hgood⟩ := hg.of_current (by simp [phase]) current
    have hcleared := (commit_inner.spec current hgood commits).envelope
    unfold AppStateEnvelope.staged_posts StagedPosts.empty
    simp only [Node.state]
    rw [hcleared.pinboard_meta_cache, hcleared.pinboard_refcount_deltas,
      hcleared.pinboard_idx_wallet_add, hcleared.pinboard_idx_tag_add,
      hcleared.pinboard_idx_expiry_add, hcleared.pinboard_idx_commit_add]
  | uploaded content_key blob => rfl

end eld_chain
