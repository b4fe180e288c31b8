-- The law of crashes: a node that stops anywhere in a life of calls,
-- uploads and clean crashes comes back as it was, the open block included,
-- exactly when it has not committed yet or its committed state can be
-- restored.
import EldChain.Replicas

open Std

namespace eld_chain

variable {o : Outside} {pc : ProtocolConstants} {cfg : GenesisConfig}
variable {n : Node} {a b : Replica}

/-! ## What the database of a replica holds -/

/-- The tip of the committed state is in the database, and its snapshot at a boundary. -/
def SavesState (o : Outside) (pc : ProtocolConstants) (n : Node) : Prop :=
  ∃ app_hash, n.conn.committed_state.app_hash.data = some app_hash ∧
    n.conn.storage.Holds o (.app_state_tip LATEST)
      ((n.conn.committed_state.tip app_hash).to_cado o) ∧
    (n.conn.committed_state.envelope.block_height.val % pc.blocks_per_epoch.val = 0 →
      n.conn.storage.Holds o (AppStateSnapshot.latest_path o)
        ((n.conn.committed_state.snapshot app_hash).to_cado o))

/-- On the database of a committed state a start restores from the tip. -/
theorem SavesState.start_eq (h : SavesState o pc n) (ho : StoresTips o) :
    Node.start o pc cfg n.conn.storage =
      match AppState.default.initialize_with_data o n.conn.storage with
      | .error err => .error err
      | .ok s => .ok ⟨.idle, ⟨s, none, n.conn.storage⟩⟩ := by
  obtain ⟨app_hash, _, htip, _⟩ := h
  have hread := htip.get rfl (ho.tip_fits _).1 (ho.tip_fits _).2
  unfold Node.start Storage.has_persisted_app_state_tip
  rw [hread]
  rfl

theorem SavesState.savedState (h : SavesState o pc n) (halive : Alive o pc cfg n) :
    ∃ app_hash, SavedState o pc n.conn.committed_state n.conn.storage app_hash := by
  rcases halive.saved with ⟨hempty, _⟩ | hsaved
  · obtain ⟨_, _, htip, _⟩ := h
    have hindex := htip.1
    simp [hempty] at hindex
  · exact hsaved

theorem SavesState.start (h : SavesState o pc n) (ho : StoresTips o) (halive : Alive o pc cfg n)
    (hrestartable : Restartable o pc n.conn.committed_state) :
    ∃ started, Node.start o pc cfg n.conn.storage = .ok started := by
  obtain ⟨_, hsaved⟩ := h.savedState halive
  have hstart := @SavesState.start_eq _ _ cfg _ h ho
  obtain ⟨app_hash, happ, htip, hsnap⟩ := h
  rw [hstart, initialize_at_boundary ho happ halive.good.committed.committed hsaved.cleared
    hrestartable.trie htip (hsnap hrestartable.boundary)
    (hrestartable.fits _ (new_eq_snapshot happ))]
  exact ⟨_, rfl⟩

end eld_chain
