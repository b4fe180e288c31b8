-- The law of nonces: only admission moves a nonce, always to the next
-- one, and the transaction must name it. So over a whole run no sender
-- and nonce reach a processor twice, in one block or across blocks.
import EldChain.Identities

open Std

namespace eld_chain

variable {o : Outside} {pc : ProtocolConstants} {cfg : GenesisConfig}

/-! ## One call -/

/-- What one call may do to the nonces: admission moves the sender to the next nonce, which
is the one that the transaction names, and its processor moves none. -/
def NonceLaw (o : Outside) (n : Node) (r : Request) (n' : Node) : Prop :=
  match dispatched o n r with
  | none => ∀ a, n'.nonce o a = n.nonce o a
  | some (tx, s) =>
    (n.nonce o tx.payload.inner.sender).next = some tx.nonce ∧
    (∀ a, s.envelope.nonce o n.conn.storage a =
      if tx.payload.inner.sender = a then tx.nonce else n.nonce o a) ∧
    ∀ a, n'.nonce o a = s.envelope.nonce o n.conn.storage a

theorem IdentityStep.nonceLaw {n n' : Node} {r : Request} (h : IdentityStep o n r n') :
    NonceLaw o n r n' := by
  unfold NonceLaw
  cases h with
  | kept none same =>
    rw [none]
    exact same.nonce
  | dispatched some charged same =>
    rw [some]
    exact ⟨charged.next, charged.nonce, same.nonce⟩

/-! ## Whole runs -/

/-- The sender and the nonce of each transaction that a run hands to a processor, in order. -/
def dispatches (o : Outside) (pc : ProtocolConstants) (cfg : GenesisConfig)
    (requests : List Request) : List (Address × Nonce) :=
  (runs.visits (Node.step o pc) requests (genesis o pc cfg)).filterMap (fun v =>
    (dispatched o v.1 v.2).map (fun d => (d.1.payload.inner.sender, d.1.nonce)))

theorem dispatches_snoc {requests : List Request} {n : Node} (r : Request)
    (h : RunsTo o pc cfg requests n) :
    dispatches o pc cfg (requests ++ [r]) = dispatches o pc cfg requests ++
      ((dispatched o n r).map (fun d => (d.1.payload.inner.sender, d.1.nonce))).toList := by
  unfold dispatches
  rw [runs.visits_snoc _ r h, List.filterMap_append]
  rcases hd : dispatched o n r with _ | d <;> simp [hd]

/-- What a run so far has dispatched: no pair twice, and none above the nonce of its sender. -/
structure DispatchedOnce (o : Outside) (pc : ProtocolConstants) (cfg : GenesisConfig)
    (requests : List Request) (n : Node) : Prop where
  nodup : (dispatches o pc cfg requests).Nodup
  reached : ∀ d ∈ dispatches o pc cfg requests,
    d.2.value.toNat ≤ (n.nonce o d.1).value.toNat

theorem DispatchedOnce.step {requests : List Request} {n n' : Node} {r : Request}
    (h : DispatchedOnce o pc cfg requests n) (hrun : RunsTo o pc cfg requests n)
    (hlaw : NonceLaw o n r n') : DispatchedOnce o pc cfg (requests ++ [r]) n' := by
  unfold NonceLaw at hlaw
  rcases hd : dispatched o n r with _ | ⟨tx, s⟩
  · rw [hd] at hlaw
    have hsame : dispatches o pc cfg (requests ++ [r]) = dispatches o pc cfg requests := by
      rw [dispatches_snoc r hrun, hd]
      exact List.append_nil _
    refine ⟨hsame ▸ h.nodup, fun d hmem => ?_⟩
    rw [hlaw]
    exact h.reached d (hsame ▸ hmem)
  · rw [hd] at hlaw
    obtain ⟨hnext, hadmission, hprocessor⟩ := hlaw
    have hgrows := Nonce.next_toNat hnext
    have hnew : dispatches o pc cfg (requests ++ [r]) =
        dispatches o pc cfg requests ++ [(tx.payload.inner.sender, tx.nonce)] := by
      rw [dispatches_snoc r hrun, hd]
      rfl
    refine ⟨?_, fun d hmem => ?_⟩
    · -- the new nonce is above all that this sender has used
      rw [hnew, List.nodup_append]
      refine ⟨h.nodup, List.nodup_singleton _, fun d hold d' hd' heq => ?_⟩
      rw [List.mem_singleton.mp hd'] at heq
      have hle := h.reached d hold
      rw [heq] at hle
      simp only at hle
      omega
    · rw [hprocessor, hadmission]
      rw [hnew, List.mem_append, List.mem_singleton] at hmem
      rcases hmem with hold | rfl
      · have hle := h.reached d hold
        split
        · rename_i hsender
          rw [← hsender] at hle
          omega
        · exact hle
      · rw [if_pos rfl]

/-- Only admission moves a nonce, and a run dispatches no sender and nonce twice. -/
theorem no_transaction_is_dispatched_twice (o : Outside) (pc : ProtocolConstants)
    (cfg : GenesisConfig) (requests : List Request) (n : Node)
    (hrun : RunsTo o pc cfg requests n) :
    (∀ m r m', (m, r) ∈ runs.visits (Node.step o pc) requests (genesis o pc cfg) →
      m.step o pc r = some m' → NonceLaw o m r m') ∧
    (dispatches o pc cfg requests).Nodup := by
  have hlaw : ∀ earlier m r m', RunsTo o pc cfg earlier m → m.step o pc r = some m' →
      NonceLaw o m r m' := by
    intro earlier m r m' hm hs
    exact ((step_cases hs).identities (reachable_good ⟨earlier, hm⟩)).nonceLaw
  constructor
  · intro m r m' hvisit hs
    obtain ⟨earlier, hm, _⟩ := runs.mem_visits _ hvisit
    exact hlaw earlier m r m' hm hs
  · have honce : DispatchedOnce o pc cfg requests n := by
      refine runs.run_induction _ (DispatchedOnce o pc cfg) ⟨List.nodup_nil, ?_⟩ ?_ hrun
      · intro d hd
        cases hd
      · intro earlier m r m' hm hold hs
        exact hold.step hm (hlaw earlier m r m' hm hs)
    exact honce.nodup

/-- One transfer of Alice is replayed in its own block, and again in the next one. -/
def replayBlocks : List Request :=
  let transfer := aliceSends 1 carol alice_ne_carol 5
  block (smallHeight 1) [transfer, transfer] ++
    block (smallHeight 2) [transfer]

theorem no_transaction_is_dispatched_twice_on_replayBlocks :
    ∃ n, RunsTo Outside.toy smallConstants smallConfig replayBlocks n ∧
      dispatches Outside.toy smallConstants smallConfig replayBlocks = [(alice, ⟨1⟩)] ∧
      (dispatches Outside.toy smallConstants smallConfig replayBlocks).Nodup := by
  obtain ⟨n, hn, _⟩ := @smallRun_ends replayBlocks (fun _ => true) (by decide +kernel)
  exact ⟨n, hn, by decide +kernel, (no_transaction_is_dispatched_twice Outside.toy smallConstants
    smallConfig replayBlocks n hn).2⟩

end eld_chain
