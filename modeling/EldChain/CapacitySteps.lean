-- Everything that a call can do to the list of capacity providers, said
-- once with the call that does it: a registration adds or renews an entry,
-- a new root, a slash or a lease changes one, and an entry leaves with its
-- owner or at the start of an epoch.
import EldChain.ChallengeOutcomes

open Std

namespace eld_chain

variable {o : Outside} {pc : ProtocolConstants} {st : Storage} {e : AppStateEnvelope}

/-! ## The changes -/

/-- The call delivers a transaction with this payload, and the payload takes effect. -/
def Node.Delivers (o : Outside) (pc : ProtocolConstants) (n : Node) (r : Request)
    (inner : PayloadInner) : Prop :=
  ∃ tx, r = .DeliverTx (.ok tx) ∧ tx.payload.inner = inner ∧
    (deliver_tx_inner o pc n.conn (.ok tx)).1.code = 0

/-- The call is the EndBlock of a height that opens an epoch. -/
def Node.OpensEpoch (pc : ProtocolConstants) (n : Node) (r : Request) (height : I64) : Prop :=
  r = .EndBlock height ∧ n.state.envelope.current_epoch.val < (epochOf pc height).val

/-- An entry whose lease is extended by a proof in the block after a height. -/
def extendCapacityValidator (pc : ProtocolConstants) (height : I64) (cv : CapacityValidatorInfo) :
    CapacityValidatorInfo :=
  { cv with
    registration_duration :=
      UInt64.saturating_sub (asU64 (height.val + 1)) cv.registered_block
        + pc.registration_duration_blocks }

/-- Everything that a call can do to the list of providers. The list stays as it is when the
call neither delivers a proof that holds nor opens an epoch. -/
inductive CapacityStep (o : Outside) (pc : ProtocolConstants) (n : Node) (r : Request)
    (l : List CapacityValidatorInfo) : List CapacityValidatorInfo → Prop
  | kept (unproved : ∀ vp, n.Delivers o pc r (.VerifiedProof vp) → vp.failed = true)
      (same_epoch : ∀ height, ¬ n.OpensEpoch pc r height) : CapacityStep o pc n r l l
  | added {t : RegisterCapacityTx} {key : Bytes32} (delivers : n.Delivers o pc r (.RegisterCapacity t))
      (owner : t.sender = o.address_of_key key) (fresh : ∀ cv ∈ l, cv.address ≠ t.sender) :
      CapacityStep o pc n r l
        (l ++ [newCapacityValidator pc t key n.state.envelope.block_height])
  | renewed {t : RegisterCapacityTx} (delivers : n.Delivers o pc r (.RegisterCapacity t)) :
      CapacityStep o pc n r l (updateFirst (fun cv => cv.address == t.sender)
        (renewCapacityValidator pc t n.state.envelope.block_height) l)
  | rerooted {t : UpdateCapacityMerkleRootTx}
      (delivers : n.Delivers o pc r (.UpdateCapacityMerkleRoot t)) :
      CapacityStep o pc n r l (updateFirst (fun cv => cv.address == t.sender)
        (fun cv => { cv with
          merkle_root := some t.merkle_root
          last_merkle_root_update := some (asU64 n.state.envelope.block_height.val) }) l)
  | slashed {vp : VerifiedProofTx} (delivers : n.Delivers o pc r (.VerifiedProof vp))
      (failed : vp.failed = true) :
      CapacityStep o pc n r l (updateFirst (fun cv => cv.address == vp.capacity_provider)
        (fun cv => { cv with stake := Coin.zero }) l)
  | extended {vp : VerifiedProofTx} (delivers : n.Delivers o pc r (.VerifiedProof vp))
      (failed : vp.failed = false) :
      CapacityStep o pc n r l (updateFirst
        (fun cv => cv.address == vp.capacity_provider && cv.registered_block != 0)
        (extendCapacityValidator pc n.state.envelope.block_height) l)
  | unregistered {t : UnregisterCapacityTx} (delivers : n.Delivers o pc r (.UnregisterCapacity t)) :
      CapacityStep o pc n r l (l.filter (fun cv => cv.address != t.sender))
  | expired {height : I64} (opens : n.OpensEpoch pc r height) :
      CapacityStep o pc n r l (expire_capacity_registrations l (asU64 height.val))

variable {n n' : Node} {r : Request} {tx : Tx} {l l' : List CapacityValidatorInfo}

theorem Node.Delivers.of_tx {inner : PayloadInner}
    (h : n.Delivers o pc (.DeliverTx (.ok tx)) inner) : tx.payload.inner = inner ∧
      (deliver_tx_inner o pc n.conn (.ok tx)).1.code = 0 := by
  obtain ⟨tx', hr, hinner, hcode⟩ := h
  cases hr
  exact ⟨hinner, hcode⟩

theorem not_opensEpoch_deliver (request : Except ResponseDeliverTx Tx) (height : I64) :
    ¬ n.OpensEpoch pc (.DeliverTx request) height := by
  rintro ⟨hr, _⟩
  cases hr

/-- A payload that is no proof may leave the list alone. -/
theorem CapacityStep.of_no_proof (h : ∀ vp, tx.payload.inner ≠ .VerifiedProof vp) (hl : l' = l) :
    CapacityStep o pc n (.DeliverTx (.ok tx)) l l' := by
  rw [hl]
  exact .kept (fun vp hvp => absurd hvp.of_tx.1 (h vp)) (not_opensEpoch_deliver _)

/-- Nor may a transaction that fails do more. -/
theorem CapacityStep.of_failed (hcode : (deliver_tx_inner o pc n.conn (.ok tx)).1.code ≠ 0)
    (hl : l' = l) : CapacityStep o pc n (.DeliverTx (.ok tx)) l l' := by
  rw [hl]
  exact .kept (fun vp hvp => absurd hvp.of_tx.2 hcode) (not_opensEpoch_deliver _)

/-! ## Payloads -/

/-- The state in which a payload is processed: the providers and the height of the node. -/
structure Processes (o : Outside) (pc : ProtocolConstants) (n : Node) (tx : Tx) (st : Storage)
    (e : AppStateEnvelope) : Prop where
  code : (deliver_tx_inner o pc n.conn (.ok tx)).1.code = (tx.process o pc st e).1.code
  height : e.block_height = n.state.envelope.block_height

theorem process_register_capacity_step {t : RegisterCapacityTx} (h : Processes o pc n tx st e)
    (hinner : tx.payload.inner = .RegisterCapacity t) :
    CapacityStep o pc n (.DeliverTx (.ok tx)) e.capacity_validators
      (tx.process o pc st e).2.capacity_validators := by
  have hcode := h.code
  have hno : ∀ vp, tx.payload.inner ≠ .VerifiedProof vp := by simp [hinner]
  simp only [Tx.process, hinner, process_register_capacity_tx] at hcode ⊢
  rw [h.height] at hcode ⊢
  cases hkey : o.verifying_key tx.public_key with
  | none => exact .of_no_proof hno rfl
  | some public_key =>
    simp only [hkey] at hcode ⊢
    by_cases hsender : t.sender = o.address_of_key public_key
    · rw [if_neg (not_not.mpr hsender)] at hcode ⊢
      cases haccount : e.get_account_from_cado o st t.sender with
      | none => exact .of_no_proof hno rfl
      | some account =>
        simp only [haccount] at hcode ⊢
        cases hfind : e.capacity_validators.find? (fun p => p.address == t.sender) with
        | none =>
          simp only [hfind] at hcode ⊢
          refine .added ⟨tx, rfl, hinner, hcode⟩ hsender (fun cv hcv heq => ?_)
          have hmiss := List.find?_eq_none.mp hfind cv hcv
          exact hmiss (beq_iff_eq.mpr heq)
        | some provider =>
          simp only [hfind] at hcode ⊢
          by_cases hconflict : provider.public_key = public_key
          · rw [if_neg (not_not.mpr hconflict)] at hcode ⊢
            exact .renewed ⟨tx, rfl, hinner, hcode⟩
          · rw [if_pos hconflict]
            exact .of_no_proof hno rfl
    · rw [if_pos hsender]
      exact .of_no_proof hno rfl

theorem process_unregister_capacity_step {t : UnregisterCapacityTx}
    (h : Processes o pc n tx st e) (hinner : tx.payload.inner = .UnregisterCapacity t) :
    CapacityStep o pc n (.DeliverTx (.ok tx)) e.capacity_validators
      (tx.process o pc st e).2.capacity_validators := by
  have hcode := h.code
  have hno : ∀ vp, tx.payload.inner ≠ .VerifiedProof vp := by simp [hinner]
  simp only [Tx.process, hinner, process_unregister_capacity_tx] at hcode ⊢
  cases haccount : e.get_account_from_cado o st t.sender with
  | none => exact .of_no_proof hno rfl
  | some account =>
    simp only [haccount] at hcode ⊢
    exact .unregistered ⟨tx, rfl, hinner, hcode⟩

theorem process_update_capacity_merkle_root_step {t : UpdateCapacityMerkleRootTx}
    (h : Processes o pc n tx st e) (hinner : tx.payload.inner = .UpdateCapacityMerkleRoot t) :
    CapacityStep o pc n (.DeliverTx (.ok tx)) e.capacity_validators
      (tx.process o pc st e).2.capacity_validators := by
  have hcode := h.code
  have hno : ∀ vp, tx.payload.inner ≠ .VerifiedProof vp := by simp [hinner]
  simp only [Tx.process, hinner, process_update_capacity_merkle_root_tx] at hcode ⊢
  rw [h.height] at hcode ⊢
  cases haccount : e.get_account_from_cado o st t.sender with
  | none => exact .of_no_proof hno rfl
  | some account =>
    simp only [haccount] at hcode ⊢
    by_cases hregistered : e.capacity_validators.any (fun p => p.address == t.sender) = true
    · rw [if_pos hregistered] at hcode ⊢
      exact .rerooted ⟨tx, rfl, hinner, hcode⟩
    · rw [if_neg hregistered]
      exact .of_no_proof hno rfl

theorem capacity_validators_setCoins (o : Outside) (st : Storage) (e : AppStateEnvelope) (p : Purse)
    (c : Coin) : (e.setCoins o st p c).capacity_validators = e.capacity_validators := by
  cases p <;> rfl

/-- A failure that is counted leaves the list alone or slashes the provider. -/
theorem countedState_step {vp : VerifiedProofTx} (h : Processes o pc n tx st e)
    (hinner : tx.payload.inner = .VerifiedProof vp) (hflag : vp.failed = true)
    (hcode : (tx.process o pc st e).1.code = 0) :
    CapacityStep o pc n (.DeliverTx (.ok tx)) e.capacity_validators
      (countedState pc e vp).capacity_validators := by
  unfold countedState record_failed_capacity_proof
  simp only
  by_cases hlimit : pc.failed_proofs_before_slash ≤
      UInt32.saturating_add (e.failed_proof_counts.getD vp.capacity_provider 0) 1
  · rw [if_pos hlimit]
    exact .slashed ⟨tx, rfl, hinner, h.code.trans hcode⟩ hflag
  · rw [if_neg hlimit]
    refine .kept (fun vp' hvp' => ?_) (not_opensEpoch_deliver _)
    have hsame := hvp'.of_tx.1
    rw [hinner] at hsame
    cases hsame
    exact hflag

/-- A reward extends the lease of the provider. -/
theorem rewardedState_step {vp : VerifiedProofTx} (h : Processes o pc n tx st e)
    (hinner : tx.payload.inner = .VerifiedProof vp) (hflag : vp.failed = false)
    (hcode : (tx.process o pc st e).1.code = 0) (sum : Coin) :
    CapacityStep o pc n (.DeliverTx (.ok tx)) e.capacity_validators
      (rewardedState o pc st e vp sum).capacity_validators := by
  have hheight : (e.setCoins o st (.account vp.capacity_provider) sum).block_height =
      n.state.envelope.block_height := h.height
  unfold rewardedState extendLease
  simp only [capacity_validators_setCoins, hheight]
  exact .extended ⟨tx, rfl, hinner, h.code.trans hcode⟩ hflag

/-- A payload that moves coins or registers a name does not touch the providers. -/
theorem process_keeps_providers (hcoins : tx.coinless = false)
    (hproof : ∀ vp, tx.payload.inner ≠ .VerifiedProof vp)
    (hout : Outcome o pc st e tx (tx.process o pc st e).1 (tx.process o pc st e).2) :
    (tx.process o pc st e).2.capacity_validators = e.capacity_validators := by
  generalize tx.process o pc st e = out at hout
  obtain ⟨response, e'⟩ := out
  cases hout with
  | rejected => rfl
  | burnt => exact capacity_validators_setCoins o st e _ _
  | @moved src dst amount rest sum =>
    exact (capacity_validators_setCoins o st (e.setCoins o st src rest) dst sum).trans
      (capacity_validators_setCoins o st e src rest)
  | registry code coinless change =>
    rw [hcoins] at coinless
    cases coinless
  | posted => rfl
  | @namespaced an rest => exact capacity_validators_setCoins o st e (.account an.sender) rest
  | counted code inner => exact absurd inner (hproof _)
  | rewarded code inner => exact absurd inner (hproof _)

theorem process_verified_proof_step {vp : VerifiedProofTx} (h : Processes o pc n tx st e)
    (hinner : tx.payload.inner = .VerifiedProof vp)
    (hout : Outcome o pc st e tx (tx.process o pc st e).1 (tx.process o pc st e).2) :
    CapacityStep o pc n (.DeliverTx (.ok tx)) e.capacity_validators
      (tx.process o pc st e).2.capacity_validators := by
  by_cases hcode : (tx.process o pc st e).1.code = 0
  · obtain ⟨binding, heffect⟩ := hout.effect hinner hcode
    rcases heffect.staged with ⟨hflag, hstate⟩ | ⟨hflag, sum, hstate⟩
    · rw [hstate]
      exact countedState_step h hinner hflag hcode
    · rw [hstate]
      exact rewardedState_step h hinner hflag hcode sum
  · have hsame : (tx.process o pc st e).2.capacity_validators = e.capacity_validators := by
      have hmove : tx.move = none := by simp [Tx.move, hinner]
      generalize tx.process o pc st e = out at hout hcode
      obtain ⟨response, e'⟩ := out
      cases hout with
      | rejected => rfl
      | burnt code move =>
        rw [hmove] at move
        cases move
      | _ => contradiction
    exact .of_failed (by rw [h.code]; exact hcode) hsame

/-- What a payload does to the providers. A payload that is no registration, renewal or
removal has no other way to the list than an outcome of a proof. -/
theorem process_capacity (h : Processes o pc n tx st e)
    (hout : Outcome o pc st e tx (tx.process o pc st e).1 (tx.process o pc st e).2) :
    CapacityStep o pc n (.DeliverTx (.ok tx)) e.capacity_validators
      (tx.process o pc st e).2.capacity_validators := by
  cases hinner : tx.payload.inner with
  | RegisterCapacity t => exact process_register_capacity_step h hinner
  | UnregisterCapacity t => exact process_unregister_capacity_step h hinner
  | UpdateCapacityMerkleRoot t => exact process_update_capacity_merkle_root_step h hinner
  | VerifiedProof vp => exact process_verified_proof_step h hinner hout
  | PostMessage pm =>
    refine .of_no_proof (by simp [hinner]) ?_
    simp only [Tx.process, hinner, process_post_message_tx]
    split
    · rfl
    · rfl
  | _ =>
    have hno : ∀ vp, tx.payload.inner ≠ .VerifiedProof vp := by simp [hinner]
    exact .of_no_proof hno (process_keeps_providers (by simp [Tx.coinless, hinner]) hno hout)

/-! ## Calls -/

theorem endBlock_capacity {s s' : AppState} {height : I64} {out : EndBlockOutcome}
    (hs : n.state = s) (h : endBlockState o pc s height = .ok (out, s')) :
    CapacityStep o pc n (.EndBlock height) s.envelope.capacity_validators
      s'.envelope.capacity_validators := by
  subst hs
  rcases endBlockState.spec h with ⟨hsame, _, rfl⟩ | ⟨hopens, opened, hopen, _, rfl⟩
  · refine .kept (fun vp hvp => ?_) (fun height' hopens => ?_)
    · obtain ⟨tx, hr, _⟩ := hvp
      cases hr
    · obtain ⟨hr, hlt⟩ := hopens
      cases hr
      exact hsame hlt
  · obtain ⟨name, _, rfl⟩ := openEpoch.spec hopen
    obtain ⟨selected, hsel⟩ := chosenState.spec o pc (n.state.atHeight height) (epochOf pc height)
    have hlist := congrArg (fun x : AppState => x.envelope.capacity_validators) hsel
    simp only [AppState.set_app_hash]
    rw [hlist]
    exact .expired ⟨rfl, hopens⟩

/-- A call that is neither a transaction nor an EndBlock leaves the list alone. -/
theorem CapacityStep.of_other (hdeliver : ∀ request, r ≠ .DeliverTx request)
    (hend : ∀ height, r ≠ .EndBlock height) (hl : l' = l) : CapacityStep o pc n r l l' := by
  rw [hl]
  refine .kept (fun vp hvp => ?_) (fun height hopens => absurd hopens.1 (hend height))
  obtain ⟨tx, hr, _⟩ := hvp
  exact absurd hr (hdeliver _)

/-- What a call of a node does to the providers. -/
theorem NodeStep.capacity (h : NodeStep o pc n r n') (hg : NodeGood o n) :
    CapacityStep o pc n r n.state.envelope.capacity_validators
      n'.state.envelope.capacity_validators := by
  cases h with
  | begun phase =>
    rw [state_of_idle phase]
    exact .of_other (by simp) (by simp) rfl
  | turned_away request phase refused =>
    refine .kept (fun vp hvp => ?_) (not_opensEpoch_deliver _)
    obtain ⟨tx, hr, _, hcode⟩ := hvp
    cases hr
    exact absurd hcode (code_of_refused (fun s => refused tx s rfl))
  | @delivered tx after phase admitted =>
    obtain ⟨hcharged, _, hout⟩ := @NodeGood.of_admission o pc _ _ _ hg phase admitted
    have hheight := hcharged.framed.block_height
    obtain ⟨sender, rest, hto⟩ := hcharged
    have hlist : after.envelope.capacity_validators = n.state.envelope.capacity_validators := by
      rw [hto.staged]
      rfl
    rw [← hlist]
    exact process_capacity ⟨(@deliver_tx_inner.spec o pc _ _ _ admitted).1, hheight⟩ hout
  | @ended height before after out phase grows current ends =>
    obtain ⟨hstate, _⟩ := hg.of_current (by simp [phase]) current
    rw [hstate]
    exact endBlock_capacity hstate ends
  | @committed before c' phase current commits =>
    obtain ⟨hstate, hgood⟩ := hg.of_current (by simp [phase]) current
    rw [hstate]
    exact .of_other (by simp) (by simp)
      (commit_inner.spec current hgood commits).envelope.capacity_validators
  | uploaded content_key blob => exact .of_other (by simp) (by simp) rfl

/-! ## Proofs that hold -/

/-- The call delivers a proof that passes every check on the state that its fee leaves. -/
def Node.Proves (o : Outside) (pc : ProtocolConstants) (n : Node) (r : Request)
    (vp : VerifiedProofTx) : Prop :=
  ∃ tx s binding, r = .DeliverTx (.ok tx) ∧ tx.payload.inner = .VerifiedProof vp ∧
    admission o n.conn tx = .ok s ∧ Passes o pc n.conn.storage s.envelope vp binding ∧
    vp.failed = false

/-- An unfailed proof takes effect only when it holds. -/
theorem NodeStep.proves {vp : VerifiedProofTx} (h : NodeStep o pc n r n') (hg : NodeGood o n)
    (hdelivers : n.Delivers o pc r (.VerifiedProof vp)) (hflag : vp.failed = false) :
    n.Proves o pc r vp := by
  obtain ⟨tx, rfl, hinner, hcode⟩ := hdelivers
  cases h with
  | turned_away request phase refused =>
    exact absurd hcode (code_of_refused (fun s => refused tx s rfl))
  | @delivered _ s phase admitted =>
    obtain ⟨_, _, hout⟩ := @NodeGood.of_admission o pc _ _ _ hg phase admitted
    rw [(@deliver_tx_inner.spec o pc _ _ _ admitted).1] at hcode
    obtain ⟨binding, heffect⟩ := hout.effect hinner hcode
    exact ⟨tx, s, binding, rfl, hinner, admitted, heffect.passes, hflag⟩

end eld_chain
