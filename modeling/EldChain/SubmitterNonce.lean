-- The nonce of the submitter and the nonce of the chain. They stay in step
-- while the account is charged only for a call that waits, and while the
-- call that was charged either hears of its success or reads the account
-- again. A transaction that fails in its block is charged too, and there
-- the submitter takes the same nonce once more.
import EldChain.BuilderFees
import EldChain.ProofSubmitter
import EldChain.StoredAccounts

open json

namespace eld_chain

variable {o : Outside} {pc : ProtocolConstants} {cfg : GenesisConfig} {s : SerdeJson}
variable {fl : Floats} {sc : SubmitterConfig fl}

/-! ## What the chain does to the nonces -/

/-- A transaction with code 0 was admitted. -/
theorem dispatched_of_code {n : Node} {tx : Tx} (hphase : n.phase = .delivering)
    (hcode : (deliver_tx_inner o pc n.conn (.ok tx)).1.code = 0) :
    ∃ s', dispatched o n (.DeliverTx (.ok tx)) = some (tx, s') := by
  rcases hadmission : admission o n.conn tx with r | s'
  · unfold deliver_tx_inner at hcode
    simp only [hadmission] at hcode
    exact absurd hcode (admission_code hadmission)
  · refine ⟨s', ?_⟩
    rw [dispatched, if_pos hphase, hadmission]
    rfl

theorem dispatched_request {n : Node} {r : Request} {tx : Tx} {s' : AppState}
    (h : dispatched o n r = some (tx, s')) : r = .DeliverTx (.ok tx) := by
  unfold dispatched at h
  split at h
  · rename_i tx'
    split at h
    · obtain ⟨_, _, heq⟩ := Option.map_eq_some_iff.mp h
      rw [(Prod.mk.inj heq).1]
    · cases h
  · cases h

/-- Only a commit moves the committed nonce, and it moves it to the one of the block. -/
theorem NodeStep.committedNonce {n n' : Node} {r : Request} (h : NodeStep o pc n r n')
    (a : Address) :
    (r = .Commit → n'.committedNonce o a = n'.nonce o a) ∧
      (r ≠ .Commit → n'.committedNonce o a = n.committedNonce o a) := by
  cases h with
  | begun => exact ⟨nofun, fun _ => rfl⟩
  | turned_away => exact ⟨nofun, fun _ => rfl⟩
  | delivered => exact ⟨nofun, fun _ => rfl⟩
  | ended => exact ⟨nofun, fun _ => rfl⟩
  | committed => exact ⟨fun _ => rfl, fun hr => absurd rfl hr⟩
  | uploaded => exact ⟨nofun, fun _ => rfl⟩

/-- A call that charges the wallet moves its nonce to the next one, which is the one of the
transaction, and no other call moves it. -/
theorem NonceLaw.wallet (sc : SubmitterConfig fl) {n n' : Node} {r : Request}
    (h : NonceLaw o n r n') :
    (chargedTx o sc n r = none ∧ n'.nonce o sc.wallet.address = n.nonce o sc.wallet.address) ∨
    ∃ tx, chargedTx o sc n r = some tx ∧ r = .DeliverTx (.ok tx) ∧
      (n.nonce o sc.wallet.address).next = some tx.nonce ∧
      n'.nonce o sc.wallet.address = tx.nonce := by
  unfold NonceLaw at h
  rcases hd : dispatched o n r with _ | ⟨tx, s'⟩
  · rw [hd] at h
    refine Or.inl ⟨?_, h _⟩
    rw [chargedTx, hd]
  · rw [hd] at h
    obtain ⟨hnext, hadmission, hprocessor⟩ := h
    have hmoved := (hprocessor sc.wallet.address).trans (hadmission sc.wallet.address)
    by_cases hsender : tx.payload.inner.sender = sc.wallet.address
    · rw [if_pos hsender] at hmoved
      rw [hsender] at hnext
      refine Or.inr ⟨tx, ?_, ?_, hnext, hmoved⟩
      · simp only [chargedTx, hd, if_pos hsender]
      · exact dispatched_request hd
    · rw [if_neg hsender] at hmoved
      refine Or.inl ⟨?_, hmoved⟩
      simp only [chargedTx, hd, if_neg hsender]

/-! ## What the submitter does to its nonce -/

theorem take_next_nonce_cases {sender sender' : SequentialOptimisticNonceSender}
    {fetched : Except EldError (Option Nonce)} {assigned : Except EldError Nonce}
    (h : sender.take_next_nonce fetched = (assigned, sender')) :
    (∃ k, assigned = .ok k ∧ sender' = ⟨k.next⟩ ∧
      (sender.next_tx_nonce = some k ∨ sender.next_tx_nonce = none ∧ fetched = .ok (some k))) ∨
    (∃ e, assigned = .error e) ∧ sender' = sender := by
  unfold SequentialOptimisticNonceSender.take_next_nonce at h
  rcases hcursor : sender.next_tx_nonce with _ | k
  · simp only [hcursor] at h
    rcases fetched with e | _ | k
    · cases h
      exact Or.inr ⟨⟨_, rfl⟩, rfl⟩
    · cases h
      exact Or.inr ⟨⟨_, rfl⟩, rfl⟩
    · cases h
      exact Or.inl ⟨k, rfl, rfl, Or.inr ⟨rfl, rfl⟩⟩
  · simp only [hcursor] at h
    cases h
    exact Or.inl ⟨k, rfl, rfl, Or.inl rfl⟩

/-- The nonce that is read from the database is the one behind the committed nonce. -/
theorem get_next_nonce_committed {n : Node} (hn : Reachable o pc cfg n) {a : Address}
    {query : CadoQuery} {next : Nonce}
    (h : get_next_nonce_for_account_cado o n.conn.storage a query = .ok (some next)) :
    (n.committedNonce o a).next = some next := by
  rcases query with e | _ | _
  · cases h
  · cases h
  · simp only [get_next_nonce_for_account_cado] at h
    split at h
    · cases h
    · cases h
    · cases h
    · rename_i cado hget
      split at h
      · rename_i account hdata
        rw [stored_account_is_committed hn hget hdata]
        unfold next_nonce_from_account at h
        split at h
        · rename_i next' hnext
          cases h
          exact hnext
        · cases h
      · cases h

theorem VerifiedProofTx.new_sender {u : VerifiedProofTxUnchecked} {vp : VerifiedProofTx}
    (h : VerifiedProofTx.new u = .ok vp) : vp.sender = u.sender := by
  unfold VerifiedProofTx.new at h
  repeat' split at h
  all_goals cases h
  rfl

/-- The transaction of a call has the nonce that was assigned, and is the wallet's. -/
theorem SubmitCall.build_spec {call : SubmitCall} {assigned_nonce : Nonce} {tx : Tx}
    (h : call.build sc assigned_nonce = .ok tx) :
    tx.nonce = assigned_nonce ∧ tx.payload.inner.sender = sc.wallet.address := by
  simp only [SubmitCall.build, buildVerifiedProof, payAndSign, bind_eq_ok, mapError_eq_ok,
    Except.ok.injEq] at h
  obtain ⟨_, _, _, _, vp, hvp, fee, _, rfl⟩ := h
  exact ⟨rfl, VerifiedProofTx.new_sender hvp⟩

theorem asUnsigned_of_isZero {v : Json} (h : isZero v = true) : asUnsigned 64 v = some 0 := by
  unfold isZero at h
  split at h
  · rw [beq_iff_eq] at h
    rw [h]
    rfl
  · cases h

/-- An answer that counts as a success reports two codes that are 0. -/
theorem send_tx_rpc_ok {reply : HttpReply} {v : Json} (h : send_tx_rpc s reply = .ok v) :
    ∃ response_text, reply = .body response_text ∧ reportedCodes s response_text = some (0, 0) := by
  cases reply with
  | body response_text =>
    refine ⟨response_text, rfl, ?_⟩
    simp only [send_tx_rpc, parse_rpc_response, bind_eq_ok, mapError_eq_ok] at h
    obtain ⟨_, ⟨json, hjson, hparse⟩, _⟩ := h
    simp only [reportedCodes, hjson]
    generalize memberAt json "result" = result at hparse
    by_cases hcheck : isZero (memberAt (memberAt result "check_tx") "code") = true
    · by_cases hdeliver : isZero (memberAt (memberAt result "deliver_tx") "code") = true
      · rw [asUnsigned_of_isZero hcheck, asUnsigned_of_isZero hdeliver]
      · -- a code of DeliverTx that is not 0 is an error, whatever it is
        simp [unless_eq_ok, hcheck, hdeliver, bind_eq_ok] at hparse
    · simp [unless_eq_ok, hcheck, bind_eq_ok] at hparse
  | no_url e => cases h
  | send_failed e => cases h
  | bad_status status => cases h
  | unreadable e => cases h

/-! ## In step -/

/-- The wallet's nonce in the open block. -/
def SubmitterSystem.nonce (o : Outside) (sc : SubmitterConfig fl) (w : SubmitterSystem) : Nonce :=
  w.node.nonce o sc.wallet.address

/-- The wallet's nonce on the chain. -/
def SubmitterSystem.chainNonce (o : Outside) (sc : SubmitterConfig fl) (w : SubmitterSystem) :
    Nonce := w.node.committedNonce o sc.wallet.address

/-- The answer settles a call whose nonce is charged: it is a success, or it is a network
error, the charge is committed and the account can be read. -/
def SubmitterSystem.settles (o : Outside) (s : SerdeJson) (sc : SubmitterConfig fl)
    (w : SubmitterSystem) (sub : Submission) (reply : HttpReply) (query : CadoQuery) : Bool :=
  match send_tx_rpc s reply with
  | .ok _ => true
  | .error (.NetworkError _ _) =>
    w.chainNonce o sc == sub.tx.nonce &&
      match get_next_nonce_for_account_cado o w.node.conn.storage sc.wallet.address query with
      | .ok (some _) => true
      | _ => false
  | .error _ => false

/-- The condition on an event. A block charges the wallet only while a call waits, and a call
whose nonce is charged gets an answer that settles it. -/
def SubmitterSystem.safe (o : Outside) (s : SerdeJson) (sc : SubmitterConfig fl)
    (w : SubmitterSystem) : SubmitterEvent → Bool
  | .chain request => (chargedTx o sc w.node request).isNone || w.waiting.isSome
  | .reply reply query _ =>
    match w.waiting with
    | none => true
    | some sub => w.nonce o sc != sub.tx.nonce || w.settles o s sc sub reply query
  | .dropped _ => true
  | .submit _ => true

theorem SubmitterSystem.settles_error {w : SubmitterSystem} {sub : Submission} {reply : HttpReply}
    {query : CadoQuery} {e : EldError} (h : w.settles o s sc sub reply query = true)
    (herror : send_tx_rpc s reply = .error e) :
    (∃ operation details, e = .NetworkError operation details) ∧
      w.chainNonce o sc = sub.tx.nonce ∧
      ∃ next, get_next_nonce_for_account_cado o w.node.conn.storage sc.wallet.address query =
        .ok (some next) := by
  unfold SubmitterSystem.settles at h
  rw [herror] at h
  cases e with
  | NetworkError operation details =>
    simp only [Bool.and_eq_true, beq_iff_eq] at h
    refine ⟨⟨operation, details, rfl⟩, h.1, ?_⟩
    have hread := h.2
    split at hread
    · rename_i next hnext
      exact ⟨next, hnext⟩
    · cases hread
  | _ => cases h

/-- Between two calls: the block and the chain agree, and the cursor is the next nonce. -/
structure Agrees (nonce chain : Nonce) (cursor : Option Nonce) (pending : List Tx) : Prop where
  committed : chain = nonce
  cursor : ∀ k, cursor = some k → nonce.next = some k
  pending : ∀ tx ∈ pending, tx.nonce.value.toNat ≤ nonce.value.toNat + 1

/-- While a call waits: its nonce is the next one, or it is charged in the open block or on
the chain. -/
structure Awaits (sc : SubmitterConfig fl) (nonce chain : Nonce) (cursor : Option Nonce)
    (pending : List Tx) (sub : Submission) : Prop where
  sender : sub.tx.payload.inner.sender = sc.wallet.address
  cursor : cursor = sub.tx.nonce.next
  place : (nonce.next = some sub.tx.nonce ∧ chain = nonce) ∨
    (nonce = sub.tx.nonce ∧ (chain = nonce ∨ chain.next = some nonce))
  delivered : 0 ∈ sub.delivered → nonce = sub.tx.nonce
  included : 0 ∈ sub.included → chain = sub.tx.nonce
  pending : ∀ tx ∈ pending, tx.nonce.value.toNat ≤ sub.tx.nonce.value.toNat

/-- The invariant of every safe run. -/
structure NonceInStep (o : Outside) (pc : ProtocolConstants) (cfg : GenesisConfig)
    (sc : SubmitterConfig fl) (w : SubmitterSystem) : Prop where
  reachable : Reachable o pc cfg w.node
  idle : w.waiting = none → Agrees (w.nonce o sc) (w.chainNonce o sc)
    w.submitter.nonce_sender.next_tx_nonce w.pending
  waiting : ∀ sub, w.waiting = some sub → Awaits sc (w.nonce o sc) (w.chainNonce o sc)
    w.submitter.nonce_sender.next_tx_nonce w.pending sub

theorem Nonce.next_ne_self {n : Nonce} : n.next ≠ some n := by
  intro h
  have := Nonce.next_toNat h
  omega

/-! ## The chain moves -/

theorem Agrees.mono {nonce chain : Nonce} {cursor : Option Nonce} {pending pending' : List Tx}
    (h : Agrees nonce chain cursor pending) (hsub : ∀ tx ∈ pending', tx ∈ pending) :
    Agrees nonce chain cursor pending' :=
  ⟨h.committed, h.cursor, fun tx htx => h.pending tx (hsub tx htx)⟩

theorem Awaits.mono {nonce chain : Nonce} {cursor : Option Nonce} {pending pending' : List Tx}
    {sub : Submission} (h : Awaits sc nonce chain cursor pending sub)
    (hsub : ∀ tx ∈ pending', tx ∈ pending) : Awaits sc nonce chain cursor pending' sub :=
  ⟨h.sender, h.cursor, h.place, h.delivered, h.included, fun tx htx => h.pending tx (hsub tx htx)⟩

/-- A charge that is on the chain is in the block too. -/
theorem Awaits.nonce_of_chain {nonce chain : Nonce} {cursor : Option Nonce} {pending : List Tx}
    {sub : Submission} (h : Awaits sc nonce chain cursor pending sub)
    (hchain : chain = sub.tx.nonce) : nonce = sub.tx.nonce := by
  rcases h.place with ⟨hnext, hsame⟩ | ⟨hnonce, _⟩
  · rw [← hsame, hchain] at hnext
    exact absurd hnext Nonce.next_ne_self
  · exact hnonce

/-- A commit: what the block delivered is on the chain. -/
theorem Awaits.commit {nonce chain : Nonce} {cursor : Option Nonce} {pending : List Tx}
    {sub : Submission} (h : Awaits sc nonce chain cursor pending sub) :
    Awaits sc nonce nonce cursor pending
      { sub with delivered := [], included := sub.included ++ sub.delivered } := by
  refine ⟨h.sender, h.cursor, ?_, fun hnil => ?_, fun hmem => ?_, h.pending⟩
  · rcases h.place with ⟨hnext, _⟩ | ⟨hnonce, _⟩
    · exact Or.inl ⟨hnext, rfl⟩
    · exact Or.inr ⟨hnonce, Or.inl rfl⟩
  · cases hnil
  · rcases List.mem_append.mp hmem with hold | hnew
    · exact h.nonce_of_chain (h.included hold)
    · exact h.delivered hnew

/-- A charge while the call waits is for its nonce: all that is pending is at most that. -/
theorem Awaits.charge {nonce chain : Nonce} {cursor : Option Nonce} {pending : List Tx}
    {sub : Submission} (h : Awaits sc nonce chain cursor pending sub) {tx : Tx}
    (hnext : nonce.next = some tx.nonce) (htx : tx ∈ pending) (delivered : List Nat) :
    Awaits sc tx.nonce chain cursor pending { sub with delivered := delivered } := by
  have hcharged : tx.nonce = sub.tx.nonce ∧ chain = nonce := by
    rcases h.place with ⟨hplace, hsame⟩ | ⟨hnonce, _⟩
    · rw [hnext] at hplace
      exact ⟨Option.some.inj hplace, hsame⟩
    · have hle := h.pending tx htx
      have hgrows := Nonce.next_toNat hnext
      rw [hnonce] at hgrows
      omega
  refine ⟨h.sender, h.cursor, Or.inr ⟨hcharged.1, Or.inr ?_⟩, fun _ => hcharged.1, h.included,
    h.pending⟩
  rw [hcharged.2]
  exact hnext

theorem delivering_of_step {n n' : Node} {request : Except ResponseDeliverTx Tx}
    (h : n.step o pc (.DeliverTx request) = some n') : n.phase = .delivering := by
  simp only [Node.step] at h
  split at h
  · assumption
  · cases h

/-- Between the commits only the codes of the open block change. Code 0 is new only when the
awaited transaction is charged. -/
theorem Submission.observe_delivered {n n' : Node} {r : Request} {sub : Submission}
    (hr : r ≠ .Commit) (hs : n.step o pc r = some n')
    (hsender : sub.tx.payload.inner.sender = sc.wallet.address) :
    ∃ delivered, sub.observe o pc n r = { sub with delivered := delivered } ∧
      (0 ∈ delivered → 0 ∈ sub.delivered ∨ chargedTx o sc n r ≠ none) := by
  cases r with
  | DeliverTx request =>
    rcases request with refusal | tx
    · exact ⟨sub.delivered, rfl, Or.inl⟩
    · by_cases htx : tx = sub.tx
      · refine ⟨sub.delivered ++ [(deliver_tx_inner o pc n.conn (.ok tx)).1.code], ?_, ?_⟩
        · simp only [Submission.observe, if_pos htx]
        · intro hmem
          rcases List.mem_append.mp hmem with hold | hnew
          · exact Or.inl hold
          · have hcode := (List.mem_singleton.mp hnew).symm
            obtain ⟨s', hd⟩ := dispatched_of_code (delivering_of_step hs) hcode
            rw [← htx] at hsender
            simp [chargedTx, hd, hsender]
      · refine ⟨sub.delivered, ?_, Or.inl⟩
        simp only [Submission.observe, if_neg htx]
  | Commit => exact absurd rfl hr
  | BeginBlock => exact ⟨sub.delivered, rfl, Or.inl⟩
  | EndBlock height => exact ⟨sub.delivered, rfl, Or.inl⟩
  | UploadBlob content_key blob => exact ⟨sub.delivered, rfl, Or.inl⟩

/-- What a call of the node does to the system. -/
theorem step_chain_cases {w w' : SubmitterSystem} {r : Request}
    (h : w.step o s sc pc (.chain r) = some w') :
    w.node.step o pc r = some w'.node ∧
      w'.waiting = w.waiting.map (Submission.observe o pc w.node r) ∧
      w'.submitter = w.submitter ∧ (∀ tx ∈ w'.pending, tx ∈ w.pending) ∧
      ∀ tx, chargedTx o sc w.node r = some tx → tx ∈ w.pending := by
  simp only [SubmitterSystem.step] at h
  split at h
  · cases h
  · rename_i node hnode
    split at h
    · rename_i hnone
      cases h
      refine ⟨hnode, rfl, rfl, fun _ htx => htx, fun tx htx => ?_⟩
      rw [hnone] at htx
      cases htx
    · rename_i tx hsome
      split at h
      · rename_i hpending
        cases h
        refine ⟨hnode, rfl, rfl, fun t ht => (List.mem_filter.mp ht).1, fun t ht => ?_⟩
        rw [hsome] at ht
        cases ht
        exact List.contains_iff_mem.mp hpending
      · cases h

theorem NonceInStep.chain {w w' : SubmitterSystem} {r : Request} (h : NonceInStep o pc cfg sc w)
    (hs : w.step o s sc pc (.chain r) = some w') (hsafe : w.safe o s sc (.chain r) = true) :
    NonceInStep o pc cfg sc w' := by
  obtain ⟨hnode, hwaiting, hsubmitter, hpending, hcharged⟩ := step_chain_cases hs
  have hstep := step_cases hnode
  have hlaw := (hstep.identities (reachable_good h.reachable)).nonceLaw.wallet sc
  obtain ⟨hcommit, hkept⟩ := hstep.committedNonce sc.wallet.address
  refine ⟨Reachable.step h.reachable hnode, fun hidle => ?_, fun sub' hsub' => ?_⟩
  · have hnone : w.waiting = none := by
      rw [hwaiting] at hidle
      exact Option.map_eq_none_iff.mp hidle
    have hold := h.idle hnone
    rcases hlaw with ⟨_, hsame⟩ | ⟨tx, htx, _⟩
    · have hchain : w'.chainNonce o sc = w.nonce o sc := by
        by_cases hr : r = .Commit
        · exact (hcommit hr).trans hsame
        · exact (hkept hr).trans hold.committed
      rw [hsubmitter, hchain, SubmitterSystem.nonce, hsame]
      exact (Agrees.mk rfl hold.cursor hold.pending).mono hpending
    · simp [SubmitterSystem.safe, htx, hnone] at hsafe
  · rw [hwaiting] at hsub'
    obtain ⟨sub, hsub, rfl⟩ := Option.map_eq_some_iff.mp hsub'
    have hold := h.waiting sub hsub
    rw [hsubmitter]
    refine Awaits.mono ?_ hpending
    by_cases hr : r = .Commit
    · have hsame : w'.nonce o sc = w.nonce o sc := by
        rcases hlaw with ⟨_, hsame⟩ | ⟨tx, _, hdeliver, _⟩
        · exact hsame
        · rw [hr] at hdeliver
          cases hdeliver
      rw [show w'.chainNonce o sc = w.nonce o sc from (hcommit hr).trans hsame, hsame, hr]
      exact hold.commit
    · obtain ⟨delivered, hobserve, hzero⟩ := Submission.observe_delivered hr hnode hold.sender
      rw [hobserve, show w'.chainNonce o sc = w.chainNonce o sc from hkept hr]
      rcases hlaw with ⟨hnone, hsame⟩ | ⟨tx, htx, _, hnext, hmoved⟩
      · rw [SubmitterSystem.nonce, hsame]
        refine ⟨hold.sender, hold.cursor, hold.place, fun hmem => ?_, hold.included, hold.pending⟩
        exact hold.delivered ((hzero hmem).resolve_right (fun hne => hne hnone))
      · rw [SubmitterSystem.nonce, hmoved]
        exact hold.charge hnext (hcharged tx htx) delivered

/-! ## The submitter moves -/

theorem NonceInStep.dropped {w w' : SubmitterSystem} {tx : Tx} (h : NonceInStep o pc cfg sc w)
    (hs : w.step o s sc pc (.dropped tx) = some w') : NonceInStep o pc cfg sc w' := by
  cases hs
  have hpending : ∀ t ∈ w.pending.filter (fun t => t != tx), t ∈ w.pending :=
    fun t ht => (List.mem_filter.mp ht).1
  exact ⟨h.reachable, fun hidle => (h.idle hidle).mono hpending,
    fun sub hsub => (h.waiting sub hsub).mono hpending⟩

/-- What the first half of a call does to the submitter. -/
theorem until_send_cases {st : Storage} {v v' : VerifiedProofChainSubmitter} {call : SubmitCall}
    {progress : Progress}
    (h : submit_verified_proof_until_send o sc st v call = (progress, v')) :
    (∃ result, progress = .returned result ∧ v'.nonce_sender = v.nonce_sender) ∨
    ∃ k, (v.nonce_sender.next_tx_nonce = some k ∨ v.nonce_sender.next_tx_nonce = none ∧
        get_next_nonce_for_account_cado o st sc.wallet.address call.query = .ok (some k)) ∧
      ((∃ result, progress = .returned result ∧ v'.nonce_sender = .reuse_nonce k) ∨
        ∃ tx, progress = .sent tx ∧ call.build sc k = .ok tx ∧ v'.nonce_sender = ⟨k.next⟩) := by
  unfold submit_verified_proof_until_send at h
  split at h
  · cases h
    exact Or.inl ⟨_, rfl, rfl⟩
  · cases h
    exact Or.inl ⟨_, rfl, rfl⟩
  · split at h
    · cases h
      exact Or.inl ⟨_, rfl, rfl⟩
    · split at h
      · cases h
        exact Or.inl ⟨_, rfl, rfl⟩
      · split at h
        · rename_i e nonce_sender htake
          cases h
          rcases take_next_nonce_cases htake with ⟨k, hk, _⟩ | ⟨_, hsame⟩
          · cases hk
          · exact Or.inl ⟨_, rfl, hsame⟩
        · rename_i assigned_nonce nonce_sender htake
          rcases take_next_nonce_cases htake with ⟨k, hk, hcursor, hfrom⟩ | ⟨⟨e, he⟩, _⟩
          · cases hk
            refine Or.inr ⟨_, hfrom, ?_⟩
            split at h
            · cases h
              exact Or.inl ⟨_, rfl, rfl⟩
            · rename_i tx hbuild
              cases h
              exact Or.inr ⟨tx, rfl, hbuild, hcursor⟩
          · cases he

/-- Between two calls the nonce that is assigned is the next one of the chain. -/
theorem NonceInStep.assigned {w : SubmitterSystem} (h : NonceInStep o pc cfg sc w) (hnone : w.waiting = none)
    {query : CadoQuery} {k : Nonce}
    (hfrom : w.submitter.nonce_sender.next_tx_nonce = some k ∨
      w.submitter.nonce_sender.next_tx_nonce = none ∧
        get_next_nonce_for_account_cado o w.node.conn.storage sc.wallet.address query =
          .ok (some k)) : (w.nonce o sc).next = some k := by
  have hold := h.idle hnone
  rcases hfrom with hcursor | ⟨_, hread⟩
  · exact hold.cursor k hcursor
  · rw [← hold.committed]
    exact get_next_nonce_committed h.reachable hread

theorem NonceInStep.submit {w w' : SubmitterSystem} {call : SubmitCall} (h : NonceInStep o pc cfg sc w)
    (hs : w.step o s sc pc (.submit call) = some w') : NonceInStep o pc cfg sc w' := by
  simp only [SubmitterSystem.step] at hs
  split at hs
  · cases hs
  · rename_i hnone
    have hold := h.idle hnone
    split at hs
    · rename_i result submitter hsend
      cases hs
      refine ⟨h.reachable, fun _ => ⟨hold.committed, ?_, hold.pending⟩, fun sub hsub => ?_⟩
      · rcases until_send_cases hsend with ⟨_, _, hsame⟩ | ⟨k, hfrom, ⟨_, _, hreuse⟩ | ⟨_, hsent, _⟩⟩
        · rw [hsame]
          exact hold.cursor
        · rw [hreuse]
          intro k' hk'
          cases hk'
          exact h.assigned hnone hfrom
        · cases hsent
      · rw [hnone] at hsub
        cases hsub
    · rename_i tx submitter hsend
      cases hs
      refine ⟨h.reachable, nofun, fun sub hsub => ?_⟩
      cases hsub
      rcases until_send_cases hsend with ⟨_, hreturned, _⟩ |
        ⟨k, hfrom, ⟨_, hreturned, _⟩ | ⟨_, hsent, hbuild, hcursor⟩⟩
      · cases hreturned
      · cases hreturned
      · cases hsent
        obtain ⟨hnonce, hsender⟩ := SubmitCall.build_spec hbuild
        have hnext := h.assigned hnone hfrom
        have hgrows := Nonce.next_toNat hnext
        rw [← hnonce] at hcursor hnext hgrows
        refine ⟨hsender, ?_, Or.inl ⟨hnext, hold.committed⟩, nofun, nofun, fun t ht => ?_⟩
        · rw [hcursor]
        · rcases List.mem_cons.mp ht with rfl | hmem
          · exact Nat.le_refl _
          · have hle := hold.pending t hmem
            simp only [SubmitterSystem.nonce] at hgrows hle ⊢
            omega

/-- The nonce after an error is the assigned one, or it was read from the chain. -/
theorem nonceAfterError_cases (st : Storage) (assigned_nonce : Nonce) (query : CadoQuery)
    (e : EldError) :
    nonceAfterError o sc st assigned_nonce query e = assigned_nonce ∨
      get_next_nonce_for_account_cado o st sc.wallet.address query =
        .ok (some (nonceAfterError o sc st assigned_nonce query e)) := by
  cases e with
  | NetworkError operation details =>
    simp only [nonceAfterError]
    split
    · rename_i next hread
      exact Or.inr hread
    · exact Or.inl rfl
    · exact Or.inl rfl
  | _ => exact Or.inl rfl

/-- A success leaves the cursor, and an error sets it. -/
theorem after_reply_cases (st : Storage) (v : VerifiedProofChainSubmitter) (assigned_nonce : Nonce)
    (challenge_id : Text) (reply : HttpReply) (query : CadoQuery)
    (claim_write : Except EldError Unit) :
    (∃ json, send_tx_rpc s reply = .ok json ∧
      (submit_verified_proof_after_reply o s sc st v assigned_nonce challenge_id reply query
        claim_write).2.nonce_sender = v.nonce_sender) ∨
    ∃ e, send_tx_rpc s reply = .error e ∧
      (submit_verified_proof_after_reply o s sc st v assigned_nonce challenge_id reply query
        claim_write).2.nonce_sender = .reuse_nonce (nonceAfterError o sc st assigned_nonce query e) := by
  unfold submit_verified_proof_after_reply
  rcases hreply : send_tx_rpc s reply with e | json
  · exact Or.inr ⟨e, rfl, rfl⟩
  · refine Or.inl ⟨json, rfl, ?_⟩
    rcases claim_write with e | _
    · rfl
    · simp only
      split <;> rfl

/-- A success is told only of a transaction that is on the chain. -/
theorem included_of_success {reply : HttpReply} {sub : Submission} {json : Json}
    (htruth : reply.truthful s sub = true) (h : send_tx_rpc s reply = .ok json) :
    0 ∈ sub.included := by
  obtain ⟨response_text, rfl, hcodes⟩ := send_tx_rpc_ok h
  simp only [HttpReply.truthful, HttpReply.turnsAway, hcodes, bne_self_eq_false,
    Bool.false_eq_true, if_false] at htruth
  exact List.contains_iff_mem.mp htruth

theorem kept_pending (s : SerdeJson) (reply : HttpReply) (tx : Tx) (pending : List Tx) :
    ∀ t ∈ (if reply.turnsAway s then pending.filter (fun t => t != tx) else pending),
      t ∈ pending := by
  intro t ht
  split at ht
  · exact (List.mem_filter.mp ht).1
  · exact ht

/-- The call hears of its charge. -/
theorem Awaits.succeeded {nonce chain : Nonce} {cursor : Option Nonce} {pending : List Tx}
    {sub : Submission} (h : Awaits sc nonce chain cursor pending sub)
    (hchain : chain = sub.tx.nonce) : Agrees nonce chain cursor pending := by
  have hnonce := h.nonce_of_chain hchain
  refine ⟨hchain.trans hnonce.symm, fun k hk => ?_, fun tx htx => ?_⟩
  · rw [h.cursor] at hk
    rw [hnonce]
    exact hk
  · have hle := h.pending tx htx
    rw [hnonce]
    omega

/-- The call fails, and the cursor is set to the next nonce of the chain. -/
theorem Awaits.failed {nonce chain next : Nonce} {cursor : Option Nonce} {pending : List Tx}
    {sub : Submission} (h : Awaits sc nonce chain cursor pending sub)
    (hnext : chain = nonce ∧ nonce.next = some next) : Agrees nonce chain (some next) pending := by
  refine ⟨hnext.1, fun k hk => ?_, fun tx htx => ?_⟩
  · cases hk
    exact hnext.2
  · have hle := h.pending tx htx
    rcases h.place with ⟨hplace, _⟩ | ⟨hnonce, _⟩
    · have hgrows := Nonce.next_toNat hplace
      omega
    · rw [hnonce]
      omega

/-- After an error the submitter takes the next nonce of the chain: the assigned one if it is
not charged, and the one it reads otherwise. -/
theorem NonceInStep.nonceAfterError {w : SubmitterSystem} {sub : Submission} {reply : HttpReply}
    {query : CadoQuery} {claim_write : Except EldError Unit} {e : EldError}
    (h : NonceInStep o pc cfg sc w) (hsub : w.waiting = some sub)
    (herror : send_tx_rpc s reply = .error e)
    (hsafe : w.safe o s sc (.reply reply query claim_write) = true) :
    w.chainNonce o sc = w.nonce o sc ∧ (w.nonce o sc).next =
      some (eld_chain.nonceAfterError o sc w.node.conn.storage sub.tx.nonce query e) := by
  rcases (h.waiting sub hsub).place with ⟨hnext, hsame⟩ | ⟨hnonce, _⟩
  · refine ⟨hsame, ?_⟩
    rcases nonceAfterError_cases w.node.conn.storage sub.tx.nonce query e with hassigned | hread
    · rw [hassigned]
      exact hnext
    · rw [← hsame]
      exact get_next_nonce_committed h.reachable hread
  · have hsettles : w.settles o s sc sub reply query = true := by
      simpa [SubmitterSystem.safe, hsub, hnonce] using hsafe
    obtain ⟨⟨operation, details, rfl⟩, hchain, next, hread⟩ :=
      SubmitterSystem.settles_error hsettles herror
    refine ⟨hchain.trans hnonce.symm, ?_⟩
    have hcommitted := get_next_nonce_committed h.reachable hread
    rw [hnonce, ← hchain]
    simp only [eld_chain.nonceAfterError, hread]
    exact hcommitted

theorem NonceInStep.reply {w w' : SubmitterSystem} {reply : HttpReply} {query : CadoQuery}
    {claim_write : Except EldError Unit} (h : NonceInStep o pc cfg sc w)
    (hs : w.step o s sc pc (.reply reply query claim_write) = some w')
    (hsafe : w.safe o s sc (.reply reply query claim_write) = true) : NonceInStep o pc cfg sc w' := by
  simp only [SubmitterSystem.step] at hs
  split at hs
  · cases hs
  · rename_i sub hsub
    split at hs
    · rename_i htruth
      cases hs
      have hold := h.waiting sub hsub
      refine ⟨h.reachable, fun _ => ?_, fun sub' hsub' => ?_⟩
      · refine Agrees.mono ?_ (kept_pending s reply sub.tx w.pending)
        rcases after_reply_cases w.node.conn.storage w.submitter sub.tx.nonce sub.challenge_id reply
          query claim_write with ⟨json, hok, hcursor⟩ | ⟨e, herror, hcursor⟩
        · rw [hcursor]
          exact hold.succeeded (hold.included (included_of_success htruth hok))
        · rw [hcursor]
          exact hold.failed (h.nonceAfterError hsub herror hsafe)
      · cases hsub'
    · cases hs

/-! ## Every run -/

theorem start_inStep {n : Node} (hn : Reachable o pc cfg n) (hidle : n.phase = .idle)
    (claims : List (String × Text)) : NonceInStep o pc cfg sc (.start n claims) := by
  refine ⟨hn, fun _ => ⟨?_, ?_, ?_⟩, ?_⟩
  · simp only [SubmitterSystem.chainNonce, SubmitterSystem.nonce, SubmitterSystem.start,
      Node.committedNonce, Node.nonce, state_of_idle hidle]
  · intro k hk
    cases hk
  · intro tx htx
    cases htx
  · intro sub hsub
    cases hsub

theorem NonceInStep.step {w w' : SubmitterSystem} {event : SubmitterEvent} (h : NonceInStep o pc cfg sc w)
    (hs : w.step o s sc pc event = some w') (hsafe : w.safe o s sc event = true) :
    NonceInStep o pc cfg sc w' := by
  cases event with
  | chain request => exact h.chain hs hsafe
  | dropped tx => exact h.dropped hs
  | submit call => exact h.submit hs
  | reply reply query claim_write => exact h.reply hs hsafe

/-- In every run whose events are safe, the nonce that the submitter assigns when all is
settled is the one behind the nonce of the account on the chain. -/
theorem submitter_stays_in_step (o : Outside) (pc : ProtocolConstants) (cfg : GenesisConfig)
    (s : SerdeJson) {fl : Floats} (sc : SubmitterConfig fl) (n : Node)
    (claims : List (String × Text)) (events : List SubmitterEvent) (w : SubmitterSystem)
    (hn : Reachable o pc cfg n) (hidle : n.phase = .idle)
    (hrun : runs.run (SubmitterSystem.step o s sc pc) events (.start n claims) = some w)
    (hsafe : ∀ v event, (v, event) ∈ runs.visits (SubmitterSystem.step o s sc pc) events
      (.start n claims) → v.safe o s sc event = true)
    (hsettled : w.Settled) (query : CadoQuery) (k : Nonce)
    (hassigned : w.nextNonce o sc query = .ok k) : (w.chainNonce o sc).next = some k := by
  have hinstep : NonceInStep o pc cfg sc w := by
    have hall := runs.run_induction (SubmitterSystem.step o s sc pc) (fun earlier v =>
      earlier <+: events → NonceInStep o pc cfg sc v) (fun _ => start_inStep hn hidle claims) ?_ hrun
    · exact hall List.prefix_rfl
    · intro earlier v event v' hv hold hs hpre
      refine (hold ((List.prefix_append earlier [event]).trans hpre)).step hs ?_
      exact hsafe v event (runs.mem_visits_of_earlier _ hv hpre)
  have hagrees := hinstep.idle hsettled.1
  obtain ⟨nonce_sender, htake⟩ : ∃ nonce_sender, w.submitter.nonce_sender.take_next_nonce
      (get_next_nonce_for_account_cado o w.node.conn.storage sc.wallet.address query) =
        (.ok k, nonce_sender) := by
    refine ⟨_, Prod.ext hassigned rfl⟩
  rcases take_next_nonce_cases htake with ⟨k', hk', _, hfrom⟩ | ⟨⟨e, he⟩, _⟩
  · cases hk'
    rw [hagrees.committed]
    exact hinstep.assigned hsettled.1 hfrom
  · cases he

/-! ## The submitter on the small chain -/

def aliceSubmitter : SubmitterConfig tenths := ⟨"alice", aliceWallet, "small", defaultFees⟩

/-- Alice reports a failed proof of a challenge that nobody issued. -/
def proofCall : SubmitCall where
  capacity_provider := Address.text alice
  challenge_id := hexDigits 64 5
  block_height := smallHeight 2
  proof_fields :=
    { proofs := [⟨0, [1], 0, [], .Proof, zero_lt_u64⟩]
      generated_at := MIN_TIMESTAMP
      provider_pubkey := hexDigits 64 1
      provider_signature := "00".toList
      failed := true }
  wallet_found := .ok true
  claim_read := .ok ()
  query := .answered
  verified_at_timestamp := .ok MIN_TIMESTAMP

/-- The transaction of that call with her first nonce. -/
def proofTx : Tx :=
  { signed 1 1 "VerifiedProof" (.VerifiedProof (answerWith (hexDigits 64 5)
      (hex_id_safe 64 5 id_length) [⟨0, [1], 0, [], .Proof, zero_lt_u64⟩]
      (List.cons_ne_nil _ _) true)) with fee := 52100 }

/-- The answer of a node that reports these codes. -/
def codesReply (check deliver : Nat) : HttpReply :=
  .body (Json.compact (.obj [(key "result", .obj [
    (key "check_tx", .obj [(key "code", .int check)]),
    (key "deliver_tx", .obj [(key "code", .int deliver)])])]))

/-- The call, the block that charges its transaction and lets it fail, and an answer. -/
def failedSubmission (reply : HttpReply) : List SubmitterEvent :=
  .submit proofCall :: (block (smallHeight 2) [proofTx]).map .chain ++
    [.reply reply .answered (.ok ())]

/-- What evaluating these events shows, from the second block of the small chain on. -/
theorem failedSubmission_ends {reply : HttpReply} {p : Node → SubmitterSystem → Bool}
    (h : (smallRun (block (smallHeight 1) [])).any (fun n => n.phase == .idle &&
      (runs.run (SubmitterSystem.step Outside.toy SerdeJson.plain aliceSubmitter smallConstants)
        (failedSubmission reply) (.start n [])).any (p n)) = true) :
    ∃ n w, Reachable Outside.toy smallConstants smallConfig n ∧ n.phase = .idle ∧
      runs.run (SubmitterSystem.step Outside.toy SerdeJson.plain aliceSubmitter smallConstants)
        (failedSubmission reply) (.start n []) = some w ∧ p n w = true := by
  obtain ⟨n, hn, hnode⟩ := smallRun_ends h
  simp only [Bool.and_eq_true, beq_iff_eq] at hnode
  obtain ⟨w, hw, hp⟩ := (Option.any_eq_true _ _).mp hnode.2
  exact ⟨n, w, ⟨_, hn⟩, hnode.1, hw, hp⟩

/-- The answer is lost after the block, and Alice reads her account again. -/
theorem submitter_stays_in_step_of_lost_answer :
    ∃ n w, Reachable Outside.toy smallConstants smallConfig n ∧
      runs.run (SubmitterSystem.step Outside.toy SerdeJson.plain aliceSubmitter smallConstants)
        (failedSubmission (.bad_status "502 Bad Gateway")) (.start n []) = some w ∧ w.Settled ∧
      w.nextNonce Outside.toy aliceSubmitter .answered = .ok ⟨2⟩ ∧
      (w.chainNonce Outside.toy aliceSubmitter).next = some ⟨2⟩ := by
  obtain ⟨n, w, hn, hidle, hrun, heval⟩ := @failedSubmission_ends (.bad_status "502 Bad Gateway")
    (fun n w => (runs.visits (SubmitterSystem.step Outside.toy SerdeJson.plain aliceSubmitter
        smallConstants) (failedSubmission (.bad_status "502 Bad Gateway")) (.start n [])).all
          (fun v => v.1.safe Outside.toy SerdeJson.plain aliceSubmitter v.2) &&
      w.waiting.isNone && w.pending.isEmpty &&
      (w.nextNonce Outside.toy aliceSubmitter .answered).toOption == some ⟨2⟩) (by decide +kernel)
  simp only [Bool.and_eq_true, beq_iff_eq, List.isEmpty_iff, Option.isNone_iff_eq_none,
    List.all_eq_true] at heval
  obtain ⟨⟨⟨hsafe, hwaiting⟩, hpending⟩, hnext⟩ := heval
  have hassigned := toOption_eq_some.mp hnext
  refine ⟨n, w, hn, hrun, ⟨hwaiting, hpending⟩, hassigned, ?_⟩
  exact submitter_stays_in_step Outside.toy smallConstants smallConfig SerdeJson.plain aliceSubmitter
    n [] _ w hn hidle hrun (fun v event hv => hsafe (v, event) hv) ⟨hwaiting, hpending⟩ .answered
    ⟨2⟩ hassigned

/-- The node tells Alice that her transaction failed in the block. Her account is charged, and
she takes the same nonce again. -/
theorem failed_proof_leaves_the_nonce_behind :
    ∃ n w, Reachable Outside.toy smallConstants smallConfig n ∧ n.phase = .idle ∧
      runs.run (SubmitterSystem.step Outside.toy SerdeJson.plain aliceSubmitter smallConstants)
        (failedSubmission (codesReply 0 51)) (.start n []) = some w ∧ w.Settled ∧
      w.nextNonce Outside.toy aliceSubmitter .answered = .ok ⟨1⟩ ∧
      (w.chainNonce Outside.toy aliceSubmitter).next = some ⟨2⟩ := by
  obtain ⟨n, w, hn, hidle, hrun, heval⟩ := @failedSubmission_ends (codesReply 0 51)
    (fun _ w => w.waiting.isNone && w.pending.isEmpty &&
      (w.nextNonce Outside.toy aliceSubmitter .answered).toOption == some ⟨1⟩ &&
      (w.chainNonce Outside.toy aliceSubmitter).next == some ⟨2⟩) (by decide +kernel)
  simp only [Bool.and_eq_true, beq_iff_eq, List.isEmpty_iff, Option.isNone_iff_eq_none] at heval
  obtain ⟨⟨⟨hwaiting, hpending⟩, hnext⟩, hchain⟩ := heval
  exact ⟨n, w, hn, hidle, hrun, ⟨hwaiting, hpending⟩, toOption_eq_some.mp hnext, hchain⟩

end eld_chain
