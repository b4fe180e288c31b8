-- The law of challenge outcomes: a challenge id that was rewarded or
-- counted stays marked, in the block and then in the database, and a
-- marked id has no second outcome. The marks are the texts of the
-- payloads. So an id has one outcome in every run in which no proof
-- spells a marked id in another way.
import EldChain.Identities

open Std

namespace eld_chain

variable {o : Outside} {pc : ProtocolConstants} {cfg : GenesisConfig}
variable {e e' : AppStateEnvelope} {st st' : Storage}

/-! ## Marks -/

/-- What is counted of the challenges: every outcome, or the rewards alone. -/
inductive Tally
  | outcomes
  | rewards
deriving DecidableEq

/-- The text is the mark of a challenge that was counted. -/
def AppStateEnvelope.marked (e : AppStateEnvelope) (st : Storage) (key : Text) : Tally → Bool
  | .outcomes => e.is_verified_proof_challenge_rewarded st key ||
      e.is_verified_proof_challenge_failed st key
  | .rewards => e.is_verified_proof_challenge_rewarded st key

def Node.marked (n : Node) (key : Text) (t : Tally) : Bool :=
  n.state.envelope.marked n.conn.storage key t

/-- No mark is taken away. -/
structure MarksGrow (st : Storage) (e : AppStateEnvelope) (st' : Storage) (e' : AppStateEnvelope) :
    Prop where
  rewarded : ∀ key, e.is_verified_proof_challenge_rewarded st key = true →
    e'.is_verified_proof_challenge_rewarded st' key = true
  failed : ∀ key, e.is_verified_proof_challenge_failed st key = true →
    e'.is_verified_proof_challenge_failed st' key = true

theorem MarksGrow.marked (h : MarksGrow st e st' e') {key : Text} {t : Tally}
    (hkey : e.marked st key t = true) : e'.marked st' key t = true := by
  cases t with
  | outcomes =>
    simp only [AppStateEnvelope.marked, Bool.or_eq_true] at hkey ⊢
    exact hkey.imp (h.rewarded key) (h.failed key)
  | rewards => exact h.rewarded key hkey

theorem MarksGrow.refl (e : AppStateEnvelope) : MarksGrow st e st e :=
  ⟨fun _ h => h, fun _ h => h⟩

theorem MarksGrow.trans {st₂ : Storage} {e₂ : AppStateEnvelope} (h : MarksGrow st e st' e')
    (h' : MarksGrow st' e' st₂ e₂) : MarksGrow st e st₂ e₂ :=
  ⟨fun key hkey => h'.rewarded key (h.rewarded key hkey),
    fun key hkey => h'.failed key (h.failed key hkey)⟩

theorem rewarded_iff (e : AppStateEnvelope) (st : Storage) (key : Text) :
    e.is_verified_proof_challenge_rewarded st key = true ↔
      key ∈ e.verified_proof_rewarded_cache ∨ key ∈ st.vp_rewarded := by
  simp [AppStateEnvelope.is_verified_proof_challenge_rewarded]

theorem failed_iff (e : AppStateEnvelope) (st : Storage) (key : Text) :
    e.is_verified_proof_challenge_failed st key = true ↔
      key ∈ e.failed_proof_counted_cache ∨ key ∈ st.vp_failed := by
  simp [AppStateEnvelope.is_verified_proof_challenge_failed]

/-- A block that keeps its own marks keeps every mark. -/
theorem MarksGrow.of_caches
    (hr : ∀ key, key ∈ e.verified_proof_rewarded_cache → key ∈ e'.verified_proof_rewarded_cache)
    (hf : ∀ key, key ∈ e.failed_proof_counted_cache → key ∈ e'.failed_proof_counted_cache) :
    MarksGrow st e st e' := by
  constructor
  · intro key hkey
    rw [rewarded_iff] at hkey ⊢
    exact hkey.imp_left (hr key)
  · intro key hkey
    rw [failed_iff] at hkey ⊢
    exact hkey.imp_left (hf key)

theorem marksGrow_setCoins (e : AppStateEnvelope) (p : Purse) (c : Coin) :
    MarksGrow st e st (e.setCoins o st p c) := by
  cases p <;> exact .of_caches (fun _ h => h) (fun _ h => h)

theorem Charged.marks {tx : Tx} (h : Charged o st e tx e') : MarksGrow st e st e' := by
  obtain ⟨sender, rest, h⟩ := h
  rw [h.staged]
  exact .of_caches (fun _ h => h) (fun _ h => h)

theorem marksGrow_countedState (e : AppStateEnvelope) (vp : VerifiedProofTx) :
    MarksGrow st e st (countedState pc e vp) := by
  apply MarksGrow.of_caches
  · intro key hkey
    unfold countedState record_failed_capacity_proof
    simp only
    split <;> exact hkey
  · intro key hkey
    exact ExtTreeSet.mem_insert.mpr (Or.inr hkey)

theorem marksGrow_rewardedState (e : AppStateEnvelope) (vp : VerifiedProofTx) (sum : Coin) :
    MarksGrow st e st (rewardedState o pc st e vp sum) := by
  apply MarksGrow.of_caches
  · intro key hkey
    exact ExtTreeSet.mem_insert.mpr (Or.inr hkey)
  · intro key hkey
    exact hkey

/-- No payload takes a mark away. -/
theorem Outcome.marks {tx : Tx} {r : ResponseDeliverTx} (h : Outcome o pc st e tx r e') :
    MarksGrow st e st e' := by
  cases h with
  | rejected => exact .refl e
  | burnt => exact marksGrow_setCoins e _ _
  | @moved src dst _ rest sum _ =>
    have h12 := (@marksGrow_setCoins o st e src rest).trans (@marksGrow_setCoins o st _ dst sum)
    exact h12.trans (.of_caches (fun _ h => h) (fun _ h => h))
  | registry => exact .of_caches (fun _ h => h) (fun _ h => h)
  | posted => exact .of_caches (fun _ h => h) (fun _ h => h)
  | namespaced => exact .of_caches (fun _ h => h) (fun _ h => h)
  | counted => exact marksGrow_countedState e _
  | rewarded => exact marksGrow_rewardedState e _ _

theorem mem_insertAll (keys s : ExtTreeSet Text compare) (key : Text) :
    key ∈ insertAll keys s ↔ key ∈ keys ∨ key ∈ s := by
  have hfold : ∀ (l : List Text) (s : ExtTreeSet Text compare),
      key ∈ l.foldl (fun s k => s.insert k) s ↔ key ∈ l ∨ key ∈ s := by
    intro l
    induction l with
    | nil => simp
    | cons k l ih =>
      intro s
      rw [List.foldl_cons, ih, ExtTreeSet.mem_insert, LawfulEqCmp.compare_eq_iff_eq,
        List.mem_cons]
      tauto
  unfold insertAll
  rw [hfold, ExtTreeSet.mem_toList]

/-- A commit moves the marks of the block to the database. -/
theorem CommitStep.marks {s : AppState} {c c' : ConsensusConnection}
    (h : CommitStep o pc s c c') :
    MarksGrow c.storage s.envelope c'.storage c'.committed_state.envelope := by
  constructor
  · intro key hkey
    rw [rewarded_iff] at hkey ⊢
    rw [h.vp_rewarded, mem_insertAll]
    exact Or.inr hkey
  · intro key hkey
    rw [failed_iff] at hkey ⊢
    rw [h.vp_failed, mem_insertAll]
    exact Or.inr hkey

theorem endBlock_marks {s s' : AppState} {height : I64} {out : EndBlockOutcome}
    (h : endBlockState o pc s height = .ok (out, s')) :
    MarksGrow st s.envelope st s'.envelope := by
  obtain ⟨_, _, _, _, _, _, rfl⟩ := endBlockState.fields h
  exact .of_caches (fun _ h => h) (fun _ h => h)

/-! ## Proofs that take effect -/

/-- The id that a proof names, whatever its spelling. -/
def VerifiedProofTx.id (vp : VerifiedProofTx) : Option ChallengeId :=
  (ChallengeId.parse_hex vp.challenge_id).toOption

def Tally.counts : Tally → VerifiedProofTx → Bool
  | .outcomes, _ => true
  | .rewards, vp => !vp.failed

/-- The proof that takes effect in a call, if there is one: it is rewarded, or it is counted
as a failure. -/
def proofEffect (o : Outside) (pc : ProtocolConstants) (n : Node) (r : Request) :
    Option VerifiedProofTx :=
  match dispatched o n r with
  | none => none
  | some (tx, s) =>
    match tx.payload.inner with
    | .VerifiedProof vp =>
      if (tx.process o pc n.conn.storage s.envelope).1.code = 0 then some vp else none
    | _ => none

/-- A proof that passes every gate: its flag says what its chunk proofs show. -/
structure Passes (o : Outside) (pc : ProtocolConstants) (st : Storage) (e : AppStateEnvelope)
    (vp : VerifiedProofTx) (binding : VerifiedProofBinding) : Prop
    extends Accepts o pc st e vp binding where
  judged : vp.failed = true ↔ proofErrors o vp binding ≠ []

/-- What stands behind an effect. -/
structure Effect (o : Outside) (pc : ProtocolConstants) (st : Storage) (e : AppStateEnvelope)
    (vp : VerifiedProofTx) (e' : AppStateEnvelope) (binding : VerifiedProofBinding) : Prop where
  passes : Passes o pc st e vp binding
  staged : (vp.failed = true ∧ e' = countedState pc e vp) ∨
    (vp.failed = false ∧ ∃ sum, e' = rewardedState o pc st e vp sum)

theorem Outcome.effect {tx : Tx} {vp : VerifiedProofTx} {r : ResponseDeliverTx}
    (h : Outcome o pc st e tx r e') (hinner : tx.payload.inner = .VerifiedProof vp)
    (hcode : r.code = 0) : ∃ binding, Effect o pc st e vp e' binding := by
  cases h with
  | rejected code => exact absurd hcode code
  | burnt code => exact absurd hcode code
  | moved code move =>
    simp only [Tx.move, hinner] at move
    cases move
  | registry code coinless =>
    simp only [Tx.coinless, hinner] at coinless
    cases coinless
  | posted code coinless =>
    simp only [Tx.coinless, hinner] at coinless
    cases coinless
  | namespaced code inner =>
    rw [hinner] at inner
    cases inner
  | counted code inner accepts flag invalid =>
    rw [hinner] at inner
    cases inner
    exact ⟨_, ⟨accepts, by simp [flag, invalid]⟩, Or.inl ⟨flag, rfl⟩⟩
  | rewarded code inner accepts flag valid =>
    rw [hinner] at inner
    cases inner
    exact ⟨_, ⟨accepts, by simp [flag, valid]⟩, Or.inr ⟨flag, _, rfl⟩⟩

/-- A proof that its processor accepts takes effect. -/
theorem effect_of_process {vp : VerifiedProofTx}
    (h : (process_verified_proof_tx o pc st e vp).1.code = 0) :
    ∃ binding, Effect o pc st e vp (process_verified_proof_tx o pc st e vp).2 binding := by
  let tx : Tx := ⟨[], ⟨0⟩, ⟨[], .VerifiedProof vp⟩, [], 0⟩
  have houtcome := @process_verified_proof_outcome o pc st e tx vp rfl
  exact houtcome.effect rfl h

/-- What takes effect is marked. -/
theorem Effect.marked {vp : VerifiedProofTx} {binding : VerifiedProofBinding} {t : Tally}
    (h : Effect o pc st e vp e' binding) (ht : t.counts vp = true) :
    e'.marked st vp.challenge_id t = true := by
  rcases h.staged with ⟨hflag, rfl⟩ | ⟨_, sum, rfl⟩
  · have hmark : (countedState pc e vp).is_verified_proof_challenge_failed st vp.challenge_id =
        true :=
      (failed_iff _ _ _).mpr (Or.inl (ExtTreeSet.mem_insert_self))
    cases t with
    | outcomes => exact Bool.or_eq_true_iff.mpr (Or.inr hmark)
    | rewards =>
      rw [Tally.counts, hflag] at ht
      cases ht
  · have hmark : (rewardedState o pc st e vp sum).is_verified_proof_challenge_rewarded st
        vp.challenge_id = true :=
      (rewarded_iff _ _ _).mpr (Or.inl (ExtTreeSet.mem_insert_self))
    cases t with
    | outcomes => exact Bool.or_eq_true_iff.mpr (Or.inl hmark)
    | rewards => exact hmark

/-- What is marked passes no gate. -/
theorem Passes.not_marked {vp : VerifiedProofTx} {binding : VerifiedProofBinding}
    (h : Passes o pc st e vp binding) (t : Tally) : e.marked st vp.challenge_id t = false := by
  cases t with
  | outcomes =>
    rw [AppStateEnvelope.marked, h.not_rewarded, h.not_failed]
    rfl
  | rewards => exact h.not_rewarded

/-- An effect was delivered on a charged state, and its processor accepted it there. -/
theorem NodeStep.effect {n n' : Node} {r : Request} {vp : VerifiedProofTx}
    (h : NodeStep o pc n r n') (hg : NodeGood o n) (heffect : proofEffect o pc n r = some vp) :
    ∃ tx s binding, r = .DeliverTx (.ok tx) ∧ tx.payload.inner = .VerifiedProof vp ∧
      admission o n.conn tx = .ok s ∧ Charged o n.conn.storage n.state.envelope tx s.envelope ∧
      Good o s.envelope n.conn.storage ∧
      Effect o pc n.conn.storage s.envelope vp n'.state.envelope binding ∧
      n'.conn.storage = n.conn.storage := by
  unfold proofEffect at heffect
  cases h with
  | @delivered tx s phase admitted =>
    obtain ⟨hcharged, hgood, hout⟩ := @NodeGood.of_admission o pc _ _ _ hg phase admitted
    have hd : dispatched o n (.DeliverTx (.ok tx)) = some (tx, s) := by
      rw [dispatched, if_pos phase, admitted]
      rfl
    rw [hd] at heffect
    rcases hinner : tx.payload.inner with t | u | s' | vp' | rc | uc | um | pm | an <;>
      simp only [hinner, reduceCtorEq] at heffect
    split at heffect
    · rename_i hcode
      cases heffect
      obtain ⟨binding, heff⟩ := hout.effect hinner hcode
      exact ⟨tx, s, binding, rfl, hinner, admitted, hcharged, hgood, heff, rfl⟩
    · cases heffect
  | turned_away request phase refused =>
    rcases request with r | tx
    · cases heffect
    · rcases hadmitted : admission o n.conn tx with r | s
      · rw [dispatched, if_pos phase, hadmitted] at heffect
        cases heffect
      · exact absurd hadmitted (refused tx s rfl)
  | begun => cases heffect
  | ended => cases heffect
  | committed => cases heffect
  | uploaded => cases heffect

/-! ## Whole runs -/

/-- No call takes a mark away. -/
theorem NodeStep.marks {n n' : Node} {r : Request} (h : NodeStep o pc n r n')
    (hg : NodeGood o n) :
    MarksGrow n.conn.storage n.state.envelope n'.conn.storage n'.state.envelope := by
  cases h with
  | begun phase =>
    rw [state_of_idle phase]
    exact .refl _
  | turned_away => exact .refl _
  | @delivered tx s phase admitted =>
    obtain ⟨hcharged, _, hout⟩ := @NodeGood.of_admission o pc _ _ _ hg phase admitted
    exact hcharged.marks.trans hout.marks
  | @ended height s s' out phase grows current ends =>
    rw [state_of_current (by simp [phase]) current]
    exact endBlock_marks ends
  | @committed s c' phase current commits =>
    obtain ⟨hstate, hgood⟩ := hg.of_current (by simp [phase]) current
    rw [hstate]
    exact (commit_inner.spec current hgood commits).marks
  | uploaded => exact ⟨fun _ h => h, fun _ h => h⟩

/-- A proof that takes effect was not marked, and is marked from then on. -/
theorem NodeStep.effect_marked {n n' : Node} {r : Request} {vp : VerifiedProofTx} {t : Tally}
    (h : NodeStep o pc n r n') (hg : NodeGood o n) (heffect : proofEffect o pc n r = some vp)
    (ht : t.counts vp = true) :
    n.marked vp.challenge_id t = false ∧ n'.marked vp.challenge_id t = true := by
  obtain ⟨tx, s, binding, _, _, _, hcharged, _, heff, hstorage⟩ := h.effect hg heffect
  constructor
  · rw [Bool.eq_false_iff]
    intro hmarked
    have hcontra := hcharged.marks.marked hmarked
    rw [heff.passes.not_marked t] at hcontra
    cases hcontra
  · unfold Node.marked
    rw [hstorage]
    exact heff.marked ht

/-- The proofs that take effect in a run, in order. -/
def effects (o : Outside) (pc : ProtocolConstants) (cfg : GenesisConfig)
    (requests : List Request) : List VerifiedProofTx :=
  (runs.visits (Node.step o pc) requests (genesis o pc cfg)).filterMap
    (fun v => proofEffect o pc v.1 v.2)

theorem effects_snoc {requests : List Request} {n : Node} (r : Request)
    (h : RunsTo o pc cfg requests n) :
    effects o pc cfg (requests ++ [r]) =
      effects o pc cfg requests ++ (proofEffect o pc n r).toList := by
  unfold effects
  rw [runs.visits_snoc _ r h, List.filterMap_append]
  rcases hd : proofEffect o pc n r with _ | d <;> simp [hd]

/-- The call delivers a proof that passes the gates, for a challenge that is marked already:
the mark spells the id in another way. -/
def Respells (o : Outside) (pc : ProtocolConstants) (t : Tally) (n : Node) (r : Request) : Prop :=
  ∃ tx s vp binding key, r = .DeliverTx (.ok tx) ∧ tx.payload.inner = .VerifiedProof vp ∧
    admission o n.conn tx = .ok s ∧ Passes o pc n.conn.storage s.envelope vp binding ∧
    t.counts vp = true ∧ n.marked key t = true ∧ key ≠ vp.challenge_id ∧
    (ChallengeId.parse_hex key).toOption = vp.id

/-- What a run so far has done to the challenges. -/
structure CountedOnce (o : Outside) (pc : ProtocolConstants) (cfg : GenesisConfig) (t : Tally)
    (requests : List Request) (n : Node) : Prop where
  nodup : (((effects o pc cfg requests).filter t.counts).map VerifiedProofTx.id).Nodup
  marked : ∀ vp ∈ effects o pc cfg requests, t.counts vp = true →
    n.marked vp.challenge_id t = true

/-- A call that counts nothing keeps the count. -/
theorem CountedOnce.keep {requests : List Request} {n n' : Node} {r : Request} {t : Tally}
    (h : CountedOnce o pc cfg t requests n) (hrun : RunsTo o pc cfg requests n)
    (hstep : NodeStep o pc n r n')
    (hnone : ∀ vp, proofEffect o pc n r = some vp → t.counts vp = false) :
    CountedOnce o pc cfg t (requests ++ [r]) n' := by
  have hg := reachable_good ⟨requests, hrun⟩
  have hnew : (proofEffect o pc n r).toList.filter t.counts = [] := by
    rw [List.filter_eq_nil_iff]
    intro vp hvp
    rw [hnone vp (Option.mem_toList.mp hvp)]
    decide
  constructor
  · rw [effects_snoc r hrun, List.filter_append, hnew, List.append_nil]
    exact h.nodup
  · intro vp hvp ht
    rw [effects_snoc r hrun, List.mem_append, Option.mem_toList] at hvp
    rcases hvp with hold | hnew
    · exact (hstep.marks hg).marked (h.marked vp hold ht)
    · rw [hnone vp hnew] at ht
      cases ht

theorem CountedOnce.step {requests : List Request} {n n' : Node} {r : Request} {t : Tally}
    (h : CountedOnce o pc cfg t requests n) (hrun : RunsTo o pc cfg requests n)
    (hstep : NodeStep o pc n r n') (hspelling : ¬ Respells o pc t n r) :
    CountedOnce o pc cfg t (requests ++ [r]) n' := by
  have hg := reachable_good ⟨requests, hrun⟩
  rcases heffect : proofEffect o pc n r with _ | vp
  · refine h.keep hrun hstep (fun vp hvp => ?_)
    rw [heffect] at hvp
    cases hvp
  · rcases ht : t.counts vp with _ | _
    · refine h.keep hrun hstep (fun vp' hvp' => ?_)
      rw [heffect] at hvp'
      cases hvp'
      exact ht
    · have hnew : effects o pc cfg (requests ++ [r]) = effects o pc cfg requests ++ [vp] := by
        rw [effects_snoc r hrun, heffect]
        rfl
      obtain ⟨hbefore, hafter⟩ := hstep.effect_marked hg heffect ht
      constructor
      · rw [hnew, List.filter_append, List.map_append, List.nodup_append,
          List.filter_cons_of_pos ht]
        refine ⟨h.nodup, List.nodup_singleton _, fun id hold id' hid' heq => ?_⟩
        obtain ⟨old, hmem, rfl⟩ := List.mem_map.mp hold
        obtain ⟨hmem, hcounts⟩ := List.mem_filter.mp hmem
        rw [List.mem_singleton.mp hid'] at heq
        -- the earlier effect is marked with its own text, so the texts differ and the ids agree
        obtain ⟨tx, s, binding, hr, hinner, hadmitted, _, _, heff, _⟩ := hstep.effect hg heffect
        refine hspelling ⟨tx, s, vp, binding, old.challenge_id, hr, hinner, hadmitted,
          heff.passes, ht, h.marked old hmem hcounts, ?_, heq⟩
        intro htext
        rw [← htext, h.marked old hmem hcounts] at hbefore
        cases hbefore
      · intro old hold hcounts
        rw [hnew, List.mem_append, List.mem_singleton] at hold
        rcases hold with hold | rfl
        · exact (hstep.marks hg).marked (h.marked old hold hcounts)
        · exact hafter

/-- A run that never spells a marked challenge in another way counts each challenge once. -/
theorem counted_once {requests : List Request} {n : Node} {t : Tally}
    (hrun : RunsTo o pc cfg requests n)
    (hspelling : ∀ m r, (m, r) ∈ runs.visits (Node.step o pc) requests (genesis o pc cfg) →
      ¬ Respells o pc t m r) : CountedOnce o pc cfg t requests n := by
  revert hspelling
  refine runs.run_induction (Node.step o pc) (fun requests n =>
    (∀ m r, (m, r) ∈ runs.visits (Node.step o pc) requests (genesis o pc cfg) →
      ¬ Respells o pc t m r) → CountedOnce o pc cfg t requests n) ?_ ?_ hrun
  · intro _
    exact ⟨List.nodup_nil, fun vp hvp => by cases hvp⟩
  · intro earlier m r m' hm hold hs hvisits
    rw [runs.visits_snoc _ r hm] at hvisits
    refine (hold fun k q hkq => hvisits k q (List.mem_append_left _ hkq)).step hm
      (step_cases hs) (hvisits m r ?_)
    exact List.mem_append_right _ (List.mem_singleton.mpr rfl)

/-- In every run that never spells a marked challenge in another way, a challenge id has at
most one outcome. -/
theorem a_challenge_has_one_outcome (o : Outside) (pc : ProtocolConstants) (cfg : GenesisConfig)
    (requests : List Request) (n : Node) (hrun : RunsTo o pc cfg requests n)
    (hspelling : ∀ m r, (m, r) ∈ runs.visits (Node.step o pc) requests (genesis o pc cfg) →
      ¬ Respells o pc .outcomes m r) :
    ((effects o pc cfg requests).map VerifiedProofTx.id).Nodup := by
  have hall : (effects o pc cfg requests).filter Tally.outcomes.counts = effects o pc cfg requests :=
    List.filter_eq_self.mpr (fun _ _ => rfl)
  have honce := (counted_once hrun hspelling).nodup
  rw [hall] at honce
  exact honce

/-- A call that delivers no transaction spells no challenge. -/
def Request.delivers : Request → Bool
  | .DeliverTx _ => true
  | _ => false

def Node.unmarked (n : Node) : Bool :=
  n.state.envelope.verified_proof_rewarded_cache.isEmpty &&
    n.state.envelope.failed_proof_counted_cache.isEmpty &&
    n.conn.storage.vp_rewarded.isEmpty && n.conn.storage.vp_failed.isEmpty

/-- With no marks there is nothing to spell in another way. -/
theorem not_respells_of_eval {n : Node} {r : Request} {t : Tally}
    (h : (n.unmarked || !r.delivers) = true) : ¬ Respells o pc t n r := by
  rintro ⟨tx, s, vp, binding, key, rfl, _, _, _, _, hkey, _⟩
  simp only [Request.delivers, Bool.not_true, Bool.or_false, Node.unmarked, Bool.and_eq_true,
    ExtTreeSet.isEmpty_iff] at h
  have hrewarded : n.state.envelope.is_verified_proof_challenge_rewarded n.conn.storage key =
      false := by
    rw [Bool.eq_false_iff, Ne, rewarded_iff, h.1.1.1, h.1.2]
    simp
  have hfailed : n.state.envelope.is_verified_proof_challenge_failed n.conn.storage key =
      false := by
    rw [Bool.eq_false_iff, Ne, failed_iff, h.1.1.2, h.2]
    simp
  unfold Node.marked at hkey
  cases t with
  | outcomes =>
    rw [AppStateEnvelope.marked, hrewarded, hfailed] at hkey
    cases hkey
  | rewards =>
    rw [AppStateEnvelope.marked, hrewarded] at hkey
    cases hkey

/-- Alice answers her first challenge. -/
def answeredOnce : List Request := firstEpoch ++ [firstAnswer true]

theorem a_challenge_has_one_outcome_on_answeredOnce :
    ∃ n, RunsTo Outside.toy smallConstants smallConfig answeredOnce n ∧
      (effects Outside.toy smallConstants smallConfig answeredOnce).map VerifiedProofTx.id =
        [some (aliceChallenge (smallHeight 2))] ∧
      ((effects Outside.toy smallConstants smallConfig answeredOnce).map
        VerifiedProofTx.id).Nodup := by
  obtain ⟨n, hn, _⟩ := @smallRun_ends answeredOnce (fun _ => true) (by decide +kernel)
  have hunmarked : (runs.visits (Node.step Outside.toy smallConstants) answeredOnce
      (genesis Outside.toy smallConstants smallConfig)).all
        (fun v => v.1.unmarked || !v.2.delivers) = true := by decide +kernel
  refine ⟨n, hn, by decide +kernel, a_challenge_has_one_outcome Outside.toy smallConstants
    smallConfig answeredOnce n hn (fun m r hvisit => ?_)⟩
  exact not_respells_of_eval (List.all_eq_true.mp hunmarked (m, r) hvisit)

theorem prefixed_length : 64 ≤ 98 := by decide

/-- Alice answers her first challenge twice: the second answer writes `0x` before the id. -/
def answeredTwice : List Request :=
  answeredOnce ++ [.DeliverTx (.ok (answer 3
    ('0' :: 'x' :: (aliceChallenge (smallHeight 2)).to_hex) (prefixed_id_safe 64 _ prefixed_length)
    (smallHeight 2) smallHeight_two_pos true))]

/-- Both answers are rewarded. -/
theorem answeredTwice_is_rewarded_twice :
    (∃ n, RunsTo Outside.toy smallConstants smallConfig answeredTwice n) ∧
      (effects Outside.toy smallConstants smallConfig answeredTwice).map
        (fun vp => (vp.id, vp.capacity_provider, vp.failed)) =
        [(some (aliceChallenge (smallHeight 2)), alice, false),
          (some (aliceChallenge (smallHeight 2)), alice, false)] ∧
      ¬ ((effects Outside.toy smallConstants smallConfig answeredTwice).map
        VerifiedProofTx.id).Nodup := by
  obtain ⟨n, hn, _⟩ := @smallRun_ends answeredTwice (fun _ => true) (by decide +kernel)
  refine ⟨⟨n, hn⟩, by decide +kernel, by decide +kernel⟩

end eld_chain
