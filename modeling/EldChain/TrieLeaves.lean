-- The leaves that go into the state trie. The leaf of an immutable object is
-- the hash of its data. The leaf of an account or of a stake is the hash it
-- was created with, which no update moves: two nodes whose accounts differ in
-- coins or nonces have the same leaves.
import EldChain.Identities
import EldChain.TrieInsertions

open Std

namespace eld_chain

variable {o : Outside} {pc : ProtocolConstants} {cfg : GenesisConfig}
variable {e : AppStateEnvelope} {st : Storage}

/-! ## The leaves of the purses -/

theorem IdentityStep.creationHash {n n' : Node} {r : Request} (h : IdentityStep o n r n')
    (p : Purse) : n'.creationHash o p = n.creationHash o p := by
  cases h with
  | kept none same => exact same.creationHash p
  | dispatched some charged same => exact (same.creationHash p).trans (charged.creationHash p)

/-- No run changes the hash that a purse was created with. -/
theorem creationHash_of_run {requests : List Request} {n : Node}
    (hrun : RunsTo o pc cfg requests n) (p : Purse) :
    n.creationHash o p = (genesis o pc cfg).creationHash o p := by
  refine runs.run_induction (Node.step o pc)
    (fun _ n => n.creationHash o p = (genesis o pc cfg).creationHash o p) rfl ?_ hrun
  intro earlier m r m' hm hold hs
  rw [← hold]
  exact ((step_cases hs).identities (reachable_good ⟨earlier, hm⟩)).creationHash p

/-- A purse that is in memory has its creation hash as its leaf. -/
theorem content_hash_of_purse (hg : Good o e st) {p : Purse} {b : CadoBody CadoData}
    (h : e.working p.path = some b) : b.content_hash = e.creationHash o st p := by
  have hobj := working_object hg.staged hg.committed h
  cases p with
  | account a =>
    have hget : e.get_account_from_cado o st a = b.account? := by
      rw [get_account_of_good hg.committed]
      exact congrArg (fun x => x.bind CadoBody.account?) h
    cases hobj with
    | account _ hash latest acc address =>
      rw [AppStateEnvelope.creationHash, account_or_new_of_some o st hget]
      rfl
  | stake a =>
    have hget : e.get_staking_account_from_cado o st a = b.staking_account? := by
      rw [get_staking_of_good hg.committed]
      exact congrArg (fun x => x.bind CadoBody.staking_account?) h
    cases hobj with
    | staking_account _ hash latest acc address =>
      rw [AppStateEnvelope.creationHash, staking_account_or_new_of_some o st hget]
      rfl

/-- After a commit, each purse of the committed cache has its creation hash of genesis. -/
theorem committed_purse_hash {requests : List Request} {n : Node}
    (hrun : RunsTo o pc cfg (requests ++ [.Commit]) n) {p : Purse} {b : CadoBody CadoData}
    (h : n.conn.committed_state.envelope.committed_cado_cache[p.path]? = some b) :
    b.content_hash = (genesis o pc cfg).creationHash o p := by
  obtain ⟨m, s, _, _, _, _, hstep, hidle⟩ := commit_of_run hrun
  have hstate : n.state = n.conn.committed_state := by
    unfold Node.state
    rw [hidle]
  have hworking : n.state.envelope.working p.path = some b := by
    rw [hstate]
    unfold AppStateEnvelope.working
    rw [hstep.envelope.cado_cache, h]
    simp
  have hgood : Good o n.state.envelope n.conn.storage := by
    rw [hstate]
    exact (reachable_good ⟨_, hrun⟩).committed
  rw [content_hash_of_purse hgood hworking, ← creationHash_of_run hrun p]
  rfl

/-! ## The leaves of the records -/

/-- The path of an epoch record or of a namespace. -/
def CadoPath.is_record : CadoPath → Bool
  | .epoch_record _ | .namespace_registry _ => true
  | _ => false

theorem ObjectAt.purse_or_record {p : CadoPath} {b : CadoBody CadoData} (h : ObjectAt o p b) :
    (∃ q : Purse, p = q.path) ∨ p.is_record = true := by
  cases h with
  | account a => exact Or.inl ⟨.account a, rfl⟩
  | staking_account a => exact Or.inl ⟨.stake a, rfl⟩
  | epoch_record => exact Or.inr rfl
  | namespace_registry => exact Or.inr rfl

theorem ObjectAt.record_hash {p : CadoPath} {b : CadoBody CadoData} (h : ObjectAt o p b)
    (hp : p.is_record = true) : b.content_hash = o.digest b.data := by
  cases h with
  | account => cases hp
  | staking_account => cases hp
  | epoch_record => rfl
  | namespace_registry => rfl

/-- The records of two caches at one path never collide under SHA-256. -/
def NoCollision (o : Outside) (c₁ c₂ : CadoCache) : Prop :=
  ∀ (p : CadoPath) b₁ b₂, p.is_record = true → c₁[p]? = some b₁ → c₂[p]? = some b₂ →
    o.digest b₁.data = o.digest b₂.data → b₁.data = b₂.data

/-- Two committed caches over the same paths give different leaves exactly when an epoch
record or a namespace differs, or when a purse was created differently at genesis. The coins,
stakes and nonces of the purses play no part. -/
theorem the_leaves_differ_by_their_records (o : Outside) (pc : ProtocolConstants)
    (cfg₁ cfg₂ : GenesisConfig) (requests₁ requests₂ : List Request) (n₁ n₂ : Node)
    (hrun₁ : RunsTo o pc cfg₁ (requests₁ ++ [.Commit]) n₁)
    (hrun₂ : RunsTo o pc cfg₂ (requests₂ ++ [.Commit]) n₂)
    (hpaths : ∀ p : CadoPath, n₁.conn.committed_state.envelope.committed_cado_cache[p]?.isSome =
      n₂.conn.committed_state.envelope.committed_cado_cache[p]?.isSome)
    (hdigest : NoCollision o n₁.conn.committed_state.envelope.committed_cado_cache
      n₂.conn.committed_state.envelope.committed_cado_cache) :
    n₁.conn.committed_state.envelope.leafMap ≠ n₂.conn.committed_state.envelope.leafMap ↔
      (∃ (p : CadoPath) (b₁ b₂ : CadoBody CadoData), p.is_record = true ∧
        n₁.conn.committed_state.envelope.committed_cado_cache[p]? = some b₁ ∧
        n₂.conn.committed_state.envelope.committed_cado_cache[p]? = some b₂ ∧
        b₁.data ≠ b₂.data) ∨
      (∃ q : Purse,
        n₁.conn.committed_state.envelope.committed_cado_cache[q.path]?.isSome = true ∧
        (genesis o pc cfg₁).creationHash o q ≠ (genesis o pc cfg₂).creationHash o q) := by
  have hobj₁ := (reachable_good ⟨_, hrun₁⟩).committed.committed.objects
  have hobj₂ := (reachable_good ⟨_, hrun₂⟩).committed.committed.objects
  have hleaf : ∀ (n : Node) (p : CadoPath), n.conn.committed_state.envelope.leafMap[p]? =
      n.conn.committed_state.envelope.committed_cado_cache[p]?.map CadoBody.content_hash :=
    fun n p => get_leafMap _ p
  constructor
  · intro hne
    by_contra hsame
    rw [not_or] at hsame
    obtain ⟨hrecords, hpurses⟩ := hsame
    apply hne
    apply ExtTreeMap.ext_getElem?
    intro p
    rw [hleaf, hleaf]
    have hp := hpaths p
    rcases hb₁ : n₁.conn.committed_state.envelope.committed_cado_cache[p]? with _ | b₁
    · rw [hb₁] at hp
      rw [Option.isSome_eq_false_iff.mp hp.symm |> Option.isNone_iff_eq_none.mp]
    · rw [hb₁] at hp
      obtain ⟨b₂, hb₂⟩ := Option.isSome_iff_exists.mp hp.symm
      rw [hb₂, Option.map_some, Option.map_some]
      congr 1
      rcases (hobj₁ p b₁ hb₁).purse_or_record with ⟨q, rfl⟩ | hrecord
      · rw [committed_purse_hash hrun₁ hb₁, committed_purse_hash hrun₂ hb₂]
        by_contra hdiff
        exact hpurses ⟨q, by rw [hb₁]; rfl, hdiff⟩
      · rw [(hobj₁ p b₁ hb₁).record_hash hrecord, (hobj₂ p b₂ hb₂).record_hash hrecord]
        by_contra hdiff
        exact hrecords ⟨p, b₁, b₂, hrecord, hb₁, hb₂, fun heq => hdiff (by rw [heq])⟩
  · intro hdiff heq
    have hat : ∀ p : CadoPath,
        n₁.conn.committed_state.envelope.committed_cado_cache[p]?.map CadoBody.content_hash =
          n₂.conn.committed_state.envelope.committed_cado_cache[p]?.map CadoBody.content_hash := by
      intro p
      rw [← hleaf, ← hleaf, heq]
    rcases hdiff with ⟨p, b₁, b₂, hrecord, hb₁, hb₂, hdata⟩ | ⟨q, hq, hcreated⟩
    · have hp := hat p
      rw [hb₁, hb₂, Option.map_some, Option.map_some, (hobj₁ p b₁ hb₁).record_hash hrecord,
        (hobj₂ p b₂ hb₂).record_hash hrecord] at hp
      exact hdata (hdigest p b₁ b₂ hrecord hb₁ hb₂ (Option.some.inj hp))
    · have hp := hat q.path
      obtain ⟨b₁, hb₁⟩ := Option.isSome_iff_exists.mp hq
      obtain ⟨b₂, hb₂⟩ := Option.isSome_iff_exists.mp ((hpaths q.path).symm.trans hq)
      rw [hb₁, hb₂, Option.map_some, Option.map_some, committed_purse_hash hrun₁ hb₁,
        committed_purse_hash hrun₂ hb₂] at hp
      exact hcreated (Option.some.inj hp)

/-- Alice sends some base units to a new account, in the block that opens the first epoch. -/
def transferBlock (amount : UInt32) : List Request :=
  [.BeginBlock, .DeliverTx (.ok (aliceSends 1 carol alice_ne_carol amount)),
    .EndBlock (smallHeight 2)]

def sendFive : List Request := transferBlock 5

def sendSeven : List Request := transferBlock 7

def Node.committedCache (n : Node) : CadoCache :=
  n.conn.committed_state.envelope.committed_cado_cache

def Node.committedBalance (n : Node) (a : Address) : Option Nat :=
  (n.committedCache[CadoPath.account a]?.bind CadoBody.account?).map
    (fun x => x.account.balance.amount)

/-- The two blocks commit the same paths and the same records, but not the same balances. -/
theorem sendFive_sendSeven :
    ∃ n₁ n₂, RunsTo Outside.toy smallConstants smallConfig (sendFive ++ [.Commit]) n₁ ∧
      RunsTo Outside.toy smallConstants smallConfig (sendSeven ++ [.Commit]) n₂ ∧
      n₁.committedBalance alice = some 998995 ∧ n₂.committedBalance alice = some 998993 ∧
      n₁.committedCache.keys = n₂.committedCache.keys ∧
      n₁.conn.committed_state.envelope.leafMap.toList =
        n₂.conn.committed_state.envelope.leafMap.toList ∧
      ∀ q ∈ n₁.committedCache.toList, q.1.is_record = true →
        n₂.committedCache[q.1]?.map CadoBody.data = some q.2.data := by
  have heval : (smallRun (sendFive ++ [.Commit])).any (fun (n₁ : Node) =>
    (smallRun (sendSeven ++ [.Commit])).any (fun (n₂ : Node) => decide (
      n₁.committedBalance alice = some 998995 ∧ n₂.committedBalance alice = some 998993 ∧
      n₁.committedCache.keys = n₂.committedCache.keys ∧
      n₁.conn.committed_state.envelope.leafMap.toList =
        n₂.conn.committed_state.envelope.leafMap.toList ∧
      ∀ q ∈ n₁.committedCache.toList, q.1.is_record = true →
        n₂.committedCache[q.1]?.map CadoBody.data = some q.2.data))) = true := by
    decide +kernel
  obtain ⟨n₁, hn₁, hrun₂⟩ := smallRun_ends heval
  obtain ⟨n₂, hn₂, hfacts⟩ := smallRun_ends hrun₂
  exact ⟨n₁, n₂, hn₁, hn₂, of_decide_eq_true hfacts⟩

theorem isSome_of_keys {c₁ c₂ : CadoCache} (h : c₁.keys = c₂.keys) (p : CadoPath) :
    c₁[p]?.isSome = c₂[p]?.isSome := by
  rw [Bool.eq_iff_iff, ExtTreeMap.isSome_getElem?_iff_mem, ExtTreeMap.isSome_getElem?_iff_mem,
    ← ExtTreeMap.mem_keys, ← ExtTreeMap.mem_keys, h]

theorem the_leaves_differ_by_their_records_on_transfers :
    ∃ n₁ n₂, RunsTo Outside.toy smallConstants smallConfig (sendFive ++ [.Commit]) n₁ ∧
      RunsTo Outside.toy smallConstants smallConfig (sendSeven ++ [.Commit]) n₂ ∧
      n₁.committedBalance alice = some 998995 ∧ n₂.committedBalance alice = some 998993 ∧
      ¬ n₁.conn.committed_state.envelope.leafMap ≠ n₂.conn.committed_state.envelope.leafMap := by
  obtain ⟨n₁, n₂, hn₁, hn₂, hb₁, hb₂, hkeys, _, hrecords⟩ := sendFive_sendSeven
  have hsame : ∀ (p : CadoPath) b₁ b₂, p.is_record = true → n₁.committedCache[p]? = some b₁ →
      n₂.committedCache[p]? = some b₂ → b₁.data = b₂.data := by
    intro p b₁ b₂ hp h₁ h₂
    have := hrecords (p, b₁) ((finite_map.mem_toList _ _).mpr h₁) hp
    rw [h₂] at this
    exact (Option.some.inj this).symm
  refine ⟨n₁, n₂, hn₁, hn₂, hb₁, hb₂, fun hne => ?_⟩
  rcases (the_leaves_differ_by_their_records Outside.toy smallConstants smallConfig smallConfig
      sendFive sendSeven n₁ n₂ hn₁ hn₂ (isSome_of_keys hkeys)
      (fun p b₁ b₂ hp h₁ h₂ _ => hsame p b₁ b₂ hp h₁ h₂)).mp hne with
    ⟨p, b₁, b₂, hp, h₁, h₂, hdata⟩ | ⟨q, _, hcreated⟩
  · exact hdata (hsame p b₁ b₂ hp h₁ h₂)
  · exact hcreated rfl

/-- Alice's balance differs, and the leaves do not. -/
theorem transfers_leave_the_leaves :
    ∃ n₁ n₂, RunsTo Outside.toy smallConstants smallConfig (sendFive ++ [.Commit]) n₁ ∧
      RunsTo Outside.toy smallConstants smallConfig (sendSeven ++ [.Commit]) n₂ ∧
      (∀ p : CadoPath, n₁.committedCache[p]?.isSome = n₂.committedCache[p]?.isSome) ∧
      n₁.committedBalance alice ≠ n₂.committedBalance alice ∧
      n₁.conn.committed_state.envelope.leafMap = n₂.conn.committed_state.envelope.leafMap := by
  obtain ⟨n₁, n₂, hn₁, hn₂, hb₁, hb₂, hkeys, hleaves, _⟩ := sendFive_sendSeven
  refine ⟨n₁, n₂, hn₁, hn₂, isSome_of_keys hkeys, ?_, ExtTreeMap.toList_inj.mp hleaves⟩
  rw [hb₁, hb₂]
  decide

end eld_chain
