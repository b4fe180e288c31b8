-- Replicas of the chain. The blobs that wait for their messages differ
-- from node to node, and a node may stop anywhere, start on its database
-- and be given the calls of its open block again. Where no failed proof
-- is on record at a crash, two replicas that were given the same calls
-- hold the same states and objects, and gave the same answers.
import EldChain.CommitProgress
import EldChain.Library.Traces
import EldChain.NodeStart

open Std

namespace eld_chain

variable (o : Outside) (pc : ProtocolConstants) (cfg : GenesisConfig)

/-! ## What the other parties see -/

def Storage.withoutBlobs (st : Storage) : Storage := { st with pinboard_temp_blobs := ∅ }

def ConsensusConnection.withoutBlobs (c : ConsensusConnection) : ConsensusConnection :=
  { c with storage := c.storage.withoutBlobs }

/-- The node without its blobs, and without the open state when no block is open. -/
def Node.plain (n : Node) : Node :=
  ⟨n.phase, ⟨n.conn.committed_state,
    if n.phase = .idle then none else n.conn.current_state, n.conn.storage.withoutBlobs⟩⟩

/-- What a call of Tendermint is answered, and the challenges that it issues. -/
inductive ConsensusAnswer
  | begun
  | delivered (response : ResponseDeliverTx)
  | ended (outcome : EndBlockOutcome)
  | committed (data : AppHash)

def Node.answer (n : Node) : Request → Option ConsensusAnswer
  | .BeginBlock => some .begun
  | .DeliverTx request => some (.delivered (deliver_tx_inner o pc n.conn request).1)
  | .EndBlock height =>
    match end_block_inner o pc n.conn height with
    | .error _ => none
    | .ok (outcome, _) => some (.ended outcome)
  | .Commit =>
    match commit_inner o pc n.conn with
    | .error _ => none
    | .ok conn => some (.committed conn.committed_state.app_hash)
  | .UploadBlob _ _ => none

/-! ## Replicas -/

/-- A node with the calls of the open block, which Tendermint keeps, and the answers so far. -/
structure Replica where
  node : Node
  open_block : List Request
  answers : List ConsensusAnswer

inductive ReplicaEvent
  | call (r : Request)
  | crash

/-- The calls to make again after a crash. -/
def openBlock (calls : List Request) : Request → List Request
  | .Commit => []
  | .UploadBlob _ _ => calls
  | r => calls ++ [r]

/-- One event. After a crash the node starts on its database, and Tendermint makes the calls of
the open block again. -/
def Replica.step (a : Replica) : ReplicaEvent → Option Replica
  | .call r =>
    match a.node.step o pc r with
    | none => none
    | some n => some ⟨n, openBlock a.open_block r, a.answers ++ (a.node.answer o pc r).toList⟩
  | .crash =>
    match Node.start o pc cfg a.node.conn.storage with
    | .error _ => none
    | .ok started =>
      match runs.run (Node.step o pc) a.open_block started with
      | none => none
      | some n => some ⟨n, a.open_block, a.answers⟩

def Replica.initial : Replica := ⟨genesis o pc cfg, [], []⟩

/-- The events that lead to a replica. -/
def LivesTo (events : List ReplicaEvent) (a : Replica) : Prop :=
  runs.run (Replica.step o pc cfg) events (Replica.initial o pc cfg) = some a

/-- What is seen of a replica. -/
def Replica.view (a : Replica) : Node × List Request × List ConsensusAnswer :=
  (a.node.plain, a.open_block, a.answers)

/-- The calls of Tendermint among the events. -/
def ReplicaEvent.consensus : ReplicaEvent → Option Request
  | .call (.UploadBlob _ _) => none
  | .call r => some r
  | .crash => none

/-- No provider has a failed proof on record when the node crashes. -/
def CrashesClean (a : Replica) : ReplicaEvent → Prop
  | .call _ => True
  | .crash => a.node.conn.committed_state.envelope.failed_proof_counts = ∅

/-- Every crash of a life is a clean one. -/
def CleanLife (events : List ReplicaEvent) : Prop :=
  ∀ p ∈ runs.visits (Replica.step o pc cfg) events (Replica.initial o pc cfg),
    CrashesClean p.1 p.2

variable {o : Outside} {pc : ProtocolConstants} {cfg : GenesisConfig}
variable {n n' m m' : Node} {st st' tx tx' : Storage}

/-! ## Calls on nodes that look alike -/

@[simp] theorem withoutBlobs_withoutBlobs (st : Storage) :
    st.withoutBlobs.withoutBlobs = st.withoutBlobs := rfl

theorem withoutBlobs_eq_iff : st.withoutBlobs = st'.withoutBlobs ↔
    st.path_index = st'.path_index ∧ st.cado = st'.cado ∧ st.vp_rewarded = st'.vp_rewarded ∧
      st.vp_failed = st'.vp_failed := by
  simp [Storage.withoutBlobs]

theorem plain_plain (n : Node) : n.plain.plain = n.plain := by
  unfold Node.plain
  split <;> simp_all

/-- A node in a block looks like its own connection with the blobs taken away. -/
theorem plain_of_open (h : n.phase ≠ .idle) :
    n.plain = ⟨n.phase, n.conn.withoutBlobs⟩ := by
  unfold Node.plain
  rw [if_neg h]
  rfl

theorem phase_of_plain (h : n.plain = n'.plain) : n.phase = n'.phase := by
  have hphase := congrArg Node.phase h
  exact hphase

theorem committed_of_plain (h : n.plain = n'.plain) :
    n.conn.committed_state = n'.conn.committed_state := by
  have hcommitted := congrArg (fun m : Node => m.conn.committed_state) h
  exact hcommitted

theorem storage_of_plain (h : n.plain = n'.plain) :
    n.conn.storage.withoutBlobs = n'.conn.storage.withoutBlobs := by
  have hstorage := congrArg (fun m : Node => m.conn.storage) h
  exact hstorage

theorem current_of_plain (h : n.plain = n'.plain) (hopen : n.phase ≠ .idle) :
    n.conn.current_state = n'.conn.current_state := by
  have hopen' : n'.phase ≠ .idle := by
    rw [← phase_of_plain h]
    exact hopen
  rw [plain_of_open hopen, plain_of_open hopen'] at h
  have hcurrent := congrArg (fun m : Node => m.conn.current_state) h
  exact hcurrent

/-- No transaction reads the blobs. -/
theorem deliver_withoutBlobs (c : ConsensusConnection) (request : Except ResponseDeliverTx Tx) :
    deliver_tx_inner o pc c.withoutBlobs request =
      ((deliver_tx_inner o pc c request).1,
        (deliver_tx_inner o pc c request).2.withoutBlobs) := by
  cases request with
  | error r => rfl
  | ok tx =>
    have hsame : admission o c.withoutBlobs tx = admission o c tx := rfl
    unfold deliver_tx_inner
    simp only [hsame]
    cases admission o c tx with
    | error r => rfl
    | ok s => rfl

/-- EndBlock reads nothing of the database. -/
theorem end_withoutBlobs (c : ConsensusConnection) (height : I64) :
    end_block_inner o pc c.withoutBlobs height =
      (end_block_inner o pc c height).map (fun done => (done.1, done.2.withoutBlobs)) := by
  have hcurrent : c.withoutBlobs.current_state = c.current_state := rfl
  unfold end_block_inner
  rw [hcurrent]
  cases c.current_state with
  | none => rfl
  | some s =>
    simp only
    cases endBlockState o pc s height with
    | error err => rfl
    | ok done => rfl

/-- A call other than a commit makes of a node what it makes of the plain one. -/
theorem step_plain {r : Request} (hr : r ≠ .Commit) :
    (n.step o pc r).map Node.plain = (n.plain.step o pc r).map Node.plain := by
  have hphase : n.plain.phase = n.phase := rfl
  cases r with
  | BeginBlock =>
    simp only [Node.step, hphase]
    split <;> rfl
  | DeliverTx request =>
    simp only [Node.step, hphase]
    split
    · rename_i hdelivering
      rw [plain_of_open (n := n) (by simp [hdelivering]), deliver_withoutBlobs]
      rfl
    · rfl
  | EndBlock height =>
    have hcommitted : n.plain.conn.committed_state = n.conn.committed_state := rfl
    simp only [Node.step, hphase, hcommitted]
    split
    · rename_i hin
      rw [plain_of_open (n := n) (by simp [hin.1]), end_withoutBlobs]
      cases end_block_inner o pc n.conn height with
      | error err => rfl
      | ok done => rfl
    · rfl
  | Commit => exact absurd rfl hr
  | UploadBlob key blob =>
    unfold Node.step
    simp only [Option.map_some, Option.some.injEq]
    exact (plain_plain n).symm

/-- Nodes that look alike take the same calls, commits apart, and look alike afterwards. -/
theorem step_of_plain {r : Request} (hr : r ≠ .Commit) (h : n.plain = n'.plain)
    (hstep : n.step o pc r = some m) : ∃ m', n'.step o pc r = some m' ∧ m.plain = m'.plain := by
  have hsame : (n.step o pc r).map Node.plain = (n'.step o pc r).map Node.plain :=
    calc (n.step o pc r).map Node.plain
      _ = (n.plain.step o pc r).map Node.plain := step_plain hr
      _ = (n'.plain.step o pc r).map Node.plain := by rw [h]
      _ = (n'.step o pc r).map Node.plain := (step_plain hr).symm
  rw [hstep] at hsame
  obtain ⟨m', hm', heq⟩ := Option.map_eq_some_iff.mp hsame.symm
  exact ⟨m', hm', heq.symm⟩

theorem uploaded_plain {key : Text} {blob : Bytes}
    (h : n.step o pc (.UploadBlob key blob) = some m) : m.plain = n.plain := by
  cases h
  rfl

theorem answer_of_plain {r : Request} (hr : r ≠ .Commit) (h : n.plain = n'.plain)
    (hstep : n.step o pc r = some m) : n.answer o pc r = n'.answer o pc r := by
  cases r with
  | BeginBlock => rfl
  | DeliverTx request =>
    have hopen : n.phase ≠ .idle := by
      intro hidle
      simp [Node.step, hidle] at hstep
    have hplain := congrArg (fun k : Node => (deliver_tx_inner o pc k.conn request).1) h
    rw [plain_of_open hopen, plain_of_open (n := n') (by rw [← phase_of_plain h]; exact hopen)]
      at hplain
    simp only [deliver_withoutBlobs] at hplain
    simp only [Node.answer, hplain]
  | EndBlock height =>
    have hopen : n.phase ≠ .idle := by
      intro hidle
      simp [Node.step, hidle] at hstep
    have hcurrent := current_of_plain h hopen
    simp only [Node.answer, end_block_inner, hcurrent]
    cases n'.conn.current_state with
    | none => rfl
    | some s =>
      simp only
      cases endBlockState o pc s height <;> rfl
  | Commit => exact absurd rfl hr
  | UploadBlob key blob => rfl

/-! ## Commits of nodes that look alike -/

theorem put_withoutBlobs {p : CadoPath} {b : CadoBody StoredData}
    (h : st.put_cado_type_with_tx o p b = .ok tx) (h' : st'.put_cado_type_with_tx o p b = .ok tx')
    (hsame : st.withoutBlobs = st'.withoutBlobs) : tx.withoutBlobs = tx'.withoutBlobs := by
  have hput : (st.put_cado_type_with_tx o p b).map Storage.withoutBlobs =
      (st'.put_cado_type_with_tx o p b).map Storage.withoutBlobs := by
    have hplain : ∀ st : Storage, (st.put_cado_type_with_tx o p b).map Storage.withoutBlobs =
        st.withoutBlobs.put_cado_type_with_tx o p b := by
      intro st
      have hkey : st.withoutBlobs.original_key o p b = st.original_key o p b := rfl
      unfold Storage.put_cado_type_with_tx
      rw [hkey]
      cases st.original_key o p b <;> rfl
    rw [hplain, hplain, hsame]
  rw [h, h'] at hput
  exact Except.ok.inj hput

theorem storeTip_withoutBlobs {tip : AppStateTip} (h : storeTip o st tip = .ok tx)
    (h' : storeTip o st' tip = .ok tx') (hsame : st.withoutBlobs = st'.withoutBlobs) :
    tx.withoutBlobs = tx'.withoutBlobs := by
  unfold storeTip at h h'
  simp only at h h'
  split at h
  · cases h
  · rename_i tx₁ hput
    split at h'
    · cases h'
    · rename_i tx₁' hput'
      exact put_withoutBlobs h h' (put_withoutBlobs hput hput' hsame)

theorem storeSnapshot_withoutBlobs {s : AppState} (h : storeSnapshot o pc st s = .ok tx)
    (h' : storeSnapshot o pc st' s = .ok tx') (hsame : st.withoutBlobs = st'.withoutBlobs) :
    tx.withoutBlobs = tx'.withoutBlobs := by
  unfold storeSnapshot at h h'
  split at h
  · rename_i hboundary
    rw [if_pos hboundary] at h'
    split at h
    · cases h
    · rename_i sn hnew
      rw [hnew] at h'
      exact put_withoutBlobs h h' hsame
  · rename_i hinside
    rw [if_neg hinside] at h'
    cases h
    cases h'
    exact hsame

/-- The same objects put in the same order leave the same objects. -/
theorem Writes.same_objects {l : List (CadoPath × CadoBody StoredData)} (h : Writes o l st tx)
    (h' : Writes o l st' tx') (hindex : st.path_index = st'.path_index)
    (hcado : st.cado = st'.cado) : tx.path_index = tx'.path_index ∧ tx.cado = tx'.cado := by
  induction h generalizing st' with
  | done =>
    generalize hl : ([] : List (CadoPath × CadoBody StoredData)) = l at h'
    induction h' with
    | done => exact ⟨hindex, hcado⟩
    | put => cases hl
    | aside hi hc _ ih => exact ih (hindex.trans hi.symm) (hcado.trans hc.symm) hl
  | @put st₀ st₁ _ path body rest hput _ ih =>
    generalize hl : (path, body) :: rest = l at h'
    induction h' with
    | done => cases hl
    | put hput' hrest' =>
      cases hl
      obtain ⟨key, hkey, rfl⟩ := put.spec o hput
      obtain ⟨key', hkey', rfl⟩ := put.spec o hput'
      have hsame : key = key' := by
        unfold Storage.original_key at hkey hkey'
        rw [hindex] at hkey
        exact Except.ok.inj (hkey.symm.trans hkey')
      subst hsame
      exact ih hrest' (by rw [hindex]) (by rw [hcado])
    | aside hi hc _ ih' => exact ih' ih (hindex.trans hi.symm) (hcado.trans hc.symm) hl
  | aside hi hc _ ih => exact ih h' (hi.trans hindex) (hc.trans hcado)

/-- Nodes that look alike and commit look alike afterwards. -/
theorem commit_of_plain (hgood : NodeGood o n) (hgood' : NodeGood o n') (h : n.plain = n'.plain)
    (hstep : n.step o pc .Commit = some m) (hstep' : n'.step o pc .Commit = some m') :
    m.plain = m'.plain ∧ n.answer o pc .Commit = n'.answer o pc .Commit := by
  cases step_cases hstep with
  | @committed s c phase current commits =>
    cases step_cases hstep' with
    | @committed s' c' phase' current' commits' =>
      have hopen : n.phase ≠ .idle := by simp [phase]
      have hcurrent := current_of_plain h hopen
      rw [current, current'] at hcurrent
      cases hcurrent
      obtain ⟨_, hg⟩ := hgood.of_current hopen current
      obtain ⟨_, hg'⟩ := hgood'.of_current (by simp [phase']) current'
      obtain ⟨hstate, _, app_hash, tx, tx₁, happ, hwrites, haside, htip, hsnap⟩ :=
        commit_inner.writes current hg commits
      obtain ⟨hstate', _, app_hash', tx', tx₁', happ', hwrites', haside', htip', hsnap'⟩ :=
        commit_inner.writes current' hg' commits'
      have hcommitted : c.committed_state = c'.committed_state := hstate.trans hstate'.symm
      rw [happ] at happ'
      cases happ'
      obtain ⟨hi, hc, hr, hf⟩ := withoutBlobs_eq_iff.mp (storage_of_plain h)
      obtain ⟨hindex, hcado⟩ := hwrites.same_objects hwrites' hi hc
      have hrewarded : tx.vp_rewarded = tx'.vp_rewarded := by
        rw [haside.1, haside'.1]
        simp only [flushProofs, flushPinboard, hr]
      have hfailed : tx.vp_failed = tx'.vp_failed := by
        rw [haside.2.1, haside'.2.1]
        simp only [flushProofs, flushPinboard, hf]
      rw [← hcommitted] at htip' hsnap'
      have hafter := storeSnapshot_withoutBlobs hsnap hsnap' (storeTip_withoutBlobs htip htip'
        (withoutBlobs_eq_iff.mpr ⟨hindex, hcado, hrewarded, hfailed⟩))
      refine ⟨?_, ?_⟩
      · simp only [Node.plain, if_true, hcommitted, hafter]
      · simp only [Node.answer, commits, commits', hcommitted]

/-! ## The open block -/

/-- The node as it is seen before its open block. -/
def Node.opening (n : Node) : Node :=
  ⟨.idle, ⟨n.conn.committed_state, none, n.conn.storage.withoutBlobs⟩⟩

theorem opening_of_idle (h : n.phase = .idle) : n.plain = n.opening := by
  unfold Node.plain Node.opening
  rw [h, if_pos rfl]

theorem opening_of_plain (h : n.plain = n'.plain) : n.opening = n'.opening := by
  unfold Node.opening
  rw [committed_of_plain h, storage_of_plain h]

/-- Only a commit changes what a block opens with. -/
theorem opening_of_step {r : Request} (hr : r ≠ .Commit) (hstep : n.step o pc r = some m) :
    m.opening = n.opening := by
  cases step_cases hstep with
  | begun | turned_away | delivered | ended | uploaded => rfl
  | committed => exact absurd rfl hr

theorem openBlock_of_call {calls : List Request} {r : Request} (hr : r ≠ .Commit)
    (hblob : ∀ key blob, r ≠ .UploadBlob key blob) : openBlock calls r = calls ++ [r] := by
  cases r with
  | Commit => exact absurd rfl hr
  | UploadBlob key blob => exact absurd rfl (hblob key blob)
  | BeginBlock | DeliverTx | EndBlock => rfl

/-- What holds of a replica through its life: the calls of its open block lead from what the
block opens with to what is seen of the node. -/
structure Replayable (o : Outside) (pc : ProtocolConstants) (cfg : GenesisConfig) (a : Replica) :
    Prop where
  alive : Alive o pc cfg a.node
  no_commit : .Commit ∉ a.open_block
  replays : ∀ n, n.plain = a.node.opening → ∃ k,
    runs.run (Node.step o pc) a.open_block n = some k ∧ k.plain = a.node.plain

variable {a b : Replica}

/-- What one event of a life does. -/
theorem replica_step_cases {e : ReplicaEvent} (h : a.step o pc cfg e = some b) :
    (∃ r m, e = .call r ∧ a.node.step o pc r = some m ∧
      b = ⟨m, openBlock a.open_block r, a.answers ++ (a.node.answer o pc r).toList⟩) ∨
    (∃ started k, e = .crash ∧ Node.start o pc cfg a.node.conn.storage = .ok started ∧
      runs.run (Node.step o pc) a.open_block started = some k ∧
      b = ⟨k, a.open_block, a.answers⟩) := by
  cases e with
  | call r =>
    simp only [Replica.step] at h
    split at h
    · cases h
    · rename_i m hm
      cases h
      exact Or.inl ⟨r, m, rfl, hm, rfl⟩
  | crash =>
    simp only [Replica.step] at h
    split at h
    · cases h
    · rename_i started hstart
      split at h
      · cases h
      · rename_i k hk
        cases h
        exact Or.inr ⟨started, k, rfl, hstart, hk, rfl⟩

theorem Replayable.initial (o : Outside) (pc : ProtocolConstants) (cfg : GenesisConfig) :
    Replayable o pc cfg (Replica.initial o pc cfg) := by
  refine ⟨genesis_alive o pc cfg, List.not_mem_nil, fun n hn => ⟨n, rfl, ?_⟩⟩
  exact hn.trans (opening_of_idle rfl).symm

theorem Replayable.call (h : Replayable o pc cfg a) {r : Request}
    (hstep : a.node.step o pc r = some m) (answers : List ConsensusAnswer) :
    Replayable o pc cfg ⟨m, openBlock a.open_block r, answers⟩ := by
  have halive := h.alive.call (step_cases hstep)
  by_cases hr : r = .Commit
  · subst hr
    refine ⟨halive, List.not_mem_nil, fun n hn => ⟨n, rfl, ?_⟩⟩
    cases step_cases hstep with
    | committed => exact hn.trans (opening_of_idle rfl).symm
  · by_cases hblob : ∃ key blob, r = .UploadBlob key blob
    · obtain ⟨key, blob, rfl⟩ := hblob
      refine ⟨halive, h.no_commit, fun n hn => ?_⟩
      rw [opening_of_step hr hstep] at hn
      simp only [uploaded_plain hstep]
      exact h.replays n hn
    · rw [openBlock_of_call hr (fun key blob heq => hblob ⟨key, blob, heq⟩)]
      refine ⟨halive, ?_, fun n hn => ?_⟩
      · simp only [List.mem_append, List.mem_singleton, not_or]
        exact ⟨h.no_commit, Ne.symm hr⟩
      · rw [opening_of_step hr hstep] at hn
        obtain ⟨k, hk, hplain⟩ := h.replays n hn
        obtain ⟨k', hk', hplain'⟩ := step_of_plain hr hplain.symm hstep
        refine ⟨k', ?_, hplain'.symm⟩
        rw [runs.run_snoc, hk]
        exact hk'

/-- A node that starts again after a clean crash is as its open block found it. -/
theorem Replayable.started (h : Replayable o pc cfg a)
    (hclean : a.node.conn.committed_state.envelope.failed_proof_counts = ∅)
    (hstart : Node.start o pc cfg a.node.conn.storage = .ok n) :
    n.plain = a.node.opening ∧ Alive o pc cfg n := by
  have hlive : a.node.live o pc cfg .restart = some n := by
    simp [Node.live, hstart, Except.toOption]
  refine ⟨?_, h.alive.next hlive⟩
  obtain ⟨hidle, hnone, hstorage, hcommitted⟩ := h.alive.start hstart
  have hsame : n.conn.committed_state = a.node.conn.committed_state := by
    rcases hcommitted with heq | ⟨heq, _⟩
    · exact heq
    · rw [heq, withoutFailures_of_none hclean]
  rw [opening_of_idle hidle]
  unfold Node.opening
  rw [hsame, hstorage]

/-- A clean crash is not seen. -/
theorem Replayable.crash (h : Replayable o pc cfg a)
    (hclean : a.node.conn.committed_state.envelope.failed_proof_counts = ∅)
    (hstart : Node.start o pc cfg a.node.conn.storage = .ok n) :
    ∃ k, runs.run (Node.step o pc) a.open_block n = some k ∧ k.plain = a.node.plain ∧
      Replayable o pc cfg ⟨k, a.open_block, a.answers⟩ := by
  obtain ⟨hplain, halive⟩ := h.started hclean hstart
  obtain ⟨k, hk, hsame⟩ := h.replays n hplain
  have halive' : Alive o pc cfg k := runs.run_invariant (Node.step o pc) (Alive o pc cfg)
    (fun _ _ _ hold hs => hold.call (step_cases hs)) halive hk
  refine ⟨k, hk, hsame, halive', h.no_commit, fun m hm => ?_⟩
  rw [opening_of_plain hsame] at hm
  obtain ⟨k', hk', hsame'⟩ := h.replays m hm
  exact ⟨k', hk', hsame'.trans hsame.symm⟩

/-! ## Agreement -/

theorem consensus_some {e : ReplicaEvent} {r : Request} (h : e.consensus = some r) :
    e = .call r ∧ ∀ key blob, r ≠ .UploadBlob key blob := by
  cases e with
  | crash => cases h
  | call r' =>
    cases r' with
    | UploadBlob => cases h
    | BeginBlock | DeliverTx | EndBlock | Commit =>
      cases h
      exact ⟨rfl, fun _ _ heq => by cases heq⟩

theorem consensus_none {r : Request} (h : ReplicaEvent.consensus (.call r) = none) :
    ∃ key blob, r = .UploadBlob key blob := by
  cases r with
  | UploadBlob key blob => exact ⟨key, blob, rfl⟩
  | BeginBlock | DeliverTx | EndBlock | Commit => cases h

/-- The same call makes the same of replicas that look alike. -/
theorem view_of_call {a' b' : Replica} {r : Request} (ha : Replayable o pc cfg a)
    (hb : Replayable o pc cfg b) (hview : a.view = b.view)
    (hstep : a.step o pc cfg (.call r) = some a') (hstep' : b.step o pc cfg (.call r) = some b') :
    a'.view = b'.view := by
  simp only [Replica.view, Prod.mk.injEq] at hview
  obtain ⟨hplain, hopen, hanswers⟩ := hview
  simp only [Replica.step] at hstep hstep'
  split at hstep
  · cases hstep
  · rename_i m hm
    split at hstep'
    · cases hstep'
    · rename_i m' hm'
      cases hstep
      cases hstep'
      have hafter : m.plain = m'.plain ∧ a.node.answer o pc r = b.node.answer o pc r := by
        by_cases hr : r = .Commit
        · subst hr
          exact commit_of_plain ha.alive.good hb.alive.good hplain hm hm'
        · obtain ⟨k, hk, hsame⟩ := step_of_plain hr hplain hm
          cases hm'.symm.trans hk
          exact ⟨hsame, answer_of_plain hr hplain hm⟩
      simp only [Replica.view, hafter.1, hafter.2, hopen, hanswers]

theorem replicas_show (o : Outside) (pc : ProtocolConstants) (cfg : GenesisConfig) :
    traces.Shows (Replica.step o pc cfg) ReplicaEvent.consensus Replica.view
      (Replayable o pc cfg) CrashesClean where
  keeps := by
    intro a e b h hclean hstep
    rcases replica_step_cases hstep with ⟨r, m, rfl, hm, rfl⟩ | ⟨started, k, rfl, hstart, hk, rfl⟩
    · exact h.call hm _
    · obtain ⟨k', hk', _, hnext⟩ := h.crash hclean hstart
      cases hk.symm.trans hk'
      exact hnext
  hides := by
    intro a e b h hclean hnone hstep
    rcases replica_step_cases hstep with ⟨r, m, rfl, hm, rfl⟩ | ⟨started, k, rfl, hstart, hk, rfl⟩
    · obtain ⟨key, blob, rfl⟩ := consensus_none hnone
      simp [Replica.view, uploaded_plain hm, openBlock, Node.answer]
    · obtain ⟨k', hk', hsame, _⟩ := h.crash hclean hstart
      cases hk.symm.trans hk'
      simp only [Replica.view, hsame]
  agrees := by
    intro a b e f a' b' r ha hb hview he hf hstep hstep'
    obtain ⟨rfl, _⟩ := consensus_some he
    obtain ⟨rfl, _⟩ := consensus_some hf
    exact view_of_call ha hb hview hstep hstep'

/-- Two replicas that Tendermint gave the same calls look alike and gave the same answers,
whatever blobs each was sent, and wherever each crashed while no failed proof was on record. -/
theorem replicas_agree (o : Outside) (pc : ProtocolConstants) (cfg : GenesisConfig)
    (events events' : List ReplicaEvent) (a b : Replica) (ha : LivesTo o pc cfg events a)
    (hb : LivesTo o pc cfg events' b) (hclean : CleanLife o pc cfg events)
    (hclean' : CleanLife o pc cfg events')
    (hcalls : events.filterMap ReplicaEvent.consensus =
      events'.filterMap ReplicaEvent.consensus) :
    a.node.plain = b.node.plain ∧ a.answers = b.answers := by
  have hview := (replicas_show o pc cfg).run_agrees (Replayable.initial o pc cfg)
    (Replayable.initial o pc cfg) rfl hclean hclean' ha hb hcalls
  simp only [Replica.view, Prod.mk.injEq] at hview
  exact ⟨hview.1, hview.2.2⟩

/-! ## Small lives -/

def smallLife (events : List ReplicaEvent) : Option Replica :=
  runs.run (Replica.step Outside.toy smallConstants smallConfig) events
    (Replica.initial Outside.toy smallConstants smallConfig)

/-- The crashes of a life meet no failed proof. -/
def meetsNoFailure (p : Replica × ReplicaEvent) : Bool :=
  match p.2 with
  | .call _ => true
  | .crash => p.1.node.conn.committed_state.envelope.failed_proof_counts.isEmpty

/-- What evaluating a life of the small chain shows. -/
theorem smallLife_ends {events : List ReplicaEvent} {p : Replica → Bool}
    (h : ((smallLife events).any p &&
      (runs.visits (Replica.step Outside.toy smallConstants smallConfig) events
        (Replica.initial Outside.toy smallConstants smallConfig)).all meetsNoFailure) = true) :
    ∃ a, LivesTo Outside.toy smallConstants smallConfig events a ∧
      CleanLife Outside.toy smallConstants smallConfig events ∧ p a = true := by
  rw [Bool.and_eq_true, Option.any_eq_true, List.all_eq_true] at h
  obtain ⟨⟨a, ha, hp⟩, hclean⟩ := h
  refine ⟨a, ha, ?_, hp⟩
  rintro ⟨c, event⟩ hvisit
  have hfine := hclean _ hvisit
  cases event with
  | call r => trivial
  | crash => exact ExtTreeMap.isEmpty_iff.mp hfine

/-- Alice registers her namespace and stakes in two blocks, without a crash. -/
def quietLife : List ReplicaEvent := (stakingBlocks ++ [Request.Commit]).map .call

/-- The same blocks with a crash in the first of them, and one after the last. -/
def crashingLife : List ReplicaEvent :=
  [.call .BeginBlock, .crash, .call (.UploadBlob "k".toList [1])] ++
    (stakingBlocks.tail ++ [Request.Commit]).map .call ++ [.crash]

theorem replicas_agree_on_small_lives : ∃ a b,
    LivesTo Outside.toy smallConstants smallConfig crashingLife a ∧
      LivesTo Outside.toy smallConstants smallConfig quietLife b ∧
      a.node.plain = b.node.plain ∧ a.answers = b.answers := by
  obtain ⟨a, ha, hclean, _⟩ := @smallLife_ends crashingLife (fun _ => true) (by decide +kernel)
  obtain ⟨b, hb, hclean', _⟩ := @smallLife_ends quietLife (fun _ => true) (by decide +kernel)
  exact ⟨a, b, ha, hb, replicas_agree Outside.toy smallConstants smallConfig crashingLife quietLife
    a b ha hb hclean hclean' rfl⟩

end eld_chain
