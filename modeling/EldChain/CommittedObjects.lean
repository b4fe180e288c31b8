-- The law of committed objects: a commit refuses no staged object, each
-- committed object reads back as it is, and the trie has the leaves of all
-- of them. The first part holds of every commit. The reads hold as long as
-- no object is too large for the reader, which an epoch record can be, and
-- the trie only has its leaves while there is one object at most.
import EldChain.ActiveValidators
import EldChain.CapacityRegistry
import EldChain.StoredObjects
import EldChain.TrieInsertions

open Std

namespace eld_chain

section Law

variable {o : Outside} {pc : ProtocolConstants} {cfg : GenesisConfig} {e : AppStateEnvelope}
variable {requests : List Request}

/-! ## The law -/

/-- No branch of a commit refuses the object: the text of its path parses, it is none of the
storage layer, and a put passes its checks and finds a key whatever the index holds. -/
structure Storable (o : Outside) (p : CadoPath) (b : CadoBody CadoData) : Prop where
  parses : PathText.parse p.as_str.toList = .ok p.parts
  stays : is_infrastructure_cado_path p.as_str.toList = false
  keyed : ∀ existing, ∃ key, p.parts.put_key o "key_generation" existing b.stored = .ok key

theorem ObjectAt.storable {p : CadoPath} {b : CadoBody CadoData} (h : ObjectAt o p b) :
    Storable o p b where
  parses := parse_as_str h.canonical
  stays := by
    rw [is_infrastructure_as_str h.canonical]
    exact h.not_infrastructure
  keyed := by
    intro existing
    have hgenerated : generate_key o p b.stored = .ok (p.storageKey o) := h.keyed
    unfold PathText.put_key
    rw [validate_cado_path_as_str h.canonical, generate_key_parts, hgenerated]
    cases existing with
    | none => exact ⟨_, rfl⟩
    | some key => exact ⟨key, rfl⟩

/-- A commit from `n` to `n'` refuses no object, and after it the database and the committed cache
describe the same objects. -/
structure CommitStores (o : Outside) (n n' : Node) : Prop where
  staged : ∀ (p : CadoPath) b, n.state.envelope.cado_cache[p]? = some b →
    p.is_infrastructure = false →
    Storable o p b ∧ n'.conn.committed_state.envelope.committed_cado_cache[p]? = some b
  registered : ∀ slug r, n.state.envelope.namespace_registry_cache[slug]? = some r →
    slug_to_namespace_cadopath slug = .ok (.namespace_registry slug) ∧
    Storable o (.namespace_registry slug) (namespace_cado o slug r) ∧
    n'.conn.committed_state.envelope.committed_cado_cache[CadoPath.namespace_registry slug]? =
      some (namespace_cado o slug r)
  reads : ∀ (p : CadoPath) b,
    n'.conn.committed_state.envelope.committed_cado_cache[p]? = some b →
    validate_cado_path_internal p.parts = .ok () ∧
    n'.conn.storage.get_cado_by_path o p = .ok (some b.stored)
  indexed : ∀ p : CadoPath, p.is_infrastructure = false →
    n'.conn.storage.path_index[p]?.isSome =
      n'.conn.committed_state.envelope.committed_cado_cache[p]?.isSome

/-- And the trie describes them too. -/
structure CommitKeeps (o : Outside) (n n' : Node) : Prop extends CommitStores o n n' where
  trie : n'.conn.committed_state.envelope.state_trie =
    n'.conn.committed_state.envelope.fullTrie o

/-- The reader takes each object that a commit leaves: none encodes to more than 1 MiB. -/
def AppStateEnvelope.FitsReader (o : Outside) (e : AppStateEnvelope) : Prop :=
  ∀ (p : CadoPath) b, e.object o p = some b →
    (o.serialize_body b.stored).length ≤ MAX_CADO_DATA_SIZE

/-- A commit leaves one object at most. -/
def AppStateEnvelope.OneObject (o : Outside) (e : AppStateEnvelope) : Prop :=
  ∀ p q : CadoPath, (e.object o p).isSome = true → (e.object o q).isSome = true → p = q

/-- A committed object is read back exactly when the reader takes its length. -/
theorem committed_reads_iff {n : Node} (hn : Reachable o pc cfg n)
    (hsha : Set.InjOn o.sha256 (n.conn.storage.hashed o))
    (hbincode : ∀ b, 0 < (o.serialize_body b).length) {p : CadoPath} {b : CadoBody CadoData}
    (hp : n.conn.committed_state.envelope.committed_cado_cache[p]? = some b) :
    n.conn.storage.get_cado_by_path o p = .ok (some b.stored) ↔
      (o.serialize_body b.stored).length ≤ MAX_CADO_DATA_SIZE := by
  have hobject := (reachable_good hn).committed.committed.objects p b hp
  have hstands := (reachable_objectsStored hn).stands (keysDistinct_of_injOn hsha) p b hp
  rw [← maxStoredSize_of_chain hobject.not_infrastructure]
  exact hstands.get_iff hobject.keyed (hbincode _)

/-- The database has the paths of the committed objects, and those of its own. -/
theorem committed_indexed {n : Node} (hn : Reachable o pc cfg n)
    (hsha : Set.InjOn o.sha256 (n.conn.storage.hashed o)) {p : CadoPath}
    (hp : p.is_infrastructure = false) :
    n.conn.storage.path_index[p]?.isSome =
      n.conn.committed_state.envelope.committed_cado_cache[p]?.isSome := by
  rw [Bool.eq_iff_iff]
  constructor
  · exact (reachable_good hn).committed.committed.indexed p hp
  · intro hsome
    obtain ⟨b, hb⟩ := Option.isSome_iff_exists.mp hsome
    rw [((reachable_objectsStored hn).stands (keysDistinct_of_injOn hsha) p b hb).1]
    rfl

/-- All of the law but the reads and the trie holds of every commit. -/
theorem commit_stores_iff {n n' : Node} (hn : Reachable o pc cfg n)
    (hs : n.step o pc .Commit = some n') (hsha : Set.InjOn o.sha256 (n'.conn.storage.hashed o))
    (hbincode : ∀ b, 0 < (o.serialize_body b).length) :
    CommitStores o n n' ↔ n.state.envelope.FitsReader o := by
  have hn' := hn.step hs
  have hgood := reachable_good hn
  have hcases := step_cases hs
  cases hcases with
  | @committed s c' phase current commits =>
    obtain ⟨hstate, hcurrent⟩ := hgood.of_current (by simp [phase]) current
    have hcommitted := (commit_inner.spec current hcurrent commits).envelope
    rw [hstate]
    constructor
    · intro hstores p b hp
      have hp' := (hcommitted.objects p).trans hp
      exact (committed_reads_iff hn' hsha hbincode hp').mp (hstores.reads p b hp').2
    · intro hfits
      refine ⟨?_, ?_, ?_, fun p hp => committed_indexed hn' hsha hp⟩
      · intro p b hp _
        rw [hstate] at hp
        refine ⟨(hcurrent.staged.objects p b hp).1.storable, ?_⟩
        rw [hcommitted.objects, hp, Option.some_or]
      · intro slug r hr
        rw [hstate] at hr
        have hslug := hcurrent.staged.slugs slug r hr
        have hregistered : s.envelope.stagedNamespace o (.namespace_registry slug) =
            some (namespace_cado o slug r) := by
          rw [AppStateEnvelope.stagedNamespace, hr]
          rfl
        refine ⟨registry_path hslug, (ObjectAt.namespace_registry slug r hslug).storable, ?_⟩
        rw [hcommitted.objects, hcurrent.staged.registry_unstaged, Option.none_or, hregistered,
          Option.some_or]
      · intro p b hp
        have hobject := hcommitted.object hcurrent hp
        refine ⟨validate_cado_path_as_str hobject.canonical,
          (committed_reads_iff hn' hsha hbincode hp).mpr ?_⟩
        exact hfits p b ((hcommitted.objects p).symm.trans hp)

/-- The committed objects after a commit. -/
theorem committed_of_commit {n n' : Node} (hn : Reachable o pc cfg n)
    (hs : n.step o pc .Commit = some n') (p : CadoPath) :
    n'.conn.committed_state.envelope.committed_cado_cache[p]? = n.state.envelope.object o p := by
  have hgood := reachable_good hn
  have hcases := step_cases hs
  cases hcases with
  | @committed s c' phase current commits =>
    obtain ⟨hstate, hcurrent⟩ := hgood.of_current (by simp [phase]) current
    rw [hstate]
    exact (commit_inner.spec current hcurrent commits).envelope.objects p

/-- After a commit the trie has all leaves exactly when the commit leaves one object at most. -/
theorem commit_describes_iff {n n' : Node} (hrun : RunsTo o pc cfg requests n)
    (hs : n.step o pc .Commit = some n')
    (hroots : RootsApart o n'.conn.committed_state.envelope) :
    n'.conn.committed_state.envelope.state_trie =
        n'.conn.committed_state.envelope.fullTrie o ↔ n.state.envelope.OneObject o := by
  rw [(inserted_of_run (hrun.step hs)).fullTrie_iff hroots]
  simp only [committed_of_commit ⟨_, hrun⟩ hs]
  rfl

/-- Where a commit leaves one object at most, the roots to compare are the same. -/
theorem AppStateEnvelope.OneObject.rootsApart {n n' : Node} (hn : Reachable o pc cfg n)
    (hs : n.step o pc .Commit = some n') (hone : n.state.envelope.OneObject o) :
    RootsApart o n'.conn.committed_state.envelope := by
  apply rootsApart_of_only
  simp only [committed_of_commit hn hs]
  exact hone

/-! ## Every run -/

theorem NodeStep.hashed_subset {n n' : Node} {r : Request} (h : NodeStep o pc n r n')
    (hg : NodeGood o n) : n.conn.storage.hashed o ⊆ n'.conn.storage.hashed o := by
  cases h with
  | @committed s c' phase current commits =>
    obtain ⟨_, hgood⟩ := hg.of_current (by simp [phase]) current
    obtain ⟨_, infra, _, _, hwrites⟩ := commit_writes current hgood commits
    rintro b ⟨p, hp, hb⟩
    exact ⟨p, (hwrites.indexes p).mpr (Or.inr hp), hb⟩
  | begun | turned_away | delivered | ended | uploaded => exact subset_rfl

/-- What was hashed for the keys earlier in a run is among what was hashed in the end. -/
theorem hashed_of_earlier {requests : List Request} {n : Node}
    (hrun : RunsTo o pc cfg requests n) :
    ∀ earlier m, RunsTo o pc cfg earlier m → earlier <+: requests →
      m.conn.storage.hashed o ⊆ n.conn.storage.hashed o := by
  refine runs.run_induction (Node.step o pc) (fun requests n => ∀ earlier m,
    RunsTo o pc cfg earlier m → earlier <+: requests →
      m.conn.storage.hashed o ⊆ n.conn.storage.hashed o) ?_ ?_ hrun
  · intro earlier m hm hp
    rw [List.prefix_nil.mp hp] at hm
    cases hm
    exact subset_rfl
  · intro requests n r n' hn hold hs earlier m hm hp
    rcases List.prefix_concat_iff.mp hp with rfl | hp
    · rw [RunsTo, show runs.run _ (requests ++ [r]) _ = some n' from RunsTo.step hn hs] at hm
      cases hm
      exact subset_rfl
    · have hgrows := (step_cases hs).hashed_subset (reachable_good ⟨requests, hn⟩)
      exact (hold earlier m hm hp).trans hgrows

/-- A statement about each commit of a run, from the node before it to the node after it. -/
def EachCommit (o : Outside) (pc : ProtocolConstants) (cfg : GenesisConfig)
    (requests : List Request) (P : Node → Node → Prop) : Prop :=
  ∀ earlier n n', RunsTo o pc cfg earlier n → n.step o pc .Commit = some n' →
    earlier ++ [.Commit] <+: requests → P n n'

theorem EachCommit.and_iff {P Q : Node → Node → Prop} :
    EachCommit o pc cfg requests (fun n n' => P n n' ∧ Q n n') ↔
      EachCommit o pc cfg requests P ∧ EachCommit o pc cfg requests Q := by
  constructor
  · intro h
    exact ⟨fun earlier n n' hn hs hp => (h earlier n n' hn hs hp).1,
      fun earlier n n' hn hs hp => (h earlier n n' hn hs hp).2⟩
  · rintro ⟨hfirst, hsecond⟩ earlier n n' hn hs hp
    exact ⟨hfirst earlier n n' hn hs hp, hsecond earlier n n' hn hs hp⟩

theorem EachCommit.congr {P Q : Node → Node → Prop}
    (h : EachCommit o pc cfg requests (fun n n' => P n n' ↔ Q n n')) :
    EachCommit o pc cfg requests P ↔ EachCommit o pc cfg requests Q := by
  constructor
  · intro hp earlier n n' hn hs hprefix
    exact (h earlier n n' hn hs hprefix).mp (hp earlier n n' hn hs hprefix)
  · intro hq earlier n n' hn hs hprefix
    exact (h earlier n n' hn hs hprefix).mpr (hq earlier n n' hn hs hprefix)

/-- In a run in which SHA-256 tells the hashed texts apart and the trie the leaves, every commit
stores every object exactly when none of the objects that a commit leaves is too large for the
reader, and the trie describes them too exactly when each commit leaves one object at most. -/
theorem commits_keep_objects_iff (o : Outside) (pc : ProtocolConstants) (cfg : GenesisConfig)
    (requests : List Request) (last : Node) (hrun : RunsTo o pc cfg requests last)
    (hsha : Set.InjOn o.sha256 (last.conn.storage.hashed o))
    (hbincode : ∀ b, 0 < (o.serialize_body b).length)
    (hroots : EachCommit o pc cfg requests
      (fun _ n' => RootsApart o n'.conn.committed_state.envelope)) :
    (EachCommit o pc cfg requests (CommitStores o) ↔
      EachCommit o pc cfg requests (fun n _ => n.state.envelope.FitsReader o)) ∧
    (EachCommit o pc cfg requests (CommitKeeps o) ↔
      EachCommit o pc cfg requests (fun n _ => n.state.envelope.FitsReader o) ∧
      EachCommit o pc cfg requests (fun n _ => n.state.envelope.OneObject o)) := by
  have hstores : EachCommit o pc cfg requests (fun n n' =>
      CommitStores o n n' ↔ n.state.envelope.FitsReader o) := by
    intro earlier n n' hn hs hp
    exact commit_stores_iff ⟨earlier, hn⟩ hs
      (hsha.mono (hashed_of_earlier hrun _ n' (hn.step hs) hp)) hbincode
  have hkeeps : EachCommit o pc cfg requests (fun n n' => CommitKeeps o n n' ↔
      n.state.envelope.FitsReader o ∧ n.state.envelope.OneObject o) := by
    intro earlier n n' hn hs hp
    have hfits := hstores earlier n n' hn hs hp
    have hdescribes := commit_describes_iff hn hs (hroots earlier n n' hn hs hp)
    constructor
    · intro h
      exact ⟨hfits.mp h.toCommitStores, hdescribes.mp h.trie⟩
    · rintro ⟨hfit, hone⟩
      exact ⟨hfits.mpr hfit, hdescribes.mpr hone⟩
  exact ⟨EachCommit.congr hstores, (EachCommit.congr hkeeps).trans EachCommit.and_iff⟩

/-! ### A small chain -/

theorem toyBytes_nonempty (b : CadoBody Bytes) : 0 < b.toyBytes.length := by
  cases b <;> simp [CadoBody.toyBytes, leBytes]

theorem toy_nonempty (b : CadoBody StoredData) : 0 < (Outside.toy.serialize_body b).length :=
  toyBytes_nonempty _

/-- The hashed texts of a database, to evaluate. -/
def Storage.hashedList (o : Outside) (st : Storage) : List Bytes :=
  st.path_index.toList.flatMap (fun q => q.1.keyInput o ::
    (if q.1.type_.is_address_type then [Text.bytes q.1.name] else []))

theorem injOn_hashed {st : Storage} (h : ((st.hashedList o).map o.sha256).Nodup) :
    Set.InjOn o.sha256 (st.hashed o) := by
  have hmem : ∀ b ∈ st.hashed o, b ∈ st.hashedList o := by
    rintro b ⟨p, hp, hb⟩
    obtain ⟨key, hkey⟩ := Option.isSome_iff_exists.mp hp
    refine List.mem_flatMap.mpr ⟨(p, key), (finite_map.mem_toList _ _).mpr hkey, ?_⟩
    rcases hb with rfl | ⟨haddress, rfl⟩
    · exact List.mem_cons_self
    · rw [if_pos haddress]
      exact List.mem_cons_of_mem _ List.mem_cons_self
  intro a ha b hb hab
  exact List.inj_on_of_nodup_map h (hmem a ha) (hmem b hb) hab

/-- The objects of a state with nothing to register, to evaluate. -/
def AppStateEnvelope.objectList (e : AppStateEnvelope) : List (CadoPath × CadoBody CadoData) :=
  e.cado_cache.toList ++ e.committed_cado_cache.toList

theorem mem_objectList (hnone : e.namespace_registry_cache.toList = []) {p : CadoPath}
    {b : CadoBody CadoData} (hp : e.object o p = some b) : (p, b) ∈ e.objectList := by
  unfold AppStateEnvelope.objectList
  rw [List.mem_append, finite_map.mem_toList, finite_map.mem_toList]
  rcases Option.or_eq_some_iff.mp hp with hp | ⟨_, hp⟩
  · exact Or.inl hp
  · rcases Option.or_eq_some_iff.mp hp with hp | ⟨_, hp⟩
    · have hwrites := registryWrites_mem hp
      unfold AppStateEnvelope.registryWrites at hwrites
      rw [hnone] at hwrites
      cases hwrites
    · exact Or.inr hp

/-- A state with nothing to register and one object at most, which fits, to evaluate. -/
def AppStateEnvelope.keepsOne (o : Outside) (e : AppStateEnvelope) : Bool :=
  e.namespace_registry_cache.toList.isEmpty &&
    (e.objectList.all (fun q => (o.serialize_body q.2.stored).length ≤ MAX_CADO_DATA_SIZE) &&
      e.objectList.all (fun q => e.objectList.all (fun r => q.1 = r.1)))

theorem keepsOne_sound (h : e.keepsOne o = true) : e.FitsReader o ∧ e.OneObject o := by
  unfold AppStateEnvelope.keepsOne at h
  simp only [Bool.and_eq_true, List.isEmpty_iff, List.all_eq_true, decide_eq_true_eq] at h
  obtain ⟨hnone, hsizes, hpaths⟩ := h
  constructor
  · intro p b hp
    exact hsizes (p, b) (mem_objectList hnone hp)
  · intro p q hp hq
    obtain ⟨b, hb⟩ := Option.isSome_iff_exists.mp hp
    obtain ⟨c, hc⟩ := Option.isSome_iff_exists.mp hq
    exact hpaths (p, b) (mem_objectList hnone hb) (q, c) (mem_objectList hnone hc)

end Law

/-- Alice has the only account. -/
def soloConfig : GenesisConfig where
  chain_id := "solo"
  accounts := smallConfig.accounts.take 1
  validators := []

/-- Alice registers storage, and an empty block follows. No epoch opens in them. -/
def soloBlocks : List Request :=
  block (smallHeight 1) [registration] ++ block (smallHeight 2) []

def soloRun (requests : List Request) : Option Node :=
  runs.run (Node.step Outside.toy .local_dev) requests
    (genesis Outside.toy .local_dev soloConfig)

/-- Both commits keep the only object. -/
theorem soloBlocks_keep_their_object :
    ∃ last, RunsTo Outside.toy .local_dev soloConfig soloBlocks last ∧
      EachCommit Outside.toy .local_dev soloConfig soloBlocks (CommitKeeps Outside.toy) := by
  have hends : (soloRun soloBlocks).any (fun n =>
      decide ((n.conn.storage.hashedList Outside.toy).map Outside.toy.sha256).Nodup) = true := by
    decide +kernel
  obtain ⟨last, hlast, hdistinct⟩ := (Option.any_eq_true _ _).mp hends
  have hall : ∀ k ≤ soloBlocks.length, (soloRun (soloBlocks.take k)).all
      (fun n => n.state.envelope.keepsOne Outside.toy) = true := by decide +kernel
  have hkeeps : EachCommit Outside.toy .local_dev soloConfig soloBlocks (fun n _ =>
      n.state.envelope.FitsReader Outside.toy ∧ n.state.envelope.OneObject Outside.toy) := by
    intro earlier n n' hn _ hp
    have hearlier : earlier <+: soloBlocks := (List.prefix_append earlier [.Commit]).trans hp
    have hstate := hall earlier.length hearlier.length_le
    rw [← List.prefix_iff_eq_take.mp hearlier, show soloRun earlier = some n from hn,
      Option.all_some] at hstate
    exact keepsOne_sound hstate
  obtain ⟨hfits, hone⟩ := EachCommit.and_iff.mp hkeeps
  refine ⟨last, hlast, (commits_keep_objects_iff Outside.toy .local_dev soloConfig soloBlocks last
    hlast (injOn_hashed (of_decide_eq_true hdistinct)) toy_nonempty ?_).2.mpr ⟨hfits, hone⟩⟩
  intro earlier n n' hn hs hp
  exact (hone earlier n n' hn hs hp).rootsApart ⟨earlier, hn⟩ hs

/-! ## An outside for many accounts -/

/-- What bincode writes of a validator: three texts. -/
def ValidatorInfo.serialize_bin (v : ValidatorInfo) : Bytes :=
  Text.counted (Address.text v.address) ++ Text.counted (Nat.toDigits 10 v.stake.amount) ++
    Text.counted (hex_encode v.public_key)

/-- What bincode writes of an epoch record. The chain below has no storage providers, so of
them only the numbers are written. -/
def EpochRecord.serialize_bin (r : EpochRecord) : Bytes :=
  leBytes 8 (i64Bits r.epoch.val) ++ leBytes 8 (i64Bits r.start_block) ++
    (leBytes 8 r.active_validators.length ++
      r.active_validators.flatMap ValidatorInfo.serialize_bin) ++
    (if r.active_capacity_validator.isSome then [1] else [0]) ++
    leBytes 8 r.challenged_capacity_validators.length

def crowdedSerialize : (T : BinType) → T.type → Bytes
  | .epoch_record, r => EpochRecord.serialize_bin r
  | T, v => toySerialize T v

/-- The number that the hex digits of a text spell, from a place on. -/
def digitsFrom (start : Nat) (b : Bytes) : Nat :=
  (hexNumber (((from_utf8 b).toOption.getD []).drop start)).getD 0

/-- A digest that tells the texts of the keys of accounts apart: those of 42 bytes are their
names, and those of 77 bytes end in the digest of a name. -/
def apartDigest (b : Bytes) : Bytes32 :=
  if b.length = 42 then BitVec.ofNat 256 (digitsFrom 2 b)
  else if b.length = 77 then BitVec.ofNat 256 (2 ^ 255 + digitsFrom 13 b)
  else BitVec.ofNat 256 (2 ^ 254 + (toyDigest b).toNat % 2 ^ 254)

def Outside.crowded : Outside :=
  { Outside.toy with
    sha256 := apartDigest
    bincode := ⟨crowdedSerialize, toyDeserialize⟩ }

theorem crowded_nonempty (b : CadoBody StoredData) :
    0 < (Outside.crowded.serialize_body b).length :=
  toyBytes_nonempty _

/-! ## The digests of the keys -/

theorem address_lt (a : Address) : a.toNat < 16 ^ 40 := by
  have hlt := a.isLt
  omega

theorem apartDigest_name (a : Address) :
    apartDigest (Text.bytes (Address.text a)) = BitVec.ofNat 256 a.toNat := by
  have hdrop : (Address.text a).drop 2 = hexDigits 40 a.toNat := rfl
  have hdigits : hexNumber ((Address.text a).drop 2) = some a.toNat := by
    rw [hdrop, hexNumber_hexDigits (address_lt a)]
  unfold apartDigest digitsFrom
  rw [if_pos (length_name a), from_utf8_bytes]
  simp only [Except.toOption, Option.getD_some, hdigits]

/-- The text that is hashed for the key of an account. -/
theorem account_input (a : Address) : (CadoPath.account a).keyInput Outside.crowded =
    Text.bytes ("@eld|account|".toList ++ hexDigits 64 a.toNat) := by
  have hsha : Outside.crowded.sha256 = apartDigest := rfl
  have hname : (CadoPath.account a).name = Address.text a := rfl
  have hwide : a.toNat < 2 ^ 256 :=
    a.isLt.trans (Nat.pow_lt_pow_right (by decide) (by decide))
  have htype : (CadoPath.account a).type_ = .Account := rfl
  have hkey : (CadoPath.account a).keyText Outside.crowded = hexDigits 64 a.toNat := by
    have haddress : (CadoPath.account a).type_.is_address_type = true := rfl
    unfold CadoPath.keyText
    rw [if_pos haddress, hsha, hname, apartDigest_name, BitVec.toNat_ofNat,
      Nat.mod_eq_of_lt hwide]
  have hlead : "@eld|".toList ++ CadoType.Account.as_str.toList ++ ['|'] =
      "@eld|account|".toList := by decide
  unfold CadoPath.keyInput
  rw [hkey, htype, ← hlead]
  simp only [List.append_assoc, List.cons_append, List.nil_append]

theorem apartDigest_account (a : Address) :
    apartDigest ((CadoPath.account a).keyInput Outside.crowded) =
      BitVec.ofNat 256 (2 ^ 255 + a.toNat) := by
  have hstart : "@eld|account|".toList.length = 13 := by decide
  have hlength : (Text.bytes ("@eld|account|".toList ++ hexDigits 64 a.toNat)).length = 77 := by
    have hsize : utf8Len "@eld|account|".toList = 13 := by decide
    rw [length_bytes, utf8Len_append, utf8Len_hexDigits, hsize]
  have hdigits : hexNumber (("@eld|account|".toList ++ hexDigits 64 a.toNat).drop 13) =
      some a.toNat := by
    have hwide : a.toNat < 16 ^ 64 :=
      (address_lt a).trans (Nat.pow_lt_pow_right (by decide) (by decide))
    rw [← hstart, List.drop_left, hexNumber_hexDigits hwide]
  rw [account_input]
  unfold apartDigest digitsFrom
  rw [hlength, if_neg (by decide), if_pos rfl, from_utf8_bytes]
  simp only [Except.toOption, Option.getD_some, hdigits]

/-- The hash of the tip of the first block. -/
def firstTip : Bytes32 := apartDigest (4 :: leBytes 8 (i64Bits 1))

/-- The paths of the first block that are not accounts. -/
def firstPaths : List CadoPath :=
  [.epoch_record 1, .epoch_record LATEST, .app_state_tip firstTip, .app_state_tip LATEST,
    AppStateSnapshot.latest_path Outside.crowded]

/-- Their keys are in another range than those of accounts. -/
theorem firstPaths_digests :
    (firstPaths.all (fun p => !p.type_.is_address_type &&
        decide (2 ^ 254 ≤ (apartDigest (p.keyInput Outside.crowded)).toNat ∧
          (apartDigest (p.keyInput Outside.crowded)).toNat < 2 ^ 255)) = true) ∧
      (firstPaths.map (fun p => apartDigest (p.keyInput Outside.crowded))).Nodup := by
  decide +kernel

/-- The texts that are hashed for the keys of accounts and of the first block's paths. -/
def FirstInput (b : Bytes) : Prop :=
  (∃ a : Address, b = Text.bytes (Address.text a)) ∨
    (∃ a : Address, b = (CadoPath.account a).keyInput Outside.crowded) ∨
    ∃ p ∈ firstPaths, b = p.keyInput Outside.crowded

theorem digest_toNat_name (a : Address) :
    (apartDigest (Text.bytes (Address.text a))).toNat = a.toNat := by
  have hwide : a.toNat < 2 ^ 256 :=
    a.isLt.trans (Nat.pow_lt_pow_right (by decide) (by decide))
  rw [apartDigest_name, BitVec.toNat_ofNat, Nat.mod_eq_of_lt hwide]

theorem digest_toNat_account (a : Address) :
    (apartDigest ((CadoPath.account a).keyInput Outside.crowded)).toNat = 2 ^ 255 + a.toNat := by
  have hlt := a.isLt
  have hwide : 2 ^ 255 + a.toNat < 2 ^ 256 := by
    have hsmall : (2 : Nat) ^ 160 < 2 ^ 255 := Nat.pow_lt_pow_right (by decide) (by decide)
    omega
  rw [apartDigest_account, BitVec.toNat_ofNat, Nat.mod_eq_of_lt hwide]

theorem digest_firstPath {p : CadoPath} (hp : p ∈ firstPaths) :
    2 ^ 254 ≤ (apartDigest (p.keyInput Outside.crowded)).toNat ∧
      (apartDigest (p.keyInput Outside.crowded)).toNat < 2 ^ 255 := by
  have hall := List.all_eq_true.mp firstPaths_digests.1 p hp
  rw [Bool.and_eq_true] at hall
  exact of_decide_eq_true hall.2

theorem injOn_firstInput : Set.InjOn apartDigest { b | FirstInput b } := by
  have hsmall : (2 : Nat) ^ 160 < 2 ^ 254 := Nat.pow_lt_pow_right (by decide) (by decide)
  rintro b (⟨x, rfl⟩ | ⟨x, rfl⟩ | ⟨p, hp, rfl⟩) c (⟨y, rfl⟩ | ⟨y, rfl⟩ | ⟨q, hq, rfl⟩) h
  all_goals have hvalue := congrArg BitVec.toNat h
  · rw [digest_toNat_name, digest_toNat_name] at hvalue
    rw [BitVec.eq_of_toNat_eq hvalue]
  · rw [digest_toNat_name, digest_toNat_account] at hvalue
    have hx := x.isLt
    omega
  · have hother := digest_firstPath hq
    have hx := x.isLt
    rw [← hvalue, digest_toNat_name] at hother
    omega
  · rw [digest_toNat_name, digest_toNat_account] at hvalue
    have hy := y.isLt
    omega
  · rw [digest_toNat_account, digest_toNat_account] at hvalue
    rw [BitVec.eq_of_toNat_eq (Nat.add_left_cancel hvalue)]
  · have hother := digest_firstPath hq
    rw [← hvalue, digest_toNat_account] at hother
    omega
  · have hother := digest_firstPath hp
    have hy := y.isLt
    rw [hvalue, digest_toNat_name] at hother
    omega
  · have hother := digest_firstPath hp
    rw [hvalue, digest_toNat_account] at hother
    omega
  · rw [List.inj_on_of_nodup_map firstPaths_digests.2 hp hq h]

/-- SHA-256 tells the hashed texts of a database apart that indexes accounts and the paths of the
first block. -/
theorem injOn_crowded {st : Storage}
    (h : ∀ p : CadoPath, st.path_index[p]?.isSome = true →
      (∃ a, p = .account a) ∨ p ∈ firstPaths) :
    Set.InjOn Outside.crowded.sha256 (st.hashed Outside.crowded) := by
  apply injOn_firstInput.mono
  rintro b ⟨p, hindexed, hb⟩
  rcases h p hindexed with ⟨a, rfl⟩ | hp
  · rcases hb with rfl | ⟨_, rfl⟩
    · exact Or.inr (Or.inl ⟨a, rfl⟩)
    · exact Or.inl ⟨a, rfl⟩
  · rcases hb with rfl | ⟨haddress, _⟩
    · exact Or.inr (Or.inr ⟨p, hp, rfl⟩)
    · have hall := List.all_eq_true.mp firstPaths_digests.1 p hp
      rw [haddress, Bool.not_true, Bool.false_and] at hall
      cases hall

/-! ## The first block -/

section FirstBlock

variable {o : Outside} {pc : ProtocolConstants} {cfg : GenesisConfig} {height : I64}

theorem openEpoch_ok (o : Outside) (pc : ProtocolConstants) (s : AppState) {epoch : I64}
    (hepoch : 0 ≤ epoch.val) : ∃ s', openEpoch o pc s epoch = .ok s' := by
  unfold openEpoch store_epoch_record
  have hname : epoch_record_path_name (build_epoch_record pc
      (select_active_capacity_validator_for_epoch o pc { s with
        envelope := select_validators_for_epoch pc { s.envelope with
          capacity_validators := expire_capacity_registrations s.envelope.capacity_validators
            (asU64 s.envelope.block_height.val) } } epoch).envelope epoch).epoch =
      .ok (BitVec.ofNat 256 epoch.val.toNat) := if_neg (Int.not_lt.mpr hepoch)
  simp only [hname]
  exact ⟨_, rfl⟩

/-- What the first block leaves where it opens an epoch: the accounts and the record. -/
structure FirstState (o : Outside) (pc : ProtocolConstants) (cfg : GenesisConfig) (height : I64)
    (cache : CadoCache) (record : EpochRecord) (e : AppStateEnvelope) : Prop where
  accounts : ∀ p : CadoPath, cache[p]?.isSome = true → ∃ a, p = .account a
  active_validators : record.active_validators =
    (sortedValidators (genesisValidators o cfg)).take pc.validators_per_epoch
  cado_cache : e.cado_cache = (cache.insert
    (.epoch_record (BitVec.ofNat 256 (epochOf pc height).val.toNat))
    (epoch_record_cado o record)).insert (.epoch_record LATEST) (epoch_record_cado o record)
  registrations : e.namespace_registry_cache = ∅
  messages : e.pinboard_meta_cache = ∅
  block_height : e.block_height = height

theorem first_state {out : EndBlockOutcome} {s : AppState}
    (hopen : 0 < (epochOf pc height).val)
    (h : endBlockState o pc (genesis o pc cfg).conn.committed_state height = .ok (out, s)) :
    ∃ cache record, FirstState o pc cfg height cache record s.envelope := by
  obtain ⟨selected, cache, hcache, heq⟩ := genesis.spec o pc cfg
  generalize (genesis o pc cfg).conn.committed_state = start at heq h
  have hepoch : start.envelope.current_epoch = I64.zero := by rw [heq]; rfl
  rcases endBlockState.spec h with ⟨hold, _, _⟩ | ⟨_, s2, hs2, _, rfl⟩
  · rw [hepoch] at hold
    exact absurd hopen hold
  · obtain ⟨name, hname, rfl⟩ := openEpoch.spec hs2
    obtain ⟨chosen, hchosen⟩ := chosenState.spec o pc (start.atHeight height) (epochOf pc height)
    have hkey : BitVec.ofNat 256 (epochOf pc height).val.toNat = name := by
      unfold epoch_record_path_name at hname
      rw [if_neg (by omega)] at hname
      exact Except.ok.inj hname
    have hcado : start.envelope.cado_cache = cache := by rw [heq]
    have hvalidators : start.envelope.validators = genesisValidators o cfg := by rw [heq]
    refine ⟨cache, build_epoch_record pc
      (chosenState o pc (start.atHeight height) (epochOf pc height)).envelope
      (epochOf pc height), hcache, ?_, ?_, ?_, ?_, ?_⟩
    · rw [hchosen, ← hvalidators]
      rfl
    · rw [hkey, hchosen, ← hcado]
      rfl
    · rw [hchosen]
      change start.envelope.namespace_registry_cache = ∅
      rw [heq]
      rfl
    · rw [hchosen]
      change start.envelope.pinboard_meta_cache = ∅
      rw [heq]
      rfl
    · rw [hchosen]
      rfl

/-- The calls of the first block up to its commit. -/
def openingBlock (height : I64) : List Request := [.BeginBlock, .EndBlock height]

theorem first_block_runs (hheight : 0 < height.val) (hopen : 0 < (epochOf pc height).val) :
    ∃ m m' cache record, RunsTo o pc cfg (openingBlock height) m ∧
      m.step o pc .Commit = some m' ∧ m.conn.storage = Storage.empty ∧
      FirstState o pc cfg height cache record m.state.envelope := by
  obtain ⟨selected, cache, _, heq⟩ := genesis.spec o pc cfg
  have hgrows : (genesis o pc cfg).conn.committed_state.envelope.block_height.val < height.val := by
    rw [heq]
    exact hheight
  have hends : ∃ done, endBlockState o pc (genesis o pc cfg).conn.committed_state height =
      .ok done := by
    obtain ⟨s', hs'⟩ := openEpoch_ok o pc
      ((genesis o pc cfg).conn.committed_state.atHeight height) hopen.le
    have hlater : (genesis o pc cfg).conn.committed_state.envelope.current_epoch.val <
        (epochOf pc height).val := by
      rw [heq]
      exact hopen
    have hstart : { (genesis o pc cfg).conn.committed_state with
        envelope := { (genesis o pc cfg).conn.committed_state.envelope with
          block_height := height } } =
        (genesis o pc cfg).conn.committed_state.atHeight height := rfl
    unfold endBlockState
    simp only
    rw [if_pos hlater, hstart, hs']
    exact ⟨_, rfl⟩
  obtain ⟨⟨out, s⟩, hs⟩ := hends
  have hbegin : RunsTo o pc cfg [.BeginBlock]
      ⟨.delivering, begin_block_inner (genesis o pc cfg).conn⟩ := rfl
  have hend : (⟨.delivering, begin_block_inner (genesis o pc cfg).conn⟩ : Node).step o pc
      (.EndBlock height) =
      some ⟨.ended, { (genesis o pc cfg).conn with current_state := some s }⟩ := by
    have hinner : end_block_inner o pc (begin_block_inner (genesis o pc cfg).conn) height =
        .ok (out, { (genesis o pc cfg).conn with current_state := some s }) := by
      unfold end_block_inner begin_block_inner
      simp only [hs]
    unfold Node.step
    simp only
    rw [if_pos ⟨trivial, hgrows⟩, hinner]
  have hrun := hbegin.step hend
  obtain ⟨cache, record, hstate⟩ := first_state hopen hs
  have hblobs : HoldsBlobs Storage.empty s.envelope := by
    intro id metadata hid
    rw [hstate.messages] at hid
    simp at hid
  have hsafe : CommitsSafely o pc
      ⟨.ended, { (genesis o pc cfg).conn with current_state := some s }⟩ :=
    (commits_safely_iff ⟨_, hrun⟩ rfl).mpr hblobs
  obtain ⟨c', hc'⟩ := hsafe.completes
  refine ⟨_, ⟨.idle, c'⟩, cache, record, hrun, ?_, rfl, hstate⟩
  unfold Node.step
  simp only
  rw [if_pos trivial, hc']

/-- The paths that the first block indexes. -/
theorem first_indexed {m m' : Node} {cache : CadoCache} {record : EpochRecord}
    (hrun : RunsTo o pc cfg (openingBlock height) m) (hcommit : m.step o pc .Commit = some m')
    (hempty : m.conn.storage = Storage.empty)
    (hstate : FirstState o pc cfg height cache record m.state.envelope) {p : CadoPath}
    (hp : m'.conn.storage.path_index[p]?.isSome = true) :
    (∃ a, p = .account a) ∨
      p = .epoch_record (BitVec.ofNat 256 (epochOf pc height).val.toNat) ∨
      p = .epoch_record LATEST ∨ ∃ tip, tip.block_height = height ∧ InfraPath o tip p := by
  have hgood := reachable_good ⟨_, hrun⟩
  have hcases := step_cases hcommit
  cases hcases with
  | @committed s c' phase current commits =>
    obtain ⟨hs, hg⟩ := hgood.of_current (by simp [phase]) current
    rw [hs] at hstate
    obtain ⟨tip, l, htip, hl, hwrites⟩ := commit_writes current hg commits
    rcases (hwrites.indexes p).mp hp with ⟨b, hb⟩ | hold
    · rcases List.mem_append.mp hb with hb | hb
      · rcases mem_chainWrites hb with ⟨staged, hstaged, _⟩ | ⟨registered, hregistered, _⟩
        · simp only [hstate.cado_cache, finite_map.get_insert] at hstaged
          split at hstaged
          · rename_i hlatest
            exact Or.inr (Or.inr (Or.inl hlatest.symm))
          · split at hstaged
            · rename_i hname
              exact Or.inr (Or.inl hname.symm)
            · exact Or.inl (hstate.accounts p (by rw [hstaged]; rfl))
        · cases p with
          | namespace_registry slug =>
            rw [AppStateEnvelope.stagedNamespace, hstate.registrations] at hregistered
            simp at hregistered
          | _ => cases hregistered
      · exact Or.inr (Or.inr (Or.inr ⟨tip, htip.trans hstate.block_height, (hl _ hb).2⟩))
    · rw [hempty] at hold
      simp [Storage.empty] at hold

end FirstBlock

/-! ## The length of a record -/

theorem length_counted (s : Text) : s.counted.length = 8 + (Text.bytes s).length := by
  unfold Text.counted
  rw [List.length_append, length_leBytes]

/-- A validator takes 66 bytes at least: its address and the lengths of three texts. -/
theorem length_validator (v : ValidatorInfo) : 66 ≤ v.serialize_bin.length := by
  unfold ValidatorInfo.serialize_bin
  rw [List.length_append, List.length_append, length_counted, length_counted, length_counted, length_name]
  omega

theorem length_validators (l : List ValidatorInfo) :
    66 * l.length ≤ (l.flatMap ValidatorInfo.serialize_bin).length := by
  induction l with
  | nil => exact Nat.le_refl _
  | cons v l ih =>
    have hv := length_validator v
    rw [List.flatMap_cons, List.length_append, List.length_cons]
    omega

theorem length_record (record : EpochRecord) :
    66 * record.active_validators.length ≤
      (Outside.crowded.serialize_body
        (epoch_record_cado Outside.crowded record).stored).length := by
  have hvalidators := length_validators record.active_validators
  have hbody : Outside.crowded.serialize_body (epoch_record_cado Outside.crowded record).stored =
      leBytes 4 0 ++ beBytes 32 (epoch_record_cado Outside.crowded record).hash_bytes.toNat ++
        (leBytes 8 record.serialize_bin.length ++ record.serialize_bin) ++
        (epoch_record_cado Outside.crowded record).metadata.toyBytes := rfl
  rw [hbody]
  simp only [List.length_append]
  unfold EpochRecord.serialize_bin
  simp only [List.length_append]
  omega

/-! ## A crowded epoch -/

theorem smallHeight_one_pos : 0 < (smallHeight 1).val := by decide

/-- Epochs of one block, with room for many validators. -/
def crowdedConstants (n : Nat) (hn : 0 < n) : ProtocolConstants :=
  { ProtocolConstants.local_dev with
    validators_per_epoch := n
    validators_pos := hn
    blocks_per_epoch := smallHeight 1
    blocks_pos := smallHeight_one_pos }

def crowdedKey (i : Nat) : Bytes32 := BitVec.ofNat 256 (i + 1)

def crowdedValidator (i : Nat) : GenesisValidator :=
  ⟨smallHeight 1, some (beBytes 32 (crowdedKey i).toNat)⟩

/-- Validators with different keys and one unit of power each. -/
def crowdedConfig (n : Nat) : GenesisConfig where
  chain_id := "crowded"
  accounts := []
  validators := (List.range n).map crowdedValidator

theorem genesisEntry_crowded (i : Nat) :
    (genesisEntry Outside.crowded (crowdedValidator i)).isSome = true := by
  have hkey : Outside.crowded.verifying_key (hex_encode (beBytes 32 (crowdedKey i).toNat)) =
      some (crowdedKey i) := by
    have hread : decode_fixed_hex 32 (hex_encode (beBytes 32 (crowdedKey i).toNat))
        "public_key" = .ok (crowdedKey i) := by
      rw [← hexDigits_eq_hex_encode]
      exact @decode_fixed_hex_hexDigits 32 (by decide) (crowdedKey i) "public_key"
    unfold Outside.crowded Outside.toy
    simp only [hread]
  have hstake : (genesisStake (smallHeight 1)).toOption.isSome = true := by decide
  obtain ⟨stake, hstake⟩ := Option.isSome_iff_exists.mp hstake
  unfold genesisEntry genesisAddress crowdedValidator
  simp [hkey, hstake, length_beBytes]

theorem genesisValidators_crowded (n : Nat) :
    (genesisValidators Outside.crowded (crowdedConfig n)).length = n := by
  unfold genesisValidators crowdedConfig
  rw [foldl_initValidator, List.nil_append, List.filterMap_map,
    List.length_filterMap_eq_countP, List.countP_eq_length.mpr, List.length_range]
  intro i _
  exact genesisEntry_crowded i

theorem epochOf_crowded (n : Nat) (hn : 0 < n) :
    epochOf (crowdedConstants n hn) (smallHeight 1) = smallHeight 1 := rfl

theorem firstPaths_of_infra {tip : AppStateTip} (htip : tip.block_height = smallHeight 1)
    {p : CadoPath} (h : InfraPath Outside.crowded tip p) : p ∈ firstPaths := by
  have hhash : (tip.to_cado Outside.crowded).hash_bytes = firstTip := by
    have hsha : (tip.to_cado Outside.crowded).hash_bytes =
        apartDigest (4 :: leBytes 8 (i64Bits tip.block_height.val)) := rfl
    rw [hsha, htip]
    rfl
  unfold firstPaths
  rcases h with rfl | rfl | rfl
  · simp [hhash]
  · simp
  · simp

/-- The commit of a crowded epoch writes a record that no read gives back. -/
theorem crowded_epoch_is_not_kept (n : Nat) (hn : 0 < n) (hmany : MAX_CADO_DATA_SIZE < 66 * n) :
    ∃ last, RunsTo Outside.crowded (crowdedConstants n hn) (crowdedConfig n)
        (block (smallHeight 1) []) last ∧
      Set.InjOn Outside.crowded.sha256 (last.conn.storage.hashed Outside.crowded) ∧
      ∃ m, RunsTo Outside.crowded (crowdedConstants n hn) (crowdedConfig n)
        (openingBlock (smallHeight 1)) m ∧
        m.step Outside.crowded (crowdedConstants n hn) .Commit = some last ∧
        ¬ CommitStores Outside.crowded m last := by
  have hopen : 0 < (epochOf (crowdedConstants n hn) (smallHeight 1)).val := by
    rw [epochOf_crowded]
    exact smallHeight_one_pos
  obtain ⟨m, last, cache, record, hrun, hcommit, hempty, hstate⟩ :=
    @first_block_runs Outside.crowded (crowdedConstants n hn) (crowdedConfig n) _
      smallHeight_one_pos hopen
  have hinj : Set.InjOn Outside.crowded.sha256 (last.conn.storage.hashed Outside.crowded) := by
    apply injOn_crowded
    intro p hp
    rcases first_indexed hrun hcommit hempty hstate hp with haccount | rfl | rfl | ⟨tip, htip, hp⟩
    · exact Or.inl haccount
    · rw [epochOf_crowded]
      exact Or.inr List.mem_cons_self
    · exact Or.inr (List.mem_cons_of_mem _ List.mem_cons_self)
    · exact Or.inr (firstPaths_of_infra htip hp)
  refine ⟨last, hrun.step hcommit, hinj, m, hrun, hcommit, ?_⟩
  intro hstores
  have hfits := (commit_stores_iff ⟨_, hrun⟩ hcommit hinj crowded_nonempty).mp hstores
  have hobject : m.state.envelope.object Outside.crowded (.epoch_record LATEST) =
      some (epoch_record_cado Outside.crowded record) := by
    unfold AppStateEnvelope.object
    rw [hstate.cado_cache, ExtTreeMap.getElem?_insert_self, Option.some_or]
  have hshort := hfits _ _ hobject
  have hlong := length_record record
  have hcount : record.active_validators.length = n := by
    have hroom : (crowdedConstants n hn).validators_per_epoch = n := rfl
    rw [hstate.active_validators, List.length_take, hroom]
    unfold sortedValidators
    rw [List.length_insertionSort, genesisValidators_crowded, Nat.min_self]
  rw [hcount] at hlong
  omega

/-- With 16384 validators the first commit of a chain keeps its objects in the cache, but no read
gives the epoch record back. -/
theorem long_epoch_record_is_not_read :
    ∃ last, RunsTo Outside.crowded (crowdedConstants 16384 (Nat.succ_pos 16383))
        (crowdedConfig 16384) (block (smallHeight 1) []) last ∧
      Set.InjOn Outside.crowded.sha256 (last.conn.storage.hashed Outside.crowded) ∧
      ¬ EachCommit Outside.crowded (crowdedConstants 16384 (Nat.succ_pos 16383))
          (crowdedConfig 16384) (block (smallHeight 1) []) (CommitKeeps Outside.crowded) := by
  have hmany : MAX_CADO_DATA_SIZE < 66 * 16384 := by decide
  obtain ⟨last, hlast, hinj, m, hrun, hcommit, hlost⟩ :=
    crowded_epoch_is_not_kept 16384 (Nat.succ_pos 16383) hmany
  refine ⟨last, hlast, hinj, ?_⟩
  intro hall
  exact hlost (hall _ m last hrun hcommit List.prefix_rfl).toCommitStores

end eld_chain
