-- How an epoch opens: EndBlock freezes the selected validator and the
-- providers that it challenges in the record of the epoch, and issues the
-- challenges from the same state. An epoch opens once in a run, and its
-- record stays as it was written.
import EldChain.Identities

open Std

namespace eld_chain

variable {o : Outside} {pc : ProtocolConstants} {cfg : GenesisConfig}
variable {e e' : AppStateEnvelope} {st st' : Storage}

/-! ## Issuing -/

/-- The challenge that is issued to a provider. -/
def challengeFor (o : Outside) (pc : ProtocolConstants) (epoch height : I64)
    (validator provider : Address) (chunk_count : UInt32) (merkle_root seed : Bytes32) :
    CapacityChallenge :=
  let chunk_indices := select_challenge_chunk_indices o epoch provider height validator chunk_count
    pc.chunks_per_challenge
  ⟨(compute_challenge_id o validator provider height chunk_indices).to_hex, validator, provider,
    chunk_indices, height, merkle_root, seed⟩

/-- Each issued challenge is made from one entry of the list. -/
theorem mem_generate {epoch height : I64} {validator : Address}
    {l : List ChallengedCapacityProviderData} {c : CapacityChallenge}
    (h : c ∈ generate_challenges_internal o pc epoch height validator l) :
    ∃ p ∈ l, ∃ merkle_root seed, p.merkle_root = some merkle_root ∧ p.seed = some seed ∧
      p.chunk_count.getD 0 ≠ 0 ∧
      c = challengeFor o pc epoch height validator p.provider_id (p.chunk_count.getD 0) merkle_root
        seed := by
  induction l with
  | nil => cases h
  | cons p l ih =>
    rw [generate_challenges_internal] at h
    split at h
    · rename_i merkle_root seed hroot hseed
      simp only at h
      split at h
      · obtain ⟨q, hq, hc⟩ := ih h
        exact ⟨q, List.mem_cons_of_mem _ hq, hc⟩
      · rename_i hcount
        rcases List.mem_cons.mp h with rfl | h
        · exact ⟨p, List.mem_cons_self, merkle_root, seed, hroot, hseed, hcount, rfl⟩
        · obtain ⟨q, hq, hc⟩ := ih h
          exact ⟨q, List.mem_cons_of_mem _ hq, hc⟩
    · cases h

/-- With complete entries the loop never stops early, so every provider with chunks gets its
challenge. -/
theorem generate_of_mem {epoch height : I64} {validator : Address}
    {l : List ChallengedCapacityProviderData} {p : ChallengedCapacityProviderData}
    (hl : ∀ q ∈ l, q.merkle_root.isSome = true ∧ q.seed.isSome = true) (hp : p ∈ l)
    {merkle_root seed : Bytes32} (hroot : p.merkle_root = some merkle_root)
    (hseed : p.seed = some seed) (hcount : p.chunk_count.getD 0 ≠ 0) :
    challengeFor o pc epoch height validator p.provider_id (p.chunk_count.getD 0) merkle_root seed ∈
      generate_challenges_internal o pc epoch height validator l := by
  induction l with
  | nil => cases hp
  | cons q l ih =>
    have hrest := fun h => ih (fun q hq => hl q (List.mem_cons_of_mem _ hq)) h
    obtain ⟨root', hroot'⟩ := Option.isSome_iff_exists.mp (hl q List.mem_cons_self).1
    obtain ⟨seed', hseed'⟩ := Option.isSome_iff_exists.mp (hl q List.mem_cons_self).2
    rw [generate_challenges_internal]
    simp only [hroot', hseed']
    rcases List.mem_cons.mp hp with rfl | hp
    · rw [if_neg hcount]
      rw [hroot] at hroot'
      rw [hseed] at hseed'
      cases hroot'
      cases hseed'
      exact List.mem_cons_self
    · split
      · exact hrest hp
      · exact List.mem_cons_of_mem _ (hrest hp)

/-! ## Opening an epoch -/

/-- What an EndBlock that opens an epoch leaves behind: its height and the challenges that
the selected validator publishes. -/
structure Opening where
  height : I64
  challenges : List CapacityChallenge

/-- The epoch that a call opens. -/
def opening (o : Outside) (pc : ProtocolConstants) (n : Node) : Request → Option Opening
  | .EndBlock height =>
    match end_block_inner o pc n.conn height with
    | .ok (out, _) => out.validator_updates.map (fun _ => ⟨height, out.challenges⟩)
    | .error _ => none
  | _ => none

/-- The record froze what the challenges were issued from: every provider that it can bind
was challenged with the same root and the same chunk count. -/
def Froze (o : Outside) (pc : ProtocolConstants) (op : Opening) (record : EpochRecord) : Prop :=
  ∀ active provider info merkle_root, record.active_capacity_validator = some active →
    provider ∈ active.challenged_providers →
    record.challenged_capacity_validators.find? (fun p => p.address == provider) = some info →
    info.chunk_count.getD 0 ≠ 0 → info.merkle_root = some merkle_root →
    ∃ seed, info.seed = some seed ∧
      challengeFor o pc (epochOf pc op.height) op.height active.validator_address provider
        (info.chunk_count.getD 0) merkle_root seed ∈ op.challenges

/-- An opening issues one challenge to a provider, at its own height. -/
structure Opening.Sound (op : Opening) : Prop where
  heights : ∀ c ∈ op.challenges, c.block_height = op.height
  determined : ∀ c ∈ op.challenges, ∀ c' ∈ op.challenges, c.provider_id = c'.provider_id → c = c'

/-- An issued challenge is made from the registry entry of its provider. -/
theorem mem_issuedChallenges {epoch : I64} {c : CapacityChallenge}
    (h : c ∈ issuedChallenges o pc e epoch) :
    ∃ sv cp merkle_root seed, e.active_capacity_validator = some sv ∧
      c.provider_id ∈ sv.challenged_providers ∧
      e.capacity_validators.find? (fun cp => cp.address == c.provider_id) = some cp ∧
      cp.merkle_root = some merkle_root ∧ cp.seed = some seed ∧ cp.chunk_count.getD 0 ≠ 0 ∧
      c = challengeFor o pc epoch e.block_height sv.validator_address c.provider_id
        (cp.chunk_count.getD 0) merkle_root seed := by
  unfold issuedChallenges at h
  split at h
  · cases h
  · rename_i sv hsv
    obtain ⟨p, hp, merkle_root, seed, hroot, hseed, hcount, hc⟩ := mem_generate h
    obtain ⟨id, hmem, hid⟩ := List.mem_filterMap.mp hp
    obtain ⟨cp, hcp, rfl⟩ := Option.map_eq_some_iff.mp hid
    have hprovider : c.provider_id = id := by rw [hc]; rfl
    exact ⟨sv, cp, merkle_root, seed, hsv, by rw [hprovider]; exact hmem,
      by rw [hprovider]; exact hcp, hroot, hseed, hcount, by rw [hprovider]; exact hc⟩

theorem sound_issuedChallenges (e : AppStateEnvelope) (epoch : I64) :
    Opening.Sound ⟨e.block_height, issuedChallenges o pc e epoch⟩ where
  heights := by
    intro c hc
    obtain ⟨sv, cp, merkle_root, seed, _, _, _, _, _, _, hceq⟩ := mem_issuedChallenges hc
    rw [hceq]
    rfl
  determined := by
    intro c hc c' hc' hprovider
    obtain ⟨sv, cp, root, seed, hsv, _, hcp, hroot, hseed, _, hceq⟩ := mem_issuedChallenges hc
    obtain ⟨sv', cp', root', seed', hsv', _, hcp', hroot', hseed', _, hceq'⟩ :=
      mem_issuedChallenges hc'
    rw [hsv] at hsv'
    cases hsv'
    rw [← hprovider, hcp] at hcp'
    cases hcp'
    rw [hroot] at hroot'
    cases hroot'
    rw [hseed] at hseed'
    cases hseed'
    rw [hceq, hceq', hprovider]

/-- The record of a state freezes what the challenges of that state are issued from. -/
theorem froze_build_epoch_record (hg : GoodStaged o e) {height epoch : I64}
    (hheight : e.block_height = height) (hepoch : epochOf pc height = epoch) :
    Froze o pc ⟨height, issuedChallenges o pc e epoch⟩ (build_epoch_record pc e epoch) := by
  intro active provider info merkle_root hactive hprovider hinfo hcount hroot
  have hactive : e.active_capacity_validator = some active := hactive
  -- the entry of the record is the entry of the registry
  have hentry : e.capacity_validators.find? (fun p => p.address == provider) = some info := by
    have hmem := List.mem_of_find?_eq_some hinfo
    simp only [build_epoch_record, hactive] at hmem
    obtain ⟨addr, _, hfind⟩ := List.mem_filterMap.mp hmem
    have haddr : info.address = addr := by simpa using List.find?_some hfind
    have hinfo' : info.address = provider := by simpa using List.find?_some hinfo
    rw [← hinfo', haddr]
    exact hfind
  obtain ⟨seed, hseed⟩ := Option.isSome_iff_exists.mp
    (hg.registered info (List.mem_of_find?_eq_some hentry)).2
  refine ⟨seed, hseed, ?_⟩
  unfold issuedChallenges
  simp only [hactive, hheight, hepoch]
  refine generate_of_mem (p := ⟨provider, info.merkle_root, info.seed, info.chunk_count⟩)
    ?_ ?_ hroot hseed hcount
  · intro q hq
    obtain ⟨id, _, hid⟩ := List.mem_filterMap.mp hq
    obtain ⟨cp, hcp, rfl⟩ := Option.map_eq_some_iff.mp hid
    exact hg.registered cp (List.mem_of_find?_eq_some hcp)
  · apply List.mem_filterMap.mpr
    exact ⟨provider, hprovider, by rw [hentry]; rfl⟩

/-! ## Epochs of a state -/

/-- The object that a state holds under the name of an epoch. -/
def AppStateEnvelope.epochObject (e : AppStateEnvelope) (name : Bytes32) :
    Option (CadoBody CadoData) := e.working (.epoch_record name)

/-- Two states of one epoch with the same records. -/
structure SameEpochs (e e' : AppStateEnvelope) : Prop where
  current_epoch : e'.current_epoch = e.current_epoch
  objects : ∀ name, e'.epochObject name = e.epochObject name

theorem SameEpochs.refl (e : AppStateEnvelope) : SameEpochs e e := ⟨rfl, fun _ => rfl⟩

theorem SameEpochs.trans {e₂ : AppStateEnvelope} (h : SameEpochs e e') (h' : SameEpochs e' e₂) :
    SameEpochs e e₂ :=
  ⟨h'.current_epoch.trans h.current_epoch, fun name => (h'.objects name).trans (h.objects name)⟩

theorem SameEpochs.of_caches (hepoch : e'.current_epoch = e.current_epoch)
    (hs : e'.cado_cache = e.cado_cache)
    (hc : e'.committed_cado_cache = e.committed_cado_cache) : SameEpochs e e' := by
  refine ⟨hepoch, fun name => ?_⟩
  unfold AppStateEnvelope.epochObject AppStateEnvelope.working
  rw [hs, hc]

/-- Staging at a path that is not of a record. -/
theorem sameEpochs_stage (e : AppStateEnvelope) {p : CadoPath} (b : CadoBody CadoData)
    (hp : ∀ name, p ≠ .epoch_record name) :
    SameEpochs e { e with cado_cache := e.cado_cache.insert p b } := by
  refine ⟨rfl, fun name => ?_⟩
  unfold AppStateEnvelope.epochObject AppStateEnvelope.working
  simp only
  rw [finite_map.get_insert_of_ne _ b (hp name)]

theorem sameEpochs_setCoins (e : AppStateEnvelope) (p : Purse) (c : Coin) :
    SameEpochs e (e.setCoins o st p c) := by
  cases p with
  | account a => exact sameEpochs_stage e _ (fun name => by simp)
  | stake a => exact sameEpochs_stage e _ (fun name => by simp)

/-- No payload opens an epoch or writes a record. -/
theorem Outcome.epochs {tx : Tx} {r : ResponseDeliverTx} (h : Outcome o pc st e tx r e') :
    SameEpochs e e' := by
  refine h.keeps (R := SameEpochs) ?_ ?_ ?_
  · exact fun e p c => sameEpochs_setCoins e p c
  · exact fun hab hbc => hab.trans hbc
  · exact fun hepoch hcache hcommitted => .of_caches hepoch hcache hcommitted

theorem Charged.epochs {tx : Tx} (h : Charged o st e tx e') : SameEpochs e e' := by
  obtain ⟨sender, rest, h⟩ := h
  rw [h.staged]
  exact sameEpochs_stage e _ (fun name => by simp)

theorem Committed.sameEpochs (h : Committed o pc e e') : SameEpochs e e' :=
  ⟨h.current_epoch, fun _ => h.working rfl⟩

/-! ## Names of epochs -/

/-- Two epochs never share a name. -/
theorem epoch_record_path_name_inj {k k' : I64} {name : Bytes32}
    (h : epoch_record_path_name k = .ok name) (h' : epoch_record_path_name k' = .ok name) :
    k = k' := by
  unfold epoch_record_path_name at h h'
  split at h
  · cases h
  · split at h'
    · cases h'
    · cases h
      have hnat := congrArg BitVec.toNat (Except.ok.inj h')
      simp only [BitVec.toNat_ofNat] at hnat
      have hk := k.hi
      have hk' := k'.hi
      rw [Nat.mod_eq_of_lt (by omega), Nat.mod_eq_of_lt (by omega)] at hnat
      exact I64.ext_val (by omega)

/-- No epoch is named as the latest record is. -/
theorem epoch_record_path_name_ne_latest {k : I64} {name : Bytes32}
    (h : epoch_record_path_name k = .ok name) : name ≠ LATEST := by
  rintro rfl
  unfold epoch_record_path_name at h
  split at h
  · cases h
  · have hnat := congrArg BitVec.toNat (Except.ok.inj h)
    have hk := k.hi
    rw [BitVec.toNat_ofNat, Nat.mod_eq_of_lt (by omega)] at hnat
    have hlatest : (2 : Nat) ^ 63 ≤ LATEST.toNat := by decide
    omega

/-! ## Opening an epoch -/

/-- The state holds the record that the opening froze. -/
def Recorded (o : Outside) (pc : ProtocolConstants) (op : Opening) (e : AppStateEnvelope) : Prop :=
  ∃ name record, epoch_record_path_name (epochOf pc op.height) = .ok name ∧
    e.epochObject name = some (epoch_record_cado o record) ∧ Froze o pc op record

/-- `e'` is in the epoch that the opening opened from `e`. -/
structure Opened (o : Outside) (pc : ProtocolConstants) (e : AppStateEnvelope) (op : Opening)
    (e' : AppStateEnvelope) : Prop where
  later : e.current_epoch.val < (epochOf pc op.height).val
  current_epoch : e'.current_epoch = epochOf pc op.height
  sound : op.Sound
  recorded : Recorded o pc op e'
  kept : ∀ k name, epoch_record_path_name k = .ok name → k.val ≤ e.current_epoch.val →
    e'.epochObject name = e.epochObject name

/-- An opening writes its record under its epoch and as the latest, and leaves the objects of
the other epochs. -/
theorem openEpoch_objects {s s' : AppState} {height : I64}
    (h : openEpoch o pc (s.atHeight height) (epochOf pc height) = .ok s') :
    ∃ name record, epoch_record_path_name (epochOf pc height) = .ok name ∧
      record = build_epoch_record pc
        (chosenState o pc (s.atHeight height) (epochOf pc height)).envelope (epochOf pc height) ∧
      s'.envelope.epochObject name = some (epoch_record_cado o record) ∧
      s'.envelope.epochObject LATEST = some (epoch_record_cado o record) ∧
      ∀ k other, epoch_record_path_name k = .ok other → k ≠ epochOf pc height →
        s'.envelope.epochObject other = s.envelope.epochObject other := by
  obtain ⟨name, hname, rfl⟩ := openEpoch.spec h
  obtain ⟨hsame, hcache⟩ := chosenState_same o pc (s.atHeight height) (epochOf pc height)
  have hlatest := epoch_record_path_name_ne_latest hname
  refine ⟨name, _, hname, rfl, ?_, ?_, ?_⟩
  · unfold AppStateEnvelope.epochObject AppStateEnvelope.working
    simp only
    rw [finite_map.get_insert_of_ne _ _ (by simpa using hlatest.symm), finite_map.get_insert,
      if_pos rfl, Option.some_or]
  · unfold AppStateEnvelope.epochObject AppStateEnvelope.working
    simp only
    rw [finite_map.get_insert, if_pos rfl, Option.some_or]
  · intro k other hother hne
    -- another epoch has another name, and so has the latest record
    have hnames : name ≠ other := by
      rintro rfl
      exact hne (epoch_record_path_name_inj hother hname)
    unfold AppStateEnvelope.epochObject AppStateEnvelope.working
    simp only
    rw [finite_map.get_insert_of_ne _ _ (by simpa using
      (epoch_record_path_name_ne_latest hother).symm),
      finite_map.get_insert_of_ne _ _ (by simpa using hnames), hcache, hsame.committed_cado_cache]
    rfl

theorem openEpoch_opened {s s' : AppState} {height : I64}
    (h : openEpoch o pc (s.atHeight height) (epochOf pc height) = .ok s')
    (hg : GoodStaged o s.envelope)
    (hlater : s.envelope.current_epoch.val < (epochOf pc height).val) :
    Opened o pc s.envelope ⟨height, issuedChallenges o pc s'.envelope (epochOf pc height)⟩
      s'.envelope := by
  obtain ⟨name, record, hname, rfl, hrecord, -, hothers⟩ := openEpoch_objects h
  obtain ⟨_, _, rfl⟩ := openEpoch.spec h
  have hgood : GoodStaged o (chosenState o pc (s.atHeight height) (epochOf pc height)).envelope := by
    apply goodStaged_chosenState
    exact ⟨hg.objects, hg.slugs, hg.no_deletes, hg.registered⟩
  have hchosen := chosenState_height o pc (s.atHeight height) (epochOf pc height)
  generalize chosenState o pc (s.atHeight height) (epochOf pc height) = chosen at *
  refine ⟨hlater, rfl, ?_, ?_, ?_⟩
  · have hsound := @sound_issuedChallenges o pc chosen.envelope (epochOf pc height)
    rw [hchosen] at hsound
    exact hsound
  · exact ⟨name, _, hname, hrecord, froze_build_epoch_record hgood hchosen rfl⟩
  · intro k other hother hle
    refine hothers k other hother ?_
    rintro rfl
    omega

/-- EndBlock stays in the epoch, or opens a later one. -/
theorem endBlock_epochs {s s' : AppState} {height : I64} {out : EndBlockOutcome}
    (h : endBlockState o pc s height = .ok (out, s')) (hg : GoodStaged o s.envelope) :
    (out.validator_updates = none ∧ SameEpochs s.envelope s'.envelope) ∨
    ((∃ updates, out.validator_updates = some updates) ∧
      Opened o pc s.envelope ⟨height, out.challenges⟩ s'.envelope) := by
  rcases endBlockState.spec h with ⟨_, rfl, rfl⟩ | ⟨hlater, s2, hopen, rfl, rfl⟩
  · exact Or.inl ⟨rfl, .of_caches rfl rfl rfl⟩
  · refine Or.inr ⟨⟨_, rfl⟩, ?_⟩
    have hopened := openEpoch_opened hopen hg hlater
    exact ⟨hopened.later, hopened.current_epoch, hopened.sound, hopened.recorded, hopened.kept⟩

/-! ## Whole runs -/

/-- What one call does to the epochs. -/
inductive EpochStep (o : Outside) (pc : ProtocolConstants) (n : Node) (r : Request) (n' : Node) :
    Prop
  | kept (none : opening o pc n r = none)
      (same : SameEpochs n.state.envelope n'.state.envelope)
  | opened {op : Opening} (some : opening o pc n r = some op)
      (opened : Opened o pc n.state.envelope op n'.state.envelope)

theorem NodeStep.epochs {n n' : Node} {r : Request} (h : NodeStep o pc n r n')
    (hg : NodeGood o n) : EpochStep o pc n r n' := by
  cases h with
  | begun phase =>
    refine .kept rfl ?_
    rw [state_of_idle phase]
    exact .refl _
  | turned_away => exact .kept rfl (.refl _)
  | @delivered tx s phase admitted =>
    obtain ⟨hcharged, _, hout⟩ := @NodeGood.of_admission o pc _ _ _ hg phase admitted
    exact .kept rfl (hcharged.epochs.trans hout.epochs)
  | @ended height s s' out phase grows current ends =>
    obtain ⟨hstate, hgood⟩ := hg.of_current (by simp [phase]) current
    have hopening : opening o pc n (.EndBlock height) =
        out.validator_updates.map (fun _ => ⟨height, out.challenges⟩) := by
      simp only [opening, end_block_inner, current, ends]
    rcases endBlock_epochs ends hgood.staged with ⟨hnone, hsame⟩ | ⟨⟨updates, hsome⟩, hopened⟩
    · rw [hnone] at hopening
      exact .kept hopening (by rw [hstate]; exact hsame)
    · rw [hsome] at hopening
      exact .opened hopening (by rw [hstate]; exact hopened)
  | @committed s c' phase current commits =>
    obtain ⟨hstate, hgood⟩ := hg.of_current (by simp [phase]) current
    refine .kept rfl ?_
    rw [hstate]
    exact (commit_inner.spec current hgood commits).envelope.sameEpochs
  | uploaded => exact .kept rfl (.refl _)

/-- The epochs that a run opens, in order. -/
def openings (o : Outside) (pc : ProtocolConstants) (cfg : GenesisConfig)
    (requests : List Request) : List Opening :=
  (runs.visits (Node.step o pc) requests (genesis o pc cfg)).filterMap
    (fun v => opening o pc v.1 v.2)

theorem openings_snoc {requests : List Request} {n : Node} (r : Request)
    (h : RunsTo o pc cfg requests n) :
    openings o pc cfg (requests ++ [r]) =
      openings o pc cfg requests ++ (opening o pc n r).toList := by
  unfold openings
  rw [runs.visits_snoc _ r h, List.filterMap_append]
  rcases hd : opening o pc n r with _ | d <;> simp [hd]

/-- What an earlier part of a run opens, the whole run opens. -/
theorem openings_of_earlier {earlier requests : List Request} (h : earlier <+: requests) :
    openings o pc cfg earlier ⊆ openings o pc cfg requests :=
  ((runs.visits_of_earlier (Node.step o pc) h _).filterMap _).subset

/-- What a run so far has left of its epochs: each was opened once, and its record stands. -/
structure OpenedEpochs (o : Outside) (pc : ProtocolConstants) (cfg : GenesisConfig)
    (requests : List Request) (n : Node) : Prop where
  sound : ∀ op ∈ openings o pc cfg requests, op.Sound
  recorded : ∀ op ∈ openings o pc cfg requests, Recorded o pc op n.state.envelope
  past : ∀ op ∈ openings o pc cfg requests,
    (epochOf pc op.height).val ≤ n.state.envelope.current_epoch.val
  nodup : ((openings o pc cfg requests).map (fun op => epochOf pc op.height)).Nodup

theorem Recorded.of_same {op : Opening} (h : Recorded o pc op e) (hs : SameEpochs e e') :
    Recorded o pc op e' := by
  obtain ⟨name, record, hname, hobject, hfroze⟩ := h
  exact ⟨name, record, hname, (hs.objects name).trans hobject, hfroze⟩

theorem Recorded.of_opened {op op' : Opening} (h : Recorded o pc op e)
    (hpast : (epochOf pc op.height).val ≤ e.current_epoch.val) (ho : Opened o pc e op' e') :
    Recorded o pc op e' := by
  obtain ⟨name, record, hname, hobject, hfroze⟩ := h
  exact ⟨name, record, hname, (ho.kept _ name hname hpast).trans hobject, hfroze⟩

theorem OpenedEpochs.step {requests : List Request} {n n' : Node} {r : Request}
    (h : OpenedEpochs o pc cfg requests n) (hrun : RunsTo o pc cfg requests n)
    (hstep : EpochStep o pc n r n') : OpenedEpochs o pc cfg (requests ++ [r]) n' := by
  cases hstep with
  | kept hnone hsame =>
    have hops : openings o pc cfg (requests ++ [r]) = openings o pc cfg requests := by
      rw [openings_snoc r hrun, hnone]
      exact List.append_nil _
    refine ⟨hops ▸ h.sound, fun op hop => ?_, fun op hop => ?_, hops ▸ h.nodup⟩
    · exact (h.recorded op (hops ▸ hop)).of_same hsame
    · rw [hsame.current_epoch]
      exact h.past op (hops ▸ hop)
  | @opened op hsome hopened =>
    have hops : openings o pc cfg (requests ++ [r]) = openings o pc cfg requests ++ [op] := by
      rw [openings_snoc r hrun, hsome]
      rfl
    have hlater := hopened.later
    have hcases : ∀ old ∈ openings o pc cfg (requests ++ [r]),
        old ∈ openings o pc cfg requests ∨ old = op := by
      intro old hold
      rw [hops, List.mem_append, List.mem_singleton] at hold
      exact hold
    refine ⟨fun old hold => ?_, fun old hold => ?_, fun old hold => ?_, ?_⟩
    · rcases hcases old hold with hold | rfl
      · exact h.sound old hold
      · exact hopened.sound
    · rcases hcases old hold with hold | rfl
      · exact (h.recorded old hold).of_opened (h.past old hold) hopened
      · exact hopened.recorded
    · rw [hopened.current_epoch]
      rcases hcases old hold with hold | rfl
      · exact (h.past old hold).trans hlater.le
      · exact le_rfl
    · rw [hops, List.map_append, List.nodup_append]
      refine ⟨h.nodup, List.nodup_singleton _, fun k hk k' hk' heq => ?_⟩
      obtain ⟨old, hold, rfl⟩ := List.mem_map.mp hk
      have hepoch : epochOf pc old.height = epochOf pc op.height :=
        heq.trans (List.mem_singleton.mp hk')
      have hpast := h.past old hold
      rw [hepoch] at hpast
      omega

/-- In every run each epoch is opened once, and its record stays as it was frozen. -/
theorem opened_epochs {requests : List Request} {n : Node} (hrun : RunsTo o pc cfg requests n) :
    OpenedEpochs o pc cfg requests n := by
  refine runs.run_induction (Node.step o pc) (OpenedEpochs o pc cfg) ?_ ?_ hrun
  · refine ⟨?_, ?_, ?_, List.nodup_nil⟩ <;>
    · intro op hop
      cases hop
  · intro earlier m r m' hm hold hs
    exact hold.step hm ((step_cases hs).epochs (reachable_good ⟨earlier, hm⟩))

end eld_chain
