-- The database behind the accounts: what it gives for the path of an
-- account is the committed account, or nothing. A commit writes every
-- staged account, and no other object can stand for one, since the
-- owner of the object has to be the account of the path.
import EldChain.MempoolAdmission
import EldChain.ReplayProtection

open Std

namespace eld_chain

variable {o : Outside} {pc : ProtocolConstants} {cfg : GenesisConfig}
variable {e e' : AppStateEnvelope} {st st' : Storage}

/-! ## Objects that hold an account -/

/-- The object holds an account, and is owned by this address. -/
def AccountOf (a : Address) (c : CadoBody CadoData) : Prop :=
  ∃ hash acc type_ latest, c = .Mutable ⟨hash, .account acc, ⟨type_, Address.text a⟩, latest⟩

theorem stored_inj {b c : CadoBody CadoData} (h : b.stored = c.stored) : b = c := by
  rcases b with ⟨_, _, _⟩ | ⟨_, _, _, _⟩ <;> rcases c with ⟨_, _, _⟩ | ⟨_, _, _, _⟩ <;>
    cases h <;> rfl

/-- An object of the chain that holds an account is at the path of its owner. -/
theorem AccountOf.path {a : Address} {p : CadoPath} {c : CadoBody CadoData} (h : AccountOf a c)
    (hobj : ObjectAt o p c) : p = .account a := by
  obtain ⟨hash, acc, type_, latest, rfl⟩ := h
  generalize hbody : CadoBody.Mutable ⟨hash, CadoData.account acc, ⟨type_, Address.text a⟩, latest⟩
    = body at hobj
  cases hobj with
  | account b =>
    simp only [CadoBody.Mutable.injEq, CADOMut.mk.injEq, CADOMetadata.mk.injEq] at hbody
    rw [Address.text_inj hbody.2.2.1.2]
  | staking_account => simp at hbody
  | epoch_record => cases hbody
  | namespace_registry => cases hbody

/-! ## The accounts in the database -/

/-- An account object that the index finds is the one of `account`, unless there is another
among those still to be put. -/
def Mirrors (account : Address → Option (CadoBody CadoData))
    (rest : List (CadoPath × CadoBody CadoData)) (st : Storage) : Prop :=
  ∀ a key c, AccountOf a c → st.path_index[CadoPath.account a]? = some key →
    st.cado[key]? = some c.stored → account a = some c ∨ ∃ b, (CadoPath.account a, b) ∈ rest

theorem Mirrors.done {account : Address → Option (CadoBody CadoData)} (h : Mirrors account [] st)
    {a : Address} {key : Bytes32} {c : CadoBody CadoData} (hc : AccountOf a c)
    (hi : st.path_index[CadoPath.account a]? = some key) (hk : st.cado[key]? = some c.stored) :
    account a = some c := by
  rcases h a key c hc hi hk with hsome | ⟨b, hb⟩
  · exact hsome
  · cases hb

/-- One put: an account is put at its own path, or no account is put. -/
theorem Mirrors.put {account : Address → Option (CadoBody CadoData)}
    {rest rest' : List (CadoPath × CadoBody CadoData)} {p : CadoPath} {body : CadoBody StoredData}
    (h : Mirrors account rest st) (hput : st.put_cado_type_with_tx o p body = .ok st')
    (hrest : ∀ a b, (CadoPath.account a, b) ∈ rest → p ≠ .account a →
      (CadoPath.account a, b) ∈ rest')
    (hbody : ∀ a c, AccountOf a c → body = c.stored → account a = some c) :
    Mirrors account rest' st' := by
  obtain ⟨k, _, rfl⟩ := put.spec o hput
  intro a key c hc hi hk
  simp only [finite_map.get_insert] at hi hk
  by_cases hkey : k = key
  · rw [if_pos hkey] at hk
    exact Or.inl (hbody a c hc (Option.some.inj hk))
  · rw [if_neg hkey] at hk
    -- the path itself was given another key
    have hp : p ≠ .account a := by
      intro hp
      rw [if_pos hp] at hi
      exact hkey (Option.some.inj hi)
    rw [if_neg hp] at hi
    rcases h a key c hc hi hk with hsome | ⟨b, hb⟩
    · exact Or.inl hsome
    · exact Or.inr ⟨b, hrest a b hb hp⟩

/-- Writes that put no account. -/
theorem Mirrors.of_puts {account : Address → Option (CadoBody CadoData)}
    {Kind : CadoPath → CadoBody StoredData → Prop} (h : Mirrors account [] st)
    (hputs : Puts o Kind st st')
    (hkind : ∀ p body a c, Kind p body → AccountOf a c → body ≠ c.stored) :
    Mirrors account [] st' := by
  refine hputs.invariant (Mirrors account []) ?_ ?_ h
  · intro st₁ st₂ p body hold hk hput
    refine hold.put hput (fun _ _ hb _ => hb) ?_
    intro a c hc hbody
    exact absurd hbody (hkind p body a c hk hc)
  · intro st₁ st₂ hold hi hc a key c
    rw [hi, hc]
    exact hold a key c

/-! ## A commit -/

/-- The object of an account after the open block. -/
def AppStateEnvelope.accountObject (e : AppStateEnvelope) (a : Address) :
    Option (CadoBody CadoData) := e.working (.account a)

def AppStateEnvelope.committedObject (e : AppStateEnvelope) (a : Address) :
    Option (CadoBody CadoData) := e.committed_cado_cache[CadoPath.account a]?

theorem putStaged_list_mirrors {account : Address → Option (CadoBody CadoData)}
    (cache : CadoCache) (l : List (CadoPath × CadoBody CadoData)) (tx : Storage)
    (hl : ∀ q ∈ l, ObjectAt o q.1 q.2 ∧ ∀ a, q.1 = .account a → account a = some q.2)
    (h : Mirrors account l tx) :
    Mirrors account [] (l.foldl (putStagedStep o) (tx, cache)).1 := by
  induction l generalizing tx with
  | nil => exact h
  | cons q l ih =>
    obtain ⟨hobj, hq⟩ := hl q List.mem_cons_self
    obtain ⟨tx₁, hput⟩ := put_ok hobj tx
    rw [List.foldl_cons, putStagedStep, hobj.not_infrastructure]
    simp only [hput]
    refine ih tx₁ (fun r hr => hl r (List.mem_cons_of_mem _ hr)) (h.put hput ?_ ?_)
    · intro a b hb hne
      rcases List.mem_cons.mp hb with hb | hb
      · rw [← hb] at hne
        exact absurd rfl hne
      · exact hb
    · intro a c hc hbody
      have hqc := stored_inj hbody
      rw [← hqc] at hc ⊢
      exact hq a (hc.path hobj)

/-- After the staged puts the database has the accounts of the open block. -/
theorem putStaged_mirrors (h : GoodStaged o e) (hm : Mirrors e.committedObject [] st) :
    Mirrors e.accountObject [] (putStaged o st e.cado_cache).1 := by
  apply putStaged_list_mirrors
  · intro q hq
    rw [finite_map.mem_toList] at hq
    refine ⟨(h.objects q.1 q.2 hq).1, fun a ha => ?_⟩
    rw [AppStateEnvelope.accountObject, AppStateEnvelope.working, ← ha, hq, Option.some_or]
  · intro a key c hc hi hk
    have hold := hm.done hc hi hk
    rcases hs : e.cado_cache[CadoPath.account a]? with _ | b
    · left
      rw [AppStateEnvelope.accountObject, AppStateEnvelope.working, hs, Option.none_or]
      exact hold
    · right
      exact ⟨b, (finite_map.mem_toList _ _).mpr hs⟩

theorem registry_no_account (hg : GoodStaged o e) {p : CadoPath} {body : CadoBody StoredData}
    {a : Address} {c : CadoBody CadoData} (h : RegistryKind o e p body) (hc : AccountOf a c) :
    body ≠ c.stored := by
  obtain ⟨b, hb, rfl⟩ := h
  intro heq
  rw [← stored_inj heq] at hc
  rw [hc.path (stagedNamespace_object hg hb)] at hb
  cases hb

theorem infra_no_account {p : CadoPath} {body : CadoBody StoredData} {a : Address}
    {c : CadoBody CadoData} (h : InfraKind o pc p body) (hc : AccountOf a c) :
    body ≠ c.stored := by
  obtain ⟨hash, acc, type_, latest, rfl⟩ := hc
  intro heq
  cases h <;> cases heq

theorem writeStaged_mirrors {tx : Storage} (hg : Good o e st)
    (hm : Mirrors e.committedObject [] st) (h : writeStaged o st e = .ok (tx, e')) :
    Mirrors e.accountObject [] tx := by
  have hput := putStaged_mirrors hg.staged hm
  obtain ⟨tx₁, hputs, _⟩ := putStaged.spec hg.staged st
  rw [hputs] at hput
  unfold writeStaged at h
  rw [hg.staged.no_deletes, deletePending] at h
  simp only [dropDeleted_of_good hg.staged, hputs] at h
  split at h
  · cases h
  · have hclear : GoodStaged o (clearStaged e) :=
      ⟨hg.staged.objects, hg.staged.slugs, hg.staged.no_deletes, hg.staged.registered⟩
    obtain ⟨tx₂, hreg, hwrites₂, _⟩ :=
      registerNamespaces.spec hclear (flushProofs (flushPinboard tx₁ e) e)
    have hputs₂ := hwrites₂.puts (fun _ => mem_registryWrites)
    rw [hreg] at h
    simp only [Except.ok.injEq, Prod.mk.injEq] at h
    rw [← h.1]
    have hflush : Mirrors e.accountObject [] (flushProofs (flushPinboard tx₁ e) e) := hput
    exact hflush.of_puts hputs₂ (fun p body a c hk => registry_no_account hclear hk)

/-- The accounts of the open block are those of the committed state after it. -/
theorem Committed.accountObject (h : Committed o pc e e') :
    e'.committedObject = e.accountObject := by
  funext a
  rw [AppStateEnvelope.committedObject, h.objects]
  rfl

theorem commit_mirrors {c c' : ConsensusConnection} {s : AppState}
    (hs : c.current_state = some s) (hg : Good o s.envelope c.storage)
    (hm : Mirrors s.envelope.committedObject [] c.storage) (h : commit_inner o pc c = .ok c') :
    Mirrors c'.committed_state.envelope.committedObject [] c'.storage := by
  rw [(commit_inner.spec hs hg h).envelope.accountObject]
  unfold commit_inner at h
  simp only [hs] at h
  split at h
  · cases h
  · split at h
    · cases h
    · rename_i tx e₁ hwrite
      split at h
      · cases h
      · rename_i tx₁ htip
        split at h
        · cases h
        · rename_i tx₂ hsnap
          cases h
          have hselected : Mirrors (selectForNextEpoch pc s.envelope).committedObject [] c.storage := by
            rw [selectForNextEpoch_eq]
            exact hm
          have hput := writeStaged_mirrors (good_selectForNextEpoch pc hg) hselected hwrite
          rw [selectForNextEpoch_eq] at hput
          have htips := hput.of_puts (@storeTip_puts o pc _ _ _ htip)
            (fun p body a c hk => infra_no_account hk)
          exact htips.of_puts (storeSnapshot_puts hsnap)
            (fun p body a c hk => infra_no_account hk)

/-! ## Every call -/

/-- The database mirrors the committed accounts, and the open block starts from these. -/
structure AccountsStored (n : Node) : Prop where
  committed : Mirrors n.conn.committed_state.envelope.committedObject [] n.conn.storage
  current : n.phase ≠ .idle → ∀ s, n.conn.current_state = some s →
    s.envelope.committedObject = n.conn.committed_state.envelope.committedObject

theorem SameCommitted.committedObject (h : SameCommitted e e') :
    e'.committedObject = e.committedObject := by
  funext a
  rw [AppStateEnvelope.committedObject, h.committed_cado_cache]
  rfl

theorem NodeStep.accountsStored {n n' : Node} {r : Request} (h : NodeStep o pc n r n')
    (hg : NodeGood o n) (hopen : n'.OpensCommitted) (hs : AccountsStored n) :
    AccountsStored n' := by
  refine ⟨?_, fun hphase s hcurrent => (hopen hphase s hcurrent).committedObject⟩
  cases h with
  | @committed s c' phase current commits =>
    obtain ⟨_, hgood⟩ := hg.of_current (by simp [phase]) current
    refine commit_mirrors current hgood ?_ commits
    rw [hs.current (by simp [phase]) s current]
    exact hs.committed
  | begun | turned_away | delivered | ended | uploaded => exact hs.committed

theorem genesis_accountsStored : AccountsStored (genesis o pc cfg) := by
  refine ⟨?_, fun hidle => absurd rfl hidle⟩
  intro a key c _ hi
  simp [genesis, Storage.empty] at hi

theorem reachable_accountsStored {n : Node} (h : Reachable o pc cfg n) : AccountsStored n := by
  obtain ⟨requests, hrun⟩ := h
  refine runs.run_induction _ (fun _ n => AccountsStored n) genesis_accountsStored ?_ hrun
  intro earlier m r m' hm hold hs
  have hopen := reachable_opensCommitted (Reachable.step ⟨earlier, hm⟩ hs)
  exact (step_cases hs).accountsStored (reachable_good ⟨earlier, hm⟩) hopen hold

/-! ## Reading an account -/

/-- What a read by the path of an account finds: an object that the account owns. -/
theorem get_account_path {a : Address} {m : CADOMut StoredData}
    (h : st.get_cado_by_path o (.account a) = .ok (some (.Mutable m))) :
    m.metadata.owner = Address.text a ∧ ∃ key, st.path_index[CadoPath.account a]? = some key ∧
      st.cado[key]? = some (.Mutable m) := by
  unfold Storage.get_cado_by_path at h
  split at h
  · cases h
  · rename_i key hi
    split at h
    · cases h
    · rename_i stored hk
      split at h
      · cases h
      · rename_i cado hread
        split at h
        · cases h
        · rename_i key' hkey
          split at h
          · cases h
            have hstored : stored = .Mutable m := by
              unfold deserialize_stored_cado_type at hread
              simp only at hread
              split at hread
              · cases hread
              · exact Except.ok.inj hread
            rw [hstored] at hk
            refine ⟨?_, key, hi, hk⟩
            -- the key of an account checks its owner
            simp only [generate_key, accountKey] at hkey
            split at hkey
            · assumption
            · cases hkey
          · cases h

/-- The nonce that the committed state has for an account. -/
def Node.committedNonce (o : Outside) (n : Node) (a : Address) : Nonce :=
  n.conn.committed_state.envelope.nonce o n.conn.storage a

/-- An account that the database gives is the committed one. -/
theorem stored_account_is_committed {n : Node} (hn : Reachable o pc cfg n) {a : Address}
    {m : CADOMut StoredData} {acc : Account}
    (hget : n.conn.storage.get_cado_by_path o (.account a) = .ok (some (.Mutable m)))
    (hdata : m.data = .chain (.account acc)) : n.committedNonce o a = acc.nonce := by
  obtain ⟨howner, key, hi, hk⟩ := get_account_path hget
  obtain ⟨hash, data, ⟨type_, owner⟩, latest⟩ := m
  cases hdata
  cases howner
  have hobject := (reachable_accountsStored hn).committed.done
    ⟨hash, acc, type_, latest, rfl⟩ hi hk
  have hcommitted : n.conn.committed_state.envelope.committed_cado_cache ≠ ∅ := by
    intro hempty
    rw [AppStateEnvelope.committedObject, hempty] at hobject
    simp at hobject
  have hcache := (reachable_settled hn).staged.resolve_right hcommitted
  unfold Node.committedNonce AppStateEnvelope.nonce AppStateEnvelope.account_or_new
  rw [get_account_of_good (reachable_good hn).committed.committed, AppStateEnvelope.account?,
    AppStateEnvelope.working, hcache, ExtTreeMap.getElem?_empty, Option.none_or]
  rw [AppStateEnvelope.committedObject] at hobject
  rw [hobject]
  rfl

end eld_chain
