-- What a put or a delete of one path does to the others. Rows are shared:
-- paths of the types that are keyed by their contents have one row while
-- their contents are equal. So a call leaves the other paths alone exactly
-- when each of them that stands under a key of the call has there what the
-- call leaves there.
import EldChain.CadoStore
import EldChain.Library.Runs
import EldChain.Library.SharedRows
import EldChain.StorageKeys

open Std

namespace eld_chain

variable (o : Outside)

/-! ## The calls -/

/-- A call that writes to the store. -/
inductive StoreCall
  | put_cado_type (path : ParsedPath) (cado : CadoBody Bytes)
  | put_cado_data (path : ParsedPath) (data : Bytes) (metadata : CADOMetadata)
  | system_delete_cado (path : ParsedPath) (owner : Text)

def StoreCall.path : StoreCall → ParsedPath
  | .put_cado_type p _ | .put_cado_data p _ _ | .system_delete_cado p _ => p

def CadoStore.call (st : CadoStore) : StoreCall → Except EldError CadoStore
  | .put_cado_type p cado => st.put_cado_type o p cado
  | .put_cado_data p data metadata => st.put_cado_data o p data metadata
  | .system_delete_cado p owner => st.system_delete_cado o p.toPathText owner

/-- A call that fails has written nothing. -/
def CadoStore.after (st : CadoStore) (c : StoreCall) : CadoStore :=
  match st.call o c with
  | .error _ => st
  | .ok st' => st'

def CadoStore.step (st : CadoStore) (c : StoreCall) : Option CadoStore := some (st.after o c)

/-- The object that `put_cado_data` makes of the data. -/
def PathText.data_cado (p : PathText) (data : Bytes) (metadata : CADOMetadata) :
    Except EldError (CadoBody Bytes) :=
  if p.is_mutable then p.mutable_cado o data metadata else .ok (.of_bytes o data metadata)

/-- The object that a call puts. -/
def StoreCall.object : StoreCall → Option (CadoBody Bytes)
  | .put_cado_type _ cado => some cado
  | .put_cado_data p data metadata => (p.data_cado o data metadata).toOption
  | .system_delete_cado _ _ => none

/-- A call leaves what every other path reads, and its own path reads the object it put. -/
structure CadoStore.Isolated (st : CadoStore) (c : StoreCall) : Prop where
  others : ∀ q : ParsedPath, q.path ≠ c.path.path →
    (st.after o c).get_cado_by_path o q.toPathText = st.get_cado_by_path o q.toPathText
  reads_back : ∀ st' cado, st.call o c = .ok st' → c.object o = some cado →
    st'.get_cado_by_path o c.path.toPathText = .ok (some cado)

/-! ## When a call is isolated -/

/-- The object is short enough to be read, and has the key. -/
def PathText.Reads (p : PathText) (key : Bytes32) (cado : CadoBody Bytes) : Prop :=
  cado.serialized_len o ≤ p.max_stored_size ∧ p.generate_key o cado = .ok key

/-- The other paths under the key, if there are any, have the object there. -/
def CadoStore.OthersHave (st : CadoStore) (p : PathText) (key : Bytes32) (cado : CadoBody Bytes) :
    Prop :=
  ∀ q : ParsedPath, q.path ≠ p.path → st.path_index.rows[q.path]? = some key →
    st.cado[key]? = some cado

/-- No other path is under the key. -/
def CadoStore.Alone (st : CadoStore) (p : PathText) (key : Bytes32) : Prop :=
  ∀ q : ParsedPath, q.path ≠ p.path → st.path_index.rows[q.path]? ≠ some key

/-- The put of an account: both of its keys are written, and the second key of the old object is
cleared. -/
def CadoStore.SparesMutable (st : CadoStore) (p : PathText) (cado : CadoBody Bytes) : Prop :=
  ∀ keys, p.generate o cado = .ok keys → ∀ old_latest_key,
    p.old_latest_key o st.cado[keys.original_key]? = .ok old_latest_key →
      cado.serialized_len o ≤ p.max_stored_size ∧ st.OthersHave p keys.original_key cado ∧
      (∀ key, keys.latest_key = some key → st.OthersHave p key cado) ∧
      ∀ key, old_latest_key = some key → keys.original_key ≠ key → keys.latest_key ≠ some key →
        st.Alone p key

/-- The object of a call can be read under the key that it is written to, and each other path
that stands under a key of the call has there what the call leaves there. -/
def StoreCall.Spares (st : CadoStore) : StoreCall → Prop
  | .put_cado_type p cado =>
    ∀ key, p.put_key o "generate_key" st.path_index.rows[p.path]? cado = .ok key →
      p.Reads o key cado ∧ st.OthersHave p.toPathText key cado
  | .put_cado_data p data metadata =>
    validate_cado_path_internal p.toPathText = .ok () →
      ∀ cado, p.data_cado o data metadata = .ok cado →
        if p.is_mutable then st.SparesMutable o p.toPathText cado
        else ∀ keys, p.generate o cado = .ok keys →
          cado.serialized_len o ≤ p.max_stored_size ∧
            st.OthersHave p.toPathText keys.original_key cado
  | .system_delete_cado p owner =>
    ∀ keys, st.prepare_system_cado_deletion o p.toPathText owner = .ok keys →
      st.Alone p.toPathText keys.original_key ∧
        ∀ key, keys.latest_key = some key → st.Alone p.toPathText key

variable {o : Outside} {st st' : CadoStore} {p : ParsedPath}

/-! ## Reading -/

/-- A path is known by its text. -/
theorem parts_of_path {p q : ParsedPath} (h : p.path = q.path) :
    p.toPathText = q.toPathText := by
  have hparsed := p.parsed
  rw [h, q.parsed, Except.ok.injEq] at hparsed
  exact hparsed.symm

/-- The two keys of an object are made together: the second one only fails with the first. -/
theorem generate_iff {p : PathText} {cado : CadoBody Bytes} {key : Bytes32} :
    (∃ keys, p.generate o cado = .ok keys ∧ keys.original_key = key) ↔
      p.generate_key o cado = .ok key := by
  unfold PathText.generate
  cases hkey : p.generate_key o cado with
  | error e => simp [bind, Except.bind]
  | ok original_key =>
    have hlatest : ∃ latest_key, p.generate_latest_key o cado = .ok latest_key := by
      unfold PathText.generate_key at hkey
      unfold PathText.generate_latest_key
      cases hparse : CadoType.parse_type p.type_ with
      | none =>
        rw [hparse] at hkey
        cases hkey
      | some t =>
        rw [hparse] at hkey
        cases cado with
        | Mutable m => cases t <;> exact ⟨_, rfl⟩
        | Immutable c =>
          cases t
          case Account | StakingAccount | StorageStakingAccount =>
            unfold AccountKeyGenerator.generate_original_key at hkey
            simp only at hkey
            repeat' split at hkey
            all_goals cases hkey
          all_goals exact ⟨_, rfl⟩
    obtain ⟨latest_key, hlatest⟩ := hlatest
    simp [bind, Except.bind, hlatest]

/-- What a path reads is the row under its key, where the object has that key. -/
theorem get_eq_some_iff {p : PathText} {cado : CadoBody Bytes} :
    st.get_cado_by_path o p = .ok (some cado) ↔ validate_cado_path_internal p = .ok () ∧
      ∃ key, st.path_index.rows[p.path]? = some key ∧ st.cado[key]? = some cado ∧
        p.Reads o key cado := by
  unfold CadoStore.get_cado_by_path PathText.Reads
  cases hvalid : validate_cado_path_internal p with
  | error e => simp
  | ok u =>
    cases hindex : st.path_index.rows[p.path]? with
    | none => simp
    | some key =>
      simp only [true_and, Option.some.injEq, exists_eq_left']
      cases hrow : st.cado[key]? with
      | none => simp [PathText.read_row]
      | some row =>
        rw [read_row_eq_some_iff, generate_iff, Option.some.injEq]

/-- Each path of the index reads an object. -/
def CadoStore.Sound (o : Outside) (st : CadoStore) : Prop :=
  ∀ (q : ParsedPath) key, st.path_index.rows[q.path]? = some key →
    ∃ cado, st.get_cado_by_path o q.toPathText = .ok (some cado)

theorem CadoStore.Sound.row (h : st.Sound o) {q : ParsedPath} {key : Bytes32}
    (hindex : st.path_index.rows[q.path]? = some key) :
    validate_cado_path_internal q.toPathText = .ok () ∧
      ∃ cado, st.cado[key]? = some cado ∧ q.Reads o key cado := by
  obtain ⟨cado, hget⟩ := h q key hindex
  obtain ⟨hvalid, key', hindex', hrow⟩ := get_eq_some_iff.mp hget
  rw [hindex, Option.some.injEq] at hindex'
  subst hindex'
  exact ⟨hvalid, cado, hrow⟩

/-- What a path without a key reads. -/
def readAbsent (q : ParsedPath) : Except EldError (Option (CadoBody Bytes)) :=
  match validate_cado_path_internal q.toPathText with
  | .error e => .error e
  | .ok () => .ok none

/-- What a path reads of a row. -/
def readAt (o : Outside) (q : ParsedPath) (key : Bytes32) (row : Option (CadoBody Bytes)) :
    Except EldError (Option (CadoBody Bytes)) :=
  match validate_cado_path_internal q.toPathText with
  | .error e => .error e
  | .ok () => q.read_row o key row

/-- The paths are names that lead to the rows of the objects. -/
theorem get_eq_shared (q : ParsedPath) : st.get_cado_by_path o q.toPathText =
    shared_rows.get readAbsent (readAt o) (fun q => st.path_index.rows[q.path]?)
      (fun key => st.cado[key]?) q := by
  unfold CadoStore.get_cado_by_path shared_rows.get readAbsent readAt
  beta_reduce
  cases validate_cado_path_internal q.toPathText with
  | error e => cases st.path_index.rows[q.path]? <;> rfl
  | ok u => cases st.path_index.rows[q.path]? <;> rfl

/-- An object that is read can be told from any other row. -/
theorem CadoStore.Sound.shows (h : st.Sound o) {q : ParsedPath} {key : Bytes32}
    (hindex : st.path_index.rows[q.path]? = some key) :
    shared_rows.Shows (readAt o) q key st.cado[key]? := by
  obtain ⟨hvalid, cado, hrow, hreads⟩ := h.row hindex
  intro row' hsame
  have hread : q.read_row o key (some cado) = .ok (some cado) :=
    read_row_eq_some_iff.mpr ⟨rfl, hreads.1, generate_iff.mpr hreads.2⟩
  unfold readAt at hsame
  rw [hvalid, hrow] at hsame
  simp only [hread] at hsame
  cases row' with
  | none => cases hsame
  | some cado' => rw [hrow, (read_row_eq_some_iff.mp hsame).1]

/-- A call that changes the index at one path only leaves what the others read exactly when it
assigns to their keys what stands there. -/
theorem others_iff (h : st.Sound o) {assigned : Bytes32 → Option (Option (CadoBody Bytes))}
    (hindex : ∀ path, path ≠ p.path → st'.path_index.rows[path]? = st.path_index.rows[path]?)
    (hrows : ∀ key, st'.cado[key]? =
      shared_rows.assign assigned (fun key => st.cado[key]?) key) :
    (∀ q : ParsedPath, q.path ≠ p.path →
        st'.get_cado_by_path o q.toPathText = st.get_cado_by_path o q.toPathText) ↔
      ∀ q : ParsedPath, q.path ≠ p.path → ∀ key, st.path_index.rows[q.path]? = some key →
        ∀ row, assigned key = some row → st.cado[key]? = row := by
  have hsame := @shared_rows.gets_eq_iff _ _ _ _ readAbsent (readAt o)
    (fun q => st.path_index.rows[q.path]?) (fun q => st'.path_index.rows[q.path]?)
    (fun key => st.cado[key]?) (fun key => st'.cado[key]?) (fun q => q.path ≠ p.path)
    (fun q hq => hindex q.path hq) (fun q key _ hkey => h.shows hkey)
  simp only [get_eq_shared]
  rw [hsame]
  simp only [hrows]
  exact shared_rows.kept_assign_iff

/-- What an insert assigns. -/
theorem assigned_insert (st : CadoStore) (key : Bytes32) (cado : CadoBody Bytes) (k : Bytes32) :
    (st.cado.insert key cado)[k]? =
      shared_rows.assign (fun k => if key = k then some (some cado) else none)
        (fun key => st.cado[key]?) k := by
  unfold shared_rows.assign
  rw [finite_map.get_insert]
  by_cases hkey : key = k
  · simp [hkey]
  · simp [hkey]

theorem insert_spares_iff {p : PathText} {key : Bytes32} {cado : CadoBody Bytes} :
    (∀ q : ParsedPath, q.path ≠ p.path → ∀ k, st.path_index.rows[q.path]? = some k →
      ∀ row, (if key = k then some (some cado) else none) = some row → st.cado[k]? = row) ↔
      st.OthersHave p key cado := by
  apply forall₂_congr
  intro q _
  constructor
  · intro hkept hindex
    exact hkept key hindex (some cado) (if_pos rfl)
  · intro hhave k hindex row hassigned
    by_cases hkey : key = k
    · subst hkey
      rw [if_pos rfl, Option.some.injEq] at hassigned
      rw [← hassigned]
      exact hhave hindex
    · rw [if_neg hkey] at hassigned
      cases hassigned

/-- A call that writes its object under the key that the index has for its path then. -/
theorem isolated_of_put (h : st.Sound o) {c : StoreCall} (hcall : st.call o c = .ok st')
    {cado : CadoBody Bytes} (hobject : c.object o = some cado) {key : Bytes32}
    {rows : ExtTreeMap Bytes32 (CadoBody Bytes) compare}
    (hst : st' = ⟨st.path_index.put c.path key, rows⟩) (hrow : rows[key]? = some cado)
    {assigned : Bytes32 → Option (Option (CadoBody Bytes))}
    (hrows : ∀ k, rows[k]? = shared_rows.assign assigned (fun key => st.cado[key]?) k)
    (hvalid : validate_cado_path_internal c.path.toPathText = .ok ()) :
    st.Isolated o c ↔ c.path.Reads o key cado ∧
      ∀ q : ParsedPath, q.path ≠ c.path.path → ∀ k, st.path_index.rows[q.path]? = some k →
        ∀ row, assigned k = some row → st.cado[k]? = row := by
  have hafter : st.after o c = st' := by
    unfold CadoStore.after
    rw [hcall]
  have hput : ∀ path, st'.path_index.rows[path]? =
      if c.path.path = path then some key else st.path_index.rows[path]? := by
    intro path
    rw [hst]
    exact finite_map.get_insert _ _ _ _
  have hothers := @others_iff o st st' c.path h assigned
    (fun path hpath => by rw [hput, if_neg (Ne.symm hpath)]) (by rw [hst]; exact hrows)
  have hreads : st'.get_cado_by_path o c.path.toPathText = .ok (some cado) ↔
      c.path.Reads o key cado := by
    rw [get_eq_some_iff, hput, if_pos rfl, hst]
    simp only [hvalid, true_and, Option.some.injEq, exists_eq_left', hrow]
  rw [← hothers, ← hreads]
  constructor
  · intro hisolated
    refine ⟨hisolated.reads_back st' cado hcall hobject, ?_⟩
    intro q hq
    rw [← hafter]
    exact hisolated.others q hq
  · rintro ⟨hback, hrest⟩
    refine ⟨?_, ?_⟩
    · intro q hq
      rw [hafter]
      exact hrest q hq
    · intro st'' cado' hcall' hobject'
      rw [hcall] at hcall'
      rw [hobject] at hobject'
      cases hcall'
      cases hobject'
      exact hback

/-- A call that fails is isolated. -/
theorem isolated_of_error {c : StoreCall} {e : EldError} (hcall : st.call o c = .error e) :
    st.Isolated o c := by
  refine ⟨?_, ?_⟩
  · intro q _
    unfold CadoStore.after
    rw [hcall]
  · intro st' cado hok
    rw [hcall] at hok
    cases hok

theorem validate_of_put_key {p : PathText} {operation : String} {existing : Option Bytes32}
    {cado : CadoBody Bytes} {key : Bytes32} (h : p.put_key o operation existing cado = .ok key) :
    validate_cado_path_internal p = .ok () := by
  unfold PathText.put_key at h
  cases hvalid : validate_cado_path_internal p with
  | error e =>
    rw [hvalid] at h
    cases h
  | ok u => rfl

theorem put_cado_type_isolated_iff (h : st.Sound o) (p : ParsedPath) (cado : CadoBody Bytes) :
    st.Isolated o (.put_cado_type p cado) ↔ (StoreCall.put_cado_type p cado).Spares o st := by
  have hcall : st.call o (.put_cado_type p cado) = st.put_cado_type o p cado := rfl
  unfold CadoStore.put_cado_type at hcall
  unfold StoreCall.Spares
  cases hkey : p.put_key o "generate_key" st.path_index.rows[p.path]? cado with
  | error e =>
    rw [hkey] at hcall
    simp [isolated_of_error hcall, hkey]
  | ok key =>
    rw [hkey] at hcall
    rw [isolated_of_put h hcall rfl rfl ExtTreeMap.getElem?_insert_self
      (assigned_insert st key cado) (validate_of_put_key hkey)]
    simp only [hkey, Except.ok.injEq, forall_eq']
    apply and_congr_right
    intro _
    exact insert_spares_iff

/-- The put of an object that is not an account's. -/
theorem put_immutable_isolated_iff (h : st.Sound o) {p : ParsedPath} {data : Bytes}
    {metadata : CADOMetadata} (hvalid : validate_cado_path_internal p.toPathText = .ok ())
    (himmutable : p.is_mutable = false) :
    st.Isolated o (.put_cado_data p data metadata) ↔
      ∀ keys, p.generate o (CadoBody.of_bytes o data metadata) = .ok keys →
        (CadoBody.of_bytes o data metadata).serialized_len o ≤ p.max_stored_size ∧
          st.OthersHave p.toPathText keys.original_key (.of_bytes o data metadata) := by
  have hcall : st.call o (.put_cado_data p data metadata) =
      st.put_cado_data o p data metadata := rfl
  unfold CadoStore.put_cado_data CadoStore.put_immutable_data at hcall
  rw [hvalid, himmutable] at hcall
  have hobject : (StoreCall.put_cado_data p data metadata).object o =
      some (.of_bytes o data metadata) := by
    unfold StoreCall.object PathText.data_cado
    simp only [himmutable, Bool.false_eq_true, if_false]
    rfl
  cases hkeys : p.generate o (CadoBody.of_bytes o data metadata) with
  | error e =>
    simp only [bind, Except.bind, hkeys, Bool.false_eq_true, if_false] at hcall
    simp [isolated_of_error hcall]
  | ok keys =>
    simp only [bind, Except.bind, hkeys, Bool.false_eq_true, if_false] at hcall
    rw [isolated_of_put h hcall hobject rfl ExtTreeMap.getElem?_insert_self
      (assigned_insert st keys.original_key _) hvalid]
    simp only [Except.ok.injEq, forall_eq']
    apply and_congr
    · unfold PathText.Reads
      exact and_iff_left (generate_iff.mp ⟨keys, hkeys, rfl⟩)
    · exact insert_spares_iff

theorem get_eraseKey (rows : ExtTreeMap Bytes32 (CadoBody Bytes) compare) (key : Option Bytes32)
    (k : Bytes32) : (eraseKey rows key)[k]? = if key = some k then none else rows[k]? := by
  unfold eraseKey
  cases key with
  | none => simp
  | some key => simp [finite_map.get_erase]

/-- The rows after the put of an account. -/
def CadoStore.mutableRows (st : CadoStore) (cado : CadoBody Bytes) (keys : CADOKeys)
    (old_latest_key : Option Bytes32) : ExtTreeMap Bytes32 (CadoBody Bytes) compare :=
  let written := (eraseKey st.cado old_latest_key).insert keys.original_key cado
  match keys.latest_key with
  | none => written
  | some latest_key => written.insert latest_key cado

/-- What the put of an account assigns. -/
def mutableAssigned (cado : CadoBody Bytes) (keys : CADOKeys) (old_latest_key : Option Bytes32)
    (k : Bytes32) : Option (Option (CadoBody Bytes)) :=
  if keys.original_key = k ∨ keys.latest_key = some k then some (some cado)
  else if old_latest_key = some k then some none
  else none

theorem get_mutableRows (st : CadoStore) (cado : CadoBody Bytes) (keys : CADOKeys)
    (old_latest_key : Option Bytes32) (k : Bytes32) :
    (st.mutableRows cado keys old_latest_key)[k]? =
      shared_rows.assign (mutableAssigned cado keys old_latest_key)
        (fun key => st.cado[key]?) k := by
  have hwritten : ((eraseKey st.cado old_latest_key).insert keys.original_key cado)[k]? =
      if keys.original_key = k then some cado
      else if old_latest_key = some k then none else st.cado[k]? := by
    rw [finite_map.get_insert, get_eraseKey]
  unfold CadoStore.mutableRows shared_rows.assign mutableAssigned
  cases hlatest : keys.latest_key with
  | none =>
    simp only [hwritten, reduceCtorEq, or_false]
    by_cases horiginal : keys.original_key = k
    · simp [horiginal]
    · by_cases hold : old_latest_key = some k <;> simp [horiginal, hold]
  | some latest_key =>
    simp only [finite_map.get_insert, hwritten, Option.some.injEq]
    by_cases hkey : latest_key = k
    · simp [hkey]
    · by_cases horiginal : keys.original_key = k
      · simp [horiginal]
      · by_cases hold : old_latest_key = some k <;> simp [horiginal, hold, hkey]

theorem mutableRows_original (st : CadoStore) (cado : CadoBody Bytes) (keys : CADOKeys)
    (old_latest_key : Option Bytes32) :
    (st.mutableRows cado keys old_latest_key)[keys.original_key]? = some cado := by
  rw [get_mutableRows]
  unfold shared_rows.assign mutableAssigned
  rw [if_pos (Or.inl rfl), Option.getD_some]

/-- In a sound store no path stands at an empty row. -/
theorem CadoStore.Sound.row_ne_none (h : st.Sound o) {q : ParsedPath} {key : Bytes32}
    (hindex : st.path_index.rows[q.path]? = some key) : st.cado[key]? ≠ none := by
  obtain ⟨_, cado, hrow, _⟩ := h.row hindex
  rw [hrow]
  exact Option.some_ne_none cado

theorem mutable_spares_iff (h : st.Sound o) {p : PathText} {cado : CadoBody Bytes}
    {keys : CADOKeys} {old_latest_key : Option Bytes32} :
    (∀ q : ParsedPath, q.path ≠ p.path → ∀ k, st.path_index.rows[q.path]? = some k →
      ∀ row, mutableAssigned cado keys old_latest_key k = some row → st.cado[k]? = row) ↔
      st.OthersHave p keys.original_key cado ∧
      (∀ key, keys.latest_key = some key → st.OthersHave p key cado) ∧
      ∀ key, old_latest_key = some key → keys.original_key ≠ key → keys.latest_key ≠ some key →
        st.Alone p key := by
  constructor
  · intro hkept
    refine ⟨?_, ?_, ?_⟩
    · intro q hq hindex
      exact hkept q hq _ hindex (some cado) (if_pos (Or.inl rfl))
    · intro key hkey q hq hindex
      exact hkept q hq key hindex (some cado) (if_pos (Or.inr hkey))
    · intro key hold horiginal hlatest q hq hindex
      have hassigned : mutableAssigned cado keys old_latest_key key = some none := by
        unfold mutableAssigned
        rw [if_neg (not_or.mpr ⟨horiginal, hlatest⟩), if_pos hold]
      exact h.row_ne_none hindex (hkept q hq key hindex none hassigned)
  · rintro ⟨horiginal, hlatest, hold⟩ q hq k hindex row hassigned
    unfold mutableAssigned at hassigned
    by_cases hwritten : keys.original_key = k ∨ keys.latest_key = some k
    · rw [if_pos hwritten, Option.some.injEq] at hassigned
      rw [← hassigned]
      rcases hwritten with hkey | hkey
      · subst hkey
        exact horiginal q hq hindex
      · exact hlatest k hkey q hq hindex
    · rw [if_neg hwritten] at hassigned
      obtain ⟨hkey, hlatest_key⟩ := not_or.mp hwritten
      by_cases hcleared : old_latest_key = some k
      · exact absurd hindex (hold k hcleared hkey hlatest_key q hq)
      · rw [if_neg hcleared] at hassigned
        cases hassigned

/-- The put of an account. -/
theorem put_mutable_isolated_iff (h : st.Sound o) {p : ParsedPath} {data : Bytes}
    {metadata : CADOMetadata} (hvalid : validate_cado_path_internal p.toPathText = .ok ())
    (hmutable : p.is_mutable = true) :
    st.Isolated o (.put_cado_data p data metadata) ↔
      ∀ cado, p.mutable_cado o data metadata = .ok cado →
        st.SparesMutable o p.toPathText cado := by
  have hcall : st.call o (.put_cado_data p data metadata) =
      st.put_cado_data o p data metadata := rfl
  unfold CadoStore.put_cado_data CadoStore.put_mutable_data at hcall
  rw [hvalid, hmutable] at hcall
  unfold CadoStore.SparesMutable
  cases hcado : p.mutable_cado o data metadata with
  | error e =>
    simp only [bind, Except.bind, hcado, if_true] at hcall
    simp [isolated_of_error hcall]
  | ok cado =>
    simp only [bind, Except.bind, hcado, if_true] at hcall
    have hobject : (StoreCall.put_cado_data p data metadata).object o = some cado := by
      unfold StoreCall.object PathText.data_cado
      simp only [hmutable, if_true, hcado]
      rfl
    simp only [Except.ok.injEq, forall_eq']
    cases hkeys : p.generate o cado with
    | error e =>
      rw [hkeys] at hcall
      simp [isolated_of_error hcall]
    | ok keys =>
      rw [hkeys] at hcall
      simp only [Except.ok.injEq, forall_eq']
      simp only at hcall
      cases hold : p.old_latest_key o st.cado[keys.original_key]? with
      | error e =>
        rw [hold] at hcall
        simp [isolated_of_error hcall]
      | ok old_latest_key =>
        rw [hold] at hcall
        have hput : st.call o (.put_cado_data p data metadata) =
            .ok ⟨st.path_index.put p keys.original_key,
              st.mutableRows cado keys old_latest_key⟩ := hcall
        rw [isolated_of_put h hput hobject rfl (mutableRows_original st cado keys old_latest_key)
          (get_mutableRows st cado keys old_latest_key) hvalid]
        simp only [Except.ok.injEq, forall_eq']
        apply and_congr
        · unfold PathText.Reads
          exact and_iff_left (generate_iff.mp ⟨keys, hkeys, rfl⟩)
        · exact mutable_spares_iff h

theorem put_cado_data_isolated_iff (h : st.Sound o) (p : ParsedPath) (data : Bytes)
    (metadata : CADOMetadata) : st.Isolated o (.put_cado_data p data metadata) ↔
      (StoreCall.put_cado_data p data metadata).Spares o st := by
  unfold StoreCall.Spares PathText.data_cado
  cases hvalid : validate_cado_path_internal p.toPathText with
  | error e =>
    have hcall : st.call o (.put_cado_data p data metadata) =
        st.put_cado_data o p data metadata := rfl
    unfold CadoStore.put_cado_data at hcall
    rw [hvalid] at hcall
    simp [isolated_of_error hcall, hvalid]
  | ok u =>
    simp only [hvalid, forall_const]
    cases hmutable : p.is_mutable with
    | false =>
      rw [put_immutable_isolated_iff h hvalid hmutable]
      simp
    | true =>
      rw [put_mutable_isolated_iff h hvalid hmutable]
      simp

/-- What a delete assigns. -/
def deleteAssigned (keys : CADOKeys) (k : Bytes32) : Option (Option (CadoBody Bytes)) :=
  if keys.original_key = k ∨ keys.latest_key = some k then some none else none

theorem delete_spares_iff (h : st.Sound o) {p : PathText} {keys : CADOKeys} :
    (∀ q : ParsedPath, q.path ≠ p.path → ∀ k, st.path_index.rows[q.path]? = some k →
      ∀ row, deleteAssigned keys k = some row → st.cado[k]? = row) ↔
      st.Alone p keys.original_key ∧ ∀ key, keys.latest_key = some key → st.Alone p key := by
  constructor
  · intro hkept
    refine ⟨?_, ?_⟩
    · intro q hq hindex
      exact h.row_ne_none hindex (hkept q hq _ hindex none (if_pos (Or.inl rfl)))
    · intro key hkey q hq hindex
      exact h.row_ne_none hindex (hkept q hq key hindex none (if_pos (Or.inr hkey)))
  · rintro ⟨horiginal, hlatest⟩ q hq k hindex row hassigned
    unfold deleteAssigned at hassigned
    by_cases hkey : keys.original_key = k ∨ keys.latest_key = some k
    · rcases hkey with hkey | hkey
      · rw [← hkey] at hindex
        exact absurd hindex (horiginal q hq)
      · exact absurd hindex (hlatest k hkey q hq)
    · rw [if_neg hkey] at hassigned
      cases hassigned

theorem system_delete_cado_isolated_iff (h : st.Sound o) (p : ParsedPath) (owner : Text) :
    st.Isolated o (.system_delete_cado p owner) ↔
      (StoreCall.system_delete_cado p owner).Spares o st := by
  have hcall : st.call o (.system_delete_cado p owner) =
      st.system_delete_cado o p.toPathText owner := rfl
  unfold CadoStore.system_delete_cado at hcall
  unfold StoreCall.Spares
  cases hkeys : st.prepare_system_cado_deletion o p.toPathText owner with
  | error e =>
    rw [hkeys] at hcall
    simp [isolated_of_error hcall, hkeys]
  | ok keys =>
    rw [hkeys] at hcall
    have hafter : st.after o (.system_delete_cado p owner) = st.delete_keys p.toPathText keys := by
      unfold CadoStore.after
      rw [hcall]
      rfl
    have hindex : ∀ path, path ≠ p.path →
        (st.delete_keys p.toPathText keys).path_index.rows[path]? =
          st.path_index.rows[path]? := by
      intro path hpath
      unfold CadoStore.delete_keys PathIndex.delete_path_index
      rw [finite_map.get_erase, if_neg (Ne.symm hpath)]
    have hrows : ∀ k, (st.delete_keys p.toPathText keys).cado[k]? =
        shared_rows.assign (deleteAssigned keys) (fun key => st.cado[key]?) k := by
      intro k
      unfold CadoStore.delete_keys shared_rows.assign deleteAssigned
      rw [get_eraseKey, finite_map.get_erase]
      by_cases horiginal : keys.original_key = k
      · simp [horiginal]
      · by_cases hlatest : keys.latest_key = some k <;> simp [horiginal, hlatest]
    simp only [hkeys, Except.ok.injEq, forall_eq']
    rw [← delete_spares_iff h, ← others_iff h hindex hrows]
    constructor
    · intro hisolated q hq
      rw [← hafter]
      exact hisolated.others q hq
    · intro hothers
      refine ⟨?_, ?_⟩
      · intro q hq
        rw [hafter]
        exact hothers q hq
      · intro st' cado _ hobject
        cases hobject

/-- In a sound store a call is isolated exactly when it spares the other paths. -/
theorem isolated_iff (h : st.Sound o) (c : StoreCall) : st.Isolated o c ↔ c.Spares o st := by
  cases c with
  | put_cado_type p cado => exact put_cado_type_isolated_iff h p cado
  | put_cado_data p data metadata => exact put_cado_data_isolated_iff h p data metadata
  | system_delete_cado p owner => exact system_delete_cado_isolated_iff h p owner

/-! ## Runs -/

theorem CadoStore.Sound.empty : CadoStore.empty.Sound o := by
  intro q key hindex
  cases hindex

/-- A call that goes through indexes the path of the object it puts, or takes its path out of the
index. -/
theorem index_of_call {c : StoreCall} (hcall : st.call o c = .ok st') :
    (∃ key cado, st'.path_index = st.path_index.put c.path key ∧ c.object o = some cado) ∨
      st'.path_index = st.path_index.delete_path_index c.path.path := by
  cases c with
  | put_cado_type p cado =>
    have hput : st.put_cado_type o p cado = .ok st' := hcall
    unfold CadoStore.put_cado_type at hput
    split at hput
    · cases hput
    · cases hput
      exact Or.inl ⟨_, cado, rfl, rfl⟩
  | put_cado_data p data metadata =>
    left
    have hput : st.put_cado_data o p data metadata = .ok st' := hcall
    unfold CadoStore.put_cado_data at hput
    obtain ⟨_, _, hput⟩ := bind_eq_ok.mp hput
    cases hmutable : p.is_mutable with
    | false =>
      rw [hmutable] at hput
      unfold CadoStore.put_immutable_data at hput
      obtain ⟨keys, _, hput⟩ := bind_eq_ok.mp hput
      cases hput
      refine ⟨keys.original_key, .of_bytes o data metadata, rfl, ?_⟩
      unfold StoreCall.object PathText.data_cado
      simp only [hmutable]
      rfl
    | true =>
      rw [hmutable] at hput
      unfold CadoStore.put_mutable_data at hput
      obtain ⟨cado, hcado, hput⟩ := bind_eq_ok.mp hput
      obtain ⟨keys, _, hput⟩ := bind_eq_ok.mp hput
      obtain ⟨_, _, hput⟩ := bind_eq_ok.mp hput
      cases hput
      refine ⟨keys.original_key, cado, rfl, ?_⟩
      unfold StoreCall.object PathText.data_cado
      simp only [hmutable, if_true, hcado]
      rfl
  | system_delete_cado p owner =>
    right
    have hdelete : st.system_delete_cado o p.toPathText owner = .ok st' := hcall
    unfold CadoStore.system_delete_cado at hdelete
    obtain ⟨keys, _, hdelete⟩ := bind_eq_ok.mp hdelete
    cases hdelete
    rfl

/-- An isolated call leaves a sound store sound. -/
theorem CadoStore.Sound.after (h : st.Sound o) {c : StoreCall} (hisolated : st.Isolated o c) :
    (st.after o c).Sound o := by
  intro q key hindex
  cases hcall : st.call o c with
  | error e =>
    have hsame : st.after o c = st := by
      unfold CadoStore.after
      rw [hcall]
    rw [hsame] at hindex ⊢
    exact h q key hindex
  | ok st' =>
    have hafter : st.after o c = st' := by
      unfold CadoStore.after
      rw [hcall]
    by_cases hq : q.path = c.path.path
    · have hparts := parts_of_path hq
      rw [hafter] at hindex ⊢
      rcases index_of_call hcall with ⟨_, cado, _, hobject⟩ | hdeleted
      · rw [hparts]
        exact ⟨cado, hisolated.reads_back st' cado hcall hobject⟩
      · unfold PathIndex.delete_path_index at hdeleted
        rw [hdeleted, hq] at hindex
        simp at hindex
    · rw [hisolated.others q hq]
      apply h q key
      rw [hafter] at hindex
      rw [← hindex]
      rcases index_of_call hcall with ⟨_, _, hput, _⟩ | hdeleted
      · unfold PathIndex.put at hput
        rw [hput, finite_map.get_insert, if_neg (Ne.symm hq)]
      · unfold PathIndex.delete_path_index at hdeleted
        rw [hdeleted, finite_map.get_erase, if_neg (Ne.symm hq)]

/-- From the empty store, every call of a run is isolated exactly when every call of it spares
the other paths. -/
theorem paths_are_isolated_iff (o : Outside) (calls : List StoreCall) :
    (∀ v ∈ runs.visits (CadoStore.step o) calls CadoStore.empty, v.1.Isolated o v.2) ↔
      ∀ v ∈ runs.visits (CadoStore.step o) calls CadoStore.empty, v.2.Spares o v.1 := by
  refine @runs.visits_iff _ _ (CadoStore.step o) (CadoStore.Sound o) (CadoStore.Isolated o)
    (fun st c => c.Spares o st) ?_ ?_ CadoStore.empty CadoStore.Sound.empty calls
  · intro st c h
    exact isolated_iff h c
  · rintro st c _ h hisolated ⟨⟩
    exact h.after hisolated

/-! ## Which paths have one key -/

/-- The types whose objects are keyed by their contents. -/
def CadoType.keyed_by_contents : CadoType → Bool
  | .CadoMap | .SnapshotMetadata | .SnapshotChunk | .ChunkReference => true
  | _ => false

/-- The last part of what is hashed for the key of an object at a path. -/
def PathText.lastPart (o : Outside) (p : PathText) (t : CadoType) (cado : CadoBody Bytes) : Text :=
  if t.is_address_type then hexDigits 64 (o.sha256 (Text.bytes p.name)).toNat
  else if t.keyed_by_contents then hexDigits 64 cado.hash_bytes.toNat
  else p.name

theorem generate_key_eq {p : PathText} {t : CadoType} (ht : CadoType.parse_type p.type_ = some t)
    {cado : CadoBody Bytes} {key : Bytes32} (h : p.generate_key o cado = .ok key) :
    key = p.keyFor o (p.lastPart o t cado) := by
  unfold PathText.generate_key at h
  rw [ht] at h
  cases t with
  | Account | StakingAccount | StorageStakingAccount =>
    simp only at h
    unfold AccountKeyGenerator.generate_original_key at h
    repeat' split at h
    all_goals cases h
    all_goals rfl
  | AppStateTip | AppStateSnapshot | EpochRecord | Namespace =>
    cases h
    rfl
  | CadoMap | SnapshotMetadata | SnapshotChunk | ChunkReference =>
    simp only at h
    unfold GeneralKeyGenerator.generate_original_key at h
    split at h
    · cases h
    · cases h
      rfl

/-- What is hashed for the keys of the indexed paths: a scope, a type and a last part, and for an
account also its name. -/
def CadoStore.hashed (o : Outside) (st : CadoStore) : Set Bytes :=
  { b | ∃ (p : ParsedPath) (t : CadoType) (key : Bytes32) (cado : CadoBody Bytes),
    CadoType.parse_type p.type_ = some t ∧ st.path_index.rows[p.path]? = some key ∧
      st.cado[key]? = some cado ∧
      (b = Text.bytes (p.scope ++ '|' :: p.type_ ++ '|' :: p.lastPart o t cado) ∨
        t.is_address_type = true ∧ b = Text.bytes p.name) }

theorem bar_not_in_scope {p : PathText} (h : validate_cado_path_internal p = .ok ()) :
    '|' ∉ p.scope := by
  unfold validate_cado_path_internal at h
  obtain ⟨_, _, h⟩ := bind_eq_ok.mp h
  obtain ⟨_, hparts, _⟩ := bind_eq_ok.mp h
  unfold validate_path_parts at hparts
  rw [unless_eq_ok] at hparts
  have hscope : p.scope ∈ ALLOWED_SCOPES := by
    have hcontains := hparts.1
    rw [Bool.not_eq_false, List.contains_eq_mem, decide_eq_true_iff] at hcontains
    exact hcontains
  have hall : ∀ scope ∈ ALLOWED_SCOPES, scope.contains '|' = false := by
    unfold ALLOWED_SCOPES
    simp
  have hbar := hall p.scope hscope
  rw [List.contains_eq_mem, decide_eq_false_iff_not] at hbar
  exact hbar

/-- As long as SHA-256 tells the keys apart, only paths of one scope and of one type that is keyed
by contents stand under one key. -/
theorem one_key_by_contents (h : st.Sound o) (hinj : Set.InjOn o.sha256 (st.hashed o))
    {p q : ParsedPath} {key : Bytes32} (hp : st.path_index.rows[p.path]? = some key)
    (hq : st.path_index.rows[q.path]? = some key) (hne : p.path ≠ q.path) :
    p.scope = q.scope ∧ ∃ t : CadoType, t.keyed_by_contents = true ∧
      p.type_ = t.as_str.toList ∧ q.type_ = t.as_str.toList := by
  obtain ⟨hvalidp, cado, hrow, _, hkeyp⟩ := h.row hp
  obtain ⟨hvalidq, cado', hrow', _, hkeyq⟩ := h.row hq
  rw [hrow, Option.some.injEq] at hrow'
  subst hrow'
  obtain ⟨_, htextp, htypep, _⟩ := parse_eq_ok p.parsed
  obtain ⟨_, htextq, htypeq, _⟩ := parse_eq_ok q.parsed
  obtain ⟨t, ht⟩ := valid_type_iff.mp htypep
  obtain ⟨u, hu⟩ := valid_type_iff.mp htypeq
  have hparsep : CadoType.parse_type p.type_ = some t := by rw [← ht, parse_type_as_str]
  have hparseq : CadoType.parse_type q.type_ = some u := by rw [← hu, parse_type_as_str]
  have hinput : p.scope ++ '|' :: p.type_ ++ '|' :: p.lastPart o t cado =
      q.scope ++ '|' :: q.type_ ++ '|' :: q.lastPart o u cado := by
    apply Text.bytes_injective
    apply hinj ⟨p, t, key, cado, hparsep, hp, hrow, Or.inl rfl⟩
      ⟨q, u, key, cado, hparseq, hq, hrow, Or.inl rfl⟩
    exact (generate_key_eq hparsep hkeyp).symm.trans (generate_key_eq hparseq hkeyq)
  rw [List.append_assoc, List.append_assoc] at hinput
  -- neither a scope nor a type has a bar, so the parts can be told apart
  have hparts := congrArg (List.splitOn '|') hinput
  rw [← ht, ← hu, List.cons_append, List.cons_append,
    List.splitOn_append_cons_self_of_not_mem (bar_not_in_scope hvalidp),
    List.splitOn_append_cons_self_of_not_mem (bar_not_in_scope hvalidq),
    List.splitOn_append_cons_self_of_not_mem (bar_not_in_type t),
    List.splitOn_append_cons_self_of_not_mem (bar_not_in_type u)] at hparts
  have hscope : p.scope = q.scope := (List.cons.inj hparts).1
  have htype : t = u := as_str_inj (List.cons.inj (List.cons.inj hparts).2).1
  subst htype
  refine ⟨hscope, t, ?_, ht.symm, hu.symm⟩
  rw [hscope, ← ht, ← hu] at hinput
  have hlast : p.lastPart o t cado = q.lastPart o t cado :=
    (List.cons.inj (List.append_cancel_left (List.cons.inj (List.append_cancel_left hinput)).2)).2
  by_contra hcontents
  apply hne
  rw [htextp, htextq, hscope, ← ht, ← hu]
  have hname : p.name = q.name := by
    unfold PathText.lastPart at hlast
    by_cases haddress : t.is_address_type = true
    · rw [if_pos haddress, if_pos haddress] at hlast
      have hhash : o.sha256 (Text.bytes p.name) = o.sha256 (Text.bytes q.name) :=
        BitVec.eq_of_toNat_eq (hexDigits_inj (BitVec.isLt _) (BitVec.isLt _) hlast)
      exact Text.bytes_injective (hinj
        ⟨p, t, key, cado, hparsep, hp, hrow, Or.inr ⟨haddress, rfl⟩⟩
        ⟨q, t, key, cado, hparseq, hq, hrow, Or.inr ⟨haddress, rfl⟩⟩ hhash)
    · rw [if_neg haddress, if_neg haddress, if_neg hcontents, if_neg hcontents] at hlast
      exact hlast
  rw [hname]

/-! ## Equal chunks -/

/-- The path of a snapshot's chunk: its name is the hash of the height and the number of the
chunk. -/
def chunkPath (n : Bytes32) : ParsedPath := (CadoPath.snapshot_chunk n).parsedPath trivial

def chunkOwner : CADOMetadata := ⟨.SnapshotChunk, "system".toList⟩

/-- Two heights have the same chunk, and the first one's is deleted. -/
def twoEqualChunks : List StoreCall :=
  [.put_cado_data (chunkPath 1) [7] chunkOwner, .put_cado_data (chunkPath 2) [7] chunkOwner,
    .system_delete_cado (chunkPath 1) chunkOwner.owner]

section EqualChunks

variable {n m : Bytes32} {data : Bytes}

theorem deletable_chunk (n : Bytes32) : (CadoPath.snapshot_chunk n).Deletable :=
  Or.inr (Or.inl rfl)

/-- The key of a chunk. -/
def chunkKey (o : Outside) (data : Bytes) : Bytes32 :=
  keyFor o .SnapshotChunk (hexDigits 64 (o.sha256 data).toNat)

def CadoStore.withChunk (o : Outside) (st : CadoStore) (n : Bytes32) (data : Bytes) : CadoStore :=
  ⟨st.path_index.put (chunkPath n) (chunkKey o data),
    st.cado.insert (chunkKey o data) (.of_bytes o data chunkOwner)⟩

theorem after_put_chunk (st : CadoStore) (n : Bytes32) (data : Bytes) :
    st.after o (.put_cado_data (chunkPath n) data chunkOwner) = st.withChunk o n data := by
  have hcall : st.call o (.put_cado_data (chunkPath n) data chunkOwner) =
      .ok (st.withChunk o n data) := put_of_contents (deletable_chunk n) data chunkOwner
  unfold CadoStore.after
  rw [hcall]

/-- A short chunk is read back under any name that has its key. -/
theorem get_chunk (hshort : (CadoBody.of_bytes o data chunkOwner).serialized_len o ≤ MAX_CADO_DATA_SIZE)
    (hindex : st.path_index.rows[(chunkPath n).path]? = some (chunkKey o data))
    (hrow : st.cado[chunkKey o data]? = some (.of_bytes o data chunkOwner)) :
    st.get_cado_by_path o (chunkPath n).toPathText =
      .ok (some (.of_bytes o data chunkOwner)) := by
  have hvalid : validate_cado_path_internal (chunkPath n).toPathText = .ok () :=
    validate_of_contents (deletable_chunk n)
  have hkey : (chunkPath n).generate_key o (CadoBody.of_bytes o data chunkOwner) =
      .ok (chunkKey o data) :=
    generate_iff.mp ⟨_, generate_of_contents (deletable_chunk n) _, rfl⟩
  have hsize : (chunkPath n).max_stored_size = MAX_CADO_DATA_SIZE :=
    max_stored_size_of_contents (deletable_chunk n)
  apply get_eq_some_iff.mpr
  refine ⟨hvalid, chunkKey o data, hindex, hrow, ?_, hkey⟩
  rw [hsize]
  exact hshort

theorem chunkPath_ne (h : n ≠ m) : (chunkPath n).path ≠ (chunkPath m).path := by
  intro hpath
  apply h
  have hname : (chunkPath n).name = (chunkPath m).name :=
    congrArg PathText.name (parts_of_path hpath)
  exact Bytes32.text_inj hname

/-- Of two chunks with equal contents the one takes the other with it. -/
theorem twin_is_deleted (hnames : n ≠ m) (st : CadoStore)
    (hshort : (CadoBody.of_bytes o data chunkOwner).serialized_len o ≤ MAX_CADO_DATA_SIZE) :
    ¬ ((st.withChunk o n data).withChunk o m data).Isolated o
      (.system_delete_cado (chunkPath n) chunkOwner.owner) := by
  intro hisolated
  have hrow : ((st.withChunk o n data).withChunk o m data).cado[chunkKey o data]? =
      some (.of_bytes o data chunkOwner) := ExtTreeMap.getElem?_insert_self
  have hfirst : ((st.withChunk o n data).withChunk o m data).path_index.rows[
      (chunkPath n).path]? = some (chunkKey o data) := by
    unfold CadoStore.withChunk PathIndex.put
    rw [finite_map.get_insert, if_neg (chunkPath_ne hnames.symm), finite_map.get_insert,
      if_pos rfl]
  have hsecond : ((st.withChunk o n data).withChunk o m data).path_index.rows[
      (chunkPath m).path]? = some (chunkKey o data) := ExtTreeMap.getElem?_insert_self
  have hprepare : ((st.withChunk o n data).withChunk o m data).prepare_system_cado_deletion o
      (chunkPath n).toPathText chunkOwner.owner = .ok ⟨chunkKey o data, none⟩ :=
    @prepare_of_contents o _ (.snapshot_chunk n) (deletable_chunk n)
      ⟨o.sha256 data, data, chunkOwner⟩ (get_chunk hshort hfirst hrow)
  have hcall : ((st.withChunk o n data).withChunk o m data).call o
      (.system_delete_cado (chunkPath n) chunkOwner.owner) =
      .ok (((st.withChunk o n data).withChunk o m data).delete_keys (chunkPath n).toPathText
        ⟨chunkKey o data, none⟩) := by
    unfold CadoStore.call
    simp only
    unfold CadoStore.system_delete_cado
    rw [hprepare]
    rfl
  have hother := hisolated.others (chunkPath m) (chunkPath_ne hnames.symm)
  unfold CadoStore.after at hother
  rw [hcall, get_chunk hshort hsecond hrow] at hother
  obtain ⟨_, key, hindex, hkept, _⟩ := get_eq_some_iff.mp hother
  unfold CadoStore.delete_keys eraseKey PathIndex.delete_path_index at hindex hkept
  rw [finite_map.get_erase, if_neg (chunkPath_ne hnames), hsecond, Option.some.injEq] at hindex
  rw [← hindex, finite_map.get_erase, if_pos rfl] at hkept
  cases hkept

end EqualChunks

theorem equal_chunks_are_not_isolated :
    ¬ ∀ v ∈ runs.visits (CadoStore.step Outside.toy) twoEqualChunks CadoStore.empty,
      v.1.Isolated Outside.toy v.2 := by
  intro hall
  apply @twin_is_deleted Outside.toy 1 2 [7] (by decide) CadoStore.empty (by decide +kernel)
  apply hall (_, StoreCall.system_delete_cado (chunkPath 1) chunkOwner.owner)
  unfold twoEqualChunks CadoStore.step
  simp only [runs.visits, after_put_chunk]
  exact List.mem_cons_of_mem _ (List.mem_cons_of_mem _ List.mem_cons_self)

end eld_chain
