-- The keys of the database. A path whose objects are not keyed by their
-- contents has one key, and as long as SHA-256 tells these keys apart the
-- last object put at a path stands under it.
import EldChain.PathForms
import EldChain.Reachable
import EldChain.StoredAccounts

open Std

namespace eld_chain

variable {o : Outside} {pc : ProtocolConstants} {st st' : Storage}

/-! ## The key of a path -/

/-- The last part of what is hashed for the key of a path. -/
def CadoPath.keyText (o : Outside) (p : CadoPath) : Text :=
  if p.type_.is_address_type then hexDigits 64 (o.sha256 (Text.bytes p.name)).toNat else p.name

def CadoPath.keyInput (p : CadoPath) (o : Outside) : Bytes :=
  Text.bytes ("@eld|".toList ++ p.type_.as_str.toList ++ '|' :: p.keyText o)

/-- The key of a path whose objects are not keyed by their contents. -/
def CadoPath.storageKey (o : Outside) (p : CadoPath) : Bytes32 := o.sha256 (p.keyInput o)

/-- The object has the key of the path. -/
def KeyedBy (o : Outside) (p : CadoPath) (b : CadoBody StoredData) : Prop :=
  generate_key o p b = .ok (p.storageKey o)

theorem ObjectAt.keyed {p : CadoPath} {b : CadoBody CadoData} (h : ObjectAt o p b) :
    KeyedBy o p b.stored := by
  cases h with
  | account a hash latest acc address =>
    simp [KeyedBy, generate_key, accountKey, CadoBody.stored, CadoBody.map, CadoPath.name]
    rfl
  | staking_account a hash latest acc address =>
    simp [KeyedBy, generate_key, accountKey, CadoBody.stored, CadoBody.map, CadoPath.name]
    rfl
  | epoch_record name r owner => rfl
  | namespace_registry slug r canonical => rfl

theorem InfraKind.keyed {p : CadoPath} {b : CadoBody StoredData} (h : InfraKind o pc p b) :
    KeyedBy o p b := by
  cases h with
  | tip name t => rfl
  | snapshot sn boundary => rfl

/-- Each path of a good state has the text of a valid path. -/
theorem ObjectAt.canonical {p : CadoPath} {b : CadoBody CadoData} (h : ObjectAt o p b) :
    p.Canonical := by
  cases h with
  | namespace_registry slug r canonical => exact canonical.valid
  | account | staking_account | epoch_record => exact trivial

theorem as_str_inj {t u : CadoType} (h : t.as_str.toList = u.as_str.toList) : t = u := by
  have hparse := congrArg CadoType.parse_type h
  rw [parse_type_as_str, parse_type_as_str] at hparse
  exact Option.some.inj hparse

/-- A path is its type and its name. -/
theorem path_ext {p q : CadoPath} (htype : p.type_ = q.type_) (hname : p.name = q.name) :
    p = q := by
  cases p with
  | account a | staking_account a | storage_staking_account a =>
    cases q <;> first
      | (cases htype; done)
      | exact congrArg _ (Address.text_inj hname)
  | namespace_registry slug =>
    cases q <;> first
      | (cases htype; done)
      | exact congrArg _ hname
  | cado_map n | app_state_tip n | snapshot_metadata n | snapshot_chunk n | chunk_reference n
  | app_state_snapshot n | epoch_record n =>
    cases q <;> first
      | (cases htype; done)
      | exact congrArg _ (Bytes32.text_inj hname)

theorem bar_not_in_type (t : CadoType) : '|' ∉ t.as_str.toList := by
  cases t <;> decide

/-! ## SHA-256 tells the keys apart -/

/-- What is hashed for the keys of the indexed paths: the texts that name a type and a last
part, and for an account also its name. -/
def Storage.hashed (o : Outside) (st : Storage) : Set Bytes :=
  { b | ∃ p : CadoPath, st.path_index[p]?.isSome = true ∧
    (b = p.keyInput o ∨ p.type_.is_address_type = true ∧ b = Text.bytes p.name) }

/-- The indexed paths have different keys. -/
def Storage.KeysDistinct (o : Outside) (st : Storage) : Prop :=
  ∀ p q : CadoPath, st.path_index[p]?.isSome = true → st.path_index[q]?.isSome = true →
    p.storageKey o = q.storageKey o → p = q

theorem keysDistinct_of_injOn (h : Set.InjOn o.sha256 (st.hashed o)) : st.KeysDistinct o := by
  intro p q hp hq hkey
  have hinput : p.keyInput o = q.keyInput o :=
    h ⟨p, hp, Or.inl rfl⟩ ⟨q, hq, Or.inl rfl⟩ hkey
  have htext := Text.bytes_injective hinput
  rw [List.append_assoc, List.append_assoc] at htext
  have hparts := congrArg (List.splitOn '|') (List.append_cancel_left htext)
  rw [List.splitOn_append_cons_self_of_not_mem (bar_not_in_type p.type_),
    List.splitOn_append_cons_self_of_not_mem (bar_not_in_type q.type_)] at hparts
  have htype := as_str_inj (List.cons.inj hparts).1
  rw [htype] at htext
  have hlast : p.keyText o = q.keyText o :=
    (List.cons.inj (List.append_cancel_left (List.append_cancel_left htext))).2
  refine path_ext htype ?_
  unfold CadoPath.keyText at hlast
  rw [htype] at hlast
  by_cases haddress : q.type_.is_address_type = true
  · rw [if_pos haddress, if_pos haddress] at hlast
    have hhash : o.sha256 (Text.bytes p.name) = o.sha256 (Text.bytes q.name) :=
      BitVec.eq_of_toNat_eq (hexDigits_inj (BitVec.isLt _) (BitVec.isLt _) hlast)
    have hnames := h ⟨p, hp, Or.inr ⟨by rw [htype]; exact haddress, rfl⟩⟩
      ⟨q, hq, Or.inr ⟨haddress, rfl⟩⟩ hhash
    exact Text.bytes_injective hnames
  · rw [if_neg haddress, if_neg haddress] at hlast
    exact hlast

/-! ## What the writes leave -/

/-- Each indexed path is indexed under its key. -/
def Storage.KeyedByPath (o : Outside) (st : Storage) : Prop :=
  ∀ (p : CadoPath) key, st.path_index[p]? = some key → key = p.storageKey o

/-- The object stands under the key of the path. -/
def Storage.Stands (o : Outside) (st : Storage) (p : CadoPath) (b : CadoBody StoredData) : Prop :=
  st.path_index[p]? = some (p.storageKey o) ∧ st.cado[p.storageKey o]? = some b

/-- A put of an object that has the key of its path writes to that key. -/
theorem put_keyed (hkeyed : st.KeyedByPath o) {p : CadoPath} {b : CadoBody StoredData}
    (hb : KeyedBy o p b) (h : st.put_cado_type_with_tx o p b = .ok st') :
    st' = { st with
      cado := st.cado.insert (p.storageKey o) b
      path_index := st.path_index.insert p (p.storageKey o) } := by
  obtain ⟨key, hkey, rfl⟩ := put.spec o h
  have hown : key = p.storageKey o := by
    unfold Storage.original_key at hkey
    rcases hi : st.path_index[p]? with _ | old
    · rw [hi] at hkey
      have hgenerated : generate_key o p b = .ok (p.storageKey o) := hb
      simp only [hgenerated, Except.ok.injEq] at hkey
      exact hkey.symm
    · rw [hi] at hkey
      cases hkey
      exact hkeyed p key hi
  rw [hown]

theorem Storage.KeyedByPath.put (hkeyed : st.KeyedByPath o) {p : CadoPath}
    {b : CadoBody StoredData} (hb : KeyedBy o p b)
    (h : st.put_cado_type_with_tx o p b = .ok st') : st'.KeyedByPath o := by
  rw [put_keyed hkeyed hb h]
  intro q key hq
  simp only [finite_map.get_insert] at hq
  by_cases hpq : p = q
  · rw [if_pos hpq, Option.some.injEq] at hq
    rw [← hq, hpq]
  · rw [if_neg hpq] at hq
    exact hkeyed q key hq

theorem stands_put (hkeyed : st.KeyedByPath o) {p : CadoPath} {b : CadoBody StoredData}
    (hb : KeyedBy o p b) (h : st.put_cado_type_with_tx o p b = .ok st') : st'.Stands o p b := by
  rw [put_keyed hkeyed hb h]
  exact ⟨ExtTreeMap.getElem?_insert_self, ExtTreeMap.getElem?_insert_self⟩

theorem Storage.Stands.put_other (hkeyed : st.KeyedByPath o) {p q : CadoPath}
    {b c : CadoBody StoredData} (hold : st.Stands o q c) (hb : KeyedBy o p b) (hpath : p ≠ q)
    (hkey : p.storageKey o ≠ q.storageKey o) (h : st.put_cado_type_with_tx o p b = .ok st') :
    st'.Stands o q c := by
  rw [put_keyed hkeyed hb h]
  refine ⟨?_, ?_⟩
  · rw [← hold.1]
    exact finite_map.get_insert_of_ne _ _ hpath
  · rw [← hold.2]
    exact finite_map.get_insert_of_ne _ _ hkey

theorem put_indexes {p q : CadoPath} {b : CadoBody StoredData}
    (h : st.put_cado_type_with_tx o p b = .ok st') :
    st'.path_index[q]?.isSome = true ↔ p = q ∨ st.path_index[q]?.isSome = true := by
  obtain ⟨key, _, rfl⟩ := put.spec o h
  simp only [finite_map.get_insert]
  by_cases hpq : p = q
  · simp [hpq]
  · simp [hpq]

/-- The writes add their paths to the index, and take none away. -/
theorem Writes.indexes {l : List (CadoPath × CadoBody StoredData)} (h : Writes o l st st')
    (q : CadoPath) :
    st'.path_index[q]?.isSome = true ↔
      (∃ b, (q, b) ∈ l) ∨ st.path_index[q]?.isSome = true := by
  induction h with
  | done => simp
  | @put st st₁ st' path body l hput _ ih =>
    rw [ih, put_indexes hput, ← or_assoc]
    apply or_congr_left
    constructor
    · rintro (⟨b, hb⟩ | rfl)
      · exact ⟨b, List.mem_cons_of_mem _ hb⟩
      · exact ⟨body, List.mem_cons_self⟩
    · rintro ⟨b, hb⟩
      rcases List.mem_cons.mp hb with hb | hb
      · exact Or.inr (Prod.ext_iff.mp hb).1.symm
      · exact Or.inl ⟨b, hb⟩
  | aside hi _ _ ih => rw [ih, hi]

theorem Writes.keyed {l : List (CadoPath × CadoBody StoredData)} (h : Writes o l st st')
    (hl : ∀ q ∈ l, KeyedBy o q.1 q.2) (hkeyed : st.KeyedByPath o) : st'.KeyedByPath o := by
  induction h with
  | done => exact hkeyed
  | put hput _ ih =>
    apply ih (fun q hq => hl q (List.mem_cons_of_mem _ hq))
    exact hkeyed.put (hl _ List.mem_cons_self) hput
  | aside hi _ _ ih =>
    apply ih hl
    unfold Storage.KeyedByPath
    rw [hi]
    exact hkeyed

/-- The one object that the writes put at a path, or that stood there and is not written
over, stands there after them. -/
theorem Writes.stands {l : List (CadoPath × CadoBody StoredData)} (h : Writes o l st st')
    (hl : ∀ q ∈ l, KeyedBy o q.1 q.2) (hkeyed : st.KeyedByPath o) (hkeys : st'.KeysDistinct o)
    {p : CadoPath} {b : CadoBody StoredData} (honly : ∀ c, (p, c) ∈ l → c = b)
    (hp : (p, b) ∈ l ∨ st.Stands o p b) : st'.Stands o p b := by
  induction h with
  | done =>
    rcases hp with hp | hp
    · cases hp
    · exact hp
  | @put st st₁ st' path body l hput hrest ih =>
    have hbody := hl _ List.mem_cons_self
    apply ih (fun q hq => hl q (List.mem_cons_of_mem _ hq)) (hkeyed.put hbody hput) hkeys
      (fun c hc => honly c (List.mem_cons_of_mem _ hc))
    by_cases hpath : path = p
    · subst hpath
      rw [← honly body List.mem_cons_self]
      exact Or.inr (stands_put hkeyed hbody hput)
    · rcases hp with hp | hp
      · rcases List.mem_cons.mp hp with hp | hp
        · exact absurd (Prod.ext_iff.mp hp).1.symm hpath
        · exact Or.inl hp
      · -- both paths are indexed in the end, so their keys differ
        right
        apply hp.put_other hkeyed hbody hpath _ hput
        intro hkey
        apply hpath
        apply hkeys path p _ _ hkey
        · exact (hrest.indexes path).mpr (Or.inr ((put_indexes hput).mpr (Or.inl rfl)))
        · have hindexed : st.path_index[p]?.isSome = true := by rw [hp.1]; rfl
          exact (hrest.indexes p).mpr (Or.inr ((put_indexes hput).mpr (Or.inr hindexed)))
  | @aside st st₁ st' l hi hc _ ih =>
    apply ih hl _ hkeys honly
    · rcases hp with hp | hp
      · exact Or.inl hp
      · right
        unfold Storage.Stands
        rw [hi, hc]
        exact hp
    · unfold Storage.KeyedByPath
      rw [hi]
      exact hkeyed

end eld_chain
