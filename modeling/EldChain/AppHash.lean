-- The app hash: the bytes that the envelope's `Hash` implementation
-- feeds to SHA-256. Every field but three lists and one optional value
-- carries its own length, so the bytes determine the hashed fields as
-- soon as these lengths are known. They are not written, and two states
-- that cut the same entries into different lists hash alike.
import EldChain.Envelope
import EldChain.Library.Framing

open Std framing

namespace eld_chain

variable (o : Outside)

/-! ## `Hash` as bytes -/

/-- `write_length_prefix`: a `usize` in native order. -/
def hash_len (n : Nat) : Bytes := leBytes 8 n

def Address.hash (a : Address) : Bytes := hash_len 20 ++ beBytes 20 a.toNat

def Bytes32.hash (h : Bytes32) : Bytes := hash_len 32 ++ beBytes 32 h.toNat

def Bytes.hash (b : Bytes) : Bytes := hash_len b.length ++ b

/-- A string ends with a byte that UTF-8 never uses. -/
def Text.hash (s : Text) : Bytes := Text.bytes s ++ [255]

def Coin.hash (c : Coin) : Bytes := leBytes 16 c.amount

def I64.hash (x : I64) : Bytes := leBytes 8 (i64Bits x.val)

def UInt64.hash (x : UInt64) : Bytes := leBytes 8 x.toNat

def UInt32.hash (x : UInt32) : Bytes := leBytes 4 x.toNat

/-- The derived `Hash` of an `Option`: the discriminant, then the value. -/
def optionHash {α : Type} (f : α → Bytes) : Option α → Bytes
  | none => leBytes 8 0
  | some a => leBytes 8 1 ++ f a

def vecHash {α : Type} (f : α → Bytes) (l : List α) : Bytes := hash_len l.length ++ l.flatMap f

def ValidatorInfo.hash (v : ValidatorInfo) : Bytes :=
  Address.hash v.address ++ (v.stake.hash ++ Bytes.hash v.public_key)

def CapacityValidatorInfo.hash (p : CapacityValidatorInfo) : Bytes :=
  Address.hash p.address ++ (p.stake.hash ++ (Bytes32.hash p.public_key ++
    (UInt64.hash p.storage_capacity ++ (optionHash Bytes32.hash p.merkle_root ++
    (optionHash Bytes32.hash p.seed ++ (optionHash UInt32.hash p.chunk_count ++
    (optionHash UInt64.hash p.registered_at ++ (optionHash UInt64.hash p.last_merkle_root_update ++
    (UInt64.hash p.registered_block ++ UInt64.hash p.registration_duration)))))))))

def ActiveCapacityValidator.hash (v : ActiveCapacityValidator) : Bytes :=
  Address.hash v.validator_address ++ (v.epoch.hash ++
    (vecHash Address.hash v.challenged_providers ++ vecHash Text.hash v.subscribed_topics))

/-- `BTreeMap<Address, u32>`: the number of entries, then each entry in order. -/
def countsHash (m : ExtTreeMap Address UInt32 compare) : Bytes :=
  vecHash (fun p => Address.hash p.1 ++ UInt32.hash p.2) m.toList

/-- `impl Hash for AppStateEnvelope`: the three validator lists and the selected validator
are written entry by entry, with no count and no tag. -/
def AppStateEnvelope.hash (e : AppStateEnvelope) : Bytes :=
  e.block_height.hash ++ (e.current_epoch.hash ++ (Bytes32.hash (e.state_trie.root_hash) ++
    (e.validators.flatMap ValidatorInfo.hash ++ (e.active_validators.flatMap ValidatorInfo.hash ++
    (e.capacity_validators.flatMap CapacityValidatorInfo.hash ++
    ((match e.active_capacity_validator with
      | some sv => sv.hash
      | none => []) ++ countsHash e.failed_proof_counts))))))

def AppStateEnvelope.calculate_app_hash (e : AppStateEnvelope) : Bytes32 := o.sha256 e.hash

/-! ## Numbers are delimited by their width -/

theorem leBytes_delimited (n : Nat) : Delimited (· < 256 ^ n) (leBytes n) :=
  Delimited.of_length n (length_leBytes n) (fun _ _ hv hw h => leBytes_inj hv hw h)

theorem beBytes_delimited (n : Nat) : Delimited (· < 256 ^ n) (beBytes n) :=
  Delimited.of_length n (length_beBytes n) (fun _ _ hv hw h => beBytes_inj hv hw h)

theorem i64Bits_inj {x y : I64} (h : i64Bits x.val = i64Bits y.val) : x = y := by
  unfold i64Bits at h
  have := x.lo; have := x.hi; have := y.lo; have := y.hi
  exact I64.ext_val (by omega)

theorem i64Bits_lt (x : Int) : i64Bits x < 256 ^ 8 := by
  unfold i64Bits
  have := Int.emod_nonneg x (b := 2 ^ 64) (by decide)
  have := Int.emod_lt_of_pos x (b := 2 ^ 64) (by decide)
  omega

/-! ## Every hashed value is delimited -/

theorem hash_len_delimited : Delimited FitsUsize hash_len := leBytes_delimited 8

theorem Address.hash_delimited : Delimited (fun _ => True) Address.hash := by
  intro a b r s _ _ h
  unfold Address.hash at h
  rw [List.append_assoc, List.append_assoc, List.append_cancel_left_eq] at h
  obtain ⟨hab, hr⟩ := beBytes_delimited 20 _ _ _ _ (by simpa using a.isLt) (by simpa using b.isLt) h
  exact ⟨BitVec.eq_of_toNat_eq hab, hr⟩

theorem Bytes32.hash_delimited : Delimited (fun _ => True) Bytes32.hash := by
  intro a b r s _ _ h
  unfold Bytes32.hash at h
  rw [List.append_assoc, List.append_assoc, List.append_cancel_left_eq] at h
  obtain ⟨hab, hr⟩ := beBytes_delimited 32 _ _ _ _ (by simpa using a.isLt) (by simpa using b.isLt) h
  exact ⟨BitVec.eq_of_toNat_eq hab, hr⟩

theorem Bytes.hash_delimited : Delimited (fun b : Bytes => FitsUsize b.length) Bytes.hash := by
  intro a b r s ha hb h
  unfold Bytes.hash at h
  rw [List.append_assoc, List.append_assoc] at h
  obtain ⟨hlen, h⟩ := hash_len_delimited _ _ _ _ ha hb h
  exact List.append_inj h hlen

theorem Coin.hash_delimited : Delimited (fun _ => True) Coin.hash := by
  intro a b r s _ _ h
  have ha := a.le_max
  have hb := b.le_max
  unfold MAX_COIN at ha hb
  obtain ⟨hab, hr⟩ := leBytes_delimited 16 _ _ _ _ (by omega) (by omega) h
  exact ⟨Coin.ext_amount hab, hr⟩

theorem I64.hash_delimited : Delimited (fun _ => True) I64.hash := by
  intro a b r s _ _ h
  obtain ⟨hab, hr⟩ := leBytes_delimited 8 _ _ _ _ (i64Bits_lt _) (i64Bits_lt _) h
  exact ⟨i64Bits_inj hab, hr⟩

theorem UInt64.hash_delimited : Delimited (fun _ => True) UInt64.hash := by
  intro a b r s _ _ h
  obtain ⟨hab, hr⟩ := leBytes_delimited 8 _ _ _ _ a.toNat_lt b.toNat_lt h
  exact ⟨UInt64.toNat_inj.mp hab, hr⟩

theorem UInt32.hash_delimited : Delimited (fun _ => True) UInt32.hash := by
  intro a b r s _ _ h
  obtain ⟨hab, hr⟩ := leBytes_delimited 4 _ _ _ _ a.toNat_lt b.toNat_lt h
  exact ⟨UInt32.toNat_inj.mp hab, hr⟩

theorem optionHash_delimited {α : Type} {f : α → Bytes} (h : Delimited (fun _ => True) f) :
    Delimited (fun _ => True) (optionHash f) := by
  have ht := Delimited.tagged (leBytes_delimited 8) (by decide) (by decide) h
  intro a b r s _ _ he
  refine ht a b r s (fun _ _ => trivial) (fun _ _ => trivial) ?_
  unfold optionHash at he
  cases a <;> cases b <;> exact he

theorem vecHash_delimited {α : Type} {f : α → Bytes} (h : Delimited (fun _ => True) f) :
    Delimited (fun l : List α => FitsUsize l.length) (vecHash f) := by
  intro a b r s ha hb he
  exact (hash_len_delimited.counted h) a b r s ⟨ha, fun _ _ => trivial⟩ ⟨hb, fun _ _ => trivial⟩ he

/-! ## Strings -/

theorem utf8EncodeChar_ne_ff (c : Char) : (255 : UInt8) ∉ String.utf8EncodeChar c := by
  have hbyte : ∀ n : Nat, n < 255 → (255 : UInt8) ≠ UInt8.ofNat n := by
    intro n hn h
    have := congrArg UInt8.toNat h
    simp at this
    omega
  unfold String.utf8EncodeChar
  simp only
  split
  · simp only [List.mem_singleton]
    exact hbyte _ (by omega)
  · split
    · simp only [List.mem_cons, List.not_mem_nil, or_false, not_or]
      exact ⟨hbyte _ (by omega), hbyte _ (by omega)⟩
    · split
      · simp only [List.mem_cons, List.not_mem_nil, or_false, not_or]
        exact ⟨hbyte _ (by omega), hbyte _ (by omega), hbyte _ (by omega)⟩
      · simp only [List.mem_cons, List.not_mem_nil, or_false, not_or]
        exact ⟨hbyte _ (by omega), hbyte _ (by omega), hbyte _ (by omega), hbyte _ (by omega)⟩

theorem Text.bytes_injective {s t : Text} (h : Text.bytes s = Text.bytes t) : s = t := by
  apply String.ofList_injective
  rw [← String.toByteArray_inj, String.toByteArray_ofList, String.toByteArray_ofList]
  exact congrArg List.toByteArray h

theorem Text.hash_delimited : Delimited (fun _ => True) Text.hash := by
  refine Delimited.terminated 255 (fun s h => ?_) (fun _ _ => Text.bytes_injective)
  obtain ⟨c, _, hc⟩ := List.mem_flatMap.mp h
  exact utf8EncodeChar_ne_ff c hc

/-! ## Records -/

/-- A validator whose key is no longer than a `Vec` can be. -/
def ValidatorInfo.Fits (v : ValidatorInfo) : Prop := FitsUsize v.public_key.length

theorem ValidatorInfo.hash_delimited : Delimited ValidatorInfo.Fits ValidatorInfo.hash := by
  intro a b r s ha hb h
  unfold ValidatorInfo.hash at h
  simp only [List.append_assoc] at h
  obtain ⟨h1, h⟩ := Address.hash_delimited _ _ _ _ trivial trivial h
  obtain ⟨h2, h⟩ := Coin.hash_delimited _ _ _ _ trivial trivial h
  obtain ⟨h3, hr⟩ := Bytes.hash_delimited _ _ _ _ ha hb h
  cases a; cases b
  simp only at h1 h2 h3
  exact ⟨by rw [h1, h2, h3], hr⟩

theorem CapacityValidatorInfo.hash_delimited :
    Delimited (fun _ => True) CapacityValidatorInfo.hash := by
  intro a b r s _ _ h
  unfold CapacityValidatorInfo.hash at h
  simp only [List.append_assoc] at h
  obtain ⟨h1, h⟩ := Address.hash_delimited _ _ _ _ trivial trivial h
  obtain ⟨h2, h⟩ := Coin.hash_delimited _ _ _ _ trivial trivial h
  obtain ⟨h3, h⟩ := Bytes32.hash_delimited _ _ _ _ trivial trivial h
  obtain ⟨h4, h⟩ := UInt64.hash_delimited _ _ _ _ trivial trivial h
  obtain ⟨h5, h⟩ := optionHash_delimited Bytes32.hash_delimited _ _ _ _ trivial trivial h
  obtain ⟨h6, h⟩ := optionHash_delimited Bytes32.hash_delimited _ _ _ _ trivial trivial h
  obtain ⟨h7, h⟩ := optionHash_delimited UInt32.hash_delimited _ _ _ _ trivial trivial h
  obtain ⟨h8, h⟩ := optionHash_delimited UInt64.hash_delimited _ _ _ _ trivial trivial h
  obtain ⟨h9, h⟩ := optionHash_delimited UInt64.hash_delimited _ _ _ _ trivial trivial h
  obtain ⟨h10, h⟩ := UInt64.hash_delimited _ _ _ _ trivial trivial h
  obtain ⟨h11, hr⟩ := UInt64.hash_delimited _ _ _ _ trivial trivial h
  cases a; cases b
  simp only at h1 h2 h3 h4 h5 h6 h7 h8 h9 h10 h11
  exact ⟨by rw [h1, h2, h3, h4, h5, h6, h7, h8, h9, h10, h11], hr⟩

/-- A selected validator whose two lists are no longer than a `Vec` can be. -/
def ActiveCapacityValidator.Fits (v : ActiveCapacityValidator) : Prop :=
  FitsUsize v.challenged_providers.length ∧ FitsUsize v.subscribed_topics.length

theorem ActiveCapacityValidator.hash_delimited :
    Delimited ActiveCapacityValidator.Fits ActiveCapacityValidator.hash := by
  intro a b r s ha hb h
  unfold ActiveCapacityValidator.hash at h
  simp only [List.append_assoc] at h
  obtain ⟨h1, h⟩ := Address.hash_delimited _ _ _ _ trivial trivial h
  obtain ⟨h2, h⟩ := I64.hash_delimited _ _ _ _ trivial trivial h
  obtain ⟨h3, h⟩ := vecHash_delimited Address.hash_delimited _ _ _ _ ha.1 hb.1 h
  obtain ⟨h4, hr⟩ := vecHash_delimited Text.hash_delimited _ _ _ _ ha.2 hb.2 h
  cases a; cases b
  simp only at h1 h2 h3 h4
  exact ⟨by rw [h1, h2, h3, h4], hr⟩

theorem countsHash_delimited :
    Delimited (fun m : ExtTreeMap Address UInt32 compare => FitsUsize m.toList.length)
      countsHash := by
  have hentry : Delimited (fun _ => True)
      (fun p : Address × UInt32 => Address.hash p.1 ++ UInt32.hash p.2) := by
    intro a b r s _ _ h
    simp only [List.append_assoc] at h
    obtain ⟨h1, h⟩ := Address.hash_delimited _ _ _ _ trivial trivial h
    obtain ⟨h2, h⟩ := UInt32.hash_delimited _ _ _ _ trivial trivial h
    exact ⟨Prod.ext h1 h2, h⟩
  intro a b r s ha hb h
  obtain ⟨hl, hr⟩ := vecHash_delimited hentry _ _ _ _ ha hb h
  exact ⟨ExtTreeMap.toList_inj.mp hl, hr⟩

/-! ## The envelope -/

/-- The collections of a state that Rust can hold in memory. -/
structure AppStateEnvelope.Fits (e : AppStateEnvelope) : Prop where
  validators : ∀ v ∈ e.validators, v.Fits
  active_validators : ∀ v ∈ e.active_validators, v.Fits
  active_capacity_validator : ∀ v ∈ e.active_capacity_validator, v.Fits
  failed_proof_counts : FitsUsize e.failed_proof_counts.toList.length

/-- Two states that agree in every hashed field. -/
structure SameHashedFields (e e' : AppStateEnvelope) : Prop where
  block_height : e.block_height = e'.block_height
  current_epoch : e.current_epoch = e'.current_epoch
  state_trie_root : e.state_trie.root_hash = e'.state_trie.root_hash
  validators : e.validators = e'.validators
  active_validators : e.active_validators = e'.active_validators
  capacity_validators : e.capacity_validators = e'.capacity_validators
  active_capacity_validator : e.active_capacity_validator = e'.active_capacity_validator
  failed_proof_counts : e.failed_proof_counts = e'.failed_proof_counts

/-- Two states whose validator lists have the same lengths, and that both have a selected
validator or both have none: what the hash does not write. -/
structure SameFraming (e e' : AppStateEnvelope) : Prop where
  validators : e.validators.length = e'.validators.length
  active_validators : e.active_validators.length = e'.active_validators.length
  capacity_validators : e.capacity_validators.length = e'.capacity_validators.length
  active_capacity_validator :
    e.active_capacity_validator.isSome = e'.active_capacity_validator.isSome

theorem SameHashedFields.framing {e e' : AppStateEnvelope} (h : SameHashedFields e e') :
    SameFraming e e' where
  validators := by rw [h.validators]
  active_validators := by rw [h.active_validators]
  capacity_validators := by rw [h.capacity_validators]
  active_capacity_validator := by rw [h.active_capacity_validator]

/-- With the same framing the bytes are read back field by field. -/
theorem SameFraming.fields_of_hash_eq {e e' : AppStateEnvelope} (hf : SameFraming e e')
    (he : e.Fits) (he' : e'.Fits) (h : e.hash = e'.hash) : SameHashedFields e e' := by
  unfold AppStateEnvelope.hash at h
  obtain ⟨h1, h⟩ := I64.hash_delimited _ _ _ _ trivial trivial h
  obtain ⟨h2, h⟩ := I64.hash_delimited _ _ _ _ trivial trivial h
  obtain ⟨h3, h⟩ := Bytes32.hash_delimited _ _ _ _ trivial trivial h
  obtain ⟨h4, h⟩ := ValidatorInfo.hash_delimited.items he.validators he'.validators
    hf.validators h
  obtain ⟨h5, h⟩ := ValidatorInfo.hash_delimited.items he.active_validators
    he'.active_validators hf.active_validators h
  obtain ⟨h6, h⟩ := CapacityValidatorInfo.hash_delimited.items (fun _ _ => trivial)
    (fun _ _ => trivial) hf.capacity_validators h
  -- the selected validator has no tag, but both states have one or neither does
  have h7 : e.active_capacity_validator = e'.active_capacity_validator ∧
      countsHash e.failed_proof_counts = countsHash e'.failed_proof_counts := by
    have hs := hf.active_capacity_validator
    have hg := he.active_capacity_validator
    have hg' := he'.active_capacity_validator
    revert h hs hg hg'
    rcases e.active_capacity_validator with _ | v <;> rcases e'.active_capacity_validator with _ | v'
    · exact fun h _ _ _ => ⟨rfl, h⟩
    · exact fun _ hs => absurd hs (by simp)
    · exact fun _ hs => absurd hs (by simp)
    · intro h _ hg hg'
      obtain ⟨hv, hr⟩ := ActiveCapacityValidator.hash_delimited _ _ _ _ (hg v rfl) (hg' v' rfl) h
      exact ⟨by rw [hv], hr⟩
  have h8 := countsHash_delimited _ _ [] [] he.failed_proof_counts he'.failed_proof_counts
    (by rw [h7.2])
  exact ⟨h1, h2, h3, h4, h5, h6, h7.1, h8.1⟩

/-- Two states that feed the same bytes to the hasher agree in every hashed field exactly when
their validator lists are cut at the same places. -/
theorem same_bytes_mean_same_fields (e e' : AppStateEnvelope) (he : e.Fits) (he' : e'.Fits)
    (h : e.hash = e'.hash) : SameHashedFields e e' ↔ SameFraming e e' := by
  constructor
  · intro hfields
    exact hfields.framing
  · intro hframing
    exact hframing.fields_of_hash_eq he he' h

def someValidator : ValidatorInfo := ⟨7, ⟨5000000, by decide⟩, List.replicate 32 1⟩

/-- A state with one validator that is not active yet. -/
def listedState : AppStateEnvelope := { AppStateEnvelope.default with validators := [someValidator] }

/-- A state with one active validator that is no longer listed. -/
def activeState : AppStateEnvelope :=
  { AppStateEnvelope.default with active_validators := [someValidator] }

theorem listedState_fits : listedState.Fits where
  validators := by
    intro v hv
    rw [List.mem_singleton.mp hv]
    unfold ValidatorInfo.Fits FitsUsize
    decide
  active_validators := by simp [listedState, AppStateEnvelope.default]
  active_capacity_validator := by simp [listedState, AppStateEnvelope.default]
  failed_proof_counts := by unfold FitsUsize; decide

/-- The same state with an epoch in its index, which is not hashed. -/
def indexedState : AppStateEnvelope :=
  { listedState with epoch_records_index := listedState.epoch_records_index.insert I64.zero }

theorem same_bytes_mean_same_fields_on_indexedState :
    listedState.hash = indexedState.hash ∧
      SameHashedFields listedState indexedState := by
  have hfits : indexedState.Fits :=
    ⟨listedState_fits.1, listedState_fits.2, listedState_fits.3, listedState_fits.4⟩
  refine ⟨rfl, (same_bytes_mean_same_fields listedState indexedState listedState_fits hfits
    rfl).mpr ?_⟩
  exact ⟨rfl, rfl, rfl, rfl⟩

/-- Moving the validator from one list to the next leaves the app hash as it was. -/
theorem listedState_hashes_like_activeState :
    listedState.hash = activeState.hash ∧
      listedState.calculate_app_hash Outside.toy = activeState.calculate_app_hash Outside.toy ∧
      ¬ SameHashedFields listedState activeState := by
  have hbytes : listedState.hash = activeState.hash := rfl
  refine ⟨hbytes, congrArg Outside.toy.sha256 hbytes, fun h => ?_⟩
  have hlists : [someValidator] = [] := h.validators
  cases hlists

end eld_chain
