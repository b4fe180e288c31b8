-- The two grammars of a payload side by side: what the structural checks
-- want to see of a declared type, and what its decoder takes. A payload that
-- passed the checks misses its own form only where the two differ: fields
-- that stand twice, amounts written as numbers, short hex, or fields that a
-- form denies.
import EldChain.AcceptedForms
import EldChain.WireForms

open json

namespace eld_chain

variable (s : SerdeJson)

/-! ## Reading a value and reading its tree -/

/-- A kind of value that reads the same from a tree and from its `Value`. -/
def Leaf {α : Type} (read : Json → Option α) : Prop :=
  ∀ j v, s.value j = some v → read v = read j

theorem SerdeJson.value_int {n : Int} {v : Json} (h : s.value (.int n) = some v) :
    (isMachineInt n = true ∧ v = .int n) ∨
      (isMachineInt n = false ∧ ∃ literal, v = .raw literal) := by
  rw [SerdeJson.value] at h
  split at h
  · rename_i hn
    cases h
    exact Or.inl ⟨hn, rfl⟩
  · rename_i hn
    obtain ⟨literal, _, rfl⟩ := Option.map_eq_some_iff.mp h
    exact Or.inr ⟨by simpa using hn, literal, rfl⟩

theorem SerdeJson.value_raw {l : Text} {v : Json} (h : s.value (.raw l) = some v) :
    ∃ literal, v = .raw literal := by
  rw [SerdeJson.value] at h
  obtain ⟨literal, _, rfl⟩ := Option.map_eq_some_iff.mp h
  exact ⟨literal, rfl⟩

theorem SerdeJson.value_arr {items : List Json} {v : Json} (h : s.value (.arr items) = some v) :
    ∃ vs, s.valueItems items = some vs ∧ v = .arr vs := by
  rw [SerdeJson.value] at h
  obtain ⟨vs, hvs, rfl⟩ := Option.map_eq_some_iff.mp h
  exact ⟨vs, hvs, rfl⟩

theorem SerdeJson.value_obj {members : Members} {v : Json} (h : s.value (.obj members) = some v) :
    ∃ out, s.valueMembers [] members = some out ∧ v = .obj out := by
  rw [SerdeJson.value] at h
  obtain ⟨out, hout, rfl⟩ := Option.map_eq_some_iff.mp h
  exact ⟨out, hout, rfl⟩

/-- Strings, booleans and null are their own values. -/
theorem SerdeJson.value_plain {j v : Json} (h : s.value j = some v)
    (hj : (∃ t, j = .str t) ∨ (∃ b, j = .bool b) ∨ j = .null) : v = j := by
  rcases hj with ⟨t, rfl⟩ | ⟨b, rfl⟩ | rfl <;> simp [SerdeJson.value] at h <;> exact h.symm

/-- A kind that no array, no object and no integer beyond a machine word has is a leaf. -/
theorem leaf_of_small {α : Type} {read : Json → Option α}
    (hbig : ∀ n, isMachineInt n = false → read (.int n) = none)
    (hraw : ∀ l, read (.raw l) = none) (harr : ∀ l, read (.arr l) = none)
    (hobj : ∀ m, read (.obj m) = none) : Leaf s read := by
  intro j v h
  cases j with
  | null => rw [s.value_plain h (Or.inr (Or.inr rfl))]
  | bool b => rw [s.value_plain h (Or.inr (Or.inl ⟨b, rfl⟩))]
  | str t => rw [s.value_plain h (Or.inl ⟨t, rfl⟩)]
  | int n =>
    rcases s.value_int h with ⟨_, rfl⟩ | ⟨hn, l, rfl⟩
    · rfl
    · rw [hbig n hn, hraw]
  | raw l =>
    obtain ⟨l', rfl⟩ := s.value_raw h
    rw [hraw, hraw]
  | arr items =>
    obtain ⟨vs, _, rfl⟩ := s.value_arr h
    rw [harr, harr]
  | obj members =>
    obtain ⟨out, _, rfl⟩ := s.value_obj h
    rw [hobj, hobj]

theorem leaf_asStr : Leaf s asStr :=
  leaf_of_small s (fun _ _ => rfl) (fun _ => rfl) (fun _ => rfl) (fun _ => rfl)

theorem leaf_asBool : Leaf s asBool :=
  leaf_of_small s (fun _ _ => rfl) (fun _ => rfl) (fun _ => rfl) (fun _ => rfl)

theorem leaf_asAddress : Leaf s asAddress :=
  leaf_of_small s (fun _ _ => rfl) (fun _ => rfl) (fun _ => rfl) (fun _ => rfl)

theorem not_machineInt {n : Int} (h : isMachineInt n = false) : n < -2 ^ 63 ∨ 2 ^ 64 ≤ n := by
  simp only [isMachineInt, Bool.and_eq_false_iff, decide_eq_false_iff_not] at h
  omega

theorem leaf_asUnsigned : Leaf s (asUnsigned 64) := by
  apply leaf_of_small s _ (fun _ => rfl) (fun _ => rfl) (fun _ => rfl)
  intro n hn
  have hrange := not_machineInt hn
  rw [asUnsigned, if_neg (by omega)]

theorem leaf_asI64 : Leaf s asI64 := by
  apply leaf_of_small s _ (fun _ => rfl) (fun _ => rfl) (fun _ => rfl)
  intro n hn
  have hrange := not_machineInt hn
  rw [asI64, dif_neg (by omega)]

theorem leaf_asAmountOrNumber : Leaf s asAmountOrNumber := by
  apply leaf_of_small s _ (fun _ => rfl) (fun _ => rfl) (fun _ => rfl)
  intro n hn
  have hrange := not_machineInt hn
  rw [asAmountOrNumber, asUnsigned, if_neg (by omega)]
  intro t ht
  cases ht

/-! ## Fields that stand once -/

/-- Each of the fields stands once. -/
def Once (members : Members) (names : List String) : Prop :=
  ∀ name ∈ names, ∃ j, entries members (key name) = [j]

theorem once_cons {members : Members} {name : String} {rest : List String} :
    Once members (name :: rest) ↔ (∃ j, entries members (key name) = [j]) ∧ Once members rest := by
  unfold Once
  rw [List.forall_mem_cons]

theorem once_nil {members : Members} : Once members [] := by
  intro name h
  cases h

/-- The field, if it is there, stands once. -/
def NotTwice (members : Members) (name : String) : Prop :=
  entries members (key name) = [] ∨ ∃ j, entries members (key name) = [j]

/-- The field is a string. -/
def TextAt (members : Members) (name : String) : Prop :=
  ∃ t, entries members (key name) = [.str t]

/-- The string at a field has so many characters. -/
def LengthAt (members : Members) (name : String) (n : Nat) : Prop :=
  ∀ t, entries members (key name) = [.str t] → t.length = n

theorem entries_innerMembers (members : Members) {name : String} (h : name ≠ "type") :
    entries (innerMembers members) (key name) = entries members (key name) := by
  unfold innerMembers
  induction members with
  | nil => rfl
  | cons m rest ih =>
    obtain ⟨k, j⟩ := m
    by_cases hk : k = key "type"
    · have hne : k ≠ key name := by
        rw [hk, ne_eq, key_inj]
        exact fun heq => h heq.symm
      rw [List.filter_cons, if_neg (by simp [hk]), ih, entries_cons, if_neg hne]
    · rw [List.filter_cons, if_pos (by simp [hk]), entries_cons, entries_cons, ih]

variable {s} {members out : Members}

/-- The value of a field that stands once, and how it reads. -/
theorem value_read {α : Type} {read : Json → Option α} (hread : Leaf s read)
    (hout : s.valueMembers [] members = some out) {name : String} {j : Json}
    (hj : entries (innerMembers members) (key name) = [j]) (hname : name ≠ "type") :
    ∃ v, get out (key name) = some v ∧ s.value j = some v ∧ read v = read j := by
  rw [entries_innerMembers members hname] at hj
  obtain ⟨v, hget, hv⟩ := s.value_of_once hout hj
  exact ⟨v, hget, hv, hread j v hv⟩

/-- A field that stands once reads the same to the checks and to the decoder. -/
theorem required_eq_found {α : Type} {read : Json → Option α} (hread : Leaf s read)
    (hout : s.valueMembers [] members = some out) {name : String}
    (honce : ∃ j, entries (innerMembers members) (key name) = [j]) (hname : name ≠ "type") :
    required read (innerMembers members) name = found read out name := by
  obtain ⟨j, hj⟩ := honce
  obtain ⟨v, hget, _, heq⟩ := value_read hread hout hj hname
  rw [required, hj, found, hget, Option.bind_some, heq]

theorem once_of_required {α : Type} {read : Json → Option α} {name : String} {a : α}
    (h : required read members name = some a) : ∃ j, entries members (key name) = [j] := by
  obtain ⟨j, hj, _⟩ := required_eq_some.mp h
  exact ⟨j, hj⟩

theorem notTwice_of_defaulted {α : Type} {read : Json → Option α} {default a : α} {name : String}
    (h : defaulted default read members name = some a) : NotTwice members name := by
  rcases defaulted_eq_some.mp h with ⟨hnil, _⟩ | ⟨j, hj, _⟩
  · exact Or.inl hnil
  · exact Or.inr ⟨j, hj⟩

/-! ## The declared form -/

/-- What a payload that passed the checks of a type still has to have, to be read as that
type. -/
def OwnForm (members : Members) : TxType → Prop
  | .Transfer => Once members ["sender", "recipient", "amount"] ∧ TextAt members "amount"
  | .Unstake => Once members ["sender", "amount"] ∧ TextAt members "amount" ∧
      onlyFields ["sender", "amount"] members = true
  | .Stake => Once members ["sender", "amount"] ∧ TextAt members "amount" ∧
      NotTwice members "public_key" ∧ LengthAt members "public_key" 64
  | .VerifiedProof => Once members ["sender", "capacity_provider", "challenge_id", "block_height",
      "verified_at_block", "verified_at_timestamp", "proofs", "generated_at", "provider_pubkey",
      "provider_signature"] ∧ NotTwice members "failed" ∧
      ∀ items, entries members (key "proofs") = [.arr items] →
        ∀ j ∈ items, (ChunkProof.decode j).isSome = true
  | .RegisterCapacity =>
      Once members ["sender", "capacity_bytes", "merkle_root", "seed", "chunk_count"] ∧
      LengthAt members "merkle_root" 64 ∧ LengthAt members "seed" 64 ∧
      ∀ n, entries members (key "chunk_count") = [.int n] → n < 2 ^ 32
  | .UnregisterCapacity => Once members ["sender", "unregister"]
  | .UpdateCapacityMerkleRoot => Once members ["sender", "merkle_root"] ∧
      LengthAt members "merkle_root" 64
  | .PostMessage => Fits members .PostMessage
  | .AddNamespace => Once members ["sender", "namespace_slug", "registration_fee"] ∧
      TextAt members "registration_fee" ∧
      onlyFields ["sender", "namespace_slug", "registration_fee"] members = true

theorem textAt_of_amount {name : String} {n : Nat} (h : required asAmount members name = some n) :
    TextAt members name := by
  obtain ⟨j, hj, hread⟩ := required_eq_some.mp h
  cases j with
  | str t => exact ⟨t, hj⟩
  | _ => simp [asAmount] at hread

/-- An amount that is a string reads the same to the checks and to the decoder. -/
theorem required_amount (hout : s.valueMembers [] members = some out) {name : String} {n : Nat}
    (htext : TextAt (innerMembers members) name) (hname : name ≠ "type")
    (hfound : found asAmountOrNumber out name = some n) :
    required asAmount (innerMembers members) name = some n := by
  obtain ⟨t, ht⟩ := htext
  rw [← required_eq_found (leaf_asAmountOrNumber s) hout ⟨_, ht⟩ hname] at hfound
  rw [required, ht] at hfound ⊢
  exact hfound

theorem transfer_own_form (hout : s.valueMembers [] members = some out)
    (h : Shows out .Transfer) :
    Fits (innerMembers members) .Transfer ↔ OwnForm (innerMembers members) .Transfer := by
  constructor
  · rintro ⟨a, b, n, ha, hb, hn, _⟩
    refine ⟨?_, textAt_of_amount hn⟩
    simp only [once_cons, once_nil, and_true]
    exact ⟨once_of_required ha, once_of_required hb, once_of_required hn⟩
  · rintro ⟨honce, htext⟩
    simp only [once_cons] at honce
    obtain ⟨a, b, n, ha, hb, hn, hrest⟩ := h
    refine ⟨a, b, n, ?_, ?_, required_amount hout htext (by decide) hn, hrest⟩
    · rw [required_eq_found (leaf_asAddress s) hout honce.1 (by decide), ha]
    · rw [required_eq_found (leaf_asAddress s) hout honce.2.1 (by decide), hb]

theorem unstake_own_form (hout : s.valueMembers [] members = some out)
    (h : Shows out .Unstake) :
    Fits (innerMembers members) .Unstake ↔ OwnForm (innerMembers members) .Unstake := by
  constructor
  · rintro ⟨honly, a, n, ha, hn, _⟩
    refine ⟨?_, textAt_of_amount hn, honly⟩
    simp only [once_cons, once_nil, and_true]
    exact ⟨once_of_required ha, once_of_required hn⟩
  · rintro ⟨honce, htext, honly⟩
    simp only [once_cons] at honce
    obtain ⟨a, n, ha, hn, hrest⟩ := h
    refine ⟨honly, a, n, ?_, required_amount hout htext (by decide) hn, hrest⟩
    rw [required_eq_found (leaf_asAddress s) hout honce.1 (by decide), ha]

theorem asStr_eq_some {j : Json} {t : Text} (h : asStr j = some t) : j = .str t := by
  cases j with
  | str t' =>
    cases h
    rfl
  | _ => simp [asStr] at h

theorem stake_own_form (hout : s.valueMembers [] members = some out) (h : Shows out .Stake) :
    Fits (innerMembers members) .Stake ↔ OwnForm (innerMembers members) .Stake := by
  constructor
  · rintro ⟨a, n, k, ha, hn, hk, _, _, hkey⟩
    refine ⟨?_, textAt_of_amount hn, notTwice_of_defaulted hk, ?_⟩
    · simp only [once_cons, once_nil, and_true]
      exact ⟨once_of_required ha, once_of_required hn⟩
    · intro t ht
      rw [defaulted, ht] at hk
      cases hk
      exact (hkey.hex t rfl).1
  · rintro ⟨honce, htext, htwice, hlength⟩
    simp only [once_cons] at honce
    obtain ⟨a, n, ha, hn, hpos, hle, hkey⟩ := h
    have hsender : required asAddress (innerMembers members) "sender" = some a := by
      rw [required_eq_found (leaf_asAddress s) hout honce.1 (by decide), ha]
    have hamount := required_amount hout htext (by decide) hn
    rcases htwice with hnil | ⟨j, hj⟩
    · refine ⟨a, n, none, hsender, hamount, ?_, hpos, hle, ?_⟩
      · rw [defaulted, hnil]
      · intro pk hpk
        cases hpk
    · obtain ⟨v, hget, _, hread⟩ := value_read (leaf_asStr s) hout hj (by decide)
      obtain ⟨t, ht, hhex⟩ := hkey v hget
      rw [hread] at ht
      rw [asStr_eq_some ht] at hj
      refine ⟨a, n, some t, hsender, hamount, ?_, hpos, hle, ?_⟩
      · rw [defaulted, hj]
        rfl
      · intro pk hpk
        cases hpk
        exact ⟨by rw [utf8Len_of_hex hhex.hex, hlength t hj], hhex.hex⟩

/-- Hex of the full length is what the decoder of 32 bytes takes. -/
theorem required_hex32 (hout : s.valueMembers [] members = some out) {name : String} {t : Text}
    (honce : ∃ j, entries (innerMembers members) (key name) = [j]) (hname : name ≠ "type")
    (hfound : found asStr out name = some t) (hhex : HexUpTo 32 t)
    (hlength : LengthAt (innerMembers members) name 64) :
    ∃ b, required asHex32 (innerMembers members) name = some b := by
  rw [← required_eq_found (leaf_asStr s) hout honce hname] at hfound
  obtain ⟨j, hj, hread⟩ := required_eq_some.mp hfound
  rw [asStr_eq_some hread] at hj
  have hnumber := hexNumber_isSome.mpr hhex.hex
  obtain ⟨v, hv⟩ := Option.isSome_iff_exists.mp hnumber
  have his : isHexOf 32 t = true := by
    rw [isHexOf, hlength t hj, List.all_eq_true.mpr hhex.hex]
    rfl
  refine ⟨BitVec.ofNat 256 v, ?_⟩
  rw [required, hj]
  simp only [asHex32, his, if_true, hv, Option.map_some]

theorem length_of_hex32 {name : String} {b : Bytes32}
    (h : required asHex32 members name = some b) : LengthAt members name 64 := by
  intro t ht
  rw [required, ht] at h
  simp only [asHex32] at h
  split at h
  · rename_i his
    rw [isHexOf, Bool.and_eq_true, beq_iff_eq] at his
    exact his.1
  · cases h

theorem asUnsigned_eq_some {bits n : Nat} {j : Json} (h : asUnsigned bits j = some n) :
    j = .int n ∧ n < 2 ^ bits := by
  refine ⟨?_, asUnsigned_lt h⟩
  cases j with
  | int i =>
    simp only [asUnsigned] at h
    split at h
    · rename_i hi
      cases h
      rw [Int.toNat_of_nonneg hi.1]
    · cases h
  | _ => simp [asUnsigned] at h

/-- A number of 64 bits reads the same to the checks and to the decoder. -/
theorem required_u64 (hout : s.valueMembers [] members = some out) {name : String} {n : Nat}
    (honce : ∃ j, entries (innerMembers members) (key name) = [j]) (hname : name ≠ "type")
    (hfound : found (asUnsigned 64) out name = some n) :
    required asUInt64 (innerMembers members) name = some (UInt64.ofNat n) ∧ n < 2 ^ 64 := by
  rw [← required_eq_found (leaf_asUnsigned s) hout honce hname] at hfound
  obtain ⟨j, hj, hread⟩ := required_eq_some.mp hfound
  refine ⟨?_, asUnsigned_lt hread⟩
  rw [required, hj]
  simp only [asUInt64, hread, Option.map_some]

/-- A number that the checks read in 64 bits reads in 32 when it is small enough. -/
theorem required_u32 (hout : s.valueMembers [] members = some out) {name : String} {n : Nat}
    (honce : ∃ j, entries (innerMembers members) (key name) = [j]) (hname : name ≠ "type")
    (hfound : found (asUnsigned 64) out name = some n)
    (hsmall : ∀ i : Int, entries (innerMembers members) (key name) = [.int i] → i < 2 ^ 32) :
    required asUInt32 (innerMembers members) name = some (UInt32.ofNat n) := by
  rw [← required_eq_found (leaf_asUnsigned s) hout honce hname] at hfound
  obtain ⟨j, hj, hread⟩ := required_eq_some.mp hfound
  obtain ⟨rfl, _⟩ := asUnsigned_eq_some hread
  have hlt := hsmall n hj
  have hread32 : asUnsigned 32 (.int n) = some n := asUnsigned_int (by omega)
  rw [required, hj]
  simp only [asUInt32, hread32, Option.map_some]

theorem register_capacity_own_form (hout : s.valueMembers [] members = some out)
    (h : Shows out .RegisterCapacity) :
    Fits (innerMembers members) .RegisterCapacity ↔
      OwnForm (innerMembers members) .RegisterCapacity := by
  constructor
  · rintro ⟨a, b, r, d, n, ha, hb, hr, hd, hn, _⟩
    refine ⟨?_, length_of_hex32 hr, length_of_hex32 hd, ?_⟩
    · simp only [once_cons, once_nil, and_true]
      exact ⟨once_of_required ha, once_of_required hb, once_of_required hr, once_of_required hd,
        once_of_required hn⟩
    · intro i hi
      rw [required, hi] at hn
      obtain ⟨m, hm, _⟩ := Option.map_eq_some_iff.mp hn
      obtain ⟨heq, hlt⟩ := asUnsigned_eq_some hm
      cases heq
      omega
  · rintro ⟨honce, hroot, hseed, hcount⟩
    simp only [once_cons] at honce
    obtain ⟨hsender, hcapacity, hmerkle, hseedonce, hchunks, _⟩ := honce
    obtain ⟨a, b, r, d, n, ha, hb, hpos, hr, hrhex, hd, hdhex, hn, _⟩ := h
    obtain ⟨root, hroot⟩ := required_hex32 hout hmerkle (by decide) hr hrhex hroot
    obtain ⟨seed, hseed⟩ := required_hex32 hout hseedonce (by decide) hd hdhex hseed
    rw [← required_eq_found (leaf_asAddress s) hout hsender (by decide)] at ha
    obtain ⟨hcapacity, hlt⟩ := required_u64 hout hcapacity (by decide) hb
    refine ⟨a, UInt64.ofNat b, root, seed, UInt32.ofNat n, ha, hcapacity, hroot, hseed,
      required_u32 hout hchunks (by decide) hn hcount, ?_⟩
    intro hzero
    have hnat := congrArg UInt64.toNat hzero
    rw [UInt64.toNat_ofNat_of_lt' hlt] at hnat
    simp at hnat
    omega

theorem unregister_capacity_own_form (hout : s.valueMembers [] members = some out)
    (h : Shows out .UnregisterCapacity) :
    Fits (innerMembers members) .UnregisterCapacity ↔
      OwnForm (innerMembers members) .UnregisterCapacity := by
  constructor
  · rintro ⟨a, b, ha, hb, _⟩
    show Once _ _
    simp only [once_cons, once_nil, and_true]
    exact ⟨once_of_required ha, once_of_required hb⟩
  · intro honce
    change Once _ _ at honce
    simp only [once_cons] at honce
    obtain ⟨a, ha, hb⟩ := h
    refine ⟨a, true, ?_, ?_, rfl⟩
    · rw [required_eq_found (leaf_asAddress s) hout honce.1 (by decide), ha]
    · rw [required_eq_found (leaf_asBool s) hout honce.2.1 (by decide), hb]

theorem update_capacity_merkle_root_own_form (hout : s.valueMembers [] members = some out)
    (h : Shows out .UpdateCapacityMerkleRoot) :
    Fits (innerMembers members) .UpdateCapacityMerkleRoot ↔
      OwnForm (innerMembers members) .UpdateCapacityMerkleRoot := by
  constructor
  · rintro ⟨a, r, ha, hr⟩
    refine ⟨?_, length_of_hex32 hr⟩
    simp only [once_cons, once_nil, and_true]
    exact ⟨once_of_required ha, once_of_required hr⟩
  · rintro ⟨honce, hlength⟩
    simp only [once_cons] at honce
    obtain ⟨a, r, ha, hr, hhex⟩ := h
    obtain ⟨root, hroot⟩ := required_hex32 hout honce.2.1 (by decide) hr hhex hlength
    refine ⟨a, root, ?_, hroot⟩
    rw [required_eq_found (leaf_asAddress s) hout honce.1 (by decide), ha]

theorem SerdeJson.value_eq_arr {j : Json} {vs : List Json} (h : s.value j = some (.arr vs)) :
    ∃ items, j = .arr items ∧ s.valueItems items = some vs := by
  cases j with
  | arr items =>
    obtain ⟨vs', hvs, heq⟩ := s.value_arr h
    cases heq
    exact ⟨items, rfl, hvs⟩
  | obj members =>
    obtain ⟨out, _, heq⟩ := s.value_obj h
    cases heq
  | int n => rcases s.value_int h with ⟨_, heq⟩ | ⟨_, l, heq⟩ <;> cases heq
  | raw l =>
    obtain ⟨l', heq⟩ := s.value_raw h
    cases heq
  | _ => simp [SerdeJson.value] at h

theorem SerdeJson.value_eq_obj {j : Json} {out : Members} (h : s.value j = some (.obj out)) :
    ∃ members, j = .obj members ∧ s.valueMembers [] members = some out := by
  cases j with
  | obj members =>
    obtain ⟨out', hout, heq⟩ := s.value_obj h
    cases heq
    exact ⟨members, rfl, hout⟩
  | arr items =>
    obtain ⟨vs, _, heq⟩ := s.value_arr h
    cases heq
  | int n => rcases s.value_int h with ⟨_, heq⟩ | ⟨_, l, heq⟩ <;> cases heq
  | raw l =>
    obtain ⟨l', heq⟩ := s.value_raw h
    cases heq
  | _ => simp [SerdeJson.value] at h

/-- A list reads when each of its items does. -/
theorem mapM_isSome_iff {α : Type} {read : Json → Option α} {items : List Json} :
    (∃ l, items.mapM read = some l) ↔ ∀ j ∈ items, (read j).isSome = true := by
  induction items with
  | nil => simp
  | cons j rest ih =>
    rw [List.forall_mem_cons, ← ih, List.mapM_cons]
    cases hj : read j with
    | none => simp
    | some a =>
      cases hrest : rest.mapM read with
      | none => simp
      | some l => simp

theorem mapM_eq_nil {α : Type} {read : Json → Option α} {items : List Json}
    (h : items.mapM read = some []) : items = [] := by
  cases items with
  | nil => rfl
  | cons j rest =>
    rw [List.mapM_cons] at h
    cases hj : read j with
    | none => simp [hj] at h
    | some a =>
      cases hrest : rest.mapM read with
      | none => simp [hj, hrest] at h
      | some l => simp [hj, hrest] at h

theorem inTimestampRange_ofNat {t : Nat} (hlt : t < 2 ^ 64)
    (h : MIN_TIMESTAMP.toNat ≤ t ∧ t ≤ MAX_TIMESTAMP.toNat) : inTimestampRange (UInt64.ofNat t) := by
  unfold inTimestampRange
  rw [UInt64.le_iff_toNat_le, UInt64.le_iff_toNat_le, UInt64.toNat_ofNat_of_lt' hlt]
  exact h

/-- The proofs that the checks saw as a list that is not empty. -/
theorem required_proofs (hout : s.valueMembers [] members = some out) {items : List Json}
    (honce : ∃ j, entries (innerMembers members) (key "proofs") = [j])
    (hfound : found asArray out "proofs" = some items) (hne : items ≠ [])
    (hproofs : ∀ l, entries (innerMembers members) (key "proofs") = [.arr l] →
      ∀ j ∈ l, (ChunkProof.decode j).isSome = true) :
    ∃ proofs, required (asSeq ChunkProof.decode) (innerMembers members) "proofs" = some proofs ∧
      proofs ≠ [] := by
  obtain ⟨j, hj⟩ := honce
  obtain ⟨v, hget, hv, _⟩ := value_read (leaf_asStr s) hout hj (by decide)
  rw [found, hget, Option.bind_some] at hfound
  cases v with
  | arr vs =>
    cases hfound
    obtain ⟨l, rfl, hl⟩ := SerdeJson.value_eq_arr hv
    obtain ⟨proofs, hread⟩ := mapM_isSome_iff.mpr (hproofs l hj)
    refine ⟨proofs, by rw [required, hj]; exact hread, ?_⟩
    rintro rfl
    rw [mapM_eq_nil hread, SerdeJson.valueItems] at hl
    cases hl
    exact hne rfl
  | _ => simp [asArray] at hfound

theorem verified_proof_own_form (hout : s.valueMembers [] members = some out)
    (h : Shows out .VerifiedProof) :
    Fits (innerMembers members) .VerifiedProof ↔ OwnForm (innerMembers members) .VerifiedProof := by
  constructor
  · rintro ⟨u, hr, _⟩
    refine ⟨?_, notTwice_of_defaulted hr.failed, ?_⟩
    · simp only [once_cons, once_nil, and_true]
      exact ⟨once_of_required hr.sender, once_of_required hr.capacity_provider,
        once_of_required hr.challenge_id, once_of_required hr.block_height,
        once_of_required hr.verified_at_block, once_of_required hr.verified_at_timestamp,
        once_of_required hr.proofs, once_of_required hr.generated_at,
        once_of_required hr.provider_pubkey, once_of_required hr.provider_signature⟩
    · intro items hitems
      have hproofs := hr.proofs
      rw [required, hitems] at hproofs
      exact mapM_isSome_iff.mp ⟨_, hproofs⟩
  · rintro ⟨honce, htwice, hproofs⟩
    simp only [once_cons] at honce
    obtain ⟨o1, o2, o3, o4, o5, o6, o7, o8, o9, o10, _⟩ := honce
    obtain ⟨a, b, c, d, e, f, items, g, j, k, ha, hb, hc, hsafe, hd, hd0, he, hde, hf, hfr, hitems,
      hne, hg, hgr, hj, hjhex, hk, hkhex, hfailed⟩ := h
    obtain ⟨proofs, hproofs, hproofsne⟩ := required_proofs hout o7 hitems hne hproofs
    obtain ⟨hf, hflt⟩ := required_u64 hout o6 (by decide) hf
    obtain ⟨hg, hglt⟩ := required_u64 hout o8 (by decide) hg
    have hflag : ∃ flag, defaulted false asBool (innerMembers members) "failed" = some flag := by
      rcases htwice with hnil | ⟨v, hv⟩
      · exact ⟨false, by rw [defaulted, hnil]⟩
      · obtain ⟨w, hget, _, hread⟩ := value_read (leaf_asBool s) hout hv (by decide)
        obtain ⟨flag, hflag⟩ := hfailed w hget
        exact ⟨flag, by rw [defaulted, hv]; exact hread.symm.trans hflag⟩
    obtain ⟨flag, hflag⟩ := hflag
    refine ⟨⟨a, b, c, d, e, UInt64.ofNat f, proofs, UInt64.ofNat g, j, k, flag⟩, ?_, ?_⟩
    · refine ⟨?_, ?_, ?_, ?_, ?_, hf, hproofs, hg, ?_, ?_, hflag⟩
      · rw [required_eq_found (leaf_asAddress s) hout o1 (by decide), ha]
      · rw [required_eq_found (leaf_asAddress s) hout o2 (by decide), hb]
      · rw [required_eq_found (leaf_asStr s) hout o3 (by decide), hc]
      · rw [required_eq_found (leaf_asI64 s) hout o4 (by decide), hd]
      · rw [required_eq_found (leaf_asI64 s) hout o5 (by decide), he]
      · rw [required_eq_found (leaf_asStr s) hout o9 (by decide), hj]
      · rw [required_eq_found (leaf_asStr s) hout o10 (by decide), hk]
    · exact ⟨hsafe, hd0, hde, inTimestampRange_ofNat hflt hfr, hproofsne,
        inTimestampRange_ofNat hglt hgr, hjhex.nonempty, hkhex.nonempty⟩

theorem add_namespace_own_form (hout : s.valueMembers [] members = some out)
    (h : Shows out .AddNamespace) :
    Fits (innerMembers members) .AddNamespace ↔ OwnForm (innerMembers members) .AddNamespace := by
  constructor
  · rintro ⟨honly, a, slug, n, ha, hslug, hn, _⟩
    refine ⟨?_, textAt_of_amount hn, honly⟩
    simp only [once_cons, once_nil, and_true]
    exact ⟨once_of_required ha, once_of_required hslug, once_of_required hn⟩
  · rintro ⟨honce, htext, honly⟩
    simp only [once_cons] at honce
    obtain ⟨a, slug, n, ha, hslug, _, hn, _, hnew⟩ := h
    have hvalid : (AddNamespaceTx.new a slug n).toOption.isSome = true := by
      cases hresult : AddNamespaceTx.new a slug n with
      | error e =>
        rw [hresult] at hnew
        cases hnew
      | ok tx => rfl
    refine ⟨honly, a, slug, n, ?_, ?_, required_amount hout htext (by decide) hn,
      (AddNamespaceTx.new_isSome a slug n).mp hvalid⟩
    · rw [required_eq_found (leaf_asAddress s) hout honce.1 (by decide), ha]
    · rw [required_eq_found (leaf_asStr s) hout honce.2.1 (by decide), hslug]

/-- A payload that passed the checks of a type fits the type exactly when it has the type's
own form. -/
theorem fits_iff_own_form (hout : s.valueMembers [] members = some out) (t : TxType)
    (h : Shows out t) : Fits (innerMembers members) t ↔ OwnForm (innerMembers members) t := by
  cases t with
  | Transfer => exact transfer_own_form hout h
  | Unstake => exact unstake_own_form hout h
  | Stake => exact stake_own_form hout h
  | VerifiedProof => exact verified_proof_own_form hout h
  | RegisterCapacity => exact register_capacity_own_form hout h
  | UnregisterCapacity => exact unregister_capacity_own_form hout h
  | UpdateCapacityMerkleRoot => exact update_capacity_merkle_root_own_form hout h
  | PostMessage => exact Iff.rfl
  | AddNamespace => exact add_namespace_own_form hout h

end eld_chain
