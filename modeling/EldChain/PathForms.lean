-- The texts of the chain's own paths. Every one of them parses to its
-- parts, passes each check of the storage, and is given the key that the
-- model of the database computes from the path itself.
import EldChain.PathLanguage

open Std

namespace eld_chain

variable {o : Outside} {D : Type}

/-! ## Hex -/

theorem hexDigits_eq_hex_encode (n v : Nat) : hexDigits (2 * n) v = hex_encode (beBytes n v) := by
  induction n generalizing v with
  | zero => rfl
  | succ n ih =>
    have hpair : hexDigits (2 * (n + 1)) v =
        hexDigits (2 * n) (v / 256) ++ hexDigits 2 (v % 256) := by
      change (hexDigits (2 * n) (v / 16 / 16) ++ [hexChar (v / 16 % 16)]) ++ [hexChar (v % 16)] = _
      rw [Nat.div_div_eq_div_mul, List.append_assoc]
      have hhigh : v / 16 % 16 = v % 256 / 16 % 16 := by omega
      have hlow : v % 16 = v % 256 % 16 := by omega
      rw [hhigh, hlow]
      rfl
    have hbytes : beBytes (n + 1) v = beBytes n (v / 256) ++ [UInt8.ofNat v] := by
      unfold beBytes
      rw [leBytes, List.reverse_cons]
    rw [hpair, ih, hbytes]
    unfold hex_encode
    rw [List.flatMap_append, List.flatMap_singleton, UInt8.toNat_ofNat']

@[simp]
theorem hex_decode_hexDigits (n v : Nat) : hex_decode (hexDigits (2 * n) v) = .ok (beBytes n v) := by
  rw [hexDigits_eq_hex_encode, hex_decode_encode]

/-! ## The names of the chain -/

/-- A slug, if the path is one of a namespace, is a valid one. -/
def CadoPath.Canonical : CadoPath → Prop
  | .namespace_registry slug => validate_namespace_slug slug = .ok ()
  | _ => True

theorem parse_address_text (a : Address) (field : String) :
    decode_fixed_hex 20 (Address.text a) field = .ok a :=
  @decode_fixed_hex_of_strip 20 (by decide) a (Address.text a) field rfl

theorem isNameChar_hexChar {d : Nat} (hd : d < 16) : isNameChar (hexChar d) = true := by
  have hall : ∀ i : Fin 16, isNameChar (hexChar i) = true := by decide
  exact hall ⟨d, hd⟩

theorem isNameChar_hex {n v : Nat} {c : Char} (h : c ∈ '0' :: 'x' :: hexDigits n v) :
    isNameChar c = true := by
  rw [List.mem_cons, List.mem_cons] at h
  rcases h with rfl | rfl | h
  · rfl
  · rfl
  · obtain ⟨d, hd, rfl⟩ := mem_hexDigits h
    exact isNameChar_hexChar hd

theorem hexName_text (n v : Nat) : HexName n ('0' :: 'x' :: hexDigits (2 * n) v) :=
  ⟨hexDigits (2 * n) v, beBytes n v, rfl, hex_decode_hexDigits n v, length_beBytes n v⟩

/-- The name of a path is one of its type. -/
theorem names_of_path {p : CadoPath} (hp : p.Canonical) : p.type_.Names p.name := by
  cases p with
  | namespace_registry slug => exact names_namespace.mpr hp
  | account a | staking_account a | storage_staking_account a =>
    exact (names_hex CadoType.noConfusion).mpr (hexName_text 20 a.toNat)
  | cado_map n | app_state_tip n | snapshot_metadata n | snapshot_chunk n | chunk_reference n
  | app_state_snapshot n | epoch_record n =>
    exact (names_hex CadoType.noConfusion).mpr (hexName_text 32 n.toNat)

theorem as_str_toList (p : CadoPath) : p.as_str.toList =
    '/' :: (SCOPE_ELD_ROOT ++ '/' :: (p.type_.as_str.toList ++ '/' :: p.name)) := by
  unfold CadoPath.as_str SCOPE_ELD_ROOT
  simp only [String.toList_append, String.toList_ofList, List.append_assoc]
  rfl

/-- The path that is made is that of its type and its name. -/
theorem parts_eq_ofName (p : CadoPath) : p.parts = PathText.ofName p.type_ p.name := by
  unfold CadoPath.parts PathText.ofName
  rw [as_str_toList]

/-- The text of a path of the chain parses to the path that was made. -/
theorem parse_as_str {p : CadoPath} (hp : p.Canonical) :
    PathText.parse p.as_str.toList = .ok p.parts := by
  rw [parts_eq_ofName, as_str_toList]
  exact parse_ofName (names_of_path hp)

/-- The text tells the infrastructure paths as the path does. -/
theorem is_infrastructure_as_str {p : CadoPath} (hp : p.Canonical) :
    is_infrastructure_cado_path p.as_str.toList = p.is_infrastructure := by
  have htype : INFRASTRUCTURE_CADO_TYPES.contains p.parts.type_ = p.is_infrastructure := by
    unfold CadoPath.parts
    cases p <;> simp only [CadoPath.type_, CadoPath.is_infrastructure] <;> decide
  unfold is_infrastructure_cado_path
  rw [parse_as_str hp]
  exact htype

/-- Every path of the chain passes the checks of the storage. -/
theorem validate_cado_path_as_str {p : CadoPath} (hp : p.Canonical) :
    validate_cado_path_internal p.parts = .ok () := by
  rw [parts_eq_ofName]
  exact validate_ofName (names_of_path hp)

theorem name_of_address {p : CadoPath} (h : p.type_.is_address_type = true) :
    ∃ v, p.name = '0' :: 'x' :: hexDigits (2 * 20) v := by
  cases p with
  | account a | staking_account a | storage_staking_account a => exact ⟨a.toNat, rfl⟩
  | _ => cases h

/-! ## The keys -/

theorem keyFor_parts (p : CadoPath) (last : Text) :
    p.parts.keyFor o last = keyFor o p.type_ last := by
  have htext : SCOPE_ELD_ROOT ++ '|' :: p.type_.as_str.toList ++ '|' :: last =
      "@eld|".toList ++ p.type_.as_str.toList ++ '|' :: last := rfl
  unfold PathText.keyFor keyFor
  rw [← htext]
  rfl

theorem account_key_parts {p : CadoPath} (haddress : p.type_.is_address_type = true)
    (cado : CadoBody StoredData) :
    AccountKeyGenerator.generate_original_key o p.parts cado = accountKey o p cado := by
  obtain ⟨v, hdigits⟩ := name_of_address haddress
  have hname : p.parts.name = p.name := rfl
  have hdecode : hex_decode (p.parts.name.drop 2) = .ok (beBytes 20 v) := by
    rw [hname, hdigits]
    exact hex_decode_hexDigits 20 v
  have hstart : starts_with_0x p.parts.name = true := by
    rw [hname, hdigits, starts_with_0x_cons]
  unfold AccountKeyGenerator.generate_original_key accountKey
  rw [hstart, if_neg Bool.noConfusion, hdecode]
  simp only [length_beBytes, ne_eq, not_true_eq_false, if_false, ite_not, hname, keyFor_parts]
  cases cado with
  | Immutable c => rfl
  | Mutable m => rfl

theorem general_key_parts {p : CadoPath} {n : Bytes32} (hn : p.name = Bytes32.text n)
    (cado : CadoBody StoredData) :
    GeneralKeyGenerator.generate_original_key o p.parts cado = generalKey o p n cado := by
  have hname : p.parts.name = '0' :: 'x' :: hexDigits (2 * 32) n.toNat := hn
  have hdecode : hex_decode (p.parts.name.drop 2) = .ok (beBytes 32 n.toNat) := by
    rw [hname]
    exact hex_decode_hexDigits 32 n.toNat
  have hstart : starts_with_0x p.parts.name = true := by rw [hname, starts_with_0x_cons]
  have hbytes : ∀ h : Bytes32, beBytes 32 n.toNat ≠ beBytes 32 h.toNat ↔ n ≠ h := by
    intro h
    rw [not_iff_not]
    constructor
    · intro heq
      exact BitVec.eq_of_toNat_eq (beBytes_inj n.isLt h.isLt heq)
    · rintro rfl
      rfl
  unfold GeneralKeyGenerator.generate_original_key GeneralKeyGenerator.check_name generalKey
  rw [hstart, if_neg Bool.noConfusion, hdecode]
  cases cado with
  | Immutable c =>
    simp only [length_beBytes, ne_eq, not_true_eq_false, if_false, keyFor_parts]
    rfl
  | Mutable m =>
    simp only [length_beBytes, ne_eq, not_true_eq_false, if_false, keyFor_parts]
    by_cases hdiffers : n ≠ m.hash ∧ n ≠ m.latest_hash
    · rw [if_pos hdiffers, if_pos ⟨(hbytes _).mpr hdiffers.1, (hbytes _).mpr hdiffers.2⟩]
      rfl
    · rw [if_neg hdiffers, if_neg]
      · rfl
      · exact fun hboth => hdiffers ⟨(hbytes _).mp hboth.1, (hbytes _).mp hboth.2⟩

/-- The keys that the code reads off the text are those of the path. -/
theorem generate_key_parts (p : CadoPath) (cado : CadoBody StoredData) :
    p.parts.generate_key o cado = generate_key o p cado := by
  have hparse : CadoType.parse_type p.parts.type_ = some p.type_ := parse_type_as_str p.type_
  unfold PathText.generate_key generate_key
  rw [hparse]
  cases p with
  | account a | staking_account a | storage_staking_account a => exact account_key_parts rfl cado
  | app_state_tip n | app_state_snapshot n | epoch_record n | namespace_registry slug =>
    exact congrArg Except.ok (keyFor_parts _ _)
  | cado_map n | snapshot_metadata n | snapshot_chunk n | chunk_reference n =>
    exact general_key_parts rfl cado

end eld_chain
