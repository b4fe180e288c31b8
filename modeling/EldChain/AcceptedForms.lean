-- What passes the structural checks: for each of the nine types, the fields
-- that the JSON value shows, and how they read. A value passes exactly when
-- it shows the fields of the type it declares.
import EldChain.Validation

open json

namespace eld_chain

/-! ## One check after another -/

theorem ensure_eq_ok {p : Prop} [Decidable p] {e : EldError} : ensure p e = .ok () ↔ p := by
  unfold ensure
  split <;> simp_all

theorem bind_eq_ok {ε α β : Type} {x : Except ε α} {f : α → Except ε β} {b : β} :
    (x >>= f) = .ok b ↔ ∃ a, x = .ok a ∧ f a = .ok b := by
  cases x <;> simp [bind, Except.bind]

theorem mapError_eq_ok {ε δ α : Type} {x : Except ε α} {f : ε → δ} {a : α} :
    x.mapError f = .ok a ↔ x = .ok a := by
  cases x <;> simp [Except.mapError]

theorem exists_unit {p : Unit → Prop} : (∃ u, p u) ↔ p () :=
  ⟨fun ⟨_, h⟩ => h, fun h => ⟨(), h⟩⟩

/-! ## What passes -/

/-- The value at a key, read as a value of some kind. -/
def found {α : Type} (read : Json → Option α) (members : Members) (name : String) : Option α :=
  (get members (key name)).bind read

/-- An amount as the checks read it. -/
def asAmountOrNumber : Json → Option Nat
  | .str t => parse_u128 t
  | j => asUnsigned 64 j

/-- Hex of at most so many bytes. -/
structure HexUpTo (max_bytes : Nat) (t : Text) : Prop where
  nonempty : t ≠ []
  short : t.length ≤ 2 * max_bytes
  even : t.length % 2 = 0
  hex : ∀ c ∈ t, (hexVal c).isSome = true

theorem validate_hex_string_eq_ok {t : Text} {max_bytes : Nat} :
    validate_hex_string t max_bytes = .ok () ↔ HexUpTo max_bytes t := by
  unfold validate_hex_string
  simp only
  constructor
  · intro h
    split at h
    · cases h
    · split at h
      · cases h
      · split at h
        · cases h
        · split at h
          · rename_i hne hlong heven hall
            rw [List.all_eq_true] at hall
            have hlen := utf8Len_of_hex hall
            exact ⟨hne, by omega, by omega, hall⟩
          · cases h
  · intro h
    have hlen := utf8Len_of_hex h.hex
    have hshort := h.short
    have heven := h.even
    rw [if_neg h.nonempty, if_neg (by omega), if_neg (by omega),
      if_pos (List.all_eq_true.mpr h.hex)]

theorem requireFields_eq_ok {members : Members} {field value subject : String}
    {names : List String} :
    requireFields members field value subject names = .ok () ↔
      ∀ name ∈ names, (get members (key name)).isSome = true := by
  induction names with
  | nil => simp [requireFields]
  | cons name rest ih =>
    rw [requireFields, List.forall_mem_cons]
    split
    · rename_i h
      rw [ih]
      simp [h]
    · rename_i h
      simp [h]

/-- A field that is there and reads as it should. -/
theorem found_eq_some {α : Type} {read : Json → Option α} {members : Members} {name : String}
    {a : α} : found read members name = some a ↔
      (get members (key name)).isSome = true ∧ read (valueAt members name) = some a := by
  unfold found valueAt
  cases get members (key name) <;> simp

theorem typedField_eq_ok {α : Type} {read : Json → Option α} {noun label subject name : String}
    {members : Members} {a : α} :
    typedField read noun members label subject name = .ok a ↔
      read (valueAt members name) = some a := by
  unfold typedField
  split
  · rename_i b hb
    simp [hb]
  · rename_i hnone
    simp [hnone]

theorem amountField_eq_ok {members : Members} {label subject adjective name : String} {n : Nat} :
    amountField members label subject adjective name = .ok n ↔
      asAmountOrNumber (valueAt members name) = some n := by
  unfold amountField
  cases valueAt members name with
  | str t => cases h : parse_u128 t <;> simp [asAmountOrNumber, h]
  | int i => cases h : asUnsigned 64 (.int i) <;> simp [asAmountOrNumber, h]
  | _ => simp [asAmountOrNumber, asUnsigned]

theorem coinField_eq_ok {members : Members} {label subject zeroText : String} :
    coinField members label subject zeroText = .ok () ↔
      ∃ n, asAmountOrNumber (valueAt members "amount") = some n ∧ 0 < n ∧ n ≤ MAX_COIN := by
  simp only [coinField, bind_eq_ok, exists_unit, amountField_eq_ok, ensure_eq_ok,
    Nat.pos_iff_ne_zero, ne_eq]

theorem parse_validated_address_eq_ok {t : Text} {a : Address} :
    parse_validated_address t = .ok a ↔ asAddress (.str t) = some a := by
  unfold parse_validated_address asAddress
  simp only
  cases decode_fixed_hex 20 t "address" <;> simp [Except.toOption]

/-- Reading a string and then an address is reading an address. -/
theorem address_read {j : Json} {a : Address} :
    (∃ t, asStr j = some t ∧ parse_validated_address t = .ok a) ↔ asAddress j = some a := by
  simp only [parse_validated_address_eq_ok]
  cases j <;> simp [asStr, asAddress]

theorem strip_cases (t : Text) : strip_optional_hex_prefix t = t ∨
    ∃ p ∈ ['x', 'X'], t = '0' :: p :: strip_optional_hex_prefix t := by
  unfold strip_optional_hex_prefix
  split
  · exact Or.inr ⟨'x', by simp, rfl⟩
  · exact Or.inr ⟨'X', by simp, rfl⟩
  · exact Or.inl rfl

/-- The text of an address is always a safe string. -/
theorem address_text_safe {t : Text} {a : Address} (h : parse_validated_address t = .ok a) :
    validate_safe_string t 100 = .ok () := by
  obtain ⟨hlen, hhex⟩ := decode_fixed_hex_chars h
  rcases strip_cases t with heq | ⟨p, hp, heq⟩
  · rw [heq] at hlen hhex
    refine safe_string ?_ (by omega) (fun c hc => hex_safe (hhex c hc))
    rintro rfl
    cases hlen
  · rw [heq]
    refine safe_string (List.cons_ne_nil _ _) (by simp only [List.length_cons]; omega) ?_
    intro c hc
    simp only [List.mem_cons, List.not_mem_nil, or_false] at hc hp
    rcases hc with rfl | rfl | hc
    · decide
    · rcases hp with rfl | rfl <;> decide
    · exact hex_safe (hhex c hc)

/-- What the members of a checked payload show, type by type. -/
def Shows (payload : Members) : TxType → Prop
  | .Transfer => ∃ sender recipient amount,
      found asAddress payload "sender" = some sender ∧
      found asAddress payload "recipient" = some recipient ∧
      found asAmountOrNumber payload "amount" = some amount ∧
      sender ≠ recipient ∧ 0 < amount ∧ amount ≤ MAX_COIN
  | .Unstake => ∃ sender amount,
      found asAddress payload "sender" = some sender ∧
      found asAmountOrNumber payload "amount" = some amount ∧ 0 < amount ∧ amount ≤ MAX_COIN
  | .Stake => ∃ sender amount,
      found asAddress payload "sender" = some sender ∧
      found asAmountOrNumber payload "amount" = some amount ∧ 0 < amount ∧ amount ≤ MAX_COIN ∧
      ∀ j ∈ get payload (key "public_key"), ∃ t, asStr j = some t ∧ HexUpTo 32 t
  | .VerifiedProof => ∃ sender capacity_provider challenge_id, ∃ block_height verified_at_block : I64,
      ∃ verified_at_timestamp items generated_at provider_pubkey provider_signature,
      found asAddress payload "sender" = some sender ∧
      found asAddress payload "capacity_provider" = some capacity_provider ∧
      found asStr payload "challenge_id" = some challenge_id ∧
      validate_safe_string challenge_id 100 = .ok () ∧
      found asI64 payload "block_height" = some block_height ∧ 0 < block_height.val ∧
      found asI64 payload "verified_at_block" = some verified_at_block ∧
      block_height.val ≤ verified_at_block.val ∧
      found (asUnsigned 64) payload "verified_at_timestamp" = some verified_at_timestamp ∧
      (MIN_TIMESTAMP.toNat ≤ verified_at_timestamp ∧ verified_at_timestamp ≤ MAX_TIMESTAMP.toNat) ∧
      found asArray payload "proofs" = some items ∧ items ≠ [] ∧
      found (asUnsigned 64) payload "generated_at" = some generated_at ∧
      (MIN_TIMESTAMP.toNat ≤ generated_at ∧ generated_at ≤ MAX_TIMESTAMP.toNat) ∧
      found asStr payload "provider_pubkey" = some provider_pubkey ∧ HexUpTo 32 provider_pubkey ∧
      found asStr payload "provider_signature" = some provider_signature ∧
      HexUpTo 64 provider_signature ∧
      ∀ j ∈ get payload (key "failed"), ∃ b, asBool j = some b
  | .RegisterCapacity => ∃ sender capacity_bytes merkle_root seed chunk_count,
      found asAddress payload "sender" = some sender ∧
      found (asUnsigned 64) payload "capacity_bytes" = some capacity_bytes ∧ 0 < capacity_bytes ∧
      found asStr payload "merkle_root" = some merkle_root ∧ HexUpTo 32 merkle_root ∧
      found asStr payload "seed" = some seed ∧ HexUpTo 32 seed ∧
      found (asUnsigned 64) payload "chunk_count" = some chunk_count ∧ 0 < chunk_count
  | .UnregisterCapacity => ∃ sender,
      found asAddress payload "sender" = some sender ∧
      found asBool payload "unregister" = some true
  | .UpdateCapacityMerkleRoot => ∃ sender merkle_root,
      found asAddress payload "sender" = some sender ∧
      found asStr payload "merkle_root" = some merkle_root ∧ HexUpTo 32 merkle_root
  | .PostMessage => ∀ name ∈ ["sender", "original_signer", "original_signer_pubkey", "content_key",
      "message_id", "expires_height", "visibility", "fee_amount", "received_timestamp",
      "user_signature"], (get payload (key name)).isSome = true
  | .AddNamespace => ∃ sender slug fee,
      found asAddress payload "sender" = some sender ∧
      found asStr payload "namespace_slug" = some slug ∧ validate_safe_string slug 64 = .ok () ∧
      found asAmountOrNumber payload "registration_fee" = some fee ∧
      fee ≤ MAX_COIN ∧ (AddNamespaceTx.new sender slug fee).isOk = true

theorem validate_address_eq_ok {t : Text} :
    validate_address t = .ok () ↔ ∃ a, parse_validated_address t = .ok a := by
  simp only [validate_address, bind_eq_ok, and_true]

/-- A sender that is checked as an address and as a safe string is an address. -/
theorem sender_read {members : Members} {name : String} :
    (∃ t, asStr (valueAt members name) = some t ∧ validate_address t = .ok () ∧
      validate_safe_string t 100 = .ok ()) ↔
      ∃ a, asAddress (valueAt members name) = some a := by
  simp only [← address_read, validate_address_eq_ok]
  constructor
  · rintro ⟨t, ht, ⟨a, ha⟩, _⟩
    exact ⟨a, t, ht, ha⟩
  · rintro ⟨a, t, ht, ha⟩
    exact ⟨t, ht, ⟨a, ha⟩, address_text_safe ha⟩

theorem validate_positive_integer_eq_ok {value : Nat} {min max : Option Nat} {field : String} :
    validate_positive_integer value min max field = .ok () ↔
      (∀ m ∈ min, m ≤ value) ∧ ∀ m ∈ max, value ≤ m := by
  simp only [validate_positive_integer, bind_eq_ok, exists_unit, ensure_eq_ok]

theorem validate_transfer_payload_eq_ok (payload : Members) :
    validate_transfer_payload payload = .ok () ↔ Shows payload .Transfer := by
  simp only [validate_transfer_payload, bind_eq_ok, exists_unit, requireFields_eq_ok,
    typedField_eq_ok, ensure_eq_ok, coinField_eq_ok, Shows, found_eq_some, List.forall_mem_cons,
    List.not_mem_nil, false_imp_iff, forall_const, and_true]
  constructor
  · rintro ⟨⟨h1, h2, h3⟩, t, ht, a, ha, t', ht', b, hb, hne, n, hn, hpos, hle⟩
    exact ⟨a, b, n, ⟨h1, address_read.mp ⟨t, ht, ha⟩⟩, ⟨h2, address_read.mp ⟨t', ht', hb⟩⟩,
      ⟨h3, hn⟩, hne, hpos, hle⟩
  · rintro ⟨a, b, n, ⟨h1, ha⟩, ⟨h2, hb⟩, ⟨h3, hn⟩, hne, hpos, hle⟩
    obtain ⟨t, ht, ha⟩ := address_read.mpr ha
    obtain ⟨t', ht', hb⟩ := address_read.mpr hb
    exact ⟨⟨h1, h2, h3⟩, t, ht, a, ha, t', ht', b, hb, hne, n, hn, hpos, hle⟩

theorem validate_unstake_payload_eq_ok (payload : Members) :
    validate_unstake_payload payload = .ok () ↔ Shows payload .Unstake := by
  simp only [validate_unstake_payload, bind_eq_ok, exists_unit, requireFields_eq_ok,
    typedField_eq_ok, coinField_eq_ok, Shows, found_eq_some, List.forall_mem_cons,
    List.not_mem_nil, false_imp_iff, forall_const, and_true]
  constructor
  · rintro ⟨⟨h1, h2⟩, t, ht, a, ha, n, hn, hpos, hle⟩
    exact ⟨a, n, ⟨h1, address_read.mp ⟨t, ht, ha⟩⟩, ⟨h2, hn⟩, hpos, hle⟩
  · rintro ⟨a, n, ⟨h1, ha⟩, ⟨h2, hn⟩, hpos, hle⟩
    obtain ⟨t, ht, ha⟩ := address_read.mpr ha
    exact ⟨⟨h1, h2⟩, t, ht, a, ha, n, hn, hpos, hle⟩

theorem ifPresent_eq_ok {members : Members} {name : String} {check : Except EldError Unit} :
    ifPresent members name check = .ok () ↔
      ((get members (key name)).isSome = true → check = .ok ()) := by
  unfold ifPresent
  split <;> simp_all

/-- A property of the value at a key, if there is one. -/
theorem forall_get_iff {members : Members} {name : String} {p : Json → Prop} :
    (∀ j ∈ get members (key name), p j) ↔
      ((get members (key name)).isSome = true → p (valueAt members name)) := by
  unfold valueAt
  cases get members (key name) <;> simp

theorem validate_stake_payload_eq_ok (payload : Members) :
    validate_stake_payload payload = .ok () ↔ Shows payload .Stake := by
  simp only [validate_stake_payload, bind_eq_ok, exists_unit, requireFields_eq_ok,
    typedField_eq_ok, coinField_eq_ok, ifPresent_eq_ok, validate_hex_string_eq_ok, Shows,
    found_eq_some, forall_get_iff, List.forall_mem_cons, List.not_mem_nil, false_imp_iff,
    forall_const, and_true]
  constructor
  · rintro ⟨⟨h1, h2⟩, t, ht, a, ha, ⟨n, hn, hpos, hle⟩, hkey⟩
    exact ⟨a, n, ⟨h1, address_read.mp ⟨t, ht, ha⟩⟩, ⟨h2, hn⟩, hpos, hle, hkey⟩
  · rintro ⟨a, n, ⟨h1, ha⟩, ⟨h2, hn⟩, hpos, hle, hkey⟩
    obtain ⟨t, ht, ha⟩ := address_read.mpr ha
    exact ⟨⟨h1, h2⟩, t, ht, a, ha, ⟨n, hn, hpos, hle⟩, hkey⟩

theorem validate_register_capacity_payload_eq_ok (payload : Members) :
    validate_register_capacity_payload payload = .ok () ↔ Shows payload .RegisterCapacity := by
  simp only [validate_register_capacity_payload, bind_eq_ok, exists_unit, requireFields_eq_ok,
    typedField_eq_ok, validate_positive_integer_eq_ok, validate_hex_string_eq_ok, Shows,
    found_eq_some, List.forall_mem_cons, List.not_mem_nil, false_imp_iff, forall_const, and_true,
    Option.mem_def, Option.some.injEq, forall_eq', reduceCtorEq, Nat.one_le_iff_ne_zero,
    Nat.pos_iff_ne_zero]
  constructor
  · rintro ⟨⟨h1, h2, h3, h4, h5⟩, t, ht, hvalid, hsafe, b, hb, hpos, r, hr, hroot, d, hd, hseed, n, hn,
      hcount⟩
    obtain ⟨a, ha⟩ := sender_read.mp ⟨t, ht, hvalid, hsafe⟩
    exact ⟨a, b, r, d, n, ⟨h1, ha⟩, ⟨h2, hb⟩, hpos, ⟨h3, hr⟩, hroot, ⟨h4, hd⟩, hseed, ⟨h5, hn⟩, hcount⟩
  · rintro ⟨a, b, r, d, n, ⟨h1, ha⟩, ⟨h2, hb⟩, hpos, ⟨h3, hr⟩, hroot, ⟨h4, hd⟩, hseed, ⟨h5, hn⟩, hcount⟩
    obtain ⟨t, ht, hvalid, hsafe⟩ := sender_read.mpr ⟨a, ha⟩
    exact ⟨⟨h1, h2, h3, h4, h5⟩, t, ht, hvalid, hsafe, b, hb, hpos, r, hr, hroot, d, hd, hseed, n, hn,
      hcount⟩

theorem validate_unregister_capacity_payload_eq_ok (payload : Members) :
    validate_unregister_capacity_payload payload = .ok () ↔ Shows payload .UnregisterCapacity := by
  simp only [validate_unregister_capacity_payload, bind_eq_ok, exists_unit, requireFields_eq_ok,
    typedField_eq_ok, ensure_eq_ok, Shows, found_eq_some, List.forall_mem_cons, List.not_mem_nil,
    false_imp_iff, forall_const, and_true, exists_eq_right]
  constructor
  · rintro ⟨⟨h1, h2⟩, t, ht, hvalid, hsafe, hb⟩
    obtain ⟨a, ha⟩ := sender_read.mp ⟨t, ht, hvalid, hsafe⟩
    exact ⟨a, ⟨h1, ha⟩, h2, hb⟩
  · rintro ⟨a, ⟨h1, ha⟩, h2, hb⟩
    obtain ⟨t, ht, hvalid, hsafe⟩ := sender_read.mpr ⟨a, ha⟩
    exact ⟨⟨h1, h2⟩, t, ht, hvalid, hsafe, hb⟩

theorem validate_update_capacity_merkle_root_payload_eq_ok (payload : Members) :
    validate_update_capacity_merkle_root_payload payload = .ok () ↔
      Shows payload .UpdateCapacityMerkleRoot := by
  simp only [validate_update_capacity_merkle_root_payload, bind_eq_ok, exists_unit,
    requireFields_eq_ok, typedField_eq_ok, validate_hex_string_eq_ok, Shows, found_eq_some,
    List.forall_mem_cons, List.not_mem_nil, false_imp_iff, forall_const, and_true]
  constructor
  · rintro ⟨⟨h1, h2⟩, t, ht, hvalid, hsafe, r, hr, hroot⟩
    obtain ⟨a, ha⟩ := sender_read.mp ⟨t, ht, hvalid, hsafe⟩
    exact ⟨a, r, ⟨h1, ha⟩, ⟨h2, hr⟩, hroot⟩
  · rintro ⟨a, r, ⟨h1, ha⟩, ⟨h2, hr⟩, hroot⟩
    obtain ⟨t, ht, hvalid, hsafe⟩ := sender_read.mpr ⟨a, ha⟩
    exact ⟨⟨h1, h2⟩, t, ht, hvalid, hsafe, r, hr, hroot⟩

theorem timestampField_eq_ok {members : Members} {label subject name : String} :
    timestampField members label subject name = .ok () ↔
      ∃ t, asUnsigned 64 (valueAt members name) = some t ∧
        MIN_TIMESTAMP.toNat ≤ t ∧ t ≤ MAX_TIMESTAMP.toNat := by
  simp only [timestampField, bind_eq_ok, typedField_eq_ok, ensure_eq_ok]

theorem providerHexField_eq_ok {members : Members} {label subject name : String}
    {max_bytes : Nat} :
    providerHexField members label subject name max_bytes = .ok () ↔
      ∃ t, asStr (valueAt members name) = some t ∧ HexUpTo max_bytes t := by
  simp only [providerHexField, bind_eq_ok, exists_unit, typedField_eq_ok, ensure_eq_ok,
    validate_hex_string_eq_ok]
  constructor
  · rintro ⟨t, ht, _, hhex⟩
    exact ⟨t, ht, hhex⟩
  · rintro ⟨t, ht, hhex⟩
    exact ⟨t, ht, hhex.nonempty, hhex⟩

theorem validate_verified_proof_payload_eq_ok (payload : Members) :
    validate_verified_proof_payload payload = .ok () ↔ Shows payload .VerifiedProof := by
  simp only [validate_verified_proof_payload, bind_eq_ok, exists_unit, requireFields_eq_ok,
    typedField_eq_ok, ensure_eq_ok, timestampField_eq_ok, providerHexField_eq_ok, ifPresent_eq_ok,
    Shows, found_eq_some, forall_get_iff, List.forall_mem_cons, List.not_mem_nil, false_imp_iff,
    forall_const, and_true, List.isEmpty_eq_false_iff]
  constructor
  · rintro ⟨⟨h1, h2, h3, h4, h5, h6, h7, h8, h9, h10⟩, t, ht, a, ha, t', ht', b, hb, c, hc, hsafe, d, hd,
      hd0, e, he, _, hde, ⟨f, hf, hf1, hf2⟩, g, hg, hg0, ⟨i, hi, hi1, hi2⟩, ⟨j, hj, hjh⟩, ⟨k, hk, hkh⟩,
      hfailed⟩
    exact ⟨a, b, c, d, e, f, g, i, j, k, ⟨h1, address_read.mp ⟨t, ht, ha⟩⟩,
      ⟨h2, address_read.mp ⟨t', ht', hb⟩⟩, ⟨h3, hc⟩, hsafe, ⟨h4, hd⟩, hd0, ⟨h5, he⟩, hde, ⟨h6, hf⟩,
      ⟨hf1, hf2⟩, ⟨h7, hg⟩, hg0, ⟨h8, hi⟩, ⟨hi1, hi2⟩, ⟨h9, hj⟩, hjh, ⟨h10, hk⟩, hkh, hfailed⟩
  · rintro ⟨a, b, c, d, e, f, g, i, j, k, ⟨h1, ha⟩, ⟨h2, hb⟩, ⟨h3, hc⟩, hsafe, ⟨h4, hd⟩, hd0, ⟨h5, he⟩,
      hde, ⟨h6, hf⟩, ⟨hf1, hf2⟩, ⟨h7, hg⟩, hg0, ⟨h8, hi⟩, ⟨hi1, hi2⟩, ⟨h9, hj⟩, hjh, ⟨h10, hk⟩, hkh,
      hfailed⟩
    obtain ⟨t, ht, ha⟩ := address_read.mpr ha
    obtain ⟨t', ht', hb⟩ := address_read.mpr hb
    exact ⟨⟨h1, h2, h3, h4, h5, h6, h7, h8, h9, h10⟩, t, ht, a, ha, t', ht', b, hb, c, hc, hsafe, d, hd,
      hd0, e, he, by omega, hde, ⟨f, hf, hf1, hf2⟩, g, hg, hg0, ⟨i, hi, hi1, hi2⟩, ⟨j, hj, hjh⟩,
      ⟨k, hk, hkh⟩, hfailed⟩

theorem validate_add_namespace_payload_eq_ok (payload : Members) :
    validate_add_namespace_payload payload = .ok () ↔ Shows payload .AddNamespace := by
  have hok : ∀ sender slug fee, (AddNamespaceTx.new sender slug fee).isOk = true ↔
      ∃ tx, AddNamespaceTx.new sender slug fee = .ok tx := by
    intro sender slug fee
    cases AddNamespaceTx.new sender slug fee <;> simp [Except.isOk, Except.toBool]
  simp only [validate_add_namespace_payload, bind_eq_ok, exists_unit, requireFields_eq_ok,
    typedField_eq_ok, amountField_eq_ok, ensure_eq_ok, Shows, found_eq_some, hok,
    List.forall_mem_cons, List.not_mem_nil, false_imp_iff, forall_const, and_true]
  constructor
  · rintro ⟨⟨h1, h2, h3⟩, t, ht, a, ha, slug, hslug, hsafe, n, hn, hle, hnew⟩
    exact ⟨a, slug, n, ⟨h1, address_read.mp ⟨t, ht, ha⟩⟩, ⟨h2, hslug⟩, hsafe, ⟨h3, hn⟩, hle, hnew⟩
  · rintro ⟨a, slug, n, ⟨h1, ha⟩, ⟨h2, hslug⟩, hsafe, ⟨h3, hn⟩, hle, hnew⟩
    obtain ⟨t, ht, ha⟩ := address_read.mpr ha
    exact ⟨⟨h1, h2, h3⟩, t, ht, a, ha, slug, hslug, hsafe, n, hn, hle, hnew⟩

/-- A payload passes exactly when it shows what its declared type asks for. -/
theorem validatePayloadOf_eq_ok (payload : Members) (t : TxType) :
    validatePayloadOf payload t = .ok () ↔ Shows payload t := by
  cases t with
  | Transfer => exact validate_transfer_payload_eq_ok payload
  | Unstake => exact validate_unstake_payload_eq_ok payload
  | Stake => exact validate_stake_payload_eq_ok payload
  | VerifiedProof => exact validate_verified_proof_payload_eq_ok payload
  | RegisterCapacity => exact validate_register_capacity_payload_eq_ok payload
  | UnregisterCapacity => exact validate_unregister_capacity_payload_eq_ok payload
  | UpdateCapacityMerkleRoot => exact validate_update_capacity_merkle_root_payload_eq_ok payload
  | PostMessage => exact requireFields_eq_ok
  | AddNamespace => exact validate_add_namespace_payload_eq_ok payload

theorem TxType.find_named (t : TxType) :
    TxType.order.find? (fun u => key u.as_str = key t.as_str) = some t := by
  cases t <;> simp [TxType.order, TxType.as_str]

theorem TxType.as_str_inj {t u : TxType} (h : key t.as_str = key u.as_str) : t = u := by
  have ht := t.find_named
  rw [h, u.find_named] at ht
  exact (Option.some.inj ht).symm

theorem named_iff (name : Text) :
    TxType.order.any (fun t => key t.as_str = name) = true ↔ ∃ t : TxType, name = key t.as_str := by
  rw [List.any_eq_true]
  constructor
  · rintro ⟨t, _, ht⟩
    exact ⟨t, (of_decide_eq_true ht).symm⟩
  · rintro ⟨t, rfl⟩
    exact ⟨t, by cases t <;> decide, decide_eq_true rfl⟩

/-- What a JSON value that passes as a type shows. -/
structure PassesAs (v : Json) (t : TxType) (obj payload : Members) : Prop where
  object : v = .obj obj
  size : utf8Len v.compact ≤ MAX_TRANSACTION_SIZE_BYTES
  sig : ∃ sig, found asStr obj "sig" = some sig ∧ HexUpTo 64 sig
  nonce : ∃ n, found (asUnsigned 64) obj "nonce" = some n ∧ n ≤ 2 ^ 32 - 1
  payload_object : found asObject obj "payload" = some payload
  public_key : ∃ pk, found asStr obj "public_key" = some pk ∧ HexUpTo 32 pk
  fee : ∃ n, found (asUnsigned 64) obj "fee" = some n ∧ n ≤ 2 ^ 32 - 1
  type_name : found asStr payload "type" = some (key t.as_str)
  shows : Shows payload t

theorem envelopeNumber_eq_ok {members : Members} {name : String} :
    envelopeNumber members name = .ok () ↔
      ∃ n, asUnsigned 64 (valueAt members name) = some n ∧ n ≤ 2 ^ 32 - 1 := by
  simp only [envelopeNumber, bind_eq_ok, exists_unit, typedField_eq_ok,
    validate_positive_integer_eq_ok, Option.mem_def, Option.some.injEq, forall_eq', Nat.zero_le,
    true_and]
  constructor
  · rintro ⟨_, h⟩
    exact h
  · rintro ⟨n, hn, hle⟩
    refine ⟨?_, n, hn, hle⟩
    cases hj : valueAt members name <;> simp [hj, asUnsigned, asNumber] at hn ⊢

theorem validate_payload_content_eq_ok (payload : Members) (t : TxType) :
    validate_payload_content payload (key t.as_str) = .ok () ↔ Shows payload t := by
  rw [validate_payload_content, t.find_named]
  exact validatePayloadOf_eq_ok payload t

theorem validateEnvelope_eq_ok (v : Json) (obj : Members) :
    validateEnvelope v obj = .ok () ↔
      (∃ sig, found asStr obj "sig" = some sig ∧ HexUpTo 64 sig) ∧
      (∃ n, found (asUnsigned 64) obj "nonce" = some n ∧ n ≤ 2 ^ 32 - 1) ∧
      (∃ pk, found asStr obj "public_key" = some pk ∧ HexUpTo 32 pk) ∧
      (∃ n, found (asUnsigned 64) obj "fee" = some n ∧ n ≤ 2 ^ 32 - 1) ∧
      ∃ t payload, found asObject obj "payload" = some payload ∧
        found asStr payload "type" = some (key t.as_str) ∧ Shows payload t := by
  simp only [validateEnvelope, bind_eq_ok, exists_unit, requireFields_eq_ok, typedField_eq_ok,
    validate_hex_string_eq_ok, envelopeNumber_eq_ok, ensure_eq_ok, named_iff, found_eq_some,
    List.forall_mem_cons, List.not_mem_nil, false_imp_iff, forall_const, and_true]
  constructor
  · rintro ⟨⟨h1, h2, h3, h4, h5⟩, sig, hsig, hsighex, ⟨n, hn, hnle⟩, payload, hpayload, pk, hpk, hpkhex,
      ⟨fee, hfee, hfeele⟩, htype, name, hname, ⟨t, rfl⟩, hcontent⟩
    exact ⟨⟨sig, ⟨h1, hsig⟩, hsighex⟩, ⟨n, ⟨h2, hn⟩, hnle⟩, ⟨pk, ⟨h4, hpk⟩, hpkhex⟩,
      ⟨fee, ⟨h5, hfee⟩, hfeele⟩, t, payload, ⟨h3, hpayload⟩, ⟨htype, hname⟩,
      (validate_payload_content_eq_ok payload t).mp hcontent⟩
  · rintro ⟨⟨sig, ⟨h1, hsig⟩, hsighex⟩, ⟨n, ⟨h2, hn⟩, hnle⟩, ⟨pk, ⟨h4, hpk⟩, hpkhex⟩,
      ⟨fee, ⟨h5, hfee⟩, hfeele⟩, t, payload, ⟨h3, hpayload⟩, ⟨htype, hname⟩, hshows⟩
    exact ⟨⟨h1, h2, h3, h4, h5⟩, sig, hsig, hsighex, ⟨n, hn, hnle⟩, payload, hpayload, pk, hpk, hpkhex,
      ⟨fee, hfee, hfeele⟩, htype, _, hname, ⟨t, rfl⟩,
      (validate_payload_content_eq_ok payload t).mpr hshows⟩

/-- A value passes exactly as one of the nine types. -/
theorem validate_transaction_structure_eq_ok (v : Json) :
    validate_transaction_structure v = .ok () ↔ ∃ t obj payload, PassesAs v t obj payload := by
  simp only [validate_transaction_structure, bind_eq_ok, exists_unit, validate_transaction_size,
    ensure_eq_ok]
  constructor
  · rintro ⟨hsize, h⟩
    cases v with
    | obj obj =>
      simp only [asObject] at h
      obtain ⟨hsig, hnonce, hpk, hfee, t, payload, hpayload, htype, hshows⟩ :=
        (validateEnvelope_eq_ok _ obj).mp h
      exact ⟨t, obj, payload, rfl, hsize, hsig, hnonce, hpayload, hpk, hfee, htype, hshows⟩
    | _ => simp [asObject] at h
  · rintro ⟨t, obj, payload, h⟩
    refine ⟨h.size, ?_⟩
    have hobj := h.object
    subst hobj
    exact (validateEnvelope_eq_ok _ obj).mpr ⟨h.sig, h.nonce, h.public_key, h.fee, t, payload,
      h.payload_object, h.type_name, h.shows⟩

end eld_chain
