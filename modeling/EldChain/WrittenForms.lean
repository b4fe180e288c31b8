-- What the structural checks see of a transaction that was written by its
-- own encoder: every field stands once, so the value at a key is the value
-- of the field, and the value has the characters of the text. A written
-- payload shows what its type asks for, with three exceptions.
import EldChain.Chain
import EldChain.CodecRoundTrip
import EldChain.DeclaredForms

open json

namespace eld_chain

variable {o : Outside} {s : SerdeJson} {members out : Members} {t : TxType} {obj payload : Members}

/-! ## Values of what was written -/

/-- A field of a written object, as the checks read it. -/
theorem found_of_entries {α : Type} {read : Json → Option α} (hread : Leaf s read)
    (hout : s.valueMembers [] members = some out) {name : String} {i : Json}
    (hj : entries members (key name) = [i]) : found read out name = read i := by
  obtain ⟨w, hget, hw⟩ := s.value_of_once hout hj
  rw [found, hget, Option.bind_some, hread i w hw]

/-- The value of a written transaction whose fee fits a machine word. -/
structure Tx.Written (s : SerdeJson) (tx : Tx) (obj payload : Members) : Prop where
  value : s.value tx.json = some (.obj obj)
  members : s.valueMembers [] ((key "type", .str tx.payload.type_) :: tx.payload.inner.members)
    = some payload
  size : utf8Len (Json.obj obj).compact = utf8Len tx.to_string
  sig : found asStr obj "sig" = some tx.sig
  nonce : found (asUnsigned 64) obj "nonce" = some tx.nonce.value.toNat
  payload_object : found asObject obj "payload" = some payload
  public_key : found asStr obj "public_key" = some tx.public_key
  fee : found (asUnsigned 64) obj "fee" = some tx.fee
  type_name : found asStr payload "type" = some tx.payload.type_

theorem Tx.json_tidy {tx : Tx} (hfee : tx.fee < 2 ^ 64) : tidy tx.json = true := by
  have hnonce : tx.nonce.value.toNat < 2 ^ 64 := Nat.lt_trans tx.nonce.value.toNat_lt (by decide)
  simp [Tx.json, tidy, tidyMembers, isMachineInt_nat hnonce, isMachineInt_nat hfee,
    tx.payload.json_tidy]

theorem utf8Len_perm {a b : Text} (h : a.Perm b) : utf8Len a = utf8Len b := by
  unfold utf8Len
  exact (h.map _).sum_eq

theorem Tx.written (s : SerdeJson) (tx : Tx) (hfee : tx.fee < 2 ^ 64) :
    ∃ obj payload, tx.Written s obj payload := by
  obtain ⟨v, hv, hperm⟩ := s.value_tidy _ (Tx.json_tidy hfee)
  have hv' := hv
  rw [Tx.json] at hv'
  obtain ⟨obj, hobj, rfl⟩ := s.value_obj hv'
  have hpayload : ∃ payload, s.valueMembers []
      ((key "type", .str tx.payload.type_) :: tx.payload.inner.members) = some payload ∧
      found asObject obj "payload" = some payload := by
    obtain ⟨w, hget, hw⟩ := s.value_of_once hobj (k := key "payload") (j := tx.payload.json)
      (by simp [entries_cons])
    rw [Payload.json] at hw
    obtain ⟨payload, hpayload, rfl⟩ := s.value_obj hw
    exact ⟨payload, hpayload, by rw [found, hget]; rfl⟩
  obtain ⟨payload, hmembers, hfound⟩ := hpayload
  have hnonce : asUnsigned 64 (.int tx.nonce.value.toNat) = some tx.nonce.value.toNat :=
    asUnsigned_int (Nat.lt_trans tx.nonce.value.toNat_lt (by decide))
  refine ⟨obj, payload, hv, hmembers, utf8Len_perm hperm, ?_, ?_, hfound, ?_, ?_, ?_⟩
  · exact found_of_entries (leaf_asStr s) hobj (i := .str tx.sig) (by simp [entries_cons])
  · rw [← hnonce]
    exact found_of_entries (leaf_asUnsigned s) hobj (by simp [entries_cons])
  · exact found_of_entries (leaf_asStr s) hobj (i := .str tx.public_key) (by simp [entries_cons])
  · rw [← asUnsigned_int hfee]
    exact found_of_entries (leaf_asUnsigned s) hobj (by simp [entries_cons])
  · exact found_of_entries (leaf_asStr s) hmembers (i := .str tx.payload.type_)
      (by rw [entries_cons_self, tx.payload.inner.members_type])

/-- A written transaction parses to its value, whatever it holds. -/
theorem Tx.Written.parses {tx : Tx} (hw : tx.Written s obj payload) :
    s.from_str_value tx.to_string = .ok (.obj obj) := by
  have hdepth : tx.json.depth ≤ RECURSION_LIMIT := by
    have hpayload := tx.payload.json_depth
    simp only [Tx.json, Json.depth, depthMembers, RECURSION_LIMIT]
    omega
  exact SerdeJson.from_str_value_eq_ok.mpr ⟨_, Tx.tree_to_string _ _, hdepth, hw.value⟩

theorem HexUpTo.of_isHexOf {n : Nat} {text : Text} (hn : 0 < n) (h : isHexOf n text = true) :
    HexUpTo n text := by
  rw [isHexOf, Bool.and_eq_true, beq_iff_eq, List.all_eq_true] at h
  refine ⟨?_, by omega, by omega, h.2⟩
  rintro rfl
  simp only [List.length_nil] at h
  omega

/-- A written transaction that is not too large passes as the type it declares, if its
payload shows what the type asks for. -/
theorem Tx.Written.passes {tx : Tx} (hw : tx.Written s obj payload)
    (hwired : tx.Wired o) (hsize : utf8Len tx.to_string ≤ MAX_TRANSACTION_SIZE_BYTES)
    (hfee : tx.fee ≤ 2 ^ 32 - 1) (htype : tx.payload.type_ = key t.as_str)
    (hshows : Shows payload t) : PassesAs (.obj obj) t obj payload where
  object := rfl
  size := by
    rw [hw.size]
    exact hsize
  sig := ⟨_, hw.sig, HexUpTo.of_isHexOf (by decide) hwired.sig_hex⟩
  nonce := ⟨_, hw.nonce, Nat.le_sub_one_of_lt tx.nonce.value.toNat_lt⟩
  payload_object := hw.payload_object
  public_key := ⟨_, hw.public_key, HexUpTo.of_isHexOf (by decide) hwired.key_hex⟩
  fee := ⟨_, hw.fee, hfee⟩
  type_name := by rw [hw.type_name, htype]
  shows := hshows

/-! ## Payloads -/

theorem asAmountOrNumber_amountJson {n : Nat} (h : n ≤ MAX_COIN) :
    asAmountOrNumber (amountJson n) = some n :=
  parse_u128_toDigits (Nat.lt_of_le_of_lt h (by decide))

/-- A field of a written payload, as the checks read it. -/
theorem written_found {α : Type} {read : Json → Option α} {inner : PayloadInner} {type_ : Text}
    {name : String} {i : Json} {a : α} (hread : Leaf s read)
    (h : s.valueMembers [] ((key "type", .str type_) :: inner.members) = some payload)
    (hname : name ≠ "type") (hj : entries inner.members (key name) = [i]) (hi : read i = some a) :
    found read payload name = some a := by
  rw [← hi]
  refine found_of_entries hread h ?_
  rw [entries_cons_of_ne _ _ (fun heq => hname (key_inj.mp heq.symm)), hj]

theorem written_sender {inner : PayloadInner} {type_ : Text}
    (h : s.valueMembers [] ((key "type", .str type_) :: inner.members) = some payload) :
    found asAddress payload "sender" = some inner.sender := by
  refine written_found (leaf_asAddress s) h (by decide) ?_ (asAddress_addressJson _)
  cases inner <;> simp [PayloadInner.members, PayloadInner.sender, entries_cons]

theorem written_str {inner : PayloadInner} {type_ : Text} {name : String} {text : Text}
    (h : s.valueMembers [] ((key "type", .str type_) :: inner.members) = some payload)
    (hname : name ≠ "type") (hj : entries inner.members (key name) = [.str text]) :
    found asStr payload name = some text :=
  written_found (leaf_asStr s) h hname hj rfl

theorem slug_char_lt {c : Char} (h : (isAsciiLowercase c || isAsciiDigit c || c == '-') = true) :
    c.toNat < 128 := by
  simp only [isAsciiLowercase, isAsciiDigit, Bool.or_eq_true, Bool.and_eq_true, decide_eq_true_eq,
    beq_iff_eq, Char.le_def, UInt32.le_iff_toNat_le] at h
  rcases h with (h | h) | h
  · exact Nat.lt_of_le_of_lt h.2 (by decide)
  · exact Nat.lt_of_le_of_lt h.2 (by decide)
  · rw [h]
    decide

theorem slug_char_safe {c : Char}
    (h : (isAsciiLowercase c || isAsciiDigit c || c == '-') = true) : isSafe c = true := by
  have hall : ∀ i : Fin 128, (isAsciiLowercase (Char.ofNat i) || isAsciiDigit (Char.ofNat i) ||
      Char.ofNat i == '-') = true → isSafe (Char.ofNat i) = true := by decide
  have hc := hall ⟨c.toNat, slug_char_lt h⟩
  rw [Char.ofNat_toNat] at hc
  exact hc h

/-- A slug is a safe string. -/
theorem slug_safe {slug : Text} (h : CanonicalSlug slug) : validate_safe_string slug 64 = .ok () := by
  have hsafe : ∀ c ∈ slug, isSafe c = true :=
    fun c hc => slug_char_safe (valid_slug_chars h.valid c hc)
  have hlen : 3 ≤ slug.length ∧ slug.length ≤ 32 := by
    have hvalid := h.valid
    unfold validate_namespace_slug at hvalid
    split at hvalid
    · cases hvalid
    · rename_i hbounds
      rw [utf8Len_of_safe hsafe, SLUG_MIN_LEN, SLUG_MAX_LEN] at hbounds
      omega
  apply safe_string
  · rintro rfl
    simp at hlen
  · omega
  · exact hsafe

/-- What the checks ask of a payload beyond its constructor: a stake names its key, a
registration counts a chunk, and a proof has the hex of its provider. -/
def PayloadInner.Checkable : PayloadInner → Prop
  | .Stake tx => tx.public_key.isSome = true
  | .RegisterCapacity tx => tx.chunk_count ≠ 0
  | .VerifiedProof tx => HexUpTo 32 tx.provider_pubkey ∧ HexUpTo 64 tx.provider_signature
  | _ => True

section

variable {type_ : Text}

theorem transfer_shows {tx : TransferTx}
    (h : s.valueMembers [] ((key "type", .str type_) :: (PayloadInner.Transfer tx).members)
      = some payload) : Shows payload .Transfer := by
  refine ⟨tx.sender, tx.recipient, tx.amount, written_sender h, ?_, ?_, tx.sender_ne_recipient,
    tx.amount_pos, tx.amount_le⟩
  · exact written_found (leaf_asAddress s) h (by decide)
      (by simp [PayloadInner.members, entries_cons]) (asAddress_addressJson _)
  · exact written_found (leaf_asAmountOrNumber s) h (by decide)
      (by simp [PayloadInner.members, entries_cons]) (asAmountOrNumber_amountJson tx.amount_le)

theorem unstake_shows {tx : UnstakeTx}
    (h : s.valueMembers [] ((key "type", .str type_) :: (PayloadInner.Unstake tx).members)
      = some payload) : Shows payload .Unstake := by
  refine ⟨tx.sender, tx.amount, written_sender h, ?_, tx.amount_pos, tx.amount_le⟩
  exact written_found (leaf_asAmountOrNumber s) h (by decide)
    (by simp [PayloadInner.members, entries_cons]) (asAmountOrNumber_amountJson tx.amount_le)

theorem stake_shows_iff {tx : StakeTx}
    (h : s.valueMembers [] ((key "type", .str type_) :: (PayloadInner.Stake tx).members)
      = some payload) : Shows payload .Stake ↔ tx.public_key.isSome = true := by
  have hentry : entries ((key "type", .str type_) :: (PayloadInner.Stake tx).members)
      (key "public_key") = [optionJson tx.public_key] := by
    simp [PayloadInner.members, entries_cons]
  obtain ⟨v, hget, hv⟩ := s.value_of_once h hentry
  cases hkey : tx.public_key with
  | none =>
    rw [hkey] at hv
    have hnull := s.value_plain hv (Or.inr (Or.inr rfl))
    simp only [Option.isSome_none, Bool.false_eq_true, iff_false]
    rintro ⟨_, _, _, _, _, _, hall⟩
    obtain ⟨t, ht, _⟩ := hall v hget
    rw [hnull] at ht
    cases ht
  | some pk =>
    rw [hkey] at hv
    have hstr := s.value_plain hv (Or.inl ⟨pk, rfl⟩)
    obtain ⟨hlen, hhex⟩ := tx.key_hex pk hkey
    simp only [Option.isSome_some, iff_true]
    refine ⟨tx.sender, tx.amount, written_sender h, ?_, tx.amount_pos, tx.amount_le, ?_⟩
    · exact written_found (leaf_asAmountOrNumber s) h (by decide)
        (by simp [PayloadInner.members, entries_cons]) (asAmountOrNumber_amountJson tx.amount_le)
    · intro i hi
      rw [hget] at hi
      cases hi
      rw [hstr]
      refine ⟨pk, rfl, ?_, by omega, by omega, hhex⟩
      rintro rfl
      cases hlen

theorem hex32_hexUpTo (b : Bytes32) : HexUpTo 32 (hexDigits 64 b.toNat) :=
  HexUpTo.of_isHexOf (by decide) isHexOf_hexDigits

theorem register_capacity_shows_iff {tx : RegisterCapacityTx}
    (h : s.valueMembers [] ((key "type", .str type_) :: (PayloadInner.RegisterCapacity tx).members)
      = some payload) : Shows payload .RegisterCapacity ↔ tx.chunk_count ≠ 0 := by
  have hcount : found (asUnsigned 64) payload "chunk_count" = some tx.chunk_count.toNat :=
    written_found (leaf_asUnsigned s) h (by decide) (by simp [PayloadInner.members, entries_cons])
      (asUnsigned_int (Nat.lt_trans tx.chunk_count.toNat_lt (by decide)))
  have hzero : 0 < tx.chunk_count.toNat ↔ tx.chunk_count ≠ 0 := by
    rw [Nat.pos_iff_ne_zero, ne_eq, ne_eq, ← UInt32.toNat_inj]
    rfl
  constructor
  · rintro ⟨_, _, _, _, n, _, _, _, _, _, _, _, hn, hpos⟩
    rw [hcount] at hn
    cases hn
    exact hzero.mp hpos
  · intro hne
    have hcapacity : 0 < tx.capacity_bytes.toNat := by
      rw [Nat.pos_iff_ne_zero, ne_eq]
      intro heq
      exact tx.capacity_pos (UInt64.toNat_inj.mp heq)
    refine ⟨tx.sender, tx.capacity_bytes.toNat, _, _, tx.chunk_count.toNat, written_sender h, ?_,
      hcapacity, ?_, hex32_hexUpTo tx.merkle_root, ?_, hex32_hexUpTo tx.seed, hcount,
      hzero.mpr hne⟩
    · exact written_found (leaf_asUnsigned s) h (by decide)
        (by simp [PayloadInner.members, entries_cons]) (asUnsigned_int tx.capacity_bytes.toNat_lt)
    · exact written_str h (by decide) (by simp [PayloadInner.members, entries_cons, hex32Json])
    · exact written_str h (by decide) (by simp [PayloadInner.members, entries_cons, hex32Json])

theorem unregister_capacity_shows {tx : UnregisterCapacityTx}
    (h : s.valueMembers [] ((key "type", .str type_) :: (PayloadInner.UnregisterCapacity tx).members)
      = some payload) : Shows payload .UnregisterCapacity := by
  refine ⟨tx.sender, written_sender h, ?_⟩
  exact written_found (i := .bool tx.unregister) (leaf_asBool s) h (by decide)
    (by simp [PayloadInner.members, entries_cons]) (by rw [asBool, tx.unregister_true])

theorem update_capacity_merkle_root_shows {tx : UpdateCapacityMerkleRootTx}
    (h : s.valueMembers []
      ((key "type", .str type_) :: (PayloadInner.UpdateCapacityMerkleRoot tx).members)
      = some payload) : Shows payload .UpdateCapacityMerkleRoot := by
  refine ⟨tx.sender, _, written_sender h, ?_, hex32_hexUpTo tx.merkle_root⟩
  exact written_str h (by decide) (by simp [PayloadInner.members, entries_cons, hex32Json])

theorem post_message_shows {tx : PostMessageTx}
    (h : s.valueMembers [] ((key "type", .str type_) :: (PayloadInner.PostMessage tx).members)
      = some payload) : Shows payload .PostMessage := by
  intro name hname
  rw [Option.isSome_iff_ne_none, ne_eq, s.get_eq_none h]
  simp only [List.mem_cons, List.not_mem_nil, or_false] at hname
  rcases hname with rfl | rfl | rfl | rfl | rfl | rfl | rfl | rfl | rfl | rfl <;>
    simp [PayloadInner.members, entries_cons]

theorem add_namespace_shows {tx : AddNamespaceTx}
    (h : s.valueMembers [] ((key "type", .str type_) :: (PayloadInner.AddNamespace tx).members)
      = some payload) : Shows payload .AddNamespace := by
  refine ⟨tx.sender, tx.namespace_slug, tx.registration_fee, written_sender h, ?_,
    slug_safe tx.slug_canonical, ?_, tx.fee_le, by rw [tx.new_self]; rfl⟩
  · exact written_str h (by decide) (by simp [PayloadInner.members, entries_cons])
  · exact written_found (leaf_asAmountOrNumber s) h (by decide)
      (by simp [PayloadInner.members, entries_cons]) (asAmountOrNumber_amountJson tx.fee_le)

theorem timestamp_bounds {t : UInt64} (h : MIN_TIMESTAMP ≤ t ∧ t ≤ MAX_TIMESTAMP) :
    MIN_TIMESTAMP.toNat ≤ t.toNat ∧ t.toNat ≤ MAX_TIMESTAMP.toNat :=
  ⟨UInt64.le_iff_toNat_le.mp h.1, UInt64.le_iff_toNat_le.mp h.2⟩

/-- The proofs of a written payload are a list that is not empty. -/
theorem written_proofs {tx : VerifiedProofTx}
    (h : s.valueMembers [] ((key "type", .str type_) :: (PayloadInner.VerifiedProof tx).members)
      = some payload) :
    ∃ items, found asArray payload "proofs" = some items ∧ items ≠ [] := by
  have hentry : entries ((key "type", .str type_) :: (PayloadInner.VerifiedProof tx).members)
      (key "proofs") = [.arr (tx.proofs.map ChunkProof.json)] := by
    simp [PayloadInner.members, entries_cons]
  obtain ⟨v, hget, hv⟩ := s.value_of_once h hentry
  obtain ⟨vs, hvs, rfl⟩ := s.value_arr hv
  refine ⟨vs, by rw [found, hget]; rfl, ?_⟩
  rintro rfl
  cases hproofs : tx.proofs with
  | nil => exact tx.proofs_nonempty hproofs
  | cons p rest =>
    rw [hproofs, List.map_cons, SerdeJson.valueItems] at hvs
    split at hvs <;> cases hvs

theorem verified_proof_shows_iff {tx : VerifiedProofTx}
    (h : s.valueMembers [] ((key "type", .str type_) :: (PayloadInner.VerifiedProof tx).members)
      = some payload) :
    Shows payload .VerifiedProof ↔
      HexUpTo 32 tx.provider_pubkey ∧ HexUpTo 64 tx.provider_signature := by
  have hpubkey : found asStr payload "provider_pubkey" = some tx.provider_pubkey :=
    written_str h (by decide) (by simp [PayloadInner.members, entries_cons])
  have hsignature : found asStr payload "provider_signature" = some tx.provider_signature :=
    written_str h (by decide) (by simp [PayloadInner.members, entries_cons])
  constructor
  · rintro ⟨_, _, _, _, _, _, _, _, pk, sig, _, _, _, _, _, _, _, _, _, _, _, _, _, _, hpk, hpkhex, hsig,
      hsighex, _⟩
    rw [hpubkey] at hpk
    rw [hsignature] at hsig
    cases hpk
    cases hsig
    exact ⟨hpkhex, hsighex⟩
  · rintro ⟨hpkhex, hsighex⟩
    obtain ⟨items, hitems, hne⟩ := written_proofs h
    refine ⟨tx.sender, tx.capacity_provider, tx.challenge_id, tx.block_height, tx.verified_at_block,
      tx.verified_at_timestamp.toNat, items, tx.generated_at.toNat, _, _, written_sender h, ?_, ?_,
      tx.id_safe, ?_, tx.height_pos, ?_, tx.verified_after, ?_, timestamp_bounds tx.verified_at_range,
      hitems, hne, ?_, timestamp_bounds tx.generated_at_range, hpubkey, hpkhex, hsignature, hsighex,
      ?_⟩
    · exact written_found (leaf_asAddress s) h (by decide)
        (by simp [PayloadInner.members, entries_cons]) (asAddress_addressJson _)
    · exact written_str h (by decide) (by simp [PayloadInner.members, entries_cons])
    · exact written_found (leaf_asI64 s) h (by decide)
        (by simp [PayloadInner.members, entries_cons]) (asI64_int _)
    · exact written_found (leaf_asI64 s) h (by decide)
        (by simp [PayloadInner.members, entries_cons]) (asI64_int _)
    · exact written_found (leaf_asUnsigned s) h (by decide)
        (by simp [PayloadInner.members, entries_cons])
        (asUnsigned_int tx.verified_at_timestamp.toNat_lt)
    · exact written_found (leaf_asUnsigned s) h (by decide)
        (by simp [PayloadInner.members, entries_cons]) (asUnsigned_int tx.generated_at.toNat_lt)
    · have hentry : entries ((key "type", .str type_) :: (PayloadInner.VerifiedProof tx).members)
          (key "failed") = [.bool tx.failed] := by
        simp [PayloadInner.members, entries_cons]
      obtain ⟨v, hget, hv⟩ := s.value_of_once h hentry
      intro i hi
      rw [hget] at hi
      cases hi
      exact ⟨tx.failed, leaf_asBool s _ _ hv⟩

/-- A written payload shows what its type asks for exactly when it is checkable. -/
theorem written_shows_iff {inner : PayloadInner}
    (h : s.valueMembers [] ((key "type", .str type_) :: inner.members) = some payload) :
    Shows payload inner.tx_type ↔ inner.Checkable := by
  cases inner with
  | Transfer tx => exact iff_of_true (transfer_shows h) trivial
  | Unstake tx => exact iff_of_true (unstake_shows h) trivial
  | Stake tx => exact stake_shows_iff h
  | VerifiedProof tx => exact verified_proof_shows_iff h
  | RegisterCapacity tx => exact register_capacity_shows_iff h
  | UnregisterCapacity tx => exact iff_of_true (unregister_capacity_shows h) trivial
  | UpdateCapacityMerkleRoot tx => exact iff_of_true (update_capacity_merkle_root_shows h) trivial
  | PostMessage tx => exact iff_of_true (post_message_shows h) trivial
  | AddNamespace tx => exact iff_of_true (add_namespace_shows h) trivial

end

theorem signed_wired (n nonce : UInt32) (type_ : String) (inner : PayloadInner) :
    (signed n.toNat nonce type_ inner).Wired Outside.toy := by
  have hvalue : (BitVec.ofNat 256 n.toNat).toNat = n.toNat := by
    rw [BitVec.toNat_ofNat]
    exact Nat.mod_eq_of_lt (Nat.lt_trans n.toNat_lt (by decide))
  have hkey : decode_fixed_hex 32 (hexDigits 64 n.toNat) "public_key"
      = .ok (BitVec.ofNat 256 n.toNat) := by
    have hdecode := decode_fixed_hex_hexDigits (n := 32) (by decide) (BitVec.ofNat 256 n.toNat)
      "public_key"
    rw [hvalue] at hdecode
    exact hdecode
  refine ⟨isHexOf_hexDigits, isHexOf_hexDigits, ?_, by simp [signed]⟩
  simp only [signed, Outside.toy, hkey]
  rfl

end eld_chain
