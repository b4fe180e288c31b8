-- What is written is read back: the tree of a transaction decodes to the
-- same transaction, whichever of the nine payloads it carries. No payload
-- is taken for another one, because each lacks a field that every earlier
-- form needs, or has one that an earlier form denies.
import EldChain.WireForms

open json

namespace eld_chain

variable (o : Outside) (s : SerdeJson)

/-! ## Single values -/

@[simp]
theorem asAddress_addressJson (a : Address) : asAddress (addressJson a) = some a := by
  have hdecode : decode_fixed_hex 20 (Address.text a) "address" = .ok a :=
    decode_fixed_hex_of_strip (n := 20) (by omega) a (Address.text a) "address" rfl
  simp only [asAddress, addressJson, hdecode]
  rfl

theorem asAmount_amountJson {n : Nat} (h : n < 2 ^ 128) : asAmount (amountJson n) = some n :=
  parse_u128_toDigits h

theorem asAmount_coin {n : Nat} (h : n ≤ MAX_COIN) : asAmount (amountJson n) = some n :=
  asAmount_amountJson (Nat.lt_of_le_of_lt h (by decide))

theorem asBoundedAmount_amountJson {n : Nat} (h : n < 2 ^ 128) :
    asBoundedAmount (amountJson n) = some ⟨n, h⟩ := by
  have hparse := parse_u128_toDigits h
  unfold asBoundedAmount amountJson
  simp only
  split
  · rename_i hnone
    rw [hparse] at hnone
    cases hnone
  · rename_i hsome
    rw [hparse] at hsome
    cases hsome
    rfl

theorem isHexOf_hexDigits {n v : Nat} : isHexOf n (hexDigits (2 * n) v) = true := by
  unfold isHexOf
  rw [length_hexDigits, beq_self_eq_true, Bool.true_and, List.all_eq_true]
  intro c hc
  obtain ⟨d, hd, rfl⟩ := mem_hexDigits hc
  rw [hexVal_hexChar hd]
  rfl

@[simp]
theorem asHex32_hex32Json (b : Bytes32) : asHex32 (hex32Json b) = some b := by
  have hnumber : hexNumber (hexDigits 64 b.toNat) = some b.toNat :=
    hexNumber_hexDigits (Nat.lt_of_lt_of_le b.isLt (by decide))
  simp only [asHex32, hex32Json, isHexOf_hexDigits (n := 32), if_true, hnumber, Option.map_some,
    BitVec.ofNat_toNat, BitVec.setWidth_eq]

/-- A list is read back when each of its items is. -/
theorem asSeq_map {α β : Type} {item : Json → Option α} {write : β → Json} {f : β → α}
    {l : List β} (h : ∀ b ∈ l, item (write b) = some (f b)) :
    asSeq item (.arr (l.map write)) = some (l.map f) := by
  unfold asSeq
  simp only
  induction l with
  | nil => rfl
  | cons b l ih =>
    have hrest := ih (fun c hc => h c (List.mem_cons_of_mem _ hc))
    rw [List.map_cons, List.mapM_cons, h b List.mem_cons_self, hrest]
    rfl

theorem asSeq_same {α : Type} {item : Json → Option α} {write : α → Json} {l : List α}
    (h : ∀ a ∈ l, item (write a) = some a) : asSeq item (.arr (l.map write)) = some l := by
  rw [asSeq_map (f := id) h, List.map_id]

@[simp]
theorem asBytes_bytesJson (b : Bytes) : asBytes (bytesJson b) = some b := by
  have hseq : asSeq (asUnsigned 8) (bytesJson b) = some (b.map UInt8.toNat) :=
    asSeq_map (fun x _ => asUnsigned_int x.toNat_lt)
  rw [asBytes, hseq, Option.map_some, List.map_map]
  simp [Function.comp_def]

/-- Big-endian bytes spell the number they were cut from. -/
theorem ofBeBytes_beBytes {n v : Nat} (h : v < 256 ^ n) : ofBeBytes (beBytes n v) = v := by
  unfold ofBeBytes beBytes
  rw [List.foldl_reverse]
  induction n generalizing v with
  | zero =>
    rw [leBytes, List.foldr_nil]
    omega
  | succ n ih =>
    have hhigh := ih (Nat.div_lt_of_lt_mul (by rw [← Nat.pow_succ']; exact h))
    rw [leBytes, List.foldr_cons, hhigh]
    have hlow : (UInt8.ofNat v).toNat = v % 256 := UInt8.toNat_ofNat'
    rw [hlow, Nat.div_add_mod]

/-- 32 big-endian bytes spell the value they were cut from. -/
theorem key_of_beBytes (key : Bytes32) : BitVec.ofNat 256 (ofBeBytes (beBytes 32 key.toNat)) = key := by
  rw [ofBeBytes_beBytes (Nat.lt_of_lt_of_le key.isLt (by decide)), BitVec.ofNat_toNat]
  exact BitVec.setWidth_eq key

@[simp]
theorem asBytes32_bytes32Json (b : Bytes32) : asBytes32 (bytes32Json b) = some b := by
  simp only [asBytes32, bytes32Json, asBytes_bytesJson, length_beBytes, if_true, key_of_beBytes]

@[simp]
theorem asOption_optionJson (t : Option Text) : asOption asStr (optionJson t) = some t := by
  cases t <;> rfl

@[simp]
theorem asUInt64_int (x : UInt64) : asUInt64 (.int x.toNat) = some x := by
  rw [asUInt64, asUnsigned_int x.toNat_lt]
  simp

@[simp]
theorem asUInt32_int (x : UInt32) : asUInt32 (.int x.toNat) = some x := by
  rw [asUInt32, asUnsigned_int x.toNat_lt]
  simp

@[simp]
theorem asI64_int (x : I64) : asI64 (.int x.val) = some x := by
  rw [asI64, dif_pos ⟨x.lo, x.hi⟩]

theorem asIndex_int {n : Nat} (h : n < 2 ^ 64) : asIndex (.int n) = some ⟨n, h⟩ := by
  have hread := asUnsigned_int h
  unfold asIndex
  split
  · rename_i hnone
    rw [hread] at hnone
    cases hnone
  · rename_i hsome
    rw [hread] at hsome
    cases hsome
    rfl

theorem SlotState.decode_json (st : SlotState) : SlotState.decode st.json = some st := by
  cases st with
  | Proof => simp [SlotState.json, SlotState.decode]
  | Open => simp [SlotState.json, SlotState.decode]
  | Content deal_id committed_hash =>
    simp [SlotState.json, SlotState.decode, SlotState.decodeContent, structMembers, required,
      entries_cons, asStr]

theorem ChunkProof.decode_json (p : ChunkProof) : ChunkProof.decode p.json = some p := by
  have hproof : asSeq asBytes32 (.arr (p.merkle_proof.map bytes32Json)) = some p.merkle_proof :=
    asSeq_same (fun b _ => asBytes32_bytes32Json b)
  simp [ChunkProof.json, ChunkProof.decode, structMembers, required, entries_cons,
    asIndex_int p.chunk_index_lt, hproof, SlotState.decode_json]

/-! ## Constructors -/

/-- Every payload is one that its constructor gives. -/
theorem TransferTx.new_self (tx : TransferTx) :
    TransferTx.new tx.sender tx.recipient tx.amount = .ok tx := by
  have hpos := tx.amount_pos
  have hle := tx.amount_le
  rw [TransferTx.new, dif_neg tx.sender_ne_recipient, dif_neg (by omega), dif_neg (by omega)]

theorem UnstakeTx.new_self (tx : UnstakeTx) : UnstakeTx.new tx.sender tx.amount = .ok tx := by
  have hpos := tx.amount_pos
  have hle := tx.amount_le
  rw [UnstakeTx.new, dif_neg (by omega), dif_neg (by omega)]

theorem StakeTx.new_self (tx : StakeTx) :
    StakeTx.new tx.sender tx.amount tx.public_key = .ok tx := by
  have hpos := tx.amount_pos
  have hle := tx.amount_le
  have hkey : isStakeKey tx.public_key := by
    intro pk hpk
    obtain ⟨hlen, hhex⟩ := tx.key_hex pk hpk
    exact ⟨by rw [utf8Len_of_hex hhex, hlen], hhex⟩
  rw [StakeTx.new, dif_neg (by omega), dif_neg (by omega), dif_pos hkey]

theorem RegisterCapacityTx.new_self (tx : RegisterCapacityTx) :
    RegisterCapacityTx.new tx.sender tx.capacity_bytes tx.merkle_root tx.seed tx.chunk_count
      = .ok tx := by
  rw [RegisterCapacityTx.new, dif_neg tx.capacity_pos]

theorem UnregisterCapacityTx.new_self (tx : UnregisterCapacityTx) :
    UnregisterCapacityTx.new tx.sender tx.unregister = .ok tx := by
  rw [UnregisterCapacityTx.new, dif_pos tx.unregister_true]

/-- The wire of a message. -/
def PostMessageTx.unchecked (tx : PostMessageTx) : PostMessageTxUnchecked :=
  ⟨tx.sender, tx.original_signer, tx.original_signer_pubkey, tx.content_key, tx.message_id,
    tx.expires_height, tx.visibility, tx.topic, tx.tags, tx.content_type, tx.fee_amount,
    tx.received_timestamp, tx.user_signature, tx.namespace_, tx.fee_amount_lt⟩

theorem PostMessageTx.new_self (tx : PostMessageTx) : PostMessageTx.new tx.unchecked = .ok tx := by
  have htype : validate_post_message_content_type tx.unchecked.content_type = .ok () :=
    tx.content_type_allowed
  have htags : canonicalize_post_message_tags tx.unchecked.tags = .ok tx.tags := tx.tags_canonical
  have hname : resolve_optional_namespace tx.unchecked.namespace_ = .ok tx.namespace_ :=
    tx.namespace_resolved
  unfold PostMessageTx.new
  split
  · simp_all
  · split
    · simp_all
    · rename_i tags htags'
      split
      · simp_all
      · rename_i name hname'
        rw [htags] at htags'
        rw [hname] at hname'
        cases htags'
        cases hname'
        rfl

theorem AddNamespaceTx.new_self (tx : AddNamespaceTx) :
    AddNamespaceTx.new tx.sender tx.namespace_slug tx.registration_fee = .ok tx := by
  have hslug := normalize_of_valid tx.slug_canonical.valid
  have hpos := tx.fee_pos
  have hle := tx.fee_le
  unfold AddNamespaceTx.new
  split
  · simp_all
  · rename_i canonical hcanonical
    rw [hslug] at hcanonical
    cases hcanonical
    rw [dif_neg (by rw [tx.slug_canonical.not_reserved]; decide), dif_neg (by omega),
      dif_neg (by omega)]

/-- The wire of a verified proof. -/
def VerifiedProofTx.unchecked (tx : VerifiedProofTx) : VerifiedProofTxUnchecked :=
  ⟨tx.sender, tx.capacity_provider, tx.challenge_id, tx.block_height, tx.verified_at_block,
    tx.verified_at_timestamp, tx.proofs, tx.generated_at, tx.provider_pubkey,
    tx.provider_signature, tx.failed⟩

theorem VerifiedProofTx.new_self (tx : VerifiedProofTx) :
    VerifiedProofTx.new tx.unchecked = .ok tx := by
  have hid : validate_verified_proof_challenge_id tx.unchecked.challenge_id = .ok () := tx.id_safe
  have hheight : 0 < tx.unchecked.block_height.val := tx.height_pos
  have hafter : tx.unchecked.block_height.val ≤ tx.unchecked.verified_at_block.val :=
    tx.verified_after
  have hverified : ¬ ¬ inTimestampRange tx.unchecked.verified_at_timestamp :=
    not_not.mpr tx.verified_at_range
  have hgenerated : ¬ ¬ inTimestampRange tx.unchecked.generated_at :=
    not_not.mpr tx.generated_at_range
  have hproofs : tx.unchecked.proofs ≠ [] := tx.proofs_nonempty
  have hpubkey : tx.unchecked.provider_pubkey ≠ [] := tx.pubkey_nonempty
  have hsignature : tx.unchecked.provider_signature ≠ [] := tx.signature_nonempty
  unfold VerifiedProofTx.new
  split
  · simp_all
  · rw [dif_neg (by omega), if_neg (by omega), dif_neg (by omega), dif_neg hverified,
      dif_neg hproofs, dif_neg hgenerated, dif_neg hpubkey, dif_neg hsignature]
    rfl

/-! ## Payloads -/

theorem PayloadInner.decodeAs_members (inner : PayloadInner) :
    PayloadInner.decodeAs inner.members inner.tx_type = some inner := by
  cases inner with
  | Transfer tx =>
    simp [PayloadInner.decodeAs, PayloadInner.tx_type, PayloadInner.members, TransferTx.decode,
      required, entries_cons, asAmount_coin tx.amount_le, tx.new_self, Except.toOption]
  | Unstake tx =>
    simp [PayloadInner.decodeAs, PayloadInner.tx_type, PayloadInner.members, UnstakeTx.decode,
      onlyFields, required, entries_cons, asAmount_coin tx.amount_le, tx.new_self, Except.toOption]
  | Stake tx =>
    simp [PayloadInner.decodeAs, PayloadInner.tx_type, PayloadInner.members, StakeTx.decode,
      required, defaulted, entries_cons, asAmount_coin tx.amount_le, tx.new_self, Except.toOption]
  | VerifiedProof tx =>
    have hproofs : asSeq ChunkProof.decode (.arr (tx.proofs.map ChunkProof.json)) = some tx.proofs :=
      asSeq_same (fun p _ => p.decode_json)
    have hnew := tx.new_self
    simp [VerifiedProofTx.unchecked] at hnew
    simp [PayloadInner.decodeAs, PayloadInner.tx_type, PayloadInner.members, VerifiedProofTx.decode,
      required, defaulted, entries_cons, asStr, asBool, hproofs, hnew, Except.toOption]
  | RegisterCapacity tx =>
    simp [PayloadInner.decodeAs, PayloadInner.tx_type, PayloadInner.members,
      RegisterCapacityTx.decode, required, entries_cons, tx.new_self, Except.toOption]
  | UnregisterCapacity tx =>
    simp [PayloadInner.decodeAs, PayloadInner.tx_type, PayloadInner.members,
      UnregisterCapacityTx.decode, required, entries_cons, asBool, tx.new_self, Except.toOption]
  | UpdateCapacityMerkleRoot tx =>
    simp [PayloadInner.decodeAs, PayloadInner.tx_type, PayloadInner.members,
      UpdateCapacityMerkleRootTx.decode, required, entries_cons, UpdateCapacityMerkleRootTx.new,
      Except.toOption]
  | PostMessage tx =>
    have htags : asSeq asStr (.arr (tx.tags.map Json.str)) = some tx.tags :=
      asSeq_same (fun t _ => rfl)
    have hnew := tx.new_self
    simp [PostMessageTx.unchecked] at hnew
    simp [PayloadInner.decodeAs, PayloadInner.tx_type, PayloadInner.members, PostMessageTx.decode,
      required, defaulted, entries_cons, asStr, htags, asBoundedAmount_amountJson tx.fee_amount_lt,
      hnew, Except.toOption]
  | AddNamespace tx =>
    simp [PayloadInner.decodeAs, PayloadInner.tx_type, PayloadInner.members, AddNamespaceTx.decode,
      onlyFields, required, entries_cons, asStr, asAmount_coin tx.fee_le, tx.new_self,
      Except.toOption]

/-- What was written for one payload fits no type that is tried before. -/
theorem PayloadInner.not_fits_before (inner : PayloadInner) (t : TxType)
    (ht : t ∈ inner.tx_type.before) : ¬ Fits inner.members t := by
  -- Only the stake has the marker of an earlier form, and it has a field that the form denies.
  have hmarker : entries inner.members (key t.marker) = [] ∨
      (t = .Unstake ∧ onlyFields ["sender", "amount"] inner.members = false) := by
    cases inner <;> cases t <;>
      first
      | (simp [PayloadInner.tx_type, TxType.before, TxType.order] at ht; done)
      | (left; simp [PayloadInner.members, TxType.marker, entries_cons]; done)
      | (right; simp [PayloadInner.members, onlyFields])
  intro hfits
  rcases hmarker with hmissing | ⟨rfl, hdenied⟩
  · exact hfits.marker hmissing
  · have hallowed : onlyFields ["sender", "amount"] inner.members = true := hfits.1
    rw [hdenied] at hallowed
    cases hallowed

theorem PayloadInner.decode_members (inner : PayloadInner) :
    PayloadInner.decode inner.members = some inner :=
  PayloadInner.decode_first inner.decodeAs_members (inner.not_fits_before)

/-! ## Transactions -/

/-- The members of a payload are those of its type's struct: none of them is named `type`. -/
theorem innerMembers_json (p : Payload) :
    innerMembers ((key "type", .str p.type_) :: p.inner.members) = p.inner.members := by
  obtain ⟨type_, inner⟩ := p
  cases inner <;> simp [innerMembers, PayloadInner.members]

theorem isMachineInt_nat {n : Nat} (h : n < 2 ^ 64) : isMachineInt n = true := by
  simp only [isMachineInt, Bool.and_eq_true, decide_eq_true_eq]
  omega

theorem bytesJson_tidy (b : Bytes) : tidy (bytesJson b) = true := by
  rw [bytesJson, tidy, tidyItems_iff]
  intro j hj
  obtain ⟨x, _, rfl⟩ := List.mem_map.mp hj
  rw [tidy]
  exact isMachineInt_nat (Nat.lt_trans x.toNat_lt (by decide))

theorem SlotState.json_tidy (st : SlotState) : tidy st.json = true := by
  cases st <;> simp [SlotState.json, tidy, tidyMembers, bytes32Json, bytesJson_tidy]

theorem ChunkProof.json_tidy (p : ChunkProof) : tidy p.json = true := by
  have hproof : tidyItems (p.merkle_proof.map bytes32Json) = true := by
    rw [tidyItems_iff]
    intro j hj
    obtain ⟨b, _, rfl⟩ := List.mem_map.mp hj
    exact bytesJson_tidy _
  simp [ChunkProof.json, tidy, tidyMembers, isMachineInt_nat p.chunk_index_lt, bytesJson_tidy,
    bytes32Json, hproof, SlotState.json_tidy]

theorem optionJson_tidy (t : Option Text) : tidy (optionJson t) = true := by
  cases t <;> simp [optionJson, tidy]

theorem isMachineInt_i64 (x : I64) : isMachineInt x.val = true := by
  have hlo := x.lo
  have hhi := x.hi
  simp only [isMachineInt, Bool.and_eq_true, decide_eq_true_eq]
  omega

/-- The tree of a payload has only machine integers and no key twice. -/
theorem Payload.json_tidy (p : Payload) : tidy p.json = true := by
  obtain ⟨type_, inner⟩ := p
  cases inner with
  | VerifiedProof tx =>
    have hproofs : tidyItems (tx.proofs.map ChunkProof.json) = true := by
      rw [tidyItems_iff]
      intro j hj
      obtain ⟨p, _, rfl⟩ := List.mem_map.mp hj
      exact p.json_tidy
    simp [Payload.json, PayloadInner.members, tidy, tidyMembers, addressJson,
      isMachineInt_i64, isMachineInt_nat (UInt64.toNat_lt _), hproofs]
  | RegisterCapacity tx =>
    simp [Payload.json, PayloadInner.members, tidy, tidyMembers, addressJson, hex32Json,
      isMachineInt_nat (UInt64.toNat_lt _),
      isMachineInt_nat (Nat.lt_trans (UInt32.toNat_lt tx.chunk_count) (by decide))]
  | PostMessage tx =>
    have htags : tidyItems (tx.tags.map Json.str) = true := by
      rw [tidyItems_iff]
      intro j hj
      obtain ⟨t, _, rfl⟩ := List.mem_map.mp hj
      rfl
    simp [Payload.json, PayloadInner.members, tidy, tidyMembers, addressJson, amountJson,
      optionJson_tidy, isMachineInt_nat (UInt64.toNat_lt _), htags]
  | _ => simp [Payload.json, PayloadInner.members, tidy, tidyMembers, addressJson,
      amountJson, hex32Json, optionJson_tidy]

theorem bytesJson_depth (b : Bytes) : (bytesJson b).depth ≤ 1 := by
  have hitems : depthItems (b.map (fun x => Json.int x.toNat)) ≤ 0 := by
    rw [depthItems_le_iff]
    intro j hj
    obtain ⟨x, _, rfl⟩ := List.mem_map.mp hj
    simp [Json.depth]
  rw [bytesJson, Json.depth]
  omega

theorem SlotState.json_depth (st : SlotState) : st.json.depth ≤ 3 := by
  cases st with
  | Proof => simp [SlotState.json, Json.depth]
  | Open => simp [SlotState.json, Json.depth]
  | Content deal_id committed_hash =>
    have hhash := bytesJson_depth (beBytes 32 committed_hash.toNat)
    simp only [SlotState.json, Json.depth, depthMembers, bytes32Json]
    omega

theorem ChunkProof.json_depth (p : ChunkProof) : p.json.depth ≤ 4 := by
  have hdata := bytesJson_depth p.chunk_data
  have hhash := bytesJson_depth (beBytes 32 p.chunk_hash.toNat)
  have hslot := p.slot_state.json_depth
  have hproof : depthItems (p.merkle_proof.map bytes32Json) ≤ 1 := by
    rw [depthItems_le_iff]
    intro j hj
    obtain ⟨b, _, rfl⟩ := List.mem_map.mp hj
    exact bytesJson_depth _
  simp only [ChunkProof.json, Json.depth, depthMembers, bytes32Json] at hproof ⊢
  omega

theorem optionJson_depth (t : Option Text) : (optionJson t).depth = 0 := by
  cases t <;> simp [optionJson, Json.depth]

/-- A payload never nests deeper than the proofs of a challenge do. -/
theorem Payload.json_depth (p : Payload) : p.json.depth ≤ 6 := by
  obtain ⟨type_, inner⟩ := p
  cases inner with
  | VerifiedProof tx =>
    have hproofs : depthItems (tx.proofs.map ChunkProof.json) ≤ 4 := by
      rw [depthItems_le_iff]
      intro j hj
      obtain ⟨p, _, rfl⟩ := List.mem_map.mp hj
      exact p.json_depth
    simp only [Payload.json, PayloadInner.members, Json.depth, depthMembers, addressJson]
    omega
  | PostMessage tx =>
    have htags : depthItems (tx.tags.map Json.str) ≤ 0 := by
      rw [depthItems_le_iff]
      intro j hj
      obtain ⟨t, _, rfl⟩ := List.mem_map.mp hj
      simp [Json.depth]
    simp only [Payload.json, PayloadInner.members, Json.depth, depthMembers, addressJson,
      amountJson, optionJson_depth]
    omega
  | _ => simp [Payload.json, PayloadInner.members, Json.depth, depthMembers, addressJson,
      amountJson, hex32Json, optionJson_depth]

theorem PayloadInner.members_type (inner : PayloadInner) :
    entries inner.members (key "type") = [] := by
  cases inner <;> simp [PayloadInner.members, entries_cons]

theorem Payload.decode_json (p : Payload) : Payload.decode s p.json = some p := by
  obtain ⟨v, hv, _⟩ := s.value_tidy _ p.json_tidy
  have hdepth : p.json.depth < RECURSION_LIMIT := Nat.lt_of_le_of_lt p.json_depth (by decide)
  have htype : required asStr ((key "type", .str p.type_) :: p.inner.members) "type"
      = some p.type_ := by
    rw [required, entries_cons_self, p.inner.members_type]
    rfl
  unfold Payload.json at hv hdepth ⊢
  rw [Payload.decode]
  simp only [guard, hdepth, hv, Option.isSome_some, if_true, htype, innerMembers_json,
    p.inner.decode_members]
  rfl

/-- The key, the signature and the fee of a transaction have their wire forms. -/
structure Tx.Wired (tx : Tx) : Prop where
  sig_hex : isHexOf 64 tx.sig = true
  key_hex : isHexOf 32 tx.public_key = true
  key_valid : (o.verifying_key tx.public_key).isSome = true
  fee_lt : tx.fee < 2 ^ 128

theorem Tx.json_whole (tx : Tx) : tx.json.whole = true := by
  have hpayload := whole_of_tidy _ tx.payload.json_tidy
  simp [Tx.json, Json.whole, wholeMembers, hpayload]

theorem Tx.tree_to_string (tx : Tx) : s.tree tx.to_string = some tx.json :=
  s.tree_compact _ tx.json_whole

variable {o}

theorem Tx.Readable.decode_json {tx : Tx} (h : tx.Readable o) :
    Tx.decode o s tx.json = some tx := by
  simp [Tx.json, Tx.decode, structMembers, required, entries_cons, h.sig, h.public_key,
    Payload.decode_json, asUnsigned_int h.fee_lt]

theorem Tx.Wired.readable {tx : Tx} (h : tx.Wired o) : tx.Readable o where
  sig := by rw [asTxSig, if_pos (Or.inr h.sig_hex)]
  public_key := by rw [asTxPublicKey, if_pos ⟨h.key_hex, h.key_valid⟩]
  fee_lt := h.fee_lt

theorem Tx.decode_json {tx : Tx} (h : tx.Wired o) : Tx.decode o s tx.json = some tx :=
  h.readable.decode_json s

theorem Tx.from_to_string {tx : Tx} (h : tx.Wired o) : s.from_str_tx o tx.to_string = .ok tx := by
  rw [SerdeJson.from_str_tx, Tx.tree_to_string, Option.bind_some, Tx.decode_json s h]

theorem BuiltTx.wired (b : BuiltTx o) : b.tx.Wired o :=
  ⟨isHexOf_hexDigits, b.key_hex, b.key_valid, b.fee_lt⟩

/-- Decoding what was encoded gives the transaction back: the same fields, the same kind of
payload and, encoded again, the same text. -/
theorem tx_json_round_trip (b : BuiltTx o) :
    ∃ tx, s.from_str_tx o b.tx.to_string = .ok tx ∧ tx = b.tx ∧
      tx.payload.inner.tx_type = b.inner.tx_type ∧ tx.to_string = b.tx.to_string :=
  ⟨b.tx, Tx.from_to_string s b.wired, rfl, rfl, rfl⟩

end eld_chain
