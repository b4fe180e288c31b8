-- When the members of an object are a payload of a type: each field stands
-- once, reads as a value of its own type, and the values pass the rules of
-- the constructor. This is exactly when the type's decoder takes them, and
-- the untagged enum reads them as the first type they fit.
import EldChain.Codec

open json

namespace eld_chain

/-! ## What the constructors accept -/

/-- A check that comes first has to be passed, and then the rest. -/
theorem isSome_check {α : Type} {p : Prop} [Decidable p] {e : EldError}
    {rest : ¬ p → Except EldError α} :
    (if h : p then .error e else rest h : Except EldError α).toOption.isSome = true ↔
      ∃ h : ¬ p, (rest h).toOption.isSome = true := by
  by_cases h : p
  · simp [h, Except.toOption]
  · simp [h]

theorem isSome_check_ite {α : Type} {p : Prop} [Decidable p] {e : EldError}
    {rest : Except EldError α} :
    (if p then .error e else rest : Except EldError α).toOption.isSome = true ↔
      ¬ p ∧ rest.toOption.isSome = true := by
  by_cases h : p
  · simp [h, Except.toOption]
  · simp [h]

theorem isSome_ok {α : Type} (a : α) :
    (.ok a : Except EldError α).toOption.isSome = true ↔ True := by
  simp [Except.toOption]

theorem TransferTx.new_isSome (sender recipient : Address) (amount : Nat) :
    (TransferTx.new sender recipient amount).toOption.isSome = true ↔
      sender ≠ recipient ∧ 0 < amount ∧ amount ≤ MAX_COIN := by
  simp only [TransferTx.new, isSome_check, isSome_ok, exists_prop, and_true]
  constructor
  · rintro ⟨hne, hmax, hzero⟩
    exact ⟨hne, by omega, by omega⟩
  · rintro ⟨hne, hpos, hle⟩
    exact ⟨hne, by omega, by omega⟩

theorem UnstakeTx.new_isSome (sender : Address) (amount : Nat) :
    (UnstakeTx.new sender amount).toOption.isSome = true ↔ 0 < amount ∧ amount ≤ MAX_COIN := by
  simp only [UnstakeTx.new, isSome_check, isSome_ok, exists_prop, and_true]
  omega

theorem StakeTx.new_isSome (sender : Address) (amount : Nat) (public_key : Option Text) :
    (StakeTx.new sender amount public_key).toOption.isSome = true ↔
      0 < amount ∧ amount ≤ MAX_COIN ∧ isStakeKey public_key := by
  simp only [StakeTx.new, isSome_check]
  by_cases hkey : isStakeKey public_key
  · simp only [hkey, dif_pos, isSome_ok, exists_prop, and_true]
    omega
  · simp [hkey, Except.toOption]

theorem RegisterCapacityTx.new_isSome (sender : Address) (capacity_bytes : UInt64)
    (merkle_root seed : Bytes32) (chunk_count : UInt32) :
    (RegisterCapacityTx.new sender capacity_bytes merkle_root seed chunk_count).toOption.isSome
      = true ↔ capacity_bytes ≠ 0 := by
  simp only [RegisterCapacityTx.new, isSome_check, isSome_ok, exists_prop, and_true, ne_eq]

theorem UnregisterCapacityTx.new_isSome (sender : Address) (unregister : Bool) :
    (UnregisterCapacityTx.new sender unregister).toOption.isSome = true ↔ unregister = true := by
  unfold UnregisterCapacityTx.new
  by_cases h : unregister = true
  · simp [h, Except.toOption]
  · simp [h, Except.toOption]

/-- What a message has to satisfy. -/
structure PostMessageTxUnchecked.Valid (u : PostMessageTxUnchecked) : Prop where
  content_type_allowed : validate_post_message_content_type u.content_type = .ok ()
  tags_allowed : (canonicalize_post_message_tags u.tags).isOk = true
  namespace_allowed : (resolve_optional_namespace u.namespace_).isOk = true

theorem PostMessageTx.new_isSome (u : PostMessageTxUnchecked) :
    (PostMessageTx.new u).toOption.isSome = true ↔ u.Valid := by
  unfold PostMessageTx.new
  split
  · rename_i e herr
    simp only [Except.toOption, Option.isSome_none, Bool.false_eq_true, false_iff]
    intro h
    rw [h.content_type_allowed] at herr
    cases herr
  · rename_i htype
    split
    · rename_i e herr
      simp only [Except.toOption, Option.isSome_none, Bool.false_eq_true, false_iff]
      intro h
      have := h.tags_allowed
      rw [herr] at this
      cases this
    · rename_i tags htags
      split
      · rename_i e herr
        simp only [Except.toOption, Option.isSome_none, Bool.false_eq_true, false_iff]
        intro h
        have := h.namespace_allowed
        rw [herr] at this
        cases this
      · rename_i name hname
        simp only [Except.toOption, Option.isSome_some, true_iff]
        exact ⟨htype, by rw [htags]; rfl, by rw [hname]; rfl⟩

/-- A slug that has a canonical form. -/
def SlugAllowed (slug : Text) : Prop :=
  ∃ canonical, normalize_namespace_slug slug = .ok canonical ∧
    is_reserved_namespace_slug canonical = false

theorem AddNamespaceTx.new_isSome (sender : Address) (slug : Text) (fee : Nat) :
    (AddNamespaceTx.new sender slug fee).toOption.isSome = true ↔
      SlugAllowed slug ∧ 0 < fee ∧ fee ≤ MAX_COIN := by
  unfold AddNamespaceTx.new SlugAllowed
  split
  · rename_i e herr
    simp [Except.toOption, herr]
  · rename_i canonical hslug
    simp only [hslug, Except.ok.injEq, exists_eq_left']
    simp only [isSome_check, isSome_ok, exists_prop, and_true, Bool.not_eq_true]
    constructor
    · rintro ⟨hres, hzero, hmax⟩
      exact ⟨hres, by omega, by omega⟩
    · rintro ⟨hres, hpos, hle⟩
      exact ⟨hres, by omega, by omega⟩

/-- What a verified proof has to satisfy. -/
structure VerifiedProofTxUnchecked.Valid (u : VerifiedProofTxUnchecked) : Prop where
  id_safe : validate_verified_proof_challenge_id u.challenge_id = .ok ()
  height_pos : 0 < u.block_height.val
  verified_after : u.block_height.val ≤ u.verified_at_block.val
  verified_at_range : inTimestampRange u.verified_at_timestamp
  proofs_nonempty : u.proofs ≠ []
  generated_at_range : inTimestampRange u.generated_at
  pubkey_nonempty : u.provider_pubkey ≠ []
  signature_nonempty : u.provider_signature ≠ []

theorem VerifiedProofTx.new_isSome (u : VerifiedProofTxUnchecked) :
    (VerifiedProofTx.new u).toOption.isSome = true ↔ u.Valid := by
  unfold VerifiedProofTx.new
  split
  · rename_i e herr
    simp only [Except.toOption, Option.isSome_none, Bool.false_eq_true, false_iff]
    intro h
    rw [h.id_safe] at herr
    cases herr
  · rename_i hid
    simp only [isSome_check, isSome_check_ite, isSome_ok, exists_prop, and_true, not_not]
    constructor
    · rintro ⟨hheight, _, hafter, hverified, hproofs, hgenerated, hpubkey, hsignature⟩
      exact ⟨hid, by omega, by omega, hverified, hproofs, hgenerated, hpubkey, hsignature⟩
    · intro h
      have hheight := h.height_pos
      have hafter := h.verified_after
      exact ⟨by omega, by omega, by omega, h.verified_at_range, h.proofs_nonempty,
        h.generated_at_range, h.pubkey_nonempty, h.signature_nonempty⟩

/-! ## The forms -/

/-- The members hold what a verified proof is made of. -/
structure VerifiedProofTxUnchecked.Reads (u : VerifiedProofTxUnchecked) (members : Members) :
    Prop where
  sender : required asAddress members "sender" = some u.sender
  capacity_provider : required asAddress members "capacity_provider" = some u.capacity_provider
  challenge_id : required asStr members "challenge_id" = some u.challenge_id
  block_height : required asI64 members "block_height" = some u.block_height
  verified_at_block : required asI64 members "verified_at_block" = some u.verified_at_block
  verified_at_timestamp :
    required asUInt64 members "verified_at_timestamp" = some u.verified_at_timestamp
  proofs : required (asSeq ChunkProof.decode) members "proofs" = some u.proofs
  generated_at : required asUInt64 members "generated_at" = some u.generated_at
  provider_pubkey : required asStr members "provider_pubkey" = some u.provider_pubkey
  provider_signature : required asStr members "provider_signature" = some u.provider_signature
  failed : defaulted false asBool members "failed" = some u.failed

/-- The members hold what a message is made of. -/
structure PostMessageTxUnchecked.Reads (u : PostMessageTxUnchecked) (members : Members) :
    Prop where
  sender : required asAddress members "sender" = some u.sender
  original_signer : required asAddress members "original_signer" = some u.original_signer
  original_signer_pubkey :
    required asStr members "original_signer_pubkey" = some u.original_signer_pubkey
  content_key : required asStr members "content_key" = some u.content_key
  message_id : required asStr members "message_id" = some u.message_id
  expires_height : required asUInt64 members "expires_height" = some u.expires_height
  visibility : required asStr members "visibility" = some u.visibility
  topic : defaulted none (asOption asStr) members "topic" = some u.topic
  tags : defaulted [] (asSeq asStr) members "tags" = some u.tags
  content_type : required asStr members "content_type" = some u.content_type
  fee_amount :
    required asBoundedAmount members "fee_amount" = some ⟨u.fee_amount, u.fee_amount_lt⟩
  received_timestamp :
    required asUInt64 members "received_timestamp" = some u.received_timestamp
  user_signature : required asStr members "user_signature" = some u.user_signature
  namespace_ : defaulted none (asOption asStr) members "namespace" = some u.namespace_

/-- The members are a payload of the type. -/
def Fits (members : Members) : TxType → Prop
  | .Transfer => ∃ sender recipient amount,
      required asAddress members "sender" = some sender ∧
      required asAddress members "recipient" = some recipient ∧
      required asAmount members "amount" = some amount ∧
      sender ≠ recipient ∧ 0 < amount ∧ amount ≤ MAX_COIN
  | .Unstake => onlyFields ["sender", "amount"] members = true ∧ ∃ sender amount,
      required asAddress members "sender" = some sender ∧
      required asAmount members "amount" = some amount ∧ 0 < amount ∧ amount ≤ MAX_COIN
  | .Stake => ∃ sender amount public_key,
      required asAddress members "sender" = some sender ∧
      required asAmount members "amount" = some amount ∧
      defaulted none (asOption asStr) members "public_key" = some public_key ∧
      0 < amount ∧ amount ≤ MAX_COIN ∧ isStakeKey public_key
  | .VerifiedProof => ∃ u : VerifiedProofTxUnchecked, u.Reads members ∧ u.Valid
  | .RegisterCapacity => ∃ sender capacity_bytes merkle_root seed chunk_count,
      required asAddress members "sender" = some sender ∧
      required asUInt64 members "capacity_bytes" = some capacity_bytes ∧
      required asHex32 members "merkle_root" = some merkle_root ∧
      required asHex32 members "seed" = some seed ∧
      required asUInt32 members "chunk_count" = some chunk_count ∧ capacity_bytes ≠ 0
  | .UnregisterCapacity => ∃ sender unregister,
      required asAddress members "sender" = some sender ∧
      required asBool members "unregister" = some unregister ∧ unregister = true
  | .UpdateCapacityMerkleRoot => ∃ sender merkle_root,
      required asAddress members "sender" = some sender ∧
      required asHex32 members "merkle_root" = some merkle_root
  | .PostMessage => ∃ u : PostMessageTxUnchecked, u.Reads members ∧ u.Valid
  | .AddNamespace => onlyFields ["sender", "namespace_slug", "registration_fee"] members = true ∧
      ∃ sender slug fee,
        required asAddress members "sender" = some sender ∧
        required asStr members "namespace_slug" = some slug ∧
        required asAmount members "registration_fee" = some fee ∧
        SlugAllowed slug ∧ 0 < fee ∧ fee ≤ MAX_COIN

theorem isSome_bind_iff {α β : Type} {x : Option α} {f : α → Option β} :
    (x >>= f).isSome = true ↔ ∃ a, x = some a ∧ (f a).isSome = true := by
  cases x <;> simp

theorem isSome_guard_bind_iff {β : Type} {p : Prop} [Decidable p] {f : Unit → Option β} :
    (guard p >>= f).isSome = true ↔ p ∧ (f ()).isSome = true := by
  by_cases h : p <;> simp [guard, h]

theorem VerifiedProofTx.decode_isSome (members : Members) :
    (VerifiedProofTx.decode members).isSome = true ↔
      ∃ u : VerifiedProofTxUnchecked, u.Reads members ∧ u.Valid := by
  simp only [VerifiedProofTx.decode, isSome_bind_iff, VerifiedProofTx.new_isSome]
  constructor
  · rintro ⟨a, ha, b, hb, c, hc, d, hd, e, he, f, hf, g, hg, i, hi, j, hj, k, hk, l, hl, hv⟩
    exact ⟨_, ⟨ha, hb, hc, hd, he, hf, hg, hi, hj, hk, hl⟩, hv⟩
  · rintro ⟨u, hr, hv⟩
    exact ⟨_, hr.sender, _, hr.capacity_provider, _, hr.challenge_id, _, hr.block_height, _,
      hr.verified_at_block, _, hr.verified_at_timestamp, _, hr.proofs, _, hr.generated_at, _,
      hr.provider_pubkey, _, hr.provider_signature, _, hr.failed, hv⟩

theorem PostMessageTx.decode_isSome (members : Members) :
    (PostMessageTx.decode members).isSome = true ↔
      ∃ u : PostMessageTxUnchecked, u.Reads members ∧ u.Valid := by
  simp only [PostMessageTx.decode, isSome_bind_iff, PostMessageTx.new_isSome]
  constructor
  · rintro ⟨a, ha, b, hb, c, hc, d, hd, e, he, f, hf, g, hg, i, hi, j, hj, k, hk, l, hl, m, hm, n, hn,
      p, hp, hv⟩
    exact ⟨_, ⟨ha, hb, hc, hd, he, hf, hg, hi, hj, hk, hl, hm, hn, hp⟩, hv⟩
  · rintro ⟨u, hr, hv⟩
    exact ⟨_, hr.sender, _, hr.original_signer, _, hr.original_signer_pubkey, _, hr.content_key, _,
      hr.message_id, _, hr.expires_height, _, hr.visibility, _, hr.topic, _, hr.tags, _,
      hr.content_type, _, hr.fee_amount, _, hr.received_timestamp, _, hr.user_signature, _,
      hr.namespace_, hv⟩

/-- A decoder takes exactly the members that are a payload of its type. -/
theorem PayloadInner.decodeAs_isSome (members : Members) (t : TxType) :
    (PayloadInner.decodeAs members t).isSome = true ↔ Fits members t := by
  cases t with
  | Transfer =>
    simp only [PayloadInner.decodeAs, Option.isSome_map, TransferTx.decode, isSome_bind_iff,
      TransferTx.new_isSome, Fits]
    constructor
    · rintro ⟨a, ha, b, hb, n, hn, h⟩
      exact ⟨a, b, n, ha, hb, hn, h⟩
    · rintro ⟨a, b, n, ha, hb, hn, h⟩
      exact ⟨a, ha, b, hb, n, hn, h⟩
  | Unstake =>
    rw [PayloadInner.decodeAs, Option.isSome_map, UnstakeTx.decode, isSome_guard_bind_iff]
    simp only [isSome_bind_iff, UnstakeTx.new_isSome, Fits]
    constructor
    · rintro ⟨hf, a, ha, n, hn, h⟩
      exact ⟨hf, a, n, ha, hn, h⟩
    · rintro ⟨hf, a, n, ha, hn, h⟩
      exact ⟨hf, a, ha, n, hn, h⟩
  | Stake =>
    simp only [PayloadInner.decodeAs, Option.isSome_map, StakeTx.decode, isSome_bind_iff,
      StakeTx.new_isSome, Fits]
    constructor
    · rintro ⟨a, ha, n, hn, k, hk, h⟩
      exact ⟨a, n, k, ha, hn, hk, h⟩
    · rintro ⟨a, n, k, ha, hn, hk, h⟩
      exact ⟨a, ha, n, hn, k, hk, h⟩
  | VerifiedProof =>
    rw [PayloadInner.decodeAs, Option.isSome_map, VerifiedProofTx.decode_isSome]
    rfl
  | RegisterCapacity =>
    simp only [PayloadInner.decodeAs, Option.isSome_map, RegisterCapacityTx.decode, isSome_bind_iff,
      RegisterCapacityTx.new_isSome, Fits]
    constructor
    · rintro ⟨a, ha, b, hb, r, hr, d, hd, n, hn, h⟩
      exact ⟨a, b, r, d, n, ha, hb, hr, hd, hn, h⟩
    · rintro ⟨a, b, r, d, n, ha, hb, hr, hd, hn, h⟩
      exact ⟨a, ha, b, hb, r, hr, d, hd, n, hn, h⟩
  | UnregisterCapacity =>
    simp only [PayloadInner.decodeAs, Option.isSome_map, UnregisterCapacityTx.decode,
      isSome_bind_iff, UnregisterCapacityTx.new_isSome, Fits]
    constructor
    · rintro ⟨a, ha, b, hb, h⟩
      exact ⟨a, b, ha, hb, h⟩
    · rintro ⟨a, b, ha, hb, h⟩
      exact ⟨a, ha, b, hb, h⟩
  | UpdateCapacityMerkleRoot =>
    simp only [PayloadInner.decodeAs, Option.isSome_map, UpdateCapacityMerkleRootTx.decode,
      isSome_bind_iff, Fits]
    constructor
    · rintro ⟨a, ha, r, hr, _⟩
      exact ⟨a, r, ha, hr⟩
    · rintro ⟨a, r, ha, hr⟩
      exact ⟨a, ha, r, hr, rfl⟩
  | PostMessage =>
    rw [PayloadInner.decodeAs, Option.isSome_map, PostMessageTx.decode_isSome]
    rfl
  | AddNamespace =>
    rw [PayloadInner.decodeAs, Option.isSome_map, AddNamespaceTx.decode, isSome_guard_bind_iff]
    simp only [isSome_bind_iff, AddNamespaceTx.new_isSome, Fits]
    constructor
    · rintro ⟨hf, a, ha, t, ht, n, hn, h⟩
      exact ⟨hf, a, t, n, ha, ht, hn, h⟩
    · rintro ⟨hf, a, t, n, ha, ht, hn, h⟩
      exact ⟨hf, a, ha, t, ht, n, hn, h⟩

/-! ## The first form that fits -/

theorem PayloadInner.decodeAs_type {members : Members} {t : TxType} {inner : PayloadInner}
    (h : PayloadInner.decodeAs members t = some inner) : inner.tx_type = t := by
  cases t <;> simp only [PayloadInner.decodeAs, Option.map_eq_some_iff] at h <;>
    obtain ⟨tx, _, rfl⟩ := h <;> rfl

/-- The types that are tried before one. -/
def TxType.before (t : TxType) : List TxType := TxType.order.takeWhile (fun u => u ≠ t)

theorem TxType.order_split (t : TxType) : ∃ after, TxType.order = t.before ++ t :: after := by
  cases t <;> exact ⟨_, rfl⟩

theorem PayloadInner.decodeAs_eq_none (members : Members) (t : TxType) :
    PayloadInner.decodeAs members t = none ↔ ¬ Fits members t := by
  rw [← PayloadInner.decodeAs_isSome, Option.not_isSome_iff_eq_none]

/-- What a decoder takes is the payload, unless the members fit a type before. -/
theorem PayloadInner.decode_first {members : Members} {t : TxType} {inner : PayloadInner}
    (h : PayloadInner.decodeAs members t = some inner)
    (hbefore : ∀ u ∈ t.before, ¬ Fits members u) : PayloadInner.decode members = some inner := by
  obtain ⟨after, horder⟩ := t.order_split
  have hnone : t.before.findSome? (PayloadInner.decodeAs members) = none :=
    List.findSome?_eq_none_iff.mpr
      (fun u hu => (PayloadInner.decodeAs_eq_none members u).mpr (hbefore u hu))
  rw [PayloadInner.decode, horder, List.findSome?_append, hnone, List.findSome?_cons, h]
  rfl

/-- The enum is read as a type exactly when the members fit that type and none before it. -/
theorem PayloadInner.decode_type_iff (members : Members) (t : TxType) :
    (∃ inner, PayloadInner.decode members = some inner ∧ inner.tx_type = t) ↔
      Fits members t ∧ ∀ u ∈ t.before, ¬ Fits members u := by
  constructor
  · rintro ⟨inner, hfind, rfl⟩
    obtain ⟨l₁, u, l₂, hsplit, hu, hbefore⟩ := List.findSome?_eq_some_iff.mp hfind
    have htype := PayloadInner.decodeAs_type hu
    subst htype
    have hfits : Fits members inner.tx_type := by
      rw [← PayloadInner.decodeAs_isSome, hu]
      rfl
    -- The order lists no type twice, so the two splits at the type are the same.
    have hnotin : inner.tx_type ∉ l₁ := by
      intro hmem
      have hnone := hbefore _ hmem
      rw [hu] at hnone
      cases hnone
    have hl : inner.tx_type.before = l₁ := by
      rw [TxType.before, hsplit, List.takeWhile_append_of_pos]
      · simp
      · intro v hv
        simp only [ne_eq, decide_eq_true_eq]
        rintro rfl
        exact hnotin hv
    refine ⟨hfits, fun v hv => ?_⟩
    rw [hl] at hv
    exact (PayloadInner.decodeAs_eq_none members v).mp (hbefore v hv)
  · rintro ⟨hfits, hbefore⟩
    obtain ⟨inner, hinner⟩ := Option.isSome_iff_exists.mp
      ((PayloadInner.decodeAs_isSome members t).mpr hfits)
    exact ⟨inner, PayloadInner.decode_first hinner hbefore, PayloadInner.decodeAs_type hinner⟩

/-! ## Missing fields -/

/-- A field that a type needs. -/
def TxType.marker : TxType → String
  | .Transfer => "recipient"
  | .Unstake => "amount"
  | .Stake => "amount"
  | .VerifiedProof => "capacity_provider"
  | .RegisterCapacity => "capacity_bytes"
  | .UnregisterCapacity => "unregister"
  | .UpdateCapacityMerkleRoot => "merkle_root"
  | .PostMessage => "original_signer"
  | .AddNamespace => "namespace_slug"

theorem required_present {α : Type} {item : Json → Option α} {members : Members} {name : String}
    {a : α} (h : required item members name = some a) : entries members (key name) ≠ [] := by
  obtain ⟨j, hj, _⟩ := required_eq_some.mp h
  rw [hj]
  exact List.cons_ne_nil _ _

theorem Fits.marker {members : Members} {t : TxType} (h : Fits members t) :
    entries members (key t.marker) ≠ [] := by
  cases t with
  | Transfer =>
    obtain ⟨_, _, _, _, hr, _⟩ := h
    exact required_present hr
  | Unstake =>
    obtain ⟨_, _, _, _, hr, _⟩ := h
    exact required_present hr
  | Stake =>
    obtain ⟨_, _, _, _, hr, _⟩ := h
    exact required_present hr
  | VerifiedProof =>
    obtain ⟨_, hr, _⟩ := h
    exact required_present hr.capacity_provider
  | RegisterCapacity =>
    obtain ⟨_, _, _, _, _, _, hr, _⟩ := h
    exact required_present hr
  | UnregisterCapacity =>
    obtain ⟨_, _, _, hr, _⟩ := h
    exact required_present hr
  | UpdateCapacityMerkleRoot =>
    obtain ⟨_, _, _, hr⟩ := h
    exact required_present hr
  | PostMessage =>
    obtain ⟨_, hr, _⟩ := h
    exact required_present hr.original_signer
  | AddNamespace =>
    obtain ⟨_, _, _, _, _, hr, _⟩ := h
    exact required_present hr

end eld_chain
