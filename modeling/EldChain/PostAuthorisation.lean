-- A post into a namespace should come from the owner of the namespace, as
-- the sender of the transaction or as the user who signed the post. The
-- chain compares the owner with the signer that the post names and looks
-- at no signature of his, so this is left to whoever sends the post.
import EldChain.AcceptedForms
import EldChain.CommitProgress
import EldChain.PostSignatures

open Std

namespace eld_chain

variable {o : Outside} {ed : Ed25519} {pc : ProtocolConstants} {cfg : GenesisConfig}

/-! ## Who stands behind a post -/

/-- The transaction is signed with the key of an address. -/
def Tx.SentBy (o : Outside) (tx : Tx) (chain_id : String) (a : Address) : Prop :=
  ∃ key, o.verifying_key tx.public_key = some key ∧ o.signature_valid tx chain_id key = true ∧
    o.address_of_key key = a

/-- The request names the address as its signer, and its signature verifies, under a key of that
address, over what the user signs. -/
def PostMessageUserRequest.SignedBy (o : Outside) (ed : Ed25519)
    (request : PostMessageUserRequest) (message_bytes : Bytes) (a : Address) : Prop :=
  ∃ pubkey_bytes key tags signature,
    decode_fixed_hex 20 request.original_signer "address" = .ok a ∧
    hex_decode request.original_signer_pubkey = .ok pubkey_bytes ∧
    ed.from_bytes (BitVec.ofNat 256 (ofBeBytes pubkey_bytes)) = .ok key ∧
    Address.verify_derives_from_pubkey_hex o a request.original_signer_pubkey = .ok () ∧
    canonicalize_post_message_tags request.tags = .ok tags ∧
    hex_decode request.user_signature = .ok signature ∧ signature.length = 64 ∧
    ed.verify key (post_message_user_signing_bytes_with_tags message_bytes request tags)
      signature = .ok ()

/-- The user at the address signed a request that this post comes from. -/
def PostMessageTx.SignedBy (o : Outside) (ed : Ed25519) (pm : PostMessageTx) (a : Address) : Prop :=
  ∃ (message_bytes : Bytes) (request : PostMessageUserRequest),
    request.build_post_message pm.sender a pm.received_timestamp = .ok pm ∧
    request.SignedBy o ed message_bytes a

/-- A post into a namespace that the open block accepts. -/
structure NamespacePost (o : Outside) (pc : ProtocolConstants) (n : Node) (r : Request) (tx : Tx)
    (pm : PostMessageTx) (namespace_ : Text) : Prop where
  phase : n.phase = .delivering
  request : r = .DeliverTx (.ok tx)
  inner : tx.payload.inner = .PostMessage pm
  named : pm.namespace_ = some namespace_
  accepted : (deliver_tx_inner o pc n.conn (.ok tx)).1.code = 0

/-- An accepted post into a namespace comes from the owner who is recorded then. -/
def Node.Authorised (o : Outside) (ed : Ed25519) (pc : ProtocolConstants) (n : Node)
    (r : Request) : Prop :=
  ∀ tx pm namespace_, NamespacePost o pc n r tx pm namespace_ →
    ∃ record, n.state.envelope.resolve_namespace namespace_ = .ok (some record) ∧
      (tx.SentBy o n.conn.committed_state.chain_id record.owner ∨ pm.SignedBy o ed record.owner)

/-- An accepted post into a namespace is sent or signed by the signer that it names. -/
def Node.Attested (o : Outside) (ed : Ed25519) (pc : ProtocolConstants) (n : Node)
    (r : Request) : Prop :=
  ∀ tx pm namespace_, NamespacePost o pc n r tx pm namespace_ →
    pm.sender = pm.original_signer ∨ pm.SignedBy o ed pm.original_signer

/-! ## What the chain checks -/

variable {n : Node} {r : Request} {tx : Tx} {pm : PostMessageTx} {namespace_ : Text}

/-- A namespace that a post carries is registered to the signer that the post names. -/
theorem owner_of_authorization {e : AppStateEnvelope} {slug : Option Text}
    (hnamed : pm.namespace_ = some namespace_)
    (h : validate_namespace_upload_authorization pm.namespace_ pm.original_signer
      e.resolve_namespace = .ok slug) :
    ∃ record, e.resolve_namespace namespace_ = .ok (some record) ∧
      record.owner = pm.original_signer := by
  have hresolved := pm.namespace_resolved
  rw [hnamed] at hresolved
  unfold validate_namespace_upload_authorization at h
  rw [hnamed, hresolved] at h
  simp only at h
  cases hlookup : e.resolve_namespace namespace_ with
  | error err =>
    rw [hlookup] at h
    cases h
  | ok found =>
    rw [hlookup] at h
    cases found with
    | none => cases h
    | some record =>
      simp only at h
      by_cases howner : record.owner = pm.original_signer
      · exact ⟨record, rfl, howner⟩
      · rw [if_pos howner] at h
        cases h

theorem verify_of_admission {c : ConsensusConnection} {s : AppState}
    (h : admission o c tx = .ok s) : o.verify tx c.committed_state.chain_id = true := by
  unfold admission at h
  by_cases hverify : o.verify tx c.committed_state.chain_id = true
  · exact hverify
  · simp only [hverify] at h
    cases h

/-- A verified transaction is signed by its sender and by nobody else. -/
theorem sentBy_iff {chain_id : String} (h : o.verify tx chain_id = true) (a : Address) :
    tx.SentBy o chain_id a ↔ tx.payload.inner.sender = a := by
  unfold Outside.verify at h
  cases hkey : o.verifying_key tx.public_key with
  | none =>
    rw [hkey] at h
    cases h
  | some key =>
    rw [hkey] at h
    simp only [Bool.and_eq_true, beq_iff_eq] at h
    obtain ⟨hvalid, hsender⟩ := h
    unfold Tx.SentBy
    rw [hkey, hsender]
    constructor
    · rintro ⟨key', hkey', _, haddress⟩
      cases hkey'
      exact haddress
    · intro haddress
      exact ⟨key, rfl, hvalid, haddress⟩

/-- What the chain has checked of an accepted post into a namespace. -/
theorem NamespacePost.checked (h : NamespacePost o pc n r tx pm namespace_) :
    o.verify tx n.conn.committed_state.chain_id = true ∧
      ∃ record, n.state.envelope.resolve_namespace namespace_ = .ok (some record) ∧
        record.owner = pm.original_signer := by
  have hcode := h.accepted
  cases hadmission : admission o n.conn tx with
  | error r =>
    unfold deliver_tx_inner at hcode
    simp only [hadmission] at hcode
    exact absurd hcode (admission_code hadmission)
  | ok s =>
    refine ⟨verify_of_admission hadmission, ?_⟩
    rw [(@deliver_tx_inner.spec o pc _ _ _ hadmission).1] at hcode
    simp only [Tx.process, h.inner] at hcode
    obtain ⟨s₀, hs₀, _, _, ⟨sender, rest, hcharged⟩, _⟩ := admission.spec hadmission
    have hstate := state_of_current (by simp [h.phase]) hs₀
    have hsame : s.envelope.resolve_namespace = n.state.envelope.resolve_namespace := by
      rw [hstate, hcharged.staged]
      rfl
    rw [← hsame]
    unfold process_post_message_tx at hcode
    cases hauthorized : validate_namespace_upload_authorization pm.namespace_ pm.original_signer
        s.envelope.resolve_namespace with
    | error err =>
      rw [hauthorized] at hcode
      exact absurd hcode (Nat.succ_ne_zero _)
    | ok slug => exact owner_of_authorization h.named hauthorized

/-! ## Runs -/

theorem authorised_iff (n : Node) (r : Request) :
    n.Authorised o ed pc r ↔ n.Attested o ed pc r := by
  apply forall₄_congr
  intro tx pm namespace_ hpost
  obtain ⟨hverify, record, hrecord, howner⟩ := hpost.checked
  have hsender : tx.payload.inner.sender = pm.sender := by
    rw [hpost.inner]
    rfl
  constructor
  · rintro ⟨record', hrecord', hbehind⟩
    rw [hrecord] at hrecord'
    cases hrecord'
    rw [sentBy_iff hverify, hsender, howner] at hbehind
    exact hbehind
  · intro hbehind
    refine ⟨record, hrecord, ?_⟩
    rw [sentBy_iff hverify, hsender, howner]
    exact hbehind

/-- In a run every accepted post into a namespace comes from the owner exactly when each of
them is sent or signed by the signer that it names. -/
theorem namespace_posts_authorised_iff (o : Outside) (ed : Ed25519) (pc : ProtocolConstants)
    (cfg : GenesisConfig) (requests : List Request) :
    (∀ p ∈ runs.visits (Node.step o pc) requests (genesis o pc cfg), p.1.Authorised o ed pc p.2) ↔
      ∀ p ∈ runs.visits (Node.step o pc) requests (genesis o pc cfg), p.1.Attested o ed pc p.2 := by
  apply forall₂_congr
  intro p _
  exact authorised_iff p.1 p.2

/-! ## The posts of the upload API -/

theorem asText_eq_ok {A : Type} {x : Except EldError A} {a : A} :
    asText x = .ok a ↔ x = .ok a :=
  mapError_eq_ok

theorem fixedHex_eq_ok {k : Nat} {text : Text} {not_hex wrong_length : String} {bytes : Bytes}
    (h : fixedHex k text not_hex wrong_length = .ok bytes) :
    hex_decode text = .ok bytes ∧ bytes.length = k := by
  unfold fixedHex at h
  cases hdecode : hex_decode text with
  | error e =>
    rw [hdecode] at h
    cases h
  | ok decoded =>
    rw [hdecode] at h
    simp only at h
    by_cases hlength : decoded.length = k
    · rw [if_pos hlength] at h
      cases h
      exact ⟨rfl, hlength⟩
    · rw [if_neg hlength] at h
      cases h

theorem signedBy_of_validate {message_bytes : Bytes} {request : PostMessageUserRequest}
    (h : validate_post_message_user_signature o ed message_bytes request = .ok ()) :
    ∃ a, decode_fixed_hex 20 request.original_signer "address" = .ok a ∧
      request.SignedBy o ed message_bytes a := by
  unfold validate_post_message_user_signature at h
  simp only [bind_eq_ok] at h
  obtain ⟨_, _, _, _, h⟩ := h
  split at h
  · cases h
  · simp only [bind_eq_ok, asText_eq_ok, mapError_eq_ok] at h
    obtain ⟨pubkey_bytes, hpubkey, key, hkey, a, ha, _, hderives, tags, htags, h⟩ := h
    split at h
    · cases h
    · obtain ⟨signature, hsignature, hverify⟩ := bind_eq_ok.mp h
      obtain ⟨hdecoded, hlength⟩ := fixedHex_eq_ok hsignature
      exact ⟨a, ha, pubkey_bytes, key, tags, signature, ha, (fixedHex_eq_ok hpubkey).1, hkey,
        hderives, htags, hdecoded, hlength, mapError_eq_ok.mp hverify⟩

theorem fields_of_new {u : PostMessageTxUnchecked} (h : PostMessageTx.new u = .ok pm) :
    pm.sender = u.sender ∧ pm.original_signer = u.original_signer ∧
      pm.received_timestamp = u.received_timestamp ∧ pm.user_signature = u.user_signature := by
  unfold PostMessageTx.new at h
  split at h
  · cases h
  · split at h
    · cases h
    · split at h
      · cases h
      · cases h
        exact ⟨rfl, rfl, rfl, rfl⟩

/-- An upload makes posts that the user signed and no others. -/
theorem signedBy_of_upload {sender : Address} {received_timestamp : UInt64} {message_bytes : Bytes}
    {request : PostMessageUserRequest}
    (h : validate_message_and_build_post_message o ed sender received_timestamp message_bytes
      request = .ok pm) : pm.SignedBy o ed pm.original_signer := by
  unfold validate_message_and_build_post_message at h
  simp only [bind_eq_ok, asText_eq_ok] at h
  obtain ⟨_, hvalid, a, ha, hbuilt⟩ := h
  obtain ⟨signer, hsigner, hsigned⟩ := signedBy_of_validate hvalid
  rw [ha] at hsigner
  cases hsigner
  obtain ⟨hsender, hsigner, htime, _⟩ := fields_of_new hbuilt
  refine ⟨message_bytes, request, ?_, ?_⟩
  · rw [hsender, hsigner, htime]
    exact hbuilt
  · rw [hsigner]
    exact hsigned

/-! ## A post in the name of another -/

/-- The signature of a signed post is 64 bytes in hex. -/
theorem PostMessageTx.SignedBy.signature {a : Address} (h : pm.SignedBy o ed a) :
    ∃ bytes, hex_decode pm.user_signature = .ok bytes ∧ bytes.length = 64 := by
  obtain ⟨_, request, hbuilt, _, _, _, signature, _, _, _, _, _, hdecoded, hlength, _⟩ := h
  obtain ⟨_, _, _, hsame⟩ := fields_of_new hbuilt
  rw [hsame]
  exact ⟨signature, hdecoded, hlength⟩

theorem blog_canonical : CanonicalSlug "blog".toList where
  valid := rfl
  not_reserved := rfl

/-- Alice registers a namespace. -/
def aliceRegisters : Tx :=
  signed 1 1 "AddNamespace" (.AddNamespace {
    sender := alice
    namespace_slug := "blog".toList
    registration_fee := 5
    slug_canonical := blog_canonical
    fee_pos := five_pos
    fee_le := five_le_maxCoin })

theorem blog_resolved : resolve_optional_namespace (some "blog".toList) = .ok (some "blog".toList) :=
  rfl

theorem noTags_canonical : canonicalize_post_message_tags [] = .ok [] := rfl

/-- A post that Bob sends with Alice as its signer, without her signature. -/
def bobsPost : PostMessageTx where
  sender := bob
  original_signer := alice
  original_signer_pubkey := hexDigits 64 1
  content_key := "k".toList
  message_id := "m".toList
  expires_height := 0
  visibility := "public".toList
  topic := none
  tags := []
  content_type := "text/plain".toList
  fee_amount := 0
  received_timestamp := 0
  user_signature := "00".toList
  namespace_ := some "blog".toList
  fee_amount_lt := zero_lt_u128
  content_type_allowed := plainText_allowed
  tags_canonical := noTags_canonical
  namespace_resolved := blog_resolved

def bobPosts : Tx := signed 2 1 "PostMessage" (.PostMessage bobsPost)

/-- A signature scheme that finds every signature right. -/
def Ed25519.toy : Ed25519 where
  from_bytes bytes := .ok bytes
  verify _ _ _ := .ok ()

/-- Bob posts into the namespace that Alice registered. -/
def postedByAnother : List Request := [.BeginBlock, .DeliverTx (.ok aliceRegisters)]

/-- The chain accepts a post into Alice's namespace that she neither sent nor signed. -/
theorem post_of_another_is_accepted :
    ¬ ∀ p ∈ runs.visits (Node.step Outside.toy smallConstants)
      (postedByAnother ++ [.DeliverTx (.ok bobPosts)])
      (genesis Outside.toy smallConstants smallConfig),
        p.1.Authorised Outside.toy Ed25519.toy smallConstants p.2 := by
  intro hall
  have hrun : (runs.run (Node.step Outside.toy smallConstants) postedByAnother
      (genesis Outside.toy smallConstants smallConfig)).any (fun n =>
        decide (n.phase = .delivering) &&
        decide ((deliver_tx_inner Outside.toy smallConstants n.conn (.ok bobPosts)).1.code = 0))
      = true := by decide +kernel
  obtain ⟨n, hn, hchecks⟩ := (Option.any_eq_true _ _).mp hrun
  obtain ⟨hphase, hcode⟩ := Bool.and_eq_true_iff.mp hchecks
  have hvisit := @runs.mem_visits_of_earlier _ _ _ (postedByAnother ++ [.DeliverTx (.ok bobPosts)])
    _ _ _ (.DeliverTx (.ok bobPosts)) hn List.prefix_rfl
  have hpost : NamespacePost Outside.toy smallConstants n (.DeliverTx (.ok bobPosts)) bobPosts
      bobsPost "blog".toList :=
    ⟨of_decide_eq_true hphase, rfl, rfl, rfl, of_decide_eq_true hcode⟩
  have hauthorised := hall _ hvisit
  rw [authorised_iff] at hauthorised
  rcases hauthorised bobPosts bobsPost "blog".toList hpost with hsent | hsigned
  · exact alice_ne_bob hsent.symm
  · obtain ⟨bytes, hdecoded, hlength⟩ := hsigned.signature
    have hzero : hex_decode bobsPost.user_signature = .ok [0] := rfl
    rw [hzero] at hdecoded
    cases hdecoded
    cases hlength

end eld_chain
