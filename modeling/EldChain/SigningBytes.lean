-- What a signature of a transaction is bound to: the bytes that are signed
-- are the JSON text with an empty signature, and right behind it the chain
-- id. The text is one object, so it ends where it ends, and its members
-- give the transaction back: no two transactions or chains sign alike.
import EldChain.AppHash
import EldChain.Chain
import EldChain.CodecRoundTrip
import EldChain.PostSignatures
import EldChain.TxBuilders

open json

namespace eld_chain

variable (o : Outside) (ed : Ed25519)

/-! ## What is signed -/

/-- The bytes that `Tx::sign` and `Tx::verify` build. -/
def Tx.signing_bytes (tx : Tx) (chain_id : String) : Bytes :=
  Text.bytes { tx with sig := [] }.to_string ++ Text.bytes chain_id.toList

theorem Tx.sign_signing_bytes (tx : Tx) (wallet : Wallet) (chain_id : String) :
    tx.sign wallet chain_id =
      { tx with sig := hexDigits 128 (wallet.signature (tx.signing_bytes chain_id)).toNat } := rfl

/-- The signature itself is not signed. -/
theorem Tx.signing_bytes_sig (tx : Tx) (sig : Text) (chain_id : String) :
    { tx with sig := sig }.signing_bytes chain_id = tx.signing_bytes chain_id := rfl

def TxPublicKey.to_verifying_key (public_key : Text) : Except EldError Bytes32 := do
  let invalid := EldError.ValidationError "public_key" (String.ofList public_key)
  let bytes ← (fixedHex 32 public_key "invalid public_key hex: "
    "public_key must be 32 bytes").mapError invalid
  (ed.from_bytes (BitVec.ofNat 256 (ofBeBytes bytes))).mapError
    (fun e => invalid ("invalid ed25519 public_key: " ++ e))

def TxSig.to_signature (sig : Text) : Except EldError Bytes :=
  (fixedHex 64 sig "invalid signature hex: " "signature must be 64 bytes").mapError
    (EldError.ValidationError "sig" "[redacted]")

def Tx.verify (tx : Tx) (chain_id : String) : Except EldError Bool := do
  let public_key ← TxPublicKey.to_verifying_key ed tx.public_key
  let signature ← TxSig.to_signature tx.sig
  match ed.verify public_key (tx.signing_bytes chain_id) signature with
  | .error _ => .ok false
  | .ok () => .ok (tx.payload.inner.sender == o.address_of_key public_key)

theorem Tx.verify_eq_true {tx : Tx} {chain_id : String} :
    tx.verify o ed chain_id = .ok true ↔ ∃ public_key signature,
      TxPublicKey.to_verifying_key ed tx.public_key = .ok public_key ∧
      TxSig.to_signature tx.sig = .ok signature ∧
      ed.verify public_key (tx.signing_bytes chain_id) signature = .ok () ∧
      tx.payload.inner.sender = o.address_of_key public_key := by
  unfold Tx.verify
  rcases hkey : TxPublicKey.to_verifying_key ed tx.public_key with e | public_key
  · simp [bind, Except.bind]
  · rcases hsig : TxSig.to_signature tx.sig with e | signature
    · simp [bind, Except.bind]
    · rcases hverify : ed.verify public_key (tx.signing_bytes chain_id) signature with e | ⟨⟩
      · simp [bind, Except.bind, hverify]
      · simp [bind, Except.bind, hverify]

/-- The outside whose transactions are signed in a scheme. -/
def Outside.signedIn : Outside :=
  { o with
    verifying_key := fun public_key => (TxPublicKey.to_verifying_key ed public_key).toOption
    signature_valid := fun tx chain_id public_key =>
      match TxSig.to_signature tx.sig with
      | .error _ => false
      | .ok signature => (ed.verify public_key (tx.signing_bytes chain_id) signature).isOk }

/-- Over such an outside the chain asks for exactly what the scheme verifies. -/
theorem Outside.verify_signedIn (tx : Tx) (chain_id : String) :
    (o.signedIn ed).verify tx chain_id = true ↔ tx.verify o ed chain_id = .ok true := by
  rw [Tx.verify_eq_true]
  unfold Outside.verify Outside.signedIn
  rcases hkey : TxPublicKey.to_verifying_key ed tx.public_key with e | public_key
  · simp [hkey, Except.toOption]
  · rcases hsig : TxSig.to_signature tx.sig with e | signature
    · simp [hkey, hsig, Except.toOption]
    · rcases hverify : ed.verify public_key (tx.signing_bytes chain_id) signature with e | ⟨⟩
      · simp [hkey, hsig, hverify, Except.toOption, Except.isOk, Except.toBool]
      · simp [hkey, hsig, hverify, Except.toOption, Except.isOk, Except.toBool,
          Outside.address_of_key]

/-! ## One text for one transaction -/

/-- The transactions agree in all that is signed. -/
structure Tx.SignedAlike (tx tx' : Tx) : Prop where
  nonce : tx.nonce = tx'.nonce
  payload : tx.payload = tx'.payload
  public_key : tx.public_key = tx'.public_key
  fee : tx.fee = tx'.fee

/-- No two payloads have the same members, whichever variants they are. -/
theorem PayloadInner.members_inj {inner inner' : PayloadInner}
    (h : inner.members = inner'.members) : inner = inner' := by
  have hdecode := inner.decode_members
  rw [h, inner'.decode_members] at hdecode
  exact (Option.some.inj hdecode).symm

theorem Payload.json_inj {p p' : Payload} (h : p.json = p'.json) : p = p' := by
  obtain ⟨type_, inner⟩ := p
  obtain ⟨type_', inner'⟩ := p'
  simp only [Payload.json, Json.obj.injEq, List.cons.injEq, Prod.mk.injEq, true_and,
    Json.str.injEq] at h
  rw [h.1, PayloadInner.members_inj h.2]

theorem Tx.json_inj {tx tx' : Tx} (h : tx.json = tx'.json) : tx.SignedAlike tx' := by
  simp only [Tx.json, Json.obj.injEq, List.cons.injEq, Prod.mk.injEq, true_and, and_true,
    Json.str.injEq, Json.int.injEq, Int.natCast_inj] at h
  obtain ⟨_, hnonce, hpayload, hkey, hfee⟩ := h
  have hvalue : tx.nonce.value = tx'.nonce.value := UInt32.toNat_inj.mp hnonce
  exact ⟨congrArg Nonce.mk hvalue, Payload.json_inj hpayload, hkey, hfee⟩

theorem Text.bytes_append (s t : Text) : Text.bytes (s ++ t) = Text.bytes s ++ Text.bytes t :=
  List.flatMap_append

/-- The text of the object ends before the chain id, so the bytes fix both. -/
theorem Tx.signing_bytes_inj {tx tx' : Tx} {chain_id chain_id' : String}
    (h : tx.signing_bytes chain_id = tx'.signing_bytes chain_id') :
    tx.SignedAlike tx' ∧ chain_id = chain_id' := by
  unfold Tx.signing_bytes at h
  rw [← Text.bytes_append, ← Text.bytes_append] at h
  have htext := Text.bytes_injective h
  obtain ⟨hjson, hchain⟩ := compact_append_inj (Tx.json_whole _) (Tx.json_whole _)
    (fun _ => nofun) (fun _ => nofun) htext
  have halike := Tx.json_inj hjson
  exact ⟨⟨halike.nonce, halike.payload, halike.public_key, halike.fee⟩,
    String.toList_inj.mp hchain⟩

/-! ## What keys sign -/

/-- The bytes that a provider signs to answer a challenge. -/
def capacity_challenge_response_signing_bytes (challenge_id provider_id challenger : Text)
    (block_height : I64) (proofs : List ChunkProof) (generated_at : UInt64)
    (provider_pubkey : Text) : Bytes :=
  Text.bytes (Json.obj [(key "challenge_id", .str challenge_id),
    (key "provider_id", .str provider_id), (key "challenger", .str challenger),
    (key "block_height", .int block_height.val),
    (key "proofs", .arr (proofs.map ChunkProof.json)),
    (key "generated_at", .int generated_at.toNat),
    (key "provider_pubkey", .str provider_pubkey)]).compact

/-- The three things that the program signs with a key. -/
inductive Signing
  | transaction (tx : Tx) (chain_id : String)
  | post (message_bytes : Bytes) (request : PostMessageUserRequest) (tags : List Text)
  | response (challenge_id provider_id challenger : Text) (block_height : I64)
      (proofs : List ChunkProof) (generated_at : UInt64) (provider_pubkey : Text)

def Signing.bytes : Signing → Bytes
  | .transaction tx chain_id => tx.signing_bytes chain_id
  | .post message_bytes request tags =>
    post_message_user_signing_bytes_with_tags message_bytes request tags
  | .response challenge_id provider_id challenger block_height proofs generated_at
      provider_pubkey =>
    capacity_challenge_response_signing_bytes challenge_id provider_id challenger block_height
      proofs generated_at provider_pubkey

/-- The first letter of the first member. -/
def Signing.letter : Signing → UInt8
  | .transaction _ _ => 115
  | .post _ _ _ => 111
  | .response _ _ _ _ _ _ _ => 99

/-- The text of an object opens with a brace and a quote, and then its first member. -/
theorem bytes_object {c : Char} {b : UInt8} (hplain : escapeChar c = [c])
    (hb : String.utf8EncodeChar c = [b]) (name : List Char) (j : Json)
    (members : List (List Char × Json)) :
    ∃ rest, Text.bytes (Json.obj ((c :: name, j) :: members)).compact = 123 :: 34 :: b :: rest := by
  have hbrace : String.utf8EncodeChar '\x7b' = [123] := by decide
  have hquote : String.utf8EncodeChar '"' = [34] := by decide
  rw [Json.compact, compactMembers_cons]
  simp only [memberText, quote, Text.bytes, List.flatMap_cons, hplain, List.cons_append,
    List.nil_append, hbrace, hquote, hb, List.cons.injEq, true_and]
  exact ⟨_, rfl⟩

theorem Signing.opens (s : Signing) : ∃ rest, s.bytes = 123 :: 34 :: s.letter :: rest := by
  cases s with
  | transaction tx chain_id =>
    obtain ⟨rest, hrest⟩ := bytes_object (c := 's') (b := 115) (by decide) (by decide) _ _ _
    exact ⟨rest ++ Text.bytes chain_id.toList, congrArg (· ++ _) hrest⟩
  | post message_bytes request tags =>
    obtain ⟨rest, hrest⟩ := bytes_object (c := 'o') (b := 111) (by decide) (by decide) _ _ _
    exact ⟨rest ++ message_bytes, congrArg (· ++ _) hrest⟩
  | response challenge_id provider_id challenger block_height proofs generated_at
      provider_pubkey =>
    exact bytes_object (c := 'c') (b := 99) (by decide) (by decide) _ _ _

/-- What has the bytes of a transaction is a transaction, and the same one. -/
theorem Signing.eq_transaction {s : Signing} {tx : Tx} {chain_id : String}
    (h : s.bytes = tx.signing_bytes chain_id) :
    ∃ tx', s = .transaction tx' chain_id ∧ tx.SignedAlike tx' := by
  obtain ⟨rest, hrest⟩ := s.opens
  obtain ⟨rest', hrest'⟩ := (Signing.transaction tx chain_id).opens
  have hletter : s.letter = 115 := by
    rw [Signing.bytes] at hrest'
    rw [h, hrest'] at hrest
    simp only [List.cons.injEq, true_and] at hrest
    exact hrest.1.symm
  cases s with
  | transaction tx' chain_id' =>
    obtain ⟨halike, hchain⟩ := Tx.signing_bytes_inj h.symm
    rw [hchain]
    exact ⟨tx', rfl, halike⟩
  | post message_bytes request tags => cases hletter
  | response challenge_id provider_id challenger block_height proofs generated_at
      provider_pubkey => cases hletter

/-- A scheme that nobody forges: what verifies for a key was signed by its holder. -/
def Ed25519.Unforgeable (signed : List (Bytes32 × Signing)) : Prop :=
  ∀ public_key bytes signature, ed.verify public_key bytes signature = .ok () →
    ∃ p ∈ signed, p.1 = public_key ∧ p.2.bytes = bytes

/-- The scheme in which what was signed verifies, and nothing else. -/
def Ed25519.recorded (signed : List (Bytes32 × Signing)) : Ed25519 where
  from_bytes bytes := .ok bytes
  verify public_key bytes _ :=
    if ∃ p ∈ signed, p.1 = public_key ∧ p.2.bytes = bytes then .ok ()
    else .error "signature error"

theorem Ed25519.recorded_unforgeable (signed : List (Bytes32 × Signing)) :
    (Ed25519.recorded signed).Unforgeable signed := by
  intro public_key bytes signature hverify
  by_contra hnot
  simp only [Ed25519.recorded, if_neg hnot, reduceCtorEq] at hverify

/-- Equal bytes are bytes of one transaction for one chain. So what verifies for a chain was
signed by the holder of its key, for this chain and with all that is in it. -/
theorem signatures_bind_transaction_and_chain :
    (∀ (tx tx' : Tx) (chain_id chain_id' : String),
      tx.signing_bytes chain_id = tx'.signing_bytes chain_id' →
        tx.SignedAlike tx' ∧ chain_id = chain_id') ∧
    (∀ (o : Outside) (ed : Ed25519) (signed : List (Bytes32 × Signing)),
      ed.Unforgeable signed → ∀ (tx : Tx) (chain_id : String),
        tx.verify o ed chain_id = .ok true →
          ∃ public_key tx', TxPublicKey.to_verifying_key ed tx.public_key = .ok public_key ∧
            (public_key, .transaction tx' chain_id) ∈ signed ∧ tx.SignedAlike tx') := by
  refine ⟨fun _ _ _ _ => Tx.signing_bytes_inj, ?_⟩
  intro o ed signed hunforgeable tx chain_id hverify
  obtain ⟨public_key, signature, hkey, _, hsigned, _⟩ := (Tx.verify_eq_true o ed).mp hverify
  obtain ⟨⟨holder, s⟩, hp, rfl, hbytes⟩ := hunforgeable _ _ _ hsigned
  obtain ⟨tx', rfl, halike⟩ := Signing.eq_transaction hbytes
  exact ⟨holder, tx', hkey, hp, halike⟩

/-- Alice has signed her registration for the small chain. -/
def registrationSigned : List (Bytes32 × Signing) := [(1, .transaction registration "small")]

theorem registration_verifies :
    registration.verify Outside.toy (Ed25519.recorded registrationSigned) "small" = .ok true := by
  decide +kernel

/-- What she signed is valid on the small chain and on no other. -/
theorem signatures_bind_registration :
    (registration.SignedAlike { registration with sig := [] } ∧ "small" = "small") ∧
    registration.verify Outside.toy (Ed25519.recorded registrationSigned) "large" = .ok false ∧
    ∃ public_key tx', TxPublicKey.to_verifying_key (Ed25519.recorded registrationSigned)
        registration.public_key = .ok public_key ∧
      (public_key, .transaction tx' "small") ∈ registrationSigned ∧
      registration.SignedAlike tx' :=
  ⟨signatures_bind_transaction_and_chain.1 registration { registration with sig := [] }
      "small" "small" (Tx.signing_bytes_sig registration [] "small").symm,
    by decide +kernel,
    signatures_bind_transaction_and_chain.2 Outside.toy (Ed25519.recorded registrationSigned)
      registrationSigned (Ed25519.recorded_unforgeable _) registration "small"
      registration_verifies⟩

end eld_chain
