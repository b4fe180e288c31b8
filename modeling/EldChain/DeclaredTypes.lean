-- A payload declares its type in a string, but its fields decide which
-- processor runs. The two agree exactly when the fields have the form of the
-- declared type and of no type that is tried before it.
import EldChain.Chain
import EldChain.WrittenForms

open json

namespace eld_chain

variable {o : Outside} {s : SerdeJson}

/-! ## The parts of a transaction's tree -/

def envelopeOf : Json → Members
  | .obj members => members
  | _ => []

/-- The members of the payload, its type among them. -/
def payloadOf (j : Json) : Members :=
  match entries (envelopeOf j) (key "payload") with
  | .obj members :: _ => members
  | _ => []

theorem Payload.decode_eq_some {jp : Json} {p : Payload} :
    Payload.decode s jp = some p ↔ ∃ pm, jp = .obj pm ∧
      (Json.obj pm).depth < RECURSION_LIMIT ∧ (s.value (.obj pm)).isSome = true ∧
      required asStr pm "type" = some p.type_ ∧
      PayloadInner.decode (innerMembers pm) = some p.inner := by
  cases jp with
  | obj pm =>
    by_cases hdepth : (Json.obj pm).depth < RECURSION_LIMIT
    · by_cases hbuilt : (s.value (.obj pm)).isSome = true
      · obtain ⟨type_, inner⟩ := p
        simp [Payload.decode, guard, hdepth, hbuilt, Option.bind_eq_some_iff]
      · simp [Payload.decode, guard, hdepth, hbuilt]
    · simp [Payload.decode, guard, hdepth]
  | _ => simp [Payload.decode]

theorem Tx.decode_eq_some {members : Members} {tx : Tx} :
    Tx.decode o s (.obj members) = some tx ↔
      required asTxSig members "sig" = some tx.sig ∧
      required asUInt32 members "nonce" = some tx.nonce.value ∧
      required (Payload.decode s) members "payload" = some tx.payload ∧
      required (asTxPublicKey o) members "public_key" = some tx.public_key ∧
      required (asUnsigned 128) members "fee" = some tx.fee := by
  obtain ⟨sig, ⟨nonce⟩, payload, public_key, fee⟩ := tx
  simp [Tx.decode, structMembers, Option.bind_eq_some_iff]

theorem SerdeJson.from_str_tx_eq_ok {text : Text} {tx : Tx} :
    s.from_str_tx o text = .ok tx ↔ ∃ j, s.tree text = some j ∧ Tx.decode o s j = some tx := by
  rw [← Option.bind_eq_some_iff, SerdeJson.from_str_tx]
  cases (s.tree text).bind (Tx.decode o s) <;> simp

variable {members out : Members} {j v : Json} {t : TxType} {obj payload : Members}

theorem PassesAs.tree (h : PassesAs v t obj payload) (hv : s.value j = some v) :
    ∃ members, j = .obj members ∧ s.valueMembers [] members = some obj := by
  rw [h.object] at hv
  exact SerdeJson.value_eq_obj hv

/-- The payload that the checks saw is the value of the payload that the decoder reads. -/
theorem payload_value {pm : Members} (hout : s.valueMembers [] members = some obj)
    (hj : entries members (key "payload") = [.obj pm])
    (hfound : found asObject obj "payload" = some payload) :
    s.valueMembers [] pm = some payload := by
  obtain ⟨w, hget, hw⟩ := s.value_of_once hout hj
  rw [found, hget, Option.bind_some] at hfound
  obtain ⟨out, hpm, rfl⟩ := s.value_obj hw
  cases hfound
  exact hpm

/-- So is the type it declares. -/
theorem declared_name {pm : Members} {name name' : Text}
    (hout : s.valueMembers [] pm = some payload) (hread : required asStr pm "type" = some name)
    (hfound : found asStr payload "type" = some name') : name = name' := by
  obtain ⟨jt, hjt, hstr⟩ := required_eq_some.mp hread
  obtain ⟨w, hget, hw⟩ := s.value_of_once hout hjt
  rw [found, hget, Option.bind_some, leaf_asStr s jt w hw, hstr] at hfound
  exact Option.some.inj hfound

/-- What was accepted and decoded: the payload's members, the type they declare and the
variant they were read as. -/
theorem PassesAs.decoded {tx : Tx} (h : PassesAs v t obj payload) (hv : s.value j = some v)
    (htx : Tx.decode o s j = some tx) :
    s.valueMembers [] (payloadOf j) = some payload ∧ tx.payload.type_ = key t.as_str ∧
      PayloadInner.decode (innerMembers (payloadOf j)) = some tx.payload.inner := by
  obtain ⟨members, rfl, hout⟩ := h.tree hv
  obtain ⟨_, _, hpayload, _, _⟩ := Tx.decode_eq_some.mp htx
  obtain ⟨jp, hjp, hdecode⟩ := required_eq_some.mp hpayload
  obtain ⟨pm, rfl, _, _, htype, hinner⟩ := Payload.decode_eq_some.mp hdecode
  have hpm : payloadOf (.obj members) = pm := by
    rw [payloadOf, envelopeOf, hjp]
  have hvalue := payload_value hout hjp h.payload_object
  rw [hpm]
  exact ⟨hvalue, declared_name hvalue htype h.type_name, hinner⟩

/-- The decoded variant is the declared type exactly when the fields have its form and no
earlier one. -/
theorem PassesAs.variant_iff {tx : Tx} (h : PassesAs v t obj payload) (hv : s.value j = some v)
    (htx : Tx.decode o s j = some tx) :
    tx.payload.inner.tx_type = t ↔
      OwnForm (innerMembers (payloadOf j)) t ∧
        ∀ u ∈ t.before, ¬ Fits (innerMembers (payloadOf j)) u := by
  obtain ⟨hvalue, _, hinner⟩ := h.decoded hv htx
  rw [← fits_iff_own_form hvalue t h.shows, ← PayloadInner.decode_type_iff]
  constructor
  · intro htype
    exact ⟨_, hinner, htype⟩
  · rintro ⟨inner, hfirst, htype⟩
    rw [hinner] at hfirst
    cases hfirst
    exact htype

/-! ## Which processor runs -/

/-- The transaction is executed by the processor of the type. -/
def Tx.RunsAs (tx : Tx) : TxType → Prop
  | .Transfer => ∃ p, ∀ o pc st e, tx.process o pc st e = process_transfer_tx o st e p
  | .Unstake => ∃ p, ∀ o pc st e, tx.process o pc st e = process_unstake_tx o st e p
  | .Stake => ∃ p, ∀ o pc st e, tx.process o pc st e = process_stake_tx o pc st e p
  | .VerifiedProof => ∃ p, ∀ o pc st e, tx.process o pc st e = process_verified_proof_tx o pc st e p
  | .RegisterCapacity => ∃ p, ∀ o pc st e,
      tx.process o pc st e = process_register_capacity_tx o pc st e p tx.public_key
  | .UnregisterCapacity => ∃ p, ∀ o pc st e,
      tx.process o pc st e = process_unregister_capacity_tx o st e p
  | .UpdateCapacityMerkleRoot => ∃ p, ∀ o pc st e,
      tx.process o pc st e = process_update_capacity_merkle_root_tx o st e p
  | .PostMessage => ∃ p, ∀ o pc st e, tx.process o pc st e = process_post_message_tx pc e p
  | .AddNamespace => ∃ p, ∀ o pc st e, tx.process o pc st e = process_add_namespace_tx o st e p

/-- A variant runs under its own processor, unless it is a stake declared as an unstake. -/
theorem Tx.runs_as_variant (tx : Tx) (h : tx.payload.type_ = key tx.payload.inner.tx_type.as_str) :
    tx.RunsAs tx.payload.inner.tx_type := by
  obtain ⟨sig, nonce, ⟨type_, inner⟩, public_key, fee⟩ := tx
  cases inner with
  | Stake p =>
    have hne : type_ ≠ "Unstake".toList := by
      intro heq
      have hname : key "Stake" = key "Unstake" := h.symm.trans heq
      exact absurd (key_inj.mp hname) (by decide)
    refine ⟨p, fun o pc st e => ?_⟩
    simp only [Tx.process]
    rw [if_neg hne]
  | _ => exact ⟨_, fun _ _ _ _ => rfl⟩

/-- An accepted transaction is read as the type it declares, and executed as that type,
exactly when its fields have the form of the type and of no type that is tried before. -/
theorem runs_as_declared_iff (o : Outside) (s : SerdeJson) {text : Text} {j v : Json} {tx : Tx}
    (htree : s.tree text = some j) (hvalue : s.from_str_value text = .ok v)
    (hvalid : validate_transaction_structure v = .ok ()) (htx : s.from_str_tx o text = .ok tx) :
    ∃ t : TxType, tx.payload.type_ = key t.as_str ∧
      ((tx.payload.inner.tx_type = t ∧ tx.RunsAs t) ↔
        OwnForm (innerMembers (payloadOf j)) t ∧
          ∀ u ∈ t.before, ¬ Fits (innerMembers (payloadOf j)) u) := by
  obtain ⟨j', htree', _, hv⟩ := SerdeJson.from_str_value_eq_ok.mp hvalue
  rw [htree] at htree'
  cases htree'
  obtain ⟨t, obj, payload, hpasses⟩ := (validate_transaction_structure_eq_ok v).mp hvalid
  obtain ⟨j', htree', hdecode⟩ := SerdeJson.from_str_tx_eq_ok.mp htx
  rw [htree] at htree'
  cases htree'
  have hname := (hpasses.decoded hv hdecode).2.1
  refine ⟨t, hname, ?_⟩
  rw [← hpasses.variant_iff hv hdecode]
  constructor
  · exact fun h => h.1
  · intro h
    refine ⟨h, ?_⟩
    rw [← h]
    exact tx.runs_as_variant (by rw [hname, h])

/-- Alice sends five base units to Bob. -/
def aliceSendsFive : Tx := aliceSends 1 bob alice_ne_bob 5

theorem aliceSendsFive_passes :
    ∃ obj payload, aliceSendsFive.Written SerdeJson.plain obj payload ∧
      validate_transaction_structure (.obj obj) = .ok () := by
  have hwired : aliceSendsFive.Wired Outside.toy := signed_wired 1 1 _ _
  obtain ⟨obj, payload, hw⟩ := aliceSendsFive.written SerdeJson.plain (by decide)
  refine ⟨obj, payload, hw, (validate_transaction_structure_eq_ok _).mpr ⟨.Transfer, obj, payload, ?_⟩⟩
  exact hw.passes hwired (by decide +kernel) (by decide) rfl (transfer_shows hw.members)

theorem runs_as_declared_iff_of_aliceSendsFive :
    ∃ v, SerdeJson.plain.tree aliceSendsFive.to_string = some aliceSendsFive.json ∧
      SerdeJson.plain.from_str_value aliceSendsFive.to_string = .ok v ∧
      validate_transaction_structure v = .ok () ∧
      SerdeJson.plain.from_str_tx Outside.toy aliceSendsFive.to_string = .ok aliceSendsFive ∧
      ∃ t : TxType, aliceSendsFive.payload.type_ = key t.as_str ∧
        ((aliceSendsFive.payload.inner.tx_type = t ∧ aliceSendsFive.RunsAs t) ↔
          OwnForm (innerMembers (payloadOf aliceSendsFive.json)) t ∧
            ∀ u ∈ t.before, ¬ Fits (innerMembers (payloadOf aliceSendsFive.json)) u) := by
  obtain ⟨obj, payload, hw, hvalid⟩ := aliceSendsFive_passes
  have htree := aliceSendsFive.tree_to_string SerdeJson.plain
  have htx : SerdeJson.plain.from_str_tx Outside.toy aliceSendsFive.to_string = .ok aliceSendsFive :=
    Tx.from_to_string _ (signed_wired 1 1 _ _)
  exact ⟨.obj obj, htree, hw.parses, hvalid, htx,
    runs_as_declared_iff Outside.toy SerdeJson.plain htree hw.parses hvalid htx⟩

/-! ## A stake that runs as an unstake -/

/-- The fields of an unstake are all that the checks of a stake ask for. -/
theorem unstake_shows_stake {u : UnstakeTx} {type_ : Text}
    (h : s.valueMembers [] ((key "type", .str type_) :: (PayloadInner.Unstake u).members)
      = some payload) : Shows payload .Stake := by
  refine ⟨u.sender, u.amount, ?_, ?_, u.amount_pos, u.amount_le, ?_⟩
  · rw [← asAddress_addressJson u.sender]
    exact found_of_entries (leaf_asAddress s) h (by simp [PayloadInner.members, entries_cons])
  · rw [← asAmountOrNumber_amountJson u.amount_le]
    exact found_of_entries (leaf_asAmountOrNumber s) h (by simp [PayloadInner.members, entries_cons])
  · intro i hi
    have hnone := (s.get_eq_none h (k := key "public_key")).mpr
      (by simp [PayloadInner.members, entries_cons])
    rw [hnone] at hi
    cases hi

def aliceUnstakes : UnstakeTx := ⟨alice, 5, five_pos, five_le_maxCoin⟩

/-- Alice declares a stake, and names no key. -/
def keylessStake : Tx := signed 1 1 "Stake" (.Unstake aliceUnstakes)

theorem keylessStake_runs_as_unstake :
    ∃ v, SerdeJson.plain.from_str_value keylessStake.to_string = .ok v ∧
      validate_transaction_structure v = .ok () ∧
      SerdeJson.plain.from_str_tx Outside.toy keylessStake.to_string = .ok keylessStake ∧
      keylessStake.payload.type_ = key TxType.Stake.as_str ∧
      keylessStake.payload.inner.tx_type = .Unstake ∧ keylessStake.RunsAs .Unstake := by
  have hwired : keylessStake.Wired Outside.toy := signed_wired 1 1 _ _
  obtain ⟨obj, payload, hw⟩ := keylessStake.written SerdeJson.plain (by decide)
  refine ⟨.obj obj, hw.parses, ?_, Tx.from_to_string _ hwired, rfl, rfl, ⟨aliceUnstakes, ?_⟩⟩
  · exact (validate_transaction_structure_eq_ok _).mpr
      ⟨.Stake, obj, payload, hw.passes hwired (by decide +kernel) (by decide) rfl
        (unstake_shows_stake hw.members)⟩
  · intro o pc st e
    rfl

end eld_chain
