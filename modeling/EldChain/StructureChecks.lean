-- The structural checks and the decoder compared. What a client builds
-- passes the checks unless its fee, its size, its brackets or one of three
-- optional fields is outside what they allow, and what passes the checks is
-- decoded exactly when it has the wire form that the decoder asks for.
import EldChain.DeclaredTypes

open json

namespace eld_chain

variable {o : Outside} {s : SerdeJson}

/-! ## Brackets -/

/-- By how much a character changes the depth. -/
def turn (c : Char) : Int :=
  if c = '\x7b' ∨ c = '[' then 1 else if c = '\x7d' ∨ c = ']' then -1 else 0

/-- The brackets that a text opens, less those that it closes. -/
def net (text : Text) : Int := (text.map turn).sum

theorem net_cons (c : Char) (text : Text) : net (c :: text) = turn c + net text := by
  simp [net]

/-- From a depth on the text never falls below zero nor rises above the maximum, and it ends
at the depth it began with. -/
structure Nested (max_depth depth : Nat) (text : Text) : Prop where
  within : ∀ p, p <+: text → 0 ≤ depth + net p ∧ depth + net p ≤ max_depth
  settled : net text = 0

theorem forall_prefix_cons {α : Type} {a : α} {l : List α} {P : List α → Prop} :
    (∀ p, p <+: a :: l → P p) ↔ P [] ∧ ∀ p, p <+: l → P (a :: p) := by
  constructor
  · intro h
    refine ⟨h [] List.nil_prefix, fun p hp => h _ ?_⟩
    exact List.prefix_cons_inj a |>.mpr hp
  · rintro ⟨hnil, hcons⟩ p hp
    rcases List.prefix_cons_iff.mp hp with rfl | ⟨t, rfl, ht⟩
    · exact hnil
    · exact hcons t ht

theorem scanBrackets_open {max_depth depth : Nat} {c : Char} {rest : Text} (hc : turn c = 1) :
    scanBrackets max_depth depth (c :: rest) =
      if max_depth < depth + 1 then
        .error ("JSON nesting too deep: " ++ toString (depth + 1) ++ " levels (max "
          ++ toString max_depth ++ ")")
      else scanBrackets max_depth (depth + 1) rest := by
  have hopen : c = '\x7b' ∨ c = '[' := by
    unfold turn at hc
    split at hc
    · assumption
    · split at hc <;> cases hc
  rw [scanBrackets, if_pos hopen]

theorem scanBrackets_close {max_depth depth : Nat} {c : Char} {rest : Text} (hc : turn c = -1) :
    scanBrackets max_depth depth (c :: rest) =
      if depth = 0 then .error "JSON has mismatched brackets"
      else scanBrackets max_depth (depth - 1) rest := by
  unfold turn at hc
  split at hc
  · cases hc
  · rename_i hopen
    split at hc
    · rename_i hclose
      rw [scanBrackets, if_neg hopen, if_pos hclose]
    · cases hc

theorem scanBrackets_other {max_depth depth : Nat} {c : Char} {rest : Text} (hc : turn c = 0) :
    scanBrackets max_depth depth (c :: rest) = scanBrackets max_depth depth rest := by
  unfold turn at hc
  split at hc
  · cases hc
  · rename_i hopen
    split at hc
    · cases hc
    · rename_i hclose
      rw [scanBrackets, if_neg hopen, if_neg hclose]

theorem turn_cases (c : Char) : turn c = 1 ∨ turn c = -1 ∨ turn c = 0 := by
  unfold turn
  split
  · exact Or.inl rfl
  · split
    · exact Or.inr (Or.inl rfl)
    · exact Or.inr (Or.inr rfl)

/-- The scan ends at a depth exactly when it stayed within its bounds on the way there. -/
theorem scanBrackets_eq_ok {max_depth depth final : Nat} {text : Text} (h : depth ≤ max_depth) :
    scanBrackets max_depth depth text = .ok final ↔
      (∀ p, p <+: text → 0 ≤ depth + net p ∧ depth + net p ≤ max_depth) ∧
        (final : Int) = depth + net text := by
  induction text generalizing depth with
  | nil =>
    simp only [scanBrackets, Except.ok.injEq, List.prefix_nil, forall_eq, net, List.map_nil,
      List.sum_nil]
    omega
  | cons c rest ih =>
    have hnil : 0 ≤ (depth : Int) + net [] ∧ (depth : Int) + net [] ≤ max_depth := by
      simp only [net, List.map_nil, List.sum_nil]
      omega
    simp only [forall_prefix_cons, hnil, true_and, net_cons]
    rcases turn_cases c with hc | hc | hc
    · rw [scanBrackets_open hc, hc]
      split
      · rename_i hdeep
        simp only [reduceCtorEq, false_iff]
        rintro ⟨hall, _⟩
        have hfirst := (hall [] List.nil_prefix).2
        simp only [net, List.map_nil, List.sum_nil] at hfirst
        omega
      · rw [ih (by omega)]
        simp only [Nat.cast_add, Nat.cast_one, add_assoc]
    · rw [scanBrackets_close hc, hc]
      split
      · rename_i hzero
        simp only [reduceCtorEq, false_iff]
        rintro ⟨hall, _⟩
        have hfirst := (hall [] List.nil_prefix).1
        simp only [net, List.map_nil, List.sum_nil] at hfirst
        omega
      · rw [ih (by omega)]
        have hpred : ((depth - 1 : Nat) : Int) = depth + -1 := by omega
        simp only [hpred, add_assoc]
    · rw [scanBrackets_other hc, hc, ih h]
      simp only [zero_add]

theorem scanBrackets_nested {max_depth depth : Nat} {text : Text} (h : depth ≤ max_depth) :
    scanBrackets max_depth depth text = .ok depth ↔ Nested max_depth depth text := by
  rw [scanBrackets_eq_ok h]
  constructor
  · rintro ⟨hwithin, hfinal⟩
    exact ⟨hwithin, by omega⟩
  · rintro ⟨hwithin, hsettled⟩
    exact ⟨hwithin, by omega⟩

/-- Only brackets count. -/
theorem scanBrackets_filter (max_depth depth : Nat) (text : Text) :
    scanBrackets max_depth depth (text.filter isBracket) = scanBrackets max_depth depth text := by
  induction text generalizing depth with
  | nil => rfl
  | cons c rest ih =>
    rw [List.filter_cons]
    split
    · simp only [scanBrackets, ih]
    · rename_i hplain
      have hc : turn c = 0 := by
        simp only [isBracket, Bool.or_eq_true, beq_iff_eq, not_or] at hplain
        simp [turn, hplain]
      rw [ih, scanBrackets_other hc]

theorem scanBrackets_append (max_depth depth : Nat) (first rest : Text) :
    scanBrackets max_depth depth (first ++ rest) =
      (scanBrackets max_depth depth first).bind (fun d => scanBrackets max_depth d rest) := by
  induction first generalizing depth with
  | nil => rfl
  | cons c first ih =>
    rw [List.cons_append, scanBrackets, scanBrackets]
    split
    · split
      · rfl
      · exact ih _
    · split
      · split
        · rfl
        · exact ih _
      · exact ih _

/-! ## Written transactions -/

theorem isHexOf_of_length {n : Nat} {t : Text} (hlen : t.length = 2 * n)
    (h : ∀ c ∈ t, (hexVal c).isSome = true) : isHexOf n t = true := by
  rw [isHexOf, hlen, List.all_eq_true.mpr h, beq_self_eq_true, Bool.and_self]

theorem hex_no_bracket {n : Nat} {t : Text} (h : isHexOf n t = true) : t.filter isBracket = [] := by
  rw [isHexOf, Bool.and_eq_true, List.all_eq_true] at h
  rw [List.filter_eq_nil_iff]
  intro c hc hbracket
  simp only [isBracket, Bool.or_eq_true, beq_iff_eq] at hbracket
  have hhex := h.2 c hc
  rcases hbracket with ((rfl | rfl) | rfl) | rfl <;> exact absurd hhex (by decide)

theorem type_no_bracket (t : TxType) : (key t.as_str).filter isBracket = [] := by
  cases t <;> decide

/-- The brackets of a transaction: two that open, those of the payload's fields, and two
that close. -/
theorem Tx.brackets {tx : Tx} {t : TxType} (hwired : tx.Wired o)
    (htype : tx.payload.type_ = key t.as_str) :
    tx.to_string.filter isBracket =
      '\x7b' :: '\x7b' :: (bracketsMembers tx.payload.inner.members ++ ['\x7d', '\x7d']) := by
  rw [Tx.to_string, filter_compact]
  have hsig := hex_no_bracket hwired.sig_hex
  have hkey := hex_no_bracket hwired.key_hex
  have hname : tx.payload.type_.filter isBracket = [] := by rw [htype, type_no_bracket]
  have hkeys : ∀ name ∈ ["sig", "nonce", "payload", "public_key", "fee", "type"],
      (key name).filter isBracket = [] := by decide
  simp only [List.forall_mem_cons, List.not_mem_nil, false_imp_iff, forall_const, and_true] at hkeys
  simp [Tx.json, Payload.json, Json.brackets, bracketsMembers, hkeys, hsig, hkey, hname]

/-- The brackets of the payload's fields, inside the two that stand around them. -/
def PayloadInner.Nests (inner : PayloadInner) : Prop := Nested 10 2 (bracketsMembers inner.members)

theorem scan_closing {depth final : Nat} :
    scanBrackets 10 depth ['\x7d', '\x7d'] = .ok final ↔ depth = final + 2 := by
  rcases depth with _ | _ | depth
  · simp [scanBrackets]
  · simp [scanBrackets]
  · simp [scanBrackets]

theorem Tx.scan_iff {tx : Tx} {t : TxType} (hwired : tx.Wired o)
    (htype : tx.payload.type_ = key t.as_str) :
    scanBrackets 10 0 tx.to_string = .ok 0 ↔ tx.payload.inner.Nests := by
  rw [← scanBrackets_filter, Tx.brackets hwired htype, PayloadInner.Nests,
    ← scanBrackets_nested (by decide)]
  have hopen : ∀ rest, scanBrackets 10 0 ('\x7b' :: '\x7b' :: rest) = scanBrackets 10 2 rest :=
    fun rest => by simp [scanBrackets]
  rw [hopen, scanBrackets_append]
  cases hscan : scanBrackets 10 2 (bracketsMembers tx.payload.inner.members) with
  | error e => simp [Except.bind]
  | ok depth => simp [Except.bind, scan_closing]

theorem filter_hexDigits (n v : Nat) : (hexDigits n v).filter isBracket = [] := by
  rw [List.filter_eq_nil_iff]
  intro c hc hbracket
  obtain ⟨d, hd, rfl⟩ := mem_hexDigits hc
  have hall : ∀ i : Fin 16, isBracket (hexChar i) = false := by decide
  rw [hall ⟨d, hd⟩] at hbracket
  cases hbracket

theorem addressJson_brackets (a : Address) : (addressJson a).brackets = [] := by
  simp [addressJson, Json.brackets, Address.text, filter_hexDigits, isBracket]

theorem amountJson_brackets (n : Nat) : (amountJson n).brackets = [] := by
  rw [amountJson, Json.brackets, filter_toDigits]

theorem hex32Json_brackets (b : Bytes32) : (hex32Json b).brackets = [] := by
  rw [hex32Json, Json.brackets, filter_hexDigits]

theorem stakeKey_brackets (tx : StakeTx) : (optionJson tx.public_key).brackets = [] := by
  cases hkey : tx.public_key with
  | none => rfl
  | some pk =>
    obtain ⟨hlen, hhex⟩ := tx.key_hex pk hkey
    rw [optionJson, Json.brackets, hex_no_bracket (isHexOf_of_length (n := 32) hlen hhex)]

theorem slug_brackets (tx : AddNamespaceTx) : (Json.str tx.namespace_slug).brackets = [] := by
  rw [Json.brackets, List.filter_eq_nil_iff]
  intro c hc hbracket
  have hplain := valid_slug_chars tx.slug_canonical.valid c hc
  simp only [isBracket, Bool.or_eq_true, beq_iff_eq] at hbracket
  rcases hbracket with ((rfl | rfl) | rfl) | rfl <;> exact absurd hplain (by decide)

/-- Only the strings of a proof or of a message can hold brackets. -/
theorem PayloadInner.nests_of_type {inner : PayloadInner} (hproof : inner.tx_type ≠ .VerifiedProof)
    (hmessage : inner.tx_type ≠ .PostMessage) : inner.Nests := by
  have hnone : bracketsMembers inner.members = [] := by
    cases inner with
    | VerifiedProof tx => exact absurd rfl hproof
    | PostMessage tx => exact absurd rfl hmessage
    | AddNamespace tx =>
      simp only [PayloadInner.members, bracketsMembers, addressJson_brackets, amountJson_brackets,
        slug_brackets]
      rfl
    | _ => simp [PayloadInner.members, bracketsMembers, addressJson_brackets, amountJson_brackets,
        hex32Json_brackets, stakeKey_brackets, Json.brackets, key, isBracket]
  rw [PayloadInner.Nests, hnone]
  refine ⟨?_, rfl⟩
  intro p hp
  rw [List.prefix_nil.mp hp]
  decide

theorem validate_json_string_eq_ok {text : Text} {max_size max_depth : Nat} :
    validate_json_string s text max_size max_depth = .ok () ↔
      text ≠ [] ∧ utf8Len text ≤ max_size ∧ scanBrackets max_depth 0 text = .ok 0 ∧
        ∃ v, s.from_str_value text = .ok v := by
  unfold validate_json_string
  simp only
  by_cases hempty : text = []
  · simp [hempty]
  · rw [if_neg hempty]
    by_cases hsize : max_size < utf8Len text
    · rw [if_pos hsize]
      simp only [reduceCtorEq, false_iff]
      rintro ⟨_, hle, _⟩
      omega
    · rw [if_neg hsize]
      simp only [ne_eq, hempty, not_false_eq_true, Nat.le_of_not_lt hsize, true_and]
      cases hscan : scanBrackets max_depth 0 text with
      | error details => simp
      | ok depth =>
        simp only [Except.ok.injEq]
        by_cases hdepth : depth = 0
        · rw [if_neg (not_not_intro hdepth)]
          cases hvalue : s.from_str_value text <;> simp [hdepth]
        · simp [hdepth]

/-- The fee that the checks read is the fee that was written. -/
theorem PassesAs.written_fee {tx : Tx} {t : TxType} {obj payload : Members}
    (h : PassesAs (.obj obj) t obj payload) (hv : s.value tx.json = some (.obj obj)) :
    tx.fee ≤ 2 ^ 32 - 1 := by
  obtain ⟨members, hjson, hout⟩ := SerdeJson.value_eq_obj hv
  rw [Tx.json, Json.obj.injEq] at hjson
  obtain ⟨n, hfound, hle⟩ := h.fee
  rw [found_of_entries (leaf_asUnsigned s) hout (i := .int tx.fee)
    (by rw [← hjson]; simp [entries_cons])] at hfound
  obtain ⟨heq, _⟩ := asUnsigned_eq_some hfound
  rw [Json.int.injEq] at heq
  omega

theorem Tx.to_string_ne_nil (tx : Tx) : tx.to_string ≠ [] := by
  rw [Tx.to_string, Tx.json, Json.compact]
  exact List.cons_ne_nil _ _

/-- The checks that a transaction goes through in `deliver_tx_inner`, on its text and then on
its value. -/
def PassesChecks (s : SerdeJson) (text : Text) : Prop :=
  validate_json_string s text (10 * 1024 * 1024) 10 = .ok () ∧
    ∃ v, s.from_str_value text = .ok v ∧ validate_transaction_structure v = .ok ()

/-- What a client built passes the checks exactly when it is not too large, its brackets are
in order, its fee is a `u32` and its payload is checkable. -/
theorem BuiltTx.passes_iff (s : SerdeJson) (b : BuiltTx o) :
    PassesChecks s b.tx.to_string ↔
      utf8Len b.tx.to_string ≤ 10 * 1024 * 1024 ∧ b.inner.Nests ∧ b.fee ≤ 2 ^ 32 - 1 ∧
        b.inner.Checkable := by
  have hscan : scanBrackets 10 0 b.tx.to_string = .ok 0 ↔ b.inner.Nests :=
    Tx.scan_iff b.wired rfl
  constructor
  · rintro ⟨hjson, v, hparse, hvalid⟩
    obtain ⟨_, hsize, hnest, _⟩ := validate_json_string_eq_ok.mp hjson
    obtain ⟨t, obj, payload, hpasses⟩ := (validate_transaction_structure_eq_ok v).mp hvalid
    have hobj := hpasses.object
    subst hobj
    obtain ⟨j, htree, _, hv⟩ := SerdeJson.from_str_value_eq_ok.mp hparse
    rw [Tx.tree_to_string] at htree
    cases htree
    have hfee : b.fee ≤ 2 ^ 32 - 1 := hpasses.written_fee hv
    obtain ⟨obj', payload', hw⟩ := b.tx.written s (Nat.lt_of_le_of_lt hfee (by decide))
    have hsame : obj' = obj := by
      have := hw.value.symm.trans hv
      cases this
      rfl
    subst hsame
    have hpayload : payload' = payload :=
      Option.some.inj (hw.payload_object.symm.trans hpasses.payload_object)
    subst hpayload
    have htype : t = b.inner.tx_type :=
      (TxType.as_str_inj (Option.some.inj (hw.type_name.symm.trans hpasses.type_name))).symm
    subst htype
    exact ⟨hsize, hscan.mp hnest, hfee, (written_shows_iff hw.members).mp hpasses.shows⟩
  · rintro ⟨hsize, hnest, hfee, hcheckable⟩
    obtain ⟨obj, payload, hw⟩ := b.tx.written s (Nat.lt_of_le_of_lt hfee (by decide))
    have hpasses : PassesAs (.obj obj) b.inner.tx_type obj payload :=
      hw.passes b.wired hsize hfee rfl ((written_shows_iff hw.members).mpr hcheckable)
    refine ⟨?_, _, hw.parses, (validate_transaction_structure_eq_ok _).mpr ⟨_, _, _, hpasses⟩⟩
    exact validate_json_string_eq_ok.mpr
      ⟨b.tx.to_string_ne_nil, hsize, hscan.mpr hnest, _, hw.parses⟩

/-! ## Accepted values -/

/-- What the envelope of a transaction that passed the checks still has to have, to be
decoded: every field once, a whole signature and a whole key that is valid. -/
structure EnvelopeForm (o : Outside) (j : Json) : Prop where
  once : Once (envelopeOf j) ["sig", "nonce", "payload", "public_key", "fee"]
  sig_length : LengthAt (envelopeOf j) "sig" 128
  key_length : LengthAt (envelopeOf j) "public_key" 64
  key_valid : ∀ pk, entries (envelopeOf j) (key "public_key") = [.str pk] →
    (o.verifying_key pk).isSome = true
  type_once : Once (payloadOf j) ["type"]

variable {members out obj payload : Members} {j v : Json} {t : TxType}

/-- A field of the envelope that stands once reads the same to the checks and to the decoder. -/
theorem envelope_eq_found {α : Type} {read : Json → Option α} (hread : Leaf s read)
    (hout : s.valueMembers [] members = some out) {name : String}
    (honce : ∃ j, entries members (key name) = [j]) :
    required read members name = found read out name := by
  obtain ⟨j, hj⟩ := honce
  rw [found_of_entries hread hout hj, required, hj]

theorem isHexOf.length {n : Nat} {t : Text} (h : isHexOf n t = true) : t.length = 2 * n := by
  rw [isHexOf, Bool.and_eq_true, beq_iff_eq] at h
  exact h.1

/-- A signature that passed the checks is decoded exactly when it is whole. -/
theorem sig_read_iff {sig : Text} (h : HexUpTo 64 sig) :
    asTxSig (.str sig) = some sig ↔ sig.length = 128 := by
  constructor
  · intro hread
    rw [asTxSig] at hread
    split at hread
    · rename_i hor
      exact isHexOf.length (hor.resolve_left h.nonempty)
    · cases hread
  · intro hlen
    rw [asTxSig, if_pos (Or.inr (isHexOf_of_length hlen h.hex))]

/-- So is a key, if it is valid. -/
theorem key_read_iff {pk : Text} (h : HexUpTo 32 pk) :
    asTxPublicKey o (.str pk) = some pk ↔ pk.length = 64 ∧ (o.verifying_key pk).isSome = true := by
  constructor
  · intro hread
    rw [asTxPublicKey] at hread
    split at hread
    · rename_i hand
      exact ⟨isHexOf.length hand.1, hand.2⟩
    · cases hread
  · rintro ⟨hlen, hvalid⟩
    rw [asTxPublicKey, if_pos ⟨isHexOf_of_length hlen h.hex, hvalid⟩]

theorem asTxSig_eq_some {j : Json} {sig : Text} (h : asTxSig j = some sig) : j = .str sig := by
  cases j with
  | str t =>
    rw [asTxSig] at h
    split at h <;> cases h
    rfl
  | _ => simp [asTxSig] at h

theorem asTxPublicKey_eq_some {j : Json} {pk : Text} (h : asTxPublicKey o j = some pk) :
    j = .str pk := by
  cases j with
  | str t =>
    rw [asTxPublicKey] at h
    split at h <;> cases h
    rfl
  | _ => simp [asTxPublicKey] at h

/-- The text at a field that the checks read as a string. -/
theorem text_of_found (hout : s.valueMembers [] members = some out) {name : String} {text : Text}
    (honce : ∃ j, entries members (key name) = [j]) (hfound : found asStr out name = some text) :
    entries members (key name) = [.str text] := by
  obtain ⟨j, hj⟩ := honce
  rw [found_of_entries (leaf_asStr s) hout hj] at hfound
  rw [hj, asStr_eq_some hfound]

theorem PassesAs.envelope_of_decoded {tx : Tx} (h : PassesAs v t obj payload)
    (hv : s.value j = some v) (htx : Tx.decode o s j = some tx) : EnvelopeForm o j := by
  obtain ⟨members, rfl, hout⟩ := h.tree hv
  obtain ⟨hsig, hnonce, hpayload, hkey, hfee⟩ := Tx.decode_eq_some.mp htx
  obtain ⟨jp, hjp, hdecode⟩ := required_eq_some.mp hpayload
  obtain ⟨pm, rfl, _, _, htype, _⟩ := Payload.decode_eq_some.mp hdecode
  obtain ⟨jsig, hjsig, hsig⟩ := required_eq_some.mp hsig
  obtain ⟨jkey, hjkey, hkey⟩ := required_eq_some.mp hkey
  rw [asTxSig_eq_some hsig] at hjsig hsig
  rw [asTxPublicKey_eq_some hkey] at hjkey hkey
  obtain ⟨sig, hfoundsig, hsighex⟩ := h.sig
  obtain ⟨pk, hfoundkey, hkeyhex⟩ := h.public_key
  rw [found_of_entries (leaf_asStr s) hout hjsig] at hfoundsig
  rw [found_of_entries (leaf_asStr s) hout hjkey] at hfoundkey
  cases hfoundsig
  cases hfoundkey
  have hwhole := (sig_read_iff hsighex).mp hsig
  have hvalid := (key_read_iff hkeyhex).mp hkey
  have hpm : payloadOf (.obj members) = pm := by
    rw [payloadOf, envelopeOf, hjp]
  refine ⟨?_, ?_, ?_, ?_, ?_⟩
  · simp only [once_cons, once_nil, and_true]
    exact ⟨⟨_, hjsig⟩, once_of_required hnonce, ⟨_, hjp⟩, ⟨_, hjkey⟩, once_of_required hfee⟩
  · intro text htext
    rw [envelopeOf, hjsig] at htext
    cases htext
    exact hwhole
  · intro text htext
    rw [envelopeOf, hjkey] at htext
    cases htext
    exact hvalid.1
  · intro text htext
    rw [envelopeOf, hjkey] at htext
    cases htext
    exact hvalid.2
  · rw [hpm]
    simp only [once_cons, once_nil, and_true]
    exact once_of_required htype

theorem depth_of_mem {members : Members} {k : Text} {j : Json} (h : (k, j) ∈ members) :
    j.depth ≤ depthMembers members := by
  induction members with
  | nil => cases h
  | cons m rest ih =>
    rw [depthMembers]
    rcases List.mem_cons.mp h with rfl | hmem
    · exact Nat.le_max_left _ _
    · exact Nat.le_trans (ih hmem) (Nat.le_max_right _ _)

/-- The payload of an accepted transaction, as the decoder finds it. -/
theorem PassesAs.payload_tree (h : PassesAs v t obj payload)
    (hout : s.valueMembers [] members = some obj)
    (honce : ∃ j, entries members (key "payload") = [j]) :
    entries members (key "payload") = [.obj (payloadOf (.obj members))] ∧
      s.valueMembers [] (payloadOf (.obj members)) = some payload := by
  obtain ⟨jp, hjp⟩ := honce
  obtain ⟨w, hget, hw⟩ := s.value_of_once hout hjp
  have hfound := h.payload_object
  rw [found, hget, Option.bind_some] at hfound
  cases w with
  | obj out =>
    cases hfound
    obtain ⟨pm, rfl, hpm⟩ := SerdeJson.value_eq_obj hw
    have heq : payloadOf (.obj members) = pm := by
      rw [payloadOf, envelopeOf, hjp]
    rw [heq]
    exact ⟨hjp, hpm⟩
  | _ => simp [asObject] at hfound

/-- A payload whose fields are read is decoded, with the type that it declares. -/
theorem PassesAs.payload_decodes (h : PassesAs v t obj payload)
    (hout : s.valueMembers [] members = some obj)
    (hdepth : (Json.obj members).depth ≤ RECURSION_LIMIT)
    (honce : ∃ j, entries members (key "payload") = [j])
    (htype : Once (payloadOf (.obj members)) ["type"]) {inner : PayloadInner}
    (hinner : PayloadInner.decode (innerMembers (payloadOf (.obj members))) = some inner) :
    required (Payload.decode s) members "payload" = some ⟨key t.as_str, inner⟩ := by
  obtain ⟨hjp, hpm⟩ := h.payload_tree hout honce
  simp only [once_cons, once_nil, and_true] at htype
  have hnested : (Json.obj (payloadOf (.obj members))).depth ≤ depthMembers members :=
    depth_of_mem (mem_of_mem_entries (by rw [hjp]; exact List.mem_singleton_self _))
  rw [Json.depth] at hdepth
  rw [required, hjp]
  refine Payload.decode_eq_some.mpr ⟨_, rfl, by omega, ?_, ?_, hinner⟩
  · rw [SerdeJson.value, hpm]
    rfl
  · rw [envelope_eq_found (leaf_asStr s) hpm htype, h.type_name]

/-- An accepted transaction with the envelope's form and a payload that is read is decoded. -/
theorem PassesAs.decodes (h : PassesAs v t obj payload) (hv : s.value j = some v)
    (hdepth : j.depth ≤ RECURSION_LIMIT) (hform : EnvelopeForm o j) {inner : PayloadInner}
    (hinner : PayloadInner.decode (innerMembers (payloadOf j)) = some inner) :
    ∃ tx, Tx.decode o s j = some tx ∧ tx.payload = ⟨key t.as_str, inner⟩ := by
  obtain ⟨members, rfl, hout⟩ := h.tree hv
  have honce := hform.once
  simp only [envelopeOf, once_cons] at honce
  obtain ⟨hsigonce, hnonceonce, hpayloadonce, hkeyonce, hfeeonce, _⟩ := honce
  have hpayload := h.payload_decodes hout hdepth hpayloadonce hform.type_once hinner
  obtain ⟨sig, hsig, hsighex⟩ := h.sig
  obtain ⟨pk, hpk, hpkhex⟩ := h.public_key
  obtain ⟨nonce, hnonce, hnoncele⟩ := h.nonce
  obtain ⟨fee, hfee, hfeele⟩ := h.fee
  have hsigtext := text_of_found hout hsigonce hsig
  have hkeytext := text_of_found hout hkeyonce hpk
  rw [← envelope_eq_found (leaf_asUnsigned s) hout hnonceonce] at hnonce
  rw [← envelope_eq_found (leaf_asUnsigned s) hout hfeeonce] at hfee
  obtain ⟨jn, hjn, hnonce⟩ := required_eq_some.mp hnonce
  obtain ⟨jf, hjf, hfee⟩ := required_eq_some.mp hfee
  obtain ⟨rfl, _⟩ := asUnsigned_eq_some hnonce
  obtain ⟨rfl, _⟩ := asUnsigned_eq_some hfee
  refine ⟨⟨sig, ⟨UInt32.ofNat nonce⟩, ⟨key t.as_str, inner⟩, pk, fee⟩, ?_, rfl⟩
  refine Tx.decode_eq_some.mpr ⟨?_, ?_, hpayload, ?_, ?_⟩
  · rw [required, hsigtext]
    exact (sig_read_iff hsighex).mpr (hform.sig_length sig hsigtext)
  · rw [required, hjn]
    simp only [asUInt32, asUnsigned_int (show nonce < 2 ^ 32 by omega), Option.map_some]
  · rw [required, hkeytext]
    exact (key_read_iff hpkhex).mpr ⟨hform.key_length pk hkeytext, hform.key_valid pk hkeytext⟩
  · rw [required, hjf]
    exact asUnsigned_int (show fee < 2 ^ 128 by omega)

/-- The type that the payload of a value names. -/
def declaredType (v : Json) : Option Text :=
  (asObject v).bind (fun obj => (found asObject obj "payload").bind (fun p => found asStr p "type"))

theorem PassesAs.declared (h : PassesAs v t obj payload) : declaredType v = some (key t.as_str) := by
  rw [declaredType, h.object]
  simp only [asObject, Option.bind_some, h.payload_object, h.type_name]

/-- An accepted value is decoded as the type it declares exactly when its envelope and its
fields have their wire forms. -/
theorem PassesAs.decodes_iff (h : PassesAs v t obj payload) (hv : s.value j = some v)
    (hdepth : j.depth ≤ RECURSION_LIMIT) :
    (∃ tx, Tx.decode o s j = some tx ∧ tx.payload.type_ = key t.as_str ∧
        tx.payload.inner.tx_type = t) ↔
      EnvelopeForm o j ∧ OwnForm (innerMembers (payloadOf j)) t ∧
        ∀ u ∈ t.before, ¬ Fits (innerMembers (payloadOf j)) u := by
  constructor
  · rintro ⟨tx, htx, _, htype⟩
    exact ⟨h.envelope_of_decoded hv htx, (h.variant_iff hv htx).mp htype⟩
  · rintro ⟨henvelope, hown, hbefore⟩
    obtain ⟨members, rfl, hout⟩ := h.tree hv
    have honce := henvelope.once
    simp only [envelopeOf, once_cons] at honce
    obtain ⟨_, hpm⟩ := h.payload_tree hout honce.2.2.1
    have hfits := (fits_iff_own_form hpm t h.shows).mpr hown
    obtain ⟨inner, hinner, htype⟩ := (PayloadInner.decode_type_iff _ t).mpr ⟨hfits, hbefore⟩
    obtain ⟨tx, htx, hpayload⟩ := h.decodes hv hdepth henvelope hinner
    exact ⟨tx, htx, by rw [hpayload], by rw [hpayload, htype]⟩

/-- Where the two readings of a transaction agree. What was built passes the checks unless it
is too large, its brackets are not in order, its fee is no `u32` or its payload is not
checkable, and what passed the checks is decoded as the type it declares if it has the wire
form of the type. -/
theorem checks_agree_with_decoder_iff (o : Outside) (s : SerdeJson) :
    (∀ b : BuiltTx o, PassesChecks s b.tx.to_string ↔
      utf8Len b.tx.to_string ≤ 10 * 1024 * 1024 ∧ b.inner.Nests ∧ b.fee ≤ 2 ^ 32 - 1 ∧
        b.inner.Checkable) ∧
    ∀ text j v, s.tree text = some j → s.from_str_value text = .ok v →
      validate_transaction_structure v = .ok () →
      ∃ t : TxType, declaredType v = some (key t.as_str) ∧
        ((∃ tx, s.from_str_tx o text = .ok tx ∧ tx.payload.type_ = key t.as_str ∧
            tx.payload.inner.tx_type = t) ↔
          EnvelopeForm o j ∧ OwnForm (innerMembers (payloadOf j)) t ∧
            ∀ u ∈ t.before, ¬ Fits (innerMembers (payloadOf j)) u) := by
  refine ⟨fun b => b.passes_iff s, ?_⟩
  intro text j v htree hvalue hvalid
  obtain ⟨j', htree', hdepth, hv⟩ := SerdeJson.from_str_value_eq_ok.mp hvalue
  rw [htree] at htree'
  cases htree'
  obtain ⟨t, obj, payload, hpasses⟩ := (validate_transaction_structure_eq_ok v).mp hvalid
  refine ⟨t, hpasses.declared, ?_⟩
  rw [← hpasses.decodes_iff hv hdepth]
  constructor
  · rintro ⟨tx, htx, hrest⟩
    obtain ⟨j', htree', hdecode⟩ := SerdeJson.from_str_tx_eq_ok.mp htx
    rw [htree] at htree'
    cases htree'
    exact ⟨tx, hdecode, hrest⟩
  · rintro ⟨tx, hdecode, hrest⟩
    exact ⟨tx, SerdeJson.from_str_tx_eq_ok.mpr ⟨j, htree, hdecode⟩, hrest⟩

theorem checks_agree_with_decoder_iff_of_aliceSendsFive :
    ∃ v, SerdeJson.plain.tree aliceSendsFive.to_string = some aliceSendsFive.json ∧
      SerdeJson.plain.from_str_value aliceSendsFive.to_string = .ok v ∧
      validate_transaction_structure v = .ok () ∧
      ∃ t : TxType, declaredType v = some (key t.as_str) ∧
        ((∃ tx, SerdeJson.plain.from_str_tx Outside.toy aliceSendsFive.to_string = .ok tx ∧
            tx.payload.type_ = key t.as_str ∧ tx.payload.inner.tx_type = t) ↔
          EnvelopeForm Outside.toy aliceSendsFive.json ∧
            OwnForm (innerMembers (payloadOf aliceSendsFive.json)) t ∧
            ∀ u ∈ t.before, ¬ Fits (innerMembers (payloadOf aliceSendsFive.json)) u) := by
  obtain ⟨obj, payload, hw, hvalid⟩ := aliceSendsFive_passes
  have htree := aliceSendsFive.tree_to_string SerdeJson.plain
  exact ⟨.obj obj, htree, hw.parses, hvalid,
    (checks_agree_with_decoder_iff Outside.toy SerdeJson.plain).2 _ _ _ htree hw.parses hvalid⟩

/-! ## A stake without a key -/

theorem noKey_is_hex : ∀ pk ∈ (none : Option Text), pk.length = 64 ∧
    ∀ c ∈ pk, (hexVal c).isSome = true := by
  simp

def keylessStakeTx : StakeTx := ⟨alice, 5, none, five_pos, five_le_maxCoin, noKey_is_hex⟩

theorem smallFee_lt : 1000 < 2 ^ 128 := by decide

/-- Alice signs a stake that names no key. -/
def aliceStakesKeyless : BuiltTx Outside.toy where
  inner := .Stake keylessStakeTx
  nonce := ⟨1⟩
  public_key := hexDigits 64 1
  fee := 1000
  signature := 1
  key_hex := isHexOf_hexDigits
  key_valid := (signed_wired 1 1 "Stake" (.Stake keylessStakeTx)).key_valid
  fee_lt := smallFee_lt

theorem aliceStakesKeyless_is_rejected :
    StakeTx.new alice 5 none = .ok keylessStakeTx ∧
      ∃ v, SerdeJson.plain.from_str_value aliceStakesKeyless.tx.to_string = .ok v ∧
        validate_transaction_structure v ≠ .ok () ∧
        SerdeJson.plain.from_str_tx Outside.toy aliceStakesKeyless.tx.to_string
          = .ok aliceStakesKeyless.tx := by
  obtain ⟨obj, payload, hw⟩ := aliceStakesKeyless.tx.written SerdeJson.plain (by decide)
  refine ⟨rfl, .obj obj, hw.parses, ?_, Tx.from_to_string _ aliceStakesKeyless.wired⟩
  intro hvalid
  have hnests : aliceStakesKeyless.inner.Nests := PayloadInner.nests_of_type (by decide) (by decide)
  have hjson : validate_json_string SerdeJson.plain aliceStakesKeyless.tx.to_string
      (10 * 1024 * 1024) 10 = .ok () :=
    validate_json_string_eq_ok.mpr ⟨Tx.to_string_ne_nil _, by decide +kernel,
      (Tx.scan_iff aliceStakesKeyless.wired rfl).mpr hnests, _, hw.parses⟩
  obtain ⟨_, _, _, hcheckable⟩ :=
    (aliceStakesKeyless.passes_iff SerdeJson.plain).mp ⟨hjson, _, hw.parses, hvalid⟩
  cases hcheckable

end eld_chain
