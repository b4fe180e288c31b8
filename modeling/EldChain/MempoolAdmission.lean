-- CheckTx and DeliverTx compared. What CheckTx accepts is charged when it
-- stands first in the next block, but only if it passes the checks that
-- CheckTx leaves out: the size of the hex, the structural checks, a fee that
-- is not zero and a balance that covers it.
import EldChain.Mempool
import EldChain.Reachable
import EldChain.StructureChecks

open json Std

namespace eld_chain

variable {o : Outside} {pc : ProtocolConstants} {s : SerdeJson}

/-! ## Bytes and texts -/

theorem length_bytes (t : Text) : (Text.bytes t).length = utf8Len t := by
  induction t with
  | nil => rfl
  | cons c t ih =>
    unfold Text.bytes utf8Len at ih ⊢
    rw [List.flatMap_cons, List.length_append, ih, String.length_utf8EncodeChar, List.map_cons,
      List.sum_cons]

theorem utf8Len_hexDigits (n v : Nat) : utf8Len (hexDigits n v) = n := by
  rw [utf8Len_of_safe hexDigits_safe, length_hexDigits]

theorem name_safe (a : Address) : ∀ c ∈ Address.text a, isSafe c = true := by
  unfold Address.text
  intro c hc
  rw [List.mem_cons, List.mem_cons] at hc
  rcases hc with rfl | rfl | hc
  · decide
  · decide
  · exact hexDigits_safe c hc

theorem length_name (a : Address) : (Text.bytes (Address.text a)).length = 42 := by
  rw [length_bytes, utf8Len_of_safe (name_safe a)]
  unfold Address.text
  rw [List.length_cons, List.length_cons, length_hexDigits]

theorem from_utf8_bytes (t : Text) : from_utf8 (Text.bytes t) = .ok t := by
  have hdecode : (Text.bytes t).toByteArray.utf8Decode? = some t.toArray :=
    List.utf8Decode?_utf8Encode
  rw [from_utf8, hdecode]

/-- What was read as a text are the bytes of the text. -/
theorem from_utf8_eq_ok {b : Bytes} {t : Text} : from_utf8 b = .ok t ↔ b = Text.bytes t := by
  constructor
  · intro h
    have hsome : b.toByteArray.utf8Decode?.isSome = true := by
      unfold from_utf8 at h
      split at h
      · rename_i hdecode
        rw [hdecode]
        rfl
      · cases h
    obtain ⟨l, hl⟩ := ByteArray.isSome_utf8Decode?_iff.mp hsome
    have hb : b = Text.bytes l := by
      have hdata := congrArg (fun x : ByteArray => x.data.toList) hl
      simpa [List.utf8Encode, Text.bytes] using hdata
    rw [hb, from_utf8_bytes] at h
    cases h
    exact hb
  · rintro rfl
    exact from_utf8_bytes t

/-! ## Hex -/

theorem hexByte_eq_ok {b : UInt8} {index d : Nat} :
    hexByte b index = .ok d ↔ hexVal (Char.ofNat b.toNat) = some d := by
  unfold hexByte
  split <;> simp_all

theorem hexPairs_digits {index : Nat} {b out : Bytes} (heven : b.length % 2 = 0)
    (h : hexPairs index b = .ok out) : ∀ x ∈ b, (hexVal (Char.ofNat x.toNat)).isSome = true := by
  induction index, b using hexPairs.induct generalizing out with
  | case1 index high low rest ih =>
    simp only [hexPairs, bind_eq_ok, hexByte_eq_ok] at h
    obtain ⟨a, ha, b, hb, rest', hrest, _⟩ := h
    have hlater := ih (by simp only [List.length_cons] at heven; omega) hrest
    intro x hx
    simp only [List.mem_cons] at hx
    rcases hx with rfl | rfl | hx
    · rw [ha]
      rfl
    · rw [hb]
      rfl
    · exact hlater x hx
  | case2 b index hshort =>
    rcases b with _ | ⟨x, _ | ⟨y, rest⟩⟩
    · intro x hx
      cases hx
    · simp at heven
    · exact absurd rfl (hshort x y rest)

theorem toNat_byteChar (b : UInt8) : (Char.ofNat b.toNat).toNat = b.toNat := by
  have hvalid : b.toNat.isValidChar := Or.inl (Nat.lt_trans b.toNat_lt (by decide))
  rw [Char.ofNat, dif_pos hvalid]
  rfl

/-- A character whose bytes are hex digits is a hex digit. -/
theorem hex_of_bytes {c : Char}
    (h : ∀ x ∈ String.utf8EncodeChar c, (hexVal (Char.ofNat x.toNat)).isSome = true) :
    (hexVal c).isSome = true := by
  have hlow : ∀ x ∈ String.utf8EncodeChar c, x.toNat < 128 := by
    intro x hx
    have hlt := hexVal_lt (h x hx)
    rwa [toNat_byteChar] at hlt
  by_cases hc : c.toNat ≤ 127
  · have hone : String.utf8EncodeChar c = [UInt8.ofNat c.toNat] := by
      unfold String.utf8EncodeChar
      exact if_pos hc
    have hvalue : (UInt8.ofNat c.toNat).toNat = c.toNat := UInt8.toNat_ofNat_of_lt' (Nat.lt_of_le_of_lt hc (by decide))
    have hfirst := h (UInt8.ofNat c.toNat) (by rw [hone]; exact List.mem_singleton_self _)
    rw [hvalue, Char.ofNat_toNat] at hfirst
    exact hfirst
  · -- A character of several bytes ends in one that is not ASCII.
    have hlast : UInt8.ofNat (c.toNat % 0x40 + 0x80) ∈ String.utf8EncodeChar c := by
      have hmany : ¬ c.val.toNat ≤ 127 := hc
      unfold String.utf8EncodeChar
      simp only [if_neg hmany]
      split
      · simp
      · split <;> simp
    have hvalue := hlow _ hlast
    have hsmall : c.toNat % 0x40 + 0x80 < 256 := by omega
    rw [UInt8.toNat_ofNat_of_lt' hsmall] at hvalue
    omega

theorem hex_decode_digits {t : Text} {b : Bytes} (h : hex_decode t = .ok b) :
    (∀ c ∈ t, (hexVal c).isSome = true) ∧ t.length % 2 = 0 := by
  unfold hex_decode at h
  simp only at h
  split at h
  · cases h
  · rename_i heven
    have hdigits := hexPairs_digits (by omega) h
    have hhex : ∀ c ∈ t, (hexVal c).isSome = true := fun c hc =>
      hex_of_bytes (fun x hx => hdigits x (List.mem_flatMap.mpr ⟨c, hc, hx⟩))
    refine ⟨hhex, ?_⟩
    rw [length_bytes, utf8Len_of_hex hhex] at heven
    omega

theorem bytes_hexChar {d : Nat} (hd : d < 16) (index : Nat) :
    ∃ x, String.utf8EncodeChar (hexChar d) = [x] ∧ hexByte x index = .ok d := by
  have hall : ∀ i : Fin 16, String.utf8EncodeChar (hexChar i) = [UInt8.ofNat (hexChar i).toNat] ∧
      (UInt8.ofNat (hexChar i).toNat).toNat = (hexChar i).toNat := by decide
  obtain ⟨hencode, hvalue⟩ := hall ⟨d, hd⟩
  refine ⟨_, hencode, ?_⟩
  rw [hexByte_eq_ok, hvalue, Char.ofNat_toNat, hexVal_hexChar hd]

theorem hexPairs_encode (b : Bytes) (index : Nat) :
    hexPairs index (Text.bytes (hex_encode b)) = .ok b ∧
      (Text.bytes (hex_encode b)).length = 2 * b.length := by
  induction b generalizing index with
  | nil => exact ⟨rfl, rfl⟩
  | cons x b ih =>
    have hx := x.toNat_lt
    obtain ⟨high, hhigh, hhighval⟩ := bytes_hexChar (d := x.toNat / 16 % 16) (by omega) index
    obtain ⟨low, hlow, hlowval⟩ := bytes_hexChar (d := x.toNat % 16) (by omega) (index + 1)
    obtain ⟨hrest, hlength⟩ := ih (index + 2)
    have hbytes : Text.bytes (hex_encode (x :: b)) =
        high :: low :: Text.bytes (hex_encode b) := by
      simp [Text.bytes, hex_encode, hexDigits, hhigh, hlow]
    have hbyte : UInt8.ofNat (16 * (x.toNat / 16 % 16) + x.toNat % 16) = x := by
      rw [← UInt8.toNat_inj, UInt8.toNat_ofNat_of_lt' (show _ < UInt8.size by simp [UInt8.size]; omega)]
      omega
    rw [hbytes]
    refine ⟨?_, by simp only [List.length_cons, hlength]; omega⟩
    simp only [hexPairs, hhighval, hlowval, hrest, bind, Except.bind, hbyte]

theorem hex_decode_encode (b : Bytes) : hex_decode (hex_encode b) = .ok b := by
  obtain ⟨hpairs, hlength⟩ := hexPairs_encode b 0
  unfold hex_decode
  simp only
  rw [if_neg (by omega), hpairs]

/-! ## The decoders -/

theorem unless_eq_ok {ε α : Type} {p : Prop} [Decidable p] {e : ε} {x : Except ε α} {a : α} :
    (if p then .error e else x) = .ok a ↔ ¬ p ∧ x = .ok a := by
  by_cases hp : p <;> simp [hp]

/-- The JSON text that the bytes of a transaction spell in hex. -/
def wireText (tx_bytes : Bytes) : Option Text := do
  let hex_str ← (from_utf8 tx_bytes).toOption
  let decoded_bytes ← (hex_decode hex_str).toOption
  (from_utf8 decoded_bytes).toOption

theorem toOption_eq_some {ε α : Type} {x : Except ε α} {a : α} :
    x.toOption = some a ↔ x = .ok a := by
  cases x <;> simp [Except.toOption]

theorem wireText_eq_some {tx_bytes : Bytes} {text : Text} :
    wireText tx_bytes = some text ↔ ∃ hex_str, from_utf8 tx_bytes = .ok hex_str ∧
      ∃ decoded, hex_decode hex_str = .ok decoded ∧ from_utf8 decoded = .ok text := by
  simp only [wireText, bind, Option.bind_eq_some_iff, toOption_eq_some]

/-- The bytes that a client sends spell its JSON text. -/
theorem wireText_hex_encode_tx (tx : Tx) : wireText (hex_encode_tx tx) = some tx.to_string :=
  wireText_eq_some.mpr ⟨_, from_utf8_bytes _, _, hex_decode_encode _, from_utf8_bytes _⟩

theorem checkDecode_eq_ok {tx_bytes : Bytes} {tx : Tx} :
    checkDecode o s pc tx_bytes = .ok tx ↔ tx_bytes.length ≤ pc.max_tx_bytes ∧
      ∃ text, wireText tx_bytes = some text ∧ s.from_str_tx o text = .ok tx := by
  simp only [checkDecode, unless_eq_ok, bind_eq_ok, mapError_eq_ok, wireText_eq_some, Nat.not_lt]
  constructor
  · rintro ⟨hsize, hex_str, hhex, decoded, hdecoded, text, htext, htx⟩
    exact ⟨hsize, text, ⟨hex_str, hhex, decoded, hdecoded, htext⟩, htx⟩
  · rintro ⟨hsize, text, ⟨hex_str, hhex, decoded, hdecoded, htext⟩, htx⟩
    exact ⟨hsize, hex_str, hhex, decoded, hdecoded, text, htext, htx⟩

/-- DeliverTx decodes what CheckTx decodes, if the hex is not too long and the JSON passes the
structural checks. -/
theorem deliverDecode_eq_ok {tx_bytes : Bytes} {text : Text} {tx tx' : Tx}
    (hsize : tx_bytes.length ≤ pc.max_tx_bytes) (hwire : wireText tx_bytes = some text)
    (htx : s.from_str_tx o text = .ok tx) :
    deliverDecode o pc s tx_bytes = .ok tx' ↔
      tx = tx' ∧ tx_bytes.length ≤ 2 * (1024 * 1024) ∧ PassesChecks s text := by
  obtain ⟨hex_str, hhex, decoded, hdecoded, htext⟩ := wireText_eq_some.mp hwire
  obtain ⟨hdigits, heven⟩ := hex_decode_digits hdecoded
  have hlength : tx_bytes.length = hex_str.length := by
    rw [from_utf8_eq_ok.mp hhex, length_bytes, utf8Len_of_hex hdigits]
  simp only [deliverDecode, unless_eq_ok, bind_eq_ok, mapError_eq_ok, hhex, hdecoded, htext, htx,
    validate_hex_string_eq_ok, Except.ok.injEq, exists_eq_left', exists_unit, Nat.not_lt, hsize,
    true_and]
  constructor
  · rintro ⟨hhexup, hjson, v, hv, hvalid, heq⟩
    refine ⟨heq, ?_, hjson, v, hv, hvalid⟩
    rw [hlength]
    exact hhexup.short
  · rintro ⟨heq, hshort, hjson, v, hv, hvalid⟩
    refine ⟨⟨?_, ?_, heven, hdigits⟩, hjson, v, hv, hvalid, heq⟩
    · -- No hex is no JSON, and the check of the JSON asks for some.
      rintro rfl
      have hnil : decoded = [] := by
        cases hdecoded
        rfl
      have htextnil : from_utf8 (Text.bytes []) = .ok text := by
        rw [hnil] at htext
        exact htext
      rw [from_utf8_bytes] at htextnil
      cases htextnil
      exact (validate_json_string_eq_ok.mp hjson).1 rfl
    · rw [MAX_HEX_BYTES, ← hlength]
      exact hshort

/-! ## The checks on a decoded transaction -/

/-- The fee that a transaction offers is a coin, and covers what it needs. -/
def FeeOffered (o : Outside) (tx : Tx) : Prop :=
  ∃ required, o.calculate_dynamic_fee tx = .ok required ∧ tx.fee ≤ MAX_COIN ∧
    required.amount ≤ tx.fee

theorem checkFee_eq_ok {tx : Tx} : checkFee o tx = .ok () ↔ FeeOffered o tx := by
  unfold checkFee FeeOffered
  cases o.calculate_dynamic_fee tx with
  | error e => simp
  | ok required =>
    simp only [Except.ok.injEq, exists_eq_left']
    cases hfee : Coin.new tx.fee with
    | error e =>
      have hlarge : ¬ tx.fee ≤ MAX_COIN := by
        intro hle
        rw [Coin.new, dif_neg (Nat.not_lt.mpr hle)] at hfee
        cases hfee
      simp [hlarge]
    | ok provided =>
      have hprovided := Coin.new_eq_ok.mp hfee
      have hle : tx.fee ≤ MAX_COIN := hprovided ▸ provided.le_max
      simp only [unless_eq_ok, hprovided, hle, true_and, Nat.not_lt, and_true]

theorem checkNonce_eq_ok {account : Account} {tx : Tx} :
    checkNonce account tx = .ok () ↔ account.nonce.next = some tx.nonce := by
  unfold checkNonce
  cases account.nonce.next with
  | none => simp
  | some expected => simp

theorem checkDecoded_eq_ok {m : MempoolConnection} {tx : Tx} :
    checkDecoded o m tx = .ok () ↔ o.verify tx m.chain_id = true ∧
      ∃ account, checkSender o m tx.payload.inner.sender = .ok account ∧
        account.nonce.next = some tx.nonce ∧ FeeOffered o tx := by
  simp only [checkDecoded, unless_eq_ok, bind_eq_ok, exists_unit, checkNonce_eq_ok, checkFee_eq_ok,
    Bool.not_eq_true', Bool.not_eq_false]

/-! ## Admission -/

/-- What DeliverTx still asks of a sender whose nonce is the next one. -/
theorem admitToBlock_of_next {st : Storage} {e : AppStateEnvelope} {tx : Tx}
    {sender : AccountWithCadoHash}
    (haccount : e.get_account_from_cado o st tx.payload.inner.sender = some sender)
    (hnonce : sender.account.nonce.next = some tx.nonce) (hmax : tx.fee ≤ MAX_COIN)
    (hzero : tx.fee ≠ 0) (hbalance : tx.fee ≤ sender.account.balance.amount) :
    ∃ e', admitToBlock o st e tx = .ok e' := by
  have hfee : Coin.new tx.fee = .ok ⟨tx.fee, hmax⟩ := Coin.new_eq_ok.mpr rfl
  obtain ⟨rest, hrest, _⟩ :=
    Coin.sub_of_le (a := sender.account.balance) (b := ⟨tx.fee, hmax⟩) hbalance
  unfold admitToBlock
  simp only [haccount, hnonce, hfee, hrest, Coin.is_zero, beq_iff_eq, ne_eq, not_true_eq_false,
    if_false, if_neg hzero, if_neg (Nat.not_lt.mpr hbalance)]
  exact ⟨_, rfl⟩

/-- A transaction that passed CheckTx is admitted exactly when its fee is not zero and its
sender can pay it. -/
theorem admission_iff {c : ConsensusConnection} {state : AppState} {tx : Tx}
    {sender : AccountWithCadoHash} (hverify : o.verify tx c.committed_state.chain_id = true)
    (hoffered : FeeOffered o tx) (hcurrent : c.current_state = some state)
    (haccount : state.envelope.get_account_from_cado o c.storage tx.payload.inner.sender
      = some sender)
    (hnonce : sender.account.nonce.next = some tx.nonce) :
    (∃ state', admission o c tx = .ok state') ↔
      tx.fee ≠ 0 ∧ tx.fee ≤ sender.account.balance.amount := by
  constructor
  · rintro ⟨state', h⟩
    obtain ⟨state₀, hstate, _, _, ⟨sender', rest, hcharged⟩, hpos⟩ := admission.spec h
    rw [hcurrent] at hstate
    cases hstate
    have haccount' := hcharged.account
    rw [haccount] at haccount'
    cases haccount'
    have hfee := hcharged.fee
    omega
  · rintro ⟨hzero, hbalance⟩
    obtain ⟨required, hrequired, hmax, hle⟩ := hoffered
    obtain ⟨e', he'⟩ := admitToBlock_of_next haccount hnonce hmax hzero hbalance
    have hfee : Coin.new tx.fee = .ok ⟨tx.fee, hmax⟩ := Coin.new_eq_ok.mpr rfl
    unfold admission
    simp only [hverify, Bool.not_true, Bool.false_eq_true, if_false, hrequired, hfee,
      if_neg (Nat.not_lt.mpr hle), hcurrent, he']
    exact ⟨_, rfl⟩

/-! ## The committed state -/

variable {cfg : GenesisConfig}

/-- The committed state has the chain id of the configuration. It either stages nothing or,
before the first commit, has committed nothing. -/
structure Settled (cfg : GenesisConfig) (n : Node) : Prop where
  chain_id : n.conn.committed_state.chain_id = cfg.chain_id
  current : n.phase ≠ .idle → ∃ s, n.conn.current_state = some s ∧ s.chain_id = cfg.chain_id
  staged : n.conn.committed_state.envelope.cado_cache = ∅ ∨
    n.conn.committed_state.envelope.committed_cado_cache = ∅

theorem genesis_settled (o : Outside) (pc : ProtocolConstants) (cfg : GenesisConfig) :
    Settled cfg (genesis o pc cfg) := by
  refine ⟨?_, fun hidle => absurd rfl hidle, Or.inr ?_⟩
  · simp only [genesis, init_chain_inner]
    generalize hs : (AppState.mk _ _ _ : AppState) = start
    obtain ⟨selected, hsel⟩ := select_active.spec o pc start I64.zero
    rw [hsel, ← hs]
    rfl
  · obtain ⟨selected, cache, _, heq⟩ := genesis.spec o pc cfg
    rw [heq]
    rfl

theorem endBlockState_chain_id {s s' : AppState} {height : I64} {out : EndBlockOutcome}
    (h : endBlockState o pc s height = .ok (out, s')) : s'.chain_id = s.chain_id := by
  obtain ⟨_, _, _, _, _, _, rfl⟩ := endBlockState.fields h
  rfl

theorem NodeStep.settled {n n' : Node} {r : Request} (h : NodeStep o pc n r n')
    (hgood : NodeGood o n) (hs : Settled cfg n) : Settled cfg n' := by
  cases h with
  | begun => exact ⟨hs.chain_id, fun _ => ⟨_, rfl, hs.chain_id⟩, hs.staged⟩
  | turned_away => exact hs
  | @delivered tx s phase admitted =>
    obtain ⟨s₀, hs₀, _, hchain, _⟩ := admission.spec admitted
    obtain ⟨s₁, hs₁, hchain₁⟩ := hs.current (by simp [phase])
    rw [hs₀] at hs₁
    cases hs₁
    exact ⟨hs.chain_id, fun _ => ⟨_, rfl, hchain.trans hchain₁⟩, hs.staged⟩
  | @ended height s s' out phase grows current ends =>
    obtain ⟨s₁, hs₁, hchain₁⟩ := hs.current (by simp [phase])
    rw [current] at hs₁
    cases hs₁
    exact ⟨hs.chain_id, fun _ => ⟨_, rfl, (endBlockState_chain_id ends).trans hchain₁⟩, hs.staged⟩
  | @committed s c' phase current commits =>
    obtain ⟨s₁, hs₁, hchain₁⟩ := hs.current (by simp [phase])
    rw [current] at hs₁
    cases hs₁
    obtain ⟨_, hgood'⟩ := hgood.of_current (by simp [phase]) current
    have hstep := commit_inner.spec current hgood' commits
    exact ⟨hstep.chain_id.trans hchain₁, fun hidle => absurd rfl hidle,
      Or.inl hstep.envelope.cado_cache⟩
  | uploaded => exact ⟨hs.chain_id, hs.current, hs.staged⟩

theorem reachable_settled {n : Node} (h : Reachable o pc cfg n) : Settled cfg n := by
  obtain ⟨requests, hrun⟩ := h
  have hboth := runs.run_invariant _ (fun n => NodeGood o n ∧ Settled cfg n)
    (fun _ _ _ hg hs => ⟨(step_cases hs).good hg.1, (step_cases hs).settled hg.1 hg.2⟩)
    ⟨genesis_good o pc cfg, genesis_settled o pc cfg⟩ hrun
  exact hboth.2

/-- What CheckTx takes for an account. -/
theorem checkSender_eq_ok {m : MempoolConnection} {sender : Address} {account : Account}
    (h : checkSender o m sender = .ok account) :
    ∃ body, lookup_cado_by_path_excluding_current_cache o m.committed_state m.storage
        (.account sender) = .ok (some body) ∧
      ∃ hash, body.chain?.bind CadoBody.account? = some ⟨account, hash⟩ := by
  unfold checkSender at h
  split at h
  · rename_i hlookup
    cases h
    exact ⟨_, hlookup, _, rfl⟩
  · cases h
  · cases h
  · cases h

theorem stored_chain (b : CadoBody CadoData) : b.stored.chain? = some b := by
  cases b <;> rfl

/-- The account that CheckTx finds is the one that the next block finds. -/
theorem checkSender_agrees {n : Node} (hn : Reachable o pc cfg n) {sender : Address}
    {account : Account} (h : checkSender o (n.mempool pc cfg) sender = .ok account) :
    ∃ hash, n.conn.committed_state.envelope.get_account_from_cado o n.conn.storage sender
      = some ⟨account, hash⟩ := by
  obtain ⟨body, hlookup, hash, haccount⟩ := checkSender_eq_ok h
  refine ⟨hash, ?_⟩
  unfold lookup_cado_by_path_excluding_current_cache at hlookup
  unfold AppStateEnvelope.get_account_from_cado AppStateEnvelope.lookup_cado_staged_committed_then_db
  rcases (reachable_settled hn).staged with hempty | hnothing
  · rw [hempty]
    simp only [ExtTreeMap.getElem?_empty]
    simp only [Node.mempool] at hlookup
    cases hcado : n.conn.committed_state.envelope.committed_cado_cache[CadoPath.account sender]? with
    | some cado =>
      simp only [hcado] at hlookup ⊢
      cases hlookup
      rw [stored_chain] at haccount
      exact haccount
    | none =>
      simp only [hcado] at hlookup ⊢
      simp only [hlookup]
      exact haccount
  · -- Before the first commit the database holds no account either.
    have hindex : n.conn.storage.path_index[CadoPath.account sender]? = none := by
      rw [Option.eq_none_iff_forall_ne_some]
      intro k hk
      have hcommitted := (reachable_good hn).committed.committed.indexed (.account sender) rfl
        (by rw [hk]; rfl)
      rw [hnothing] at hcommitted
      simp at hcommitted
    simp [Node.mempool, hnothing, Storage.get_cado_by_path, hindex] at hlookup

/-! ## Acceptance -/

/-- Every error of a check is an answer with a code other than 0. -/
def Refuses {α : Type} (x : Except ResponseCheckTx α) : Prop := ∀ r, x = .error r → r.code ≠ 0

theorem Refuses.ok {α : Type} (a : α) : Refuses (.ok a) := by
  intro r h
  cases h

theorem Refuses.error {α : Type} {r : ResponseCheckTx} (h : r.code ≠ 0) :
    Refuses (.error r : Except ResponseCheckTx α) := by
  intro r' hr
  cases hr
  exact h

theorem Refuses.bind {α β : Type} {x : Except ResponseCheckTx α}
    {f : α → Except ResponseCheckTx β} (hx : Refuses x) (hf : ∀ a, Refuses (f a)) :
    Refuses (x >>= f) := by
  cases x with
  | error r => exact .error (hx r rfl)
  | ok a => exact hf a

theorem Refuses.mapError {ε α : Type} {x : Except ε α} {f : ε → ResponseCheckTx}
    (hf : ∀ e, (f e).code ≠ 0) : Refuses (x.mapError f) := by
  cases x with
  | error e => exact .error (hf e)
  | ok a => exact .ok a

theorem checkDecode_refuses (tx_bytes : Bytes) : Refuses (checkDecode o s pc tx_bytes) := by
  unfold checkDecode
  split
  · exact .error (by simp [response_check_tx_error_tx_too_large, checkErrorResponse])
  · refine .bind (.mapError (fun _ => ?_)) (fun _ => .bind (.mapError (fun _ => ?_)) (fun _ =>
      .bind (.mapError (fun _ => ?_)) (fun _ => .mapError (fun _ => ?_))))
    · simp [response_check_tx_error_invalid_utf8_encoding, checkErrorResponse]
    · simp [response_check_tx_error_invalid_hex_encoding, checkErrorResponse]
    · simp [response_check_tx_error_invalid_utf8_encoding, checkErrorResponse]
    · simp [response_check_tx_error_json_parsing_failed, checkErrorResponse]

theorem checkSender_refuses (m : MempoolConnection) (sender : Address) :
    Refuses (checkSender o m sender) := by
  unfold checkSender
  split
  · exact .ok _
  · exact .error (by simp [response_check_tx_error_verification_failed, checkErrorResponse])
  · exact .error (by simp [response_check_tx_error_sender_doesnt_exist, checkErrorResponse])
  · exact .error (by simp [response_check_tx_error_verification_failed, checkErrorResponse])

theorem checkNonce_refuses (account : Account) (tx : Tx) : Refuses (checkNonce account tx) := by
  unfold checkNonce
  split
  · exact .error (by simp [response_check_tx_error_nonce_overflow, checkErrorResponse])
  · split
    · exact .error (by simp [response_check_tx_error_nonce_not_sequential, checkErrorResponse])
    · exact .ok _

theorem checkFee_refuses (tx : Tx) : Refuses (checkFee o tx) := by
  unfold checkFee
  split
  · exact .error (by simp [response_check_tx_error_fee_calculation_failed, checkErrorResponse])
  · split
    · exact .error (by simp [response_check_tx_error_insufficient_fee, checkErrorResponse])
    · split
      · exact .error (by simp [response_check_tx_error_insufficient_fee, checkErrorResponse])
      · exact .ok _

theorem checkDecoded_refuses (m : MempoolConnection) (tx : Tx) : Refuses (checkDecoded o m tx) := by
  unfold checkDecoded
  split
  · exact .error (by simp [response_check_tx_error_verification_failed, checkErrorResponse])
  · exact .bind (checkSender_refuses m _) (fun account =>
      .bind (checkNonce_refuses account tx) (fun _ => checkFee_refuses tx))

/-- CheckTx accepts exactly what decodes and passes its checks. -/
theorem check_tx_accepts_iff {n : Node} {tx_bytes : Bytes} :
    (check_tx o s (n.mempool pc cfg) tx_bytes).code = 0 ↔
      ∃ tx, checkDecode o s pc tx_bytes = .ok tx ∧ checkDecoded o (n.mempool pc cfg) tx = .ok () := by
  have hrefuses : Refuses (checkDecode o s pc tx_bytes >>= checkDecoded o (n.mempool pc cfg)) :=
    .bind (checkDecode_refuses tx_bytes) (checkDecoded_refuses _)
  rw [← bind_eq_ok]
  have hloaded : (n.mempool pc cfg).protocol = some pc := rfl
  simp only [check_tx, hloaded]
  cases hresult : checkDecode o s pc tx_bytes >>= checkDecoded o (n.mempool pc cfg) with
  | error r => simp [hrefuses r hresult]
  | ok u => simp

/-! ## Delivery -/

/-- Delivered first in the next block, the transaction passes every check and reaches its
processor, on a state in which its sender has the next nonce and has paid the fee. -/
def PaysFirst (o : Outside) (pc : ProtocolConstants) (s : SerdeJson) (n : Node)
    (tx_bytes : Bytes) : Prop :=
  ∃ (tx : Tx) (state : AppState), deliverDecode o pc s tx_bytes = .ok tx ∧
    admission o (begin_block_inner n.conn) tx = .ok state ∧
    Charged o n.conn.storage n.conn.committed_state.envelope tx state.envelope ∧
    deliver_tx o pc s (begin_block_inner n.conn) tx_bytes =
      (withGas o tx (tx.process o pc n.conn.storage state.envelope).1,
        { begin_block_inner n.conn with
          current_state := some { state with
            envelope := (tx.process o pc n.conn.storage state.envelope).2 } })

/-- What DeliverTx admits reaches its processor, and its sender has paid. -/
theorem pays_of_admission {n : Node} {tx_bytes : Bytes} {tx : Tx} {state : AppState}
    (hdecode : deliverDecode o pc s tx_bytes = .ok tx)
    (hadmitted : admission o (begin_block_inner n.conn) tx = .ok state) :
    PaysFirst o pc s n tx_bytes := by
  obtain ⟨state₀, hcurrent, _, _, hcharged, _⟩ := admission.spec hadmitted
  cases hcurrent
  refine ⟨tx, state, hdecode, hadmitted, hcharged, ?_⟩
  simp only [deliver_tx, deliver_tx_inner, hdecode, hadmitted]
  rfl

/-- A transaction that CheckTx accepts is charged when it is delivered first in the next
block, exactly when its hex spells at most one mebibyte, its JSON passes the structural
checks, and its fee is not zero and not above the balance. -/
theorem accepted_pays_iff (s : SerdeJson) {n : Node} (hn : Reachable o pc cfg n) {tx_bytes : Bytes}
    (hcheck : (check_tx o s (n.mempool pc cfg) tx_bytes).code = 0) :
    ∃ text tx sender, wireText tx_bytes = some text ∧ s.from_str_tx o text = .ok tx ∧
      n.conn.committed_state.envelope.get_account_from_cado o n.conn.storage
        tx.payload.inner.sender = some sender ∧
      (PaysFirst o pc s n tx_bytes ↔ tx_bytes.length ≤ 2 * (1024 * 1024) ∧ PassesChecks s text ∧
        tx.fee ≠ 0 ∧ tx.fee ≤ sender.account.balance.amount) := by
  obtain ⟨tx, hdecode, hdecoded⟩ := check_tx_accepts_iff.mp hcheck
  obtain ⟨hsize, text, hwire, htx⟩ := checkDecode_eq_ok.mp hdecode
  obtain ⟨hverify, account, hsender, hnonce, hoffered⟩ := checkDecoded_eq_ok.mp hdecoded
  obtain ⟨hash, haccount⟩ := checkSender_agrees hn hsender
  have hchain : o.verify tx n.conn.committed_state.chain_id = true := by
    rw [(reachable_settled hn).chain_id]
    exact hverify
  have hadmission :=
    admission_iff (c := begin_block_inner n.conn) hchain hoffered rfl haccount hnonce
  refine ⟨text, tx, _, hwire, htx, haccount, ?_⟩
  constructor
  · rintro ⟨tx', state, hdecode', hadmitted, _⟩
    obtain ⟨rfl, hshort, hpasses⟩ := (deliverDecode_eq_ok hsize hwire htx).mp hdecode'
    obtain ⟨hzero, hbalance⟩ := hadmission.mp ⟨state, hadmitted⟩
    exact ⟨hshort, hpasses, hzero, hbalance⟩
  · rintro ⟨hshort, hpasses, hzero, hbalance⟩
    obtain ⟨state, hadmitted⟩ := hadmission.mpr ⟨hzero, hbalance⟩
    exact pays_of_admission ((deliverDecode_eq_ok hsize hwire htx).mpr ⟨rfl, hshort, hpasses⟩)
      hadmitted

/-! ## A fee above the balance -/

/-- Alice sends five base units to Bob for a fee. -/
def aliceOffers (fee : UInt32) : Tx := { aliceSendsFive with fee := fee.toNat }

theorem aliceOffers_wired (fee : UInt32) : (aliceOffers fee).Wired Outside.toy := by
  have hwired : aliceSendsFive.Wired Outside.toy := signed_wired 1 1 _ _
  have hkey : (aliceOffers fee).public_key = aliceSendsFive.public_key := rfl
  refine ⟨hwired.sig_hex, hwired.key_hex, ?_, Nat.lt_trans fee.toNat_lt (by decide)⟩
  rw [hkey]
  exact hwired.key_valid

/-- The small chain after its first block, in which nothing happens. -/
def quietBlock : List Request := block (smallHeight 1) []

/-- CheckTx accepts what passes its checks. -/
theorem aliceOffers_accepted {n : Node} {fee : UInt32}
    (hsize : (hex_encode_tx (aliceOffers fee)).length ≤ smallConstants.max_tx_bytes)
    (h : (checkDecoded Outside.toy (n.mempool smallConstants smallConfig)
      (aliceOffers fee)).toOption.isSome = true) :
    (check_tx Outside.toy SerdeJson.plain (n.mempool smallConstants smallConfig)
      (hex_encode_tx (aliceOffers fee))).code = 0 := by
  refine check_tx_accepts_iff.mpr ⟨aliceOffers fee, checkDecode_eq_ok.mpr ⟨hsize, _,
    wireText_hex_encode_tx _, Tx.from_to_string _ (aliceOffers_wired fee)⟩, ?_⟩
  cases hresult : checkDecoded Outside.toy (n.mempool smallConstants smallConfig)
      (aliceOffers fee) with
  | error r =>
    rw [hresult] at h
    cases h
  | ok u => rfl

theorem accepted_pays_iff_of_aliceOffers :
    ∃ n, RunsTo Outside.toy smallConstants smallConfig quietBlock n ∧
      (check_tx Outside.toy SerdeJson.plain (n.mempool smallConstants smallConfig)
        (hex_encode_tx (aliceOffers 1000))).code = 0 ∧
      ∃ text tx sender, wireText (hex_encode_tx (aliceOffers 1000)) = some text ∧
        SerdeJson.plain.from_str_tx Outside.toy text = .ok tx ∧
        n.conn.committed_state.envelope.get_account_from_cado Outside.toy n.conn.storage
          tx.payload.inner.sender = some sender ∧
        (PaysFirst Outside.toy smallConstants SerdeJson.plain n (hex_encode_tx (aliceOffers 1000)) ↔
          (hex_encode_tx (aliceOffers 1000)).length ≤ 2 * (1024 * 1024) ∧
          PassesChecks SerdeJson.plain text ∧ tx.fee ≠ 0 ∧
          tx.fee ≤ sender.account.balance.amount) := by
  obtain ⟨n, hn, heval⟩ := @smallRun_ends quietBlock (fun n =>
    (checkDecoded Outside.toy (n.mempool smallConstants smallConfig)
      (aliceOffers 1000)).toOption.isSome) (by decide +kernel)
  have hcheck := aliceOffers_accepted (by decide +kernel) heval
  exact ⟨n, hn, hcheck, accepted_pays_iff SerdeJson.plain ⟨_, hn⟩ hcheck⟩

/-- CheckTx accepts a fee of five million base units from Alice, who has one million. The
block that holds the transaction charges her nothing. -/
theorem aliceOffers_five_million_pays_nothing :
    ∃ n, RunsTo Outside.toy smallConstants smallConfig quietBlock n ∧ n.phase = .idle ∧
      (check_tx Outside.toy SerdeJson.plain (n.mempool smallConstants smallConfig)
        (hex_encode_tx (aliceOffers 5000000))).code = 0 ∧
      (deliver_tx_inner Outside.toy smallConstants (begin_block_inner n.conn)
        (.ok (aliceOffers 5000000))).1.code = 5 ∧
      ¬ PaysFirst Outside.toy smallConstants SerdeJson.plain n
        (hex_encode_tx (aliceOffers 5000000)) := by
  obtain ⟨n, hn, heval⟩ := @smallRun_ends quietBlock (fun n => n.phase == .idle &&
    (checkDecoded Outside.toy (n.mempool smallConstants smallConfig)
      (aliceOffers 5000000)).toOption.isSome &&
    (deliver_tx_inner Outside.toy smallConstants (begin_block_inner n.conn)
      (.ok (aliceOffers 5000000))).1.code == 5 &&
    (admission Outside.toy (begin_block_inner n.conn) (aliceOffers 5000000)).toOption.isNone)
    (by decide +kernel)
  simp only [Bool.and_eq_true, beq_iff_eq] at heval
  obtain ⟨⟨⟨hidle, hdecoded⟩, hcode⟩, hrefused⟩ := heval
  have hsize : (hex_encode_tx (aliceOffers 5000000)).length ≤ smallConstants.max_tx_bytes := by
    decide +kernel
  refine ⟨n, hn, hidle, aliceOffers_accepted hsize hdecoded, hcode, ?_⟩
  rintro ⟨tx, state, hdecode, hadmitted, _⟩
  obtain ⟨rfl, _⟩ := (deliverDecode_eq_ok hsize (wireText_hex_encode_tx _)
    (Tx.from_to_string _ (aliceOffers_wired 5000000))).mp hdecode
  rw [hadmitted] at hrefused
  cases hrefused

end eld_chain
