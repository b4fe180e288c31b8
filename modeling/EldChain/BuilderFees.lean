-- What a built transaction pays. The fee is asked for before it is written,
-- so the text grows by its digits after it was measured. The payloads of the
-- client never reach a second kibibyte. A verified proof can, and if its
-- digits start a kibibyte of their own then it pays too little.
import EldChain.MempoolAdmission
import EldChain.TxBuilders

open json

namespace eld_chain

variable {o : Outside} {fl : Floats} {cfg : FeeConfig fl}

/-! ## The schedule -/

theorem checkedU128_eq_ok {value n : Nat} {operation details : String} :
    checkedU128 value operation details = .ok n ↔ value < 2 ^ 128 ∧ n = value := by
  unfold checkedU128
  by_cases h : value < 2 ^ 128
  · rw [if_pos h]
    constructor
    · intro heq
      exact ⟨h, (Except.ok.inj heq).symm⟩
    · rintro ⟨_, rfl⟩
      rfl
  · rw [if_neg h]
    constructor
    · intro heq
      cases heq
    · rintro ⟨hlt, _⟩
      exact absurd hlt h

/-- The fee is the sum of its four parts. Only the second depends on the size. -/
theorem feeForSize_amount {payload : PayloadInner} {size : Nat} {fee : Coin}
    (h : feeForSize fl cfg payload size = .ok fee) :
    ∃ complexity_fee estimated_gas,
      calculate_complexity_fee fl cfg.base_fee (get_complexity_multiplier fl payload cfg) =
        .ok complexity_fee ∧
      estimate_gas_usage payload = .ok estimated_gas ∧
      fee.amount = cfg.base_fee + startedKb size * cfg.size_fee_per_kb + complexity_fee +
        estimated_gas * cfg.gas_price := by
  simp only [feeForSize, calculate_size_fee, calculate_gas_fee, bind_eq_ok, checkedU128_eq_ok,
    unless_eq_ok, Coin.new_eq_ok] at h
  obtain ⟨_, ⟨_, rfl⟩, complexity_fee, hcomplexity, estimated_gas, hgas, _, ⟨_, _, rfl⟩, _,
    ⟨_, rfl⟩, _, ⟨_, rfl⟩, _, ⟨_, rfl⟩, _, hamount⟩ := h
  exact ⟨complexity_fee, estimated_gas, hcomplexity, hgas, hamount⟩

theorem feeForSize_congr {payload : PayloadInner} {size size' : Nat}
    (h : startedKb size = startedKb size') :
    feeForSize fl cfg payload size = feeForSize fl cfg payload size' := by
  unfold feeForSize calculate_size_fee
  rw [h]

/-- Of two sizes of a payload the cheaper one starts fewer kibibytes. -/
theorem startedKb_le_of_fee {payload : PayloadInner} {size size' : Nat} {fee fee' : Coin}
    (hrate : 0 < cfg.size_fee_per_kb) (h : feeForSize fl cfg payload size = .ok fee)
    (h' : feeForSize fl cfg payload size' = .ok fee') (hle : fee'.amount ≤ fee.amount) :
    startedKb size' ≤ startedKb size := by
  obtain ⟨complexity_fee, gas, hcomplexity, hgas, hamount⟩ := feeForSize_amount h
  obtain ⟨complexity_fee', gas', hcomplexity', hgas', hamount'⟩ := feeForSize_amount h'
  rw [hcomplexity] at hcomplexity'
  rw [hgas] at hgas'
  cases hcomplexity'
  cases hgas'
  have hsize : startedKb size' * cfg.size_fee_per_kb ≤ startedKb size * cfg.size_fee_per_kb := by
    omega
  exact Nat.le_of_mul_le_mul_right hsize hrate

theorem startedKb_mono {size size' : Nat} (h : size ≤ size') : startedKb size ≤ startedKb size' := by
  unfold startedKb
  omega

theorem validateNonzero_eq_ok {value : Nat} {field details : String} :
    validateNonzero value field details = .ok () ↔ 0 < value := by
  unfold validateNonzero
  by_cases h : value = 0
  · simp [h]
  · simp [h, Nat.pos_of_ne_zero h]

theorem size_fee_pos (h : cfg.validate = .ok ()) : 0 < cfg.size_fee_per_kb := by
  simp only [FeeConfig.validate, bind_eq_ok, exists_unit, validateNonzero_eq_ok] at h
  exact h.2.1

/-! ## The size of a text -/

/-- A character that stands for itself in a JSON string, in one byte. -/
def plainChar (c : Char) : Bool := escapeChar c == [c] && c.utf8Size == 1

theorem utf8Len_plain {t : Text} (h : ∀ c ∈ t, plainChar c = true) : utf8Len t = t.length := by
  induction t with
  | nil => rfl
  | cons c t ih =>
    have hc := h c List.mem_cons_self
    simp only [plainChar, Bool.and_eq_true, beq_iff_eq] at hc
    rw [utf8Len_cons, hc.2, ih (fun d hd => h d (List.mem_cons_of_mem _ hd)), List.length_cons]
    omega

theorem flatMap_escape_plain {t : Text} (h : ∀ c ∈ t, plainChar c = true) :
    t.flatMap escapeChar = t := by
  induction t with
  | nil => rfl
  | cons c t ih =>
    have hc := h c List.mem_cons_self
    simp only [plainChar, Bool.and_eq_true, beq_iff_eq] at hc
    rw [List.flatMap_cons, hc.1, ih (fun d hd => h d (List.mem_cons_of_mem _ hd))]
    rfl

theorem utf8Len_quote {t : Text} (h : ∀ c ∈ t, plainChar c = true) :
    utf8Len (quote t) = t.length + 2 := by
  have hquote : ('"' : Char).utf8Size = 1 := by decide
  rw [quote, flatMap_escape_plain h, List.cons_append, utf8Len_cons, utf8Len_append, utf8Len_cons,
    utf8Len_plain h, hquote]
  simp only [utf8Len, List.map_nil, List.sum_nil]
  omega

theorem plain_of_lt {p : Char → Bool} (hall : ∀ i : Fin 128, p (Char.ofNat i) = true →
    plainChar (Char.ofNat i) = true) {c : Char} (hlt : c.toNat < 128) (h : p c = true) :
    plainChar c = true := by
  have hc := hall ⟨c.toNat, hlt⟩
  rw [Char.ofNat_toNat] at hc
  exact hc h

theorem plain_hexDigits {n v : Nat} : ∀ c ∈ hexDigits n v, plainChar c = true := by
  intro c hc
  obtain ⟨d, hd, rfl⟩ := mem_hexDigits hc
  have hall : ∀ i : Fin 16, plainChar (hexChar i) = true := by decide
  exact hall ⟨d, hd⟩

theorem plain_digits {n : Nat} : ∀ c ∈ Nat.toDigits 10 n, plainChar c = true := by
  intro c hc
  have hdigit := Nat.isDigit_of_mem_toDigits (by decide) (by decide) hc
  have hrange : 48 ≤ c.toNat ∧ c.toNat ≤ 57 := by
    simp only [Char.isDigit, ge_iff_le, Bool.and_eq_true, decide_eq_true_eq] at hdigit
    exact ⟨UInt32.le_iff_toNat_le.mp hdigit.1, UInt32.le_iff_toNat_le.mp hdigit.2⟩
  exact plain_of_lt (p := Char.isDigit) (by decide) (by omega) hdigit

theorem intText_nat (n : Nat) : intText n = Nat.toDigits 10 n := by
  unfold intText
  rw [if_neg (by omega), Int.natAbs_natCast]

theorem utf8Len_int (n : Nat) : utf8Len (Json.int n).compact = (Nat.toDigits 10 n).length := by
  rw [Json.compact, intText_nat, utf8Len_plain plain_digits]

theorem utf8Len_str {t : Text} (h : ∀ c ∈ t, plainChar c = true) :
    utf8Len (Json.str t).compact = t.length + 2 := by
  rw [Json.compact, utf8Len_quote h]

/-- The text of a transaction is that of the transaction without a signature and a fee, which
has one digit for the fee, with these written in. -/
theorem Tx.size_eq (tx : Tx) (hsig : ∀ c ∈ tx.sig, plainChar c = true) :
    utf8Len tx.to_string + 1 =
      utf8Len (Tx.new tx.nonce tx.payload tx.public_key).to_string + tx.sig.length +
        (Nat.toDigits 10 tx.fee).length := by
  have hnone : utf8Len (quote []) = 2 := by decide
  have hzero : utf8Len (Json.int 0).compact = 1 := by decide
  have hfee := utf8Len_int tx.fee
  have hquote := utf8Len_quote hsig
  simp only [Tx.to_string, Tx.json, Tx.new, Json.compact, compactMembers, utf8Len_append,
    utf8Len_cons] at hfee hzero hquote ⊢
  simp only [hquote, hnone, hfee, Nat.cast_zero, hzero]
  omega

/-! ## Short payloads -/

/-- A member of an object, with its colon and a comma. -/
def entrySize (m : Text × Json) : Nat := utf8Len (quote m.1) + utf8Len m.2.compact + 2

theorem utf8Len_compactMembers_le (members : Members) :
    utf8Len (compactMembers members) ≤ (members.map entrySize).sum := by
  have hcolon : (':' : Char).utf8Size = 1 := by decide
  have hcomma : (',' : Char).utf8Size = 1 := by decide
  induction members with
  | nil => exact Nat.le_refl _
  | cons m members ih =>
    obtain ⟨k, j⟩ := m
    cases members with
    | nil =>
      simp only [compactMembers, utf8Len_append, utf8Len_cons, List.map_cons, List.map_nil,
        List.sum_cons, List.sum_nil, entrySize, hcolon]
      omega
    | cons m members =>
      simp only [compactMembers, utf8Len_append, utf8Len_cons, List.map_cons, List.sum_cons,
        entrySize, hcolon, hcomma] at ih ⊢
      omega

theorem utf8Len_obj_le (members : Members) :
    utf8Len (Json.obj members).compact ≤ (members.map entrySize).sum + 2 := by
  have hopen : ('\x7b' : Char).utf8Size = 1 := by decide
  have hclose : ('\x7d' : Char).utf8Size = 1 := by decide
  have hmembers := utf8Len_compactMembers_le members
  simp only [Json.compact, utf8Len_cons, utf8Len_append]
  have hnil : utf8Len [] = 0 := rfl
  omega

theorem length_digits_le {n k : Nat} (hk : 0 < k) (h : n < 10 ^ k) :
    (Nat.toDigits 10 n).length ≤ k := (Nat.length_toDigits_le_iff (by decide) hk).mpr h

theorem address_size (a : Address) : utf8Len (addressJson a).compact ≤ 44 := by
  have hplain : ∀ c ∈ Address.text a, plainChar c = true := by
    intro c hc
    simp only [Address.text, List.mem_cons] at hc
    rcases hc with rfl | rfl | hc
    · decide
    · decide
    · exact plain_hexDigits c hc
  have hlength : (Address.text a).length = 42 := by
    simp [Address.text]
  rw [addressJson, utf8Len_str hplain]
  omega

theorem amount_size {n : Nat} (h : n ≤ MAX_COIN) : utf8Len (amountJson n).compact ≤ 18 := by
  have hlength : (Nat.toDigits 10 n).length ≤ 16 :=
    length_digits_le (by decide) (Nat.lt_of_le_of_lt h (by decide))
  rw [amountJson, utf8Len_str plain_digits]
  omega

theorem hex32_size (b : Bytes32) : utf8Len (hex32Json b).compact ≤ 66 := by
  rw [hex32Json, utf8Len_str plain_hexDigits, length_hexDigits]

theorem uint32_size (n : UInt32) : utf8Len (Json.int n.toNat).compact ≤ 10 := by
  rw [utf8Len_int]
  exact length_digits_le (by decide) (Nat.lt_trans n.toNat_lt (by decide))

theorem uint64_size (n : UInt64) : utf8Len (Json.int n.toNat).compact ≤ 20 := by
  rw [utf8Len_int]
  exact length_digits_le (by decide) (Nat.lt_trans n.toNat_lt (by decide))

theorem hex_size {t : Text} {n : Nat} (hlength : t.length = n)
    (hhex : ∀ c ∈ t, (hexVal c).isSome = true) : utf8Len (Json.str t).compact ≤ n + 2 := by
  have hplain : ∀ c ∈ t, plainChar c = true := by
    intro c hc
    exact plain_of_lt (p := fun c => (hexVal c).isSome) (by decide) (hexVal_lt (hhex c hc))
      (hhex c hc)
  rw [utf8Len_str hplain, hlength]

theorem slug_size {slug : Text} (h : CanonicalSlug slug) :
    utf8Len (Json.str slug).compact ≤ 34 := by
  have hplain : ∀ c ∈ slug, plainChar c = true := by
    intro c hc
    have hslug := valid_slug_chars h.valid c hc
    exact plain_of_lt (p := fun c => isAsciiLowercase c || isAsciiDigit c || c == '-') (by decide)
      (slug_char_lt hslug) hslug
  have hlength : slug.length ≤ 32 := by
    have hvalid := h.valid
    unfold validate_namespace_slug at hvalid
    split at hvalid
    · cases hvalid
    · rename_i hbounds
      rw [utf8Len_plain hplain, SLUG_MIN_LEN, SLUG_MAX_LEN] at hbounds
      omega
  rw [utf8Len_str hplain]
  omega

theorem option_key_size {t : Option Text}
    (h : ∀ pk ∈ t, pk.length = 64 ∧ ∀ c ∈ pk, (hexVal c).isSome) :
    utf8Len (optionJson t).compact ≤ 66 := by
  cases t with
  | none => decide
  | some pk =>
    obtain ⟨hlength, hhex⟩ := h pk rfl
    exact hex_size hlength hhex

/-- A payload whose fields are all short. -/
def PayloadInner.short : PayloadInner → Bool
  | .VerifiedProof _ => false
  | .PostMessage _ => false
  | _ => true

/-- The text of a short payload. The keys and the type name are fixed. -/
theorem short_payload_size {inner : PayloadInner} (h : inner.short = true) :
    utf8Len (Payload.new inner).json.compact ≤ 500 := by
  have hkeys : ∀ name ∈ ["type", "sender", "recipient", "amount", "public_key", "capacity_bytes",
      "merkle_root", "seed", "chunk_count", "unregister", "namespace_slug", "registration_fee"],
      utf8Len (quote (key name)) ≤ 18 := by decide
  have hnames : ∀ t : TxType, utf8Len (Json.str (key t.as_str)).compact ≤ 26 := by
    intro t
    cases t <;> decide
  have hobj := utf8Len_obj_le ((key "type", .str (key inner.tx_type.as_str)) :: inner.members)
  have htype := hnames inner.tx_type
  simp only [List.forall_mem_cons, List.not_mem_nil, false_imp_iff, forall_const, and_true] at hkeys
  obtain ⟨h1, h2, h3, h4, h5, h6, h7, h8, h9, h10, h11, h12⟩ := hkeys
  refine Nat.le_trans hobj ?_
  cases inner with
  | Transfer tx =>
    have hsender := address_size tx.sender
    have hrecipient := address_size tx.recipient
    have hamount := amount_size tx.amount_le
    simp only [PayloadInner.members, List.map_cons, List.map_nil, List.sum_cons, List.sum_nil,
      entrySize]
    omega
  | Unstake tx =>
    have hsender := address_size tx.sender
    have hamount := amount_size tx.amount_le
    simp only [PayloadInner.members, List.map_cons, List.map_nil, List.sum_cons, List.sum_nil,
      entrySize]
    omega
  | Stake tx =>
    have hsender := address_size tx.sender
    have hamount := amount_size tx.amount_le
    have hkey := option_key_size tx.key_hex
    simp only [PayloadInner.members, List.map_cons, List.map_nil, List.sum_cons, List.sum_nil,
      entrySize]
    omega
  | RegisterCapacity tx =>
    have hsender := address_size tx.sender
    have hcapacity := uint64_size tx.capacity_bytes
    have hroot := hex32_size tx.merkle_root
    have hseed := hex32_size tx.seed
    have hcount := uint32_size tx.chunk_count
    simp only [PayloadInner.members, List.map_cons, List.map_nil, List.sum_cons, List.sum_nil,
      entrySize]
    omega
  | UnregisterCapacity tx =>
    have hsender := address_size tx.sender
    have hflag : utf8Len (Json.bool tx.unregister).compact ≤ 5 := by
      cases tx.unregister <;> decide
    simp only [PayloadInner.members, List.map_cons, List.map_nil, List.sum_cons, List.sum_nil,
      entrySize]
    omega
  | UpdateCapacityMerkleRoot tx =>
    have hsender := address_size tx.sender
    have hroot := hex32_size tx.merkle_root
    simp only [PayloadInner.members, List.map_cons, List.map_nil, List.sum_cons, List.sum_nil,
      entrySize]
    omega
  | AddNamespace tx =>
    have hsender := address_size tx.sender
    have hslug := slug_size tx.slug_canonical
    have hfee := amount_size tx.fee_le
    simp only [PayloadInner.members, List.map_cons, List.map_nil, List.sum_cons, List.sum_nil,
      entrySize]
    omega
  | VerifiedProof tx => cases h
  | PostMessage tx => cases h

/-- A transaction with a short payload, before it has a signature and a fee. -/
theorem short_tx_size {inner : PayloadInner} (h : inner.short = true) (nonce : Nonce)
    {public_key : Text} (hkey : public_key.length = 64)
    (hhex : ∀ c ∈ public_key, (hexVal c).isSome = true) :
    utf8Len (Tx.new nonce (Payload.new inner) public_key).to_string ≤ 800 := by
  have hkeys : ∀ name ∈ ["sig", "nonce", "payload", "public_key", "fee"],
      utf8Len (quote (key name)) ≤ 12 := by decide
  simp only [List.forall_mem_cons, List.not_mem_nil, false_imp_iff, forall_const, and_true] at hkeys
  obtain ⟨h1, h2, h3, h4, h5⟩ := hkeys
  have hsig : utf8Len (Json.str []).compact ≤ 2 := by decide
  have hfee : utf8Len (Json.int ((0 : Nat) : Int)).compact ≤ 1 := by decide
  have hnonce := uint32_size nonce.value
  have hpayload := short_payload_size h
  have hpk := hex_size hkey hhex
  refine Nat.le_trans (utf8Len_obj_le _) ?_
  simp only [Tx.new, List.map_cons, List.map_nil, List.sum_cons, List.sum_nil, entrySize]
  omega

/-! ## What is paid -/

/-- The fee of the transaction covers what DeliverTx asks for it. -/
def PaysEnough (fl : Floats) (cfg : FeeConfig fl) (tx : Tx) : Prop :=
  ∃ required, calculate_dynamic_fee fl cfg tx = .ok required ∧ required.amount ≤ tx.fee

/-- A transaction pays enough exactly when it passes the fee checks of the node. -/
theorem paysEnough_iff (o : Outside) {tx : Tx} (hmax : tx.fee ≤ MAX_COIN) :
    PaysEnough fl cfg tx ↔ checkFee (o.withFees fl cfg) tx = .ok () := by
  rw [checkFee_eq_ok]
  unfold FeeOffered PaysEnough
  constructor
  · rintro ⟨required, hrequired, hle⟩
    exact ⟨required, hrequired, hmax, hle⟩
  · rintro ⟨required, hrequired, _, hle⟩
    exact ⟨required, hrequired, hle⟩

theorem to_string_size_pos (tx : Tx) : 0 < utf8Len tx.to_string := by
  have hopen : ('\x7b' : Char).utf8Size = 1 := by decide
  rw [Tx.to_string, Tx.json, Json.compact, utf8Len_cons, hopen]
  omega

theorem calculate_dynamic_fee_eq_ok {tx : Tx} {fee : Coin} :
    calculate_dynamic_fee fl cfg tx = .ok fee ↔
      utf8Len tx.to_string ≤ MAX_TRANSACTION_SIZE_BYTES ∧
        feeForSize fl cfg tx.payload.inner (utf8Len tx.to_string) = .ok fee := by
  have hpos := to_string_size_pos tx
  unfold calculate_dynamic_fee estimate_transaction_size
  simp only [bind_eq_ok, unless_eq_ok, Nat.not_lt]
  constructor
  · rintro ⟨size, ⟨hmax, hsize⟩, hfee⟩
    rw [if_neg (by omega)] at hsize
    cases hsize
    exact ⟨hmax, hfee⟩
  · rintro ⟨hmax, hfee⟩
    exact ⟨_, ⟨hmax, by rw [if_neg (by omega)]⟩, hfee⟩

/-- Writing the digits of the fee, and the signature where the measured transaction has none,
starts no kibibyte that was not asked for. -/
def KeepsKb (fl : Floats) (cfg : FeeConfig fl) (estimated : Tx) : Prop :=
  ∃ fee, calculate_dynamic_fee fl cfg estimated = .ok fee ∧
    startedKb (utf8Len estimated.to_string + (128 - estimated.sig.length) +
      ((Nat.toDigits 10 fee.amount).length - 1)) = startedKb (utf8Len estimated.to_string)

/-- The transaction has the fee of the measured one, and a signature. -/
structure Asked (fl : Floats) (cfg : FeeConfig fl) (estimated tx : Tx) : Prop where
  fee : ∃ fee, calculate_dynamic_fee fl cfg estimated = .ok fee ∧ tx.fee = fee.amount
  signature : ∃ signature : BitVec 512, tx.sig = hexDigits 128 signature.toNat

/-- The measured transaction, with some placeholder for the signature. -/
def Tx.measured (tx : Tx) (placeholder : Text) : Tx :=
  { Tx.new tx.nonce tx.payload tx.public_key with sig := placeholder }

theorem Asked.size {tx : Tx} {placeholder : Text} (h : Asked fl cfg (tx.measured placeholder) tx)
    (hplain : ∀ c ∈ placeholder, plainChar c = true) (hlength : placeholder.length ≤ 128) :
    utf8Len tx.to_string = utf8Len (tx.measured placeholder).to_string +
      (128 - (tx.measured placeholder).sig.length) + ((Nat.toDigits 10 tx.fee).length - 1) := by
  obtain ⟨signature, hsig⟩ := h.signature
  have hsigned := Tx.size_eq tx (by rw [hsig]; exact plain_hexDigits)
  have hmeasured := Tx.size_eq (tx.measured placeholder) hplain
  have hdigits : 0 < (Nat.toDigits 10 tx.fee).length := Nat.length_toDigits_pos
  have hzero : (Nat.toDigits 10 (tx.measured placeholder).fee).length = 1 := by
    rw [show (tx.measured placeholder).fee = 0 from rfl, Nat.toDigits_zero]
    rfl
  have hplaceholder : (tx.measured placeholder).sig.length = placeholder.length := rfl
  have hnew : Tx.new (tx.measured placeholder).nonce (tx.measured placeholder).payload
      (tx.measured placeholder).public_key = Tx.new tx.nonce tx.payload tx.public_key := rfl
  rw [hnew] at hmeasured
  rw [hsig, length_hexDigits] at hsigned
  omega

theorem Asked.pays_iff (hvalid : cfg.validate = .ok ()) {tx : Tx} {placeholder : Text}
    (h : Asked fl cfg (tx.measured placeholder) tx)
    (hplain : ∀ c ∈ placeholder, plainChar c = true) (hlength : placeholder.length ≤ 128) :
    PaysEnough fl cfg tx ↔ KeepsKb fl cfg (tx.measured placeholder) := by
  have hsize := h.size hplain hlength
  obtain ⟨fee, hfee, hpaid⟩ := h.fee
  obtain ⟨hmax, hestimated⟩ := calculate_dynamic_fee_eq_ok.mp hfee
  have hinner : (tx.measured placeholder).payload.inner = tx.payload.inner := rfl
  rw [hinner] at hestimated
  rw [hpaid] at hsize
  constructor
  · rintro ⟨required, hrequired, hle⟩
    obtain ⟨_, hactual⟩ := calculate_dynamic_fee_eq_ok.mp hrequired
    rw [hpaid] at hle
    have hfewer := startedKb_le_of_fee (size_fee_pos hvalid) hestimated hactual hle
    have hmore : startedKb (utf8Len (tx.measured placeholder).to_string) ≤
        startedKb (utf8Len tx.to_string) := startedKb_mono (by omega)
    exact ⟨fee, hfee, by rw [← hsize]; omega⟩
  · rintro ⟨fee', hfee', hsame⟩
    rw [hfee] at hfee'
    cases hfee'
    rw [← hsize] at hsame
    refine ⟨fee, calculate_dynamic_fee_eq_ok.mpr ⟨?_, ?_⟩, hpaid ▸ Nat.le_refl _⟩
    · -- the limit is a whole number of kibibytes
      simp only [startedKb, MAX_TRANSACTION_SIZE_BYTES] at hsame hmax ⊢
      omega
    · rw [feeForSize_congr hsame]
      exact hestimated

/-- A short payload stays in its first kibibyte. -/
theorem Asked.keepsKb_of_short {tx : Tx} {inner : PayloadInner}
    (h : Asked fl cfg (tx.measured []) tx) (hpayload : tx.payload = Payload.new inner)
    (hshort : inner.short = true) (hkey : tx.public_key.length = 64)
    (hhex : ∀ c ∈ tx.public_key, (hexVal c).isSome = true) :
    KeepsKb fl cfg (tx.measured []) := by
  obtain ⟨fee, hfee, _⟩ := h.fee
  have hmeasured : tx.measured [] = Tx.new tx.nonce (Payload.new inner) tx.public_key := by
    rw [← hpayload]
    rfl
  have hsize : utf8Len (tx.measured []).to_string ≤ 800 := by
    rw [hmeasured]
    exact short_tx_size hshort tx.nonce hkey hhex
  have hdigits : (Nat.toDigits 10 fee.amount).length ≤ 16 :=
    length_digits_le (by decide) (Nat.lt_of_le_of_lt fee.le_max (by decide))
  have hpos := to_string_size_pos (tx.measured [])
  have hnone : (tx.measured []).sig.length = 0 := rfl
  refine ⟨fee, hfee, ?_⟩
  unfold startedKb
  omega

/-! ## The builders -/

variable {wallet : Wallet} {chain_id : String} {next_nonce : Nonce}

theorem Tx.sign_sig (tx : Tx) (wallet : Wallet) (chain_id : String) :
    ∃ signature : BitVec 512, (tx.sign wallet chain_id).sig = hexDigits 128 signature.toNat := by
  unfold Tx.sign
  exact ⟨wallet.signature _, rfl⟩

theorem Tx.sign_parts (tx : Tx) (wallet : Wallet) (chain_id : String) :
    (tx.sign wallet chain_id).fee = tx.fee ∧ (tx.sign wallet chain_id).payload = tx.payload ∧
      (tx.sign wallet chain_id).public_key = tx.public_key := by
  unfold Tx.sign
  exact ⟨rfl, rfl, rfl⟩

theorem Tx.measured_sign (tx : Tx) (wallet : Wallet) (chain_id : String) (placeholder : Text) :
    (tx.sign wallet chain_id).measured placeholder = tx.measured placeholder := by
  unfold Tx.sign Tx.measured
  rfl

theorem Tx.new_measured (nonce : Nonce) (payload : Payload) (public_key : Text) :
    (Tx.new nonce payload public_key).measured [] = Tx.new nonce payload public_key := rfl

theorem placeholder_measured (nonce : Nonce) (payload : Payload) (public_key placeholder : Text) :
    { Tx.new nonce payload public_key with sig := placeholder } =
      (Tx.new nonce payload public_key).measured placeholder := rfl

/-- The fee that was asked for the measured transaction is the one that is signed. -/
theorem payAndSign_asked {failed : EldError → EldError} {estimated tx signed : Tx}
    {placeholder : Text} (hestimated : estimated = tx.measured placeholder)
    (h : payAndSign fl cfg wallet chain_id failed estimated tx = .ok signed) :
    Asked fl cfg (signed.measured placeholder) signed ∧ signed.payload = tx.payload ∧
      signed.public_key = tx.public_key := by
  simp only [payAndSign, bind_eq_ok, mapError_eq_ok, Except.ok.injEq] at h
  obtain ⟨fee, hfee, rfl⟩ := h
  obtain ⟨hpaid, hpayload, hkey⟩ := Tx.sign_parts { tx with fee := fee.amount } wallet chain_id
  refine ⟨⟨⟨fee, ?_, hpaid⟩, Tx.sign_sig _ _ _⟩, hpayload, hkey⟩
  rw [Tx.measured_sign]
  rw [hestimated] at hfee
  exact hfee

/-- What a builder of short payloads signs. -/
theorem buildSigned_keepsKb {failed : EldError → EldError} {unverified : EldError}
    {inner : PayloadInner} {tx : Tx} (hshort : inner.short = true)
    (h : buildSigned o fl cfg wallet chain_id next_nonce failed unverified inner = .ok tx) :
    Asked fl cfg (tx.measured []) tx ∧ KeepsKb fl cfg (tx.measured []) := by
  simp only [buildSigned, bind_eq_ok] at h
  obtain ⟨signed, hsigned, hverified⟩ := h
  split at hverified
  · cases hverified
    obtain ⟨hasked, hpayload, hkey⟩ := payAndSign_asked (Tx.new_measured _ _ _).symm hsigned
    refine ⟨hasked, hasked.keepsKb_of_short hpayload hshort ?_ ?_⟩
    · rw [hkey]
      exact length_hexDigits 64 _
    · rw [hkey]
      intro c hc
      obtain ⟨d, hd, rfl⟩ := mem_hexDigits hc
      rw [hexVal_hexChar hd]
      rfl
  · cases hverified

theorem buildSigned_pays (hvalid : cfg.validate = .ok ()) {failed : EldError → EldError}
    {unverified : EldError} {inner : PayloadInner} {tx : Tx} (hshort : inner.short = true)
    (h : buildSigned o fl cfg wallet chain_id next_nonce failed unverified inner = .ok tx) :
    PaysEnough fl cfg tx := by
  obtain ⟨hasked, hkeeps⟩ := buildSigned_keepsKb hshort h
  exact (hasked.pays_iff hvalid (by simp) (by simp)).mpr hkeeps

/-- The builder of a verified proof. -/
def Build.isProof : Build → Bool
  | .build_signed_verified_proof_hex .. => true
  | _ => false

/-- What a builder signs pays enough, unless it is a verified proof whose fee has digits that
start another kibibyte. -/
theorem built_transactions_pay_iff (o : Outside) (fl : Floats) (cfg : FeeConfig fl)
    (hvalid : cfg.validate = .ok ()) (wallet : Wallet) (chain_id : String) (next_nonce : Nonce)
    (b : Build) (tx : Tx) (h : b.run o fl cfg wallet chain_id next_nonce = .ok tx) :
    PaysEnough fl cfg tx ↔
      (b.isProof = true → KeepsKb fl cfg (tx.measured DUMMY_TX_SIG)) := by
  have hshort : PaysEnough fl cfg tx → b.isProof = false →
      (PaysEnough fl cfg tx ↔ (b.isProof = true → KeepsKb fl cfg (tx.measured DUMMY_TX_SIG))) := by
    intro hpays hproof
    simp [hpays, hproof]
  cases b with
  | transfer recipient amount =>
    simp only [Build.run, mapError_eq_ok, transfer, bind_eq_ok] at h
    obtain ⟨_, _, _, _, _, _, hbuilt⟩ := h
    exact hshort (buildSigned_pays hvalid rfl hbuilt) rfl
  | stake amount =>
    simp only [Build.run, mapError_eq_ok, stake, bind_eq_ok] at h
    obtain ⟨_, _, hbuilt⟩ := h
    exact hshort (buildSigned_pays hvalid rfl hbuilt) rfl
  | unstake amount =>
    simp only [Build.run, mapError_eq_ok, unstake, bind_eq_ok] at h
    obtain ⟨_, _, hbuilt⟩ := h
    exact hshort (buildSigned_pays hvalid rfl hbuilt) rfl
  | add_namespace namespace_slug registration_fee =>
    simp only [Build.run, mapError_eq_ok, add_namespace, bind_eq_ok] at h
    obtain ⟨_, _, _, _, hbuilt⟩ := h
    exact hshort (buildSigned_pays hvalid rfl hbuilt) rfl
  | submit_merkle_root_update provider_id new_merkle_root =>
    simp only [Build.run, mapError_eq_ok, submit_merkle_root_update, bind_eq_ok] at h
    obtain ⟨_, _, hbuilt⟩ := h
    exact hshort (buildSigned_pays hvalid rfl hbuilt) rfl
  | submit_capacity_registration_tx provider_address capacity_bytes seed merkle_root chunk_count =>
    simp only [Build.run, mapError_eq_ok, submit_capacity_registration_tx, bind_eq_ok] at h
    obtain ⟨_, _, _, _, hbuilt⟩ := h
    exact hshort (buildSigned_pays hvalid rfl hbuilt) rfl
  | build_signed_verified_proof_hex capacity_provider challenge_id block_height proof_fields at_ =>
    simp only [Build.run, buildVerifiedProof, bind_eq_ok, mapError_eq_ok] at h
    obtain ⟨_, _, _, _, hsigned⟩ := h
    obtain ⟨hasked, _, _⟩ := payAndSign_asked (placeholder_measured _ _ _ _) hsigned
    have hplain : ∀ c ∈ DUMMY_TX_SIG, plainChar c = true := by
      intro c hc
      rw [List.eq_of_mem_replicate hc]
      decide
    rw [hasked.pays_iff hvalid hplain (by simp [DUMMY_TX_SIG])]
    simp [Build.isProof]

/-! ## A proof whose fee starts a kibibyte -/

/-- Multipliers in tenths. On the default schedule they give what `f64` gives. -/
def tenths : Floats where
  F64 := Nat
  not_positive x := x == 0
  less_one x := x - 10
  times_as_u128 n x := n * x / 10
  to_string x := toString (x / 10) ++ "." ++ toString (x % 10)

/-- `FeeConfig::default`. -/
def defaultFees : FeeConfig tenths where
  base_fee := 1000
  size_fee_per_kb := 100
  gas_price := 1
  transfer_multiplier := tenth 10
  stake_multiplier := tenth 15
  content_manifest_multiplier := tenth 25
  verified_proof_multiplier := tenth 20
  device_operation_multiplier := tenth 18
where tenth (n : Nat) : tenths.F64 := n

theorem defaultFees_valid : defaultFees.validate = .ok () := rfl

def aliceWallet : Wallet := ⟨alice, 1, fun _ => 1⟩

/-- A proof of Alice that failed, with so many bytes of data. -/
def failedProof (bytes : Nat) : Build :=
  .build_signed_verified_proof_hex (Address.text alice) (hexDigits 64 5) (smallHeight 2)
    { proofs := [⟨0, List.replicate bytes 1, 0, [], .Proof, zero_lt_u64⟩]
      generated_at := MIN_TIMESTAMP
      provider_pubkey := hexDigits 64 1
      provider_signature := hexDigits 128 1
      failed := true }
    MIN_TIMESTAMP

/-- What evaluating a builder shows of the transaction. -/
theorem build_ends {b : Build} {p : Tx → Bool}
    (h : (b.run Outside.toy tenths defaultFees aliceWallet "small" ⟨1⟩).toOption.any p = true) :
    ∃ tx, b.run Outside.toy tenths defaultFees aliceWallet "small" ⟨1⟩ = .ok tx ∧ p tx = true := by
  obtain ⟨tx, htx, hp⟩ := (Option.any_eq_true p _).mp h
  exact ⟨tx, toOption_eq_some.mp htx, hp⟩

/-- The fee that the schedule asks for a transaction. -/
def requiredFee (tx : Tx) : Option Nat :=
  (calculate_dynamic_fee tenths defaultFees tx).toOption.map (fun fee => fee.amount)

theorem requiredFee_eq_some {tx : Tx} {n : Nat} (h : requiredFee tx = some n) :
    ∃ fee, calculate_dynamic_fee tenths defaultFees tx = .ok fee ∧ fee.amount = n := by
  obtain ⟨fee, hfee, hn⟩ := Option.map_eq_some_iff.mp h
  exact ⟨fee, toOption_eq_some.mp hfee, hn⟩

theorem built_transactions_pay_iff_of_one_byte :
    ∃ tx, (failedProof 1).run Outside.toy tenths defaultFees aliceWallet "small" ⟨1⟩ = .ok tx ∧
      (failedProof 1).isProof = true ∧ PaysEnough tenths defaultFees tx := by
  obtain ⟨tx, htx, heval⟩ := @build_ends (failedProof 1) (fun tx =>
    requiredFee (tx.measured DUMMY_TX_SIG) == some 52100 &&
      utf8Len (tx.measured DUMMY_TX_SIG).to_string == 987) (by decide +kernel)
  simp only [Bool.and_eq_true, beq_iff_eq] at heval
  obtain ⟨fee, hfee, hamount⟩ := requiredFee_eq_some heval.1
  refine ⟨tx, htx, rfl, ?_⟩
  refine (built_transactions_pay_iff Outside.toy tenths defaultFees defaultFees_valid aliceWallet
    "small" ⟨1⟩ (failedProof 1) tx htx).mpr (fun _ => ⟨fee, hfee, ?_⟩)
  have hlength : (tx.measured DUMMY_TX_SIG).sig.length = 128 := by
    simp [Tx.measured, DUMMY_TX_SIG]
  rw [heval.2, hamount, hlength]
  decide

/-- With eighteen bytes of data the text is measured at 1021 bytes, and has 1025 with the fee. -/
theorem eighteen_bytes_underpay :
    defaultFees.validate = .ok () ∧
      ∃ tx required,
        (failedProof 18).run Outside.toy tenths defaultFees aliceWallet "small" ⟨1⟩ = .ok tx ∧
        tx.fee = 52100 ∧ calculate_dynamic_fee tenths defaultFees tx = .ok required ∧
        required.amount = 52200 ∧ ¬ PaysEnough tenths defaultFees tx ∧
        checkFee (Outside.toy.withFees tenths defaultFees) tx ≠ .ok () := by
  obtain ⟨tx, htx, heval⟩ := @build_ends (failedProof 18) (fun tx =>
    tx.fee == 52100 && requiredFee tx == some 52200) (by decide +kernel)
  simp only [Bool.and_eq_true, beq_iff_eq] at heval
  obtain ⟨required, hrequired, hamount⟩ := requiredFee_eq_some heval.2
  have hunder : ¬ PaysEnough tenths defaultFees tx := by
    rintro ⟨required', hrequired', hle⟩
    rw [hrequired] at hrequired'
    cases hrequired'
    omega
  refine ⟨defaultFees_valid, tx, required, htx, heval.1, hrequired, hamount, hunder, ?_⟩
  rw [ne_eq, ← paysEnough_iff Outside.toy (by rw [heval.1]; decide)]
  exact hunder

end eld_chain
