-- The keys of the indexer's rows. A key tells what its row is for, and the
-- `block_pos:` keys stand in the order of their positions, since their
-- numbers are written with a fixed width.
import EldChain.Indexer
import EldChain.Library.PrefixScans

open Std

namespace eld_chain

variable {o : Outside}

/-! ## The order of fixed-width numbers -/

theorem compare_hexChar {d d' : Nat} (hd : d < 16) (hd' : d' < 16) :
    compare (hexChar d) (hexChar d') = compare d d' := by
  have hall : ∀ i j : Fin 16, compare (hexChar i) (hexChar j) = compare i.val j.val := by decide
  exact hall ⟨d, hd⟩ ⟨d', hd'⟩

/-- Two numbers compare as their high parts, and then as their low parts. -/
theorem compare_div_mod (v v' : Nat) {base : Nat} (hbase : 0 < base) :
    (compare (v / base) (v' / base)).then (compare (v % base) (v' % base)) = compare v v' := by
  have hv := Nat.div_add_mod v base
  have hv' := Nat.div_add_mod v' base
  have hlow := Nat.mod_lt v hbase
  have hlow' := Nat.mod_lt v' hbase
  rcases Nat.lt_trichotomy (v / base) (v' / base) with hlt | heq | hgt
  · have hmul := Nat.mul_le_mul_left base (Nat.succ_le_of_lt hlt)
    rw [Nat.mul_succ] at hmul
    have hvv : v < v' := by omega
    rw [Nat.compare_eq_lt.mpr hlt, Nat.compare_eq_lt.mpr hvv]
    rfl
  · rw [heq] at hv ⊢
    rw [Nat.compare_eq_eq.mpr rfl]
    rcases Nat.lt_trichotomy (v % base) (v' % base) with hlt | heq | hgt
    · have hvv : v < v' := by omega
      rw [Nat.compare_eq_lt.mpr hlt, Nat.compare_eq_lt.mpr hvv]
      rfl
    · have hvv : v = v' := by omega
      rw [Nat.compare_eq_eq.mpr heq, Nat.compare_eq_eq.mpr hvv]
      rfl
    · have hvv : v' < v := by omega
      rw [Nat.compare_eq_gt.mpr hgt, Nat.compare_eq_gt.mpr hvv]
      rfl
  · have hmul := Nat.mul_le_mul_left base (Nat.succ_le_of_lt hgt)
    rw [Nat.mul_succ] at hmul
    have hvv : v' < v := by omega
    rw [Nat.compare_eq_gt.mpr hgt, Nat.compare_eq_gt.mpr hvv]
    rfl

theorem compare_mul_add (q q' : Nat) {r r' base : Nat} (hr : r < base) (hr' : r' < base) :
    compare (q * base + r) (q' * base + r') = (compare q q').then (compare r r') := by
  have hpos : 0 < base := Nat.lt_of_le_of_lt (Nat.zero_le r) hr
  rw [← compare_div_mod _ _ hpos, Nat.add_comm (q * base), Nat.add_comm (q' * base),
    Nat.add_mul_div_right _ _ hpos, Nat.add_mul_div_right _ _ hpos, Nat.div_eq_of_lt hr,
    Nat.div_eq_of_lt hr', Nat.add_mul_mod_self_right, Nat.add_mul_mod_self_right,
    Nat.mod_eq_of_lt hr, Nat.mod_eq_of_lt hr', Nat.zero_add, Nat.zero_add]

/-- Numbers of a fixed width are in order as texts. -/
theorem compare_hexDigits {n v v' : Nat} (hv : v < 16 ^ n) (hv' : v' < 16 ^ n) (l m : Text) :
    compare (hexDigits n v ++ l) (hexDigits n v' ++ m) = (compare v v').then (compare l m) := by
  induction n generalizing v v' l m with
  | zero =>
    have h0 : v = 0 := by omega
    have h0' : v' = 0 := by omega
    subst h0 h0'
    rfl
  | succ n ih =>
    have hhigh : v / 16 < 16 ^ n := Nat.div_lt_of_lt_mul (by rw [← Nat.pow_succ']; exact hv)
    have hhigh' : v' / 16 < 16 ^ n := Nat.div_lt_of_lt_mul (by rw [← Nat.pow_succ']; exact hv')
    rw [hexDigits, hexDigits, List.append_assoc, List.append_assoc, ih hhigh hhigh',
      List.singleton_append, List.singleton_append, List.compare_cons_cons,
      compare_hexChar (Nat.mod_lt v (by decide)) (Nat.mod_lt v' (by decide)),
      ← Ordering.then_assoc, compare_div_mod v v' (by decide)]

/-! ## Positions -/

/-- A position as one number: later positions are larger. -/
def positionOf (block_height : UInt64) (block_index : UInt32) : Nat :=
  block_height.toNat * 2 ^ 32 + block_index.toNat

theorem positionOf_inj {h h' : UInt64} {i i' : UInt32} (heq : positionOf h i = positionOf h' i') :
    h = h' ∧ i = i' := by
  have hi := i.toNat_lt
  have hi' := i'.toNat_lt
  unfold positionOf at heq
  exact ⟨UInt64.toNat_inj.mp (by omega), UInt32.toNat_inj.mp (by omega)⟩

/-- A height and an index of a fixed width are in the order of their positions. -/
theorem compare_position_hex (h h' : UInt64) (i i' : UInt32) :
    compare (hexDigits 16 h.toNat ++ ':' :: hexDigits 8 i.toNat)
        (hexDigits 16 h'.toNat ++ ':' :: hexDigits 8 i'.toNat) =
      compare (positionOf h i) (positionOf h' i') := by
  have hi := i.toNat_lt
  have hi' := i'.toNat_lt
  have hcolon : ∀ l m : Text, compare (':' :: l) (':' :: m) = compare l m := by
    intro l m
    rw [List.compare_cons_cons, ReflOrd.compare_self]
    rfl
  have hindex : compare (hexDigits 8 i.toNat) (hexDigits 8 i'.toNat) =
      compare i.toNat i'.toNat := by
    have hwidth := @compare_hexDigits 8 i.toNat i'.toNat (by omega) (by omega) [] []
    rw [List.append_nil, List.append_nil, ReflOrd.compare_self, Ordering.then_eq] at hwidth
    exact hwidth
  rw [compare_hexDigits (by have := h.toNat_lt; omega) (by have := h'.toNat_lt; omega), hcolon,
    hindex]
  exact (compare_mul_add h.toNat h'.toNat hi hi').symm

/-- Position keys stand in the order of their positions. -/
theorem compare_chron_index_key (h h' : UInt64) (i i' : UInt32) :
    compare (block_position_chron_index_key h i) (block_position_chron_index_key h' i') =
      compare (positionOf h i) (positionOf h' i') := by
  unfold block_position_chron_index_key
  rw [List.append_assoc, List.append_assoc, scans.compare_append_same]
  exact compare_position_hex h h' i i'

/-! ## Reading a position back -/

theorem hexChar_plain {d : Nat} (h : d < 16) : hexChar d ≠ ':' ∧ hexChar d ≠ '+' := by
  have hall : ∀ i : Fin 16, hexChar i ≠ ':' ∧ hexChar i ≠ '+' := by decide
  exact hall ⟨d, h⟩

theorem strip_leading_append (lead t : Text) : strip_leading lead (lead ++ t) = some t := by
  induction lead with
  | nil => rfl
  | cons a lead ih => rw [List.cons_append, strip_leading, if_pos rfl, ih]

theorem split_once_append {c : Char} {t : Text} (h : c ∉ t) (rest : Text) :
    split_once c (t ++ c :: rest) = some (t, rest) := by
  induction t with
  | nil => rw [List.nil_append, split_once, if_pos rfl]
  | cons a t ih =>
    have ha : a ≠ c := fun heq => h (heq ▸ List.mem_cons_self)
    rw [List.cons_append, split_once, if_neg ha, ih (fun hc => h (List.mem_cons_of_mem _ hc))]
    rfl

theorem colon_notMem_hexDigits (n v : Nat) : ':' ∉ hexDigits n v := by
  intro h
  obtain ⟨d, hd, heq⟩ := mem_hexDigits h
  exact (hexChar_plain hd).1 heq.symm

theorem from_str_radix_16_hexDigits {bits n v : Nat} (hn : 0 < n) (hv : v < 16 ^ n)
    (hbits : v < 2 ^ bits) : from_str_radix_16 bits (hexDigits n v) = some v := by
  have hne : hexDigits n v ≠ [] := by
    intro hnil
    have := length_hexDigits n v
    rw [hnil, List.length_nil] at this
    omega
  have hplus : (hexDigits n v).head? ≠ some '+' := by
    intro hhead
    obtain ⟨d, hd, heq⟩ := mem_hexDigits (List.mem_of_head? hhead)
    exact (hexChar_plain hd).2 heq.symm
  unfold from_str_radix_16
  simp only [if_neg hplus, if_neg hne, hexNumber_hexDigits hv, Option.bind_some, if_pos hbits]

theorem parse_chron_index_key (h : UInt64) (i : UInt32) :
    parse_block_position_chron_key (block_position_chron_index_key h i) = some (h, i) := by
  have hh := h.toNat_lt
  have hi := i.toNat_lt
  unfold parse_block_position_chron_key block_position_chron_index_key
  rw [List.append_assoc, strip_leading_append]
  simp only [Option.bind_eq_bind, Option.bind_some,
    split_once_append (colon_notMem_hexDigits 16 h.toNat),
    from_str_radix_16_hexDigits (show 0 < 16 by decide)
      (show h.toNat < 16 ^ 16 by omega) hh,
    from_str_radix_16_hexDigits (show 0 < 8 by decide)
      (show i.toNat < 16 ^ 8 by omega) hi, UInt64.ofNat_toNat, UInt32.ofNat_toNat]

theorem chron_index_key_inj {h h' : UInt64} {i i' : UInt32}
    (heq : block_position_chron_index_key h i = block_position_chron_index_key h' i') :
    h = h' ∧ i = i' := by
  have hparse := parse_chron_index_key h i
  rw [heq, parse_chron_index_key] at hparse
  cases hparse
  exact ⟨rfl, rfl⟩

/-! ## What a key is for -/

/-- The position keys, as the scan tells them. -/
def isChronKey (key : Text) : Bool := "block_pos:".toList.isPrefixOf key

/-- The keys that a transaction id can be: they begin with a zero. -/
def isIdKey (key : Text) : Bool := key.head? == some '0'

theorem chron_index_key_leads (h : UInt64) (i : UInt32) :
    isChronKey (block_position_chron_index_key h i) = true := by
  unfold isChronKey block_position_chron_index_key
  rw [List.append_assoc]
  exact List.isPrefixOf_iff_prefix.mpr (List.prefix_append _ _)

theorem chron_index_key_bounded (h : UInt64) (i : UInt32) :
    (compare BLOCK_POS_CHRON_LOWER_BOUND (block_position_chron_index_key h i)).isLE = true ∧
    (compare (block_position_chron_index_key h i) BLOCK_POS_CHRON_UPPER_BOUND_EXCLUSIVE).isLT =
      true := by
  have hkey : block_position_chron_index_key h i = "block_pos".toList ++
      ':' :: (hexDigits 16 h.toNat ++ ':' :: hexDigits 8 i.toNat) := by
    have hlead : "block_pos:".toList = "block_pos".toList ++ [':'] := rfl
    unfold block_position_chron_index_key
    rw [hlead, List.append_assoc, List.append_assoc, List.singleton_append]
  have hlower : BLOCK_POS_CHRON_LOWER_BOUND = "block_pos".toList ++ [':'] := rfl
  have hupper : BLOCK_POS_CHRON_UPPER_BOUND_EXCLUSIVE = "block_pos".toList ++ [';'] := rfl
  rw [hkey, hlower, hupper, scans.compare_append_same, scans.compare_append_same, List.compare_cons_cons,
    List.compare_cons_cons]
  constructor
  · cases hexDigits 16 h.toNat with
    | nil => rfl
    | cons a t => rfl
  · rfl

theorem tx_id_isIdKey (tx : Tx) : isIdKey (calculate_tx_id o tx) = true := rfl

theorem tx_id_is_primary (tx : Tx) : is_primary_key (calculate_tx_id o tx) = true := by
  have hcolon : (calculate_tx_id o tx).contains ':' = false := by
    rw [Bool.eq_false_iff]
    intro hmem
    have hmem := List.mem_of_elem_eq_true hmem
    unfold calculate_tx_id Bytes32.text at hmem
    simp only [List.mem_cons, Char.reduceEq, false_or] at hmem
    exact colon_notMem_hexDigits _ _ hmem
  unfold is_primary_key
  rw [hcolon]
  rfl

/-- A record's key begins with a zero. -/
theorem isIdKey_of_primary {key : Text} (h : is_primary_key key = true) :
    isIdKey key = true := by
  unfold is_primary_key at h
  simp only [Bool.and_eq_true] at h
  cases key with
  | nil => exact absurd h.1 (by decide)
  | cons a t =>
    have hlead := h.1
    rw [show "0x".toList = ['0', 'x'] from rfl, List.isPrefixOf_cons_cons] at hlead
    have hzero := (Bool.and_eq_true _ _ ▸ hlead).1
    rw [beq_iff_eq] at hzero
    rw [← hzero]
    rfl

theorem reward_key_form {call : IndexCall o} {key : Text} (h : call.reward_key = some key) :
    ∃ provider, key = verified_proof_reward_index_key provider call.block_height
      call.block_index := by
  unfold IndexCall.reward_key at h
  split at h
  · split at h
    · split at h
      · cases h
      · cases h
        exact ⟨_, rfl⟩
    · cases h
  · cases h

end eld_chain
