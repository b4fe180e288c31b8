-- The scan of a listing. It passes over the position rows, newest first,
-- loads the record of each id and keeps the matching ones, until it has as
-- many as it was asked for.
import EldChain.CodecRoundTrip
import EldChain.IndexRows
import EldChain.Library.Paging
import EldChain.Library.PrefixScans

open Std

namespace eld_chain

variable {o : Outside} (s : SerdeJson)

/-! ## The rows in their order -/

theorem compare_char_lt {a b : Char} : compare a b = .lt ↔ a < b := compareOfLessAndEq_eq_lt

/-- A key between the two bounds of the scan leads with the lower one. -/
theorem leads_of_between {c d : Char} (hnext : d.toNat = c.toNat + 1) (t : Text) {key : Text}
    (hlower : (compare (t ++ [c]) key).isLE = true)
    (hupper : (compare key (t ++ [d])).isLT = true) : (t ++ [c]).isPrefixOf key = true := by
  obtain ⟨b, rest, rfl, hge, hlt⟩ := scans.split_of_between hlower hupper
  have hge' : ¬ b < c := by
    rw [← compare_char_lt]
    exact selection.isLE_iff_not_lt.mp hge
  have hlt' : b < d := compare_char_lt.mp hlt
  -- no character is between the two last ones
  have hbc : b = c := by
    rw [Char.lt_def, UInt32.lt_iff_toNat_lt] at hge' hlt'
    unfold Char.toNat at hnext
    exact Char.toNat_inj.mp (by unfold Char.toNat; omega)
  rw [hbc, List.isPrefixOf_iff_prefix, List.append_cons t c rest]
  exact List.prefix_append _ _

theorem mem_chron_rows {cf : IndexedTransactions} {row : Text × IndexRow} :
    row ∈ chron_rows_desc cf none ↔
      cf[row.1]? = some row.2 ∧
      (compare BLOCK_POS_CHRON_LOWER_BOUND row.1).isLE = true ∧
      (compare row.1 BLOCK_POS_CHRON_UPPER_BOUND_EXCLUSIVE).isLT = true := by
  unfold chron_rows_desc
  rw [List.mem_reverse, List.mem_filter, finite_map.mem_toList]
  simp only [Bool.and_true, Bool.and_eq_true]

theorem chron_rows_lead {cf : IndexedTransactions} {row : Text × IndexRow}
    (h : row ∈ chron_rows_desc cf none) : isChronKey row.1 = true := by
  obtain ⟨_, hlower, hupper⟩ := mem_chron_rows.mp h
  exact leads_of_between (c := ':') (d := ';') rfl "block_pos".toList hlower hupper

/-- The rows stand in falling order of their keys. -/
theorem chron_rows_falling (cf : IndexedTransactions) :
    (chron_rows_desc cf none).Pairwise (fun a b => compare b.1 a.1 = .lt) := by
  unfold chron_rows_desc
  rw [List.pairwise_reverse]
  exact ExtTreeMap.ordered_keys_toList.filter _

/-- A seek key leaves the rows up to it. -/
theorem chron_rows_seek (cf : IndexedTransactions) (key : Text) :
    chron_rows_desc cf (some key) =
      (chron_rows_desc cf none).filter (fun row => (compare row.1 key).isLE) := by
  unfold chron_rows_desc
  rw [List.filter_reverse, List.filter_filter]
  congr 2
  funext row
  simp only [Bool.and_true]
  rw [Bool.and_comm]

/-! ## The calls behind the rows -/

def IndexCall.position (call : IndexCall o) : Nat :=
  positionOf call.block_height call.block_index

/-- The row that a call leaves at its position. -/
def IndexCall.chron_row (call : IndexCall o) : Text × IndexRow :=
  (call.chron_key, .tx_id call.tx_id)

/-- The last calls at their positions, newest position first. -/
structure Newest (calls latest : List (IndexCall o)) : Prop where
  falling : paging.Falling IndexCall.position latest
  mem_iff : ∀ call, call ∈ latest ↔ lastAt calls call.chron_key = some call

theorem lastAt_eq_some {calls : List (IndexCall o)} {key : Text} {call : IndexCall o}
    (h : lastAt calls key = some call) : call ∈ calls ∧ call.chron_key = key :=
  ⟨List.mem_reverse.mp (List.mem_of_find?_eq_some h), by
    simpa using List.find?_some h⟩

theorem lastWith_eq_some {calls : List (IndexCall o)} {id : Text} {call : IndexCall o}
    (h : lastWith calls id = some call) : call ∈ calls ∧ call.tx_id = id :=
  ⟨List.mem_reverse.mp (List.mem_of_find?_eq_some h), by
    simpa using List.find?_some h⟩

theorem lastAt_of_mem {calls : List (IndexCall o)} {call : IndexCall o} (h : call ∈ calls) :
    ∃ last, lastAt calls call.chron_key = some last := by
  apply Option.isSome_iff_exists.mp
  rw [lastAt, List.find?_isSome]
  exact ⟨call, List.mem_reverse.mpr h, beq_self_eq_true _⟩

theorem lastWith_of_mem {calls : List (IndexCall o)} {call : IndexCall o} (h : call ∈ calls) :
    ∃ last, lastWith calls call.tx_id = some last := by
  apply Option.isSome_iff_exists.mp
  rw [lastWith, List.find?_isSome]
  exact ⟨call, List.mem_reverse.mpr h, beq_self_eq_true _⟩

theorem compare_chron_key (a b : IndexCall o) :
    compare a.chron_key b.chron_key = compare a.position b.position :=
  compare_chron_index_key a.block_height b.block_height a.block_index b.block_index

theorem position_eq_iff {a b : IndexCall o} :
    a.position = b.position ↔ a.block_height = b.block_height ∧ a.block_index = b.block_index := by
  constructor
  · exact positionOf_inj
  · rintro ⟨hheight, hindex⟩
    unfold IndexCall.position
    rw [hheight, hindex]

theorem chron_row_mem {calls : List (IndexCall o)} {cf : IndexedTransactions}
    {call : IndexCall o} (h : Indexed calls cf)
    (hlast : lastAt calls call.chron_key = some call) :
    call.chron_row ∈ chron_rows_desc cf none := by
  have hbounds := chron_index_key_bounded call.block_height call.block_index
  refine mem_chron_rows.mpr ⟨?_, hbounds.1, hbounds.2⟩
  have hlead : isChronKey call.chron_key = true := chron_index_key_leads _ _
  have hread := h.positions call.chron_key hlead
  rw [hlast] at hread
  exact hread

/-- The rows of the scan are those of the last calls at their positions. -/
theorem chron_rows_eq {calls latest : List (IndexCall o)} {cf : IndexedTransactions}
    (h : Indexed calls cf) (hnewest : Newest calls latest) :
    chron_rows_desc cf none = latest.map IndexCall.chron_row := by
  have hfalling : (latest.map IndexCall.chron_row).Pairwise
      (fun a b => compare b.1 a.1 = .lt) := by
    rw [List.pairwise_map]
    refine hnewest.falling.imp (fun {a b} hlt => ?_)
    show compare b.chron_key a.chron_key = .lt
    rw [compare_chron_key]
    exact Nat.compare_eq_lt.mpr hlt
  have hdistinct : ∀ l : List (Text × IndexRow),
      l.Pairwise (fun a b => compare b.1 a.1 = .lt) → l.Nodup := by
    intro l hl
    refine hl.imp (fun {a b} hlt heq => ?_)
    rw [heq, ReflOrd.compare_self] at hlt
    cases hlt
  have hmem : ∀ row, row ∈ chron_rows_desc cf none ↔ row ∈ latest.map IndexCall.chron_row := by
    intro row
    constructor
    · intro hrow
      have hread := (mem_chron_rows.mp hrow).1
      rw [h.positions _ (chron_rows_lead hrow)] at hread
      obtain ⟨call, hcall, hvalue⟩ := Option.map_eq_some_iff.mp hread
      have hkey := (lastAt_eq_some hcall).2
      refine List.mem_map.mpr ⟨call, (hnewest.mem_iff call).mpr (hkey ▸ hcall), ?_⟩
      exact Prod.ext hkey hvalue
    · intro hrow
      obtain ⟨call, hcall, rfl⟩ := List.mem_map.mp hrow
      exact chron_row_mem h ((hnewest.mem_iff call).mp hcall)
  refine List.Perm.eq_of_pairwise (fun a b _ _ hab hba => ?_) (chron_rows_falling cf) hfalling
    ((List.perm_ext_iff_of_nodup (hdistinct _ (chron_rows_falling cf))
      (hdistinct _ hfalling)).mpr hmem)
  rw [OrientedCmp.gt_of_lt hab] at hba
  cases hba

theorem exists_newest {calls : List (IndexCall o)} {cf : IndexedTransactions}
    (h : Indexed calls cf) : ∃ latest, Newest calls latest := by
  refine ⟨(chron_rows_desc cf none).filterMap (fun row => lastAt calls row.1), ?_, ?_⟩
  · unfold paging.Falling
    rw [List.pairwise_filterMap]
    refine (chron_rows_falling cf).imp (fun {a b} hlt call hcall other hother => ?_)
    rw [← (lastAt_eq_some hcall).2, ← (lastAt_eq_some hother).2, compare_chron_key] at hlt
    exact Nat.compare_eq_lt.mp hlt
  · intro call
    rw [List.mem_filterMap]
    constructor
    · rintro ⟨row, _, hcall⟩
      rw [(lastAt_eq_some hcall).2]
      exact hcall
    · intro hcall
      exact ⟨call.chron_row, chron_row_mem h hcall, hcall⟩

/-! ## The records behind the rows -/

/-- The record that the row of a call leads to: the one of the last call with its id. -/
def recordOf (calls : List (IndexCall o)) (call : IndexCall o) : IndexedTransaction :=
  ((lastWith calls call.tx_id).getD call).indexed_tx

theorem from_slice_indexed_tx (call : IndexCall o) :
    IndexedTransaction.from_slice o s call.indexed_tx.to_vec = some call.indexed_tx := by
  have htx : call.indexed_tx.to_vec.tx = call.tx.json := rfl
  unfold IndexedTransaction.from_slice
  rw [htx, call.readable.decode_json]
  rfl

theorem load_chron_row {calls : List (IndexCall o)} {cf : IndexedTransactions}
    {call : IndexCall o} (h : Indexed calls cf) (hcall : call ∈ calls) :
    load_primary_indexed_transaction_by_cf o s cf (.tx_id call.tx_id) =
      .ok (recordOf calls call) := by
  obtain ⟨last, hlast⟩ := lastWith_of_mem hcall
  have hread := h.records call.tx_id (tx_id_isIdKey call.tx)
  rw [hlast] at hread
  have hrecord : recordOf calls call = last.indexed_tx := by
    rw [recordOf, hlast]
    rfl
  unfold load_primary_indexed_transaction_by_cf
  simp only [hread, Option.map_some, from_slice_indexed_tx, hrecord]

/-! ## The loop -/

/-- A cursor as a position. -/
def cursorPosition (cursor : Option (UInt64 × UInt32)) : Option Nat :=
  cursor.map (fun c => positionOf c.1 c.2)

/-- The matching records of the rows below a cursor, newest position first. -/
def recordsBelow (calls latest : List (IndexCall o)) (filters : IndexedTxChronFilters)
    (cursor : Option (UInt64 × UInt32)) : List IndexedTransaction :=
  ((paging.below IndexCall.position latest (cursorPosition cursor)).map (recordOf calls)).filter
    (fun ix => indexed_transaction_matches_optional_filters ix filters)

/-- The test of the loop on a row's position and the cursor. -/
theorem at_or_above_iff (c : UInt64 × UInt32) (call : IndexCall o) :
    (c.1 < call.block_height || (call.block_height == c.1 && c.2 ≤ call.block_index)) = true ↔
      ¬ call.position < positionOf c.1 c.2 := by
  have hi := c.2.toNat_lt
  have hi' := call.block_index.toNat_lt
  simp only [Bool.or_eq_true, Bool.and_eq_true, decide_eq_true_eq, beq_iff_eq,
    UInt64.lt_iff_toNat_lt, UInt32.le_iff_toNat_le, ← UInt64.toNat_inj, IndexCall.position,
    positionOf]
  omega

theorem below_cons (cursor : Option (UInt64 × UInt32)) (call : IndexCall o)
    (rest : List (IndexCall o)) :
    paging.below IndexCall.position (call :: rest) (cursorPosition cursor) =
      (if cursor.any (fun c => c.1 < call.block_height ||
        (call.block_height == c.1 && c.2 ≤ call.block_index)) then [] else [call]) ++
        paging.below IndexCall.position rest (cursorPosition cursor) := by
  cases cursor with
  | none => rfl
  | some c =>
    unfold paging.below cursorPosition
    simp only [Option.any_some, Option.map_some]
    by_cases habove : (c.1 < call.block_height ||
        (call.block_height == c.1 && c.2 ≤ call.block_index)) = true
    · have hnot := (at_or_above_iff c call).mp habove
      rw [if_pos habove, List.filter_cons_of_neg (by simpa using hnot), List.nil_append]
    · have hlt : call.position < positionOf c.1 c.2 := by
        by_contra hnot
        exact habove ((at_or_above_iff c call).mpr hnot)
      rw [if_neg habove, List.filter_cons_of_pos (by simpa using hlt)]
      rfl

theorem recordsBelow_cons (calls : List (IndexCall o)) (filters : IndexedTxChronFilters)
    (cursor : Option (UInt64 × UInt32)) (call : IndexCall o) (rest : List (IndexCall o)) :
    recordsBelow calls (call :: rest) filters cursor =
      (if cursor.any (fun c => c.1 < call.block_height ||
          (call.block_height == c.1 && c.2 ≤ call.block_index)) then []
        else if indexed_transaction_matches_optional_filters (recordOf calls call) filters then
          [recordOf calls call]
        else []) ++ recordsBelow calls rest filters cursor := by
  unfold recordsBelow
  rw [below_cons, List.map_append, List.filter_append]
  congr 1
  by_cases habove : cursor.any (fun c => c.1 < call.block_height ||
      (call.block_height == c.1 && c.2 ≤ call.block_index)) = true
  · rw [if_pos habove, if_pos habove]
    rfl
  · rw [if_neg habove, if_neg habove, List.map_singleton, List.filter_singleton]
    cases indexed_transaction_matches_optional_filters (recordOf calls call) filters with
    | true => rfl
    | false => rfl

theorem scanLoop_eq {calls : List (IndexCall o)} {cf : IndexedTransactions}
    (h : Indexed calls cf) (filters : IndexedTxChronFilters)
    (cursor : Option (UInt64 × UInt32)) (fetch_limit : Nat) {rows : List (IndexCall o)}
    (hrows : ∀ call ∈ rows, call ∈ calls) {out : List IndexedTransaction}
    (hout : out.length < fetch_limit) :
    scanLoop o s cf cursor filters fetch_limit (rows.map IndexCall.chron_row) out =
      .ok ((out ++ recordsBelow calls rows filters cursor).take fetch_limit) := by
  induction rows generalizing out with
  | nil =>
    have hnone : recordsBelow calls [] filters cursor = [] := by
      cases cursor with
      | none => rfl
      | some c => rfl
    rw [List.map_nil, scanLoop, hnone, List.append_nil, List.take_of_length_le (by omega)]
  | cons call rest ih =>
    have hrest := fun c hc => hrows c (List.mem_cons_of_mem _ hc)
    have hlead : "block_pos:".toList.isPrefixOf call.chron_key = true :=
      chron_index_key_leads _ _
    have hparse : parse_block_position_chron_key call.chron_key =
        some (call.block_height, call.block_index) := parse_chron_index_key _ _
    rw [recordsBelow_cons, List.map_cons, IndexCall.chron_row, scanLoop]
    simp only [hlead, hparse, Bool.not_true, Bool.false_eq_true, if_false]
    by_cases habove : cursor.any (fun c => c.1 < call.block_height ||
        (call.block_height == c.1 && c.2 ≤ call.block_index)) = true
    · rw [if_pos habove, if_pos habove, List.nil_append]
      exact ih hrest hout
    · rw [if_neg habove, if_neg habove, load_chron_row s h (hrows call List.mem_cons_self)]
      simp only
      by_cases hmatch : indexed_transaction_matches_optional_filters (recordOf calls call)
          filters = true
      · rw [if_neg (by simp [hmatch]), if_pos hmatch, ← List.append_assoc]
        by_cases hfull : fetch_limit ≤ (out ++ [recordOf calls call]).length
        · -- the record that fills the page is the last one taken
          have hlen : (out ++ [recordOf calls call]).length = fetch_limit := by
            rw [List.length_append, List.length_singleton] at hfull ⊢
            omega
          rw [if_pos hfull, List.take_append_of_le_length (by omega), ← hlen, List.take_length]
        · rw [if_neg hfull]
          exact ih hrest (by omega)
      · rw [if_pos (by simp [hmatch]), if_neg hmatch, List.nil_append]
        exact ih hrest hout

end eld_chain
