-- The listing of a chain. A client follows the cursor of `GET /transactions`
-- from the first page to the last; it sees every indexed position once,
-- newest first, as long as no transaction id stands at two positions.
import EldChain.DeclaredTypes
import EldChain.IndexScan

open Std

namespace eld_chain

variable {o : Outside} (s : SerdeJson)

/-! ## A page -/

/-- The filters that a request asks for. None when its sender is no address. -/
def TransactionListParams.filters (params : TransactionListParams) :
    Option IndexedTxChronFilters :=
  match params.sender with
  | none => some ⟨params.block_height, none, params.payload_type⟩
  | some text =>
    match decode_fixed_hex 20 text "address" with
    | .ok addr => some ⟨params.block_height, some addr, params.payload_type⟩
    | .error _ => none

/-- The rows that a page shows at most. -/
def TransactionListParams.shown (params : TransactionListParams) : UInt32 :=
  min (params.limit.getD 50) 100

/-- The same request for the page after a cursor. -/
def TransactionListParams.after (params : TransactionListParams)
    (cursor : Option (UInt64 × UInt32)) : TransactionListParams :=
  { params with after_height := cursor.map (fun c => c.1),
                after_index := cursor.map (fun c => c.2) }

/-- A column family that a listing reads without an error. -/
structure Listable (calls : List (IndexCall o)) (cf : IndexedTransactions) : Prop
    extends Indexed calls cf where
  counted : ∀ row, cf[INDEXED_TRANSACTIONS_PRIMARY_TOTAL_COUNT_KEY]? = some row →
    ∃ n, row = .count n

theorem countLoop_ok {calls : List (IndexCall o)} {cf : IndexedTransactions}
    (h : Indexed calls cf) (filters : IndexedTxChronFilters) {rows : List (IndexCall o)}
    (hrows : ∀ call ∈ rows, call ∈ calls) :
    ∃ n, countLoop o s cf filters (rows.map IndexCall.chron_row) = .ok n := by
  induction rows with
  | nil => exact ⟨0, rfl⟩
  | cons call rest ih =>
    obtain ⟨n, hn⟩ := ih (fun c hc => hrows c (List.mem_cons_of_mem _ hc))
    rw [List.map_cons, IndexCall.chron_row, countLoop,
      load_chron_row s h (hrows call List.mem_cons_self), hn]
    exact ⟨_, rfl⟩

theorem Newest.mem_calls {calls latest : List (IndexCall o)} (h : Newest calls latest)
    {call : IndexCall o} (hcall : call ∈ latest) : call ∈ calls :=
  (lastAt_eq_some ((h.mem_iff call).mp hcall)).1

/-- The total of a page. It may be counted and stored on the way. -/
theorem listTotal_ok {calls latest : List (IndexCall o)} {cf : IndexedTransactions}
    (h : Listable calls cf) (hnewest : Newest calls latest) (params : TransactionListParams)
    (filters : IndexedTxChronFilters) (first : Bool) :
    ∃ total cf', listTotal o s cf params filters first = .ok (total, cf') ∧
      Listable calls cf' := by
  unfold listTotal
  by_cases hfiltered :
      (params.block_height.isSome || params.sender.isSome || params.payload_type.isSome) = true
  · rw [if_pos hfiltered]
    cases first with
    | false => exact ⟨none, cf, rfl, h⟩
    | true =>
      have hrows : ∀ call ∈ latest.reverse, call ∈ calls := by
        intro call hcall
        exact hnewest.mem_calls (List.mem_reverse.mp hcall)
      obtain ⟨n, hn⟩ := countLoop_ok s h.toIndexed filters hrows
      rw [if_pos rfl, count_indexed_transactions_matching_chron_filters,
        chron_rows_eq h.toIndexed hnewest, ← List.map_reverse, hn]
      exact ⟨_, cf, rfl, h⟩
  · rw [if_neg hfiltered]
    unfold indexed_transaction_primary_total_count
    cases htotal : cf[INDEXED_TRANSACTIONS_PRIMARY_TOTAL_COUNT_KEY]? with
    | some row =>
      obtain ⟨n, rfl⟩ := h.counted row htotal
      exact ⟨some n, cf, rfl, h⟩
    | none =>
      -- the count is stored under a key that no listing reads
      refine ⟨_, _, rfl, ⟨fun key hkey => ?_, fun key hkey => ?_⟩, fun row hrow => ?_⟩
      · rw [finite_map.get_insert_of_ne cf _ (by rintro rfl; cases hkey)]
        exact h.positions key hkey
      · rw [finite_map.get_insert_of_ne cf _ (by rintro rfl; cases hkey)]
        exact h.records key hkey
      · rw [ExtTreeMap.getElem?_insert_self] at hrow
        cases hrow
        exact ⟨_, rfl⟩

theorem shown_le (params : TransactionListParams) : params.shown.toNat ≤ 100 := by
  have hcap : ∀ n : UInt32, (if n ≤ 100 then n else 100).toNat ≤ 100 := by
    intro n
    by_cases hle : n ≤ 100
    · rw [if_pos hle]
      exact UInt32.le_iff_toNat_le.mp hle
    · rw [if_neg hle]
      decide
  exact hcap (params.limit.getD 50)

theorem toNat_saturating_add {a b : UInt32} (h : a.toNat + b.toNat < 2 ^ 32) :
    (UInt32.saturating_add a b).toNat = a.toNat + b.toNat := by
  unfold UInt32.saturating_add
  rw [UInt32.toNat_ofNat', Nat.min_eq_left (by omega), Nat.mod_eq_of_lt h]

/-- One row more than the page shows. -/
theorem list_desc_eq {calls latest : List (IndexCall o)} {cf : IndexedTransactions}
    (h : Indexed calls cf) (hnewest : Newest calls latest) (params : TransactionListParams)
    (filters : IndexedTxChronFilters) (cursor : Option (UInt64 × UInt32)) :
    list_indexed_transactions_chron_desc o s cf cursor params.shown true filters =
      .ok ((recordsBelow calls latest filters cursor).take (params.shown.toNat + 1)) := by
  have hshown := shown_le params
  have hone : (1 : UInt32).toNat = 1 := rfl
  have hfetch : max (UInt32.saturating_add params.shown 1).toNat 1 = params.shown.toNat + 1 := by
    rw [toNat_saturating_add (by omega), hone]
    omega
  have hnone : ∀ rows : List (IndexCall o), (∀ call ∈ rows, call ∈ latest) →
      scanLoop o s cf cursor filters (params.shown.toNat + 1)
        (rows.map IndexCall.chron_row) [] =
        .ok ((recordsBelow calls rows filters cursor).take (params.shown.toNat + 1)) := by
    intro rows hrows
    exact scanLoop_eq s h filters cursor _ (fun call hcall => hnewest.mem_calls (hrows call hcall))
      (Nat.succ_pos _)
  unfold list_indexed_transactions_chron_desc list_indexed_transactions_chron_desc_scanned
  simp only [if_true, hfetch]
  cases cursor with
  | none =>
    rw [Option.map_none, chron_rows_eq h hnewest]
    exact hnone latest (fun _ hcall => hcall)
  | some c =>
    rw [Option.map_some, chron_rows_seek, chron_rows_eq h hnewest, List.filter_map]
    rw [hnone _ (fun call hcall => List.mem_of_mem_filter hcall)]
    congr 2
    -- the rows that the seek passes over are above the cursor
    unfold recordsBelow paging.below cursorPosition
    rw [Option.map_some]
    simp only
    rw [List.filter_filter]
    congr 2
    apply List.filter_congr
    intro call _
    have hseek : call.position < positionOf c.1 c.2 →
        (compare call.chron_key (block_position_chron_index_key c.1 c.2)).isLE = true := by
      intro hlt
      rw [IndexCall.chron_key, compare_chron_index_key]
      exact Ordering.isLE_of_eq_lt (Nat.compare_eq_lt.mpr hlt)
    by_cases hlt : call.position < positionOf c.1 c.2
    · simp [hlt, IndexCall.chron_row, hseek hlt]
    · simp [hlt]

/-- The page below a cursor: its rows, and whether there are more. -/
def pageBelow (calls latest : List (IndexCall o)) (params : TransactionListParams)
    (filters : IndexedTxChronFilters) (cursor : Option (UInt64 × UInt32))
    (total : Option UInt64) : TransactionListResponse :=
  let rows := recordsBelow calls latest filters cursor
  ⟨rows.take params.shown.toNat, ⟨params.shown, params.shown.toNat < rows.length, total⟩⟩

theorem listPage_ok {calls latest : List (IndexCall o)} {cf : IndexedTransactions}
    (h : Listable calls cf) (hnewest : Newest calls latest) (params : TransactionListParams)
    (filters : IndexedTxChronFilters) (cursor : Option (UInt64 × UInt32)) :
    ∃ total cf', listPage o s cf (params.after cursor) params.shown cursor filters =
      .ok (pageBelow calls latest params filters cursor total, cf') ∧ Listable calls cf' := by
  obtain ⟨total, cf', htotal, hlistable⟩ :=
    listTotal_ok s h hnewest (params.after cursor) filters cursor.isNone
  refine ⟨total, cf', ?_, hlistable⟩
  unfold listPage
  rw [htotal]
  simp only [list_desc_eq s hlistable.toIndexed hnewest]
  unfold pageBelow
  simp only [List.length_take]
  by_cases hmore : params.shown.toNat < (recordsBelow calls latest filters cursor).length
  · rw [if_pos (by omega), List.take_take, Nat.min_eq_left (by omega)]
    simp only [hmore, decide_true]
    congr
    simp only [decide_eq_true_eq]
    omega
  · rw [if_neg (by omega), List.take_of_length_le (by omega), List.take_of_length_le (by omega)]
    simp only [hmore, decide_false]
    congr
    simp only [decide_eq_false_iff_not]
    omega

theorem shown_ne_zero {params : TransactionListParams} (h : params.limit ≠ some 0) :
    params.shown ≠ 0 := by
  have hcap : ∀ n : UInt32, n ≠ 0 → (if n ≤ 100 then n else 100) ≠ 0 := by
    intro n hn
    by_cases hle : n ≤ 100
    · rw [if_pos hle]
      exact hn
    · rw [if_neg hle]
      decide
  refine hcap (params.limit.getD 50) ?_
  cases hlimit : params.limit with
  | none => decide
  | some n =>
    intro hn
    exact h (hlimit.trans (congrArg some hn))

/-- A request whose sender, if it names one, is an address. -/
theorem handle_eq_listPage {params : TransactionListParams} (hlimit : params.limit ≠ some 0)
    {filters : IndexedTxChronFilters} (hfilters : params.filters = some filters)
    (cf : IndexedTransactions) (cursor : Option (UInt64 × UInt32)) :
    handle_get_transactions o s cf (params.after cursor) =
      listPage o s cf (params.after cursor) params.shown cursor filters := by
  have hshown : min ((params.after cursor).limit.getD 50) 100 = params.shown := rfl
  have hsender : (params.after cursor).sender = params.sender := rfl
  unfold TransactionListParams.filters at hfilters
  unfold handle_get_transactions
  simp only [hshown, if_neg (shown_ne_zero hlimit), hsender]
  cases hs : params.sender with
  | none =>
    rw [hs] at hfilters
    cases hfilters
    cases cursor with
    | none => rfl
    | some c => rfl
  | some text =>
    rw [hs] at hfilters
    simp only at hfilters ⊢
    cases hd : decode_fixed_hex 20 text "address" with
    | error e =>
      rw [hd] at hfilters
      cases hfilters
    | ok addr =>
      rw [hd] at hfilters
      cases hfilters
      cases cursor with
      | none => rfl
      | some c => rfl

/-! ## Following the cursor -/

/-- A client that reads page after page, each after the last row of the one before, until a
page says that there are no more. None when the fuel runs out or a page fails. -/
def follow_pages (o : Outside) (s : SerdeJson) (params : TransactionListParams) :
    Nat → IndexedTransactions → Option (UInt64 × UInt32) → Option (List IndexedTransaction)
  | 0, _, _ => none
  | fuel + 1, cf, cursor =>
    match handle_get_transactions o s cf (params.after cursor) with
    | .error _ => none
    | .ok (page, cf') =>
      if page.pagination.has_next then
        match page.transactions.getLast? with
        | none => none
        | some last =>
          (follow_pages o s params fuel cf' (some (last.block_height, last.block_index))).map
            (page.transactions ++ ·)
      else some page.transactions

variable {s}

/-- One page of the client. -/
theorem follow_pages_succ {calls latest : List (IndexCall o)} {cf : IndexedTransactions}
    (h : Listable calls cf) (hnewest : Newest calls latest) {params : TransactionListParams}
    (hlimit : params.limit ≠ some 0) {filters : IndexedTxChronFilters}
    (hfilters : params.filters = some filters) (fuel : Nat)
    (cursor : Option (UInt64 × UInt32)) :
    ∃ cf', Listable calls cf' ∧ follow_pages o s params (fuel + 1) cf cursor =
      if params.shown.toNat < (recordsBelow calls latest filters cursor).length then
        (((recordsBelow calls latest filters cursor).take params.shown.toNat).getLast?).bind
          (fun last =>
            (follow_pages o s params fuel cf'
              (some (last.block_height, last.block_index))).map
              ((recordsBelow calls latest filters cursor).take params.shown.toNat ++ ·))
      else some (recordsBelow calls latest filters cursor) := by
  obtain ⟨total, cf', hpage, hlistable⟩ := listPage_ok s h hnewest params filters cursor
  refine ⟨cf', hlistable, ?_⟩
  rw [follow_pages, handle_eq_listPage s hlimit hfilters, hpage]
  unfold pageBelow
  simp only [decide_eq_true_eq]
  by_cases hmore : params.shown.toNat < (recordsBelow calls latest filters cursor).length
  · rw [if_pos hmore, if_pos hmore]
    cases ((recordsBelow calls latest filters cursor).take params.shown.toNat).getLast? with
    | none => rfl
    | some last => rfl
  · rw [if_neg hmore, if_neg hmore, List.take_of_length_le (by omega)]

/-- Each row that a client sees is the record behind a row of the scan. -/
theorem mem_of_follow_pages {calls latest : List (IndexCall o)} (hnewest : Newest calls latest)
    {params : TransactionListParams} (hlimit : params.limit ≠ some 0)
    {filters : IndexedTxChronFilters} (hfilters : params.filters = some filters) (fuel : Nat)
    {cf : IndexedTransactions} (h : Listable calls cf) {cursor : Option (UInt64 × UInt32)}
    {rows : List IndexedTransaction} (hrows : follow_pages o s params fuel cf cursor = some rows)
    {row : IndexedTransaction} (hrow : row ∈ rows) :
    ∃ call ∈ latest, row = recordOf calls call := by
  have hbelow : ∀ c, row ∈ recordsBelow calls latest filters c →
      ∃ call ∈ latest, row = recordOf calls call := by
    intro c hmem
    obtain ⟨call, hcall, hrecord⟩ := List.mem_map.mp (List.mem_of_mem_filter hmem)
    refine ⟨call, ?_, hrecord.symm⟩
    cases c with
    | none => exact hcall
    | some c => exact List.mem_of_mem_filter hcall
  induction fuel generalizing cf cursor rows with
  | zero => cases hrows
  | succ fuel ih =>
    obtain ⟨cf', hlistable, hstep⟩ := follow_pages_succ h hnewest hlimit hfilters fuel cursor
    rw [hstep] at hrows
    by_cases hmore : params.shown.toNat < (recordsBelow calls latest filters cursor).length
    · rw [if_pos hmore] at hrows
      obtain ⟨last, _, hmap⟩ := Option.bind_eq_some_iff.mp hrows
      obtain ⟨later, hlater, rfl⟩ := Option.map_eq_some_iff.mp hmap
      rcases List.mem_append.mp hrow with hpage | hrest
      · exact hbelow cursor (List.mem_of_mem_take hpage)
      · exact ih hlistable hlater hrest
    · rw [if_neg hmore] at hrows
      cases hrows
      exact hbelow cursor hrow

/-! ## Exact listings -/

/-- The calls for the blocks of one chain. A position has one transaction and one status,
however often it is indexed. -/
structure ChainCalls (o : Outside) where
  calls : List (IndexCall o)
  one_each : ∀ a ∈ calls, ∀ b ∈ calls, a.position = b.position →
    a.tx = b.tx ∧ a.status = b.status

/-- No transaction id stands at two positions. -/
def ChainCalls.IdsApart (chain : ChainCalls o) : Prop :=
  ∀ a ∈ chain.calls, ∀ b ∈ chain.calls, a.tx_id = b.tx_id → a.position = b.position

def IndexedTransaction.position (ix : IndexedTransaction) : Nat :=
  positionOf ix.block_height ix.block_index

/-- The rows are strictly newest first, there is one for every matching position, and each
one is about the transaction of its own position. -/
structure ExactListing (chain : ChainCalls o) (filters : IndexedTxChronFilters)
    (rows : List IndexedTransaction) : Prop where
  descending : paging.Falling IndexedTransaction.position rows
  complete : ∀ call ∈ chain.calls,
    indexed_transaction_matches_optional_filters call.indexed_tx filters = true →
      ∃ row ∈ rows, row.block_height = call.block_height ∧ row.block_index = call.block_index
  own : ∀ row ∈ rows, ∃ call ∈ chain.calls,
    row.block_height = call.block_height ∧ row.block_index = call.block_index ∧
    row.id = call.tx_id ∧ row.tx = call.tx ∧ row.status = call.status ∧
    indexed_transaction_matches_optional_filters row filters = true

variable {chain : ChainCalls o}

/-- The record behind a row is about the position of the row. -/
theorem recordOf_own (hapart : chain.IdsApart) {call : IndexCall o}
    (hcall : call ∈ chain.calls) :
    (recordOf chain.calls call).block_height = call.block_height ∧
    (recordOf chain.calls call).block_index = call.block_index ∧
    (recordOf chain.calls call).id = call.tx_id ∧ (recordOf chain.calls call).tx = call.tx ∧
    (recordOf chain.calls call).status = call.status := by
  obtain ⟨last, hlast⟩ := lastWith_of_mem hcall
  obtain ⟨hmem, hid⟩ := lastWith_eq_some hlast
  have hposition := hapart last hmem call hcall hid
  obtain ⟨htx, hstatus⟩ := chain.one_each last hmem call hcall hposition
  obtain ⟨hheight, hindex⟩ := position_eq_iff.mp hposition
  have hrecord : recordOf chain.calls call = last.indexed_tx := by
    rw [recordOf, hlast]
    rfl
  rw [hrecord]
  exact ⟨hheight, hindex, hid, htx, hstatus⟩

theorem recordOf_position (hapart : chain.IdsApart) {call : IndexCall o}
    (hcall : call ∈ chain.calls) : (recordOf chain.calls call).position = call.position := by
  obtain ⟨hheight, hindex, _⟩ := recordOf_own hapart hcall
  unfold IndexedTransaction.position IndexCall.position
  rw [hheight, hindex]

theorem recordOf_matches (hapart : chain.IdsApart) {call : IndexCall o}
    (hcall : call ∈ chain.calls) (filters : IndexedTxChronFilters) :
    indexed_transaction_matches_optional_filters (recordOf chain.calls call) filters =
      indexed_transaction_matches_optional_filters call.indexed_tx filters := by
  obtain ⟨hheight, _, _, htx, _⟩ := recordOf_own hapart hcall
  unfold indexed_transaction_matches_optional_filters
  rw [hheight, htx]
  rfl

/-- The rows below a cursor are those whose records are below it. -/
theorem recordsBelow_eq {latest : List (IndexCall o)} (hnewest : Newest chain.calls latest)
    (hapart : chain.IdsApart) (filters : IndexedTxChronFilters)
    (cursor : Option (UInt64 × UInt32)) :
    recordsBelow chain.calls latest filters cursor =
      paging.below IndexedTransaction.position (recordsBelow chain.calls latest filters none)
        (cursorPosition cursor) := by
  cases cursor with
  | none => rfl
  | some c =>
    have hsame : latest.filter (fun call => decide (call.position < positionOf c.1 c.2)) =
        latest.filter ((fun ix : IndexedTransaction => decide (ix.position < positionOf c.1 c.2)) ∘
          recordOf chain.calls) := by
      apply List.filter_congr
      intro call hcall
      rw [Function.comp_apply, recordOf_position hapart (hnewest.mem_calls hcall)]
    unfold recordsBelow cursorPosition paging.below
    simp only [Option.map_some, Option.map_none]
    rw [hsame, ← List.filter_map, List.filter_comm]

theorem recordsBelow_falling {latest : List (IndexCall o)} (hnewest : Newest chain.calls latest)
    (hapart : chain.IdsApart) (filters : IndexedTxChronFilters) :
    paging.Falling IndexedTransaction.position
      (recordsBelow chain.calls latest filters none) := by
  unfold paging.Falling recordsBelow
  apply List.Pairwise.filter
  rw [List.pairwise_map]
  refine hnewest.falling.imp_of_mem (fun {a b} ha hb hlt => ?_)
  rw [recordOf_position hapart (hnewest.mem_calls ha),
    recordOf_position hapart (hnewest.mem_calls hb)]
  exact hlt

/-- When ids are apart, the client is a reader of pages in the sense of the paging library. -/
theorem follow_pages_eq {latest : List (IndexCall o)} (hnewest : Newest chain.calls latest)
    (hapart : chain.IdsApart) {params : TransactionListParams} (hlimit : params.limit ≠ some 0)
    {filters : IndexedTxChronFilters} (hfilters : params.filters = some filters) (fuel : Nat)
    {cf : IndexedTransactions} (h : Listable chain.calls cf)
    (cursor : Option (UInt64 × UInt32)) :
    follow_pages o s params fuel cf cursor =
      paging.follow IndexedTransaction.position
        (fun c => (paging.below IndexedTransaction.position
          (recordsBelow chain.calls latest filters none) c).take (params.shown.toNat + 1))
        params.shown.toNat fuel (cursorPosition cursor) := by
  induction fuel generalizing cf cursor with
  | zero => rfl
  | succ fuel ih =>
    obtain ⟨cf', hlistable, hstep⟩ := follow_pages_succ h hnewest hlimit hfilters fuel cursor
    rw [hstep, paging.follow, ← recordsBelow_eq hnewest hapart]
    simp only [List.length_take, List.take_take]
    by_cases hmore : params.shown.toNat <
        (recordsBelow chain.calls latest filters cursor).length
    · rw [if_pos hmore, if_pos (by omega), Nat.min_eq_left (by omega)]
      cases ((recordsBelow chain.calls latest filters cursor).take
          params.shown.toNat).getLast? with
      | none => rfl
      | some last =>
        rw [Option.bind_some, ih hlistable]
        rfl
    · rw [if_neg hmore, if_neg (by omega), List.take_of_length_le (by omega)]

/-- The listing of a chain whose ids are apart, with any filters. -/
theorem listing_exact (hapart : chain.IdsApart) {params : TransactionListParams}
    (hlimit : params.limit ≠ some 0) {filters : IndexedTxChronFilters}
    (hfilters : params.filters = some filters) {cf : IndexedTransactions}
    (h : Listable chain.calls cf) :
    ∃ fuel rows, follow_pages o s params fuel cf none = some rows ∧
      ExactListing chain filters rows := by
  obtain ⟨latest, hnewest⟩ := exists_newest h.toIndexed
  have hpositive : 0 < params.shown.toNat := by
    apply Nat.pos_of_ne_zero
    intro hzero
    exact shown_ne_zero hlimit (UInt32.toNat_inj.mp hzero)
  refine ⟨(recordsBelow chain.calls latest filters none).length + 1,
    recordsBelow chain.calls latest filters none, ?_, ?_⟩
  · rw [follow_pages_eq hnewest hapart hlimit hfilters _ h]
    exact paging.follow_all (recordsBelow_falling hnewest hapart filters) hpositive
      (fun _ => rfl) (Nat.lt_succ_self _)
  · refine ⟨recordsBelow_falling hnewest hapart filters, fun call hcall hmatch => ?_,
      fun row hrow => ?_⟩
    · obtain ⟨last, hlast⟩ := lastAt_of_mem hcall
      obtain ⟨hmem, hkey⟩ := lastAt_eq_some hlast
      obtain ⟨hheight, hindex⟩ := chron_index_key_inj hkey
      have hposition := position_eq_iff.mpr ⟨hheight, hindex⟩
      have hrecord := recordOf_own hapart hmem
      refine ⟨recordOf chain.calls last, ?_, hrecord.1.trans hheight,
        hrecord.2.1.trans hindex⟩
      refine List.mem_filter.mpr ⟨List.mem_map_of_mem ?_, ?_⟩
      · rw [← hkey] at hlast
        exact (hnewest.mem_iff last).mpr hlast
      · rw [recordOf_matches hapart hmem, ← hmatch]
        unfold indexed_transaction_matches_optional_filters IndexCall.indexed_tx
        simp only [hheight, (chain.one_each last hmem call hcall hposition).1]
    · obtain ⟨hmem, hmatch⟩ := List.mem_filter.mp hrow
      obtain ⟨call, hcall, rfl⟩ := List.mem_map.mp hmem
      obtain ⟨hheight, hindex, hid, htx, hstatus⟩ :=
        recordOf_own hapart (hnewest.mem_calls hcall)
      exact ⟨call, hnewest.mem_calls hcall, hheight, hindex, hid, htx, hstatus, hmatch⟩

/-- The request without a filter. -/
def TransactionListParams.plain (limit : Option UInt32) : TransactionListParams :=
  ⟨none, none, limit, none, none, none⟩

def IndexedTxChronFilters.none : IndexedTxChronFilters := ⟨.none, .none, .none⟩

/-- A listing that is exact shows each id at one position. -/
theorem ids_apart_of_exact {limit : Option UInt32} (hlimit : limit ≠ some 0)
    {cf : IndexedTransactions} (h : Listable chain.calls cf) {fuel : Nat}
    {rows : List IndexedTransaction}
    (hrows : follow_pages o s (.plain limit) fuel cf none = some rows)
    (hexact : ExactListing chain .none rows) : chain.IdsApart := by
  obtain ⟨latest, hnewest⟩ := exists_newest h.toIndexed
  -- the row at the position of a call is the last record of its id
  have hown : ∀ call ∈ chain.calls, ∃ last, lastWith chain.calls call.tx_id = some last ∧
      last.position = call.position := by
    intro call hcall
    obtain ⟨row, hrow, hheight, hindex⟩ := hexact.complete call hcall rfl
    have hplain : (TransactionListParams.plain limit).filters = some .none := rfl
    obtain ⟨listed, hlisted, rfl⟩ := mem_of_follow_pages hnewest hlimit hplain fuel h hrows hrow
    obtain ⟨last, hlast⟩ := lastWith_of_mem (hnewest.mem_calls hlisted)
    obtain ⟨hmem, hid⟩ := lastWith_eq_some hlast
    have hrecord : recordOf chain.calls listed = last.indexed_tx := by
      rw [recordOf, hlast]
      rfl
    rw [hrecord] at hheight hindex
    have hposition : last.position = call.position := position_eq_iff.mpr ⟨hheight, hindex⟩
    have hsame : last.tx_id = call.tx_id := by
      unfold IndexCall.tx_id
      rw [(chain.one_each last hmem call hcall hposition).1]
    rw [← hid, hsame] at hlast
    exact ⟨last, hlast, hposition⟩
  intro a ha b hb hids
  obtain ⟨last, hlast, hposition⟩ := hown a ha
  obtain ⟨last', hlast', hposition'⟩ := hown b hb
  rw [← hids, hlast] at hlast'
  cases hlast'
  exact hposition.symm.trans hposition'

/-! ## After the calls of a chain -/

/-- A total that a column family holds is a count. -/
def TotalCounted (cf : IndexedTransactions) : Prop :=
  ∀ row, cf[INDEXED_TRANSACTIONS_PRIMARY_TOTAL_COUNT_KEY]? = some row → ∃ n, row = .count n

theorem index_transaction_counted {call : IndexCall o} {cf cf' : IndexedTransactions}
    (hcounted : TotalCounted cf) (h : index_transaction cf call = .ok cf') :
    TotalCounted cf' := by
  refine applyWrites_keeps (fun w hw cf₁ cf₂ hcf₁ happly => ?_) hcounted h
  by_cases hkey : w.key = INDEXED_TRANSACTIONS_PRIMARY_TOTAL_COUNT_KEY
  · rcases (IndexCall.write_cases hw).bumps (congrArg List.head? hkey) with rfl | rfl
    · exact absurd hkey (by decide)
    · obtain ⟨n, rfl⟩ := bump_total_eq_ok happly
      intro row hread
      rw [ExtTreeMap.getElem?_insert_self] at hread
      cases hread
      exact ⟨n, rfl⟩
  · unfold TotalCounted
    rw [IndexWrite.get_of_ne happly hkey]
    exact hcf₁

theorem listable_of_calls {calls : List (IndexCall o)} {cf : IndexedTransactions}
    (h : index_all ∅ calls = .ok cf) : Listable calls cf := by
  refine ⟨indexed_of_calls h, ?_⟩
  induction calls using List.reverseRecOn generalizing cf with
  | nil =>
    cases h
    intro row hread
    cases hread
  | append_singleton calls call ih =>
    obtain ⟨cf₁, hcalls, hcall⟩ := index_all_snoc h
    exact index_transaction_counted (ih hcalls) hcall

/-- The listing of a chain is exact when no transaction id stands at two positions, and only
then; filters do not change that. -/
theorem listing_is_exact_iff (s : SerdeJson) (chain : ChainCalls o) {cf : IndexedTransactions}
    (h : index_all ∅ chain.calls = .ok cf) {limit : Option UInt32} (hlimit : limit ≠ some 0) :
    ((∃ fuel rows, follow_pages o s (.plain limit) fuel cf none = some rows ∧
      ExactListing chain .none rows) ↔ chain.IdsApart) ∧
    (chain.IdsApart → ∀ params filters, params.limit = limit →
      params.filters = some filters →
      ∃ fuel rows, follow_pages o s params fuel cf none = some rows ∧
        ExactListing chain filters rows) := by
  have hlistable := listable_of_calls h
  refine ⟨⟨?_, fun hapart => ?_⟩, fun hapart params filters hsame hfilters => ?_⟩
  · rintro ⟨fuel, rows, hrows, hexact⟩
    exact ids_apart_of_exact hlimit hlistable hrows hexact
  · have hplain : (TransactionListParams.plain limit).filters = some .none := rfl
    exact listing_exact hapart hlimit hplain hlistable
  · exact listing_exact hapart (hsame ▸ hlimit) hfilters hlistable

theorem aliceSendsFive_readable : aliceSendsFive.Readable Outside.toy :=
  Tx.Wired.readable (signed_wired 1 1 _ _)

/-- Alice's transfer, as it is indexed from the first transaction of a block. -/
def aliceIndexed (block_height : UInt64) (status : TransactionStatus) :
    IndexCall Outside.toy where
  tx := aliceSendsFive
  block_height := block_height
  block_index := 0
  status := status
  gas_used := none
  events := []
  timestamp := 0
  readable := aliceSendsFive_readable

theorem oneTransfer_each : ∀ a ∈ [aliceIndexed 1 .Success], ∀ b ∈ [aliceIndexed 1 .Success],
    a.position = b.position → a.tx = b.tx ∧ a.status = b.status := by
  intro a ha b hb _
  rw [List.mem_singleton.mp ha, List.mem_singleton.mp hb]
  exact ⟨rfl, rfl⟩

def oneTransfer : ChainCalls Outside.toy := ⟨[aliceIndexed 1 .Success], oneTransfer_each⟩

theorem listing_is_exact_on_oneTransfer :
    ∃ cf, index_all ∅ oneTransfer.calls = .ok cf ∧
      ∃ fuel rows, follow_pages Outside.toy .plain (.plain none) fuel cf none = some rows ∧
        ExactListing oneTransfer .none rows := by
  obtain ⟨cf, hcf⟩ : ∃ cf, index_transaction ∅ (aliceIndexed 1 .Success) = .ok cf := by
    apply index_transaction_ok
    intro _ row hrow
    cases hrow
  have hall : index_all ∅ oneTransfer.calls = .ok cf := by
    unfold index_all oneTransfer
    rw [List.foldlM_cons, hcf]
    rfl
  have hlimit : (none : Option UInt32) ≠ some 0 := by decide
  have hiff := (listing_is_exact_iff .plain oneTransfer hall hlimit).1
  refine ⟨cf, hall, hiff.mpr ?_⟩
  intro a ha b hb _
  rw [List.mem_singleton.mp ha, List.mem_singleton.mp hb]

theorem repeatedTransfer_each :
    ∀ a ∈ [aliceIndexed 1 .Success, aliceIndexed 2 .Failed],
      ∀ b ∈ [aliceIndexed 1 .Success, aliceIndexed 2 .Failed],
        a.position = b.position → a.tx = b.tx ∧ a.status = b.status := by
  have hdistinct : (aliceIndexed 1 .Success).position ≠ (aliceIndexed 2 .Failed).position := by
    decide
  intro a ha b hb heq
  simp only [List.mem_cons, List.not_mem_nil, or_false] at ha hb
  rcases ha with rfl | rfl <;> rcases hb with rfl | rfl
  · exact ⟨rfl, rfl⟩
  · exact absurd heq hdistinct
  · exact absurd heq.symm hdistinct
  · exact ⟨rfl, rfl⟩

/-- The transfer stands again in the second block, in another spelling, and fails there. -/
def repeatedTransfer : ChainCalls Outside.toy :=
  ⟨[aliceIndexed 1 .Success, aliceIndexed 2 .Failed], repeatedTransfer_each⟩

/-- No reading of the pages lists both positions. -/
theorem repeatedTransfer_is_not_listed :
    ∃ cf, index_all ∅ repeatedTransfer.calls = .ok cf ∧
      ¬ ∃ fuel rows, follow_pages Outside.toy .plain (.plain none) fuel cf none = some rows ∧
        ExactListing repeatedTransfer .none rows := by
  obtain ⟨cf₁, hcf₁⟩ : ∃ cf, index_transaction ∅ (aliceIndexed 1 .Success) = .ok cf := by
    apply index_transaction_ok
    intro _ row hrow
    cases hrow
  obtain ⟨cf₂, hcf₂⟩ : ∃ cf, index_transaction cf₁ (aliceIndexed 2 .Failed) = .ok cf := by
    apply index_transaction_ok
    intro hfresh
    have hrecord := (index_transaction.spec hcf₁).record
    have hid : (aliceIndexed 2 .Failed).tx_id = (aliceIndexed 1 .Success).tx_id := rfl
    rw [hid, hrecord] at hfresh
    cases hfresh
  have hall : index_all ∅ repeatedTransfer.calls = .ok cf₂ := by
    unfold index_all repeatedTransfer
    rw [List.foldlM_cons, hcf₁]
    show (index_transaction cf₁ (aliceIndexed 2 .Failed) >>= pure) = _
    rw [hcf₂]
    rfl
  refine ⟨cf₂, hall, ?_⟩
  rintro ⟨fuel, rows, hrows, hexact⟩
  have hapart := ids_apart_of_exact (by decide) (listable_of_calls hall) hrows hexact
  have hsame := hapart (aliceIndexed 1 .Success) (by simp [repeatedTransfer])
    (aliceIndexed 2 .Failed) (by simp [repeatedTransfer]) rfl
  exact absurd hsame (by decide)

end eld_chain
