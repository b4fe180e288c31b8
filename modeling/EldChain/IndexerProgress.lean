-- The progress of the indexer. A pass over a block moves the cursor exactly
-- when every entry of the block can be decoded; one entry that cannot stops
-- the indexer at its height for good.
import EldChain.CapacityRegistry
import EldChain.IndexCounters
import EldChain.IndexerSync

open Std

namespace eld_chain

variable {o : Outside} {s : SerdeJson} {d : WireDecoders o} {rpc : TendermintRpc}

/-! ## Decoding -/

/-- The bytes decode to a transaction. -/
def Decodes (s : SerdeJson) (d : WireDecoders o) (tx_bytes : Bytes) (tx : Tx) : Prop :=
  ∃ fuel read, decode_eld_tx_from_block_tx_bytes o s d fuel tx_bytes = some (.ok read) ∧
    read.val = tx

theorem read_tx_eq_ok {text : Text} {read : ReadTx o} :
    s.read_tx o text = .ok read ↔ s.from_str_tx o text = .ok read.val := by
  unfold SerdeJson.read_tx
  split
  · rename_i tx htx
    constructor
    · intro h
      cases h
      exact htx
    · intro h
      have hsame : tx = read.val := Except.ok.inj (htx.symm.trans h)
      exact congrArg Except.ok (Subtype.ext hsame)
  · rename_i e he
    refine iff_of_false (fun h => by cases h) (fun h => ?_)
    cases he.symm.trans h

theorem wire_eq_ok {tx_bytes : Bytes} {read : ReadTx o} :
    decode_eld_tx_from_wire o s tx_bytes = .ok read ↔
      ∃ hex_str, from_utf8 tx_bytes = .ok hex_str ∧ ∃ json_bytes,
        hex_decode hex_str = .ok json_bytes ∧ ∃ json_str, from_utf8 json_bytes = .ok json_str ∧
          s.from_str_tx o json_str = .ok read.val := by
  simp only [decode_eld_tx_from_wire, bind_eq_ok, mapError_eq_ok, read_tx_eq_ok]

/-- More fuel changes no answer. -/
theorem decode_mono {fuel fuel' : Nat} (hle : fuel ≤ fuel') {tx_bytes : Bytes}
    {r : Except EldError (ReadTx o)}
    (h : decode_eld_tx_from_block_tx_bytes o s d fuel tx_bytes = some r) :
    decode_eld_tx_from_block_tx_bytes o s d fuel' tx_bytes = some r := by
  induction fuel generalizing fuel' tx_bytes r with
  | zero => cases h
  | succ fuel ih =>
    obtain ⟨fuel', rfl⟩ : ∃ n, fuel' = n + 1 := ⟨fuel' - 1, by omega⟩
    rw [decode_eld_tx_from_block_tx_bytes] at h ⊢
    cases hwire : decode_eld_tx_from_wire o s tx_bytes with
    | ok read =>
      rw [hwire] at h
      exact h
    | error _ =>
      rw [hwire] at h
      simp only at h ⊢
      cases hutf8 : from_utf8 tx_bytes with
      | error _ =>
        rw [hutf8] at h
        exact h
      | ok text =>
        rw [hutf8] at h
        simp only at h ⊢
        cases hread : s.read_tx o text with
        | ok read =>
          rw [hread] at h
          exact h
        | error _ =>
          rw [hread] at h
          simp only at h ⊢
          cases hinner : o.base64.decode (trim text) with
          | none =>
            rw [hinner] at h
            exact h
          | some inner =>
            rw [hinner] at h
            simp only at h ⊢
            -- only here the answer comes from the recursion
            cases hrec : decode_eld_tx_from_block_tx_bytes o s d fuel inner with
            | none =>
              rw [hrec] at h
              cases h
            | some r' =>
              rw [hrec] at h
              rw [ih (Nat.le_of_succ_le_succ hle) hrec]
              exact h

/-- The answers to the same bytes are the same. -/
theorem decode_unique {fuel fuel' : Nat} {tx_bytes : Bytes} {r r' : Except EldError (ReadTx o)}
    (h : decode_eld_tx_from_block_tx_bytes o s d fuel tx_bytes = some r)
    (h' : decode_eld_tx_from_block_tx_bytes o s d fuel' tx_bytes = some r') : r = r' := by
  rcases Nat.le_total fuel fuel' with hle | hle
  · rw [decode_mono hle h] at h'
    exact Option.some.inj h'
  · rw [decode_mono hle h'] at h
    exact (Option.some.inj h).symm

/-- Whatever DeliverTx decodes, the indexer decodes. -/
theorem decodes_of_deliverDecode {pc : ProtocolConstants} {tx_bytes : Bytes} {tx : Tx}
    (h : deliverDecode o pc s tx_bytes = .ok tx) : Decodes s d tx_bytes tx := by
  simp only [deliverDecode, unless_eq_ok, bind_eq_ok, mapError_eq_ok, exists_unit] at h
  obtain ⟨_, hex_str, hhex, _, bytes, hbytes, text, htext, _, _, _, _, htx⟩ := h
  have hwire : decode_eld_tx_from_wire o s tx_bytes =
      .ok ⟨tx, readable_of_from_str o s htx⟩ :=
    wire_eq_ok.mpr ⟨hex_str, hhex, bytes, hbytes, text, htext, htx⟩
  refine ⟨1, ⟨tx, readable_of_from_str o s htx⟩, ?_, rfl⟩
  rw [decode_eld_tx_from_block_tx_bytes, hwire]

/-- Bytes that are no transaction, and that are their own base64, are never answered. -/
theorem decode_never_returns {tx_bytes : Bytes} {text : Text}
    (hwire : (decode_eld_tx_from_wire o s tx_bytes).toOption = none)
    (hutf8 : from_utf8 tx_bytes = .ok text) (hjson : (s.read_tx o text).toOption = none)
    (hself : o.base64.decode (trim text) = some tx_bytes) (fuel : Nat) :
    decode_eld_tx_from_block_tx_bytes o s d fuel tx_bytes = none := by
  induction fuel with
  | zero => rfl
  | succ fuel ih =>
    rw [decode_eld_tx_from_block_tx_bytes]
    cases hw : decode_eld_tx_from_wire o s tx_bytes with
    | ok read =>
      rw [hw] at hwire
      cases hwire
    | error _ =>
      cases hj : s.read_tx o text with
      | ok read =>
        rw [hj] at hjson
        cases hjson
      | error _ =>
        simp only [hutf8, hj, hself, ih]

/-! ## One entry -/

/-- The column family has room for some more records: neither the rows nor their total come
to the end of an `u64`. -/
def HasRoom (cf : IndexedTransactions) (k : Nat) : Prop :=
  primaryRows cf + k < 2 ^ 64 ∧
  ∀ row, cf[INDEXED_TRANSACTIONS_PRIMARY_TOTAL_COUNT_KEY]? = some row →
    ∃ n, row = .count n ∧ n.toNat + k < 2 ^ 64

theorem index_transaction_room {cf : IndexedTransactions} {k : Nat} (h : HasRoom cf (k + 1))
    (call : IndexCall o) :
    ∃ cf', index_transaction cf call = .ok cf' ∧ HasRoom cf' k := by
  obtain ⟨hrows, htotal⟩ := h
  obtain ⟨cf', hcf'⟩ : ∃ cf', attempt cf ⟨call, none⟩ = .ok cf' := by
    apply attempt_ok
    intro row hrow
    obtain ⟨n, hn, hlt⟩ := htotal row hrow
    exact ⟨n, hn, by omega⟩
  have hrows' := attempt_primary hcf'
  have htotal' := attempt_total hcf'
  have hle : primaryRows cf' ≤ primaryRows cf + 1 := by
    rw [hrows']
    split <;> omega
  refine ⟨cf', hcf', by omega, fun row hrow => ?_⟩
  rw [htotal'] at hrow
  split at hrow
  · cases hread : cf[INDEXED_TRANSACTIONS_PRIMARY_TOTAL_COUNT_KEY]? with
    | none =>
      rw [hread] at hrow
      cases hrow
      refine ⟨_, rfl, ?_⟩
      rw [UInt64.toNat_ofNat', Nat.mod_eq_of_lt (by omega)]
      omega
    | some old =>
      obtain ⟨n, rfl, hlt⟩ := htotal old hread
      rw [hread] at hrow
      cases hrow
      have hone : (1 : UInt64).toNat = 1 := rfl
      refine ⟨n + 1, rfl, ?_⟩
      rw [UInt64.toNat_add, hone, Nat.mod_eq_of_lt (by omega)]
      omega
  · obtain ⟨n, hn, hlt⟩ := htotal row hrow
    exact ⟨n, hn, by omega⟩

theorem makeWrites_of_ok {ws : List IndexWrite} {cf cf' : IndexedTransactions}
    (h : applyWrites cf ws = .ok cf') : makeWrites cf ws = (cf', .ok ()) := by
  induction ws generalizing cf with
  | nil =>
    cases h
    rfl
  | cons w ws ih =>
    obtain ⟨cf₁, hw, hws⟩ := applyWrites_cons h
    rw [makeWrites, hw]
    exact ih hws

/-- The key of the cursor is none that a call writes. -/
theorem CallWrite.key_ne_cursor {call : IndexCall o} {cf : IndexedTransactions} {w : IndexWrite}
    (h : CallWrite call cf w) : w.key ≠ INDEXER_CURSOR_KEY := by
  intro hkey
  have hhead : w.key.head? = some 'm' := congrArg List.head? hkey
  cases h with
  | record => cases hhead
  | position => cases hhead
  | other kind apart =>
    rw [IndexWrite.key] at hhead
    rw [hhead] at kind
    rcases kind with hb | hs | ht
    · cases hb
    · cases hs
    · cases ht
  | reward rewarded =>
    obtain ⟨provider, rfl⟩ := reward_key_form rewarded
    cases hhead
  | counted => cases hhead
  | total => cases hhead

theorem index_transaction_cursor {call : IndexCall o} {cf cf' : IndexedTransactions}
    (h : index_transaction cf call = .ok cf') :
    cf'[INDEXER_CURSOR_KEY]? = cf[INDEXER_CURSOR_KEY]? :=
  applyWrites_untouched h (fun _ hw => (IndexCall.write_cases hw).key_ne_cursor)

/-- Tendermint finds the entry by its hash. -/
def FoundByHash (o : Outside) (rpc : TendermintRpc) (wire : Bytes) : Prop :=
  ∃ tx_resp, rpc.get_tx_by_hash (wire_bytes_to_tx_hash o wire) = .ok tx_resp ∧ tx_resp.tx = wire

/-- What indexing one entry does, by what its bytes decode to. -/
theorem index_tx_cases (s : SerdeJson) (d : WireDecoders o) (fuel : Nat)
    {cf : IndexedTransactions} {k : Nat} (hroom : HasRoom cf (k + 1)) {wire : Bytes} (hanswers : FoundByHash o rpc wire) (height : UInt64)
    (index : UInt32) (timestamp : UInt64) :
    (decode_eld_tx_from_block_tx_bytes o s d fuel wire = none ∧
      index_tx_from_block_and_tm_tx o s d rpc fuel cf wire height index timestamp = none) ∨
    (∃ e, decode_eld_tx_from_block_tx_bytes o s d fuel wire = some (.error e) ∧
      index_tx_from_block_and_tm_tx o s d rpc fuel cf wire height index timestamp =
        some (cf, .error e)) ∨
    ∃ read, decode_eld_tx_from_block_tx_bytes o s d fuel wire = some (.ok read) ∧
      ∃ (call : IndexCall o) (cf' : IndexedTransactions),
        call.tx = read.val ∧ call.block_height = height ∧ call.block_index = index ∧
        index_transaction cf call = .ok cf' ∧ HasRoom cf' k ∧
        index_tx_from_block_and_tm_tx o s d rpc fuel cf wire height index timestamp =
          some (cf', .ok ()) := by
  obtain ⟨tx_resp, hresp, hwire⟩ := hanswers
  unfold index_tx_from_block_and_tm_tx
  rw [hresp]
  simp only [hwire]
  cases hdecode : decode_eld_tx_from_block_tx_bytes o s d fuel wire with
  | none => exact Or.inl ⟨rfl, rfl⟩
  | some r =>
    cases r with
    | error e => exact Or.inr (Or.inl ⟨e, rfl, rfl⟩)
    | ok read =>
      refine Or.inr (Or.inr ⟨read, rfl, ?_⟩)
      simp only
      obtain ⟨cf', hcf', hroom'⟩ := index_transaction_room hroom {
        tx := read.val
        block_height := height
        block_index := index
        status := if tm_tx_result_is_success tx_resp.code then .Success else .Failed
        gas_used := tm_tx_gas_used tx_resp.gas_used
        events := tx_resp.events
        timestamp := timestamp
        readable := read.property }
      exact ⟨_, cf', rfl, rfl, rfl, hcf', hroom', congrArg some (makeWrites_of_ok hcf')⟩

/-! ## One block -/

/-- A record stands under an id. -/
def HasRecord (cf : IndexedTransactions) (id : Text) : Prop :=
  ∃ row, cf[id]? = some (.transaction row)

theorem HasRecord.after_call {call : IndexCall o} {cf cf' : IndexedTransactions} {id : Text}
    (hid : isIdKey id = true) (h : AfterCall call cf cf') (hrecorded : HasRecord cf id) :
    HasRecord cf' id := by
  by_cases heq : id = call.tx_id
  · rw [heq]
    exact ⟨_, h.record⟩
  · unfold HasRecord
    rw [h.other_records id hid heq]
    exact hrecorded

/-- What the entries of a block from an index on leave. -/
structure AfterBlock (o : Outside) (s : SerdeJson) (d : WireDecoders o) (fuel : Nat)
    (height : UInt64) (k : Nat) (data : List Bytes) (cf cf' : IndexedTransactions) : Prop where
  cursor : cf'[INDEXER_CURSOR_KEY]? = cf[INDEXER_CURSOR_KEY]?
  recorded_before : ∀ id, isIdKey id = true → HasRecord cf id → HasRecord cf' id
  positions_before : ∀ key, isChronKey key = true →
    (∀ i < data.length, key ≠ block_position_chron_index_key height (UInt32.ofNat (k + i))) →
      cf'[key]? = cf[key]?
  recorded : ∀ wire ∈ data, ∀ read,
    decode_eld_tx_from_block_tx_bytes o s d fuel wire = some (.ok read) →
      HasRecord cf' (calculate_tx_id o read.val)
  positions : k + data.length ≤ 2 ^ 32 → ∀ i wire read, data[i]? = some wire →
    decode_eld_tx_from_block_tx_bytes o s d fuel wire = some (.ok read) →
      cf'[block_position_chron_index_key height (UInt32.ofNat (k + i))]? =
        some (.tx_id (calculate_tx_id o read.val))

theorem afterBlock_nil (fuel : Nat) (height : UInt64) (k : Nat) (cf : IndexedTransactions) :
    AfterBlock o s d fuel height k [] cf cf where
  cursor := rfl
  recorded_before := fun _ _ h => h
  positions_before := fun _ _ _ => rfl
  recorded := fun _ h => by cases h
  positions := fun _ i wire _ h => by cases h

/-- An entry that does not decode leaves everything as it is. -/
theorem AfterBlock.cons_error {fuel : Nat} {height : UInt64} {k : Nat} {wire : Bytes}
    {rest : List Bytes} {cf cf' : IndexedTransactions} {e : EldError}
    (hdecode : decode_eld_tx_from_block_tx_bytes o s d fuel wire = some (.error e))
    (h : AfterBlock o s d fuel height (k + 1) rest cf cf') :
    AfterBlock o s d fuel height k (wire :: rest) cf cf' where
  cursor := h.cursor
  recorded_before := h.recorded_before
  positions_before key hkey hother := by
    refine h.positions_before key hkey (fun i hi => ?_)
    have hnot := hother (i + 1) (Nat.succ_lt_succ hi)
    rwa [show k + (i + 1) = k + 1 + i from by omega] at hnot
  recorded w hw read hread := by
    rcases List.mem_cons.mp hw with rfl | hw
    · rw [hdecode] at hread
      cases hread
    · exact h.recorded w hw read hread
  positions hlength i w read hw hread := by
    cases i with
    | zero =>
      cases hw
      rw [hdecode] at hread
      cases hread
    | succ i =>
      rw [show k + (i + 1) = k + 1 + i from by omega]
      rw [List.length_cons] at hlength
      exact h.positions (by omega) i w read hw hread

/-- An entry that decodes is indexed, and the later entries leave its rows. -/
theorem AfterBlock.cons_ok {fuel : Nat} {height : UInt64} {k : Nat} {wire : Bytes}
    {rest : List Bytes} {cf cf₁ cf' : IndexedTransactions} {read : ReadTx o}
    {call : IndexCall o}
    (hdecode : decode_eld_tx_from_block_tx_bytes o s d fuel wire = some (.ok read))
    (htx : call.tx = read.val) (hheight : call.block_height = height)
    (hindex : call.block_index = UInt32.ofNat k) (hcall : index_transaction cf call = .ok cf₁)
    (h : AfterBlock o s d fuel height (k + 1) rest cf₁ cf') :
    AfterBlock o s d fuel height k (wire :: rest) cf cf' := by
  have hafter := index_transaction.spec hcall
  have hkey : call.chron_key = block_position_chron_index_key height (UInt32.ofNat k) := by
    rw [IndexCall.chron_key, hheight, hindex]
  have hid : call.tx_id = calculate_tx_id o read.val := by rw [IndexCall.tx_id, htx]
  refine ⟨?_, ?_, ?_, ?_, ?_⟩
  · rw [h.cursor, index_transaction_cursor hcall]
  · intro id hidkey hrecorded
    exact h.recorded_before id hidkey (hrecorded.after_call hidkey hafter)
  · intro key hchron hother
    rw [h.positions_before key hchron (fun i hi => ?_)]
    · apply hafter.other_positions key hchron
      rw [hkey]
      exact hother 0 (Nat.succ_pos _)
    · have hnot := hother (i + 1) (Nat.succ_lt_succ hi)
      rwa [show k + (i + 1) = k + 1 + i from by omega] at hnot
  · intro w hw read' hread'
    rcases List.mem_cons.mp hw with rfl | hw
    · rw [hdecode] at hread'
      cases hread'
      rw [← hid]
      exact h.recorded_before _ (tx_id_isIdKey call.tx) ⟨_, hafter.record⟩
    · exact h.recorded w hw read' hread'
  · intro hlength i w read' hw hread'
    rw [List.length_cons] at hlength
    cases i with
    | zero =>
      cases hw
      rw [hdecode] at hread'
      cases hread'
      rw [Nat.add_zero, h.positions_before _ (chron_index_key_leads _ _) (fun i hi heq => ?_),
        ← hkey, hafter.position, hid]
      -- the indices of the later entries are others
      have hsame := congrArg UInt32.toNat (chron_index_key_inj heq).2
      rw [UInt32.toNat_ofNat', UInt32.toNat_ofNat', Nat.mod_eq_of_lt (by omega),
        Nat.mod_eq_of_lt (by omega)] at hsame
      omega
    | succ i =>
      rw [show k + (i + 1) = k + 1 + i from by omega]
      exact h.positions (by omega) i w read' hw hread'

/-- The loop over the entries: what it leaves, and that the flag stays up only when every entry
decodes. -/
theorem indexBlock_spec {fuel : Nat} {height timestamp : UInt64} {data : List Bytes}
    (hanswers : ∀ wire ∈ data, FoundByHash o rpc wire) {k : Nat} {cf cf' : IndexedTransactions}
    (hroom : HasRoom cf data.length) {written flag : Bool}
    (h : indexBlock o s d rpc fuel height timestamp k data cf written = some (cf', flag)) :
    AfterBlock o s d fuel height k data cf cf' ∧
      (flag = true → written = true ∧ ∀ wire ∈ data, ∃ read,
        decode_eld_tx_from_block_tx_bytes o s d fuel wire = some (.ok read)) := by
  induction data generalizing k cf written with
  | nil =>
    cases h
    exact ⟨afterBlock_nil fuel height k _, fun hflag => ⟨hflag, fun _ hw => by cases hw⟩⟩
  | cons wire rest ih =>
    have hrest := fun w hw => hanswers w (List.mem_cons_of_mem _ hw)
    rw [indexBlock] at h
    rcases index_tx_cases s d fuel hroom (hanswers wire List.mem_cons_self) height
      (UInt32.ofNat k) timestamp with
      ⟨_, hindex⟩ | ⟨e, hdecode, hindex⟩ |
      ⟨read, hdecode, call, cf₁, htx, hheight, hidx, hcall, hroom₁, hindex⟩
    · rw [hindex] at h
      cases h
    · rw [hindex] at h
      have hless : HasRoom cf rest.length := by
        obtain ⟨hrows, htotal⟩ := hroom
        rw [List.length_cons] at hrows htotal
        refine ⟨by omega, fun row hrow => ?_⟩
        obtain ⟨n, hn, hlt⟩ := htotal row hrow
        exact ⟨n, hn, by omega⟩
      obtain ⟨hafter, hflag⟩ := ih hrest hless h
      exact ⟨hafter.cons_error hdecode, fun hup => by cases (hflag hup).1⟩
    · rw [hindex] at h
      obtain ⟨hafter, hflag⟩ := ih hrest hroom₁ h
      refine ⟨hafter.cons_ok hdecode htx hheight hidx hcall, fun hup => ?_⟩
      obtain ⟨hwritten, hall⟩ := hflag hup
      refine ⟨hwritten, fun w hw => ?_⟩
      rcases List.mem_cons.mp hw with rfl | hw
      · exact ⟨read, hdecode⟩
      · exact hall w hw

/-- When every entry decodes the loop comes to its end with the flag as it was. -/
theorem indexBlock_ok {fuel : Nat} (height timestamp : UInt64) {data : List Bytes}
    (hanswers : ∀ wire ∈ data, FoundByHash o rpc wire)
    (hdecodes : ∀ wire ∈ data, ∃ read,
      decode_eld_tx_from_block_tx_bytes o s d fuel wire = some (.ok read)) (k : Nat)
    {cf : IndexedTransactions} (hroom : HasRoom cf data.length) (written : Bool) :
    ∃ cf', indexBlock o s d rpc fuel height timestamp k data cf written = some (cf', written) := by
  induction data generalizing k cf with
  | nil => exact ⟨_, rfl⟩
  | cons wire rest ih =>
    have hrest := fun w hw => hanswers w (List.mem_cons_of_mem _ hw)
    obtain ⟨read, hread⟩ := hdecodes wire List.mem_cons_self
    rw [indexBlock]
    rcases index_tx_cases s d fuel hroom (hanswers wire List.mem_cons_self) height
      (UInt32.ofNat k) timestamp with
      ⟨hdecode, _⟩ | ⟨e, hdecode, _⟩ | ⟨_, _, call, cf₁, _, _, _, _, hroom₁, hindex⟩
    · rw [hread] at hdecode
      cases hdecode
    · rw [hread] at hdecode
      cases hdecode
    · rw [hindex]
      exact ih hrest (fun w hw => hdecodes w (List.mem_cons_of_mem _ hw)) (k + 1) hroom₁

/-! ## One pass -/

theorem next_height_toNat {cursor : Option UInt64} {data : List Bytes}
    (h : rpc.get_block (next_height cursor) = .ok data) :
    (next_height cursor).toNat = (cursor.getD 0).toNat + 1 := by
  have hlt : (next_height cursor).toNat < 2 ^ 63 := by
    by_contra hnot
    rw [TendermintRpc.get_block, if_neg hnot] at h
    cases h
  cases cursor with
  | none => rfl
  | some height =>
    have hone : (1 : UInt64).toNat = 1 := rfl
    have hheight := height.toNat_lt
    unfold next_height UInt64.saturating_add at hlt ⊢
    rw [UInt64.toNat_ofNat', hone] at hlt ⊢
    rw [Option.getD_some]
    omega

/-- The fuel that reading all entries of a block takes. -/
theorem exists_fuel {data : List Bytes} (h : ∀ wire ∈ data, ∃ tx, Decodes s d wire tx) :
    ∃ fuel, ∀ wire ∈ data, ∃ read,
      decode_eld_tx_from_block_tx_bytes o s d fuel wire = some (.ok read) := by
  induction data with
  | nil => exact ⟨0, fun _ hw => by cases hw⟩
  | cons wire rest ih =>
    obtain ⟨fuel, hfuel⟩ := ih (fun w hw => h w (List.mem_cons_of_mem _ hw))
    obtain ⟨_, fuel', read, hread, _⟩ := h wire List.mem_cons_self
    refine ⟨max fuel fuel', fun w hw => ?_⟩
    rcases List.mem_cons.mp hw with rfl | hw
    · exact ⟨read, decode_mono (Nat.le_max_right _ _) hread⟩
    · obtain ⟨read', hread'⟩ := hfuel w hw
      exact ⟨read', decode_mono (Nat.le_max_left _ _) hread'⟩

/-- The block after the cursor is in the index: the cursor has moved by one, and each entry
that decodes has its record, and its row at its position. -/
structure Passed (o : Outside) (s : SerdeJson) (d : WireDecoders o) (cursor : Option UInt64)
    (data : List Bytes) (cf' : IndexedTransactions) : Prop where
  moved : ∃ height, get_indexer_cursor cf' = .ok (some height) ∧
    height.toNat = (cursor.getD 0).toNat + 1
  recorded : ∀ wire ∈ data, ∀ tx, Decodes s d wire tx → HasRecord cf' (calculate_tx_id o tx)
  positions : data.length ≤ 2 ^ 32 → ∀ i wire tx, data[i]? = some wire → Decodes s d wire tx →
    cf'[block_position_chron_index_key (next_height cursor) (UInt32.ofNat i)]? =
      some (.tx_id (calculate_tx_id o tx))

theorem get_set_cursor (cf : IndexedTransactions) (height : UInt64) :
    get_indexer_cursor (set_indexer_cursor cf height) = .ok (some height) := by
  unfold get_indexer_cursor set_indexer_cursor
  rw [ExtTreeMap.getElem?_insert_self]

/-- What a pass over a block is, once the cursor and the block are read. -/
theorem sync_pass_eq (s : SerdeJson) (d : WireDecoders o) (rpc : TendermintRpc) (fuel : Nat)
    {cf : IndexedTransactions} {cursor : Option UInt64} {data : List Bytes} (timestamp : UInt64)
    (hcursor : get_indexer_cursor cf = .ok cursor)
    (hblock : rpc.get_block (next_height cursor) = .ok data) :
    sync_pass o s d rpc fuel cf timestamp =
      (indexBlock o s d rpc fuel (next_height cursor) timestamp 0 data cf true).map (fun r =>
        if r.2 then set_indexer_cursor r.1 (next_height cursor) else r.1) := by
  unfold sync_pass
  simp only [hcursor, hblock]

/-- A pass that moves the cursor has decoded every entry. -/
theorem decodes_of_passed {cf : IndexedTransactions} {cursor : Option UInt64} {data : List Bytes}
    {timestamp : UInt64} (hcursor : get_indexer_cursor cf = .ok cursor)
    (hblock : rpc.get_block (next_height cursor) = .ok data)
    (hanswers : ∀ wire ∈ data, FoundByHash o rpc wire) (hroom : HasRoom cf data.length) {fuel : Nat}
    {cf' : IndexedTransactions} (hrun : sync_pass o s d rpc fuel cf timestamp = some cf')
    (hpassed : Passed o s d cursor data cf') : ∀ wire ∈ data, ∃ tx, Decodes s d wire tx := by
  rw [sync_pass_eq s d rpc fuel timestamp hcursor hblock] at hrun
  obtain ⟨⟨cf₁, flag⟩, hindex, hmoved⟩ := Option.map_eq_some_iff.mp hrun
  obtain ⟨hafter, hflag⟩ := indexBlock_spec hanswers hroom hindex
  cases flag with
  | true =>
    intro wire hwire
    obtain ⟨read, hread⟩ := (hflag rfl).2 wire hwire
    exact ⟨read.val, fuel, read, hread, rfl⟩
  | false =>
    -- the cursor stands where it was
    cases hmoved
    obtain ⟨height, hheight, hmore⟩ := hpassed.moved
    have hsame : get_indexer_cursor cf₁ = get_indexer_cursor cf := by
      unfold get_indexer_cursor
      rw [hafter.cursor]
    have hfixed : (Except.ok (some height) : Except EldError (Option UInt64)) = .ok cursor := by
      rw [← hheight, ← hcursor]
      exact hsame
    cases hfixed
    rw [Option.getD_some] at hmore
    omega

/-- A block whose entries all decode is passed. -/
theorem passed_of_decodes {cf : IndexedTransactions} {cursor : Option UInt64} {data : List Bytes}
    (timestamp : UInt64) (hcursor : get_indexer_cursor cf = .ok cursor)
    (hblock : rpc.get_block (next_height cursor) = .ok data)
    (hanswers : ∀ wire ∈ data, FoundByHash o rpc wire) (hroom : HasRoom cf data.length)
    (hall : ∀ wire ∈ data, ∃ tx, Decodes s d wire tx) :
    ∃ fuel cf', sync_pass o s d rpc fuel cf timestamp = some cf' ∧
      Passed o s d cursor data cf' := by
  have hnext := next_height_toNat hblock
  obtain ⟨fuel, hfuel⟩ := exists_fuel hall
  obtain ⟨cf₁, hindex⟩ :=
    indexBlock_ok (next_height cursor) timestamp hanswers hfuel 0 hroom true
  obtain ⟨hafter, _⟩ := indexBlock_spec hanswers hroom hindex
  have hread : ∀ wire ∈ data, ∀ tx, Decodes s d wire tx → ∃ read : ReadTx o,
      decode_eld_tx_from_block_tx_bytes o s d fuel wire = some (.ok read) ∧ read.val = tx := by
    intro wire hwire tx hdecodes
    obtain ⟨fuel', read', hread', rfl⟩ := hdecodes
    obtain ⟨read, hread⟩ := hfuel wire hwire
    have hsame : read = read' := Except.ok.inj (decode_unique hread hread')
    exact ⟨read, hread, congrArg Subtype.val hsame⟩
  have hkept : ∀ key, key ≠ INDEXER_CURSOR_KEY →
      (set_indexer_cursor cf₁ (next_height cursor))[key]? = cf₁[key]? :=
    fun key hne => finite_map.get_insert_of_ne cf₁ _ hne.symm
  refine ⟨fuel, set_indexer_cursor cf₁ (next_height cursor), ?_, ?_, ?_, ?_⟩
  · rw [sync_pass_eq s d rpc fuel timestamp hcursor hblock, hindex]
    rfl
  · exact ⟨next_height cursor, get_set_cursor _ _, hnext⟩
  · intro wire hwire tx hdecodes
    obtain ⟨read, hread, rfl⟩ := hread wire hwire tx hdecodes
    obtain ⟨row, hrow⟩ := hafter.recorded wire hwire read hread
    refine ⟨row, ?_⟩
    rw [hkept _ (by rintro heq; cases congrArg List.head? heq)]
    exact hrow
  · intro hlength i wire tx hwire hdecodes
    obtain ⟨read, hread, rfl⟩ := hread wire (List.mem_of_getElem? hwire) tx hdecodes
    have hrow := hafter.positions (by omega) i wire read hwire hread
    rw [Nat.zero_add] at hrow
    rw [hkept _ (by rintro heq; cases congrArg List.head? heq)]
    exact hrow

/-- One pass moves the cursor and indexes the block exactly when every entry of the block
decodes. -/
theorem block_is_passed_iff (s : SerdeJson) (d : WireDecoders o) (rpc : TendermintRpc)
    {cf : IndexedTransactions} {cursor : Option UInt64} {data : List Bytes} (timestamp : UInt64)
    (hcursor : get_indexer_cursor cf = .ok cursor)
    (hblock : rpc.get_block (next_height cursor) = .ok data)
    (hanswers : ∀ wire ∈ data, FoundByHash o rpc wire) (hroom : HasRoom cf data.length) :
    (∃ fuel cf', sync_pass o s d rpc fuel cf timestamp = some cf' ∧
      Passed o s d cursor data cf') ↔ ∀ wire ∈ data, ∃ tx, Decodes s d wire tx := by
  constructor
  · rintro ⟨fuel, cf', hrun, hpassed⟩
    exact decodes_of_passed hcursor hblock hanswers hroom hrun hpassed
  · exact passed_of_decodes timestamp hcursor hblock hanswers hroom

/-! ## Two first blocks -/

/-- Decoders that know no base64 and no text that is not UTF-8. -/
def plainDecoders : WireDecoders Outside.toy := ⟨fun _ => .error "invalid unicode"⟩

/-- A chain whose first block holds one entry. -/
def firstBlockOf (wire : Bytes) (code : UInt32) : TendermintRpc where
  block height :=
    if height = 1 then .ok [wire] else .error (.NetworkError "get_block" "height is not available")
  tx hash :=
    if hash = wire_bytes_to_tx_hash Outside.toy wire then .ok ⟨wire, code, smallHeight 0, []⟩
    else .error (.NetworkError "get_tx_by_hash" "tx not found")

theorem firstBlockOf_block (wire : Bytes) (code : UInt32) :
    (firstBlockOf wire code).get_block (next_height none) = .ok [wire] := by
  have hlt : (next_height none).toNat < 2 ^ 63 := by decide
  rw [TendermintRpc.get_block, if_pos hlt]
  rfl

theorem firstBlockOf_answers (wire : Bytes) (code : UInt32) :
    ∀ w ∈ [wire], FoundByHash Outside.toy (firstBlockOf wire code) w := by
  intro w hw
  rw [List.mem_singleton.mp hw]
  exact ⟨_, if_pos rfl, rfl⟩

theorem empty_hasRoom (wire : Bytes) : HasRoom ∅ [wire].length := by
  refine ⟨by rw [List.length_singleton]; decide, fun row hrow => ?_⟩
  cases hrow

theorem registration_block_is_passed :
    ∃ fuel cf', sync_pass Outside.toy .plain plainDecoders
        (firstBlockOf (hex_encode_tx registration) 0) fuel ∅ 0 = some cf' ∧
      Passed Outside.toy .plain plainDecoders none [hex_encode_tx registration] cf' := by
  refine (block_is_passed_iff .plain plainDecoders _ 0 rfl (firstBlockOf_block _ 0)
    (firstBlockOf_answers _ 0) (empty_hasRoom _)).mpr (fun wire hwire => ?_)
  rw [List.mem_singleton.mp hwire]
  exact ⟨registration, decodes_of_deliverDecode deliverDecode_registration⟩

/-- An opening brace: DeliverTx rejects it, and the block that holds it is committed. -/
def openBrace : Bytes := Text.bytes "\x7b".toList

theorem openBrace_decodes_not :
    ¬ ∃ tx, Decodes .plain plainDecoders openBrace tx := by
  rintro ⟨tx, fuel, read, hread, _⟩
  have hutf8 : from_utf8 openBrace = .ok "\x7b".toList := from_utf8_bytes _
  have hjson : SerdeJson.plain.from_str_tx Outside.toy "\x7b".toList =
      .error "expected value at line 1 column 1" := rfl
  have hwire : ∀ r, decode_eld_tx_from_wire Outside.toy .plain openBrace ≠ .ok r := by
    intro r hr
    obtain ⟨hex_str, hhex, bytes, hbytes, _⟩ := wire_eq_ok.mp hr
    rw [hutf8] at hhex
    cases hhex
    cases hbytes
  have htext : ∀ r, SerdeJson.plain.read_tx Outside.toy "\x7b".toList ≠ .ok r := by
    intro r hr
    rw [read_tx_eq_ok, hjson] at hr
    cases hr
  cases fuel with
  | zero => cases hread
  | succ fuel =>
    rw [decode_eld_tx_from_block_tx_bytes] at hread
    cases hw : decode_eld_tx_from_wire Outside.toy .plain openBrace with
    | ok r => exact hwire r hw
    | error e =>
      cases hj : SerdeJson.plain.read_tx Outside.toy "\x7b".toList with
      | ok r => exact htext r hj
      | error e' =>
        rw [hw] at hread
        simp only [hutf8, hj, plainDecoders, from_slice_tx] at hread
        cases hread

/-- The block is never passed, though Tendermint answers every call. -/
theorem openBrace_block_is_not_passed :
    (∃ e, deliverDecode Outside.toy smallConstants .plain openBrace = .error e) ∧
    (firstBlockOf openBrace 71).get_block (next_height none) = .ok [openBrace] ∧
    (∀ wire ∈ [openBrace], FoundByHash Outside.toy (firstBlockOf openBrace 71) wire) ∧
    ¬ ∃ fuel cf', sync_pass Outside.toy .plain plainDecoders (firstBlockOf openBrace 71) fuel ∅ 0 =
        some cf' ∧ Passed Outside.toy .plain plainDecoders none [openBrace] cf' := by
  refine ⟨?_, firstBlockOf_block _ 71, firstBlockOf_answers _ 71, ?_⟩
  · cases hdecode : deliverDecode Outside.toy smallConstants .plain openBrace with
    | error e => exact ⟨e, rfl⟩
    | ok tx =>
      exact absurd ⟨tx, decodes_of_deliverDecode hdecode⟩ openBrace_decodes_not
  · rintro ⟨fuel, cf', hrun, hpassed⟩
    exact openBrace_decodes_not (decodes_of_passed rfl (firstBlockOf_block _ 71)
      (firstBlockOf_answers _ 71) (empty_hasRoom _) hrun hpassed openBrace
      (List.mem_singleton_self _))

end eld_chain
