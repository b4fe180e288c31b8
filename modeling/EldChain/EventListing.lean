-- When the listing of events is chronological. The rows are in the order of
-- their keys, and plain decimals are not in the order of their numbers, so a
-- page is right exactly when its offset fits 32 bits, no event stands at two
-- places of the chain, and the two orders agree on the page.
import EldChain.EventIndex
import EldChain.IndexKeys
import EldChain.Library.FiniteMaps
import EldChain.Library.LastWrites
import EldChain.Library.Selection

open Std

namespace eld_chain

open finite_map last_writes selection

/-! ## Keys -/

theorem colon_notMem_digits (n : Nat) : ':' ∉ Nat.toDigits 10 n := by
  intro hc
  have := Nat.isDigit_of_mem_toDigits (by decide) (by decide) hc
  exact absurd this (by decide)

theorem toDigits_inj {m n : Nat} (h : Nat.toDigits 10 m = Nat.toDigits 10 n) : m = n := by
  rw [← Nat.ofDigitChars_ten_toDigits (n := m), h, Nat.ofDigitChars_ten_toDigits]

/-- A number up to a colon, and what follows it. -/
theorem digits_colon_inj {m n : Nat} {l l' : Text}
    (h : Nat.toDigits 10 m ++ ':' :: l = Nat.toDigits 10 n ++ ':' :: l') : m = n ∧ l = l' := by
  have hsplit := congrArg (split_once ':') h
  rw [split_once_append (colon_notMem_digits m), split_once_append (colon_notMem_digits n)] at hsplit
  obtain ⟨hdigits, hrest⟩ := Prod.mk.inj (Option.some.inj hsplit)
  exact ⟨toDigits_inj hdigits, hrest⟩

namespace EventCall

/-- The place of an event in the chain as one number: later places are larger. -/
def position (call : EventCall) : Nat :=
  positionOf call.block_height call.block_index * 2 ^ 32 + call.event_index.toNat

theorem position_eq_iff {a b : EventCall} : a.position = b.position ↔
    a.block_height = b.block_height ∧ a.block_index = b.block_index ∧
      a.event_index = b.event_index := by
  have ha := a.event_index.toNat_lt
  have hb := b.event_index.toNat_lt
  unfold position
  constructor
  · intro h
    have hslot : positionOf a.block_height a.block_index = positionOf b.block_height b.block_index := by
      omega
    have hevent : a.event_index.toNat = b.event_index.toNat := by omega
    obtain ⟨hheight, hindex⟩ := positionOf_inj hslot
    exact ⟨hheight, hindex, UInt32.toNat_inj.mp hevent⟩
  · rintro ⟨hheight, hindex, hevent⟩
    rw [hheight, hindex, hevent]

theorem block_key_eq_iff {a b : EventCall} : a.block_key = b.block_key ↔ a.position = b.position := by
  rw [position_eq_iff]
  unfold block_key event_block_index_key
  constructor
  · intro h
    simp only [List.append_assoc, List.append_cancel_left_eq] at h
    obtain ⟨hheight, hrest⟩ := @digits_colon_inj _ _ ("block_index:".toList ++ _)
      ("block_index:".toList ++ _) h
    rw [List.append_cancel_left_eq] at hrest
    obtain ⟨hindex, hrest⟩ := @digits_colon_inj _ _ ("event_index:".toList ++ _)
      ("event_index:".toList ++ _) hrest
    rw [List.append_cancel_left_eq] at hrest
    exact ⟨UInt64.toNat_inj.mp hheight, UInt32.toNat_inj.mp hindex,
      UInt32.toNat_inj.mp (toDigits_inj hrest)⟩
  · rintro ⟨hheight, hindex, hevent⟩
    rw [hheight, hindex, hevent]

/-- The number of an event is what follows the last colon of its key. -/
theorem primary_key_eq_iff {a b : EventCall} :
    a.primary_key = b.primary_key ↔ a.tx_id = b.tx_id ∧ a.event_index = b.event_index := by
  unfold primary_key event_primary_key
  constructor
  · intro h
    have hlast : ∀ (t : Text) (n : Nat),
        split_once ':' ("tx_id:".toList ++ t ++ ":event_index:".toList ++ Nat.toDigits 10 n).reverse =
          some ((Nat.toDigits 10 n).reverse, "xedni_tneve:".toList ++ t.reverse ++ ":di_xt".toList) := by
      intro t n
      rw [List.reverse_append, List.reverse_append, List.reverse_append]
      have hcolon : ':' ∉ (Nat.toDigits 10 n).reverse :=
        fun hc => colon_notMem_digits n (List.mem_reverse.mp hc)
      rw [← split_once_append hcolon]
      simp
    have hboth := congrArg (fun t => split_once ':' t.reverse) h
    simp only [hlast, Option.some.injEq, Prod.mk.injEq, List.reverse_inj,
      List.append_cancel_right_eq, List.append_cancel_left_eq] at hboth
    exact ⟨hboth.2, UInt32.toNat_inj.mp (toDigits_inj hboth.1)⟩
  · rintro ⟨htx, hevent⟩
    rw [htx, hevent]

end EventCall

theorem contains_text_append (l sub r : Text) : Text.contains_text (l ++ (sub ++ r)) sub = true := by
  unfold Text.contains_text
  rw [List.any_eq_true]
  refine ⟨sub ++ r, ?_, List.isPrefixOf_iff_prefix.mpr (List.prefix_append _ _)⟩
  rw [List.mem_tails]
  exact List.suffix_append _ _

theorem is_block_index_key_block (call : EventCall) : is_block_index_key call.block_key = true := by
  have hindex : Text.contains_text call.block_key ":block_index:".toList = true := by
    unfold EventCall.block_key event_block_index_key
    rw [List.append_assoc, List.append_assoc, List.append_assoc]
    exact contains_text_append _ _ _
  have hevent : Text.contains_text call.block_key ":event_index:".toList = true := by
    unfold EventCall.block_key event_block_index_key
    rw [List.append_assoc]
    exact contains_text_append _ _ _
  have hlead : "block_height:".toList.isPrefixOf call.block_key = true := by
    unfold EventCall.block_key event_block_index_key
    simp only [List.append_assoc]
    exact List.isPrefixOf_iff_prefix.mpr (List.prefix_append _ _)
  rw [is_block_index_key, hindex, hevent, hlead]
  rfl

theorem is_block_index_key_primary (call : EventCall) :
    is_block_index_key call.primary_key = false := rfl

theorem is_block_index_key_type (call : EventCall) : is_block_index_key call.type_key = false := rfl

theorem type_key_ne_primary (a b : EventCall) : a.type_key ≠ b.primary_key := by
  intro h
  have hy : a.type_key[1]? = some 'y' := rfl
  have hx : b.primary_key[1]? = some 'x' := rfl
  rw [h, hx] at hy
  cases hy

/-! ## The rows of a run -/

/-- What the column family holds after some calls: each event as its last call gave it, and
under each place of the chain the key of the last event that was put there. -/
structure HoldsEvents (calls : List EventCall) (cf : IndexedEvents) : Prop where
  events : ∀ call : EventCall, cf[call.primary_key]? =
    (lastBy EventCall.primary_key calls call.primary_key).map (fun c => .event c.indexed_event)
  blocks : ∀ key, is_block_index_key key = true → cf[key]? =
    (lastBy EventCall.block_key calls key).map (fun c => .primary_key c.primary_key)

theorem holdsEvents_empty : HoldsEvents [] ∅ :=
  ⟨fun _ => ExtTreeMap.getElem?_empty, fun _ _ => ExtTreeMap.getElem?_empty⟩

theorem HoldsEvents.step {calls : List EventCall} {cf : IndexedEvents} (h : HoldsEvents calls cf)
    (call : EventCall) : HoldsEvents (calls ++ [call]) (index_event cf call) := by
  unfold index_event
  constructor
  · intro c
    have hblock : call.block_key ≠ c.primary_key := by
      intro heq
      have hkind := is_block_index_key_block call
      rw [heq, is_block_index_key_primary] at hkind
      cases hkind
    rw [get_insert_of_ne _ _ hblock, get_insert_of_ne _ _ (type_key_ne_primary call c), get_insert,
      lastBy_snoc, h.events c]
    by_cases hsame : call.primary_key = c.primary_key
    · rw [if_pos hsame, if_pos hsame, Option.map_some]
    · rw [if_neg hsame, if_neg hsame]
  · intro key hkey
    have hprimary : call.primary_key ≠ key := by
      rintro rfl
      rw [is_block_index_key_primary] at hkey
      cases hkey
    have htype : call.type_key ≠ key := by
      rintro rfl
      rw [is_block_index_key_type] at hkey
      cases hkey
    rw [get_insert, get_insert_of_ne _ _ htype, get_insert_of_ne _ _ hprimary, lastBy_snoc,
      h.blocks key hkey]
    by_cases hsame : call.block_key = key
    · rw [if_pos hsame, if_pos hsame, Option.map_some]
    · rw [if_neg hsame, if_neg hsame]

theorem holdsEvents (calls : List EventCall) : HoldsEvents calls (indexedEvents calls) := by
  induction calls using List.reverseRecOn with
  | nil => exact holdsEvents_empty
  | append_singleton calls call ih =>
    unfold indexedEvents
    rw [List.foldl_append]
    exact ih.step call

/-! ## The rows in their order -/

/-- The last calls at their places, in the falling order of their keys. -/
def byKey (calls : List EventCall) : List EventCall :=
  (keepLast EventCall.block_key calls).insertionSort
    (fun a b => (reversed compare a.block_key b.block_key).isLE = true)

theorem strict_byKey (calls : List EventCall) :
    Strict (fun a b => compare b.block_key a.block_key = .lt) (byKey calls) :=
  @strict_sorted_by_key Text EventCall (reversed compare) _ _ EventCall.block_key _
    (nodup_keepLast calls)

theorem mem_byKey {calls : List EventCall} {call : EventCall} :
    call ∈ byKey calls ↔ lastBy EventCall.block_key calls call.block_key = some call := by
  unfold byKey
  rw [List.mem_insertionSort, mem_keepLast]

/-- The rows that the loop counts are those of the last calls at their places. -/
theorem block_rows_eq {calls : List EventCall} {cf : IndexedEvents} (h : HoldsEvents calls cf) :
    cf.toList.reverse.filter (fun row => is_block_index_key row.1) =
      (byKey calls).map (fun c => (c.block_key, .primary_key c.primary_key)) := by
  have hrows : Strict (fun a b : Text × EventRow => compare b.1 a.1 = .lt)
      (cf.toList.reverse.filter (fun row => is_block_index_key row.1)) := by
    refine ⟨List.Pairwise.filter _ (List.pairwise_reverse.mpr ExtTreeMap.ordered_keys_toList), ?_⟩
    exact fun _ _ hxy hyx => OrientedCmp.not_lt_of_lt hxy hyx
  have hcalls : Strict (fun a b : Text × EventRow => compare b.1 a.1 = .lt)
      ((byKey calls).map (fun c => (c.block_key, .primary_key c.primary_key))) :=
    ⟨List.pairwise_map.mpr (strict_byKey calls).sorted, hrows.asymm⟩
  refine hrows.ext hcalls (fun row => ?_)
  rw [List.mem_filter, List.mem_reverse, mem_toList, List.mem_map]
  constructor
  · rintro ⟨hread, hkey⟩
    rw [h.blocks _ hkey] at hread
    obtain ⟨call, hlast, hvalue⟩ := Option.map_eq_some_iff.mp hread
    have hplace := (lastBy_eq_some hlast).2
    refine ⟨call, mem_byKey.mpr ?_, Prod.ext hplace hvalue⟩
    rw [hplace]
    exact hlast
  · rintro ⟨call, hcall, rfl⟩
    have hkey := is_block_index_key_block call
    refine ⟨?_, hkey⟩
    rw [h.blocks _ hkey, mem_byKey.mp hcall]
    rfl

/-! ## The loop -/

/-- The event that the row of a call leads to: as the last call of its event gave it. -/
def lastRecord (calls : List EventCall) (call : EventCall) : IndexedEvent :=
  ((lastBy EventCall.primary_key calls call.primary_key).getD call).indexed_event

theorem row_of_other {cf : IndexedEvents} {offset limit : Nat} (scan : EventScan)
    {row : Text × EventRow} (h : is_block_index_key row.1 = false) :
    scan.row cf offset limit row = .ok scan := by
  unfold EventScan.row
  simp only [h, Bool.false_eq_true, if_false]

/-- The loop passes over every other row. -/
theorem scan_filter (cf : IndexedEvents) (offset limit : Nat) (rows : List (Text × EventRow))
    (scan : EventScan) :
    rows.foldlM (EventScan.row cf offset limit) scan =
      (rows.filter (fun row => is_block_index_key row.1)).foldlM
        (EventScan.row cf offset limit) scan := by
  induction rows generalizing scan with
  | nil => rfl
  | cons row rows ih =>
    cases hkey : is_block_index_key row.1 with
    | true =>
      rw [List.filter_cons_of_pos (p := fun r : Text × EventRow => is_block_index_key r.1) hkey, List.foldlM_cons, List.foldlM_cons]
      congr 1
      funext scan'
      exact ih scan'
    | false =>
      rw [List.filter_cons_of_neg (by simp [hkey]), List.foldlM_cons, row_of_other scan hkey]
      exact ih scan

/-- The row of a call: it is counted, and then passed over, shown or left. -/
theorem row_of_call {calls : List EventCall} {cf : IndexedEvents} (h : HoldsEvents calls cf)
    {call : EventCall} (hcall : call ∈ calls) (offset limit : Nat) (scan : EventScan) :
    scan.row cf offset limit (call.block_key, .primary_key call.primary_key) =
      if scan.skipped < offset then
        .ok ⟨scan.events, scan.count + 1, scan.skipped + 1⟩
      else if scan.events.length < limit then
        .ok ⟨scan.events ++ [lastRecord calls call], scan.count + 1, scan.skipped⟩
      else .ok ⟨scan.events, scan.count + 1, scan.skipped⟩ := by
  obtain ⟨last, hlast⟩ := lastBy_of_mem (f := EventCall.primary_key) hcall
  have hread := h.events call
  rw [hlast] at hread
  have hrecord : lastRecord calls call = last.indexed_event := by
    rw [lastRecord, hlast]
    rfl
  unfold EventScan.row
  simp only [is_block_index_key_block, if_true, hread, Option.map_some, hrecord]

/-- Over the rows of some calls the loop passes over as many as the offset still asks for and
shows the next ones. -/
theorem scan_calls {calls : List EventCall} {cf : IndexedEvents} (h : HoldsEvents calls cf)
    (offset limit : Nat) {rows : List EventCall} (hrows : ∀ call ∈ rows, call ∈ calls)
    (scan : EventScan) :
    (rows.map (fun c => (c.block_key, EventRow.primary_key c.primary_key))).foldlM
        (EventScan.row cf offset limit) scan =
      .ok ⟨scan.events ++ ((rows.drop (offset - scan.skipped)).take
          (limit - scan.events.length)).map (lastRecord calls),
        scan.count + rows.length, scan.skipped + min rows.length (offset - scan.skipped)⟩ := by
  induction rows generalizing scan with
  | nil => simp [pure, Except.pure]
  | cons call rows ih =>
    have hrest := fun c hc => hrows c (List.mem_cons_of_mem _ hc)
    rw [List.map_cons, List.foldlM_cons, row_of_call h (hrows call List.mem_cons_self)]
    by_cases hskip : scan.skipped < offset
    · have hleft : offset - scan.skipped = offset - (scan.skipped + 1) + 1 := by omega
      rw [if_pos hskip, hleft, List.drop_succ_cons]
      refine (ih hrest _).trans (congrArg Except.ok ?_)
      simp only [EventScan.mk.injEq, List.length_cons, true_and]
      omega
    · have hnone : offset - scan.skipped = 0 := by omega
      rw [if_neg hskip, hnone, List.drop_zero]
      by_cases hroom : scan.events.length < limit
      · have hleft : limit - scan.events.length = limit - (scan.events.length + 1) + 1 := by omega
        rw [if_pos hroom, hleft, List.take_succ_cons, List.map_cons]
        refine (ih hrest _).trans (congrArg Except.ok ?_)
        simp only [EventScan.mk.injEq, hnone, List.drop_zero, List.length_append,
          List.append_assoc, List.singleton_append, List.length_cons, Nat.min_zero, Nat.add_zero,
          and_true]
        exact ⟨rfl, by omega⟩
      · have hfull : limit - scan.events.length = 0 := by omega
        rw [if_neg hroom, hfull, List.take_zero, List.map_nil, List.append_nil]
        refine (ih hrest _).trans (congrArg Except.ok ?_)
        simp only [EventScan.mk.injEq, hnone, hfull, List.take_zero, List.map_nil,
          List.append_nil, List.length_cons, Nat.min_zero, Nat.add_zero, true_and, and_true]
        omega

/-- What the listing gives: a slice of the events in the order of their keys, and the number of
places. -/
theorem get_all_events_eq (calls : List EventCall) (page limit : UInt32) :
    get_all_events (indexedEvents calls) page limit =
      .ok ((((byKey calls).drop ((page - 1) * limit).toNat).take limit.toNat).map
        (lastRecord calls), (keepLast EventCall.block_key calls).length) := by
  have h := holdsEvents calls
  have hin : ∀ call ∈ byKey calls, call ∈ calls :=
    fun call hcall => (lastBy_eq_some (mem_byKey.mp hcall)).1
  have hlen : (byKey calls).length = (keepLast EventCall.block_key calls).length :=
    List.length_insertionSort _ _
  unfold get_all_events
  simp only [scan_filter, block_rows_eq h, scan_calls h _ _ hin, Except.map, List.nil_append,
    List.length_nil, Nat.sub_zero, Nat.zero_add, hlen]

/-! ## The chronological order -/

/-- All events, the latest place first. -/
def chronological (calls : List EventCall) : List EventCall :=
  (keepLast EventCall.primary_key calls).insertionSort (fun a b => b.position ≤ a.position)

/-- How many of the events stand at a later place than one. -/
def laterPlaces (calls : List EventCall) (call : EventCall) : Nat :=
  (keepLast EventCall.primary_key calls).countP (fun c => call.position < c.position)

/-- How many of the events have a greater key than one. -/
def greaterKeys (calls : List EventCall) (call : EventCall) : Nat :=
  (keepLast EventCall.primary_key calls).countP
    (fun c => compare call.block_key c.block_key = .lt)

/-- A place of a block holds one transaction. -/
def OneTransactionPerPlace (calls : List EventCall) : Prop :=
  ∀ a ∈ calls, ∀ b ∈ calls, a.block_height = b.block_height → a.block_index = b.block_index →
    a.tx_id = b.tx_id

/-- A transaction whose events are there stands at one place. -/
def OnePlacePerEvent (calls : List EventCall) : Prop :=
  ∀ a ∈ calls, ∀ b ∈ calls, a.tx_id = b.tx_id → a.event_index = b.event_index →
    a.block_height = b.block_height ∧ a.block_index = b.block_index

theorem primary_of_block {calls : List EventCall} (h : OneTransactionPerPlace calls) :
    ∀ a ∈ calls, ∀ b ∈ calls, a.block_key = b.block_key → a.primary_key = b.primary_key := by
  intro a ha b hb hkey
  obtain ⟨hheight, hindex, hevent⟩ :=
    EventCall.position_eq_iff.mp (EventCall.block_key_eq_iff.mp hkey)
  exact EventCall.primary_key_eq_iff.mpr ⟨h a ha b hb hheight hindex, hevent⟩

theorem block_of_primary_iff {calls : List EventCall} : OnePlacePerEvent calls ↔
    ∀ a ∈ calls, ∀ b ∈ calls, a.primary_key = b.primary_key → a.block_key = b.block_key := by
  constructor
  · intro h a ha b hb hkey
    obtain ⟨htx, hevent⟩ := EventCall.primary_key_eq_iff.mp hkey
    obtain ⟨hheight, hindex⟩ := h a ha b hb htx hevent
    exact EventCall.block_key_eq_iff.mpr (EventCall.position_eq_iff.mpr ⟨hheight, hindex, hevent⟩)
  · intro h a ha b hb htx hevent
    have hkey := h a ha b hb (EventCall.primary_key_eq_iff.mpr ⟨htx, hevent⟩)
    obtain ⟨hheight, hindex, _⟩ :=
      EventCall.position_eq_iff.mp (EventCall.block_key_eq_iff.mp hkey)
    exact ⟨hheight, hindex⟩

/-- In a chain the events are as many as their places exactly when none has two. -/
theorem places_eq_events_iff {calls : List EventCall} (h : OneTransactionPerPlace calls) :
    (keepLast EventCall.block_key calls).length = (keepLast EventCall.primary_key calls).length ↔
      OnePlacePerEvent calls := by
  rw [length_keepLast_eq_iff (primary_of_block h), block_of_primary_iff]

theorem strict_chronological {calls : List EventCall} (h : OneTransactionPerPlace calls) :
    Strict (fun a b : EventCall => b.position < a.position) (chronological calls) := by
  have hnodup : ((keepLast EventCall.primary_key calls).map EventCall.position).Nodup := by
    refine List.Nodup.map_on ?_ (List.Nodup.of_map _ (nodup_keepLast calls))
    intro a ha b hb hplace
    refine List.inj_on_of_nodup_map (nodup_keepLast calls) ha hb ?_
    exact primary_of_block h a (mem_of_keepLast ha) b (mem_of_keepLast hb)
      (EventCall.block_key_eq_iff.mpr hplace)
  exact strict_falling EventCall.position hnodup

/-! ## The two orders -/

/-- Where an event has one place, the rows lead to the events themselves. -/
theorem mem_byKey_iff {calls : List EventCall} (htx : OneTransactionPerPlace calls)
    (hplace : OnePlacePerEvent calls) (call : EventCall) :
    call ∈ byKey calls ↔ call ∈ chronological calls := by
  have hsame : call ∈ calls → lastBy EventCall.block_key calls call.block_key =
      lastBy EventCall.primary_key calls call.primary_key := by
    intro hcall
    apply lastBy_congr
    intro c hc
    exact ⟨primary_of_block htx c hc call hcall, block_of_primary_iff.mp hplace c hc call hcall⟩
  unfold chronological
  rw [mem_byKey, List.mem_insertionSort, mem_keepLast]
  constructor
  · intro h
    rw [← hsame (lastBy_eq_some h).1]
    exact h
  · intro h
    rw [hsame (lastBy_eq_some h).1]
    exact h

theorem lastRecord_of_chronological {calls : List EventCall} {call : EventCall}
    (h : call ∈ chronological calls) : lastRecord calls call = call.indexed_event := by
  unfold chronological at h
  rw [List.mem_insertionSort, mem_keepLast] at h
  rw [lastRecord, h, Option.getD_some]

theorem indexed_event_injective : Function.Injective EventCall.indexed_event := by
  rintro ⟨tx_id, event_index, ⟨event_type, attributes⟩, block_height, block_index, timestamp⟩
    ⟨tx_id', event_index', ⟨event_type', attributes'⟩, block_height', block_index', timestamp'⟩ h
  unfold EventCall.indexed_event at h
  simp only [IndexedEvent.mk.injEq] at h
  obtain ⟨rfl, rfl, rfl, rfl, rfl, rfl, rfl⟩ := h
  rfl

/-- The number of events to pass over before a page. -/
def pageOffset (page limit : UInt32) : Nat := (page.toNat - 1) * limit.toNat

theorem wrapped_offset {page limit : UInt32} (hpage : 1 ≤ page.toNat) :
    ((page - 1) * limit).toNat = pageOffset page limit % 2 ^ 32 := by
  have hsub : (page - 1).toNat = page.toNat - 1 := UInt32.toNat_sub_of_le _ _ hpage
  rw [UInt32.toNat_mul, hsub]
  rfl

/-- The listing of a page is chronological: its offset does not overflow, and it shows the
events at its places in the order of the chain, and their number. -/
def ListsChronologically (calls : List EventCall) (page limit : UInt32) : Prop :=
  pageOffset page limit < 2 ^ 32 ∧
  get_all_events (indexedEvents calls) page limit =
    .ok ((((chronological calls).drop (pageOffset page limit)).take limit.toNat).map
      EventCall.indexed_event, (keepLast EventCall.primary_key calls).length)

/-- The order of the keys is that of the chain on a page: each of its events has as many events
with a greater key as events at a later place. -/
def KeysInOrder (calls : List EventCall) (page limit : UInt32) : Prop :=
  ∀ call ∈ keepLast EventCall.primary_key calls,
    pageOffset page limit ≤ laterPlaces calls call →
    laterPlaces calls call < pageOffset page limit + limit.toNat →
    greaterKeys calls call = laterPlaces calls call

/-- The slice of the keys' order is that of the chain's exactly when the keys are in order
there. -/
theorem slice_eq_iff_keysInOrder {calls : List EventCall} (htx : OneTransactionPerPlace calls)
    (hplace : OnePlacePerEvent calls) (page limit : UInt32) :
    ((byKey calls).drop (pageOffset page limit)).take limit.toNat =
        ((chronological calls).drop (pageOffset page limit)).take limit.toNat ↔
      KeysInOrder calls page limit := by
  have hmem := mem_byKey_iff htx hplace
  have hperm : (byKey calls).Perm (chronological calls) := by
    refine (List.perm_ext_iff_of_nodup ?_ ?_).mpr hmem
    · exact (List.perm_insertionSort _ _).nodup_iff.mpr (List.Nodup.of_map _ (nodup_keepLast calls))
    · exact (List.perm_insertionSort _ _).nodup_iff.mpr (List.Nodup.of_map _ (nodup_keepLast calls))
  have hall : (chronological calls).Perm (keepLast EventCall.primary_key calls) :=
    List.perm_insertionSort _ _
  have hkeys : ∀ call, rank (fun a b => compare b.block_key a.block_key = .lt) (byKey calls) call =
      greaterKeys calls call := fun call => (hperm.trans hall).countP_eq _
  have hplaces : ∀ call, rank (fun a b : EventCall => b.position < a.position)
      (chronological calls) call = laterPlaces calls call := fun call => hall.countP_eq _
  rw [(strict_byKey calls).slice_eq_iff (strict_chronological htx) hmem hperm.length_eq]
  unfold KeysInOrder
  simp only [hkeys, hplaces, hall.mem_iff]

/-- The condition for a page: its offset fits, no event has two places, and the keys are in
order there. -/
theorem listsChronologically_iff {calls : List EventCall} (htx : OneTransactionPerPlace calls)
    {page : UInt32} (limit : UInt32) (hpage : 1 ≤ page.toNat) :
    ListsChronologically calls page limit ↔
      pageOffset page limit < 2 ^ 32 ∧ OnePlacePerEvent calls ∧ KeysInOrder calls page limit := by
  unfold ListsChronologically
  apply and_congr_right
  intro hfits
  rw [get_all_events_eq, wrapped_offset hpage, Nat.mod_eq_of_lt hfits, Except.ok.injEq,
    Prod.mk.injEq, places_eq_events_iff htx, and_comm]
  apply and_congr_right
  intro hplace
  rw [← slice_eq_iff_keysInOrder htx hplace]
  have hrecords : (((byKey calls).drop (pageOffset page limit)).take limit.toNat).map
      (lastRecord calls) = (((byKey calls).drop (pageOffset page limit)).take limit.toNat).map
        EventCall.indexed_event := by
    apply List.map_congr_left
    intro call hcall
    apply lastRecord_of_chronological
    exact (mem_byKey_iff htx hplace call).mp (List.mem_of_mem_drop (List.mem_of_mem_take hcall))
  rw [hrecords]
  exact (List.map_injective_iff.mpr indexed_event_injective).eq_iff

/-! ## Numbers of one width -/

theorem compare_digitChar {d d' : Nat} (hd : d < 10) (hd' : d' < 10) :
    compare (Nat.digitChar d) (Nat.digitChar d') = compare d d' := by
  have hall : ∀ i j : Fin 10, compare (Nat.digitChar i) (Nat.digitChar j) = compare i.val j.val := by
    decide
  exact hall ⟨d, hd⟩ ⟨d', hd'⟩

/-- Decimals of one width are in the order of their numbers. -/
theorem compare_digits {m n : Nat}
    (h : (Nat.toDigits 10 m).length = (Nat.toDigits 10 n).length) (l l' : Text) :
    compare (Nat.toDigits 10 m ++ l) (Nat.toDigits 10 n ++ l') =
      (compare m n).then (compare l l') := by
  induction m using Nat.strong_induction_on generalizing n l l' with
  | _ m ih =>
    have hm := Nat.toDigits_eq_if (b := 10) (n := m) (by decide)
    have hn := Nat.toDigits_eq_if (b := 10) (n := n) (by decide)
    by_cases hm10 : m < 10
    · have hn10 : n < 10 := by
        by_contra hge
        rw [hm, hn, if_pos hm10, if_neg hge, List.length_append] at h
        have := Nat.length_toDigits_pos (b := 10) (n := n / 10)
        simp only [List.length_singleton] at h
        omega
      rw [hm, hn, if_pos hm10, if_pos hn10, List.singleton_append, List.singleton_append,
        List.compare_cons_cons, compare_digitChar hm10 hn10]
    · have hn10 : ¬ n < 10 := by
        intro hlt
        rw [hm, hn, if_neg hm10, if_pos hlt, List.length_append] at h
        have := Nat.length_toDigits_pos (b := 10) (n := m / 10)
        simp only [List.length_singleton] at h
        omega
      rw [hm, hn, if_neg hm10, if_neg hn10, List.length_append, List.length_append] at h
      have hhigh : (Nat.toDigits 10 (m / 10)).length = (Nat.toDigits 10 (n / 10)).length := by
        simpa using h
      rw [hm, hn, if_neg hm10, if_neg hn10, List.append_assoc, List.append_assoc,
        ih (m / 10) (by omega) hhigh, List.singleton_append, List.singleton_append,
        List.compare_cons_cons,
        compare_digitChar (Nat.mod_lt m (by decide)) (Nat.mod_lt n (by decide)),
        ← Ordering.then_assoc, compare_div_mod m n (by decide)]

/-- Two events whose numbers have equally many digits. -/
structure SameDigits (a b : EventCall) : Prop where
  height : (Nat.toDigits 10 a.block_height.toNat).length =
    (Nat.toDigits 10 b.block_height.toNat).length
  index : (Nat.toDigits 10 a.block_index.toNat).length =
    (Nat.toDigits 10 b.block_index.toNat).length
  event : (Nat.toDigits 10 a.event_index.toNat).length =
    (Nat.toDigits 10 b.event_index.toNat).length

/-- Between events of the same widths the keys are in the order of the places. -/
theorem SameDigits.compare_block_key {a b : EventCall} (h : SameDigits a b) :
    compare a.block_key b.block_key = compare a.position b.position := by
  have hplace : compare a.position b.position =
      (compare a.block_height.toNat b.block_height.toNat).then
        ((compare a.block_index.toNat b.block_index.toNat).then
          (compare a.event_index.toNat b.event_index.toNat)) := by
    unfold EventCall.position positionOf
    rw [compare_mul_add _ _ a.event_index.toNat_lt b.event_index.toNat_lt,
      compare_mul_add _ _ a.block_index.toNat_lt b.block_index.toNat_lt, Ordering.then_assoc]
  have hlast := compare_digits h.event [] []
  rw [List.append_nil, List.append_nil, ReflOrd.compare_self, Ordering.then_eq] at hlast
  unfold EventCall.block_key event_block_index_key
  simp only [List.append_assoc, scans.compare_append_same]
  rw [compare_digits h.height, scans.compare_append_same, compare_digits h.index,
    scans.compare_append_same, hlast, hplace]

/-- So every page is in order when all numbers of a kind have equally many digits. -/
theorem keysInOrder_of_sameDigits {calls : List EventCall}
    (h : ∀ a ∈ calls, ∀ b ∈ calls, SameDigits a b) (page limit : UInt32) :
    KeysInOrder calls page limit := by
  intro call hcall _ _
  apply List.countP_congr
  intro c hc
  rw [(h call (mem_of_keepLast hcall) c (mem_of_keepLast hc)).compare_block_key, decide_eq_true_eq,
    decide_eq_true_eq]
  exact Nat.compare_eq_lt

/-! ## The listing of every page -/

/-- Over the events of a chain, indexed in any order, a page is listed chronologically exactly
when its offset fits 32 bits, no event was indexed at two places, and the keys are in order on
the page. They are on every page when all heights have equally many digits, and all indexes of
a kind. -/
theorem event_page_is_chronological_iff {calls : List EventCall}
    (htx : OneTransactionPerPlace calls) {page limit : UInt32} (hpage : 1 ≤ page.toNat) :
    (ListsChronologically calls page limit ↔
      pageOffset page limit < 2 ^ 32 ∧ OnePlacePerEvent calls ∧ KeysInOrder calls page limit) ∧
    ((∀ a ∈ calls, ∀ b ∈ calls, SameDigits a b) → KeysInOrder calls page limit) :=
  ⟨listsChronologically_iff htx limit hpage,
    fun hdigits => keysInOrder_of_sameDigits hdigits page limit⟩

/-- An event of the only transaction of a block. -/
def eventAt (tx_id : Text) (block_height : UInt64) : EventCall where
  tx_id := tx_id
  event_index := 0
  event := ⟨"transfer", []⟩
  block_height := block_height
  block_index := 0
  timestamp := 0

/-- Events of the blocks 9 and 10. -/
def ninthAndTenth : List EventCall := [eventAt "0x09".toList 9, eventAt "0x10".toList 10]

theorem ninthAndTenth_places : OneTransactionPerPlace ninthAndTenth := by
  unfold OneTransactionPerPlace ninthAndTenth
  decide

theorem ninthAndTenth_page_iff :
    (ListsChronologically ninthAndTenth 1 50 ↔
      pageOffset 1 50 < 2 ^ 32 ∧ OnePlacePerEvent ninthAndTenth ∧ KeysInOrder ninthAndTenth 1 50) ∧
    ((∀ a ∈ ninthAndTenth, ∀ b ∈ ninthAndTenth, SameDigits a b) →
      KeysInOrder ninthAndTenth 1 50) :=
  event_page_is_chronological_iff ninthAndTenth_places (by decide)

/-- The key of height 9 is above that of height 10, so block 9 is listed first; and the offset
of a far page does not fit. -/
theorem ninth_is_listed_before_tenth :
    ¬ ListsChronologically ninthAndTenth 1 50 ∧
    ¬ ListsChronologically ninthAndTenth 4294967295 100 := by
  constructor
  · rw [listsChronologically_iff ninthAndTenth_places 50 (by decide)]
    rintro ⟨_, _, horder⟩
    have hlater : laterPlaces ninthAndTenth (eventAt "0x10".toList 10) = 0 := by decide +kernel
    have hgreater : greaterKeys ninthAndTenth (eventAt "0x10".toList 10) = 1 := by decide +kernel
    have hmem : eventAt "0x10".toList 10 ∈ keepLast EventCall.primary_key ninthAndTenth :=
      List.mem_of_getElem? (i := 1) (by rfl)
    have := horder _ hmem (by rw [hlater]; decide) (by rw [hlater]; decide)
    rw [hlater, hgreater] at this
    exact absurd this (by decide)
  · rintro ⟨hfits, _⟩
    exact absurd hfits (by decide)

end eld_chain
