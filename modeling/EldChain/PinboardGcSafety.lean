-- The garbage collector must not delete content that a committed message
-- still needs. It judges a content by the newest messages alone, so an
-- older message with a later expiry is safe only while the scan sees it.
import EldChain.Library.Selection
import EldChain.PinboardGc
import EldChain.PinboardHistory
import Mathlib.Data.Set.Card

open Std

namespace eld_chain

variable {t t' : PinboardTables} {options : PrefixQueryOptions}

/-! ## A page -/

def keySize (key : Text) : Nat := (Text.bytes key).length

/-- A page holds the readable keys from its offset on, as many as its size. -/
theorem collectPage_items (hmax : options.offset + options.page_size < options.max_results)
    (keys items : List Text) (total memory : Nat) (hlength : items.length = total - options.offset)
    (hfits : items.length ≤ options.page_size) :
    (collectPage options keys items total memory).1 = items ++
      (((selection.within keySize options.max_memory_bytes memory keys).drop
        (options.offset - total)).take (options.page_size - items.length)).map
          message_id_of_commit_key := by
  induction keys generalizing items total memory with
  | nil => simp [collectPage, selection.within]
  | cons key keys ih =>
    rw [collectPage, selection.within]
    by_cases hmemory : options.max_memory_bytes < memory + (Text.bytes key).length
    · have hover : options.max_memory_bytes < memory + keySize key := hmemory
      rw [if_pos hmemory, if_pos hover]
      simp
    · have hunder : ¬ options.max_memory_bytes < memory + keySize key := hmemory
      rw [if_neg hmemory, if_neg hunder, if_neg (by omega)]
      by_cases hoffset : options.offset < total + 1
      · rw [if_pos hoffset]
        have hdrop : options.offset - total = 0 := by omega
        rw [hdrop, List.drop_zero]
        by_cases hfull : items.length < options.page_size
        · rw [if_pos hfull, ih]
          · have hnext : options.offset - (total + 1) = 0 := by omega
            have hleft : options.page_size - items.length =
                options.page_size - (items.length + 1) + 1 := by omega
            rw [hnext, List.drop_zero, List.length_append, List.length_singleton, hleft,
              List.take_succ_cons, List.map_cons, List.append_assoc]
            rfl
          · rw [List.length_append, List.length_singleton]
            omega
          · rw [List.length_append, List.length_singleton]
            omega
        · rw [if_neg hfull]
          have hleft : options.page_size - items.length = 0 := by omega
          rw [hleft, List.take_zero, List.map_nil, List.append_nil]
      · rw [if_neg hoffset, ih _ _ _ (by omega) hfits]
        have hdrop : options.offset - total = options.offset - (total + 1) + 1 := by omega
        rw [hdrop, List.drop_succ_cons]
        rfl

/-- The keys that a page has processed: one more than it returns where it met a further key. -/
theorem collectPage_total (hmax : options.offset + options.page_size < options.max_results)
    (keys items : List Text) (total memory : Nat) (hlength : items.length = total - options.offset)
    (hfits : items.length ≤ options.page_size) (htotal : total ≤ options.offset + options.page_size) :
    (collectPage options keys items total memory).2 =
      if options.offset + options.page_size <
          total + (selection.within keySize options.max_memory_bytes memory keys).length then
        options.offset + options.page_size + 1
      else if (selection.within keySize options.max_memory_bytes memory keys).length < keys.length
        then total + (selection.within keySize options.max_memory_bytes memory keys).length + 1
      else total + (selection.within keySize options.max_memory_bytes memory keys).length := by
  induction keys generalizing items total memory with
  | nil =>
    simp only [collectPage, selection.within, List.length_nil, Nat.add_zero, Nat.lt_irrefl, if_false]
    rw [if_neg (by omega)]
  | cons key keys ih =>
    rw [collectPage, selection.within]
    by_cases hmemory : options.max_memory_bytes < memory + (Text.bytes key).length
    · have hover : options.max_memory_bytes < memory + keySize key := hmemory
      rw [if_pos hmemory, if_pos hover]
      simp only [List.length_nil, List.length_cons, Nat.add_zero]
      rw [if_neg (by omega), if_pos (by omega)]
    · have hunder : ¬ options.max_memory_bytes < memory + keySize key := hmemory
      rw [if_neg hmemory, if_neg hunder, if_neg (by omega)]
      have hshift : total + (key :: selection.within keySize options.max_memory_bytes
          (memory + keySize key) keys).length =
          total + 1 + (selection.within keySize options.max_memory_bytes
            (memory + keySize key) keys).length := by
        rw [List.length_cons]
        omega
      rw [hshift]
      simp only [List.length_cons, Nat.add_lt_add_iff_right]
      by_cases hoffset : options.offset < total + 1
      · rw [if_pos hoffset]
        by_cases hfull : items.length < options.page_size
        · rw [if_pos hfull, ih]
          · rfl
          · rw [List.length_append, List.length_singleton]
            omega
          · rw [List.length_append, List.length_singleton]
            omega
          · omega
        · rw [if_neg hfull, if_pos (by omega)]
          omega
      · rw [if_neg hoffset, ih _ _ _ (by omega) hfits (by omega)]
        rfl

/-- The keys of the commit index that fit into the memory of a query, the newest first. -/
def PinboardTables.readable (t : PinboardTables) : List Text :=
  selection.within keySize (50 * 1024 * 1024) 0 (t.commit_keys .Desc)

theorem readable_le (t : PinboardTables) :
    t.readable.length ≤ (t.commit_keys .Desc).length :=
  (selection.within_prefix 0 _).length_le

/-- An allowed query of one of the first pages. -/
theorem page_ok (t : PinboardTables) {page : Nat} (hpage : page ≤ 3) :
    ∃ has_more, t.get_pinboard_message_ids_global_secure .Desc
        (.with_pagination page PINBOARD_GC_PAGE_SIZE) true =
      .ok ⟨((t.readable.drop (page * 200)).take 200).map message_id_of_commit_key, page, 200,
        has_more⟩ ∧
      (page * 200 < t.readable.length → (has_more = true ↔
        (page + 1) * 200 < t.readable.length ∨
          t.readable.length < (t.commit_keys .Desc).length)) := by
  have hoffset : (PrefixQueryOptions.with_pagination page PINBOARD_GC_PAGE_SIZE).offset =
      page * 200 := rfl
  have hsize : (PrefixQueryOptions.with_pagination page PINBOARD_GC_PAGE_SIZE).page_size = 200 := rfl
  have hmax : (PrefixQueryOptions.with_pagination page PINBOARD_GC_PAGE_SIZE).offset +
      (PrefixQueryOptions.with_pagination page PINBOARD_GC_PAGE_SIZE).page_size <
        (PrefixQueryOptions.with_pagination page PINBOARD_GC_PAGE_SIZE).max_results := by
    change page * 200 + 200 < 1000
    omega
  have hitems := collectPage_items hmax (t.commit_keys .Desc) [] 0 0 (by simp) (Nat.zero_le _)
  have htotal := collectPage_total hmax (t.commit_keys .Desc) [] 0 0 (by simp) (Nat.zero_le _)
    (Nat.zero_le _)
  rw [List.nil_append, hoffset, hsize, List.length_nil, Nat.sub_zero, Nat.sub_zero] at hitems
  rw [hoffset, hsize] at htotal
  have hread : selection.within keySize
      (PrefixQueryOptions.with_pagination page PINBOARD_GC_PAGE_SIZE).max_memory_bytes 0
      (t.commit_keys .Desc) = t.readable := rfl
  rw [hread] at hitems htotal
  refine ⟨decide (page * 200 + (collectPage (.with_pagination page PINBOARD_GC_PAGE_SIZE)
    (t.commit_keys .Desc) [] 0 0).1.length < (collectPage
      (.with_pagination page PINBOARD_GC_PAGE_SIZE) (t.commit_keys .Desc) [] 0 0).2), ?_, ?_⟩
  · rw [← hitems]
    rfl
  · intro hmore
    have hle := readable_le t
    rw [decide_eq_true_eq, htotal, hitems, List.length_map, List.length_take, List.length_drop]
    split
    · omega
    · split
      · omega
      · omega

/-- Messages of a page are noted until the scan reaches its limit. -/
theorem scanPage_eq (t : PinboardTables) (ids : List Text) (scanned : Nat) (seen : ContentExpiry)
    (hscanned : scanned ≤ 500) :
    scanPage t ids scanned seen =
      (min 500 (scanned + ids.length), (ids.take (500 - scanned)).foldl (noteExpiry t) seen) := by
  induction ids generalizing scanned seen with
  | nil =>
    rw [scanPage, List.length_nil, Nat.add_zero, Nat.min_eq_right hscanned, List.take_nil]
    rfl
  | cons id ids ih =>
    rw [scanPage]
    by_cases hfull : PINBOARD_GC_MAX_SCAN_PER_TICK ≤ scanned
    · have heq : scanned = 500 := Nat.le_antisymm hscanned hfull
      rw [if_pos hfull, heq, List.length_cons, Nat.sub_self, List.take_zero,
        Nat.min_eq_left (by omega)]
      rfl
    · have hlt : scanned < 500 := Nat.lt_of_not_le hfull
      have hleft : 500 - scanned = 500 - (scanned + 1) + 1 := by omega
      rw [if_neg hfull, ih _ _ hlt, hleft, List.take_succ_cons, List.foldl_cons, List.length_cons]
      congr 2
      omega

/-! ## The scan -/

/-- Where the scan goes on to a page: the page before it was not empty, and keys are left. -/
def PinboardTables.PageReached (t : PinboardTables) (page : Nat) : Prop :=
  page = 0 ∨ ((page - 1) * 200 < t.readable.length ∧ (page * 200 < t.readable.length ∨
    t.readable.length < (t.commit_keys .Desc).length))

/-- The pages that a tick asks for. -/
def PinboardTables.PageNeeded (t : PinboardTables) (page : Nat) : Prop :=
  t.PageReached page ∧ min t.readable.length (page * 200) < 500

/-- What the scan has noted after the newest `k` keys. -/
def PinboardTables.noted (t : PinboardTables) (k : Nat) : ContentExpiry :=
  ((t.readable.take k).map message_id_of_commit_key).foldl (noteExpiry t) ∅

variable {is_allowed : Nat → Bool}

theorem page_le_of_needed {page : Nat} (h : t.PageNeeded page) : page ≤ 3 := by
  obtain ⟨hreached, hscanned⟩ := h
  rcases hreached with rfl | ⟨hbefore, _⟩
  · omega
  · omega

/-- The notes grow by the keys of a page. -/
theorem noted_page (t : PinboardTables) {page : Nat} (hmore : page * 200 < t.readable.length)
    (hscanned : page * 200 < 500) :
    scanPage t (((t.readable.drop (page * 200)).take 200).map message_id_of_commit_key)
        (page * 200) (t.noted (page * 200)) =
      (min 500 (min t.readable.length ((page + 1) * 200)),
        t.noted (min 500 (min t.readable.length ((page + 1) * 200)))) := by
  rw [scanPage_eq t _ _ _ (by omega), List.length_map, List.length_take, List.length_drop]
  have hcount : page * 200 + min 200 (t.readable.length - page * 200) =
      min t.readable.length ((page + 1) * 200) := by omega
  have hnotes : (((t.readable.drop (page * 200)).take 200).map message_id_of_commit_key).take
      (500 - page * 200) = ((t.readable.drop (page * 200)).take
        (min 500 (min t.readable.length ((page + 1) * 200)) - page * 200)).map
          message_id_of_commit_key := by
    rw [← List.map_take, List.take_take]
    congr 1
    rw [List.take_eq_take_iff, List.length_drop]
    omega
  rw [hcount, hnotes]
  congr 1
  unfold PinboardTables.noted
  rw [← List.foldl_append, ← List.map_append]
  congr 2
  have hsplit := List.take_append_drop (page * 200)
    (t.readable.take (min 500 (min t.readable.length ((page + 1) * 200))))
  rw [← hsplit, List.take_take, List.drop_take]
  congr 2
  omega

/-- The keys of a page, by the ids in them. -/
def PinboardTables.pageIds (t : PinboardTables) (page : Nat) : List Text :=
  ((t.readable.drop (page * 200)).take 200).map message_id_of_commit_key

/-- A page that is not empty is noted, and the scan goes on where keys are left. -/
theorem scanPages_page (t : PinboardTables) (fuel : Nat) {page : Nat} (hpage : page ≤ 3)
    (hitems : page * 200 < t.readable.length) (hroom : page * 200 < 500)
    (hallowed : is_allowed page = true) (seen : ContentExpiry) :
    ∃ has_more, (has_more = true ↔ (page + 1) * 200 < t.readable.length ∨
        t.readable.length < (t.commit_keys .Desc).length) ∧
      scanPages t is_allowed (fuel + 1) page (page * 200) seen =
        if has_more = false then .ok (scanPage t (t.pageIds page) (page * 200) seen)
        else scanPages t is_allowed fuel (page + 1)
          (scanPage t (t.pageIds page) (page * 200) seen).1
          (scanPage t (t.pageIds page) (page * 200) seen).2 := by
  obtain ⟨has_more, hquery, hmore⟩ := page_ok t hpage
  have hscan : ¬ PINBOARD_GC_MAX_SCAN_PER_TICK ≤ page * 200 := Nat.not_le_of_lt hroom
  have hids : ((t.readable.drop (page * 200)).take 200).map message_id_of_commit_key =
      t.pageIds page := rfl
  refine ⟨has_more, hmore hitems, ?_⟩
  rw [scanPages, if_neg hscan, hallowed, hquery, hids]
  simp only
  cases hcons : t.pageIds page with
  | nil =>
    have hlength := congrArg List.length hcons
    unfold PinboardTables.pageIds at hlength
    rw [List.length_map, List.length_take, List.length_drop, List.length_nil] at hlength
    omega
  | cons id ids => rfl

/-- Where every query is allowed, the scan notes the newest 500 of the readable keys. -/
theorem scanPages_ok (hallowed : ∀ page, t.PageNeeded page → is_allowed page = true)
    (fuel page : Nat) (hfuel : 5 ≤ page + fuel) (hreached : t.PageReached page) :
    scanPages t is_allowed fuel page (min 500 (min t.readable.length (page * 200)))
        (t.noted (min 500 (min t.readable.length (page * 200)))) =
      .ok (min 500 t.readable.length, t.noted 500) := by
  have hall : ∀ k, min 500 t.readable.length ≤ k → k ≤ 500 → t.noted k = t.noted 500 := by
    intro k hle hk
    unfold PinboardTables.noted
    congr 2
    rw [List.take_eq_take_iff]
    omega
  induction fuel generalizing page with
  | zero =>
    have hscanned : min 500 (min t.readable.length (page * 200)) = min 500 t.readable.length := by
      rcases hreached with rfl | ⟨hbefore, _⟩ <;> omega
    rw [scanPages, hscanned, hall _ (Nat.le_refl _) (Nat.min_le_left _ _)]
  | succ fuel ih =>
    by_cases hfull : PINBOARD_GC_MAX_SCAN_PER_TICK ≤ min 500 (min t.readable.length (page * 200))
    · have hfull' : 500 ≤ min 500 (min t.readable.length (page * 200)) := hfull
      have hscanned : min 500 (min t.readable.length (page * 200)) = min 500 t.readable.length := by
        omega
      rw [scanPages, if_pos hfull, hscanned, hall _ (Nat.le_refl _) (Nat.min_le_left _ _)]
    · have hroom : min t.readable.length (page * 200) < 500 := by
        have hroom : min 500 (min t.readable.length (page * 200)) < 500 := Nat.lt_of_not_le hfull
        omega
      have hneeded : t.PageNeeded page := ⟨hreached, hroom⟩
      have hpage := page_le_of_needed hneeded
      by_cases hempty : t.readable.length ≤ page * 200
      · obtain ⟨has_more, hquery, _⟩ := page_ok t hpage
        have hscanned : min 500 (min t.readable.length (page * 200)) =
            min 500 t.readable.length := by omega
        rw [scanPages, if_neg hfull, hallowed page hneeded, hquery]
        simp only
        rw [List.drop_eq_nil_of_le hempty, List.take_nil, List.map_nil, hscanned,
          hall _ (Nat.le_refl _) (Nat.min_le_left _ _)]
      · have hitems : page * 200 < t.readable.length := Nat.lt_of_not_le hempty
        have hscanned : min 500 (min t.readable.length (page * 200)) = page * 200 := by omega
        obtain ⟨has_more, hmore, hpages⟩ := scanPages_page t fuel hpage hitems (by omega)
          (hallowed page hneeded) (t.noted (page * 200))
        rw [hscanned, hpages, PinboardTables.pageIds, noted_page t hitems (by omega)]
        by_cases hlast : has_more = false
        · have hnone : ¬ ((page + 1) * 200 < t.readable.length ∨
              t.readable.length < (t.commit_keys .Desc).length) := by
            rw [← hmore, hlast]
            exact Bool.false_ne_true
          have hend : min 500 (min t.readable.length ((page + 1) * 200)) =
              min 500 t.readable.length := by omega
          rw [if_pos hlast, hend, hall _ (Nat.le_refl _) (Nat.min_le_left _ _)]
        · rw [if_neg hlast]
          apply ih (page + 1) (by omega)
          exact Or.inr ⟨hitems, hmore.mp (by simpa using hlast)⟩

/-- A query that is refused ends the scan. -/
theorem scanPages_refused {last : Nat} (hneeded : t.PageNeeded last)
    (hrefused : is_allowed last = false) (fuel page : Nat) (hfuel : 5 ≤ page + fuel)
    (hpage : page ≤ last) (seen : ContentExpiry) :
    ∃ e, scanPages t is_allowed fuel page (min 500 (min t.readable.length (page * 200))) seen =
      .error e := by
  have hlast := page_le_of_needed hneeded
  obtain ⟨hreached, hroom⟩ := hneeded
  induction fuel generalizing page seen with
  | zero => omega
  | succ fuel ih =>
    have hle : page * 200 ≤ last * 200 := Nat.mul_le_mul_right _ hpage
    by_cases hhere : page = last
    · subst hhere
      have hscan : ¬ PINBOARD_GC_MAX_SCAN_PER_TICK ≤
          min 500 (min t.readable.length (page * 200)) := by
        change ¬ 500 ≤ min 500 (min t.readable.length (page * 200))
        omega
      rw [scanPages, if_neg hscan, hrefused]
      exact ⟨_, rfl⟩
    · cases hallowed : is_allowed page with
      | false =>
        have hscan : ¬ PINBOARD_GC_MAX_SCAN_PER_TICK ≤
            min 500 (min t.readable.length (page * 200)) := by
          change ¬ 500 ≤ min 500 (min t.readable.length (page * 200))
          omega
        rw [scanPages, if_neg hscan, hallowed]
        exact ⟨_, rfl⟩
      | true =>
        rcases hreached with rfl | ⟨hprevious, hleft⟩
        · omega
        · have hitems : page * 200 < t.readable.length := by omega
          have hscanned : min 500 (min t.readable.length (page * 200)) = page * 200 := by omega
          obtain ⟨has_more, hmore, hpages⟩ := scanPages_page t fuel (by omega) hitems (by omega)
            hallowed seen
          have hgoes : has_more = true := hmore.mpr (by omega)
          have hnext : min 500 (page * 200 + min 200 (t.readable.length - page * 200)) =
              min 500 (min t.readable.length ((page + 1) * 200)) := by omega
          rw [hscanned, hpages, hgoes, if_neg (by simp), scanPage_eq t _ _ _ (by omega),
            PinboardTables.pageIds, List.length_map, List.length_take, List.length_drop, hnext]
          exact ih (page + 1) (by omega) (by omega) _

/-- The contents for which a tick calls `delete_content_from_slots`. -/
def PinboardTables.gc_calls (t : PinboardTables) (current_height : UInt64)
    (is_allowed : Nat → Bool) (delete_content_from_slots : Text → Except EldError Unit) :
    List Text :=
  match run_gc_tick t current_height is_allowed delete_content_from_slots with
  | .error _ => []
  | .ok tick => tick.calls

variable {current_height : UInt64} {delete_content_from_slots : Text → Except EldError Unit}

theorem deleteStep_calls (tick : GcTick) (l : List (Text × UInt64)) :
    (l.foldl (deleteStep t current_height delete_content_from_slots) tick).calls =
      tick.calls ++ l.map Prod.fst := by
  induction l generalizing tick with
  | nil => simp
  | cons p l ih =>
    rw [List.foldl_cons, ih, List.map_cons, ← List.singleton_append, ← List.append_assoc]
    congr 1
    unfold deleteStep
    simp only
    cases delete_content_from_slots p.1 <;> rfl

/-- A tick with a refused query deletes nothing. -/
theorem gc_calls_refused {page : Nat} (hneeded : t.PageNeeded page)
    (hrefused : is_allowed page = false) :
    t.gc_calls current_height is_allowed delete_content_from_slots = [] := by
  obtain ⟨e, he⟩ := scanPages_refused hneeded hrefused (PINBOARD_GC_MAX_SCAN_PER_TICK + 1) 0
    (by decide) (Nat.zero_le _) ∅
  rw [Nat.zero_mul, Nat.min_zero, Nat.min_zero] at he
  unfold PinboardTables.gc_calls run_gc_tick
  rw [he]

theorem gc_calls_allowed (hallowed : ∀ page, t.PageNeeded page → is_allowed page = true) :
    t.gc_calls current_height is_allowed delete_content_from_slots =
      ((deleteCandidates current_height (t.noted 500)).take 200).map Prod.fst := by
  have hscan := scanPages_ok hallowed (PINBOARD_GC_MAX_SCAN_PER_TICK + 1) 0 (by decide) (Or.inl rfl)
  rw [Nat.zero_mul, Nat.min_zero, Nat.min_zero] at hscan
  have hstart : t.noted 0 = ∅ := by
    unfold PinboardTables.noted
    rw [List.take_zero]
    rfl
  rw [hstart] at hscan
  unfold PinboardTables.gc_calls run_gc_tick
  rw [hscan]
  simp only [deleteStep_calls, List.nil_append]
  rfl

/-! ## What the scan notes -/

/-- The latest expiry among the messages of a list that carry a content. -/
def LatestExpiry (seen : PinboardMessageMetadata → Prop) (content_key : Text)
    (expires_height : UInt64) : Prop :=
  (∃ m, seen m ∧ m.content_key = content_key ∧ m.expires_height = expires_height) ∧
    ∀ m, seen m → m.content_key = content_key → m.expires_height ≤ expires_height

theorem LatestExpiry.unique {seen : PinboardMessageMetadata → Prop} {content_key : Text}
    {v w : UInt64} (hv : LatestExpiry seen content_key v) (hw : LatestExpiry seen content_key w) :
    v = w := by
  obtain ⟨⟨m, hm, hkey, rfl⟩, hmax⟩ := hv
  obtain ⟨⟨m', hm', hkey', rfl⟩, hmax'⟩ := hw
  exact UInt64.le_antisymm (hmax' m hm hkey) (hmax m' hm' hkey')

theorem le_max_uint64 (a b : UInt64) : a ≤ max a b ∧ b ≤ max a b ∧ (max a b = a ∨ max a b = b) := by
  have hmax : max a b = if a ≤ b then b else a := rfl
  rw [hmax]
  by_cases h : a ≤ b
  · rw [if_pos h]
    exact ⟨h, UInt64.le_refl b, Or.inr rfl⟩
  · rw [if_neg h]
    exact ⟨UInt64.le_refl a, UInt64.le_of_lt (UInt64.not_le.mp h), Or.inl rfl⟩

/-- The notes of some messages: for each content the latest expiry, and for no other. -/
structure Notes (seen : PinboardMessageMetadata → Prop) (content_max_expires : ContentExpiry) :
    Prop where
  latest : ∀ content_key v, content_max_expires[content_key]? = some v →
    LatestExpiry seen content_key v
  complete : ∀ m, seen m → content_max_expires[m.content_key]?.isSome = true

theorem Notes.iff {seen : PinboardMessageMetadata → Prop} {content_max_expires : ContentExpiry}
    (h : Notes seen content_max_expires) (content_key : Text) (v : UInt64) :
    content_max_expires[content_key]? = some v ↔ LatestExpiry seen content_key v := by
  constructor
  · exact h.latest content_key v
  · intro hlatest
    obtain ⟨m, hm, rfl, _⟩ := hlatest.1
    obtain ⟨w, hw⟩ := Option.isSome_iff_exists.mp (h.complete m hm)
    rw [hw, hlatest.unique (h.latest _ w hw)]

/-- One more message. -/
theorem Notes.note {seen : PinboardMessageMetadata → Prop} {content_max_expires : ContentExpiry}
    (h : Notes seen content_max_expires) (m : PinboardMessageMetadata) :
    Notes (fun m' => seen m' ∨ m' = m) (content_max_expires.insert m.content_key
      (max (content_max_expires.getD m.content_key 0) m.expires_height)) := by
  obtain ⟨hold, hnew, hone⟩ :=
    le_max_uint64 (content_max_expires.getD m.content_key 0) m.expires_height
  constructor
  · intro content_key v hv
    rw [finite_map.get_insert] at hv
    by_cases hkey : m.content_key = content_key
    · rw [if_pos hkey] at hv
      cases hv
      subst hkey
      constructor
      · cases hbefore : content_max_expires[m.content_key]? with
        | none =>
          have hzero : content_max_expires.getD m.content_key 0 = 0 := by
            rw [ExtTreeMap.getD_eq_getD_getElem?, hbefore]
            rfl
          rw [hzero] at hnew hone ⊢
          refine ⟨m, Or.inr rfl, rfl, ?_⟩
          rcases hone with hzero | hm
          · rw [hzero] at hnew ⊢
            exact UInt64.le_antisymm hnew UInt64.zero_le
          · exact hm.symm
        | some w =>
          have hw : content_max_expires.getD m.content_key 0 = w := by
            rw [ExtTreeMap.getD_eq_getD_getElem?, hbefore]
            rfl
          rw [hw] at hone ⊢
          rcases hone with heq | heq
          · obtain ⟨m', hm', hkey', hexpires⟩ := (h.latest _ w hbefore).1
            exact ⟨m', Or.inl hm', hkey', by rw [heq, hexpires]⟩
          · exact ⟨m, Or.inr rfl, rfl, heq.symm⟩
      · rintro m' (hm' | rfl) hkey'
        · obtain ⟨w, hw⟩ := Option.isSome_iff_exists.mp (h.complete m' hm')
          have hle := (h.latest _ w hw).2 m' hm' rfl
          rw [hkey'] at hw
          have hgetD : content_max_expires.getD m.content_key 0 = w := by
            rw [ExtTreeMap.getD_eq_getD_getElem?, hw]
            rfl
          rw [hgetD] at hold ⊢
          exact UInt64.le_trans hle hold
        · exact hnew
    · rw [if_neg hkey] at hv
      obtain ⟨⟨m', hm', hkey', hexpires⟩, hmax⟩ := h.latest content_key v hv
      refine ⟨⟨m', Or.inl hm', hkey', hexpires⟩, ?_⟩
      rintro m'' (hm'' | rfl) hkey''
      · exact hmax m'' hm'' hkey''
      · exact absurd hkey'' hkey
  · rintro m' (hm' | rfl)
    · rw [finite_map.get_insert]
      split
      · rfl
      · exact h.complete m' hm'
    · rw [finite_map.get_insert, if_pos rfl]
      rfl

theorem Notes.congr {seen seen' : PinboardMessageMetadata → Prop}
    {content_max_expires : ContentExpiry} (h : Notes seen content_max_expires)
    (hsame : ∀ m, seen' m ↔ seen m) : Notes seen' content_max_expires := by
  have heq : seen' = seen := funext (fun m => propext (hsame m))
  rw [heq]
  exact h

/-- The notes of a scan are those of the rows that it reads. -/
theorem notes_of_scan (t : PinboardTables) (ids : List Text) :
    Notes (fun m => ∃ id ∈ ids, t.get_pinboard_metadata id = some m)
      (ids.foldl (noteExpiry t) ∅) := by
  induction ids using List.reverseRecOn with
  | nil =>
    constructor
    · intro content_key v hv
      simp at hv
    · rintro m ⟨id, hid, _⟩
      cases hid
  | append_singleton ids id ih =>
    rw [List.foldl_append, List.foldl_cons, List.foldl_nil]
    unfold noteExpiry
    cases hrow : t.get_pinboard_metadata id with
    | none =>
      refine ih.congr ?_
      intro m
      simp only [List.mem_append, List.mem_singleton, or_and_right, exists_or, exists_eq_left, hrow]
      simp
    | some row =>
      refine (ih.note row).congr ?_
      intro m
      simp only [List.mem_append, List.mem_singleton, or_and_right, exists_or, exists_eq_left, hrow,
        Option.some.injEq]
      rw [eq_comm (a := row)]

/-! ## The window -/

/-- The later of two keys of the commit index comes first. -/
abbrev Newer (a b : Text) : Prop := compare b a = .lt

/-- A key of the commit index that a tick reads: it is one of the newest 500, and fits into
the memory of a query together with all that are newer. -/
structure PinboardTables.InWindow (t : PinboardTables) (key : Text) : Prop where
  indexed : key ∈ t.idx_commit
  newest : selection.rank Newer (t.commit_keys .Desc) key < 500
  fits : selection.weightUpTo Newer keySize (t.commit_keys .Desc) key ≤ 50 * 1024 * 1024

/-- A row that a tick reads. -/
def PinboardTables.Seen (t : PinboardTables) (m : PinboardMessageMetadata) : Prop :=
  ∃ key, t.InWindow key ∧ t.get_pinboard_metadata (message_id_of_commit_key key) = some m

/-- The rows that a tick reads show the content expired, and fewer than 200 contents come
before it. -/
def PinboardTables.Condemned (t : PinboardTables) (current_height : UInt64) (content_key : Text) :
    Prop :=
  ∃ v, LatestExpiry t.Seen content_key v ∧ v ≤ current_height ∧
    {p : Text × UInt64 | LatestExpiry t.Seen p.1 p.2 ∧
      compareCandidates p (content_key, v) = .lt}.ncard < 200

theorem commit_keys_strict (t : PinboardTables) :
    selection.Strict Newer (t.commit_keys .Desc) :=
  selection.strict_reverse ExtTreeSet.ordered_toList

theorem mem_window_iff (t : PinboardTables) (key : Text) :
    key ∈ t.readable.take 500 ↔ t.InWindow key := by
  unfold PinboardTables.readable
  rw [(commit_keys_strict t).mem_take_within_iff]
  have hmem : key ∈ t.commit_keys .Desc ↔ key ∈ t.idx_commit := by
    unfold PinboardTables.commit_keys
    rw [List.mem_reverse, ExtTreeSet.mem_toList]
  rw [hmem]
  exact ⟨fun h => ⟨h.1, h.2.1, h.2.2⟩, fun h => ⟨h.indexed, h.newest, h.fits⟩⟩

theorem notes_of_window (t : PinboardTables) : Notes t.Seen (t.noted 500) := by
  refine (notes_of_scan t _).congr ?_
  intro m
  unfold PinboardTables.Seen
  constructor
  · rintro ⟨key, hkey, hrow⟩
    exact ⟨_, List.mem_map_of_mem ((mem_window_iff t key).mpr hkey), hrow⟩
  · rintro ⟨id, hid, hrow⟩
    obtain ⟨key, hkey, rfl⟩ := List.mem_map.mp hid
    exact ⟨key, (mem_window_iff t key).mp hkey, hrow⟩

/-! ## The candidates -/

theorem compareCandidates_trans : TransCmp compareCandidates :=
  inferInstanceAs (TransCmp (compareLex (compareOn Prod.snd) (compareOn Prod.fst)))

theorem compareCandidates_lawful : LawfulEqCmp compareCandidates where
  compare_self := by
    intro p
    simp [compareCandidates]
  eq_of_compare := by
    intro p q h
    unfold compareCandidates at h
    rw [Ordering.then_eq_eq] at h
    exact Prod.ext (LawfulEqCmp.eq_of_compare h.2) (LawfulEqCmp.eq_of_compare h.1)

/-- What comes before a candidate has an expiry that is no later. -/
theorem le_of_before {p q : Text × UInt64} (h : compareCandidates p q = .lt) : p.2 ≤ q.2 := by
  unfold compareCandidates at h
  rw [Ordering.then_eq_lt] at h
  rcases h with hlt | ⟨heq, _⟩
  · exact UInt64.le_of_lt (Std.compare_eq_lt.mp hlt)
  · rw [LawfulEqCmp.eq_of_compare heq]
    exact UInt64.le_refl _

theorem candidates_nodup (current_height : UInt64) (content_max_expires : ContentExpiry) :
    (content_max_expires.toList.filter (fun p => decide (p.2 ≤ current_height))).Nodup := by
  apply List.Nodup.filter
  refine (ExtTreeMap.ordered_keys_toList).imp ?_
  rintro p q hlt rfl
  rw [Std.compare_self] at hlt
  cases hlt

theorem mem_candidates {content_max_expires : ContentExpiry} {p : Text × UInt64} :
    p ∈ deleteCandidates current_height content_max_expires ↔
      content_max_expires[p.1]? = some p.2 ∧ p.2 ≤ current_height := by
  unfold deleteCandidates
  rw [List.mem_insertionSort, List.mem_filter, finite_map.mem_toList, decide_eq_true_eq]

/-- The contents that a tick deletes when all its queries are allowed. -/
theorem condemned_iff (t : PinboardTables) (content_key : Text) :
    content_key ∈ ((deleteCandidates current_height (t.noted 500)).take 200).map Prod.fst ↔
      t.Condemned current_height content_key := by
  have hnotes := notes_of_window t
  have hstrict : selection.Strict (fun p q => compareCandidates p q = .lt)
      (deleteCandidates current_height (t.noted 500)) :=
    @selection.strict_insertionSort _ _ compareCandidates_trans compareCandidates_lawful _
      (candidates_nodup current_height (t.noted 500))
  have hnodup : (deleteCandidates current_height (t.noted 500)).Nodup :=
    hstrict.sorted.imp (fun hlt heq => by
      rw [heq, compareCandidates_lawful.compare_self] at hlt
      cases hlt)
  have hrank : ∀ v, v ≤ current_height →
      selection.rank (fun p q => compareCandidates p q = .lt)
        (deleteCandidates current_height (t.noted 500)) (content_key, v) =
      {p : Text × UInt64 | LatestExpiry t.Seen p.1 p.2 ∧
        compareCandidates p (content_key, v) = .lt}.ncard := by
    intro v hv
    have hset : {p : Text × UInt64 | LatestExpiry t.Seen p.1 p.2 ∧
        compareCandidates p (content_key, v) = .lt} =
        (((deleteCandidates current_height (t.noted 500)).filter (fun p =>
          decide (compareCandidates p (content_key, v) = .lt))).toFinset : Set (Text × UInt64)) := by
      ext p
      rw [Set.mem_ofPred_eq, Finset.mem_coe, List.mem_toFinset, List.mem_filter, mem_candidates,
        hnotes.iff, decide_eq_true_eq]
      constructor
      · rintro ⟨hlatest, hbefore⟩
        exact ⟨⟨hlatest, UInt64.le_trans (le_of_before hbefore) hv⟩, hbefore⟩
      · rintro ⟨⟨hlatest, _⟩, hbefore⟩
        exact ⟨hlatest, hbefore⟩
    rw [hset, Set.ncard_coe_finset, List.toFinset_card_of_nodup (hnodup.filter _)]
    unfold selection.rank
    rw [List.countP_eq_length_filter]
  rw [List.mem_map]
  constructor
  · rintro ⟨⟨key, v⟩, hmem, rfl⟩
    rw [hstrict.mem_take_iff, mem_candidates, hnotes.iff] at hmem
    obtain ⟨⟨hlatest, hv⟩, hfew⟩ := hmem
    rw [hrank v hv] at hfew
    exact ⟨v, hlatest, hv, hfew⟩
  · rintro ⟨v, hlatest, hv, hfew⟩
    refine ⟨(content_key, v), ?_, rfl⟩
    rw [hstrict.mem_take_iff, mem_candidates, hnotes.iff, hrank v hv]
    exact ⟨⟨hlatest, hv⟩, hfew⟩

/-! ## Live content -/

/-- The contents in a list have no live message. -/
def PinboardHistory.Spares (history : PinboardHistory) (current_height : UInt64)
    (content_keys : List Text) : Prop :=
  ∀ content_key ∈ content_keys, ∀ m ∈ history.messages, m.content_key = content_key →
    m.expires_height ≤ current_height

/-- A tick spares all live content exactly when one of its queries is refused, or when it
reads every live message, less those whose content it does not delete anyway. -/
theorem gc_spares_live_content_iff (history : PinboardHistory) (current_height : UInt64)
    (is_allowed : Nat → Bool) (delete_content_from_slots : Text → Except EldError Unit) :
    history.Spares current_height
        (history.tables.gc_calls current_height is_allowed delete_content_from_slots) ↔
      (∃ page, history.tables.PageNeeded page ∧ is_allowed page = false) ∨
        ∀ m ∈ history.messages, current_height < m.expires_height → history.tables.Seen m ∨
          ¬ history.tables.Condemned current_height m.content_key := by
  by_cases hrefused : ∃ page, history.tables.PageNeeded page ∧ is_allowed page = false
  · obtain ⟨page, hneeded, hno⟩ := hrefused
    rw [gc_calls_refused hneeded hno]
    simp only [PinboardHistory.Spares, List.not_mem_nil, false_implies, implies_true, true_iff]
    exact Or.inl ⟨page, hneeded, hno⟩
  · have hallowed : ∀ page, history.tables.PageNeeded page → is_allowed page = true := by
      intro page hneeded
      by_contra hno
      exact hrefused ⟨page, hneeded, by simpa using hno⟩
    rw [gc_calls_allowed hallowed, or_iff_right hrefused]
    constructor
    · intro hspares m hm hlive
      right
      intro hcondemned
      exact UInt64.not_le.mpr hlive (hspares m.content_key ((condemned_iff _ _).mpr hcondemned) m hm rfl)
    · rintro hsafe content_key hcalled m hm rfl
      by_contra hlive
      have hcondemned := (condemned_iff _ _).mp hcalled
      rcases hsafe m hm (UInt64.not_le.mp hlive) with hseen | hnot
      · obtain ⟨v, hlatest, hv, _⟩ := hcondemned
        exact hlive (UInt64.le_trans (hlatest.2 m hseen rfl) hv)
      · exact hnot hcondemned

/-! ## An older message with a later expiry -/

theorem message_id_of_key (committed_height : UInt64) (message_id : Text) :
    message_id_of_commit_key (pinboard_commit_index_key committed_height message_id) =
      message_id := by
  unfold message_id_of_commit_key pinboard_commit_index_key u64_hex_fixed
  have hdigits : ∀ x ∈ hexDigits 16 committed_height.toNat, decide (x ≠ ':') = true := by
    intro x hx
    obtain ⟨d, hd, rfl⟩ := mem_hexDigits hx
    have hall : ∀ i : Fin 16, decide (hexChar i ≠ ':') = true := by decide
    exact hall ⟨d, hd⟩
  rw [List.dropWhile_append_of_pos hdigits, List.dropWhile_cons_of_neg (by simp)]

/-- A character takes four bytes at most. -/
theorem keySize_le (key : Text) : keySize key ≤ 4 * key.length := by
  unfold keySize Text.bytes
  induction key with
  | nil => simp
  | cons x key ih =>
    have hx := Char.utf8Size_le_four x
    rw [List.flatMap_cons, List.length_append, String.length_utf8EncodeChar, List.length_cons]
    omega

/-- One of Alice's messages, all of them with the same content. -/
def sameContent (id : Nat) (committed_height expires_height : UInt64) :
    PinboardMessageMetadata where
  message_id := hexDigits 3 id
  original_signer := alice
  content_key := "k".toList
  content_type := "text/plain".toList
  expires_height := expires_height
  visibility := "public".toList
  topic := none
  tags := []
  committed_height := committed_height
  received_timestamp := 0
  namespace_ := none

/-- The message of the first block lives to height 1000. -/
def longLived : PinboardMessageMetadata := sameContent 0 1 1000

/-- Each message of the second block expires with the block. -/
def shortLived (i : Nat) : PinboardMessageMetadata := sameContent (i + 1) 2 2

/-- A block with one message, and a block with five hundred. -/
def crowdedBlocks : List (List PinboardMessageMetadata) :=
  [[longLived], (List.range 500).map shortLived]

theorem crowdedBlocks_commit :
    (PinboardTables.after crowdedBlocks .empty).toOption.isSome = true := by decide +kernel

variable {history : PinboardHistory}

theorem mem_crowded (hblocks : history.blocks = crowdedBlocks) (m : PinboardMessageMetadata) :
    m ∈ history.messages ↔ m = longLived ∨ ∃ i, i < 500 ∧ shortLived i = m := by
  unfold PinboardHistory.messages
  rw [hblocks]
  simp [crowdedBlocks]

/-- A key of the second block is newer than any of the first. -/
theorem newer_second_block (x y : Text) :
    Newer (pinboard_commit_index_key 2 y) (pinboard_commit_index_key 1 x) := by
  have hone : u64_hex_fixed 1 = "0000000000000001".toList := by decide
  have htwo : u64_hex_fixed 2 = "0000000000000002".toList := by decide
  unfold Newer pinboard_commit_index_key
  have hdigit : compare '1' '2' = .lt := by decide
  rw [hone, htwo]
  simp [List.compare_eq_compareLex, hdigit]

theorem shortLived_keys_nodup :
    ((List.range 500).map (fun i => (shortLived i).commit_key)).Nodup := by
  apply List.Nodup.map_on _ List.nodup_range
  intro i hi j hj heq
  have hids := congrArg message_id_of_commit_key heq
  unfold PinboardMessageMetadata.commit_key at hids
  rw [message_id_of_key, message_id_of_key] at hids
  have hi := List.mem_range.mp hi
  have hj := List.mem_range.mp hj
  have hsame := hexDigits_inj (n := 3) (by omega) (by omega) hids
  omega

/-- Five hundred keys are newer than the one of the long-lived message. -/
theorem rank_longLived (hblocks : history.blocks = crowdedBlocks) :
    500 ≤ selection.rank Newer (history.tables.commit_keys .Desc) longLived.commit_key := by
  unfold selection.rank
  rw [List.countP_eq_length_filter]
  have hsub : (List.range 500).map (fun i => (shortLived i).commit_key) ⊆
      (history.tables.commit_keys .Desc).filter
        (fun key => decide (Newer key longLived.commit_key)) := by
    intro key hkey
    obtain ⟨i, hi, rfl⟩ := List.mem_map.mp hkey
    rw [List.mem_filter, decide_eq_true_eq]
    refine ⟨?_, newer_second_block _ _⟩
    unfold PinboardTables.commit_keys
    rw [List.mem_reverse, ExtTreeSet.mem_toList, history.holds.indexed]
    exact ⟨shortLived i, (mem_crowded hblocks _).mpr (Or.inr ⟨i, List.mem_range.mp hi, rfl⟩), rfl⟩
  have hle := (shortLived_keys_nodup.subperm hsub).length_le
  rw [List.length_map, List.length_range] at hle
  exact hle

/-- So the scan does not see it. -/
theorem longLived_unseen (hblocks : history.blocks = crowdedBlocks) :
    ¬ history.tables.Seen longLived := by
  rintro ⟨key, hwindow, hrow⟩
  obtain ⟨m, hm, rfl⟩ := (history.holds.indexed key).mp hwindow.indexed
  have hid := (history.holds.rows _ _ hrow).2
  unfold PinboardMessageMetadata.commit_key at hid
  rw [message_id_of_key] at hid
  have hid : m.message_id = longLived.message_id := List.mem_singleton.mp hid
  rcases (mem_crowded hblocks m).mp hm with rfl | ⟨i, hi, rfl⟩
  · have hnewest := hwindow.newest
    have hrank := rank_longLived hblocks
    omega
  · have hsame := hexDigits_inj (n := 3) (by omega) (by decide) hid
    omega

/-- Every row that the scan sees is of a short-lived message. -/
theorem seen_shortLived (hblocks : history.blocks = crowdedBlocks) {m : PinboardMessageMetadata}
    (h : history.tables.Seen m) : ∃ i, i < 500 ∧ shortLived i = m := by
  have hrow := h
  obtain ⟨key, _, hrow⟩ := hrow
  rcases (mem_crowded hblocks m).mp (history.holds.rows _ _ hrow).1 with rfl | hshort
  · exact absurd h (longLived_unseen hblocks)
  · exact hshort

/-- The scan sees the newest message at least. -/
theorem newest_seen (hblocks : history.blocks = crowdedBlocks) :
    ∃ m, history.tables.Seen m := by
  cases hkeys : history.tables.commit_keys .Desc with
  | nil =>
    have hrank := rank_longLived hblocks
    rw [hkeys] at hrank
    cases hrank
  | cons key keys =>
    have hstrict := commit_keys_strict history.tables
    rw [hkeys] at hstrict
    have hindexed : key ∈ history.tables.idx_commit := by
      rw [← ExtTreeSet.mem_toList, ← List.mem_reverse]
      change key ∈ history.tables.commit_keys .Desc
      rw [hkeys]
      exact List.mem_cons_self
    obtain ⟨m, hm, rfl⟩ := (history.holds.indexed key).mp hindexed
    have hwindow : history.tables.InWindow m.commit_key := by
      refine ⟨hindexed, ?_, ?_⟩
      · rw [hkeys, hstrict.rank_head]
        decide
      · rw [hkeys, hstrict.weight_head]
        have hsize := keySize_le m.commit_key
        have hlength : m.commit_key.length = 20 := by
          unfold PinboardMessageMetadata.commit_key pinboard_commit_index_key u64_hex_fixed
          rw [List.length_append, length_hexDigits, List.length_cons]
          rcases (mem_crowded hblocks m).mp hm with rfl | ⟨i, _, rfl⟩ <;> rfl
        omega
    obtain ⟨row, hrow⟩ := Option.isSome_iff_exists.mp (history.holds.present m hm)
    refine ⟨row, m.commit_key, hwindow, ?_⟩
    unfold PinboardMessageMetadata.commit_key
    rw [message_id_of_key]
    exact hrow

theorem crowded_condemned (hblocks : history.blocks = crowdedBlocks) :
    history.tables.Condemned 10 "k".toList := by
  have hlatest : ∀ content_key v, LatestExpiry history.tables.Seen content_key v →
      content_key = "k".toList ∧ v = 2 := by
    rintro content_key v ⟨⟨m, hm, rfl, rfl⟩, _⟩
    obtain ⟨i, _, rfl⟩ := seen_shortLived hblocks hm
    exact ⟨rfl, rfl⟩
  refine ⟨2, ⟨?_, ?_⟩, by decide, ?_⟩
  · obtain ⟨m, hm⟩ := newest_seen hblocks
    obtain ⟨i, _, rfl⟩ := seen_shortLived hblocks hm
    exact ⟨_, hm, rfl, rfl⟩
  · intro m hm _
    obtain ⟨i, _, rfl⟩ := seen_shortLived hblocks hm
    exact UInt64.le_refl 2
  · have hnone : {p : Text × UInt64 | LatestExpiry history.tables.Seen p.1 p.2 ∧
        compareCandidates p ("k".toList, 2) = .lt} = ∅ := by
      apply Set.eq_empty_of_forall_notMem
      rintro ⟨content_key, v⟩ ⟨hp, hbefore⟩
      obtain ⟨hkey, hv⟩ := hlatest content_key v hp
      subst hkey hv
      rw [compareCandidates_lawful.compare_self] at hbefore
      cases hbefore
    rw [hnone, Set.ncard_empty]
    decide

/-- The tick at height 10 deletes the content of the message that lives to height 1000. -/
theorem gc_deletes_live_content :
    ¬ ∀ (history : PinboardHistory) (current_height : UInt64) (is_allowed : Nat → Bool)
      (delete_content_from_slots : Text → Except EldError Unit), history.Spares current_height
        (history.tables.gc_calls current_height is_allowed delete_content_from_slots) := by
  intro hall
  cases hcommit : PinboardTables.after crowdedBlocks .empty with
  | error e =>
    have hok := crowdedBlocks_commit
    rw [hcommit] at hok
    cases hok
  | ok t =>
    have hspares := hall ⟨crowdedBlocks, t, hcommit⟩ 10 (fun _ => true) (fun _ => .ok ())
    rw [gc_spares_live_content_iff] at hspares
    rcases hspares with ⟨page, _, hrefused⟩ | hsafe
    · cases hrefused
    · have hmem := (@mem_crowded ⟨crowdedBlocks, t, hcommit⟩ rfl longLived).mpr (Or.inl rfl)
      rcases hsafe longLived hmem (by decide) with hseen | hspared
      · exact longLived_unseen rfl hseen
      · exact hspared (crowded_condemned rfl)

end eld_chain
