-- Queries by prefix, page by page. A query walks over the keys from its
-- prefix on, counts them, skips those of earlier pages and stops at the
-- first key without the prefix, at one of its two limits, or one key after
-- a full page. That last key is what says that there is more.
import EldChain.Library.PrefixScans
import EldChain.PathForms
import EldChain.PinboardGc

open Std

namespace eld_chain

variable {A : Type}

/-! ## The walk -/

/-- The walk over the keys: what it read for the page, and how many keys it has processed. -/
def prefixLoop (options : PrefixQueryOptions) (lead : Text) (read : Text → Except EldError A) :
    List Text → List A → Nat → Nat → Except EldError (List A × Nat)
  | [], items, total_processed, _ => .ok (items, total_processed)
  | key :: keys, items, total_processed, memory =>
    if lead.isPrefixOf key = false then .ok (items, total_processed)
    else
      let total_processed := total_processed + 1
      let memory := memory + (Text.bytes key).length
      if options.max_memory_bytes < memory then .ok (items, total_processed)
      else if options.max_results < total_processed then .ok (items, total_processed)
      else if options.offset < total_processed then
        if items.length < options.page_size then
          match read key with
          | .error e => .error e
          | .ok item => prefixLoop options lead read keys (items ++ [item]) total_processed memory
        else .ok (items, total_processed)
      else prefixLoop options lead read keys items total_processed memory

/-- The page of a query over the keys of a column family, in their order. -/
def prefixPage (options : PrefixQueryOptions) (lead : Text) (read : Text → Except EldError A)
    (keys : List Text) : Except EldError (PaginatedResult A) :=
  match prefixLoop options lead read (scans.seek lead keys) [] 0 0 with
  | .error e => .error e
  | .ok found => .ok ⟨found.1, options.page, options.page_size,
      decide (options.offset + found.1.length < found.2)⟩

/-- The checks before the walk. `allowed` is the answer of the rate limiter. -/
def checkQuery (options : PrefixQueryOptions) (allowed : Bool) (details : String) :
    Except EldError Unit :=
  match options.validate with
  | .error e => .error (.ValidationError "prefix_query_options" "invalid"
      ("Failed to validate prefix query options: " ++ e.to_string))
  | .ok () =>
    if allowed = false then .error (.StorageError "rate_limited_query" details) else .ok ()

theorem checkQuery_eq {options : PrefixQueryOptions} (hvalid : options.validate = .ok ())
    (allowed : Bool) (details : String) : checkQuery options allowed details =
      if allowed = false then .error (.StorageError "rate_limited_query" details) else .ok () := by
  unfold checkQuery
  rw [hvalid]

/-! ## What a page holds -/

variable {options : PrefixQueryOptions} {lead : Text} {read : Text → Except EldError A}

def keyBytes (keys : List Text) : Nat := (keys.map (fun key => (Text.bytes key).length)).sum

/-- Where the keys up to the one after the page are within the limits, the walk reads the keys
with the prefix from its offset on, as many as a page holds, and processes one more where there
is one. -/
theorem prefixLoop_eq (value : Text → A) (keys : List Text) (items : List A)
    (total_processed memory : Nat)
    (hread : ∀ key ∈ keys.takeWhile (lead.isPrefixOf ·), read key = .ok (value key))
    (hcount : total_processed + ((keys.takeWhile (lead.isPrefixOf ·)).take
      (options.offset + options.page_size + 1 - total_processed)).length ≤ options.max_results)
    (hmemory : memory + keyBytes ((keys.takeWhile (lead.isPrefixOf ·)).take
      (options.offset + options.page_size + 1 - total_processed)) ≤ options.max_memory_bytes)
    (hlength : items.length = total_processed - options.offset)
    (hfits : items.length ≤ options.page_size)
    (htotal : total_processed ≤ options.offset + options.page_size) :
    prefixLoop options lead read keys items total_processed memory =
      .ok (items ++ (((keys.takeWhile (lead.isPrefixOf ·)).drop
          (options.offset - total_processed)).take (options.page_size - items.length)).map value,
        min (total_processed + (keys.takeWhile (lead.isPrefixOf ·)).length)
          (options.offset + options.page_size + 1)) := by
  induction keys generalizing items total_processed memory with
  | nil =>
    rw [prefixLoop, List.takeWhile_nil, List.drop_nil, List.take_nil, List.map_nil,
      List.append_nil, List.length_nil, Nat.add_zero, Nat.min_eq_left (by omega)]
  | cons key keys ih =>
    rw [prefixLoop]
    cases hlead : lead.isPrefixOf key with
    | false =>
      rw [if_pos rfl, List.takeWhile_cons, if_neg (by simp [hlead]), List.drop_nil, List.take_nil,
        List.map_nil, List.append_nil, List.length_nil, Nat.add_zero,
        Nat.min_eq_left (by omega)]
    | true =>
      have hleft : options.offset + options.page_size + 1 - total_processed =
          options.offset + options.page_size + 1 - (total_processed + 1) + 1 := by omega
      rw [List.takeWhile_cons, if_pos hlead] at hread hcount hmemory ⊢
      rw [hleft, List.take_succ_cons] at hcount hmemory
      unfold keyBytes at hmemory ih
      rw [List.map_cons, List.sum_cons] at hmemory
      rw [List.length_cons] at hcount ⊢
      have hrest : ∀ key ∈ keys.takeWhile (lead.isPrefixOf ·), read key = .ok (value key) :=
        fun key hkey => hread key (List.mem_cons_of_mem _ hkey)
      have hshift : total_processed + ((keys.takeWhile (lead.isPrefixOf ·)).length + 1) =
          total_processed + 1 + (keys.takeWhile (lead.isPrefixOf ·)).length := by omega
      simp only
      rw [if_neg (by simp), if_neg (by omega), if_neg (by omega), hshift]
      by_cases hoffset : options.offset < total_processed + 1
      · have hdrop : options.offset - total_processed = 0 := by omega
        rw [if_pos hoffset, hdrop, List.drop_zero]
        by_cases hfull : items.length < options.page_size
        · -- the key is read, and the page has one item more
          have hsize : options.page_size - items.length =
              options.page_size - (items.length + 1) + 1 := by omega
          have hnext : options.offset - (total_processed + 1) = 0 := by omega
          have hadded : (items ++ [value key]).length = items.length + 1 := by simp
          rw [if_pos hfull, hread key List.mem_cons_self]
          simp only
          rw [ih _ _ _ hrest (by omega) (by omega) (by omega) (by omega) (by omega), hadded,
            hnext, List.drop_zero, hsize, List.take_succ_cons, List.map_cons, List.append_assoc]
          rfl
        · -- the page is full, and the key is the one after it
          have hsize : options.page_size - items.length = 0 := by omega
          rw [if_neg hfull, hsize, List.take_zero, List.map_nil, List.append_nil,
            Nat.min_eq_right (by omega)]
          congr 2
          omega
      · have hdrop : options.offset - total_processed =
            options.offset - (total_processed + 1) + 1 := by omega
        rw [if_neg hoffset, ih _ _ _ hrest (by omega) (by omega) (by omega) hfits (by omega),
          hdrop, List.drop_succ_cons]

/-- The keys with a prefix, in their order. -/
def keysWith (lead : Text) (keys : List Text) : List Text :=
  keys.filter (fun key => lead.isPrefixOf key)

/-- The keys that a page walks over: those up to the one after it. -/
def walked (options : PrefixQueryOptions) (lead : Text) (keys : List Text) : List Text :=
  (keysWith lead keys).take (options.offset + options.page_size + 1)

/-- Within the limits a page is a slice of the keys with the prefix, and says whether a later
key is left. -/
theorem prefixPage_eq (value : Text → A) {keys : List Text} (hrising : scans.Rising keys)
    (hsize : 0 < options.page_size)
    (hread : ∀ key ∈ keysWith lead keys, read key = .ok (value key))
    (hcount : (walked options lead keys).length ≤ options.max_results)
    (hmemory : keyBytes (walked options lead keys) ≤ options.max_memory_bytes) :
    prefixPage options lead read keys =
      .ok ⟨scans.slice ((keysWith lead keys).map value) options.page_size options.page,
        options.page, options.page_size,
        decide ((options.page + 1) * options.page_size < (keysWith lead keys).length)⟩ := by
  have hkeys : (scans.seek lead keys).takeWhile (lead.isPrefixOf ·) = keysWith lead keys :=
    scans.withLead_eq_filter lead hrising
  unfold walked at hcount hmemory
  unfold prefixPage
  rw [prefixLoop_eq value _ [] 0 0 (by rwa [hkeys]) (by rw [hkeys]; simpa using hcount)
    (by rw [hkeys]; simpa using hmemory) (by simp) (by simp) (by omega), hkeys]
  simp only [List.nil_append, List.length_nil, Nat.sub_zero, Nat.zero_add, List.length_map,
    List.length_take, List.length_drop]
  unfold scans.slice PrefixQueryOptions.offset
  rw [List.map_take, List.map_drop, Nat.add_one_mul]
  congr 2
  rw [decide_eq_decide]
  omega

theorem length_walked (options : PrefixQueryOptions) (lead : Text) (keys : List Text) :
    (walked options lead keys).length ≤ (keysWith lead keys).length :=
  List.length_take_le' _ _

theorem keyBytes_walked (options : PrefixQueryOptions) (lead : Text) (keys : List Text) :
    keyBytes (walked options lead keys) ≤ keyBytes (keysWith lead keys) := by
  have hsplit : (keysWith lead keys).take (options.offset + options.page_size + 1) ++
      (keysWith lead keys).drop (options.offset + options.page_size + 1) = keysWith lead keys :=
    List.take_append_drop _ _
  unfold keyBytes walked
  conv => rhs; rw [← hsplit]
  rw [List.map_append, List.sum_append]
  exact Nat.le_add_right _ _

/-! ## The path index -/

/-- A path as the code can hold it: every constructor leaves one that its text parses to. -/
structure ParsedPath extends PathText where
  parsed : PathText.parse path = .ok toPathText

/-- The path that `CadoPath::new` makes. -/
def CadoPath.parsedPath (p : CadoPath) (hp : p.Canonical) : ParsedPath :=
  ⟨p.parts, parse_as_str hp⟩

/-- The column family that leads from the text of a path to the key of its object. A row is
written under the text of a path, so every key is one. -/
structure PathIndex where
  rows : ExtTreeMap Text Bytes32 compare
  paths : ∀ path ∈ rows, ∃ p, PathText.parse path = .ok p

def PathIndex.empty : PathIndex := ⟨∅, fun path h => by simp at h⟩

theorem PathIndex.put_paths (index : PathIndex) (p : ParsedPath) (key : Bytes32) :
    ∀ path ∈ index.rows.insert p.path key, ∃ p, PathText.parse path = .ok p := by
  intro path hpath
  rw [ExtTreeMap.mem_insert, LawfulEqCmp.compare_eq_iff_eq] at hpath
  rcases hpath with rfl | hpath
  · exact ⟨p.toPathText, p.parsed⟩
  · exact index.paths path hpath

/-- The row that a put of an object writes. -/
def PathIndex.put (index : PathIndex) (p : ParsedPath) (key : Bytes32) : PathIndex :=
  ⟨index.rows.insert p.path key, index.put_paths p key⟩

theorem PathIndex.delete_paths (index : PathIndex) (path : Text) :
    ∀ path' ∈ index.rows.erase path, ∃ p, PathText.parse path' = .ok p := by
  intro path' hpath
  exact index.paths path' (ExtTreeMap.mem_of_mem_erase hpath)

def PathIndex.delete_path_index (index : PathIndex) (path : Text) : PathIndex :=
  ⟨index.rows.erase path, index.delete_paths path⟩

/-- `allowed` is the answer of the rate limiter to this query. -/
def PathIndex.get_cado_paths_by_prefix_secure (index : PathIndex) (lead : Text)
    (options : PrefixQueryOptions) (allowed : Bool) :
    Except EldError (PaginatedResult PathText) := do
  checkQuery options allowed ("Rate limit exceeded for prefix query: " ++ String.ofList lead)
  prefixPage options lead PathText.parse index.rows.keys

/-! ## All pages of a query -/

/-- What a listing by prefix should be: the paths of the index that begin with it, in the order
of their texts and each of them once. -/
structure PathIndex.Lists (index : PathIndex) (lead : Text) (paths : List PathText) : Prop where
  sorted : paths.Pairwise (fun p q => compare p.path q.path = .lt)
  mem_iff : ∀ p, p ∈ paths ↔
    p.path ∈ index.rows ∧ lead <+: p.path ∧ PathText.parse p.path = .ok p

/-- The paths of the index, in the order of their texts. -/
def PathIndex.pathsWith (index : PathIndex) (lead : Text) : List Text :=
  keysWith lead index.rows.keys

/-- The options of a request for a page. -/
def PrefixQueryOptions.at (options : PrefixQueryOptions) (page : Nat) : PrefixQueryOptions :=
  { options with page := page }

/-- Requests the pages 0, 1, 2 and so on until one says that no more follow. The rate limiter
may answer each request differently. -/
def PathIndex.request_pages (index : PathIndex) (lead : Text) (options : PrefixQueryOptions)
    (is_allowed : Nat → Bool) (fuel : Nat) : Option (Except EldError (List PathText)) :=
  scans.collect (fun page =>
    (index.get_cado_paths_by_prefix_secure lead (options.at page) (is_allowed page)).map
      (fun r => (r.items, r.has_more))) fuel 0

variable {index : PathIndex}

theorem rising_keys {V : Type} (m : ExtTreeMap Text V compare) : scans.Rising m.keys :=
  ExtTreeMap.ordered_keys

/-- The path that a text of the index parses to. -/
def pathOf (path : Text) : PathText :=
  match PathText.parse path with
  | .ok p => p
  | .error _ => ⟨path, [], [], []⟩

theorem pathOf_of_parse {path : Text} {p : PathText} (h : PathText.parse path = .ok p) :
    pathOf path = p := by
  unfold pathOf
  rw [h]

/-- A parsed path keeps its text. -/
theorem path_of_parse {path : Text} {p : PathText} (h : PathText.parse path = .ok p) :
    p.path = path := by
  unfold PathText.parse at h
  split at h
  · cases h
  · split at h
    · split at h
      · cases h
      · split at h
        · cases h
        · split at h
          · cases h
          · split at h
            · cases h
            · cases h
              rfl
    · cases h

theorem PathIndex.parse_row (index : PathIndex) {path : Text} (h : path ∈ index.rows) :
    PathText.parse path = .ok (pathOf path) := by
  obtain ⟨p, hp⟩ := index.paths path h
  rw [pathOf_of_parse hp]
  exact hp

theorem mem_pathsWith {path : Text} :
    path ∈ index.pathsWith lead ↔ path ∈ index.rows ∧ lead <+: path := by
  unfold PathIndex.pathsWith keysWith
  rw [List.mem_filter, ExtTreeMap.mem_keys, List.isPrefixOf_iff_prefix]

/-- The paths behind the texts are the listing. -/
theorem lists_pathsWith (index : PathIndex) (lead : Text) :
    index.Lists lead ((index.pathsWith lead).map pathOf) := by
  constructor
  · rw [List.pairwise_map]
    have hsorted : (index.pathsWith lead).Pairwise (fun a b => compare a b = .lt) :=
      (rising_keys index.rows).filter _
    refine hsorted.imp_of_mem ?_
    intro a b ha hb hlt
    rw [path_of_parse (index.parse_row (mem_pathsWith.mp ha).1),
      path_of_parse (index.parse_row (mem_pathsWith.mp hb).1)]
    exact hlt
  · intro p
    rw [List.mem_map]
    constructor
    · rintro ⟨path, hpath, rfl⟩
      obtain ⟨hrow, hlead⟩ := mem_pathsWith.mp hpath
      have hparse := index.parse_row hrow
      rw [path_of_parse hparse]
      exact ⟨hrow, hlead, hparse⟩
    · rintro ⟨hrow, hlead, hparse⟩
      exact ⟨p.path, mem_pathsWith.mpr ⟨hrow, hlead⟩, pathOf_of_parse hparse⟩

/-- The error of a request that the rate limiter refuses. -/
def refusedQuery (lead : Text) : EldError :=
  .StorageError "rate_limited_query" ("Rate limit exceeded for prefix query: " ++ String.ofList lead)

theorem page_size_pos (hvalid : options.validate = .ok ()) : 0 < options.page_size := by
  unfold PrefixQueryOptions.validate at hvalid
  split at hvalid
  · cases hvalid
  · split at hvalid
    · cases hvalid
    · omega

/-- Within the limits an allowed request gets a slice of the listing. -/
theorem allowed_page_eq (hvalid : options.validate = .ok ())
    (hcount : (index.pathsWith lead).length ≤ options.max_results)
    (hmemory : keyBytes (index.pathsWith lead) ≤ options.max_memory_bytes) (page : Nat) :
    index.get_cado_paths_by_prefix_secure lead (options.at page) true =
      .ok ⟨scans.slice ((index.pathsWith lead).map pathOf) options.page_size page, page,
        options.page_size,
        decide ((page + 1) * options.page_size < (index.pathsWith lead).length)⟩ := by
  have hsame : (options.at page).validate = .ok () := hvalid
  have hread : ∀ path ∈ keysWith lead index.rows.keys,
      PathText.parse path = .ok (pathOf path) :=
    fun path hpath => index.parse_row (mem_pathsWith.mp hpath).1
  have hsize : 0 < (options.at page).page_size := page_size_pos hvalid
  unfold PathIndex.get_cado_paths_by_prefix_secure
  rw [checkQuery_eq hsame]
  exact prefixPage_eq pathOf (rising_keys index.rows) hsize hread
    ((length_walked _ _ _).trans hcount) ((keyBytes_walked _ _ _).trans hmemory)

theorem refused_page_eq (hvalid : options.validate = .ok ()) (page : Nat) :
    index.get_cado_paths_by_prefix_secure lead (options.at page) false =
      .error (refusedQuery lead) := by
  have hsame : (options.at page).validate = .ok () := hvalid
  unfold PathIndex.get_cado_paths_by_prefix_secure
  rw [checkQuery_eq hsame]
  rfl

/-- Where the matching paths are within the limits, the pages from the first one on are the
listing by the prefix, unless the rate limiter refuses one of them. And a page says that there
is more exactly when a later one has items. An offset is a 64-bit number, so the pages are
those whose offset is one. -/
theorem prefix_pages_are_lossless (index : PathIndex) (lead : Text)
    (options : PrefixQueryOptions) (is_allowed : Nat → Bool)
    (hvalid : options.validate = .ok ()) (hwidth : options.max_results < 2 ^ 64)
    (hcount : (index.pathsWith lead).length ≤ options.max_results)
    (hmemory : keyBytes (index.pathsWith lead) ≤ options.max_memory_bytes) :
    (∀ fuel, (index.pathsWith lead).length < fuel →
      (∃ paths, index.request_pages lead options is_allowed fuel = some (.ok paths) ∧
        index.Lists lead paths) ∨
      (∃ page, is_allowed page = false) ∧
        index.request_pages lead options is_allowed fuel = some (.error (refusedQuery lead))) ∧
    ∀ page, page * options.page_size < 2 ^ 64 →
      ∃ r, index.get_cado_paths_by_prefix_secure lead (options.at page) true = .ok r ∧
        (r.has_more = true ↔ ∃ later, page < later ∧ later * options.page_size < 2 ^ 64 ∧
          ∃ r', index.get_cado_paths_by_prefix_secure lead (options.at later) true = .ok r' ∧
            r'.items ≠ []) := by
  have hsize := page_size_pos hvalid
  have hpage := @allowed_page_eq options lead index hvalid hcount hmemory
  constructor
  · intro fuel hfuel
    have hfetch : ∀ page, (index.get_cado_paths_by_prefix_secure lead (options.at page)
          (is_allowed page)).map (fun r => (r.items, r.has_more)) =
        .ok (scans.slice ((index.pathsWith lead).map pathOf) options.page_size page,
          decide ((page + 1) * options.page_size <
            ((index.pathsWith lead).map pathOf).length)) ∨
        is_allowed page = false ∧
          (index.get_cado_paths_by_prefix_secure lead (options.at page) (is_allowed page)).map
            (fun r => (r.items, r.has_more)) = .error (refusedQuery lead) := by
      intro page
      cases hallowed : is_allowed page with
      | true =>
        left
        rw [hpage page, List.length_map]
        rfl
      | false =>
        right
        rw [refused_page_eq hvalid]
        exact ⟨rfl, rfl⟩
    rcases scans.collect_rest hsize hfetch fuel 0 (by rw [List.length_map]; omega) (by omega)
      with hall | hrefused
    · left
      rw [Nat.zero_mul, List.drop_zero] at hall
      exact ⟨_, hall, lists_pathsWith index lead⟩
    · exact Or.inr hrefused
  · intro page _
    refine ⟨_, hpage page, ?_⟩
    have hmore := @scans.more_iff _ ((index.pathsWith lead).map pathOf) options.page_size hsize page
    rw [List.length_map] at hmore
    rw [decide_eq_true_eq]
    constructor
    · intro hlater
      refine ⟨page + 1, Nat.lt_succ_self page, by omega, _, hpage (page + 1), ?_⟩
      unfold scans.slice
      rw [ne_eq, ← List.length_eq_zero_iff, List.length_take, List.length_drop, List.length_map]
      omega
    · rintro ⟨later, hlater, _, r', hr', hitems⟩
      rw [hpage later] at hr'
      cases hr'
      exact hmore.mpr ⟨later, hlater, hitems⟩

/-- An index with the paths of two epoch records. -/
def twoEpochs : PathIndex :=
  (PathIndex.empty.put (CadoPath.parsedPath (.epoch_record 1) trivial) 7).put
    (CadoPath.parsedPath (.epoch_record 2) trivial) 8

theorem two_epochs_are_listed :
    (∀ fuel, (twoEpochs.pathsWith "/@eld/".toList).length < fuel →
      (∃ paths, twoEpochs.request_pages "/@eld/".toList (.with_pagination 0 1) (fun _ => true)
          fuel = some (.ok paths) ∧ twoEpochs.Lists "/@eld/".toList paths) ∨
      (∃ _ : Nat, true = false) ∧
        twoEpochs.request_pages "/@eld/".toList (.with_pagination 0 1) (fun _ => true) fuel =
          some (.error (refusedQuery "/@eld/".toList))) ∧
    ∀ page, page * 1 < 2 ^ 64 →
      ∃ r, twoEpochs.get_cado_paths_by_prefix_secure "/@eld/".toList
          ((PrefixQueryOptions.with_pagination 0 1).at page) true = .ok r ∧
        (r.has_more = true ↔ ∃ later, page < later ∧ later * 1 < 2 ^ 64 ∧
          ∃ r', twoEpochs.get_cado_paths_by_prefix_secure "/@eld/".toList
              ((PrefixQueryOptions.with_pagination 0 1).at later) true = .ok r' ∧
            r'.items ≠ []) :=
  prefix_pages_are_lossless twoEpochs "/@eld/".toList (.with_pagination 0 1) (fun _ => true) rfl
    (by decide) (by decide +kernel) (by decide +kernel)

end eld_chain
