-- The listing of snapshots, newest first. Their paths are hashes of their
-- heights, and the listing walks over one page of the paths in the order
-- of the hashes, so it stops at its limit before it has seen the heights
-- that it then sorts by.
import EldChain.Library.Selection
import EldChain.SnapshotStore

open Std selection

namespace eld_chain

variable (o : Outside)

/-! ## Listing by prefix -/

def MAX_PREFIX_LENGTH : Nat := 256

def prefix_traversal_patterns : List String := ["..", "//", "\\", "~"]

def validate_cado_prefix_security (lead : Text) : Except EldError Unit :=
  if MAX_PREFIX_LENGTH < utf8Len lead then
    .error (.ValidationError "cado_prefix_length" (String.ofList lead)
      ("Prefix exceeds maximum length of " ++ toString MAX_PREFIX_LENGTH ++ " characters"))
  else match prefix_traversal_patterns.find? (contains_pattern lead) with
    | some pattern => .error (.ValidationError "cado_prefix_traversal" (String.ofList lead)
        ("Prefix contains forbidden traversal pattern: " ++ pattern))
    | none =>
      if lead.head? ≠ some '/' then
        .error (.ValidationError "cado_prefix_format" (String.ofList lead)
          "Prefix must start with '/'")
      else if lead.any (fun c => isControl c && c != '\t' && c != '\n' && c != '\r') then
        .error (.ValidationError "cado_prefix_control_chars" (String.ofList lead)
          "Prefix contains forbidden control characters")
      else if lead.contains (Char.ofNat 0) then
        .error (.ValidationError "cado_prefix_null_bytes" (String.ofList lead)
          "Prefix contains null bytes")
      else match (lead.splitOn '/').filter (fun s => s != []) with
        | [] => .ok ()
        | scope :: _ =>
          if scope.head? = some '@' ∧ ALLOWED_SCOPES.contains scope = false then
            .error (.ValidationError "cado_prefix_scope" (String.ofList scope)
              ("Scope '" ++ String.ofList scope ++ "' is not allowed in prefix"))
          else .ok ()

/-- `PrefixQueryOptions::default`. -/
def PrefixQueryOptions.default : PrefixQueryOptions := .with_pagination 0 100

/-- The first page of the paths. The rate limiter is asked twice, once for either client. -/
def PathIndex.get_cado_paths_by_prefix (index : PathIndex) (lead : Text)
    (allowed allowed_secure : Bool) : Except EldError (List PathText) := do
  validate_cado_prefix_security lead
  if allowed = false then
    .error (.StorageError "rate_limit_check"
      ("Rate limit exceeded for prefix query: " ++ String.ofList lead))
  else
    let result ← index.get_cado_paths_by_prefix_secure lead .default allowed_secure
    .ok result.items

/-! ## The walk over the snapshots -/

/-- The loop of `list_snapshots`. The limit is looked at after each path. -/
def listLoop (read : PathText → Option SnapshotMetadata) (limit : Nat) :
    List PathText → List SnapshotMetadata → List SnapshotMetadata
  | [], snapshots => snapshots
  | p :: paths, snapshots =>
    let snapshots := snapshots ++ (read p).toList
    if limit ≤ snapshots.length then snapshots else listLoop read limit paths snapshots

/-- `sort_by(|a, b| b.height.cmp(&a.height))`. -/
def newestFirst (snapshots : List SnapshotMetadata) : List SnapshotMetadata :=
  snapshots.insertionSort (fun a b => (compare b.height a.height).isLE = true)

def CadoStore.list_snapshots (st : CadoStore) (limit : UInt32) (allowed allowed_secure : Bool) :
    Except EldError (List SnapshotMetadata) := do
  let paths ← st.path_index.get_cado_paths_by_prefix PATH_PREFIX_SNAPSHOT_METADATA allowed
    allowed_secure
  .ok (newestFirst (listLoop (st.read_snapshot o) limit.toNat paths []))

def I64.MIN : I64 := ⟨-2 ^ 63, by decide, by decide⟩

/-- One turn of the loop of `get_latest_snapshot_metadata`. -/
def pickLatest (found : I64 × Option SnapshotMetadata) :
    Option SnapshotMetadata → I64 × Option SnapshotMetadata
  | none => found
  | some m => if found.1.val < m.height.val then (m.height, some m) else found

def CadoStore.get_latest_snapshot_metadata (st : CadoStore) (allowed allowed_secure : Bool) :
    Except EldError (Option SnapshotMetadata) := do
  let paths ← st.path_index.get_cado_paths_by_prefix PATH_PREFIX_SNAPSHOT_METADATA allowed
    allowed_secure
  .ok (paths.foldl (fun found p => pickLatest found (st.read_snapshot o p)) (I64.MIN, none)).2

variable {o : Outside} {st : CadoStore} {stored : List SnapshotMetadata}

/-! ## The page -/

/-- The snapshots in the order of their paths, which is the order of their hashes. -/
def inHashOrder (o : Outside) (stored : List SnapshotMetadata) : List SnapshotMetadata :=
  stored.insertionSort (fun a b => (compare (a.text o) (b.text o)).isLE = true)

/-- Two stored snapshots with one path are one. -/
theorem HoldsSnapshots.text_inj (h : HoldsSnapshots o st stored) {m n : SnapshotMetadata}
    (hm : m ∈ stored) (hn : n ∈ stored) (htext : m.text o = n.text o) : m = n := by
  have hkey : m.key o = n.key o := by
    have hindex := h.indexed m hm
    rw [htext, h.indexed n hn] at hindex
    exact (Option.some.inj hindex).symm
  have hobject := h.objects m hm
  rw [hkey, h.objects n hn, Option.some.injEq] at hobject
  have hdata : n.serialize o = m.serialize o := congrArg CadoBody.data hobject
  exact (h.serialize_inj hn hm hdata).symm

theorem HoldsSnapshots.nodup (h : HoldsSnapshots o st stored) : stored.Nodup :=
  h.distinct.of_map

theorem HoldsSnapshots.texts_nodup (h : HoldsSnapshots o st stored) :
    (stored.map (SnapshotMetadata.text o)).Nodup :=
  h.nodup.map_on (fun _ hm _ hn htext => h.text_inj hm hn htext)

theorem lead_eq : PATH_PREFIX_SNAPSHOT_METADATA =
    '/' :: (SCOPE_ELD_ROOT ++ '/' :: (CadoType.SnapshotMetadata.as_str.toList ++ ['/'])) := by
  decide

theorem snapshot_text_lead (height : I64) :
    PATH_PREFIX_SNAPSHOT_METADATA <+: (snapshot_path o height).parts.path := by
  have hpath := as_str_toList (snapshot_path o height)
  have htype : (snapshot_path o height).type_ = .SnapshotMetadata := rfl
  rw [htype] at hpath
  rw [path_of_parts, hpath, lead_eq]
  refine ⟨(snapshot_path o height).name, ?_⟩
  simp only [List.cons_append, List.append_assoc, List.nil_append]

theorem strict_inHashOrder (h : HoldsSnapshots o st stored) :
    Strict (fun a b => compare (a.text o) (b.text o) = .lt) (inHashOrder o stored) :=
  strict_sorted_by_key (SnapshotMetadata.text o) h.texts_nodup

theorem perm_inHashOrder (o : Outside) (stored : List SnapshotMetadata) :
    (inHashOrder o stored).Perm stored := List.perm_insertionSort _ _

/-- The paths under the prefix are those of the stored snapshots. -/
theorem HoldsSnapshots.pathsWith_eq (h : HoldsSnapshots o st stored) :
    st.path_index.pathsWith PATH_PREFIX_SNAPSHOT_METADATA =
      (inHashOrder o stored).map (SnapshotMetadata.text o) := by
  apply scans.Rising.ext
  · exact (rising_keys st.path_index.rows).filter _
  · unfold scans.Rising
    rw [List.pairwise_map]
    exact (strict_inHashOrder h).sorted
  · intro path
    rw [mem_pathsWith, List.mem_map]
    constructor
    · rintro ⟨hrow, hlead⟩
      obtain ⟨m, hm, htext⟩ := (h.rows path hlead).mp hrow
      exact ⟨m, (perm_inHashOrder o stored).mem_iff.mpr hm, htext⟩
    · rintro ⟨m, hm, rfl⟩
      have hlead : PATH_PREFIX_SNAPSHOT_METADATA <+: m.text o := snapshot_text_lead _
      exact ⟨(h.rows _ hlead).mpr ⟨m, (perm_inHashOrder o stored).mem_iff.mp hm, rfl⟩, hlead⟩

theorem keyBytes_le {keys : List Text} {bound : Nat}
    (h : ∀ key ∈ keys, (Text.bytes key).length ≤ bound) : keyBytes keys ≤ keys.length * bound := by
  induction keys with
  | nil => exact Nat.zero_le _
  | cons key keys ih =>
    have hkey := h key List.mem_cons_self
    have hrest := ih (fun k hk => h k (List.mem_cons_of_mem _ hk))
    unfold keyBytes at hrest ⊢
    rw [List.map_cons, List.sum_cons, List.length_cons, Nat.add_one_mul]
    omega

theorem length_text (o : Outside) (m : SnapshotMetadata) :
    (Text.bytes (m.text o)).length ≤ 96 := by
  have hname := names_of_path (p := snapshot_path o m.height) trivial
  unfold SnapshotMetadata.text
  rw [parts_eq_ofName, length_bytes, utf8Len_ofName hname]
  exact path_length hname

/-- The limits of a query are far above one page of snapshots, so the first page has the first
hundred in the order of their hashes. -/
theorem HoldsSnapshots.first_page (h : HoldsSnapshots o st stored) :
    st.path_index.get_cado_paths_by_prefix PATH_PREFIX_SNAPSHOT_METADATA true true =
      .ok (((inHashOrder o stored).take 100).map (fun m => (snapshot_path o m.height).parts)) := by
  have hlead : validate_cado_prefix_security PATH_PREFIX_SNAPSHOT_METADATA = .ok () := by
    decide +kernel
  have hvalid : PrefixQueryOptions.default.validate = .ok () := rfl
  have hpaths : keysWith PATH_PREFIX_SNAPSHOT_METADATA st.path_index.rows.keys =
      (inHashOrder o stored).map (SnapshotMetadata.text o) := h.pathsWith_eq
  have hwalked : walked .default PATH_PREFIX_SNAPSHOT_METADATA st.path_index.rows.keys =
      ((inHashOrder o stored).take 101).map (SnapshotMetadata.text o) := by
    unfold walked
    rw [hpaths, List.map_take]
    rfl
  have hcount : ((inHashOrder o stored).take 101).length ≤ 101 := List.length_take_le _ _
  have hread : ∀ path ∈ keysWith PATH_PREFIX_SNAPSHOT_METADATA st.path_index.rows.keys,
      PathText.parse path = .ok (pathOf path) :=
    fun path hpath => st.path_index.parse_row (mem_pathsWith.mp hpath).1
  have hbytes : ∀ key ∈ ((inHashOrder o stored).take 101).map (SnapshotMetadata.text o),
      (Text.bytes key).length ≤ 96 := by
    intro key hkey
    obtain ⟨m, _, rfl⟩ := List.mem_map.mp hkey
    exact length_text o m
  have hsize : 0 < PrefixQueryOptions.default.page_size := by decide
  have hresults : (walked .default PATH_PREFIX_SNAPSHOT_METADATA
      st.path_index.rows.keys).length ≤ PrefixQueryOptions.default.max_results := by
    rw [hwalked, List.length_map]
    exact hcount.trans (by decide)
  have hmemory : keyBytes (walked .default PATH_PREFIX_SNAPSHOT_METADATA
      st.path_index.rows.keys) ≤ PrefixQueryOptions.default.max_memory_bytes := by
    rw [hwalked]
    refine (keyBytes_le hbytes).trans ?_
    rw [List.length_map]
    exact (Nat.mul_le_mul_right 96 hcount).trans (by decide)
  have hpage := prefixPage_eq pathOf (rising_keys st.path_index.rows) hsize hread hresults hmemory
  have hitems : scans.slice (((inHashOrder o stored).map (SnapshotMetadata.text o)).map pathOf)
      PrefixQueryOptions.default.page_size PrefixQueryOptions.default.page =
      ((inHashOrder o stored).take 100).map (fun m => (snapshot_path o m.height).parts) := by
    have hoffset : PrefixQueryOptions.default.page * PrefixQueryOptions.default.page_size = 0 := rfl
    have hsize : PrefixQueryOptions.default.page_size = 100 := rfl
    unfold scans.slice
    rw [hoffset, hsize, List.drop_zero, List.map_map, ← List.map_take]
    apply List.map_congr_left
    intro m _
    have hparse : PathText.parse (m.text o) = .ok (snapshot_path o m.height).parts := by
      unfold SnapshotMetadata.text
      rw [path_of_parts]
      exact parse_as_str trivial
    rw [Function.comp_apply, pathOf_of_parse hparse]
  unfold PathIndex.get_cado_paths_by_prefix PathIndex.get_cado_paths_by_prefix_secure
  rw [hlead, checkQuery_eq hvalid, hpage, hpaths, hitems]
  rfl

/-- A query that the rate limiter refuses fails. -/
theorem page_of_refused {index : PathIndex} {lead : Text} {allowed allowed_secure : Bool}
    (h : ¬ (allowed = true ∧ allowed_secure = true)) :
    ∃ e, index.get_cado_paths_by_prefix lead allowed allowed_secure = .error e := by
  unfold PathIndex.get_cado_paths_by_prefix
  rcases validate_cado_prefix_security lead with e | _
  · exact ⟨e, rfl⟩
  · cases allowed with
    | false => exact ⟨_, rfl⟩
    | true =>
      cases allowed_secure with
      | true => exact absurd ⟨rfl, rfl⟩ h
      | false =>
        unfold PathIndex.get_cado_paths_by_prefix_secure
        rw [checkQuery_eq rfl]
        exact ⟨_, rfl⟩

/-! ## The loops -/

theorem listLoop_eq (read : PathText → Option SnapshotMetadata) {limit : Nat}
    (paths : List PathText) (snapshots : List SnapshotMetadata) (h : snapshots.length < limit) :
    listLoop read limit paths snapshots =
      snapshots ++ (paths.filterMap read).take (limit - snapshots.length) := by
  induction paths generalizing snapshots with
  | nil => rw [listLoop, List.filterMap_nil, List.take_nil, List.append_nil]
  | cons p paths ih =>
    rw [listLoop]
    cases hread : read p with
    | none =>
      rw [Option.toList_none, List.append_nil, List.filterMap_cons_none hread,
        if_neg (Nat.not_le.mpr h)]
      exact ih snapshots h
    | some m =>
      have hlen : (snapshots ++ [m]).length = snapshots.length + 1 := by simp
      have hleft : limit - snapshots.length = limit - (snapshots.length + 1) + 1 := by omega
      rw [Option.toList_some, List.filterMap_cons_some hread, hlen, hleft, List.take_succ_cons]
      by_cases hfull : limit ≤ snapshots.length + 1
      · have hnone : limit - (snapshots.length + 1) = 0 := by omega
        rw [if_pos hfull, hnone, List.take_zero]
      · rw [if_neg hfull, ih _ (by rw [hlen]; omega), hlen, List.append_assoc]
        rfl

/-- With the limit 0 the loop still takes what the first path reads. -/
theorem listLoop_zero (read : PathText → Option SnapshotMetadata) (paths : List PathText) :
    listLoop read 0 paths [] = (paths.take 1).filterMap read := by
  cases paths with
  | nil => rfl
  | cons p paths =>
    rw [listLoop, if_pos (Nat.zero_le _)]
    cases hread : read p with
    | none => simp [hread]
    | some m => simp [hread]

/-- What a walk over some of the stored snapshots reads. -/
theorem HoldsSnapshots.filterMap_read (h : HoldsSnapshots o st stored)
    {some_ : List SnapshotMetadata} (hsome : some_ ⊆ stored) :
    (some_.map (fun m => (snapshot_path o m.height).parts)).filterMap (st.read_snapshot o) =
      some_.filter (fun m => m.Readable o) := by
  rw [List.filterMap_map, ← List.filterMap_eq_filter]
  apply List.filterMap_congr
  intro m hm
  rw [Function.comp_apply, h.read_stored (hsome hm)]
  simp [Option.guard]

/-- The readable snapshots of the first page. -/
def readPage (o : Outside) (stored : List SnapshotMetadata) : List SnapshotMetadata :=
  ((inHashOrder o stored).take 100).filter (fun m => m.Readable o)

/-- What the loop of `list_snapshots` finds. -/
def listed (o : Outside) (stored : List SnapshotMetadata) (limit : Nat) :
    List SnapshotMetadata :=
  if limit = 0 then ((inHashOrder o stored).take 1).filter (fun m => m.Readable o)
  else (readPage o stored).take limit

theorem take_subset_stored (o : Outside) (stored : List SnapshotMetadata) (k : Nat) :
    (inHashOrder o stored).take k ⊆ stored := by
  intro m hm
  exact (perm_inHashOrder o stored).mem_iff.mp (List.mem_of_mem_take hm)

theorem HoldsSnapshots.list_snapshots_eq (h : HoldsSnapshots o st stored) (limit : UInt32) :
    st.list_snapshots o limit true true = .ok (newestFirst (listed o stored limit.toNat)) := by
  have hloop : listLoop (st.read_snapshot o) limit.toNat
      (((inHashOrder o stored).take 100).map (fun m => (snapshot_path o m.height).parts)) [] =
        listed o stored limit.toNat := by
    unfold listed readPage
    by_cases hzero : limit.toNat = 0
    · rw [hzero, if_pos rfl, listLoop_zero, ← List.map_take, List.take_take,
        h.filterMap_read (take_subset_stored o stored _)]
      rfl
    · rw [if_neg hzero, listLoop_eq _ _ _ (Nat.pos_of_ne_zero hzero),
        h.filterMap_read (take_subset_stored o stored _)]
      rfl
  unfold CadoStore.list_snapshots
  rw [h.first_page, ← hloop]
  rfl

/-! ## When the listing has the newest -/

/-- How many stored snapshots are newer. -/
def heightRank (stored : List SnapshotMetadata) (m : SnapshotMetadata) : Nat :=
  rank (fun a b => reversed compare a.height b.height = .lt) stored m

/-- How many stored snapshots have a path before that of this one. -/
def hashRank (o : Outside) (stored : List SnapshotMetadata) (m : SnapshotMetadata) : Nat :=
  rank (fun a b => compare (a.text o) (b.text o) = .lt) stored m

theorem HoldsSnapshots.mem_take_hash (h : HoldsSnapshots o st stored) (k : Nat)
    (m : SnapshotMetadata) :
    m ∈ (inHashOrder o stored).take k ↔ m ∈ stored ∧ hashRank o stored m < k := by
  rw [(strict_inHashOrder h).mem_take_iff, (perm_inHashOrder o stored).mem_iff]
  unfold hashRank rank
  rw [(perm_inHashOrder o stored).countP_eq]

/-- A snapshot is listed where it is readable, on the first page, and few enough readable ones
come before it there. -/
theorem HoldsSnapshots.mem_take_page (h : HoldsSnapshots o st stored) (n : Nat)
    (m : SnapshotMetadata) :
    m ∈ (readPage o stored).take n ↔ m ∈ stored ∧ m.Readable o ∧ hashRank o stored m < 100 ∧
      hashRank o (stored.filter (fun m => m.Readable o)) m < n := by
  have hstrict := strict_inHashOrder h
  have hpage : Strict (fun a b => compare (a.text o) (b.text o) = .lt) (readPage o stored) :=
    ⟨(hstrict.sorted.sublist (List.take_sublist 100 _)).filter _, hstrict.asymm⟩
  have hmem : m ∈ readPage o stored ↔
      (m ∈ stored ∧ hashRank o stored m < 100) ∧ m.Readable o := by
    unfold readPage
    rw [List.mem_filter, h.mem_take_hash, decide_eq_true_eq]
  have hrank : m ∈ readPage o stored →
      rank (fun a b => compare (a.text o) (b.text o) = .lt) (readPage o stored) m =
        hashRank o (stored.filter (fun m => m.Readable o)) m := by
    intro hm
    have htake := hstrict.rank_take (fun m => m.Readable o) 100 (List.mem_of_mem_filter hm)
    unfold readPage hashRank
    rw [htake]
    unfold rank
    exact ((perm_inHashOrder o stored).filter _).countP_eq _
  rw [hpage.mem_take_iff]
  constructor
  · rintro ⟨hm, hbefore⟩
    rw [hrank hm] at hbefore
    obtain ⟨⟨hstored, hfirst⟩, hreadable⟩ := hmem.mp hm
    exact ⟨hstored, hreadable, hfirst, hbefore⟩
  · rintro ⟨hstored, hreadable, hfirst, hbefore⟩
    have hm := hmem.mpr ⟨⟨hstored, hfirst⟩, hreadable⟩
    exact ⟨hm, by rwa [hrank hm]⟩

/-- The newest snapshots, as many as the limit, are readable, are among the first hundred in the
order of the hashes, and have fewer readable ones before them there than the limit. For the
limit 0, the first in that order is not readable. -/
def NewestAreListed (o : Outside) (stored : List SnapshotMetadata) (limit : Nat) : Prop :=
  if limit = 0 then ∀ m ∈ stored, hashRank o stored m = 0 → ¬ m.Readable o
  else ∀ m ∈ stored, heightRank stored m < limit → m.Readable o ∧ hashRank o stored m < 100 ∧
    hashRank o (stored.filter (fun m => m.Readable o)) m < limit

theorem HoldsSnapshots.listed_iff (h : HoldsSnapshots o st stored) (limit : Nat) :
    newestFirst (listed o stored limit) = (newestFirst stored).take limit ↔
      NewestAreListed o stored limit := by
  unfold NewestAreListed listed
  by_cases hzero : limit = 0
  · rw [if_pos hzero, if_pos hzero, hzero, List.take_zero]
    have hempty : ∀ l : List SnapshotMetadata, newestFirst l = [] ↔ l = [] := by
      intro l
      unfold newestFirst
      rw [← List.length_eq_zero_iff, List.length_insertionSort, List.length_eq_zero_iff]
    rw [hempty, List.filter_eq_nil_iff]
    constructor
    · intro hnone m hm hrank hreadable
      have hfirst := (h.mem_take_hash 1 m).mpr ⟨hm, by omega⟩
      exact hnone m hfirst (decide_eq_true hreadable)
    · intro hnone m hm hreadable
      obtain ⟨hstored, hrank⟩ := (h.mem_take_hash 1 m).mp hm
      exact hnone m hstored (by omega) (of_decide_eq_true hreadable)
  · rw [if_neg hzero, if_neg hzero]
    have hsub : (readPage o stored).take limit ⊆ stored :=
      fun m hm => ((h.mem_take_page limit m).mp hm).1
    have hnodup : ((readPage o stored).take limit).Nodup :=
      ((((perm_inHashOrder o stored).nodup_iff.mpr h.nodup).sublist
        (List.take_sublist 100 _)).filter _).sublist (List.take_sublist _ _)
    have htop := @sort_eq_take_iff I64 SnapshotMetadata (reversed compare) _ _
      SnapshotMetadata.height _ _ limit h.distinct hsub hnodup (List.length_take_le limit _)
    refine htop.trans ?_
    apply forall₂_congr
    intro m hm
    rw [h.mem_take_page]
    simp only [hm, true_and]
    rfl

/-! ## When the latest is found -/

/-- The walk keeps its start, or has found the first of the highest that is above it. -/
theorem foldl_pickLatest (ms : List SnapshotMetadata) (found : I64 × Option SnapshotMetadata) :
    (ms.foldl (fun found m => pickLatest found (some m)) found = found ∧
      ∀ m ∈ ms, m.height.val ≤ found.1.val) ∨
    ∃ m ∈ ms, ms.foldl (fun found m => pickLatest found (some m)) found = (m.height, some m) ∧
      found.1.val < m.height.val ∧ ∀ n ∈ ms, n.height.val ≤ m.height.val := by
  induction ms generalizing found with
  | nil => exact Or.inl ⟨rfl, fun _ hm => by cases hm⟩
  | cons first ms ih =>
    rw [List.foldl_cons, pickLatest]
    by_cases habove : found.1.val < first.height.val
    · right
      rw [if_pos habove]
      rcases ih (first.height, some first) with ⟨hsame, hall⟩ | ⟨m, hm, hfound, hlt, hall⟩
      · refine ⟨first, List.mem_cons_self, hsame, habove, ?_⟩
        intro n hn
        rcases List.mem_cons.mp hn with rfl | hn
        · exact Int.le_refl _
        · exact hall n hn
      · refine ⟨m, List.mem_cons_of_mem _ hm, hfound, Int.lt_trans habove hlt, ?_⟩
        intro n hn
        rcases List.mem_cons.mp hn with rfl | hn
        · exact Int.le_of_lt hlt
        · exact hall n hn
    · rw [if_neg habove]
      rcases ih found with ⟨hsame, hall⟩ | ⟨m, hm, hfound, hlt, hall⟩
      · left
        refine ⟨hsame, ?_⟩
        intro n hn
        rcases List.mem_cons.mp hn with rfl | hn
        · omega
        · exact hall n hn
      · right
        refine ⟨m, List.mem_cons_of_mem _ hm, hfound, hlt, ?_⟩
        intro n hn
        rcases List.mem_cons.mp hn with rfl | hn
        · omega
        · exact hall n hn

theorem foldl_pickLatest_map (read : PathText → Option SnapshotMetadata) (paths : List PathText)
    (found : I64 × Option SnapshotMetadata) :
    paths.foldl (fun found p => pickLatest found (read p)) found =
      (paths.filterMap read).foldl (fun found m => pickLatest found (some m)) found := by
  induction paths generalizing found with
  | nil => rfl
  | cons p paths ih =>
    rw [List.foldl_cons, ih]
    cases hread : read p with
    | none => rw [List.filterMap_cons_none hread, pickLatest]
    | some m => rw [List.filterMap_cons_some hread, List.foldl_cons]

theorem HoldsSnapshots.latest_eq (h : HoldsSnapshots o st stored) :
    st.get_latest_snapshot_metadata o true true =
      .ok ((readPage o stored).foldl (fun found m => pickLatest found (some m))
        (I64.MIN, none)).2 := by
  have hread := h.filterMap_read (take_subset_stored o stored 100)
  unfold CadoStore.get_latest_snapshot_metadata readPage
  rw [h.first_page, ← hread, ← foldl_pickLatest_map]
  rfl

/-- The newest snapshot is readable, is among the first hundred in the order of the hashes, and
is above the height that the search starts from. -/
def LatestIsFound (o : Outside) (stored : List SnapshotMetadata) : Prop :=
  ∀ m ∈ stored, heightRank stored m = 0 →
    m.Readable o ∧ hashRank o stored m < 100 ∧ I64.MIN.val < m.height.val

theorem HoldsSnapshots.latest_iff (h : HoldsSnapshots o st stored) :
    ((readPage o stored).foldl (fun found m => pickLatest found (some m)) (I64.MIN, none)).2 =
        (newestFirst stored).head? ↔
      LatestIsFound o stored := by
  have hstrict := @strict_sorted_by_key I64 SnapshotMetadata (reversed compare) _ _
    SnapshotMetadata.height stored h.distinct
  have hperm : (newestFirst stored).Perm stored := List.perm_insertionSort _ _
  have hfirst : ∀ m, m ∈ (newestFirst stored).take 1 ↔ m ∈ stored ∧ heightRank stored m < 1 := by
    intro m
    have hmem := hstrict.mem_take_iff 1 m
    unfold heightRank rank
    rw [← hperm.countP_eq, ← hperm.mem_iff]
    exact hmem
  have hpage : ∀ m, m ∈ readPage o stored ↔
      (m ∈ stored ∧ hashRank o stored m < 100) ∧ m.Readable o := by
    intro m
    unfold readPage
    rw [List.mem_filter, h.mem_take_hash, decide_eq_true_eq]
  have hwalk := foldl_pickLatest (readPage o stored) (I64.MIN, none)
  unfold LatestIsFound
  cases hnewest : newestFirst stored with
  | nil =>
    rw [hnewest] at hperm
    rw [hperm.symm.eq_nil] at hpage ⊢
    have hnone : readPage o [] = [] := rfl
    rw [hnone]
    exact iff_of_true rfl (fun m hm => by cases hm)
  | cons top rest =>
    rw [hnewest] at hfirst
    have htop := (hfirst top).mp List.mem_cons_self
    have hhighest : ∀ m ∈ stored, m.height.val ≤ top.height.val := by
      intro m hm
      have hzero : heightRank stored top = 0 := by omega
      unfold heightRank rank at hzero
      have hnot := List.countP_eq_zero.mp hzero m hm
      rw [decide_eq_true_eq] at hnot
      exact Int.not_lt.mp (fun hlt => hnot (I64.compare_lt.mpr hlt))
    have honly : ∀ m ∈ stored, heightRank stored m = 0 → m = top := by
      intro m hm hzero
      exact List.mem_singleton.mp ((hfirst m).mpr ⟨hm, by omega⟩)
    rw [List.head?_cons]
    constructor
    · intro hfound m hm hzero
      rw [honly m hm hzero]
      rcases hwalk with ⟨hsame, _⟩ | ⟨n, hn, hsome, hlt, _⟩
      · rw [hsame] at hfound
        cases hfound
      · rw [hsome, Option.some.injEq] at hfound
        rw [← hfound]
        exact ⟨((hpage n).mp hn).2, ((hpage n).mp hn).1.2, hlt⟩
    · intro hall
      obtain ⟨hreadable, hrank, hlt⟩ := hall top htop.1 (by omega)
      have hmem := (hpage top).mpr ⟨⟨htop.1, hrank⟩, hreadable⟩
      rcases hwalk with ⟨_, hnone⟩ | ⟨n, hn, hsome, _, hmax⟩
      · exact absurd (hnone top hmem) (Int.not_le.mpr hlt)
      · have hstored := ((hpage n).mp hn).1.1
        have hheight : n.height = top.height :=
          I64.ext_val (Int.le_antisymm (hhighest n hstored) (hmax top hmem))
        rw [hsome, List.inj_on_of_nodup_map h.distinct hstored htop.1 hheight]

/-- For every set of stored snapshots and every limit: the listing has the newest ones, the
newest first, exactly when the page of the first hundred hashes has them and its readable ones
do not use up the limit before them, and the latest is found exactly when it is on that page. -/
theorem newest_snapshots_iff (o : Outside) (st : CadoStore) (stored : List SnapshotMetadata)
    (hstored : HoldsSnapshots o st stored) (limit : UInt32) (allowed allowed_secure : Bool) :
    (st.list_snapshots o limit allowed allowed_secure =
        .ok ((newestFirst stored).take limit.toNat) ↔
      (allowed = true ∧ allowed_secure = true) ∧ NewestAreListed o stored limit.toNat) ∧
    (st.get_latest_snapshot_metadata o allowed allowed_secure = .ok (newestFirst stored).head? ↔
      (allowed = true ∧ allowed_secure = true) ∧ LatestIsFound o stored) := by
  by_cases hallowed : allowed = true ∧ allowed_secure = true
  · obtain ⟨rfl, rfl⟩ := hallowed
    rw [hstored.list_snapshots_eq, hstored.latest_eq, Except.ok.injEq, Except.ok.injEq,
      hstored.listed_iff, hstored.latest_iff]
    simp only [and_self, true_and]
  · obtain ⟨e, hrefused⟩ := @page_of_refused st.path_index PATH_PREFIX_SNAPSHOT_METADATA _ _ hallowed
    have hlist : st.list_snapshots o limit allowed allowed_secure = .error e := by
      unfold CadoStore.list_snapshots
      rw [hrefused]
      rfl
    have hlatest : st.get_latest_snapshot_metadata o allowed allowed_secure = .error e := by
      unfold CadoStore.get_latest_snapshot_metadata
      rw [hrefused]
      rfl
    rw [hlist, hlatest]
    constructor
    · exact iff_of_false nofun (fun h => hallowed h.1)
    · exact iff_of_false nofun (fun h => hallowed h.1)

theorem snapshotHeight_lo (n : UInt16) : -2 ^ 63 ≤ (n.toNat : Int) := by omega

theorem snapshotHeight_hi (n : UInt16) : (n.toNat : Int) < 2 ^ 63 := by
  have hlt := n.toNat_lt
  omega

def snapshotHeight (n : UInt16) : I64 where
  val := n.toNat
  lo := snapshotHeight_lo n
  hi := snapshotHeight_hi n

theorem none_fits : Text.Fits "none".toList := by decide

theorem oneHash_fits : FitsUsize ["ab".toList].length ∧ ∀ hash ∈ ["ab".toList], Text.Fits hash := by
  decide

/-- A snapshot of one chunk. -/
def smallSnapshot (n : UInt16) : SnapshotMetadata where
  height := snapshotHeight n
  epoch := 0
  format_version := 1
  chunk_count := 1
  total_size := 3
  compression := "none".toList
  created_at := 7
  app_hash := 0
  accounts_count := 1
  staking_accounts_count := 0
  storage_staking_accounts_count := 0
  namespaces_count := 0
  chunk_hashes := ["ab".toList]
  compression_fits := none_fits
  hashes_fit := oneHash_fits

def twoSnapshots : List SnapshotMetadata := [smallSnapshot 600, smallSnapshot 500]

def twoSnapshotStore : CadoStore :=
  (CadoStore.empty.withSnapshot Outside.toy (smallSnapshot 500)).withSnapshot Outside.toy
    (smallSnapshot 600)

instance (ms : List SnapshotMetadata) : Decidable (HashesApart o ms) :=
  inferInstanceAs (Decidable (∀ m ∈ ms, ∀ n ∈ ms, (m.text o = n.text o → m.height = n.height) ∧
    (m.key o = n.key o → m.serialize o = n.serialize o)))

theorem twoSnapshotStore_holds : HoldsSnapshots Outside.toy twoSnapshotStore twoSnapshots :=
  ((HoldsSnapshots.empty Outside.toy).put (by decide +kernel)
    (toy_readsSnapshots.snapshot_metadata _)).put (by decide +kernel)
      (toy_readsSnapshots.snapshot_metadata _)

theorem newest_snapshots_of_two :
    (twoSnapshotStore.list_snapshots Outside.toy 2 true true =
        .ok ((newestFirst twoSnapshots).take 2) ↔
      (true = true ∧ true = true) ∧ NewestAreListed Outside.toy twoSnapshots 2) ∧
    (twoSnapshotStore.get_latest_snapshot_metadata Outside.toy true true =
        .ok (newestFirst twoSnapshots).head? ↔
      (true = true ∧ true = true) ∧ LatestIsFound Outside.toy twoSnapshots) :=
  newest_snapshots_iff Outside.toy twoSnapshotStore twoSnapshots twoSnapshotStore_holds 2 true true

instance (n : Nat) : Decidable (NewestAreListed o stored n) :=
  inferInstanceAs (Decidable (if n = 0 then ∀ m ∈ stored, hashRank o stored m = 0 → ¬ m.Readable o
    else ∀ m ∈ stored, heightRank stored m < n → m.Readable o ∧ hashRank o stored m < 100 ∧
      hashRank o (stored.filter (fun m => m.Readable o)) m < n))

/-- The path of the older of two snapshots comes first, so a listing of one gives that one. -/
theorem older_snapshot_is_listed :
    twoSnapshotStore.list_snapshots Outside.toy 1 true true = .ok [smallSnapshot 500] ∧
      newestFirst twoSnapshots = [smallSnapshot 600, smallSnapshot 500] ∧
      twoSnapshotStore.list_snapshots Outside.toy 1 true true ≠
        .ok ((newestFirst twoSnapshots).take 1) := by
  have hlisted : newestFirst (listed Outside.toy twoSnapshots 1) = [smallSnapshot 500] := by
    decide +kernel
  have hlist : twoSnapshotStore.list_snapshots Outside.toy 1 true true =
      .ok (newestFirst (listed Outside.toy twoSnapshots 1)) :=
    twoSnapshotStore_holds.list_snapshots_eq 1
  refine ⟨by rw [hlist, hlisted], by decide +kernel, ?_⟩
  rw [hlist, ne_eq, Except.ok.injEq, twoSnapshotStore_holds.listed_iff]
  decide +kernel

end eld_chain
