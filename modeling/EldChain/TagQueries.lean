-- The messages that carry a tag. The index joins a tag, a height and an id
-- with colons and is scanned by the tag and a colon, but tags and ids may
-- have colons of their own. The pages are then exact for the tag just
-- when no other row begins like one of its rows and no id has a colon.
import EldChain.IndexKeys
import EldChain.PinboardHistory
import EldChain.PrefixQueries

open Std

namespace eld_chain

/-! ## The query -/

/-- `rsplit_once` at the last occurrence of a character. -/
def rsplit_once (c : Char) (s : Text) : Option (Text × Text) :=
  (split_once c s.reverse).map (fun parts => (parts.2.reverse, parts.1.reverse))

/-- What follows the last colon of a key, or the key if it has none. -/
def message_id_of_tag_key (key : Text) : Text :=
  match rsplit_once ':' key with
  | some (_, message_id) => message_id
  | none => key

/-- `allowed` is the answer of the rate limiter to this query. -/
def PinboardTables.get_pinboard_message_ids_by_tag_secure (t : PinboardTables) (tag : Text)
    (options : PrefixQueryOptions) (allowed : Bool) : Except EldError (PaginatedResult Text) := do
  checkQuery options allowed ("Rate limit exceeded for tag query: " ++ String.ofList tag)
  let canonical ← canonicalize_post_message_tags [tag]
  let tag := canonical.head?.getD tag
  prefixPage options (tag ++ [':']) (fun key => .ok (message_id_of_tag_key key)) t.idx_tag.toList

/-- The pages 0, 1, 2 and so on of a query that the rate limiter lets through, until one says
that no more follow. -/
def PinboardTables.request_tag_pages (t : PinboardTables) (tag : Text)
    (options : PrefixQueryOptions) (fuel : Nat) : Option (Except EldError (List Text)) :=
  scans.collect (fun page =>
    (t.get_pinboard_message_ids_by_tag_secure tag (options.at page) true).map
      (fun r => (r.items, r.has_more))) fuel 0

/-! ## The id in a key -/

theorem split_once_first {c : Char} {t : Text} (h : c ∈ t) :
    ∃ first rest, c ∉ first ∧ split_once c t = some (first, rest) := by
  induction t with
  | nil => cases h
  | cons a t ih =>
    by_cases ha : a = c
    · exact ⟨[], t, List.not_mem_nil, by rw [split_once, if_pos ha]⟩
    · obtain ⟨first, rest, hfirst, hsplit⟩ := ih (List.mem_of_ne_of_mem (Ne.symm ha) h)
      refine ⟨a :: first, rest, ?_, ?_⟩
      · rw [List.mem_cons, not_or]
        exact ⟨Ne.symm ha, hfirst⟩
      · rw [split_once, if_neg ha, hsplit]
        rfl

/-- An id without a colon reads back from its key. -/
theorem message_id_of_tag_index_key (tag : Text) (committed_height : UInt64) {message_id : Text}
    (h : ':' ∉ message_id) :
    message_id_of_tag_key (pinboard_tag_index_key tag committed_height message_id) =
      message_id := by
  unfold message_id_of_tag_key rsplit_once pinboard_tag_index_key
  rw [List.reverse_append, List.reverse_cons, List.append_assoc, List.singleton_append,
    split_once_append (by rwa [List.mem_reverse])]
  simp

/-- What is read from a key has no colon. -/
theorem colon_not_in_read_id {key : Text} (h : ':' ∈ key) : ':' ∉ message_id_of_tag_key key := by
  obtain ⟨first, rest, hfirst, hsplit⟩ := split_once_first (List.mem_reverse.mpr h)
  unfold message_id_of_tag_key rsplit_once
  rw [hsplit]
  simpa using hfirst

/-! ## The order of a tag's keys -/

theorem compare_tag_index_key (tag : Text) (p q : UInt64 × Text) :
    compare (pinboard_tag_index_key tag p.1 p.2) (pinboard_tag_index_key tag q.1 q.2) =
      (compare p.1.toNat q.1.toNat).then (compare p.2 q.2) := by
  have hp := p.1.toNat_lt
  have hq := q.1.toNat_lt
  unfold pinboard_tag_index_key u64_hex_fixed
  rw [List.append_assoc, List.append_assoc, scans.compare_append_same, List.cons_append,
    List.cons_append, List.compare_cons_cons, ReflOrd.compare_self,
    compare_hexDigits (by omega) (by omega), List.compare_cons_cons, ReflOrd.compare_self]
  rfl

theorem tag_index_key_inj {tag : Text} {p q : UInt64 × Text}
    (h : pinboard_tag_index_key tag p.1 p.2 = pinboard_tag_index_key tag q.1 q.2) : p = q := by
  have hcmp := compare_tag_index_key tag p q
  rw [h, ReflOrd.compare_self] at hcmp
  obtain ⟨hheight, hid⟩ := Ordering.then_eq_eq.mp hcmp.symm
  exact Prod.ext (UInt64.toNat_inj.mp (Nat.compare_eq_eq.mp hheight))
    (LawfulEqOrd.eq_of_compare hid)

/-! ## The rows of a history -/

variable {t t' : PinboardTables} {posted : List PinboardMessageMetadata}
variable {history : PinboardHistory} {tag canonical : Text} {options : PrefixQueryOptions}

def PinboardMessageMetadata.tag_key (m : PinboardMessageMetadata) (tag : Text) : Text :=
  pinboard_tag_index_key tag m.committed_height m.message_id

/-- A commit adds a key for each tag of each message of the block. -/
theorem mem_tag_index (h : t.commit (.staging posted) = .ok t') (key : Text) :
    key ∈ t'.idx_tag ↔
      key ∈ t.idx_tag ∨ ∃ m ∈ posted, ∃ tag ∈ m.tags, m.tag_key tag = key := by
  unfold PinboardTables.commit at h
  split at h
  · cases h
  · cases h
    have hafter : ∀ (t : PinboardTables) (e : AppStateEnvelope), (t.putIndexes e).idx_tag =
        (e.pinboard_idx_tag_add.foldl
          (fun t p => t.put_pinboard_tag_index_with_tx p.1 p.2.1 p.2.2)
          (e.pinboard_idx_wallet_add.foldl
            (fun t p => t.put_pinboard_wallet_index_with_tx p.1 p.2.1 p.2.2) t)).idx_tag := by
      intro t e
      unfold PinboardTables.putIndexes
      refine (foldl_column ?_ _ _).trans (foldl_column ?_ _ _)
      all_goals
        intro _ _
        rfl
    have hbefore : ∀ (t : PinboardTables) (e : AppStateEnvelope),
        (e.pinboard_idx_wallet_add.foldl
          (fun t p => t.put_pinboard_wallet_index_with_tx p.1 p.2.1 p.2.2)
            (t.putMetadata e)).idx_tag = t.idx_tag := by
      intro t e
      refine (foldl_column ?_ _ _).trans (foldl_column ?_ _ _)
      all_goals
        intro _ _
        rfl
    have hadd : (AppStateEnvelope.staging posted).pinboard_idx_tag_add =
        posted.flatMap (fun m => m.tags.map (fun tag => (tag, m.committed_height, m.message_id))) :=
      (staged_column StagedPosts.idx_tag_add (fun _ _ => rfl) posted .empty).trans
        (List.nil_append _)
    change key ∈ ((t.putMetadata _).putIndexes _).idx_tag ↔ _
    rw [hafter, mem_foldl_insert PinboardTables.idx_tag (fun _ _ => rfl), hbefore, hadd]
    apply or_congr_right
    simp only [List.mem_flatMap, List.mem_map]
    constructor
    · rintro ⟨_, ⟨m, hm, tag, htag, rfl⟩, hkey⟩
      exact ⟨m, hm, tag, htag, hkey⟩
    · rintro ⟨m, hm, tag, htag, hkey⟩
      exact ⟨_, ⟨m, hm, tag, htag, rfl⟩, hkey⟩

theorem mem_tag_index_after {blocks : List (List PinboardMessageMetadata)}
    (h : PinboardTables.after blocks t = .ok t') (key : Text) :
    key ∈ t'.idx_tag ↔
      key ∈ t.idx_tag ∨ ∃ m ∈ blocks.flatten, ∃ tag ∈ m.tags, m.tag_key tag = key := by
  induction blocks generalizing t with
  | nil =>
    cases h
    simp
  | cons posted blocks ih =>
    rw [PinboardTables.after] at h
    cases hcommit : t.commit (.staging posted) with
    | error e =>
      rw [hcommit] at h
      cases h
    | ok t₁ =>
      rw [hcommit] at h
      rw [ih h, mem_tag_index hcommit, List.flatten_cons]
      simp only [List.mem_append, or_and_right, exists_or, or_assoc]

/-- The index of a history has the keys of its messages and their tags. -/
theorem PinboardHistory.mem_idx_tag (history : PinboardHistory) (key : Text) :
    key ∈ history.tables.idx_tag ↔
      ∃ m ∈ history.messages, ∃ tag ∈ m.tags, m.tag_key tag = key := by
  rw [mem_tag_index_after history.committed]
  simp [PinboardTables.empty, PinboardHistory.messages]

/-- The keys that a query for a canonical tag scans. -/
def PinboardTables.tag_rows (t : PinboardTables) (canonical : Text) : List Text :=
  keysWith (canonical ++ [':']) t.idx_tag.toList

theorem PinboardHistory.mem_tag_rows (history : PinboardHistory) (key : Text) :
    key ∈ history.tables.tag_rows canonical ↔
      (∃ m ∈ history.messages, ∃ tag ∈ m.tags, m.tag_key tag = key) ∧
        canonical ++ [':'] <+: key := by
  unfold PinboardTables.tag_rows keysWith
  rw [List.mem_filter, ExtTreeSet.mem_toList, history.mem_idx_tag, List.isPrefixOf_iff_prefix]

theorem tag_rows_rising (t : PinboardTables) (canonical : Text) :
    scans.Rising (t.tag_rows canonical) :=
  ExtTreeSet.ordered_toList.filter _

theorem tag_key_leads (m : PinboardMessageMetadata) (tag : Text) :
    tag ++ [':'] <+: m.tag_key tag := by
  refine ⟨u64_hex_fixed m.committed_height ++ ':' :: m.message_id, ?_⟩
  unfold PinboardMessageMetadata.tag_key pinboard_tag_index_key
  simp

/-- Within the limits the pages give the id of every scanned key. -/
theorem request_tag_pages_eq (hcanonical : canonicalize_post_message_tags [tag] = .ok [canonical])
    (hvalid : options.validate = .ok ())
    (hcount : (t.tag_rows canonical).length ≤ options.max_results)
    (hmemory : keyBytes (t.tag_rows canonical) ≤ options.max_memory_bytes) {fuel : Nat}
    (hfuel : (t.tag_rows canonical).length < fuel) :
    t.request_tag_pages tag options fuel =
      some (.ok ((t.tag_rows canonical).map message_id_of_tag_key)) := by
  have hsize := page_size_pos hvalid
  have hpage : ∀ page, (t.get_pinboard_message_ids_by_tag_secure tag (options.at page) true).map
      (fun r => (r.items, r.has_more)) =
        .ok (scans.slice ((t.tag_rows canonical).map message_id_of_tag_key) options.page_size page,
          decide ((page + 1) * options.page_size <
            ((t.tag_rows canonical).map message_id_of_tag_key).length)) ∨
        False ∧ (t.get_pinboard_message_ids_by_tag_secure tag (options.at page) true).map
          (fun r => (r.items, r.has_more)) = .error (.CoinError "") := by
    intro page
    left
    have hsame : (options.at page).validate = .ok () := hvalid
    have hlisted := @prefixPage_eq Text (options.at page) (canonical ++ [':'])
      (fun key => .ok (message_id_of_tag_key key)) message_id_of_tag_key t.idx_tag.toList
      ExtTreeSet.ordered_toList hsize (fun _ _ => rfl) ((length_walked _ _ _).trans hcount)
      ((keyBytes_walked _ _ _).trans hmemory)
    unfold PinboardTables.get_pinboard_message_ids_by_tag_secure
    rw [checkQuery_eq hsame, hcanonical]
    change Except.map _ (prefixPage (options.at page) (canonical ++ [':'])
      (fun key => .ok (message_id_of_tag_key key)) t.idx_tag.toList) = _
    rw [hlisted, List.length_map]
    rfl
  rcases scans.collect_rest hsize hpage fuel 0 (by rw [List.length_map]; omega) (by omega)
    with hall | ⟨⟨_, hfalse⟩, _⟩
  · rw [Nat.zero_mul, List.drop_zero] at hall
    exact hall
  · exact hfalse.elim

/-! ## The messages of a tag -/

/-- A message carries the tag, and was committed with this height and this id. -/
def PinboardHistory.Carries (history : PinboardHistory) (tag : Text) (post : UInt64 × Text) :
    Prop :=
  ∃ m ∈ history.messages, tag ∈ m.tags ∧ (m.committed_height, m.message_id) = post

/-- What a listing by tag should be: the ids of the messages that carry the tag, each message
once, by height. -/
def PinboardHistory.ListsTag (history : PinboardHistory) (tag : Text) (ids : List Text) : Prop :=
  ∃ posts : List (UInt64 × Text), posts.Nodup ∧ (∀ post, post ∈ posts ↔ history.Carries tag post) ∧
    posts.Pairwise (fun p q => p.1 ≤ q.1) ∧ ids = posts.map Prod.snd

/-- A key that begins with a tag and a colon is one of the tag's own, and no id of a message
with the tag has a colon. -/
structure PinboardHistory.TagApart (history : PinboardHistory) (tag : Text) : Prop where
  own : ∀ m ∈ history.messages, ∀ other ∈ m.tags, tag ++ [':'] <+: m.tag_key other →
    ∃ post, history.Carries tag post ∧ m.tag_key other = pinboard_tag_index_key tag post.1 post.2
  plain : ∀ post, history.Carries tag post → ':' ∉ post.2

theorem own_key_mem {post : UInt64 × Text} (h : history.Carries tag post) :
    pinboard_tag_index_key tag post.1 post.2 ∈ history.tables.tag_rows tag := by
  obtain ⟨m, hm, htag, rfl⟩ := h
  exact (history.mem_tag_rows _).mpr ⟨⟨m, hm, tag, htag, rfl⟩, tag_key_leads m tag⟩

/-- A list whose members are all values of a function is the image of a list. -/
theorem exists_map_eq {B C : Type} {f : B → C} {l : List C} (h : ∀ c ∈ l, ∃ b, f b = c) :
    ∃ l' : List B, l'.map f = l := by
  induction l with
  | nil => exact ⟨[], rfl⟩
  | cons c l ih =>
    obtain ⟨b, rfl⟩ := h c List.mem_cons_self
    obtain ⟨l', rfl⟩ := ih (fun c hc => h c (List.mem_cons_of_mem _ hc))
    exact ⟨b :: l', rfl⟩

theorem rising_nodup {keys : List Text} (h : scans.Rising keys) : keys.Nodup := by
  refine h.imp ?_
  rintro a b hlt rfl
  rw [ReflOrd.compare_self] at hlt
  cases hlt

/-- Where the keys are apart, the rows of a tag are those of its messages, by height. -/
theorem lists_of_apart (h : history.TagApart tag) :
    history.ListsTag tag ((history.tables.tag_rows tag).map message_id_of_tag_key) := by
  have hown : ∀ key ∈ history.tables.tag_rows tag, ∃ post, history.Carries tag post ∧
      pinboard_tag_index_key tag post.1 post.2 = key := by
    intro key hkey
    obtain ⟨⟨m, hm, other, hother, rfl⟩, hlead⟩ := (history.mem_tag_rows key).mp hkey
    obtain ⟨post, hcarries, heq⟩ := h.own m hm other hother hlead
    exact ⟨post, hcarries, heq.symm⟩
  obtain ⟨posts, hposts⟩ := exists_map_eq (fun key hkey => (hown key hkey).imp fun _ hp => hp.2)
  have hrising := tag_rows_rising history.tables tag
  have hmem : ∀ post, post ∈ posts ↔ history.Carries tag post := by
    intro post
    constructor
    · intro hpost
      have hkey : pinboard_tag_index_key tag post.1 post.2 ∈ history.tables.tag_rows tag := by
        rw [← hposts]
        exact List.mem_map_of_mem hpost
      obtain ⟨post', hcarries, heq⟩ := hown _ hkey
      rw [← tag_index_key_inj heq]
      exact hcarries
    · intro hcarries
      have hkey := own_key_mem hcarries
      rw [← hposts] at hkey
      obtain ⟨post', hpost', heq⟩ := List.mem_map.mp hkey
      rw [← tag_index_key_inj heq]
      exact hpost'
  refine ⟨posts, ?_, hmem, ?_, ?_⟩
  · have hnodup := rising_nodup hrising
    rw [← hposts] at hnodup
    exact hnodup.of_map _
  · rw [← hposts] at hrising
    refine (List.pairwise_map.mp hrising).imp ?_
    intro p q hlt
    rw [compare_tag_index_key, Ordering.then_eq_lt] at hlt
    rw [UInt64.le_iff_toNat_le]
    rcases hlt with hlt | ⟨heq, _⟩
    · exact Nat.le_of_lt (Nat.compare_eq_lt.mp hlt)
    · exact Nat.le_of_eq (Nat.compare_eq_eq.mp heq)
  · rw [← hposts, List.map_map]
    apply List.map_congr_left
    intro post hpost
    exact message_id_of_tag_index_key tag post.1 (h.plain post ((hmem post).mp hpost))

/-- Where the rows of a tag list its messages, its keys are apart. -/
theorem apart_of_lists
    (h : history.ListsTag tag ((history.tables.tag_rows tag).map message_id_of_tag_key)) :
    history.TagApart tag := by
  obtain ⟨posts, hnodup, hmem, _, hids⟩ := h
  have hsub : posts.map (fun post => pinboard_tag_index_key tag post.1 post.2) ⊆
      history.tables.tag_rows tag := by
    intro key hkey
    obtain ⟨post, hpost, rfl⟩ := List.mem_map.mp hkey
    exact own_key_mem ((hmem post).mp hpost)
  have hinjective : (posts.map (fun post => pinboard_tag_index_key tag post.1 post.2)).Nodup :=
    hnodup.map (fun _ _ heq => tag_index_key_inj heq)
  have hlength := congrArg List.length hids
  rw [List.length_map, List.length_map] at hlength
  have hperm := (List.subperm_of_subset hinjective hsub).perm_of_length_le (by simp [hlength])
  constructor
  · intro m hm other hother hlead
    have hkey : m.tag_key other ∈ history.tables.tag_rows tag :=
      (history.mem_tag_rows _).mpr ⟨⟨m, hm, other, hother, rfl⟩, hlead⟩
    obtain ⟨post, hpost, heq⟩ := List.mem_map.mp (hperm.mem_iff.mpr hkey)
    exact ⟨post, (hmem post).mp hpost, heq.symm⟩
  · intro post hcarries
    have hid : post.2 ∈ (history.tables.tag_rows tag).map message_id_of_tag_key := by
      rw [hids]
      exact List.mem_map_of_mem ((hmem post).mpr hcarries)
    obtain ⟨key, hkey, hread⟩ := List.mem_map.mp hid
    rw [← hread]
    apply colon_not_in_read_id
    exact ((history.mem_tag_rows key).mp hkey).2.subset (List.mem_append_right _ List.mem_cons_self)

/-- Below the limits the pages of a tag list the messages that carry its canonical form
exactly when its keys are apart from those of other tags and its ids are without colons. -/
theorem tag_pages_are_exact_iff (history : PinboardHistory) (tag canonical : Text)
    (options : PrefixQueryOptions) (fuel : Nat)
    (hcanonical : canonicalize_post_message_tags [tag] = .ok [canonical])
    (hvalid : options.validate = .ok ())
    (hcount : (history.tables.tag_rows canonical).length ≤ options.max_results)
    (hmemory : keyBytes (history.tables.tag_rows canonical) ≤ options.max_memory_bytes)
    (hfuel : (history.tables.tag_rows canonical).length < fuel) :
    (∃ ids, history.tables.request_tag_pages tag options fuel = some (.ok ids) ∧
      history.ListsTag canonical ids) ↔ history.TagApart canonical := by
  rw [request_tag_pages_eq hcanonical hvalid hcount hmemory hfuel]
  constructor
  · rintro ⟨ids, hids, hlists⟩
    cases hids
    exact apart_of_lists hlists
  · intro hapart
    exact ⟨_, rfl, lists_of_apart hapart⟩

/-! ## A tag with a colon -/

def taggedPost (message_id tag : String) : PinboardMessageMetadata where
  message_id := message_id.toList
  original_signer := alice
  content_key := "k".toList
  content_type := "text/plain".toList
  expires_height := 10
  visibility := "public".toList
  topic := none
  tags := [tag.toList]
  committed_height := 1
  received_timestamp := 0
  namespace_ := none

/-- A block with a message about cats, and one about a kind of them. -/
def catBlocks : List (List PinboardMessageMetadata) :=
  [[taggedPost "m" "cat", taggedPost "n" "cat:tabby"]]

theorem catBlocks_commit :
    (PinboardTables.after catBlocks .empty).toOption.isSome = true := by decide +kernel

def catTables : PinboardTables := (PinboardTables.after catBlocks .empty).toOption.getD .empty

theorem catTables_committed : PinboardTables.after catBlocks .empty = .ok catTables := by
  have hsome := catBlocks_commit
  unfold catTables
  cases hafter : PinboardTables.after catBlocks .empty with
  | error e =>
    rw [hafter] at hsome
    cases hsome
  | ok t => rfl

def catHistory : PinboardHistory := ⟨catBlocks, catTables, catTables_committed⟩

theorem tag_pages_of_catHistory :
    (∃ ids, catHistory.tables.request_tag_pages "cat".toList (.with_pagination 0 10) 3 =
        some (.ok ids) ∧ catHistory.ListsTag "cat".toList ids) ↔
      catHistory.TagApart "cat".toList :=
  tag_pages_are_exact_iff catHistory "cat".toList "cat".toList (.with_pagination 0 10) 3 rfl rfl
    (by decide +kernel) (by decide +kernel) (by decide +kernel)

/-- The pages of a tag list a message with another tag. -/
theorem tag_pages_list_other_tag :
    ¬ ∀ (history : PinboardHistory) (tag canonical : Text) (options : PrefixQueryOptions)
        (fuel : Nat),
      (∀ m ∈ history.messages, canonicalize_post_message_tags m.tags = .ok m.tags) →
      canonicalize_post_message_tags [tag] = .ok [canonical] → options.validate = .ok () →
      (history.tables.tag_rows canonical).length ≤ options.max_results →
      keyBytes (history.tables.tag_rows canonical) ≤ options.max_memory_bytes →
      (history.tables.tag_rows canonical).length < fuel →
      ∃ ids, history.tables.request_tag_pages tag options fuel = some (.ok ids) ∧
        history.ListsTag canonical ids := by
  intro hall
  have htags : ∀ m ∈ catHistory.messages, canonicalize_post_message_tags m.tags = .ok m.tags := by
    intro m hm
    obtain rfl | rfl : m = taggedPost "m" "cat" ∨ m = taggedPost "n" "cat:tabby" := by
      simpa [PinboardHistory.messages, catHistory, catBlocks] using hm
    · rfl
    · rfl
  have hcanonical : canonicalize_post_message_tags ["cat".toList] = .ok ["cat".toList] := rfl
  have hvalid : (PrefixQueryOptions.with_pagination 0 10).validate = .ok () := rfl
  have hcount : (catHistory.tables.tag_rows "cat".toList).length ≤ 1000 := by decide +kernel
  have hmemory : keyBytes (catHistory.tables.tag_rows "cat".toList) ≤ 50 * 1024 * 1024 := by
    decide +kernel
  have hfuel : (catHistory.tables.tag_rows "cat".toList).length < 3 := by decide +kernel
  obtain ⟨ids, hids, hlists⟩ := hall catHistory "cat".toList "cat".toList (.with_pagination 0 10) 3
    htags hcanonical hvalid hcount hmemory hfuel
  rw [request_tag_pages_eq hcanonical hvalid hcount hmemory hfuel] at hids
  cases hids
  have hother : taggedPost "n" "cat:tabby" ∈ catHistory.messages :=
    List.mem_cons_of_mem _ List.mem_cons_self
  obtain ⟨post, ⟨m, hm, htag, rfl⟩, hkey⟩ := (apart_of_lists hlists).own _ hother
    "cat:tabby".toList List.mem_cons_self ⟨"tabby:0000000000000001:n".toList, by decide⟩
  -- the one message about cats has another key
  obtain rfl | rfl : m = taggedPost "m" "cat" ∨ m = taggedPost "n" "cat:tabby" := by
    simpa [PinboardHistory.messages, catHistory, catBlocks] using hm
  · revert hkey
    decide
  · revert htag
    decide

end eld_chain
