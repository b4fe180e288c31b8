-- Posts over REST. A listing walks over an index of the pinboard, reads
-- the row of each id and loads the blob of each post that has not expired.
-- The pages of the feed give every committed post once, with its own row
-- and in the order of the chain, just when no row was replaced and the
-- index is within the limits of one query.
import EldChain.GenuineContents
import EldChain.Library.Base64
import EldChain.PinboardGcSafety
import EldChain.PinboardPaths
import EldChain.TagQueries

open Std fallible

namespace eld_chain

/-! ## The listings -/

/-- `allowed` is the answer of the rate limiter to this query. -/
def PinboardTables.get_pinboard_message_ids_by_wallet_secure (t : PinboardTables) (wallet : Text)
    (options : PrefixQueryOptions) (allowed : Bool) : Except EldError (PaginatedResult Text) := do
  checkQuery options allowed ("Rate limit exceeded for wallet query: " ++ String.ofList wallet)
  prefixPage options (wallet ++ [':']) (fun key => .ok (message_id_of_tag_key key))
    t.idx_wallet.toList

/-- The page after a page, with its size. -/
def PaginatedResult.next_cursor {T : Type} (r : PaginatedResult T) : Option String :=
  if r.has_more then some (toString (r.page + 1) ++ ":" ++ toString r.page_size) else none

/-! ## The handlers -/

/-- Why a request ends without an answer to its question: an error that it returns, or a panic. -/
inductive RestStop
  | error (e : ApiError)
  | panic

abbrev RestProg := EStateM RestStop CapacityManager

structure PinboardPostsQueryParams where
  order : Option PinboardGlobalFeedOrder
  page : Option Nat
  page_size : Option Nat
  wallet : Option Text
  include_expired : Option Bool

structure PinboardRestPagination where
  page : Nat
  page_size : Nat
  has_more : Bool
  next_cursor : Option String
deriving DecidableEq

structure PinboardRestPostItem where
  cado_path : Text
  metadata : PinboardMessageMetadata
  message_b64 : Option Text
  blob_status : String
deriving DecidableEq

structure PinboardPostsResponse where
  items : List PinboardRestPostItem
  pagination : PinboardRestPagination
deriving DecidableEq

/-- The last committed height, from the application state in memory. -/
def current_committed_height (committed_state : AppState) : UInt64 :=
  asU64 (max committed_state.envelope.block_height.val 0)

def load_pinboard_blob_from_capacity_slots (content_key : Text) : RestProg (Option Bytes) :=
  fun s =>
    match get_content_from_slots content_key s with
    | .ok blob s => .ok blob s
    | .error .panic s => .error .panic s
    | .error (.error e) s => .error (.error (.InternalServerError e.to_string none)) s

def pinboard_blob_fields (o : Outside) (m : PinboardMessageMetadata) (current_height : UInt64)
    (blob_bytes : Option Bytes) : Option Text × String :=
  if m.expires_height ≤ current_height then (none, "expired")
  else
    match blob_bytes with
    | some bytes => (some (o.base64.encode bytes), "available")
    | none => (none, "missing")

def restPostItem (o : Outside) (m : PinboardMessageMetadata) (current_height : UInt64)
    (blob_bytes : Option Bytes) : PinboardRestPostItem :=
  let fields := pinboard_blob_fields o m current_height blob_bytes
  ⟨pinboard_response_cado_path m, m, fields.1, fields.2⟩

/-- The blob of an expired post is not loaded. -/
def loadPostBlob (m : PinboardMessageMetadata) (current_height : UInt64) :
    RestProg (Option Bytes) :=
  if m.expires_height ≤ current_height then pure none
  else load_pinboard_blob_from_capacity_slots m.content_key

def answerPost (o : Outside) (m : PinboardMessageMetadata) (current_height : UInt64) :
    RestProg PinboardRestPostItem := do
  let blob_bytes ← loadPostBlob m current_height
  pure (restPostItem o m current_height blob_bytes)

/-- The items for the ids of a page. An id without a row is left out. -/
def PinboardTables.postItems (o : Outside) (t : PinboardTables) (current_height : UInt64)
    (include_expired : Bool) : List Text → RestProg (List PinboardRestPostItem)
  | [] => pure []
  | message_id :: ids =>
    match t.get_pinboard_metadata message_id with
    | none => t.postItems o current_height include_expired ids
    | some m =>
      if include_expired = false ∧ m.expires_height ≤ current_height then
        t.postItems o current_height include_expired ids
      else do
        let item ← answerPost o m current_height
        let items ← t.postItems o current_height include_expired ids
        pure (item :: items)

/-- The ids of a page, of one wallet or of all. -/
def PinboardTables.listPosts (t : PinboardTables) (wallet : Option Text)
    (order : PinboardGlobalFeedOrder) (options : PrefixQueryOptions) (allowed : Bool) :
    Except ApiError (PaginatedResult Text) :=
  match wallet with
  | some wallet_raw =>
    match Address.parse_hex_str wallet_raw with
    | .error e => .error (.BadRequest "Invalid wallet" (some e.to_string))
    | .ok wallet =>
      match t.get_pinboard_message_ids_by_wallet_secure (Address.text wallet) options allowed with
      | .error e => .error (.InternalServerError "Failed to list wallet pinboard posts"
          (some e.to_string))
      | .ok ids => .ok ids
  | none =>
    match t.get_pinboard_message_ids_global_secure order options allowed with
    | .error e => .error (.InternalServerError "Failed to list pinboard posts" (some e.to_string))
    | .ok ids => .ok ids

/-- `GET /pinboard/posts`, past the rate limit of the API. -/
def PinboardTables.handle_get_pinboard_posts (o : Outside) (t : PinboardTables)
    (current_height : UInt64)
    (params : PinboardPostsQueryParams) (allowed : Bool) : RestProg PinboardPostsResponse :=
  let order := params.order.getD .Desc
  let page := params.page.getD 0
  let page_size := params.page_size.getD 100
  let include_expired := params.include_expired.getD true
  if page_size = 0 ∨ 100 < page_size then
    throw (.error (.BadRequest "Invalid page_size" (some "page_size must be in range 1..=100")))
  else
    match t.listPosts params.wallet order (.with_pagination page page_size) allowed with
    | .error e => throw (.error e)
    | .ok ids_page => do
      let items ← t.postItems o current_height include_expired ids_page.items
      pure ⟨items, ids_page.page, ids_page.page_size, ids_page.has_more, ids_page.next_cursor⟩

/-- `GET /pinboard/post`, past the rate limit of the API, with the blob of the post. -/
def PinboardTables.get_pinboard_post_item (o : Outside) (t : PinboardTables)
    (current_height : UInt64)
    (path : Text) : RestProg PinboardRestPostItem :=
  match t.handle_get_pinboard_post_by_path path with
  | .error e => throw (.error e)
  | .ok m => answerPost o m current_height

variable {o : Outside} {s : CapacityManager} {t : PinboardTables} {current_height : UInt64}
variable {options : PrefixQueryOptions} {order : PinboardGlobalFeedOrder} {page_size : Nat}

/-! ## A page of the feed -/

/-- The keys that a query reaches: they fit into its memory, and are no more than its results. -/
def reached (options : PrefixQueryOptions) (total memory : Nat) (keys : List Text) : List Text :=
  (selection.within keySize options.max_memory_bytes memory keys).take (options.max_results - total)

/-- A page holds the keys that the query reaches from its offset on, as many as its size, and has
processed one key more where there is a further one. -/
theorem collectPage_reached (keys items : List Text) (total memory : Nat)
    (hlength : items.length = total - options.offset) (hfits : items.length ≤ options.page_size)
    (htotal : total ≤ options.offset + options.page_size) (hmax : total ≤ options.max_results) :
    collectPage options keys items total memory =
      (items ++ (((reached options total memory keys).drop (options.offset - total)).take
          (options.page_size - items.length)).map message_id_of_commit_key,
        if options.offset + options.page_size < total + (reached options total memory keys).length
          then options.offset + options.page_size + 1
        else if (reached options total memory keys).length < keys.length
          then total + (reached options total memory keys).length + 1
        else total + (reached options total memory keys).length) := by
  induction keys generalizing items total memory with
  | nil =>
    have hnone : reached options total memory [] = [] := by simp [reached, selection.within]
    rw [collectPage, hnone, if_neg (by simp; omega), if_neg (by simp)]
    simp
  | cons key keys ih =>
    rw [collectPage]
    by_cases hmemory : options.max_memory_bytes < memory + keySize key
    · have hnone : reached options total memory (key :: keys) = [] := by
        unfold reached
        rw [selection.within, if_pos hmemory, List.take_nil]
      unfold keySize at hmemory
      rw [if_pos hmemory, hnone, if_neg (by simp; omega), if_pos (by simp)]
      simp
    · by_cases hresults : options.max_results < total + 1
      · have hnone : reached options total memory (key :: keys) = [] := by
          unfold reached
          rw [show options.max_results - total = 0 by omega, List.take_zero]
        unfold keySize at hmemory
        rw [if_neg hmemory, if_pos hresults, hnone, if_neg (by simp; omega), if_pos (by simp)]
        simp
      · have hmore : reached options total memory (key :: keys) =
            key :: reached options (total + 1) (memory + keySize key) keys := by
          unfold reached
          rw [selection.within, if_neg hmemory,
            show options.max_results - total = options.max_results - (total + 1) + 1 by omega,
            List.take_succ_cons]
        have hshift : total + (key :: reached options (total + 1) (memory + keySize key)
            keys).length = total + 1 + (reached options (total + 1) (memory + keySize key)
              keys).length := by
          rw [List.length_cons]
          omega
        rw [hmore, hshift, List.length_cons, List.length_cons]
        simp only [Nat.add_lt_add_iff_right]
        unfold keySize at hmemory
        rw [if_neg hmemory, if_neg hresults]
        by_cases hoffset : options.offset < total + 1
        · rw [if_pos hoffset]
          have hdrop : options.offset - total = 0 := by omega
          rw [hdrop, List.drop_zero]
          by_cases hfull : items.length < options.page_size
          · -- the key is read, and the page has one item more
            have hadded : (items ++ [message_id_of_commit_key key]).length = items.length + 1 := by
              simp
            have hnext : options.offset - (total + 1) = 0 := by omega
            have hleft : options.page_size - items.length =
                options.page_size - (items.length + 1) + 1 := by omega
            rw [if_pos hfull, ih _ _ _ (by omega) (by omega) (by omega) (by omega), hadded, hnext,
              List.drop_zero, hleft, List.take_succ_cons, List.map_cons, List.append_assoc]
            rfl
          · -- the page is full, and the key is the one after it
            have hleft : options.page_size - items.length = 0 := by omega
            rw [if_neg hfull, hleft, List.take_zero, List.map_nil, List.append_nil,
              if_pos (by omega)]
            congr 1
            omega
        · have hdrop : options.offset - total = options.offset - (total + 1) + 1 := by omega
          rw [if_neg hoffset, ih _ _ _ (by omega) hfits (by omega) (by omega), hdrop,
            List.drop_succ_cons]
          rfl

/-- The keys of the feed that a query with the default limits reaches. -/
def PinboardTables.feed_keys (t : PinboardTables) (order : PinboardGlobalFeedOrder) : List Text :=
  reached (.with_pagination 0 0) 0 0 (t.commit_keys order)

def PinboardTables.feed_ids (t : PinboardTables) (order : PinboardGlobalFeedOrder) : List Text :=
  (t.feed_keys order).map message_id_of_commit_key

theorem feed_keys_lead (t : PinboardTables) (order : PinboardGlobalFeedOrder) :
    t.feed_keys order <+: t.commit_keys order :=
  (List.take_prefix _ _).trans (selection.within_prefix 0 _)

theorem length_feed_keys_le (t : PinboardTables) (order : PinboardGlobalFeedOrder) :
    (t.feed_keys order).length ≤ 1000 := List.length_take_le _ _

theorem length_feed_ids_le (t : PinboardTables) (order : PinboardGlobalFeedOrder) :
    (t.feed_ids order).length ≤ 1000 := by
  unfold PinboardTables.feed_ids
  rw [List.length_map]
  exact length_feed_keys_le t order

theorem with_pagination_valid (page : Nat) (hpos : 0 < page_size) (hsize : page_size ≤ 1000) :
    (PrefixQueryOptions.with_pagination page page_size).validate = .ok () := by
  unfold PrefixQueryOptions.validate PrefixQueryOptions.with_pagination
  simp only
  rw [if_neg (by omega), if_neg (by omega), if_neg (by decide), if_neg (by decide)]

/-- A page is a slice of the reached ids, and has processed one key more where there is one. -/
theorem collectPage_feed (t : PinboardTables) (order : PinboardGlobalFeedOrder) (page : Nat) :
    collectPage (.with_pagination page page_size) (t.commit_keys order) [] 0 0 =
      (scans.slice (t.feed_ids order) page_size page,
        if page * page_size + page_size < (t.feed_ids order).length then
          page * page_size + page_size + 1
        else if (t.feed_ids order).length < (t.commit_keys order).length then
          (t.feed_ids order).length + 1
        else (t.feed_ids order).length) := by
  rw [@collectPage_reached (.with_pagination page page_size) (t.commit_keys order) [] 0 0
    (by simp) (Nat.zero_le _) (Nat.zero_le _) (Nat.zero_le _)]
  unfold scans.slice PinboardTables.feed_ids
  rw [List.map_take, List.map_drop, List.length_map]
  simp only [Nat.zero_add, List.nil_append, List.length_nil, Nat.sub_zero]
  rfl

/-- Whether a page says that more follow. -/
def PinboardTables.feed_more (t : PinboardTables) (order : PinboardGlobalFeedOrder)
    (page_size page : Nat) : Bool :=
  decide (page * page_size + (scans.slice (t.feed_ids order) page_size page).length <
    (collectPage (.with_pagination page page_size) (t.commit_keys order) [] 0 0).2)

theorem feed_page (t : PinboardTables) (order : PinboardGlobalFeedOrder) (page : Nat)
    (hpos : 0 < page_size) (hsize : page_size ≤ 1000) :
    t.get_pinboard_message_ids_global_secure order (.with_pagination page page_size) true =
      .ok ⟨scans.slice (t.feed_ids order) page_size page, page, page_size,
        t.feed_more order page_size page⟩ := by
  have hitems := congrArg Prod.fst (@collectPage_feed page_size t order page)
  unfold PinboardTables.get_pinboard_message_ids_global_secure PinboardTables.feed_more
  rw [with_pagination_valid page hpos hsize]
  simp only [Bool.true_eq_false, if_false, hitems]
  rfl

/-- A page says that more follow while ids are left. -/
theorem feed_more_of_left {page : Nat}
    (h : (page + 1) * page_size < (t.feed_ids order).length) :
    t.feed_more order page_size page = true := by
  rw [Nat.add_one_mul] at h
  unfold PinboardTables.feed_more
  rw [collectPage_feed, decide_eq_true_eq]
  simp only
  rw [if_pos h]
  unfold scans.slice
  rw [List.length_take, List.length_drop]
  omega

/-- Past the limit of a query no page says so. -/
theorem feed_more_far (t : PinboardTables) (order : PinboardGlobalFeedOrder)
    (hpos : 0 < page_size) : t.feed_more order page_size 1001 = false := by
  have hbound := length_feed_ids_le t order
  have hfar : 1001 ≤ 1001 * page_size := Nat.le_mul_of_pos_right 1001 hpos
  unfold PinboardTables.feed_more
  rw [collectPage_feed, decide_eq_false_iff_not]
  simp only
  split
  · omega
  · split
    · omega
    · omega

/-! ## The items of a page -/

/-- What the slots give for each content key, while the operating system does not fail. -/
def Gives (s : CapacityManager) (blobs : Text → Option Bytes) : Prop :=
  ∀ key as, Quiet as → ∃ v, get_content_from_slots key (s.answered as) = .ok (blobs key) v

/-- The item that a listing shows for an id. -/
def PinboardTables.shown (o : Outside) (t : PinboardTables) (current_height : UInt64)
    (include_expired : Bool) (blobs : Text → Option Bytes) (message_id : Text) :
    Option PinboardRestPostItem :=
  match t.get_pinboard_metadata message_id with
  | none => none
  | some m =>
    if include_expired = false ∧ m.expires_height ≤ current_height then none
    else some (restPostItem o m current_height (blobs m.content_key))

theorem restPostItem_expired {m : PinboardMessageMetadata}
    (h : m.expires_height ≤ current_height) (blob blob' : Option Bytes) :
    restPostItem o m current_height blob = restPostItem o m current_height blob' := by
  simp [restPostItem, pinboard_blob_fields, h]

theorem answerPost_ends {blobs : Text → Option Bytes} (h : Gives s blobs)
    (m : PinboardMessageMetadata) {as : List Answer} (hquiet : Quiet as) :
    Ends (answerPost o m current_height) (s.answered as)
      (fun item v => item = restPostItem o m current_height (blobs m.content_key) ∧
        ∃ bs, Quiet bs ∧ v = s.answered bs) (fun _ _ => False) := by
  unfold answerPost loadPostBlob
  rw [ends_bind]
  by_cases hexpired : m.expires_height ≤ current_height
  · rw [if_pos hexpired]
    exact ⟨restPostItem_expired hexpired _ _, as, hquiet, rfl⟩
  · rw [if_neg hexpired]
    obtain ⟨v, hget⟩ := h m.content_key as hquiet
    obtain ⟨bs, hbs, rfl⟩ := (get_content_used m.content_key (s.answered as)).1 _ _ hget
    have hload : load_pinboard_blob_from_capacity_slots m.content_key (s.answered as) =
        .ok (blobs m.content_key) ((s.answered as).answered bs) := by
      unfold load_pinboard_blob_from_capacity_slots
      rw [hget]
    refine ends_of_ok hload ⟨rfl, bs, hquiet.suffix hbs, rfl⟩

/-- The items of a page are those of its ids. -/
theorem postItems_ends {blobs : Text → Option Bytes} (h : Gives s blobs) (include_expired : Bool)
    (ids : List Text) {as : List Answer} (hquiet : Quiet as) :
    Ends (t.postItems o current_height include_expired ids) (s.answered as)
      (fun items _ => items = ids.filterMap (t.shown o current_height include_expired blobs))
      (fun _ _ => False) := by
  induction ids generalizing as with
  | nil => exact rfl
  | cons message_id ids ih =>
    unfold PinboardTables.postItems
    rw [List.filterMap_cons]
    unfold PinboardTables.shown at ih ⊢
    cases t.get_pinboard_metadata message_id with
    | none => exact ih hquiet
    | some m =>
      simp only
      by_cases hskip : include_expired = false ∧ m.expires_height ≤ current_height
      · simp only [if_pos hskip]
        exact ih hquiet
      · simp only [if_neg hskip]
        rw [ends_bind]
        refine (answerPost_ends h m hquiet).mono ?_ (fun _ _ hfalse => hfalse)
        rintro item v ⟨rfl, bs, hbs, rfl⟩
        rw [ends_bind]
        refine (ih hbs).mono ?_ (fun _ _ hfalse => hfalse)
        rintro items w rfl
        exact rfl

/-- A page of the feed has the items of its ids. -/
theorem answer_page {blobs : Text → Option Bytes} (h : Gives s blobs)
    {params : PinboardPostsQueryParams} {ids_page : PaginatedResult Text} {page : Nat}
    (hpos : 0 < page_size) (hsize : page_size ≤ 100)
    (hids : t.listPosts params.wallet (params.order.getD .Desc) (.with_pagination page page_size)
      true = .ok ids_page) {as : List Answer} (hquiet : Quiet as) :
    replyOf (t.handle_get_pinboard_posts o current_height
      { params with page := some page, page_size := some page_size } true) (s.answered as) =
      .ok ⟨ids_page.items.filterMap
          (t.shown o current_height (params.include_expired.getD true) blobs),
        ids_page.page, ids_page.page_size, ids_page.has_more, ids_page.next_cursor⟩ := by
  apply replyOf_of_ends
  unfold PinboardTables.handle_get_pinboard_posts
  simp only [Option.getD_some]
  rw [if_neg (by omega), hids]
  simp only
  rw [ends_bind]
  refine (postItems_ends h _ ids_page.items hquiet).mono ?_ (fun _ _ hfalse => hfalse)
  rintro items v rfl
  exact rfl

/-- The pages 0, 1, 2 and so on of a listing that the rate limiters let through, until one says
that no more follow. `os` is what the operating system answers during each. -/
def PinboardTables.request_posts (o : Outside) (t : PinboardTables) (current_height : UInt64)
    (params : PinboardPostsQueryParams) (s : CapacityManager) (os : Nat → List Answer)
    (fuel : Nat) : Option (Except RestStop (List PinboardRestPostItem)) :=
  scans.collect (fun page =>
    (replyOf (t.handle_get_pinboard_posts o current_height { params with page := some page } true)
      (s.answered (os page))).map (fun response =>
        (response.items, response.pagination.has_more))) fuel 0

/-- The parameters of a request for the feed of all wallets. -/
def PinboardPostsQueryParams.feed (order : PinboardGlobalFeedOrder) (page_size : Nat)
    (include_expired : Bool) : PinboardPostsQueryParams :=
  ⟨some order, none, some page_size, none, some include_expired⟩

/-- The pages of the feed are the items of the ids that a query reaches. -/
theorem request_feed_eq {blobs : Text → Option Bytes} (h : Gives s blobs) (hpos : 0 < page_size)
    (hsize : page_size ≤ 100) (include_expired : Bool) {os : Nat → List Answer}
    (hquiet : ∀ page, Quiet (os page)) {fuel : Nat} (hfuel : 1001 < fuel) :
    t.request_posts o current_height (.feed order page_size include_expired) s os fuel =
      some (.ok ((t.feed_ids order).filterMap (t.shown o current_height include_expired blobs))) := by
  have hfetch : ∀ page, (replyOf (t.handle_get_pinboard_posts o current_height
      { PinboardPostsQueryParams.feed order page_size include_expired with page := some page } true)
        (s.answered (os page))).map (fun response =>
          (response.items, response.pagination.has_more)) =
      .ok ((scans.slice (t.feed_ids order) page_size page).filterMap
        (t.shown o current_height include_expired blobs), t.feed_more order page_size page) := by
    intro page
    have hids : t.listPosts none order (.with_pagination page page_size) true =
        .ok ⟨scans.slice (t.feed_ids order) page_size page, page, page_size,
          t.feed_more order page_size page⟩ := by
      unfold PinboardTables.listPosts
      simp only [feed_page t order page hpos (Nat.le_trans hsize (by decide))]
    have hanswer := @answer_page o s t current_height page_size blobs h
      (.feed order page_size include_expired) _ page hpos hsize hids _ (hquiet page)
    exact congrArg (Except.map _) hanswer
  have hall := scans.collect_shown (List.filterMap (t.shown o current_height include_expired blobs))
    (fun l m => List.filterMap_append) hfetch (fun _ => feed_more_of_left) (feed_more_far t order hpos)
    fuel 0 (Nat.zero_le _) (by omega)
  rw [Nat.zero_mul, List.drop_zero] at hall
  exact hall

/-! ## The feed -/

/-- The order of the feed: by height and then by id, the newest first for `Desc`. -/
def PinboardGlobalFeedOrder.Before (order : PinboardGlobalFeedOrder)
    (m m' : PinboardMessageMetadata) : Prop :=
  match order with
  | .Asc => m.committed_height < m'.committed_height ∨
      m.committed_height = m'.committed_height ∧ compare m.message_id m'.message_id = .lt
  | .Desc => m'.committed_height < m.committed_height ∨
      m'.committed_height = m.committed_height ∧ compare m'.message_id m.message_id = .lt

/-- What the feed should be: the committed messages, each of them once and in the order. -/
structure FeedOf (messages : List PinboardMessageMetadata) (order : PinboardGlobalFeedOrder)
    (posts : List PinboardMessageMetadata) : Prop where
  sorted : posts.Pairwise order.Before
  mem_iff : ∀ m, m ∈ posts ↔ m ∈ messages

/-- An item shows a post: its path, its row, and the blob that the key of its content names while
it has not expired and the content is in the slots. -/
structure PinboardRestPostItem.Shows (o : Outside) (s : CapacityManager) (current_height : UInt64)
    (m : PinboardMessageMetadata) (item : PinboardRestPostItem) : Prop where
  cado_path : item.cado_path = pinboard_response_cado_path m
  metadata : item.metadata = m
  expired : m.expires_height ≤ current_height → item.message_b64 = none ∧
    item.blob_status = "expired"
  available : current_height < m.expires_height →
    m.content_key ∈ s.slot_allocator.content_slot_map →
      ∃ bytes, m.content_key = hexKey (o.sha256 bytes) ∧
        item.message_b64 = some (o.base64.encode bytes) ∧ item.blob_status = "available"
  missing : current_height < m.expires_height →
    m.content_key ∉ s.slot_allocator.content_slot_map →
      item.message_b64 = none ∧ item.blob_status = "missing"

/-- Each message still has the row under its id, and the index is within the limits of a query. -/
structure PinboardTables.Listable (t : PinboardTables) (messages : List PinboardMessageMetadata) :
    Prop where
  own_row : ∀ m ∈ messages, t.metadata[m.message_id]? = some m
  count : t.idx_commit.toList.length ≤ 1000
  memory : keyBytes t.idx_commit.toList ≤ 50 * 1024 * 1024

theorem compare_commit_key (m m' : PinboardMessageMetadata) :
    compare m.commit_key m'.commit_key =
      (compare m.committed_height.toNat m'.committed_height.toNat).then
        (compare m.message_id m'.message_id) := by
  have hm := m.committed_height.toNat_lt
  have hm' := m'.committed_height.toNat_lt
  unfold PinboardMessageMetadata.commit_key pinboard_commit_index_key u64_hex_fixed
  rw [compare_hexDigits (by omega) (by omega), List.compare_cons_cons, ReflOrd.compare_self]
  rfl

/-- The order of the keys of the commit index in a walk over it. -/
def PinboardGlobalFeedOrder.keyBefore (order : PinboardGlobalFeedOrder) (a b : Text) : Prop :=
  match order with
  | .Asc => compare a b = .lt
  | .Desc => compare b a = .lt

theorem before_iff (m m' : PinboardMessageMetadata) :
    order.Before m m' ↔ order.keyBefore m.commit_key m'.commit_key := by
  cases order with
  | Asc =>
    unfold PinboardGlobalFeedOrder.Before PinboardGlobalFeedOrder.keyBefore
    simp only
    rw [compare_commit_key, Ordering.then_eq_lt, Nat.compare_eq_lt, Nat.compare_eq_eq,
      UInt64.lt_iff_toNat_lt, UInt64.toNat_inj]
  | Desc =>
    unfold PinboardGlobalFeedOrder.Before PinboardGlobalFeedOrder.keyBefore
    simp only
    rw [compare_commit_key, Ordering.then_eq_lt, Nat.compare_eq_lt, Nat.compare_eq_eq,
      UInt64.lt_iff_toNat_lt, UInt64.toNat_inj]

theorem keyBefore_strict {keys : List Text} (h : keys.Pairwise order.keyBefore) :
    selection.Strict order.keyBefore keys := by
  refine ⟨h, ?_⟩
  cases order with
  | Asc => exact fun _ _ hxy hyx => OrientedCmp.not_lt_of_lt hxy hyx
  | Desc => exact fun _ _ hxy hyx => OrientedCmp.not_lt_of_lt hxy hyx

theorem commit_keys_sorted (t : PinboardTables) (order : PinboardGlobalFeedOrder) :
    (t.commit_keys order).Pairwise order.keyBefore := by
  cases order with
  | Asc => exact ExtTreeSet.ordered_toList
  | Desc => exact List.pairwise_reverse.mpr ExtTreeSet.ordered_toList

theorem mem_commit_keys {key : Text} : key ∈ t.commit_keys order ↔ key ∈ t.idx_commit := by
  cases order with
  | Asc => exact ExtTreeSet.mem_toList
  | Desc => exact List.mem_reverse.trans ExtTreeSet.mem_toList

/-- A query reaches the whole index when it is within the limits. -/
theorem feed_keys_eq_iff (t : PinboardTables) (order : PinboardGlobalFeedOrder) :
    t.feed_keys order = t.commit_keys order ↔
      t.idx_commit.toList.length ≤ 1000 ∧ keyBytes t.idx_commit.toList ≤ 50 * 1024 * 1024 := by
  have hlength : (t.commit_keys order).length = t.idx_commit.toList.length := by
    cases order with
    | Asc => rfl
    | Desc => exact List.length_reverse
  have hbytes : ((t.commit_keys order).map keySize).sum = keyBytes t.idx_commit.toList := by
    cases order with
    | Asc => rfl
    | Desc =>
      unfold PinboardTables.commit_keys
      rw [List.map_reverse, List.sum_reverse]
      rfl
  have hwithin := @selection.within_eq_iff Text keySize (50 * 1024 * 1024) 0 (Nat.zero_le _)
    (t.commit_keys order)
  rw [Nat.zero_add, hbytes] at hwithin
  rw [← hwithin, ← hlength]
  unfold PinboardTables.feed_keys reached
  constructor
  · intro hall
    have hle := congrArg List.length hall
    have hprefix := @selection.within_prefix Text keySize (50 * 1024 * 1024) 0
      (t.commit_keys order)
    have hshort := hprefix.length_le
    rw [List.length_take] at hle
    refine ⟨?_, hprefix.eq_of_length ?_⟩
    · change min (1000 - 0) _ = _ at hle
      omega
    · change min (1000 - 0) (selection.within keySize (50 * 1024 * 1024) 0 _).length = _ at hle
      omega
  · rintro ⟨hcount, hmemory⟩
    change (selection.within keySize (50 * 1024 * 1024) 0 _).take 1000 = _
    rw [hmemory, List.take_of_length_le hcount]

/-- The row that a listing reads for a key of the commit index. -/
def PinboardTables.rowAt (t : PinboardTables) (key : Text) : Option PinboardMessageMetadata :=
  t.get_pinboard_metadata (message_id_of_commit_key key)

theorem rowAt_commit_key (t : PinboardTables) (m : PinboardMessageMetadata) :
    t.rowAt m.commit_key = t.metadata[m.message_id]? := by
  unfold PinboardTables.rowAt PinboardMessageMetadata.commit_key
  rw [message_id_of_key]
  rfl

/-- The rows that the pages of the feed show. -/
def PinboardTables.feed_rows (t : PinboardTables) (order : PinboardGlobalFeedOrder) :
    List PinboardMessageMetadata := (t.feed_keys order).filterMap t.rowAt

theorem shown_feed (t : PinboardTables) (order : PinboardGlobalFeedOrder)
    (blobs : Text → Option Bytes) :
    (t.feed_ids order).filterMap (t.shown o current_height true blobs) =
      (t.feed_rows order).map (fun m => restPostItem o m current_height (blobs m.content_key)) := by
  unfold PinboardTables.feed_ids PinboardTables.feed_rows
  rw [List.filterMap_map, List.map_filterMap]
  apply List.filterMap_congr
  intro key _
  unfold PinboardTables.shown PinboardTables.rowAt
  simp only [Function.comp, Bool.true_eq_false, false_and, if_false]
  cases t.get_pinboard_metadata (message_id_of_commit_key key) with
  | none => rfl
  | some m => rfl

/-- Without the expired posts a listing shows the others alike. -/
theorem filter_shown (t : PinboardTables) (current_height : UInt64) (blobs : Text → Option Bytes)
    (ids : List Text) : ids.filterMap (t.shown o current_height false blobs) =
      (ids.filterMap (t.shown o current_height true blobs)).filter
        (fun item => decide (current_height < item.metadata.expires_height)) := by
  rw [List.filter_filterMap]
  apply List.filterMap_congr
  intro message_id _
  unfold PinboardTables.shown
  cases t.get_pinboard_metadata message_id with
  | none => rfl
  | some m =>
    by_cases hexpired : m.expires_height ≤ current_height
    · have hnot : ¬ current_height < m.expires_height := UInt64.not_lt.mpr hexpired
      simp [hexpired, restPostItem, Option.filter_some, hnot]
    · have hlive : current_height < m.expires_height := UInt64.not_le.mp hexpired
      simp [hexpired, restPostItem, Option.filter_some, hlive]

/-- A function that gives something for each member gives as many values. -/
theorem filterMap_of_isSome {A B : Type} {f : A → Option B} {l : List A}
    (h : ∀ a ∈ l, (f a).isSome = true) : l.map f = (l.filterMap f).map some := by
  induction l with
  | nil => rfl
  | cons a l ih =>
    obtain ⟨b, hb⟩ := Option.isSome_iff_exists.mp (h a List.mem_cons_self)
    rw [List.map_cons, List.filterMap_cons, hb, ih (fun x hx => h x (List.mem_cons_of_mem _ hx))]
    rfl

variable {messages : List PinboardMessageMetadata}

/-- The pages of the feed are what the feed should be exactly when the tables are listable. -/
theorem feedOf_iff (h : HoldsHistory messages t) (order : PinboardGlobalFeedOrder) :
    FeedOf messages order (t.feed_rows order) ↔ t.Listable messages := by
  have hkey : ∀ key ∈ t.feed_keys order, ∃ m ∈ messages, m.commit_key = key := by
    intro key hmem
    exact (h.indexed key).mp (mem_commit_keys.mp ((feed_keys_lead t order).subset hmem))
  constructor
  · intro hfeed
    have hrows : (t.feed_keys order).map t.rowAt = (t.feed_rows order).map some := by
      apply filterMap_of_isSome
      intro key hmem
      obtain ⟨m, hm, rfl⟩ := hkey key hmem
      rw [rowAt_commit_key]
      exact h.present m hm
    -- the rows are in the order of the keys, and so are their own keys
    have hsorted : ((t.feed_rows order).map PinboardMessageMetadata.commit_key).Pairwise
        order.keyBefore := by
      rw [List.pairwise_map]
      exact hfeed.sorted.imp (fun hbefore => (before_iff _ _).mp hbefore)
    have hkeys : (t.feed_rows order).map PinboardMessageMetadata.commit_key =
        t.commit_keys order := by
      apply (keyBefore_strict hsorted).ext (keyBefore_strict (commit_keys_sorted t order))
      intro key
      rw [mem_commit_keys, h.indexed, List.mem_map]
      simp only [hfeed.mem_iff]
    have hlength : (t.feed_keys order).length = (t.commit_keys order).length := by
      have hsame := congrArg List.length hrows
      rw [← hkeys, List.length_map]
      rwa [List.length_map, List.length_map] at hsame
    have hall := (feed_keys_lead t order).eq_of_length hlength
    obtain ⟨hcount, hmemory⟩ := (feed_keys_eq_iff t order).mp hall
    refine ⟨?_, hcount, hmemory⟩
    intro m hm
    rw [hall, ← hkeys, List.map_map, List.map_inj_left] at hrows
    rw [← rowAt_commit_key]
    exact hrows m ((hfeed.mem_iff m).mpr hm)
  · intro hlistable
    have hall := (feed_keys_eq_iff t order).mpr ⟨hlistable.count, hlistable.memory⟩
    have hrow : ∀ m ∈ messages, t.rowAt m.commit_key = some m := by
      intro m hm
      rw [rowAt_commit_key]
      exact hlistable.own_row m hm
    have hkeys : (t.feed_rows order).map PinboardMessageMetadata.commit_key =
        t.feed_keys order := by
      unfold PinboardTables.feed_rows
      rw [List.map_filterMap]
      conv => rhs; rw [← List.filterMap_some (l := t.feed_keys order)]
      apply List.filterMap_congr
      intro key hmem
      obtain ⟨m, hm, rfl⟩ := hkey key hmem
      rw [hrow m hm]
      rfl
    refine ⟨?_, ?_⟩
    · have hsorted := commit_keys_sorted t order
      rw [← hall, ← hkeys, List.pairwise_map] at hsorted
      exact hsorted.imp (fun hbefore => (before_iff _ _).mpr hbefore)
    · intro m
      unfold PinboardTables.feed_rows
      rw [List.mem_filterMap]
      constructor
      · rintro ⟨key, _, hat⟩
        exact (h.rows _ m hat).1
      · intro hm
        refine ⟨m.commit_key, ?_, hrow m hm⟩
        rw [hall, mem_commit_keys, h.indexed]
        exact ⟨m, hm, rfl⟩

/-- What slots hold gives every blob, with the hash of its key. -/
theorem exists_gives (h : Genuine o (fun _ => False) s) : ∃ blobs, Gives s blobs ∧
    ∀ key, (key ∈ s.slot_allocator.content_slot_map → ∃ bytes, blobs key = some bytes ∧
      key = hexKey (o.sha256 bytes)) ∧
      (key ∉ s.slot_allocator.content_slot_map → blobs key = none) := by
  have hone : ∀ key, ∃ blob : Option Bytes,
      (∀ as, Quiet as → ∃ v, get_content_from_slots key (s.answered as) = .ok blob v) ∧
      (key ∈ s.slot_allocator.content_slot_map → ∃ bytes, blob = some bytes ∧
        key = hexKey (o.sha256 bytes)) ∧
      (key ∉ s.slot_allocator.content_slot_map → blob = none) := by
    intro key
    by_cases hlisted : key ∈ s.slot_allocator.content_slot_map
    · obtain ⟨placed, hname, hstanding⟩ := h.contents key hlisted not_false
      exact ⟨_, readsBack_of_standing hstanding, fun _ => ⟨_, rfl, hname⟩,
        fun hunlisted => absurd hlisted hunlisted⟩
    · refine ⟨none, fun as _ => ⟨s.answered as, ?_⟩, fun hkey => absurd hkey hlisted, fun _ => rfl⟩
      exact @get_content_unlisted (s.answered as) key hlisted
  choose blobs hblobs using hone
  exact ⟨blobs, fun key => (hblobs key).1, fun key => (hblobs key).2⟩

theorem restPostItem_shows {blobs : Text → Option Bytes}
    (h : ∀ key, (key ∈ s.slot_allocator.content_slot_map → ∃ bytes, blobs key = some bytes ∧
      key = hexKey (o.sha256 bytes)) ∧
      (key ∉ s.slot_allocator.content_slot_map → blobs key = none)) (m : PinboardMessageMetadata) :
    PinboardRestPostItem.Shows o s current_height m
      (restPostItem o m current_height (blobs m.content_key)) := by
  refine ⟨rfl, rfl, ?_, ?_, ?_⟩
  · intro hexpired
    simp [restPostItem, pinboard_blob_fields, hexpired]
  · intro hlive hlisted
    obtain ⟨bytes, hblob, hname⟩ := (h m.content_key).1 hlisted
    refine ⟨bytes, hname, ?_⟩
    simp [restPostItem, pinboard_blob_fields, UInt64.not_le.mpr hlive, hblob]
  · intro hlive hunlisted
    simp [restPostItem, pinboard_blob_fields, UInt64.not_le.mpr hlive,
      (h m.content_key).2 hunlisted]

end eld_chain
