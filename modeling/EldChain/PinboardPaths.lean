-- The path of a post and the way back. A post in a namespace stands under
-- its path, another one under its id, and the reserved scope in the path
-- tells which of the two to read. Senders choose ids and namespaces, so
-- some of the paths that the node hands out lead to the wrong branch.
import EldChain.Indexer
import EldChain.PathForms
import EldChain.PinboardGc
import EldChain.PinboardHistory
import EldChain.PostAuthorisation

namespace eld_chain

/-! ## Paths -/

def PATH_PREFIX_PINBOARD : Text := "/@eld/pinboard/".toList

def PINBOARD : Text := "pinboard".toList

def PINBOARD_SEGMENT_POST : Text := "post".toList

/-- `str::contains`. -/
def contains (pattern s : Text) : Bool := decide (pattern <:+: s)

/-- Whether a path is read as one of the legacy form. -/
def path_uses_eld_pinboard_lookup (path : Text) : Bool := contains SCOPE_ELD_ROOT path

def pinboard_eld_post_cado_path (wallet message_id : Text) : Text :=
  PATH_PREFIX_PINBOARD ++ PINBOARD_SEGMENT_POST ++ '/' :: wallet ++ '/' :: message_id

/-- The path of a committed post in a response. -/
def pinboard_response_cado_path (m : PinboardMessageMetadata) : Text :=
  match m.namespace_ with
  | some namespace_ => pinboard_namespace_content_path namespace_ m.message_id
  | none => pinboard_eld_post_cado_path (Address.text m.original_signer) m.message_id

/-- The parts between slashes, without the empty ones. -/
def pathParts (path : Text) : List Text := (path.splitOn '/').filter (· != [])

/-! ## Reading a path -/

def parse_pinboard_namespace_content_path (path : Text) : Except EldError (Text × Text) :=
  match pathParts path with
  | [scope, message_id] =>
    if ¬ ['@'] <+: scope ∨ utf8Len scope < 2 then
      .error (.ValidationError "path" (String.ofList path) "Namespace scope must start with @")
    else
      let namespace_slug := scope.drop 1
      match validate_content_upload_namespace_slug namespace_slug with
      | .error e => .error e
      | .ok () =>
        if message_id = [] then
          .error (.ValidationError "path" (String.ofList path) "message_id cannot be empty")
        else .ok (namespace_slug, message_id)
  | _ =>
    .error (.ValidationError "path" (String.ofList path)
      "Expected /@\x7bnamespace\x7d/\x7bmessage_id\x7d")

def parse_pinboard_post_cado_path (path : Text) : Except ApiError (Text × Text) :=
  match pathParts path with
  | [scope, pinboard, post, wallet, message_id] =>
    if scope ≠ SCOPE_ELD_ROOT ∨ pinboard ≠ PINBOARD ∨ post ≠ PINBOARD_SEGMENT_POST then
      .error notAPost
    else
      match Address.parse_hex_str wallet with
      | .error e => .error (.BadRequest "Invalid wallet in path" (some e.to_string))
      | .ok wallet =>
        if message_id = [] then
          .error (.BadRequest "Invalid pinboard post path" (some "message_id cannot be empty"))
        else .ok (Address.text wallet, message_id)
  | _ => .error notAPost
where
  notAPost : ApiError := .BadRequest "Invalid pinboard post path"
    (some "Expected /@eld/pinboard//post/\x7bwallet\x7d/\x7bmessage_id\x7d")

/-! ## The lookup -/

def PinboardTables.get_pinboard_metadata_by_path_key (t : PinboardTables) (path_key : Text) :
    Option PinboardMessageMetadata := t.metadata[path_key]?

/-- The row of a post, by the wallet and the id in its path. -/
def PinboardTables.legacyPost (t : PinboardTables) (path : Text) :
    Except ApiError PinboardMessageMetadata :=
  match parse_pinboard_post_cado_path path with
  | .error e => .error e
  | .ok (wallet, message_id) =>
    match t.get_pinboard_metadata message_id with
    | none => .error (.NotFound "pinboard_message" (String.ofList message_id)
        (some "Metadata not found"))
    | some m =>
      if Address.text m.original_signer ≠ wallet then
        .error (.NotFound "pinboard_message" (String.ofList (wallet ++ '/' :: message_id))
          (some "Path wallet does not match message owner"))
      else .ok m

/-- The row of a post in a namespace, by its path as it is given. -/
def PinboardTables.namespacePost (t : PinboardTables) (path : Text) :
    Except ApiError PinboardMessageMetadata :=
  match parse_pinboard_namespace_content_path path with
  | .error e => .error (.BadRequest "Invalid pinboard namespace path" (some e.to_string))
  | .ok (expected_namespace, _) =>
    match t.get_pinboard_metadata_by_path_key path with
    | none => .error (.NotFound "pinboard_message" (String.ofList path)
        (some "Metadata not found for namespace path"))
    | some m =>
      if m.namespace_ = some expected_namespace then .ok m
      else .error (.NotFound "pinboard_message" (String.ofList path)
        (some "Namespace path does not match stored metadata"))

/-- `GET /pinboard/post`, past the rate limit, up to the blob of the post. -/
def PinboardTables.handle_get_pinboard_post_by_path (t : PinboardTables) (path : Text) :
    Except ApiError PinboardMessageMetadata :=
  if path_uses_eld_pinboard_lookup path then t.legacyPost path else t.namespacePost path

/-! ## Parts of a path -/

theorem pathParts_slash (s : Text) : pathParts ('/' :: s) = pathParts s := by
  unfold pathParts
  change (List.splitOn '/' ([] ++ '/' :: s)).filter _ = _
  rw [List.splitOn_append_cons_self_of_not_mem List.not_mem_nil]
  rfl

theorem pathParts_append {part : Text} (hslash : '/' ∉ part) (hne : part ≠ []) (rest : Text) :
    pathParts (part ++ '/' :: rest) = part :: pathParts rest := by
  unfold pathParts
  rw [List.splitOn_append_cons_self_of_not_mem hslash, List.filter_cons_of_pos]
  simpa using hne

theorem pathParts_part {part : Text} (hslash : '/' ∉ part) (hne : part ≠ []) :
    pathParts part = [part] := by
  unfold pathParts
  rw [List.splitOn_eq_singleton hslash, List.filter_cons_of_pos]
  · rfl
  · simpa using hne

theorem slash_not_in_part (s : Text) : ∀ part ∈ s.splitOn '/', '/' ∉ part := by
  induction s with
  | nil => simp
  | cons c s ih =>
    rw [List.splitOn_cons_eq_if_modifyHead]
    by_cases hc : c = '/'
    · simpa [hc] using ih
    · rw [if_neg (by simpa using hc)]
      cases hs : s.splitOn '/' with
      | nil => exact absurd hs (List.splitOn_ne_nil '/' s)
      | cons first rest =>
        rw [hs] at ih
        intro part hpart
        rw [List.modifyHead_cons, List.mem_cons] at hpart
        rcases hpart with rfl | hpart
        · rw [List.mem_cons, not_or]
          exact ⟨Ne.symm hc, ih first List.mem_cons_self⟩
        · exact ih part (List.mem_cons_of_mem _ hpart)

theorem of_mem_pathParts {s part : Text} (h : part ∈ pathParts s) : '/' ∉ part ∧ part ≠ [] := by
  obtain ⟨hpart, hne⟩ := List.mem_filter.mp h
  exact ⟨slash_not_in_part s part hpart, by simpa using hne⟩

/-- What follows a text without the first character of a pattern holds the pattern if the
whole does. -/
theorem infix_after {c : Char} {s : Text} (hc : c ∉ s) (pattern rest : Text) :
    c :: pattern <:+: s ++ rest ↔ c :: pattern <:+: rest := by
  induction s with
  | nil => rfl
  | cons d s ih =>
    rw [List.mem_cons, not_or] at hc
    rw [List.cons_append, List.infix_cons_iff, ih hc.2, or_iff_right]
    intro hp
    exact hc.1 (List.cons_prefix_cons.mp hp).1

/-- A pattern without a separator begins a text before the separator. -/
theorem prefix_before {c : Char} {pattern : Text} (hc : c ∉ pattern) (s rest : Text) :
    pattern <+: s ++ c :: rest ↔ pattern <+: s := by
  induction s generalizing pattern with
  | nil =>
    rw [List.nil_append, List.prefix_cons_iff, List.prefix_nil, or_iff_left]
    rintro ⟨t, rfl, _⟩
    exact hc List.mem_cons_self
  | cons d s ih =>
    cases pattern with
    | nil => simp
    | cons e pattern =>
      rw [List.mem_cons, not_or] at hc
      rw [List.cons_append, List.cons_prefix_cons, List.cons_prefix_cons, ih hc.2]

/-! ## Slugs and addresses -/

/-- The slug of an upload has letters only, and enough of them. -/
theorem upload_slug_chars {slug : Text}
    (h : validate_content_upload_namespace_slug slug = .ok ()) :
    3 ≤ utf8Len slug ∧ ∀ c ∈ slug, isAsciiLowercase c = true := by
  unfold validate_content_upload_namespace_slug at h
  split at h
  · cases h
  · split at h
    · rename_i hlen hall
      rw [not_or, Nat.not_lt] at hlen
      exact ⟨hlen.1, List.all_eq_true.mp hall⟩
    · cases h

theorem upload_slug_of_resolved {slug : Text}
    (h : resolve_optional_namespace (some slug) = .ok (some slug)) :
    validate_content_upload_namespace_slug slug = .ok () := by
  unfold resolve_optional_namespace at h
  simp only at h
  split at h
  · cases h
  · split at h
    · cases h
    · rename_i hvalid
      rw [Option.some.inj (Except.ok.inj h)] at hvalid
      exact hvalid

theorem not_mem_of_letters {slug : Text} {c : Char} (h : ∀ c ∈ slug, isAsciiLowercase c = true)
    (hc : isAsciiLowercase c = false) : c ∉ slug := by
  intro hmem
  rw [h c hmem] at hc
  cases hc

theorem slash_not_in_address (a : Address) : '/' ∉ Address.text a :=
  slash_not_nameChar (fun _ hc => isNameChar_hex hc)

/-! ## The branch -/

theorem post_path_eq (wallet message_id : Text) :
    pinboard_eld_post_cado_path wallet message_id =
      '/' :: (SCOPE_ELD_ROOT ++ '/' :: (PINBOARD ++ '/' :: (PINBOARD_SEGMENT_POST ++
        '/' :: (wallet ++ '/' :: message_id)))) := by
  unfold pinboard_eld_post_cado_path
  simp only [List.append_assoc, List.cons_append]
  rfl

theorem post_path_parts (a : Address) (message_id : Text) :
    pathParts (pinboard_eld_post_cado_path (Address.text a) message_id) =
      SCOPE_ELD_ROOT :: PINBOARD :: PINBOARD_SEGMENT_POST :: Address.text a ::
        pathParts message_id := by
  have haddress : Address.text a ≠ [] := List.cons_ne_nil _ _
  rw [post_path_eq, pathParts_slash, pathParts_append (by decide) (by decide),
    pathParts_append (by decide) (by decide), pathParts_append (by decide) (by decide),
    pathParts_append (slash_not_in_address a) haddress]

theorem namespace_path_parts {namespace_ : Text}
    (h : ∀ c ∈ namespace_, isAsciiLowercase c = true) (message_id : Text) :
    pathParts (pinboard_namespace_content_path namespace_ message_id) =
      ('@' :: namespace_) :: pathParts message_id := by
  have hslash : '/' ∉ '@' :: namespace_ := by
    rw [List.mem_cons, not_or]
    exact ⟨by decide, not_mem_of_letters h rfl⟩
  change pathParts ('/' :: (('@' :: namespace_) ++ '/' :: message_id)) = _
  rw [pathParts_slash, pathParts_append hslash (List.cons_ne_nil _ _)]

/-- A post without a namespace is read as a legacy one. -/
theorem post_path_uses_lookup (wallet message_id : Text) :
    path_uses_eld_pinboard_lookup (pinboard_eld_post_cado_path wallet message_id) = true := by
  unfold path_uses_eld_pinboard_lookup contains
  rw [decide_eq_true_eq, post_path_eq]
  exact List.infix_cons (List.infix_append_left)

/-- A post in a namespace is read as a legacy one where its namespace begins with the
reserved scope or its id has the scope in it. -/
theorem namespace_path_uses_lookup {namespace_ : Text}
    (h : ∀ c ∈ namespace_, isAsciiLowercase c = true) (message_id : Text) :
    path_uses_eld_pinboard_lookup (pinboard_namespace_content_path namespace_ message_id) = true ↔
      "eld".toList <+: namespace_ ∨ SCOPE_ELD_ROOT <:+: message_id := by
  unfold path_uses_eld_pinboard_lookup contains
  rw [decide_eq_true_eq]
  change '@' :: "eld".toList <:+: '/' :: '@' :: (namespace_ ++ '/' :: message_id) ↔ _
  have hat : '@' ∉ namespace_ := not_mem_of_letters h rfl
  have hscope : '/' ∉ "eld".toList := by decide
  rw [List.infix_cons_iff, List.infix_cons_iff, List.cons_prefix_cons, List.cons_prefix_cons,
    infix_after hat, List.infix_cons_iff, List.cons_prefix_cons, prefix_before hscope]
  simp only [Char.reduceEq, false_and, false_or, true_and]
  exact Iff.rfl

/-! ## Where a path leads -/

/-- The key of the row that the path of a post leads to. -/
def PinboardMessageMetadata.path_key (m : PinboardMessageMetadata) : Text :=
  match m.namespace_ with
  | some namespace_ => pinboard_namespace_content_path namespace_ m.message_id
  | none => m.message_id

/-- A post whose path can be read back: a plain id without a namespace, and in one an id that
is a single part, with no reserved scope at the start of the namespace or in the id. -/
def PinboardMessageMetadata.Addressable (m : PinboardMessageMetadata) : Prop :=
  match m.namespace_ with
  | some namespace_ => ¬ "eld".toList <+: namespace_ ∧ ¬ SCOPE_ELD_ROOT <:+: m.message_id ∧
      (pathParts m.message_id).length = 1
  | none => m.message_id ≠ [] ∧ '/' ∉ m.message_id

variable {t : PinboardTables} {m found : PinboardMessageMetadata} {path : Text}

theorem parse_post_path_eq_ok {wallet message_id : Text} :
    parse_pinboard_post_cado_path path = .ok (wallet, message_id) ↔
      ∃ part a, pathParts path = [SCOPE_ELD_ROOT, PINBOARD, PINBOARD_SEGMENT_POST, part, message_id] ∧
        Address.parse_hex_str part = .ok a ∧ wallet = Address.text a := by
  constructor
  · intro h
    unfold parse_pinboard_post_cado_path at h
    split at h
    · rename_i scope pinboard post part id hparts
      split at h
      · cases h
      · rename_i hscope
        simp only [not_or, not_not] at hscope
        obtain ⟨rfl, rfl, rfl⟩ := hscope
        split at h
        · cases h
        · rename_i a ha
          split at h
          · cases h
          · cases h
            exact ⟨part, a, hparts, ha, rfl⟩
    · cases h
  · rintro ⟨part, a, hparts, ha, rfl⟩
    have hid := (@of_mem_pathParts path message_id (by simp [hparts])).2
    unfold parse_pinboard_post_cado_path
    simp only [hparts, ha]
    rw [if_neg (by simp), if_neg hid]

theorem parse_namespace_path_eq_ok {namespace_ message_id : Text} :
    parse_pinboard_namespace_content_path path = .ok (namespace_, message_id) ↔
      pathParts path = ['@' :: namespace_, message_id] ∧
        validate_content_upload_namespace_slug namespace_ = .ok () := by
  constructor
  · intro h
    unfold parse_pinboard_namespace_content_path at h
    split at h
    · rename_i scope id hparts
      split at h
      · cases h
      · rename_i hscope
        simp only [not_or, not_not] at hscope
        obtain ⟨rest, rfl⟩ := hscope.1
        simp only at h
        split at h
        · cases h
        · rename_i hvalid
          split at h
          · cases h
          · cases h
            exact ⟨hparts, hvalid⟩
    · cases h
  · rintro ⟨hparts, hvalid⟩
    have hid := (@of_mem_pathParts path message_id (by simp [hparts])).2
    have hlen := (upload_slug_chars hvalid).1
    have hscope : ¬ (¬ ['@'] <+: '@' :: namespace_ ∨ utf8Len ('@' :: namespace_) < 2) := by
      rw [utf8Len_cons]
      simp [List.cons_prefix_cons]
      omega
    unfold parse_pinboard_namespace_content_path
    simp only [hparts]
    rw [if_neg hscope]
    simp only [List.drop_one, List.tail_cons, hvalid]
    rw [if_neg hid]

/-- The legacy branch finds the row of the last part, which is of the wallet before it. -/
theorem legacyPost_eq_ok : t.legacyPost path = .ok found ↔
    ∃ wallet message_id, pathParts path =
        [SCOPE_ELD_ROOT, PINBOARD, PINBOARD_SEGMENT_POST, wallet, message_id] ∧
      Address.parse_hex_str wallet = .ok found.original_signer ∧
      t.metadata[message_id]? = some found := by
  constructor
  · intro h
    unfold PinboardTables.legacyPost PinboardTables.get_pinboard_metadata at h
    split at h
    · cases h
    · rename_i wallet message_id hparse
      obtain ⟨part, a, hparts, ha, rfl⟩ := parse_post_path_eq_ok.mp hparse
      split at h
      · cases h
      · rename_i m hrow
        split at h
        · cases h
        · rename_i howner
          cases h
          rw [not_not] at howner
          have hsame : @Except.ok EldError _ found.original_signer = .ok a := by
            rw [← @parse_address_text found.original_signer "address", howner]
            exact parse_address_text a "address"
          cases hsame
          exact ⟨part, message_id, hparts, ha, hrow⟩
  · rintro ⟨wallet, message_id, hparts, ha, hrow⟩
    have hparse := parse_post_path_eq_ok.mpr ⟨wallet, _, hparts, ha, rfl⟩
    unfold PinboardTables.legacyPost PinboardTables.get_pinboard_metadata
    simp only [hparse, hrow]
    rw [if_neg (by simp)]

/-- The other branch finds the row under the path, which is of the namespace in it. -/
theorem namespacePost_eq_ok : t.namespacePost path = .ok found ↔
    ∃ namespace_ message_id, pathParts path = ['@' :: namespace_, message_id] ∧
      validate_content_upload_namespace_slug namespace_ = .ok () ∧
      t.metadata[path]? = some found ∧ found.namespace_ = some namespace_ := by
  constructor
  · intro h
    unfold PinboardTables.namespacePost PinboardTables.get_pinboard_metadata_by_path_key at h
    split at h
    · cases h
    · rename_i namespace_ message_id hparse
      obtain ⟨hparts, hvalid⟩ := parse_namespace_path_eq_ok.mp hparse
      split at h
      · cases h
      · rename_i m hrow
        split at h
        · rename_i hnamespace
          cases h
          exact ⟨namespace_, message_id, hparts, hvalid, hrow, hnamespace⟩
        · cases h
  · rintro ⟨namespace_, message_id, hparts, hvalid, hrow, hnamespace⟩
    have hparse := parse_namespace_path_eq_ok.mpr ⟨hparts, hvalid⟩
    unfold PinboardTables.namespacePost PinboardTables.get_pinboard_metadata_by_path_key
    simp only [hparse, hrow]
    rw [if_pos hnamespace]

/-! ## The round trip -/

/-- What the tables of a run are known to hold. -/
structure PinboardTables.HoldsPosts (pc : ProtocolConstants) (t : PinboardTables) : Prop where
  posts : ∀ (k : Text) m, t.metadata[k]? = some m → m.IsPost pc
  own_key : ∀ (k : Text) m, t.metadata[k]? = some m → k ∈ m.keys

theorem PinboardMessageMetadata.IsPost.slug {pc : ProtocolConstants} {namespace_ : Text} (h : m.IsPost pc)
    (hnamespace : m.namespace_ = some namespace_) :
    validate_content_upload_namespace_slug namespace_ = .ok () := by
  obtain ⟨pm, committed_height, rfl⟩ := h
  have hresolved := pm.namespace_resolved
  rw [show pm.namespace_ = some namespace_ from hnamespace] at hresolved
  exact upload_slug_of_resolved hresolved

/-- A key without a slash is the id of the row under it. -/
theorem PinboardTables.HoldsPosts.id_of_row {pc : ProtocolConstants} (h : t.HoldsPosts pc)
    {message_id : Text} (hrow : t.metadata[message_id]? = some m) (hslash : '/' ∉ message_id) :
    message_id = m.message_id := by
  have hkey := h.own_key message_id m hrow
  unfold PinboardMessageMetadata.keys metadataKeys at hkey
  rw [List.mem_cons] at hkey
  rcases hkey with hkey | hkey
  · exact hkey
  · obtain ⟨namespace_, _, rfl⟩ : ∃ namespace_, m.namespace_ = some namespace_ ∧
        pinboard_namespace_content_path namespace_ m.message_id = message_id := by
      simpa using hkey
    exact absurd List.mem_cons_self hslash

/-- A post without a namespace. -/
theorem legacy_round_trip {pc : ProtocolConstants} (h : t.HoldsPosts pc)
    (hnone : m.namespace_ = none) :
    t.handle_get_pinboard_post_by_path (pinboard_response_cado_path m) = .ok m ↔
      (m.message_id ≠ [] ∧ '/' ∉ m.message_id) ∧ t.metadata[m.message_id]? = some m := by
  have hpath : pinboard_response_cado_path m =
      pinboard_eld_post_cado_path (Address.text m.original_signer) m.message_id := by
    unfold pinboard_response_cado_path
    rw [hnone]
  unfold PinboardTables.handle_get_pinboard_post_by_path
  rw [hpath, if_pos (post_path_uses_lookup _ _), legacyPost_eq_ok, post_path_parts]
  constructor
  · rintro ⟨wallet, message_id, hparts, _, hrow⟩
    simp only [List.cons.injEq, true_and] at hparts
    have hpart := @of_mem_pathParts m.message_id message_id (by simp [hparts.2])
    obtain rfl := h.id_of_row hrow hpart.1
    exact ⟨⟨hpart.2, hpart.1⟩, hrow⟩
  · rintro ⟨⟨hne, hslash⟩, hrow⟩
    refine ⟨Address.text m.original_signer, m.message_id, ?_, ?_, hrow⟩
    · rw [pathParts_part hslash hne]
    · exact parse_address_text m.original_signer "address"

/-- What is found is a row. -/
theorem row_of_found (h : t.handle_get_pinboard_post_by_path path = .ok found) :
    ∃ k : Text, t.metadata[k]? = some found := by
  unfold PinboardTables.handle_get_pinboard_post_by_path at h
  split at h
  · obtain ⟨_, message_id, _, _, hrow⟩ := legacyPost_eq_ok.mp h
    exact ⟨message_id, hrow⟩
  · obtain ⟨_, _, _, _, hrow, _⟩ := namespacePost_eq_ok.mp h
    exact ⟨path, hrow⟩

/-- The legacy branch does not find a post in a namespace: its path has two parts, or its id is
not a part. -/
theorem namespace_path_not_legacy {pc : ProtocolConstants} (h : t.HoldsPosts pc)
    {namespace_ : Text} (hletters : ∀ c ∈ namespace_, isAsciiLowercase c = true) :
    t.legacyPost (pinboard_namespace_content_path namespace_ m.message_id) ≠ .ok m := by
  intro hfound
  obtain ⟨wallet, message_id, hparts, _, hrow⟩ := legacyPost_eq_ok.mp hfound
  rw [namespace_path_parts hletters] at hparts
  have hpart := @of_mem_pathParts m.message_id message_id
    (by simp [(List.cons.inj hparts).2])
  obtain rfl := h.id_of_row hrow hpart.1
  rw [pathParts_part hpart.1 hpart.2] at hparts
  simp at hparts

/-- A post in a namespace. -/
theorem namespace_round_trip {pc : ProtocolConstants} (h : t.HoldsPosts pc) {namespace_ : Text}
    (hnamespace : m.namespace_ = some namespace_) :
    t.handle_get_pinboard_post_by_path (pinboard_response_cado_path m) = .ok m ↔
      (¬ "eld".toList <+: namespace_ ∧ ¬ SCOPE_ELD_ROOT <:+: m.message_id ∧
        (pathParts m.message_id).length = 1) ∧
      t.metadata[pinboard_namespace_content_path namespace_ m.message_id]? = some m := by
  have hpath : pinboard_response_cado_path m =
      pinboard_namespace_content_path namespace_ m.message_id := by
    unfold pinboard_response_cado_path
    rw [hnamespace]
  rw [hpath]
  constructor
  · intro hfound
    obtain ⟨k, hk⟩ := row_of_found hfound
    have hletters := (upload_slug_chars ((h.posts k m hk).slug hnamespace)).2
    have huses := namespace_path_uses_lookup hletters m.message_id
    unfold PinboardTables.handle_get_pinboard_post_by_path at hfound
    split at hfound
    · exact absurd hfound (namespace_path_not_legacy h hletters)
    · rename_i hother
      rw [huses, not_or] at hother
      obtain ⟨_, message_id, hparts, _, hrow, _⟩ := namespacePost_eq_ok.mp hfound
      rw [namespace_path_parts hletters, List.cons_eq_cons] at hparts
      exact ⟨⟨hother.1, hother.2, by rw [hparts.2]; rfl⟩, hrow⟩
  · rintro ⟨⟨hslug, hscope, hone⟩, hrow⟩
    have hvalid := (h.posts _ m hrow).slug hnamespace
    have hletters := (upload_slug_chars hvalid).2
    obtain ⟨part, hpart⟩ := List.length_eq_one_iff.mp hone
    unfold PinboardTables.handle_get_pinboard_post_by_path
    rw [if_neg, namespacePost_eq_ok]
    · refine ⟨namespace_, part, ?_, hvalid, hrow, hnamespace⟩
      rw [namespace_path_parts hletters, hpart]
    · rw [namespace_path_uses_lookup hletters, not_or]
      exact ⟨hslug, hscope⟩

variable {o : Outside} {pc : ProtocolConstants} {cfg : GenesisConfig}

/-- The rows of a run are of posts, each under a key of its own. -/
theorem holdsPosts_of_run {requests : List Request} {n : PinboardNode}
    (hrun : runs.run (PinboardNode.step o pc) requests (PinboardNode.genesis o pc cfg) = some n) :
    n.tables.HoldsPosts pc := by
  obtain ⟨_, history, htables, hposts⟩ := history_of_run hrun
  rw [← htables]
  constructor
  · intro k m hrow
    exact hposts m (history.holds.rows k m hrow).1
  · intro k m hrow
    exact (history.holds.rows k m hrow).2

theorem round_trip_iff (h : t.HoldsPosts pc) (m : PinboardMessageMetadata) :
    t.handle_get_pinboard_post_by_path (pinboard_response_cado_path m) = .ok m ↔
      m.Addressable ∧ t.metadata[m.path_key]? = some m := by
  unfold PinboardMessageMetadata.Addressable PinboardMessageMetadata.path_key
  cases hnamespace : m.namespace_ with
  | none => exact legacy_round_trip h hnamespace
  | some namespace_ => exact namespace_round_trip h hnamespace

theorem path_key_mem_keys (m : PinboardMessageMetadata) : m.path_key ∈ m.keys := by
  unfold PinboardMessageMetadata.path_key PinboardMessageMetadata.keys metadataKeys
  cases m.namespace_ with
  | none => exact List.mem_cons_self
  | some namespace_ => exact List.mem_cons_of_mem _ (List.mem_singleton.mpr rfl)

/-- In every state of a run the path of a post leads to the post exactly when it can be read
back and the post still has the row under its key. -/
theorem path_leads_back_iff (o : Outside) (pc : ProtocolConstants) (cfg : GenesisConfig)
    (requests : List Request) (n : PinboardNode)
    (hrun : runs.run (PinboardNode.step o pc) requests (PinboardNode.genesis o pc cfg) = some n)
    (m : PinboardMessageMetadata) :
    n.tables.handle_get_pinboard_post_by_path (pinboard_response_cado_path m) = .ok m ↔
      m.Addressable ∧ n.tables.metadata[m.path_key]? = some m :=
  round_trip_iff (holdsPosts_of_run hrun) m

/-- After a block whose messages use no key twice, that is every message of the block that can
be read back. -/
theorem posted_leads_back_iff {requests : List Request} {n n' : PinboardNode}
    (hrun : runs.run (PinboardNode.step o pc) requests (PinboardNode.genesis o pc cfg) = some n)
    (hstep : n.step o pc .Commit = some n') (hfresh : n.tables.Fresh n.posted)
    (hm : m ∈ n.posted) :
    n'.tables.handle_get_pinboard_post_by_path (pinboard_response_cado_path m) = .ok m ↔
      m.Addressable := by
  have hnext : runs.run (PinboardNode.step o pc) (requests ++ [.Commit])
      (PinboardNode.genesis o pc cfg) = some n' := by
    rw [runs.run_snoc, hrun]
    exact hstep
  rw [round_trip_iff (holdsPosts_of_run hnext), and_iff_left]
  obtain ⟨_, hstaged⟩ := PinboardNode.staged_of_run hrun
  obtain ⟨_, ⟨_, hcommit, _⟩ | ⟨hne, _⟩⟩ := PinboardNode.step.spec hstep
  · have hone : ∀ m' ∈ n.posted, ∀ k ∈ m.keys, k ∈ m'.keys → m' = m := by
      intro m' hm' k hk hk'
      by_contra hne
      exact hfresh.apart m hm m' hm' (Ne.symm hne) k hk hk'
    apply metadata_commit hstaged hcommit
    · intro m' hm' hk
      exact hone m' hm' _ (path_key_mem_keys m) hk
    · left
      refine ⟨m, hm, path_key_mem_keys m, ?_⟩
      intro m' hm' hid
      apply hone m' hm' m.message_id List.mem_cons_self
      rw [← hid]
      exact List.mem_cons_self
  · exact absurd rfl hne

/-! ## A namespace that begins with the reserved scope -/

theorem eldorado_canonical : CanonicalSlug "eldorado".toList where
  valid := rfl
  not_reserved := rfl

def aliceRegistersEldorado : Tx :=
  signed 1 1 "AddNamespace" (.AddNamespace {
    sender := alice
    namespace_slug := "eldorado".toList
    registration_fee := 5
    slug_canonical := eldorado_canonical
    fee_pos := five_pos
    fee_le := five_le_maxCoin })

theorem eldorado_resolved :
    resolve_optional_namespace (some "eldorado".toList) = .ok (some "eldorado".toList) := rfl

def eldoradoPost : PostMessageTx where
  sender := alice
  original_signer := alice
  original_signer_pubkey := hexDigits 64 1
  content_key := "k".toList
  message_id := "m".toList
  expires_height := 0
  visibility := "public".toList
  topic := none
  tags := []
  content_type := "text/plain".toList
  fee_amount := 0
  received_timestamp := 0
  user_signature := "00".toList
  namespace_ := some "eldorado".toList
  fee_amount_lt := zero_lt_u128
  content_type_allowed := plainText_allowed
  tags_canonical := noTags_canonical
  namespace_resolved := eldorado_resolved

/-- Alice registers the namespace and posts there. -/
def postedInEldorado : List Request :=
  .UploadBlob "k".toList [1] :: block (smallHeight 1)
    [aliceRegistersEldorado, signed 1 2 "PostMessage" (.PostMessage eldoradoPost)]

theorem postedInEldorado_leads_back_iff :
    ∃ n, runs.run (PinboardNode.step Outside.toy smallConstants) postedInEldorado
        (PinboardNode.genesis Outside.toy smallConstants smallConfig) = some n ∧
      ∀ m, n.tables.handle_get_pinboard_post_by_path (pinboard_response_cado_path m) = .ok m ↔
        m.Addressable ∧ n.tables.metadata[m.path_key]? = some m := by
  have hrun : (runs.run (PinboardNode.step Outside.toy smallConstants) postedInEldorado
      (PinboardNode.genesis Outside.toy smallConstants smallConfig)).isSome = true := by
    decide +kernel
  obtain ⟨n, hn⟩ := Option.isSome_iff_exists.mp hrun
  exact ⟨n, hn, fun m => path_leads_back_iff _ _ _ _ n hn m⟩

/-- The post has the row under its path, and its path is read as a legacy one. -/
theorem eldorado_post_is_not_found :
    ¬ ∀ requests n, runs.run (PinboardNode.step Outside.toy smallConstants) requests
        (PinboardNode.genesis Outside.toy smallConstants smallConfig) = some n →
      ∀ m, (∀ k ∈ m.keys, n.tables.metadata[k]? = some m) →
        n.tables.handle_get_pinboard_post_by_path (pinboard_response_cado_path m) = .ok m := by
  intro hall
  have hrun : (runs.run (PinboardNode.step Outside.toy smallConstants) postedInEldorado
      (PinboardNode.genesis Outside.toy smallConstants smallConfig)).any (fun n =>
        (n.tables.metadata["m".toList]?).any (fun m =>
          m.keys.all (fun k => decide (n.tables.metadata[k]? = some m)) &&
          m.namespace_ == some "eldorado".toList)) = true := by decide +kernel
  obtain ⟨n, hn, hrow⟩ := (Option.any_eq_true _ _).mp hrun
  obtain ⟨m, hm, hrows⟩ := (Option.any_eq_true _ _).mp hrow
  obtain ⟨hkeys, hnamespace⟩ := Bool.and_eq_true_iff.mp hrows
  have hfound := hall _ n hn m (fun k hk => of_decide_eq_true (List.all_eq_true.mp hkeys k hk))
  have hholds : n.tables.HoldsPosts smallConstants := holdsPosts_of_run hn
  obtain ⟨haddressable, _⟩ := (round_trip_iff hholds m).mp hfound
  unfold PinboardMessageMetadata.Addressable at haddressable
  rw [beq_iff_eq.mp hnamespace] at haddressable
  exact haddressable.1 (by decide)

end eld_chain
