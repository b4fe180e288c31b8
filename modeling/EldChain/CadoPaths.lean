-- Paths as the texts that the code holds. A text is parsed into a scope, a
-- type and a name; the storage checks it once more against a list of
-- patterns; and the key generators read the parts again, each with checks
-- of its own.
import EldChain.FrontEnd
import EldChain.Namespaces
import EldChain.Storage

open Std

namespace eld_chain

variable (o : Outside)

/-! ## The text of a path -/

/-- A path as the code holds it: the whole text, and the parts it was made of. -/
structure PathText where
  path : Text
  scope : Text
  type_ : Text
  name : Text
deriving DecidableEq

def SCOPE_ELD_ROOT : Text := "@eld".toList

/-- `@eld` stands there twice, as the root scope and as the scope of the network. -/
def ALLOWED_SCOPES : List Text :=
  ["@eld", "@user", "@public", "@test", "@other", "@eld"].map String.toList

def CadoType.all : List CadoType :=
  [.Account, .StakingAccount, .StorageStakingAccount, .CadoMap, .AppStateTip, .EpochRecord,
    .SnapshotMetadata, .SnapshotChunk, .ChunkReference, .AppStateSnapshot, .Namespace]

def VALID_TYPES : List Text := CadoType.all.map (fun t => t.as_str.toList)

/-- `CadoType::from_str`. -/
def CadoType.parse_type (s : Text) : Option CadoType :=
  CadoType.all.find? (fun t => t.as_str.toList == s)

def CadoType.is_address_type : CadoType → Bool
  | .Account | .StakingAccount | .StorageStakingAccount => true
  | _ => false

/-- `type_ == TYPE_ACCOUNT || type_ == TYPE_STAKING_ACCOUNT || ...`. -/
def is_address_type (type_ : Text) : Bool :=
  (CadoType.parse_type type_).any CadoType.is_address_type

def starts_with_0x (s : Text) : Bool := "0x".toList.isPrefixOf s

def Address.parse_hex_str (s : Text) : Except EldError Address := decode_fixed_hex 20 s "address"

/-- `splitn(n, '/')`: at most `n` parts, the last of them with all that is left. -/
def splitn (n : Nat) (s : Text) : List Text :=
  let parts := s.splitOn '/'
  if parts.length ≤ n then parts
  else parts.take (n - 1) ++ [['/'].intercalate (parts.drop (n - 1))]

def validate_hex (s : Text) (expected_len : Nat) (field_name : String) : Except EldError Unit :=
  if starts_with_0x s = false then
    .error (.ValidationError field_name (String.ofList s) (field_name ++ " must start with 0x"))
  else match hex_decode (s.drop 2) with
    | .error e => .error (.ValidationError field_name (String.ofList s)
        ("Invalid hex in " ++ field_name ++ ": " ++ e.to_string))
    | .ok bytes =>
      if bytes.length ≠ expected_len then
        .error (.ValidationError field_name (String.ofList s)
          (field_name ++ " must be " ++ toString expected_len ++ " bytes"))
      else .ok ()

/-- The check of the name of a parsed path. -/
def validate_name (type_ name : Text) : Except EldError Unit :=
  if CadoType.parse_type type_ = some .Namespace then validate_namespace_slug name
  else validate_hex name (if is_address_type type_ then 20 else 32) "name"

/-- `CadoPath::parse`. No type has four parts: `FOUR_PART_PATH_TYPES` is empty. -/
def PathText.parse (path : Text) : Except EldError PathText :=
  if path.head? ≠ some '/' then
    .error (.ValidationError "path" (String.ofList path) "Path must start with '/'")
  else match splitn 4 (path.drop 1) with
    | scope :: type_ :: name :: rest =>
      if scope.head? ≠ some '@' ∨ utf8Len scope ≤ 1 then
        .error (.ValidationError "scope" (String.ofList scope)
          "Scope must start with '@' and be non-empty")
      else if VALID_TYPES.contains type_ = false then
        .error (.ValidationError "type" (String.ofList type_)
          ("Invalid type: " ++ String.ofList type_))
      else if rest ≠ [] then
        .error (.ValidationError "path" (String.ofList path)
          "Path must have exactly 3 parts for non-device paths")
      else match validate_name type_ name with
        | .error e => .error e
        | .ok () => .ok ⟨path, scope, type_, name⟩
    | _ => .error (.ValidationError "path" (String.ofList path)
        "Path must have at least 3 parts: /@scope/type_/name")

/-- A three-part path under the root scope. -/
def PathText.ofName (type_ : CadoType) (name : Text) : PathText :=
  ⟨'/' :: (SCOPE_ELD_ROOT ++ '/' :: (type_.as_str.toList ++ '/' :: name)), SCOPE_ELD_ROOT,
    type_.as_str.toList, name⟩

inductive CadoPathKey
  | Name (name : Text)
  | NameAndId (name id : Text)
  | Address (addr : Address)
  | AddressAndId (addr : Address) (id : Text)
  | NamespaceSlug (slug : Text)

/-- The `Debug` text of a key, over that of a string. -/
def CadoPathKey.debug (strDebug : Text → String) : CadoPathKey → String
  | .Name name => "Name(" ++ strDebug name ++ ")"
  | .NameAndId name id => "NameAndId(" ++ strDebug name ++ ", " ++ strDebug id ++ ")"
  | .Address addr => "Address(Address(" ++ addr.hex_with_prefix ++ "))"
  | .AddressAndId addr id =>
    "AddressAndId(Address(" ++ addr.hex_with_prefix ++ "), " ++ strDebug id ++ ")"
  | .NamespaceSlug slug => "NamespaceSlug(" ++ strDebug slug ++ ")"

/-- The name that a key gives a path of a type that is not a namespace. -/
def CadoPathKey.name_for (strDebug : Text → String) (type_ : CadoType) (key : CadoPathKey) :
    Except EldError Text :=
  match key with
  | .Name name => .ok name
  | .Address addr =>
    if type_.is_address_type then .ok (Address.text addr)
    else .error (.ValidationError "path" addr.hex_with_prefix
      ("CadoPathKey::Address is only valid for account-like CADO types (20-byte name); type is '"
        ++ type_.as_str ++ "'"))
  | .NameAndId _ _ | .AddressAndId _ _ => .error (.ValidationError "path" (key.debug strDebug)
      ("Type '" ++ type_.as_str ++ "' requires a 3-part path key: Name(name) or Address(addr)"))
  | .NamespaceSlug _ => .error (.ValidationError "path" (key.debug strDebug)
      "NamespaceSlug is only valid for type 'namespace'")

/-- `CadoPath::new`. No type has four parts here either. -/
def PathText.new (strDebug : Text → String) (type_ : CadoType) (key : CadoPathKey) :
    Except EldError PathText :=
  if type_ = .Namespace then
    match key with
    | .NamespaceSlug slug => do
      validate_namespace_slug slug
      .ok (PathText.ofName type_ slug)
    | _ => .error (.ValidationError "path" (key.debug strDebug)
        ("Type '" ++ type_.as_str ++ "' requires NamespaceSlug(namespace_slug)"))
  else do
    let name ← key.name_for strDebug type_
    validate_hex name (if type_.is_address_type then 20 else 32) "name"
    .ok (PathText.ofName type_ name)

def INFRASTRUCTURE_CADO_TYPES : List Text :=
  ["app_state_tip", "app_state_snapshot", "snapshot_metadata", "snapshot_chunk"].map String.toList

/-- `is_infrastructure_cado_path`: a text that does not parse is none. -/
def is_infrastructure_cado_path (path : Text) : Bool :=
  match PathText.parse path with
  | .error _ => false
  | .ok p => INFRASTRUCTURE_CADO_TYPES.contains p.type_

/-! ## The checks of the storage -/

def MAX_PATH_LENGTH : Nat := 512

def traversal_patterns : List String :=
  ["..", "//", "\\", "~", "..\\", "../", "\\..", "/..", "..\\", "..//", "//..", "\\..\\", "....",
    "..../", "....\\", "..%2f", "..%5c", "%2e%2e", "%2e%2e%2f", "%2e%2e%5c", "..%252f", "..%255c",
    "%252e%252e", "%252e%252e%252f", "%252e%252e%255c"]

/-- `path_str.to_lowercase().contains(pattern)`. Lower case is taken of ASCII letters only: of
no other character it is one of those in a pattern. -/
def contains_pattern (path : Text) (pattern : String) : Bool :=
  decide (pattern.toList <:+: path.map toAsciiLowercase)

/-- The name of an address type: `0x` and the hex of 20 bytes. -/
def validate_address_name (type_ name : Text) : Except EldError Unit :=
  if starts_with_0x name = false then
    .error (.ValidationError "cado_path_name_address" (String.ofList name)
      ("Invalid address format for " ++ String.ofList type_))
  else match hex_decode (name.drop 2) with
    | .error _ => .error (.ValidationError "cado_path_name_hex" (String.ofList name)
        "Invalid hex format")
    | .ok bytes =>
      if bytes.length ≠ 20 then
        .error (.ValidationError "cado_path_name_address" (String.ofList name)
          ("Invalid address format for " ++ String.ofList type_))
      else .ok ()

/-- The name of any other type but a namespace: `0x` and the hex of 32 bytes. -/
def validate_hash_name (type_ name : Text) : Except EldError Unit :=
  if starts_with_0x name = false then
    .error (.ValidationError "cado_path_name_hex" (String.ofList name)
      ("Invalid hex format for " ++ String.ofList type_))
  else match hex_decode (name.drop 2) with
    | .error _ => .error (.ValidationError "cado_path_name_hex" (String.ofList name)
        "Invalid hex format")
    | .ok bytes =>
      if bytes.length ≠ 32 then
        .error (.ValidationError "cado_path_name_hex" (String.ofList name)
          ("Invalid hex format for " ++ String.ofList type_))
      else .ok ()

/-- The checks that only read the text of the path: steps 1 to 4. -/
def validate_path_text (path : Text) : Except EldError Unit :=
  if MAX_PATH_LENGTH < utf8Len path then
    .error (.ValidationError "cado_path_length" (String.ofList path)
      ("Path exceeds maximum length of " ++ toString MAX_PATH_LENGTH ++ " characters"))
  else if path.contains (Char.ofNat 0) then
    .error (.ValidationError "cado_path_null_bytes" (String.ofList path)
      "Path contains null bytes")
  else if path.any (fun c => isControl c && c != '\t' && c != '\n' && c != '\r') then
    .error (.ValidationError "cado_path_control_chars" (String.ofList path)
      "Path contains forbidden control characters")
  else match traversal_patterns.find? (contains_pattern path) with
    | some pattern => .error (.ValidationError "cado_path_traversal" (String.ofList path)
        ("Path contains forbidden traversal pattern: " ++ pattern))
    | none =>
      if ((path.splitOn '/').filter (fun s => s != [])).length < 3 then
        .error (.ValidationError "cado_path_structure" (String.ofList path)
          "Path must have at least 3 parts: /@scope/type/name")
      else .ok ()

/-- The checks of the parts: steps 5 to 7. -/
def validate_path_parts (p : PathText) : Except EldError Unit :=
  if ALLOWED_SCOPES.contains p.scope = false then
    .error (.ValidationError "cado_path_scope" (String.ofList p.scope)
      ("Scope '" ++ String.ofList p.scope ++ "' is not allowed"))
  else if VALID_TYPES.contains p.type_ = false then
    .error (.ValidationError "cado_path_type" (String.ofList p.type_)
      ("Invalid CADO type: " ++ String.ofList p.type_))
  else if p.name = [] then
    .error (.ValidationError "cado_path_name" "" "Name cannot be empty")
  else if is_address_type p.type_ then validate_address_name p.type_ p.name
  else if CadoType.parse_type p.type_ = some .Namespace then validate_namespace_slug p.name
  else validate_hash_name p.type_ p.name

/-- The last checks of the text: step 8. -/
def validate_path_ending (path : Text) : Except EldError Unit :=
  if "//".toList <:+: path ∨ "\\\\".toList <:+: path then
    .error (.ValidationError "cado_path_separators" (String.ofList path)
      "Path contains consecutive separators")
  else if path.getLast? = some '/' ∨ path.getLast? = some '\\' then
    .error (.ValidationError "cado_path_ending" (String.ofList path)
      "Path cannot end with separator")
  else .ok ()

def validate_cado_path_internal (p : PathText) : Except EldError Unit := do
  validate_path_text p.path
  validate_path_parts p
  validate_path_ending p.path

/-! ## The paths of the chain -/

/-- The path that `CadoPath::new` makes. -/
def CadoPath.parts (p : CadoPath) : PathText :=
  ⟨p.as_str.toList, SCOPE_ELD_ROOT, p.type_.as_str.toList, p.name⟩

/-! ## The keys -/

/-- `Sha256("scope|type|last")`. -/
def PathText.keyFor (p : PathText) (last : Text) : Bytes32 :=
  o.sha256 (Text.bytes (p.scope ++ '|' :: p.type_ ++ '|' :: last))

variable {D : Type}

def AccountKeyGenerator.generate_original_key (p : PathText) (cado : CadoBody D) :
    Except EldError Bytes32 :=
  if starts_with_0x p.name = false then
    .error (.ValidationError "account_address" (String.ofList p.name)
      "Account address must start with '0x'")
  else match hex_decode (p.name.drop 2) with
    | .error e => .error (.ValidationError "account_address" (String.ofList p.name)
        ("Invalid hex in address: " ++ e.to_string))
    | .ok name_bytes =>
      if name_bytes.length ≠ 20 then
        .error (.ValidationError "account_address" (String.ofList p.name)
          "Account address must be 20 bytes")
      else match cado with
        | .Immutable _ => .error (.ValidationError "cado_type" "immutable"
            "Expected mutable CADO for account type")
        | .Mutable m =>
          if m.metadata.owner ≠ p.name then
            .error (.ValidationError "metadata_owner" (String.ofList m.metadata.owner)
              "Metadata owner does not match path name")
          else .ok (p.keyFor o (hexDigits 64 (o.sha256 (Text.bytes p.name)).toNat))

def AccountKeyGenerator.generate_latest_key (p : PathText) (cado : CadoBody D) :
    Except EldError (Option Bytes32) :=
  match cado with
  | .Immutable _ => .error (.ValidationError "cado_type" "immutable"
      "Expected mutable CADO for account type")
  | .Mutable m => .ok (some (p.keyFor o (hexDigits 64 m.latest_hash.toNat)))

/-- A mutable object has to be named by its first or its latest hash. -/
def GeneralKeyGenerator.check_name (p : PathText) (cado : CadoBody D) : Except EldError Unit :=
  if starts_with_0x p.name = false then .ok ()
  else match hex_decode (p.name.drop 2) with
    | .error e => .error (.ValidationError "path_name" (String.ofList p.name)
        ("Invalid hex in name: " ++ e.to_string))
    | .ok name_bytes =>
      if name_bytes.length ≠ 32 then
        .error (.ValidationError "path_name" (String.ofList p.name) "Hash must be 32 bytes")
      else match cado with
        | .Immutable _ => .ok ()
        | .Mutable m =>
          if name_bytes ≠ beBytes 32 m.hash.toNat ∧ name_bytes ≠ beBytes 32 m.latest_hash.toNat
          then .error (.ValidationError "path_name" (String.ofList p.name)
            "Hash does not match path name")
          else .ok ()

def GeneralKeyGenerator.generate_original_key (p : PathText) (cado : CadoBody D) :
    Except EldError Bytes32 :=
  match GeneralKeyGenerator.check_name p cado with
  | .error e => .error e
  | .ok () => .ok (p.keyFor o (hexDigits 64 cado.hash_bytes.toNat))

def GeneralKeyGenerator.generate_latest_key (p : PathText) (cado : CadoBody D) :
    Option Bytes32 :=
  cado.latest_hash.map (fun h => p.keyFor o (hexDigits 64 h.toNat))

def unsupported_type (p : PathText) : EldError :=
  .ValidationError "cado_type" (String.ofList p.type_)
    ("Unsupported CADO type: " ++ String.ofList p.type_)

/-- `CADOKeyGenerator::generate_key`. -/
def PathText.generate_key (p : PathText) (cado : CadoBody D) : Except EldError Bytes32 :=
  match CadoType.parse_type p.type_ with
  | none => .error (unsupported_type p)
  | some .Account | some .StakingAccount | some .StorageStakingAccount =>
    AccountKeyGenerator.generate_original_key o p cado
  | some .AppStateTip | some .AppStateSnapshot | some .EpochRecord | some .Namespace =>
    .ok (p.keyFor o p.name)
  | some .CadoMap | some .SnapshotMetadata | some .SnapshotChunk | some .ChunkReference =>
    GeneralKeyGenerator.generate_original_key o p cado

/-- The second key of `CADOKeyGenerator::generate`. -/
def PathText.generate_latest_key (p : PathText) (cado : CadoBody D) :
    Except EldError (Option Bytes32) :=
  match CadoType.parse_type p.type_ with
  | none => .error (unsupported_type p)
  | some .Account | some .StakingAccount | some .StorageStakingAccount =>
    AccountKeyGenerator.generate_latest_key o p cado
  | some .AppStateTip | some .AppStateSnapshot | some .EpochRecord | some .Namespace => .ok none
  | some .CadoMap | some .SnapshotMetadata | some .SnapshotChunk | some .ChunkReference =>
    .ok (GeneralKeyGenerator.generate_latest_key o p cado)

structure CADOKeys where
  original_key : Bytes32
  latest_key : Option Bytes32

/-- `CADOKeyGenerator::generate`. -/
def PathText.generate (p : PathText) (cado : CadoBody D) : Except EldError CADOKeys := do
  let original_key ← p.generate_key o cado
  let latest_key ← p.generate_latest_key o cado
  .ok ⟨original_key, latest_key⟩

/-- The key that a put writes to, after its checks: a path that is in the index keeps its key. -/
def PathText.put_key (p : PathText) (operation : String) (existing : Option Bytes32)
    (cado : CadoBody D) : Except EldError Bytes32 := do
  validate_cado_path_internal p
  match existing with
  | some key => .ok key
  | none => (p.generate_key o cado).mapError (fun e =>
      .StorageError operation ("Failed to generate CADO key: " ++ e.to_string))

end eld_chain
