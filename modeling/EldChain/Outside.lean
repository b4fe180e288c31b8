-- What the chain takes from outside its own source: hash functions, bincode
-- and base64, Ed25519, the seeded shuffle, the Merkle trie and the
-- floating-point fee schedule. Every law of the chain holds for every
-- choice of these.
import EldChain.Bincode
import EldChain.Library.Base64

open Std

namespace eld_chain

/-! ## The outside functions -/

/-- The standard engine of base64. -/
structure Base64 where
  encode : Bytes → Text
  decode : Text → Option Bytes

/-- What was encoded is decoded. -/
def Base64.ReadsBack (b : Base64) : Prop := ∀ bytes, b.decode (b.encode bytes) = some bytes

structure Outside where
  sha256 : Bytes → Bytes32
  blake3 : Bytes → Bytes32
  bincode : Bincode
  base64 : Base64
  /-- The Ed25519 key that a hex text spells. -/
  verifying_key : Text → Option Bytes32
  /-- The signature of a transaction, over its JSON text and the chain id. -/
  signature_valid : Tx → String → Bytes32 → Bool
  /-- The signature of a provider, over the response to a challenge. -/
  response_signature_valid :
    Text → Address → Address → I64 → List ChunkProof → UInt64 → Text → Text → Bool
  calculate_dynamic_fee : Tx → Except EldError Coin
  estimated_gas_usage : Tx → Option Int
  /-- The root of the trie that `trie-db` builds of these leaves. -/
  trie_root : ExtTreeMap CadoPath Bytes32 compare → Bytes32
  /-- The order in which `shuffle` leaves `n` items, drawn from `StdRng::from_seed(seed)`
  after shuffles of the earlier lengths. -/
  shuffle_order : Bytes32 → List Nat → Nat → List Nat
  shuffle_perm : ∀ seed earlier n, (shuffle_order seed earlier n).Perm (List.range n)

variable (o : Outside)

def Outside.shuffle {α : Type} (seed : Bytes32) (earlier : List Nat) (l : List α) : List α :=
  (o.shuffle_order seed earlier l.length).filterMap (fun i => l[i]?)

/-- What bincode writes of the data of an object. -/
def Outside.serialize_bin : StoredData → Bytes
  | .chain (.account a) => o.bincode.serialize .account a
  | .chain (.staking_account a) => o.bincode.serialize .staking_account a
  | .chain (.epoch_record r) => o.bincode.serialize .epoch_record r
  | .chain (.namespace_record r) => o.bincode.serialize .namespace_record r
  | .app_state_tip t => o.bincode.serialize .app_state_tip t
  | .app_state_snapshot s => o.bincode.serialize .app_state_snapshot s

/-- SHA-256 of the encoded data. -/
def Outside.digest (d : CadoData) : Bytes32 := o.sha256 (o.serialize_bin (.chain d))

/-- `Address::from_public_key`: the first 20 bytes of the SHA-256 of the key. -/
def Outside.address_of_key (key : Bytes32) : Address :=
  BitVec.ofNat 160 ((o.sha256 (beBytes 32 key.toNat)).toNat >>> 96)

/-- `Tx::verify`: the signature holds, and the sender is the address of the key. -/
def Outside.verify (tx : Tx) (chain_id : String) : Bool :=
  match o.verifying_key tx.public_key with
  | none => false
  | some key => o.signature_valid tx chain_id key && tx.payload.inner.sender == o.address_of_key key

/-! ## The state trie -/

def StateTrie.root_hash (t : StateTrie) : Bytes32 := t.root

def StateTrie.empty_root_hash : Bytes32 := StateTrie.empty.root_hash

/-- The leaves of a trie that is being edited. -/
abbrev TrieDBMut := ExtTreeMap CadoPath Bytes32 compare

/-- An edit of the trie. The builder resets the root, so the edit finds no leaves, whatever was
inserted before. -/
def StateTrie.with_trie_mut (_trie : StateTrie) (f : TrieDBMut → TrieDBMut) : StateTrie :=
  ⟨o.trie_root (f ∅)⟩

def StateTrie.insert (t : StateTrie) (path : CadoPath) (hash : Bytes32) : StateTrie :=
  t.with_trie_mut o (fun trie => trie.insert path hash)

def StateTrie.remove (t : StateTrie) (path : CadoPath) : StateTrie :=
  t.with_trie_mut o (fun trie => trie.erase path)

/-- The trie of one leaf. -/
def StateTrie.single (path : CadoPath) (hash : Bytes32) : StateTrie :=
  ⟨o.trie_root ((∅ : TrieDBMut).insert path hash)⟩

/-- Whatever was inserted before, an insertion leaves its own leaf alone. -/
theorem insert_eq_single (t : StateTrie) (path : CadoPath) (hash : Bytes32) :
    t.insert o path hash = .single o path hash := rfl

/-- Of many insertions only the last one is seen. -/
theorem insert_each {α : Type} (path : α → CadoPath) (hash : α → Bytes32) (l : List α)
    (t : StateTrie) :
    l.foldl (fun t a => t.insert o (path a) (hash a)) t =
      l.getLast?.elim t (fun a => .single o (path a) (hash a)) := by
  rcases List.eq_nil_or_concat l with rfl | ⟨earlier, a, rfl⟩
  · rfl
  · rw [List.concat_eq_append, List.foldl_append, List.getLast?_concat, List.foldl_cons,
      insert_eq_single]
    rfl

/-! ## An outside to compute with -/

/-- A polynomial digest with its bits mixed upward. It tells apart the few inputs of a
worked example. -/
def toyDigest (b : Bytes) : Bytes32 :=
  BitVec.ofNat 256 (0x9e3779b97f4a7c15f39cc0605cedc8341082276bf3a27251f86c6a11d0c18e95 *
    b.foldl (fun acc x => acc * 257 + x.toNat + 1) 1)

/-- An outside whose functions can be evaluated: every signature of a well-formed key is
valid, each fee is the base fee of a local chain, and a shuffle keeps the order. -/
def Outside.toy : Outside where
  sha256 := toyDigest
  blake3 b := toyDigest (0 :: b)
  bincode := .toy
  base64 := ⟨base64.encode, base64.decode⟩
  verifying_key s :=
    match decode_fixed_hex 32 s "public_key" with
    | .ok key => some key
    | .error _ => none
  signature_valid _ _ _ := true
  response_signature_valid _ _ _ _ _ _ _ _ := true
  calculate_dynamic_fee _ := .ok ⟨1000, thousand_le_maxCoin⟩
  estimated_gas_usage _ := none
  trie_root leaves := toyDigest (leaves.toList.flatMap (fun p => Text.bytes p.1.name
    ++ beBytes 32 p.2.toNat))
  shuffle_order _ _ n := List.range n
  shuffle_perm _ _ _ := List.Perm.refl _

/-! ## Building objects -/

variable {D : Type}

def CadoBody.data : CadoBody D → D
  | .Immutable c => c.data
  | .Mutable m => m.data

def CadoBody.metadata : CadoBody D → CADOMetadata
  | .Immutable c => c.metadata
  | .Mutable m => m.metadata

def CadoBody.hash_bytes : CadoBody D → Bytes32
  | .Immutable c => c.hash
  | .Mutable m => m.hash

/-- The digest that stands in the state trie: the hash of the data for an immutable object,
the hash from its creation for a mutable one. -/
def CadoBody.content_hash (b : CadoBody D) : Bytes32 := b.hash_bytes

def CadoBody.latest_hash : CadoBody D → Option Bytes32
  | .Immutable _ => none
  | .Mutable m => some m.latest_hash

def CadoBody.immutable (data : CadoData) (metadata : CADOMetadata) : CadoBody CadoData :=
  .Immutable ⟨o.digest data, data, metadata⟩

def CadoBody.mutable_new (data : CadoData) (metadata : CADOMetadata) : CadoBody CadoData :=
  .Mutable ⟨o.digest data, data, metadata, o.digest data⟩

/-- A new version of a mutable object: it keeps the hash it was given. -/
def CadoBody.mutable_updated (original_hash : Bytes32) (data : CadoData)
    (metadata : CADOMetadata) : CadoBody CadoData :=
  .Mutable ⟨original_hash, data, metadata, o.digest data⟩

/-- The same object, read as what the database stores. -/
def CadoBody.map {E : Type} (f : D → E) : CadoBody D → CadoBody E
  | .Immutable c => .Immutable ⟨c.hash, f c.data, c.metadata⟩
  | .Mutable m => .Mutable ⟨m.hash, f m.data, m.metadata, m.latest_hash⟩

def CadoBody.stored (b : CadoBody CadoData) : CadoBody StoredData := b.map .chain

/-- What bincode writes of a whole object, as the database stores it. -/
def Outside.serialize_body (b : CadoBody StoredData) : Bytes :=
  o.bincode.serialize .cado_body (b.map o.serialize_bin)

end eld_chain
