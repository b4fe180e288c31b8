-- The bincode crate, which writes what the chain stores, sends and hashes.
-- It is one family of writers and readers over the types that are written.
-- Where a law needs it, it says that values are read back or how wide they
-- are.
import EldChain.Library.Readers
import EldChain.Types

open Std readers

namespace eld_chain

/-! ## Fixed-width numbers as bytes -/

/-- The low `n` bytes of a number, low byte first. -/
def leBytes : Nat → Nat → Bytes
  | 0, _ => []
  | n + 1, v => UInt8.ofNat v :: leBytes n (v / 256)

/-- The low `n` bytes of a number, high byte first. -/
def beBytes (n v : Nat) : Bytes := (leBytes n v).reverse

theorem length_leBytes (n v : Nat) : (leBytes n v).length = n := by
  induction n generalizing v with
  | zero => rfl
  | succ n ih => rw [leBytes, List.length_cons, ih]

theorem leBytes_inj {n v w : Nat} (hv : v < 256 ^ n) (hw : w < 256 ^ n)
    (h : leBytes n v = leBytes n w) : v = w := by
  induction n generalizing v w with
  | zero => simp only [Nat.pow_zero, Nat.lt_one_iff] at hv hw; rw [hv, hw]
  | succ n ih =>
    rw [leBytes, leBytes] at h
    obtain ⟨hlow, hhigh⟩ := List.cons.inj h
    have hdiv : v / 256 = w / 256 :=
      ih (Nat.div_lt_of_lt_mul (by rw [Nat.pow_succ] at hv; omega))
        (Nat.div_lt_of_lt_mul (by rw [Nat.pow_succ] at hw; omega)) hhigh
    have hmod : v % 256 = w % 256 := by simpa using congrArg UInt8.toNat hlow
    omega

@[simp]
theorem length_beBytes (n v : Nat) : (beBytes n v).length = n := by
  rw [beBytes, List.length_reverse, length_leBytes]

theorem beBytes_inj {n v w : Nat} (hv : v < 256 ^ n) (hw : w < 256 ^ n)
    (h : beBytes n v = beBytes n w) : v = w := leBytes_inj hv hw (List.reverse_injective h)

def ofBeBytes (b : Bytes) : Nat := b.foldl (fun acc x => 256 * acc + x.toNat) 0

/-- The bits of an `i64` as an unsigned number. -/
def i64Bits (x : Int) : Nat := (x % 2 ^ 64).toNat

/-- An `i64` result of a build that checks. -/
def I64.checked (v : Int) : Option I64 :=
  if hlo : -2 ^ 63 ≤ v then
    if hhi : v < 2 ^ 63 then some ⟨v, hlo, hhi⟩ else none
  else none

def Text.bytes (s : Text) : Bytes := s.flatMap String.utf8EncodeChar

/-- A collection no longer than a `usize` can count. -/
def FitsUsize (n : Nat) : Prop := n < 256 ^ 8

instance (n : Nat) : Decidable (FitsUsize n) := inferInstanceAs (Decidable (n < 256 ^ 8))

/-- A text that is no longer than a `String` can be. -/
def Text.Fits (s : Text) : Prop := FitsUsize (Text.bytes s).length

instance (s : Text) : Decidable s.Fits := inferInstanceAs (Decidable (FitsUsize _))

/-! ## Snapshots -/

structure SnapshotMetadata where
  height : I64
  epoch : UInt64
  format_version : UInt32
  chunk_count : UInt32
  total_size : UInt64
  compression : Text
  created_at : UInt64
  app_hash : Bytes32
  accounts_count : UInt64
  staking_accounts_count : UInt64
  storage_staking_accounts_count : UInt64
  namespaces_count : UInt64
  chunk_hashes : List Text
  compression_fits : compression.Fits
  hashes_fit : FitsUsize chunk_hashes.length ∧ ∀ hash ∈ chunk_hashes, hash.Fits
deriving DecidableEq

/-- A `Vec<u8>`. -/
structure ByteVec where
  bytes : Bytes
  fits : FitsUsize bytes.length
deriving DecidableEq

structure SnapshotChunk where
  index : UInt32
  data : ByteVec
  hash : Text
  size : UInt64
  hash_fits : hash.Fits

structure AbciSnapshot where
  version : UInt32
  app_state_snapshot : AppStateSnapshot

/-! ## Messages -/

/-- `SyncMsg::CapacityChallenge` as it comes in, less the fields that are only logged. -/
structure ChallengeMessage where
  challenge_id : Text
  challenger : Address
  provider_id : Address
  chunk_indices : List UInt64
  block_height : I64
  merkle_root : Bytes32
deriving DecidableEq

/-- `SyncMsg::CapacityChallengeResponse`. -/
structure CapacityChallengeResponse where
  challenge_id : Text
  provider_id : Address
  challenger : Address
  block_height : I64
  proofs : List ChunkProof
  generated_at : UInt64
  provider_pubkey : Text
  provider_signature : Text
deriving DecidableEq

/-- The messages of the P2P network. -/
inductive SyncMsg
  | Heartbeat (timestamp : UInt64)
  | ContentSyncHeartbeat (timestamp : UInt64)
  | ContentSyncHeartbeatResponse (provider_id : Address) (timestamp : UInt64)
  | Announce (content_id : Text)
  | ContentRequest (content_id : Text)
  | ContentResponse (content_id content : Text)
  | CapacityChallenge (msg : ChallengeMessage) (seed : Bytes32) (expiration_block : I64)
      (timestamp : UInt64)
  | CapacityChallengeResponse (r : CapacityChallengeResponse)
  | ContentInventoryRequest (timestamp : UInt64)
  | ContentInventoryResponse (items_json : Text)
deriving DecidableEq

/-! ## The crate -/

/-- The types of which values are written. -/
inductive BinType
  | account
  | staking_account
  | epoch_record
  | namespace_record
  | app_state_tip
  | app_state_snapshot
  | cado_body
  | snapshot_metadata
  | snapshot_chunk
  | abci_snapshot
  | sync_msg

@[reducible]
def BinType.type : BinType → Type
  | .account => Account
  | .staking_account => StakingAccount
  | .epoch_record => EpochRecord
  | .namespace_record => NamespaceRecord
  | .app_state_tip => AppStateTip
  | .app_state_snapshot => AppStateSnapshot
  | .cado_body => CadoBody Bytes
  | .snapshot_metadata => SnapshotMetadata
  | .snapshot_chunk => SnapshotChunk
  | .abci_snapshot => AbciSnapshot
  | .sync_msg => SyncMsg

/-- `bincode::serialize` and `bincode::deserialize`, which tells the text of its error. -/
structure Bincode where
  serialize : (T : BinType) → T.type → Bytes
  deserialize : (T : BinType) → Bytes → Except String T.type

/-- What was written of the value is read as the value. -/
def Bincode.ReadsBack (b : Bincode) (T : BinType) (v : T.type) : Prop :=
  b.deserialize T (b.serialize T v) = .ok v

/-- The lengths that are written: a number takes the bytes of its width, and bytes and texts the
eight bytes of their length too. -/
structure Bincode.FixedWidths (b : Bincode) : Prop where
  immutable : ∀ hash data metadata,
    (b.serialize .cado_body (.Immutable ⟨hash, data, metadata⟩)).length =
      4 + 32 + (8 + data.length) + (8 + (Text.bytes metadata.type_.as_str.toList).length +
        (8 + (Text.bytes metadata.owner).length))
  snapshot_chunk : ∀ c : SnapshotChunk, (b.serialize .snapshot_chunk c).length =
    4 + (8 + c.data.bytes.length) + (8 + (Text.bytes c.hash).length) + 8

/-! ## A bincode to compute with -/

/-- A text with its length in front. -/
def Text.counted (s : Text) : Bytes := leBytes 8 (Text.bytes s).length ++ Text.bytes s

def Account.toyBytes (a : Account) : Bytes :=
  0 :: leBytes 20 a.address.toNat ++ leBytes 16 a.balance.amount ++ leBytes 4 a.nonce.value.toNat

def StakingAccount.toyBytes (a : StakingAccount) : Bytes :=
  1 :: leBytes 20 a.address.toNat ++ leBytes 16 a.stake_balance.amount ++
    leBytes 20 a.originator.toNat

def EpochRecord.toyBytes (r : EpochRecord) : Bytes :=
  2 :: leBytes 8 (i64Bits r.epoch.val) ++ leBytes 8 r.active_validators.length

def NamespaceRecord.toyBytes (r : NamespaceRecord) : Bytes :=
  3 :: Text.bytes r.namespace_slug ++ leBytes 20 r.owner.toNat ++
    leBytes 8 r.registered_height.toNat

def AppStateTip.toyBytes (t : AppStateTip) : Bytes := 4 :: leBytes 8 (i64Bits t.block_height.val)

def AppStateSnapshot.toyBytes (s : AppStateSnapshot) : Bytes :=
  5 :: leBytes 8 (i64Bits s.block_height.val)

def CADOMetadata.toyBytes (metadata : CADOMetadata) : Bytes :=
  Text.counted metadata.type_.as_str.toList ++ Text.counted metadata.owner

def CadoBody.toyBytes : CadoBody Bytes → Bytes
  | .Immutable c => leBytes 4 0 ++ beBytes 32 c.hash.toNat ++ (leBytes 8 c.data.length ++ c.data) ++
      c.metadata.toyBytes
  | .Mutable m => leBytes 4 1 ++ beBytes 32 m.hash.toNat ++ (leBytes 8 m.data.length ++ m.data) ++
      m.metadata.toyBytes ++ beBytes 32 m.latest_hash.toNat

def SnapshotMetadata.toyBytes (m : SnapshotMetadata) : Bytes :=
  leBytes 8 (i64Bits m.height.val) ++ leBytes 8 m.epoch.toNat ++ leBytes 4 m.format_version.toNat ++
    leBytes 4 m.chunk_count.toNat ++ leBytes 8 m.total_size.toNat ++ m.compression.counted ++
    leBytes 8 m.created_at.toNat ++ beBytes 32 m.app_hash.toNat ++ leBytes 8 m.accounts_count.toNat ++
    leBytes 8 m.staking_accounts_count.toNat ++ leBytes 8 m.storage_staking_accounts_count.toNat ++
    leBytes 8 m.namespaces_count.toNat ++
    (leBytes 8 m.chunk_hashes.length ++ m.chunk_hashes.flatMap Text.counted)

def SnapshotChunk.toyBytes (c : SnapshotChunk) : Bytes :=
  leBytes 4 c.index.toNat ++ (leBytes 8 c.data.bytes.length ++ c.data.bytes) ++
    c.hash.counted ++ leBytes 8 c.size.toNat

def AbciSnapshot.toyBytes (s : AbciSnapshot) : Bytes :=
  leBytes 4 s.version.toNat ++ s.app_state_snapshot.toyBytes

/-- Only the messages that carry contents have their fields written. -/
def SyncMsg.toyBytes : SyncMsg → Bytes
  | .Announce content_id => leBytes 4 3 ++ content_id.counted
  | .ContentRequest content_id => leBytes 4 4 ++ content_id.counted
  | .ContentResponse content_id content => leBytes 4 5 ++ content_id.counted ++ content.counted
  | _ => leBytes 4 0

def toySerialize : (T : BinType) → T.type → Bytes
  | .account, a => Account.toyBytes a
  | .staking_account, a => StakingAccount.toyBytes a
  | .epoch_record, r => EpochRecord.toyBytes r
  | .namespace_record, r => NamespaceRecord.toyBytes r
  | .app_state_tip, t => AppStateTip.toyBytes t
  | .app_state_snapshot, s => AppStateSnapshot.toyBytes s
  | .cado_body, b => CadoBody.toyBytes b
  | .snapshot_metadata, m => SnapshotMetadata.toyBytes m
  | .snapshot_chunk, c => SnapshotChunk.toyBytes c
  | .abci_snapshot, s => AbciSnapshot.toyBytes s
  | .sync_msg, m => SyncMsg.toyBytes m

def readNumber (n : Nat) : Reader UInt8 Nat :=
  converted (symbols n) (fun b => some (ofBeBytes b.reverse))

def readI64 : Reader UInt8 I64 :=
  converted (readNumber 8) (fun v => I64.checked (if v < 2 ^ 63 then v else v - 2 ^ 64))

def readUInt64 : Reader UInt8 UInt64 := converted (readNumber 8) (fun v => some (.ofNat v))

def readUInt32 : Reader UInt8 UInt32 := converted (readNumber 4) (fun v => some (.ofNat v))

def readBytes32 : Reader UInt8 Bytes32 :=
  converted (symbols 32) (fun b => some (BitVec.ofNat 256 (ofBeBytes b)))

def readText : Reader UInt8 Text :=
  andThen (readNumber 8) (fun n =>
    converted (symbols n) (fun b => b.toByteArray.utf8Decode?.map Array.toList))

def readTexts : Reader UInt8 (List Text) := counted (readNumber 8) readText

/-- The fields one after another. The lengths that were read are `u64`s. -/
def SnapshotMetadata.read : Reader UInt8 SnapshotMetadata :=
  andThen readI64 fun height =>
  andThen readUInt64 fun epoch =>
  andThen readUInt32 fun format_version =>
  andThen readUInt32 fun chunk_count =>
  andThen readUInt64 fun total_size =>
  andThen readText fun compression =>
  andThen readUInt64 fun created_at =>
  andThen readBytes32 fun app_hash =>
  andThen readUInt64 fun accounts_count =>
  andThen readUInt64 fun staking_accounts_count =>
  andThen readUInt64 fun storage_staking_accounts_count =>
  andThen readUInt64 fun namespaces_count =>
  converted readTexts fun chunk_hashes =>
    if hcompression : compression.Fits then
      if hhashes : FitsUsize chunk_hashes.length ∧ ∀ hash ∈ chunk_hashes, hash.Fits then
        some ⟨height, epoch, format_version, chunk_count, total_size, compression, created_at,
          app_hash, accounts_count, staking_accounts_count, storage_staking_accounts_count,
          namespaces_count, chunk_hashes, hcompression, hhashes⟩
      else none
    else none

def readByteVec : Reader UInt8 ByteVec :=
  converted (andThen (readNumber 8) symbols)
    (fun b => if h : FitsUsize b.length then some ⟨b, h⟩ else none)

def SnapshotChunk.read : Reader UInt8 SnapshotChunk :=
  andThen readUInt32 fun index =>
  andThen readByteVec fun data =>
  andThen readText fun hash =>
  converted readUInt64 fun size =>
    if h : hash.Fits then some ⟨index, data, hash, size, h⟩ else none

def SyncMsg.read : Reader UInt8 SyncMsg :=
  andThen (readNumber 4) fun variant =>
    match variant with
    | 3 => converted readText (fun content_id => some (.Announce content_id))
    | 4 => converted readText (fun content_id => some (.ContentRequest content_id))
    | 5 => andThen readText (fun content_id =>
        converted readText (fun content => some (.ContentResponse content_id content)))
    | _ => fun _ => none

/-- What follows the value is not looked at. -/
def readFront {A : Type} (read : Reader UInt8 A) (data : Bytes) : Except String A :=
  match read data with
  | some (a, _) => .ok a
  | none => .error "io error: unexpected end of file"

/-- The types whose readers a worked example runs. -/
def toyDeserialize : (T : BinType) → Bytes → Except String T.type
  | .snapshot_metadata, data => readFront SnapshotMetadata.read data
  | .snapshot_chunk, data => readFront SnapshotChunk.read data
  | .sync_msg, data => readFront SyncMsg.read data
  | _, _ => .error "not read here"

def Bincode.toy : Bincode := ⟨toySerialize, toyDeserialize⟩

theorem toy_fixedWidths : Bincode.toy.FixedWidths where
  immutable := by
    intro hash data metadata
    simp [Bincode.toy, toySerialize, CadoBody.toyBytes, CADOMetadata.toyBytes, Text.counted,
      length_leBytes]
    omega
  snapshot_chunk := by
    intro c
    simp [Bincode.toy, toySerialize, SnapshotChunk.toyBytes, Text.counted, length_leBytes]
    omega

end eld_chain
