-- The capacity manager of a provider: allocating the capacity file, the
-- Merkle tree over its slots, storing, reading and deleting content, and
-- the proof that answers a challenge. What runs under the allocator's lock
-- is a section of its own, since the lock is given up before the tree is
-- updated.
import EldChain.SlotAllocator

open Std

namespace eld_chain

open fallible regions

/-- BLAKE3's extendable output. -/
structure ChunkSource where
  xof : Bytes → Nat → Bytes
  xof_length : ∀ input n, (xof input n).length = n

variable (o : Outside) (x : ChunkSource) (j : JsonErrors)

/-! ## Hashing -/

/-- What a deterministic hasher has taken in. -/
def create_deterministic_hasher (label : String) (seed : Bytes32) (provider_id : Address) : Bytes :=
  Text.bytes label.toList ++ beBytes 32 seed.toNat ++ Text.bytes (Address.text provider_id)

def generate_chunk_data (provider_id : Address) (seed : Bytes32) (chunk_index : Nat) : Bytes :=
  x.xof (create_deterministic_hasher "CAPACITY_PROOF" seed provider_id ++ leBytes 8 chunk_index)
    MAX_CHUNK_SIZE

/-- The number that some bytes spell, low byte first. -/
def leNat : Bytes → Nat
  | [] => 0
  | b :: rest => b.toNat + 256 * leNat rest

/-- The number that the first 8 bytes of a digest spell. -/
def random_u64 (hash : Bytes32) : Nat := leNat ((beBytes 32 hash.toNat).take 8)

/-! ## The Merkle tree over the slots -/

def storageRead (operation seek read : String) (slot : Slot) : Prog Bytes := do
  osCall operation seek
  readExact operation read slot.offset slot.size

def hash_content_slot (slot : Slot) : Prog Bytes32 := do
  let chunk_data ← storageRead "build_merkle_tree"
    ("Failed to seek to content slot offset " ++ toString slot.offset)
    ("Failed to read content slot at offset " ++ toString slot.offset) slot
  pure (hash_chunk o chunk_data)

/-- The leaf of one slot, from its state. -/
def leafHash (slot_map : SlotMap) (slot : Slot) (chunk_index : Nat) : Prog Bytes32 :=
  match slot.state with
  | .Proof =>
    let chunk_data := generate_chunk_data x slot_map.provider_id slot_map.seed chunk_index
    if chunk_data.length < slot.size then throw .panic
    else pure (hash_chunk o (chunk_data.take slot.size))
  | .Open => pure (hash_chunk o (zeros slot.size))
  | .Content _ _ => hash_content_slot o slot

/-- The leaves of the slots from `chunk_index` on. -/
def leafHashes (slot_map : SlotMap) : List Slot → Nat → Prog (List Bytes32)
  | [], _ => pure []
  | slot :: rest, chunk_index => do
    let chunk_hash ← leafHash o x slot_map slot chunk_index
    let leaf_hashes ← leafHashes slot_map rest (chunk_index + 1)
    pure (chunk_hash :: leaf_hashes)

def isContent : SlotState → Bool
  | .Content _ _ => true
  | _ => false

/-- `CapacityProofMerkleTree::build`, which panics on no leaves. -/
def buildTree (leaves : List Bytes32) : Prog CapacityProofMerkleTree :=
  match CapacityProofMerkleTree.build o leaves with
  | some tree => pure tree
  | none => throw .panic

/-- The file is only opened when a slot holds content. -/
def open_capacity_file_for_merkle_build (slot_map : SlotMap) : Prog Unit :=
  if slot_map.slots.any (fun slot => isContent slot.state) then do
    let path := (← get).slot_allocator.capacity_file
    openCapacityFile "build_merkle_tree" ("Failed to open capacity file " ++ path)
  else pure ()

def build_merkle_tree (slot_map : SlotMap) : Prog CapacityProofMerkleTree := do
  open_capacity_file_for_merkle_build slot_map
  let leaf_hashes ← leafHashes o x slot_map slot_map.slots 0
  buildTree o leaf_hashes

def set_merkle_tree (merkle_tree : CapacityProofMerkleTree) : Prog Unit :=
  modify (fun s => { s with merkle_tree := some merkle_tree })

def get_merkle_root : Prog Bytes32 := do
  match (← get).merkle_tree with
  | some merkle_tree => pure merkle_tree.root
  | none => throw (storageError "get_merkle_root" "Merkle tree not initialized")

def update_merkle_tree_for_content (slot_indices : List Nat) (content_hashes : List Bytes32) :
    Prog Bytes32 := do
  if slot_indices.length ≠ content_hashes.length then
    throw (storageError "update_merkle_tree_for_content" ("Mismatch: "
      ++ toString slot_indices.length ++ " slot indices but " ++ toString content_hashes.length
      ++ " content hashes"))
  else
    match (← get).merkle_tree with
    | none => throw (storageError "update_merkle_tree_for_content" "Merkle tree not initialized")
    | some merkle_tree =>
      let leaf_count := merkle_tree.leaves.length
      match slot_indices.find? (fun slot_index => leaf_count ≤ slot_index) with
      | some slot_index => throw (storageError "update_merkle_tree_for_content"
          ("Slot index " ++ toString slot_index ++ " out of bounds (max: "
            ++ toString (leaf_count - 1) ++ ")"))
      | none =>
        match CapacityProofMerkleTree.update_leaves o (slot_indices.zip content_hashes)
            merkle_tree with
        | none => throw .panic
        | some updated => do
          set_merkle_tree updated
          pure updated.root

/-! ## Storing and reading content -/

/-- Writes each chunk to its slot and collects what the slots hold. -/
def writeChunks : List Bytes → List Nat → Nat → Prog (List (Nat × Nat) × List Bytes32)
  | [], _, _ => pure ([], [])
  | _ :: _, [], _ => throw .panic
  | chunk_data :: chunks, slot_index :: slot_indices, chunk_idx => do
    if MAX_CHUNK_SIZE < chunk_data.length then
      throw (storageError "store_content_chunks" ("Chunk " ++ toString chunk_idx ++ " size "
        ++ toString chunk_data.length ++ " exceeds slot size " ++ toString MAX_CHUNK_SIZE))
    else
      let chunk_hash ← write_chunk_to_slot o slot_index (padTo MAX_CHUNK_SIZE chunk_data)
      let rest ← writeChunks chunks slot_indices (chunk_idx + 1)
      pure ((slot_index, chunk_data.length) :: rest.1, chunk_hash :: rest.2)

def committedHash (content_hashes : List Bytes32) : Bytes32 :=
  o.sha256 (Text.bytes "CONTENT_COMMIT".toList
    ++ content_hashes.flatMap (fun hash => beBytes 32 hash.toNat))

/-- The part of `store_content_chunks` under the allocator's lock: the slots it used and
the hashes of their new bytes. -/
def storeSection (content_id : Text) (chunks : List Bytes) : Prog (List Nat × List Bytes32) := do
  let slot_indices ← find_open_slots chunks.length
  let written ← writeChunks o chunks slot_indices 0
  mark_slots_as_content written.1 content_id (committedHash o written.2)
  save_slot_map
  pure (written.1.map Prod.fst, written.2)

/-- Gives the slots used, and the root that goes to `submit_merkle_root_update`, whose error is
only logged. -/
def store_content_chunks (content_id : Text) (chunks : List Bytes) :
    Prog (List Nat × Bytes32) := do
  let stored ← storeSection o content_id chunks
  let new_merkle_root ← update_merkle_tree_for_content o stored.1 stored.2
  pure (stored.1, new_merkle_root)

def readChunks : List (Nat × Nat) → Prog Bytes
  | [] => pure []
  | (slot_index, actual_size) :: rest => do
    let chunk_data ← read_chunk_from_slot slot_index
    if chunk_data.length < actual_size then
      throw (storageError "get_content_from_slots" ("Chunk size mismatch: expected "
        ++ toString actual_size ++ ", got " ++ toString chunk_data.length))
    else
      let content ← readChunks rest
      pure (chunk_data.take actual_size ++ content)

def get_content_from_slots (content_id : Text) : Prog (Option Bytes) := do
  match (← get).slot_allocator.content_slot_map[content_id]? with
  | none => pure none
  | some slot_sizes => do
    let content ← readChunks slot_sizes
    pure (some content)

/-- The hashes of the slots once they are zero. -/
def zeroHashes (slots : List Slot) : List (Nat × Nat) → Prog (List Bytes32)
  | [] => pure []
  | (slot_index, _) :: rest =>
    match slots[slot_index]? with
    | none => throw (storageError "delete_content_from_slots"
        ("Slot index " ++ toString slot_index ++ " out of bounds"))
    | some slot => do
      let hashes ← zeroHashes slots rest
      pure (hash_chunk o (zeros slot.size) :: hashes)

def zeroSlots : List (Nat × Nat) → Prog Unit
  | [] => pure ()
  | (slot_index, _) :: rest => do
    let _ ← write_chunk_to_slot o slot_index []
    zeroSlots rest

/-- The part of `delete_content_from_slots` under the allocator's lock. -/
def deleteSection (content_id : Text) : Prog (List Nat × List Bytes32) := do
  let slot_sizes ← find_slots_by_content_id content_id
  let slot_map ← slot_map_ref
  let slot_zero_hashes ← zeroHashes o slot_map.slots slot_sizes
  zeroSlots o slot_sizes
  let released ← remove_content_by_id content_id
  save_slot_map
  pure (released.map Prod.fst, slot_zero_hashes)

/-- Gives the root that goes to `submit_merkle_root_update`, if it is a new one. -/
def delete_content_from_slots (content_id : Text) : Prog (Option Bytes32) := do
  let released ← deleteSection o content_id
  let previous_merkle_root ← get_merkle_root
  let new_merkle_root ← update_merkle_tree_for_content o released.1 released.2
  pure (if previous_merkle_root = new_merkle_root then none else some new_merkle_root)

/-! ## Allocating the capacity file -/

def swap (l : List Nat) (i k : Nat) : List Nat :=
  match l[i]?, l[k]? with
  | some a, some b => (l.set i b).set k a
  | _, _ => l

/-- The Fisher-Yates shuffle, from index `i` down to 1. -/
def shuffleSlots (base_hasher : Bytes) : Nat → List Nat → List Nat
  | 0, slot_indices => slot_indices
  | i + 1, slot_indices =>
    let k := random_u64 (o.blake3 (base_hasher ++ leBytes 8 (i + 1))) % (i + 1 + 1)
    shuffleSlots base_hasher i (swap slot_indices (i + 1) k)

/-- The offset and size of each chunk: the last one goes at the end of the file. -/
def chunkOffsets (provider_id : Address) (capacity_bytes : Nat) (seed : Bytes32) :
    List (Nat × Nat) :=
  let chunk_count := (capacity_bytes + (MAX_CHUNK_SIZE - 1)) / MAX_CHUNK_SIZE
  let num_permutable_slots := chunk_count - 1
  let base_hasher := create_deterministic_hasher "OFFSET_MAP" seed provider_id
  let slot_indices :=
    shuffleSlots o base_hasher (num_permutable_slots - 1) (List.range num_permutable_slots)
  let remainder := capacity_bytes % MAX_CHUNK_SIZE
  let last_chunk_size := if 0 < remainder then remainder else MAX_CHUNK_SIZE
  slot_indices.map (fun slot_idx => (slot_idx * MAX_CHUNK_SIZE, MAX_CHUNK_SIZE))
    ++ [(capacity_bytes - last_chunk_size, last_chunk_size)]

/-- The first later chunk that overlaps chunk `i`. -/
def overlapWith (i : Nat) (chunk : Nat × Nat) : List ((Nat × Nat) × Nat) → Option String
  | [] => none
  | (other, k) :: rest =>
    if chunk.1 < other.1 + other.2 ∧ other.1 < chunk.1 + chunk.2 then
      some ("Overlapping offsets detected: chunk " ++ toString i ++ " [" ++ toString chunk.1 ++ ", "
        ++ toString (chunk.1 + chunk.2) ++ ") overlaps with chunk " ++ toString k ++ " ["
        ++ toString other.1 ++ ", " ++ toString (other.1 + other.2) ++ ")")
    else overlapWith i chunk rest

def firstOverlap : List ((Nat × Nat) × Nat) → Option String
  | [] => none
  | (chunk, i) :: rest => (overlapWith i chunk rest).or (firstOverlap rest)

/-- A slot starts as Proof in 80 cases of 100. -/
def initialState (state_seed : Bytes32) (chunk_index : Nat) : SlotState :=
  if random_u64 (o.blake3 (beBytes 32 state_seed.toNat ++ leBytes 8 chunk_index)) % 100 < 80
  then .Proof else .Open

/-- The slots of a new capacity file, as many as it has chunks. -/
def initialSlots (provider_id : Address) (capacity_bytes : Nat) (seed : Bytes32) : List Slot :=
  let state_seed := o.blake3 (create_deterministic_hasher "SLOT_STATE_MAP" seed provider_id)
  let chunk_count := (capacity_bytes + (MAX_CHUNK_SIZE - 1)) / MAX_CHUNK_SIZE
  ((chunkOffsets o provider_id capacity_bytes seed).zipIdx.take chunk_count).map
    (fun c => ⟨c.1.1, c.1.2, initialState o state_seed c.2⟩)

/-- Fills one slot with the bytes that its state asks for, and gives their hash. -/
def fillSlot (provider_id : Address) (seed : Bytes32) (slot : Slot) (chunk_index : Nat) :
    Prog Bytes32 :=
  match slot.state with
  | .Proof => do
    let chunk_data := (generate_chunk_data x provider_id seed chunk_index).take slot.size
    osCall "allocate_capacity" "Failed to seek to slot offset"
    writeAll "allocate_capacity" "Failed to write proof chunk" slot.offset chunk_data
    pure (hash_chunk o chunk_data)
  | .Open => do
    osCall "allocate_capacity" "Failed to seek to open slot offset"
    writeAll "allocate_capacity" "Failed to write zeros to open slot" slot.offset (zeros slot.size)
    pure (hash_chunk o (zeros slot.size))
  | .Content _ _ => throw (storageError "allocate_capacity"
      "Content slots should not exist during initial allocation")

/-- Fills the slots from `chunk_index` on and collects their leaves. -/
def fillSlots (provider_id : Address) (seed : Bytes32) : List Slot → Nat → Prog (List Bytes32)
  | [], _ => pure []
  | slot :: rest, chunk_index => do
    let leaf_hash ← fillSlot o x provider_id seed slot chunk_index
    let leaf_hashes ← fillSlots provider_id seed rest (chunk_index + 1)
    pure (leaf_hash :: leaf_hashes)

def allocate_capacity_internal (capacity_bytes : Nat) (seed : Bytes32) : Prog Bytes32 := do
  let provider_id := (← get).provider_id
  osCall "allocate_capacity"
    ("Failed to create capacity directory " ++ (← get).capacity_dir)
  osCall "allocate_capacity" "Failed to create capacity file"
  modify (fun s => s.setCapacityFile [])
  osCall "allocate_capacity" "Failed to pre-allocate capacity file"
  modify (fun s => s.setCapacityFile (zeros capacity_bytes))
  match firstOverlap (chunkOffsets o provider_id capacity_bytes seed).zipIdx with
  | some details => throw (storageError "allocate_capacity" details)
  | none =>
    let slots := initialSlots o provider_id capacity_bytes seed
    let leaf_hashes ← fillSlots o x provider_id seed slots 0
    osCall "allocate_capacity" "Failed to fsync capacity file"
    set_slot_map ⟨slots, capacity_bytes, seed, provider_id⟩
    save_slot_map
    let merkle_tree ← buildTree o leaf_hashes
    set_merkle_tree merkle_tree
    pure merkle_tree.root

/-! ## Starting the manager -/

/-- Loads the maps and builds the tree over them. -/
def loadAndBuild : Prog Unit := do
  load_slot_map j
  match (← get).slot_allocator.slot_map with
  | none => pure ()
  | some slot_map => do
    let merkle_tree ← build_merkle_tree o x slot_map
    set_merkle_tree merkle_tree

/-- `CapacityManager::initialize`. -/
def initialize_manager : Prog Unit := do
  let s ← get
  if s.initialized then pure ()
  else do
    if s.disk.slots_file.isSome then loadAndBuild o x j else pure ()
    modify (fun s => { s with initialized := true })

/-- `CapacityManager::new` in a new process, over the disk that the last one left. -/
def CapacityManager.reopened (s : CapacityManager) (answers : List Answer) : CapacityManager where
  capacity_dir := s.capacity_dir
  provider_id := s.provider_id
  slot_allocator := SlotAllocator.new s.capacity_dir s.provider_id
  merkle_tree := none
  initialized := false
  disk := s.disk
  answers := answers

/-! ## Answering a challenge -/

structure CapacityProofGenerationParams where
  challenge_id : ChallengeId
  challenger : Address
  provider_id : Address
  chunk_indices : List UInt64
  block_height : I64
  expected_merkle_root : Bytes32

structure ChallengeProof where
  challenge_id : Text
  provider_id : Address
  challenger : Address
  block_height : I64
  proofs : List ChunkProof
  generated_at : UInt64

def proveChunk (merkle_tree : CapacityProofMerkleTree) (slot_map : SlotMap)
    (chunk_index : UInt64) : Prog ChunkProof :=
  match slot_map.slots[chunk_index.toNat]? with
  | none => throw (.error (.ValidationError "chunk_index" (toString chunk_index.toNat)
      ("Chunk index " ++ toString chunk_index.toNat ++ " out of bounds")))
  | some slot => do
    osCall "seek_chunk" ("Failed to seek to chunk offset " ++ toString slot.offset)
    let chunk_data ← readExact "read_chunk" "Failed to read chunk data" slot.offset slot.size
    match merkle_tree.generate_proof chunk_index.toNat with
    | none => throw .panic
    | some merkle_proof => pure ⟨chunk_index.toNat, chunk_data, hash_chunk o chunk_data,
        merkle_proof, slot.state, chunk_index.toNat_lt⟩

def proveChunks (merkle_tree : CapacityProofMerkleTree) (slot_map : SlotMap) :
    List UInt64 → Prog (List ChunkProof)
  | [] => pure []
  | chunk_index :: rest => do
    let proof ← proveChunk o merkle_tree slot_map chunk_index
    let proofs ← proveChunks merkle_tree slot_map rest
    pure (proof :: proofs)

/-- `generated_at` is the wall clock. -/
def generate_capacity_proof (params : CapacityProofGenerationParams) (generated_at : UInt64) :
    Prog ChallengeProof := do
  if params.provider_id ≠ (← get).provider_id then
    throw (.error (.ValidationError "provider_id" (Address.hex_with_prefix params.provider_id)
      "Challenge is not for this provider"))
  else if !(← get).initialized then
    throw (.error (.ValidationError "initialized" "false" "Capacity manager not initialized"))
  else
    match (← get).merkle_tree with
    | none => throw (.error (.ValidationError "merkle_tree" "none" "Merkle tree not built"))
    | some merkle_tree =>
      if merkle_tree.root ≠ params.expected_merkle_root then
        throw (.error (.ValidationError "merkle_root"
          (String.ofList (hexDigits 64 params.expected_merkle_root.toNat))
          ("Expected root " ++ String.ofList (hexDigits 64 params.expected_merkle_root.toNat)
            ++ " does not match current root "
            ++ String.ofList (hexDigits 64 merkle_tree.root.toNat))))
      else
        match (← get).slot_allocator.slot_map with
        | none => throw (.error (.ValidationError "slot_map" "none" "Slot map not loaded"))
        | some slot_map => do
          openCapacityFile "open_capacity_file" "Failed to open capacity file"
          let proofs ← proveChunks o merkle_tree slot_map params.chunk_indices
          pure ⟨ChallengeId.to_hex params.challenge_id, params.provider_id, params.challenger,
            params.block_height, proofs, generated_at⟩

/-! ## A manager to compute with -/

/-- An outside under which every slot of a new capacity file is open. -/
def Outside.openSlots : Outside :=
  { Outside.toy with
    sha256 := fun b => BitVec.ofNat 256 (b.foldl (fun acc v => acc * 3 + v.toNat) 0)
    blake3 := fun _ => BitVec.ofNat 256 (99 * 2 ^ 248) }

/-- The small chain, where every slot of a new capacity file is open. -/
def Outside.openChain : Outside :=
  { Outside.toy with blake3 := fun _ => BitVec.ofNat 256 (99 * 2 ^ 248) }

theorem length_sevens (_ : Bytes) (n : Nat) : (List.replicate n (7 : UInt8)).length = n :=
  List.length_replicate

def ChunkSource.sevens : ChunkSource := ⟨fun _ n => List.replicate n 7, length_sevens⟩

def JsonErrors.eof : JsonErrors :=
  ⟨fun _ _ => "EOF while parsing an object", fun _ _ => "EOF while parsing an object"⟩

/-- A manager that was just started over an empty directory. -/
def CapacityManager.fresh : CapacityManager :=
  ⟨"/data", 7, SlotAllocator.new "/data" 7, none, true, ⟨none, none, none⟩, []⟩

end eld_chain
