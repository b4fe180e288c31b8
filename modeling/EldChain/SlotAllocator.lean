-- The slots of a capacity file and their allocator: the slot map, the map
-- from contents to slots, the three files on disk, and the answers that
-- the operating system gives to each call. A call that fails stops the
-- program, and whatever it had written until then stays on disk.
import EldChain.CapacityTree
import EldChain.Library.Fallible
import EldChain.Library.Regions

open Std

namespace eld_chain

open fallible regions

/-! ## The data -/

structure Slot where
  offset : Nat
  size : Nat
  state : SlotState
deriving DecidableEq

structure SlotMap where
  slots : List Slot
  capacity_bytes : Nat
  seed : Bytes32
  provider_id : Address
deriving DecidableEq

/-- content id -> (slot index, actual size) pairs. -/
abbrev ContentSlotMap := ExtTreeMap Text (List (Nat × Nat)) compare

structure SlotAllocator where
  slot_map : Option SlotMap
  slots_file : String
  capacity_file : String
  content_slot_map : ContentSlotMap
  content_slot_map_file : String

def SlotAllocator.new (capacity_dir : String) (provider_id : Address) : SlotAllocator where
  slot_map := none
  slots_file := capacity_dir ++ "/capacity_" ++ Address.hex_with_prefix provider_id ++ ".slots.json"
  capacity_file := capacity_dir ++ "/capacity_" ++ Address.hex_with_prefix provider_id ++ ".dat"
  content_slot_map := ∅
  content_slot_map_file :=
    capacity_dir ++ "/capacity_" ++ Address.hex_with_prefix provider_id ++ ".content-slot-map.json"

/-- A file that holds the JSON text of a value: the whole text, or its first bytes only. -/
inductive JsonFile (A : Type)
  | whole (value : A)
  | cut (value : A) (bytes : Nat)

structure Disk where
  capacity_file : Option Bytes
  slots_file : Option (JsonFile SlotMap)
  content_slot_map_file : Option (JsonFile ContentSlotMap)

/-- What one call to the operating system comes to. A write may stop after some of its
bytes, never after all of them. -/
inductive Answer
  | done
  | refused (error : String)
  | cut (bytes : Nat) (error : String)
deriving DecidableEq

/-- The node's capacity manager with its disk, and the answers still to come. When they
run out every call succeeds. -/
structure CapacityManager where
  capacity_dir : String
  provider_id : Address
  slot_allocator : SlotAllocator
  merkle_tree : Option CapacityProofMerkleTree
  initialized : Bool
  disk : Disk
  answers : List Answer

/-- Why a program stops: an error that it returns, or a panic. -/
inductive Stop
  | error (e : EldError)
  | panic
deriving DecidableEq

abbrev Prog := EStateM Stop CapacityManager

def storageError (operation details : String) : Stop := .error (.StorageError operation details)

/-! ## Calls to the operating system -/

def nextAnswer : Prog Answer := fun s =>
  match s.answers with
  | [] => .ok .done s
  | a :: rest => .ok a { s with answers := rest }

/-- A call that changes no file: `what` is the text that its error starts with. -/
def osCall (operation what : String) : Prog Unit := do
  match ← nextAnswer with
  | .done => pure ()
  | .refused e => throw (storageError operation (what ++ ": " ++ e))
  | .cut _ e => throw (storageError operation (what ++ ": " ++ e))

/-- Opens the capacity file. -/
def openCapacityFile (operation what : String) : Prog Unit := do
  osCall operation what
  match (← get).disk.capacity_file with
  | some _ => pure ()
  | none => throw (storageError operation (what ++ ": No such file or directory (os error 2)"))

/-- The bytes of the capacity file, once it was opened. -/
def CapacityManager.capacityBytes (s : CapacityManager) : Bytes := s.disk.capacity_file.getD []

def CapacityManager.setCapacityFile (s : CapacityManager) (file : Bytes) : CapacityManager :=
  { s with disk := { s.disk with capacity_file := some file } }

/-- `write_all` at an offset of the open capacity file. -/
def writeAll (operation what : String) (offset : Nat) (data : Bytes) : Prog Unit := do
  match ← nextAnswer with
  | .done => modify (fun s => s.setCapacityFile (writeAt 0 s.capacityBytes offset data))
  | .refused e => throw (storageError operation (what ++ ": " ++ e))
  | .cut n e => do
    modify (fun s => s.setCapacityFile (writeAt 0 s.capacityBytes offset (data.take n)))
    throw (storageError operation (what ++ ": " ++ e))

/-- `read_exact` at an offset of the open capacity file. -/
def readExact (operation what : String) (offset size : Nat) : Prog Bytes := do
  osCall operation what
  match readAt (← get).capacityBytes offset size with
  | some data => pure data
  | none => throw (storageError operation (what ++ ": failed to fill whole buffer"))

/-- `fs::write` of a JSON text: `put` makes it the contents of the file. -/
def writeJson {A : Type} (operation what : String) (put : JsonFile A → Disk → Disk) (value : A) :
    Prog Unit := do
  match ← nextAnswer with
  | .done => modify (fun s => { s with disk := put (.whole value) s.disk })
  | .refused e => throw (storageError operation (what ++ ": " ++ e))
  | .cut n e => do
    modify (fun s => { s with disk := put (.cut value n) s.disk })
    throw (storageError operation (what ++ ": " ++ e))

/-! ## The slot map -/

def slot_map_ref : Prog SlotMap := do
  match (← get).slot_allocator.slot_map with
  | some slot_map => pure slot_map
  | none => throw (storageError "slot_map_ref" "Slot map not loaded")

def slot_map_mut : Prog SlotMap := do
  match (← get).slot_allocator.slot_map with
  | some slot_map => pure slot_map
  | none => throw (storageError "slot_map_mut" "Slot map not loaded")

def set_slot_map (slot_map : SlotMap) : Prog Unit :=
  modify (fun s => { s with
    slot_allocator := { s.slot_allocator with slot_map := some slot_map } })

def save_slot_map : Prog Unit := do
  let slot_map ← slot_map_ref
  osCall "save_slot_map" "Failed to create directory"
  writeJson "save_slot_map" "Failed to write slot map file"
    (fun file disk => { disk with slots_file := some file }) slot_map

def save_content_slot_map : Prog Unit := do
  let content_slot_map := (← get).slot_allocator.content_slot_map
  osCall "save_content_slot_map" "Failed to create directory"
  writeJson "save_content_slot_map" "Failed to write content-slot map file"
    (fun file disk => { disk with content_slot_map_file := some file }) content_slot_map

/-- The loop of `find_open_slots`. Its stop is tested after a slot was found, so that it
finds one slot when none is needed. -/
def openLoop (num_slots_needed : Nat) : List Slot → Nat → List Nat → List Nat
  | [], _, open_slots => open_slots
  | slot :: rest, idx, open_slots =>
    if slot.state = .Open then
      if num_slots_needed ≤ open_slots.length + 1 then open_slots ++ [idx]
      else openLoop num_slots_needed rest (idx + 1) (open_slots ++ [idx])
    else openLoop num_slots_needed rest (idx + 1) open_slots

def find_open_slots (num_slots_needed : Nat) : Prog (List Nat) := do
  let slot_map ← slot_map_ref
  let open_slots := openLoop num_slots_needed slot_map.slots 0 []
  if open_slots.length < num_slots_needed then
    throw (storageError "find_open_slots" ("Not enough open slots. Need "
      ++ toString num_slots_needed ++ ", found " ++ toString open_slots.length))
  else pure open_slots

/-- Gives each slot of a list a new state. It stops at an index outside the slot map, with
the slots before it changed. -/
def setStates (operation : String) (state : SlotState) : List (Nat × Nat) → Prog Unit
  | [] => pure ()
  | (idx, _) :: rest => do
    let slot_map ← slot_map_mut
    if slot_map.slots.length ≤ idx then
      throw (storageError operation ("Slot index " ++ toString idx ++ " out of bounds"))
    else
      set_slot_map { slot_map with
        slots := slot_map.slots.modify idx (fun slot => { slot with state := state }) }
      setStates operation state rest

def mark_slots_as_content (slot_sizes : List (Nat × Nat)) (deal_id : Text)
    (committed_hash : Bytes32) : Prog Unit := do
  let _ ← slot_map_mut
  setStates "mark_slots_as_content" (.Content deal_id committed_hash) slot_sizes
  modify (fun s => { s with slot_allocator := { s.slot_allocator with
    content_slot_map := s.slot_allocator.content_slot_map.insert deal_id slot_sizes } })
  save_content_slot_map

def CONTENT_ID_NOT_IN_SLOT_MAP : String := "content_id_not_in_slot_map"

def find_slots_by_content_id (content_id : Text) : Prog (List (Nat × Nat)) := do
  match (← get).slot_allocator.content_slot_map[content_id]? with
  | some slot_sizes => pure slot_sizes
  | none => throw (.error (.NotFoundError CONTENT_ID_NOT_IN_SLOT_MAP (String.ofList content_id)))

def remove_content_by_id (content_id : Text) : Prog (List (Nat × Nat)) := do
  let slot_sizes ← find_slots_by_content_id content_id
  let _ ← slot_map_mut
  setStates "remove_content_by_id" .Open slot_sizes
  modify (fun s => { s with slot_allocator := { s.slot_allocator with
    content_slot_map := s.slot_allocator.content_slot_map.erase content_id } })
  save_content_slot_map
  pure slot_sizes

/-! ## One slot of the capacity file -/

def MAX_CHUNK_SIZE : Nat := 1024

/-- `size` zero bytes. -/
def zeros (size : Nat) : Bytes := List.replicate size 0

/-- The data with zeros up to a size. -/
def padTo (size : Nat) (data : Bytes) : Bytes := data ++ zeros (size - data.length)

variable (o : Outside)

def write_chunk_to_slot (slot_index : Nat) (data : Bytes) : Prog Bytes32 := do
  let slot_map ← slot_map_ref
  match slot_map.slots[slot_index]? with
  | none => throw (storageError "write_chunk_to_slot"
      ("Slot index " ++ toString slot_index ++ " out of bounds"))
  | some slot =>
    if slot.size < data.length then
      throw (storageError "write_chunk_to_slot" ("Data size " ++ toString data.length
        ++ " exceeds slot size " ++ toString slot.size))
    else
      let chunk_data := padTo slot.size data
      openCapacityFile "write_chunk_to_slot" "Failed to open capacity file"
      osCall "write_chunk_to_slot" "Failed to seek to slot offset"
      writeAll "write_chunk_to_slot" "Failed to write chunk data" slot.offset chunk_data
      pure (hash_chunk o chunk_data)

def read_chunk_from_slot (slot_index : Nat) : Prog Bytes := do
  let slot_map ← slot_map_ref
  match slot_map.slots[slot_index]? with
  | none => throw (storageError "read_chunk_from_slot"
      ("Slot index " ++ toString slot_index ++ " out of bounds"))
  | some slot =>
    openCapacityFile "read_chunk_from_slot" "Failed to open capacity file"
    osCall "read_chunk_from_slot" "Failed to seek to slot offset"
    readExact "read_chunk_from_slot" "Failed to read chunk data" slot.offset slot.size

/-! ## Loading the files -/

/-- What serde_json says of the first bytes of a text. -/
structure JsonErrors where
  slot_map : SlotMap → Nat → String
  content_slot_map : ContentSlotMap → Nat → String

variable (j : JsonErrors)

def load_content_slot_map : Prog Unit := do
  match (← get).disk.content_slot_map_file with
  | none => throw (storageError "load_content_slot_map" ("Content-slot map file does not exist: "
      ++ (← get).slot_allocator.content_slot_map_file))
  | some file =>
    osCall "load_content_slot_map" "Failed to read content-slot map file"
    match file with
    | .cut value n => throw (storageError "load_content_slot_map"
        ("Failed to deserialize content-slot map: " ++ j.content_slot_map value n))
    | .whole value =>
      modify (fun s => { s with
        slot_allocator := { s.slot_allocator with content_slot_map := value } })

/-- An error of the second file is passed over, and the map from contents to slots stays
as it was. -/
def load_slot_map : Prog Unit := do
  match (← get).disk.slots_file with
  | none => throw (storageError "load_slot_map" ("Slot map file does not exist: "
      ++ (← get).slot_allocator.slots_file))
  | some file =>
    osCall "load_slot_map" "Failed to read slot map file"
    match file with
    | .cut value n => throw (storageError "deserialize_slot_map"
        ("Failed to deserialize slot map: " ++ j.slot_map value n))
    | .whole value =>
      set_slot_map value
      ignoring (load_content_slot_map j)

end eld_chain
