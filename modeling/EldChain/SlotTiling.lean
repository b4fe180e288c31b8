-- The slots of a new capacity file. The shuffle permutes them whatever the
-- hash says, and the last chunk fills what they leave at the end, so the
-- chunks tile the file and the overlap check never fires.
import EldChain.CapacityAllocation

namespace eld_chain

open regions

variable (o : Outside)

/-- The chunks fill the file: the full ones in the shuffled order, then the last one. -/
theorem chunkOffsets_tiles (provider_id : Address) {capacity : Nat} (seed : Bytes32)
    (hpos : 0 < capacity) : Tiles (chunkOffsets o provider_id capacity seed) capacity := by
  have hsize : MAX_CHUNK_SIZE = 1024 := rfl
  unfold chunkOffsets
  simp only
  generalize hlast : (if 0 < capacity % MAX_CHUNK_SIZE then capacity % MAX_CHUNK_SIZE
    else MAX_CHUNK_SIZE) = last_chunk_size
  generalize hcount : (capacity + (MAX_CHUNK_SIZE - 1)) / MAX_CHUNK_SIZE - 1 = full
  have hfill : full * MAX_CHUNK_SIZE + last_chunk_size = capacity := by
    rw [hsize] at hlast hcount ⊢
    by_cases hr : 0 < capacity % 1024
    · rw [if_pos hr] at hlast
      omega
    · rw [if_neg hr] at hlast
      omega
  have hshuffled : ((List.range full).map (fun i => (i * MAX_CHUNK_SIZE, MAX_CHUNK_SIZE))).Perm
      ((shuffleSlots o (create_deterministic_hasher "OFFSET_MAP" seed provider_id) (full - 1)
        (List.range full)).map (fun i => (i * MAX_CHUNK_SIZE, MAX_CHUNK_SIZE))) :=
    (shuffleSlots_perm o _ _ _).symm.map _
  have htiles := ((tiles_range MAX_CHUNK_SIZE full).perm hshuffled).snoc last_chunk_size
  rw [hfill] at htiles
  rw [show capacity - last_chunk_size = full * MAX_CHUNK_SIZE by omega]
  exact htiles

/-- The slots of a new capacity file tile it: for every capacity, seed and provider, and
whatever the hash that drives the shuffle gives, there are as many slots as the capacity has
chunks, no two overlap, none reaches out of the file, and every byte is in exactly one of
them. So the check of the allocation finds no overlap. -/
theorem slots_tile_the_file (provider_id : Address) {capacity : Nat} (seed : Bytes32)
    (hpos : 0 < capacity) :
    (chunkOffsets o provider_id capacity seed).length =
      (capacity + (MAX_CHUNK_SIZE - 1)) / MAX_CHUNK_SIZE ∧
    (chunkOffsets o provider_id capacity seed).Pairwise
      (fun a b => Apart a.1 a.2 b.1 b.2) ∧
    (∀ chunk ∈ chunkOffsets o provider_id capacity seed, chunk.1 + chunk.2 ≤ capacity) ∧
    firstOverlap (chunkOffsets o provider_id capacity seed).zipIdx = none ∧
    ∀ byte < capacity, ∃! k : Nat, ∃ slot,
      (initialSlots o provider_id capacity seed)[k]? = some slot ∧
        slot.offset ≤ byte ∧ byte < slot.offset + slot.size := by
  have htiles := chunkOffsets_tiles o provider_id seed hpos
  refine ⟨length_chunkOffsets o provider_id seed hpos, htiles.apart, htiles.inside, ?_, ?_⟩
  · have hapart := htiles.apart
    rw [← List.zipIdx_map_fst 0 (chunkOffsets o provider_id capacity seed),
      List.pairwise_map] at hapart
    exact firstOverlap_none_iff.mpr hapart
  · intro byte hbyte
    have hslot : ∀ k : Nat, (∃ slot, (initialSlots o provider_id capacity seed)[k]? = some slot ∧
        slot.offset ≤ byte ∧ byte < slot.offset + slot.size) ↔
        ∃ chunk, (chunkOffsets o provider_id capacity seed)[k]? = some chunk ∧
          chunk.1 ≤ byte ∧ byte < chunk.1 + chunk.2 := by
      intro k
      rw [initialSlots_get o hpos]
      constructor
      · rintro ⟨slot, hk, hin⟩
        obtain ⟨chunk, hchunk, rfl⟩ := Option.map_eq_some_iff.mp hk
        exact ⟨chunk, hchunk, hin⟩
      · rintro ⟨chunk, hchunk, hin⟩
        exact ⟨_, Option.map_eq_some_iff.mpr ⟨chunk, hchunk, rfl⟩, hin⟩
    simp only [hslot]
    exact htiles.unique_region hbyte

/-- Two full chunks and one byte. -/
theorem slots_tile_a_file_of_three_chunks :
    (chunkOffsets (Outside.toy) 7 2049 5).length = 3 ∧
    firstOverlap (chunkOffsets (Outside.toy) 7 2049 5).zipIdx = none := by
  obtain ⟨hlen, _, _, hover, _⟩ := slots_tile_the_file (Outside.toy) 7 5 (by decide : 0 < 2049)
  exact ⟨hlen, hover⟩

end eld_chain
