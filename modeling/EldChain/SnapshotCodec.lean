-- How snapshots are encoded: what bincode makes of the metadata and of the
-- chunks of a snapshot, with the errors of their readers. The bincode of
-- the worked examples reads back what it writes.
import EldChain.AppHash
import EldChain.CodecRoundTrip
import EldChain.Library.Readers
import EldChain.MempoolAdmission
import EldChain.PathForms

open readers

namespace eld_chain

variable (o : Outside)

/-! ## The calls of the crate -/

def SnapshotMetadata.serialize (m : SnapshotMetadata) : Bytes :=
  o.bincode.serialize .snapshot_metadata m

def SnapshotMetadata.deserialize_bin (data : Bytes) : Except EldError SnapshotMetadata :=
  (o.bincode.deserialize .snapshot_metadata data).mapError (fun e =>
    .StorageError "deserialize_snapshot_metadata" ("Failed to deserialize SnapshotMetadata: " ++ e))

def SnapshotChunk.serialize_bin (c : SnapshotChunk) : Bytes :=
  o.bincode.serialize .snapshot_chunk c

def SnapshotChunk.deserialize_bin (data : Bytes) : Except EldError SnapshotChunk :=
  (o.bincode.deserialize .snapshot_chunk data).mapError (fun e =>
    .StorageError "deserialize_snapshot_chunk" ("Failed to deserialize SnapshotChunk: " ++ e))

/-- Bincode reads the metadata and the chunks of snapshots back. -/
structure Outside.ReadsSnapshots : Prop where
  snapshot_metadata : ∀ m : SnapshotMetadata, o.bincode.ReadsBack .snapshot_metadata m
  snapshot_chunk : ∀ c : SnapshotChunk, o.bincode.ReadsBack .snapshot_chunk c

variable {o}

theorem SnapshotMetadata.deserialize_serialize {m : SnapshotMetadata}
    (h : o.bincode.ReadsBack .snapshot_metadata m) :
    SnapshotMetadata.deserialize_bin o (m.serialize o) = .ok m := by
  have hback : o.bincode.deserialize .snapshot_metadata (m.serialize o) = .ok m := h
  unfold SnapshotMetadata.deserialize_bin
  rw [hback]
  rfl

theorem SnapshotChunk.deserialize_serialize {c : SnapshotChunk}
    (h : o.bincode.ReadsBack .snapshot_chunk c) :
    SnapshotChunk.deserialize_bin o (c.serialize_bin o) = .ok c := by
  have hback : o.bincode.deserialize .snapshot_chunk (c.serialize_bin o) = .ok c := h
  unfold SnapshotChunk.deserialize_bin
  rw [hback]
  rfl

/-! ## The parts of a record -/

theorem readNumber_reads (n : Nat) : Reads (· < 256 ^ n) (readNumber n) (leBytes n) := by
  refine Reads.of_symbols (fun v _ => length_leBytes n v) ?_
  intro v hv
  have hvalue : ofBeBytes (leBytes n v).reverse = v := ofBeBytes_beBytes hv
  rw [hvalue]

theorem readI64_reads : Reads (fun _ => True) readI64 (fun x => leBytes 8 (i64Bits x.val)) := by
  refine (readNumber_reads 8).converted (fun x _ => i64Bits_lt x.val) ?_
  intro x _
  have hlo := x.lo
  have hhi := x.hi
  unfold I64.checked i64Bits
  by_cases hsign : 0 ≤ x.val
  · have hbits : (x.val % 2 ^ 64).toNat = x.val.toNat := by omega
    have hval : ((x.val.toNat : Nat) : Int) = x.val := by omega
    rw [hbits, if_pos (by omega), hval, dif_pos hlo, dif_pos hhi]
  · have hbits : (((x.val % 2 ^ 64).toNat : Nat) : Int) - 2 ^ 64 = x.val := by omega
    rw [if_neg (by omega), hbits, dif_pos hlo, dif_pos hhi]

theorem readUInt64_reads : Reads (fun _ => True) readUInt64 (fun x => leBytes 8 x.toNat) := by
  refine (readNumber_reads 8).converted (fun x _ => x.toNat_lt) ?_
  intro x _
  rw [UInt64.ofNat_toNat]

theorem readUInt32_reads : Reads (fun _ => True) readUInt32 (fun x => leBytes 4 x.toNat) := by
  refine (readNumber_reads 4).converted (fun x _ => x.toNat_lt) ?_
  intro x _
  rw [UInt32.ofNat_toNat]

theorem readBytes32_reads :
    Reads (fun _ => True) readBytes32 (fun x => beBytes 32 x.toNat) := by
  refine Reads.of_symbols (fun x _ => length_beBytes 32 x.toNat) ?_
  intro x _
  rw [ofBeBytes_beBytes (Nat.lt_of_lt_of_le x.isLt (by decide)), BitVec.ofNat_toNat,
    BitVec.setWidth_eq]

theorem readText_reads : Reads Text.Fits readText Text.counted := by
  intro s rest hs
  have hbytes : Reads (· = s) (converted (symbols (Text.bytes s).length)
      (fun b => b.toByteArray.utf8Decode?.map Array.toList)) Text.bytes := by
    refine Reads.of_symbols (fun t ht => by rw [ht]) ?_
    intro t _
    have hdecode : (Text.bytes t).toByteArray.utf8Decode? = some t.toArray :=
      List.utf8Decode?_utf8Encode
    rw [hdecode, Option.map_some]
  unfold readText Text.counted
  rw [List.append_assoc, (readNumber_reads 8).andThen _ _ hs]
  exact hbytes s rest rfl

/-! ## The records -/

theorem SnapshotMetadata.read_reads :
    Reads (fun _ => True) SnapshotMetadata.read SnapshotMetadata.toyBytes := by
  intro m rest _
  have htexts := (readNumber_reads 8).counted readText_reads m.chunk_hashes rest m.hashes_fit
  unfold SnapshotMetadata.toyBytes
  simp only [List.append_assoc] at htexts ⊢
  unfold SnapshotMetadata.read
  rw [readI64_reads.andThen _ _ trivial, readUInt64_reads.andThen _ _ trivial,
    readUInt32_reads.andThen _ _ trivial, readUInt32_reads.andThen _ _ trivial,
    readUInt64_reads.andThen _ _ trivial, readText_reads.andThen _ _ m.compression_fits,
    readUInt64_reads.andThen _ _ trivial, readBytes32_reads.andThen _ _ trivial,
    readUInt64_reads.andThen _ _ trivial, readUInt64_reads.andThen _ _ trivial,
    readUInt64_reads.andThen _ _ trivial, readUInt64_reads.andThen _ _ trivial]
  unfold converted readTexts
  rw [htexts, Option.bind_some]
  simp only [dif_pos m.compression_fits, dif_pos m.hashes_fit, Option.map_some]

theorem readByteVec_reads : Reads (fun _ => True) readByteVec
    (fun v => leBytes 8 v.bytes.length ++ v.bytes) := by
  intro v rest _
  have hsymbols := symbols_reads v.bytes.length v.bytes rest rfl
  rw [id] at hsymbols
  unfold readByteVec converted
  rw [List.append_assoc, (readNumber_reads 8).andThen _ _ v.fits, hsymbols, Option.bind_some]
  simp only [dif_pos v.fits, Option.map_some]

theorem SnapshotChunk.read_reads :
    Reads (fun _ => True) SnapshotChunk.read SnapshotChunk.toyBytes := by
  intro c rest _
  have hsize := readUInt64_reads c.size rest trivial
  unfold SnapshotChunk.toyBytes SnapshotChunk.read
  simp only [List.append_assoc]
  rw [readUInt32_reads.andThen _ _ trivial, ← List.append_assoc (leBytes 8 _) c.data.bytes,
    readByteVec_reads.andThen _ _ trivial, readText_reads.andThen _ _ c.hash_fits]
  unfold converted
  rw [hsize, Option.bind_some]
  simp only [dif_pos c.hash_fits, Option.map_some]

theorem readFront_of_reads {A : Type} {Good : A → Prop} {read : Reader UInt8 A} {enc : A → Bytes}
    (h : Reads Good read enc) {a : A} (ha : Good a) : readFront read (enc a) = .ok a := by
  have hread := h a [] ha
  rw [List.append_nil] at hread
  unfold readFront
  rw [hread]

theorem toy_readsSnapshots : Outside.toy.ReadsSnapshots where
  snapshot_metadata m := by
    have hbincode : Outside.toy.bincode = ⟨toySerialize, toyDeserialize⟩ := rfl
    unfold Bincode.ReadsBack
    rw [hbincode]
    simp only [toySerialize, toyDeserialize]
    exact readFront_of_reads SnapshotMetadata.read_reads trivial
  snapshot_chunk c := by
    have hbincode : Outside.toy.bincode = ⟨toySerialize, toyDeserialize⟩ := rfl
    unfold Bincode.ReadsBack
    rw [hbincode]
    simp only [toySerialize, toyDeserialize]
    exact readFront_of_reads SnapshotChunk.read_reads trivial

end eld_chain
