import PbsGui.Client.Index

/-!
# Index files byte by byte

`serialize` allocates the whole file as zeroes and copies every field to its offset
(`index.rs`).  These writes give the file of `Client.Index`.  Conversely a file that parses,
has zeroes in its reserved part and passes its checksum is the one that is written for its
fields and entries.
-/

namespace PbsGui.Client

open Lib List

namespace FixedIndexBuilder

/-- The loop over the digests, the next of which is the one at `position`. -/
def writeDigests : Bytes → Nat → List Digest → Bytes
  | out, _, [] => out
  | out, position, digest :: rest =>
    writeDigests (writeAt out (headerLen + position * digestLen) digest.toBytes)
      (position + 1) rest

/-- `serialize` of a fixed index, write by write. -/
def serializeInPlace (prims : Primitives) (builder : FixedIndexBuilder) : Bytes :=
  let out := List.replicate (headerLen + builder.digests.length * digestLen) 0
  let out := writeAt out 0 fixedMagic
  let out := writeAt out 8 builder.uuid.toBytes
  let out := writeAt out 24 (u64ToLe builder.ctime.toUInt64)
  let out := writeAt out 32 (builder.indexCsum prims).toBytes
  let out := writeAt out 64 (u64ToLe builder.size)
  let out := writeAt out 72 (u64ToLe builder.chunkSize)
  -- bytes 80 to 4096 stay zero (reserved)
  writeDigests out 0 builder.digests

end FixedIndexBuilder

namespace DynamicIndexBuilder

/-- The loop over the entries, the next of which goes to offset `pos`. -/
def writeEntries : Bytes → Nat → List IndexEntry → Bytes
  | out, _, [] => out
  | out, pos, (endOffset, digest) :: rest =>
    let out := writeAt out pos (u64ToLe endOffset)
    let out := writeAt out (pos + 8) digest.toBytes
    writeEntries out (pos + dynamicEntryLen) rest

/-- `serialize` of a dynamic index, write by write. -/
def serializeInPlace (prims : Primitives) (builder : DynamicIndexBuilder) : Bytes :=
  let out := List.replicate (headerLen + builder.entries.length * dynamicEntryLen) 0
  let out := writeAt out 0 dynamicMagic
  let out := writeAt out 8 builder.uuid.toBytes
  let out := writeAt out 24 (u64ToLe builder.ctime.toUInt64)
  let out := writeAt out 32 (builder.indexCsum prims).toBytes
  writeEntries out headerLen builder.entries

end DynamicIndexBuilder

theorem write_header {magic : Bytes} (hmagic : magic.length = 8) (uuid : FixedBytes 16)
    (ctime : UInt64) (csum : Digest) (room : Nat) :
    writeAt (writeAt (writeAt (writeAt (List.replicate (64 + room) 0) 0 magic) 8 uuid.toBytes)
      24 (u64ToLe ctime)) 32 csum.toBytes =
        magic ++ uuid.toBytes ++ u64ToLe ctime ++ csum.toBytes ++ List.replicate room 0 := by
  have hfirst := writeAt_fill [] magic (64 + room)
  have hsnd := writeAt_fill magic uuid.toBytes (64 + room - 8)
  have hthird := writeAt_fill (magic ++ uuid.toBytes) (u64ToLe ctime) (64 + room - 8 - 16)
  have hfourth := writeAt_fill (magic ++ uuid.toBytes ++ u64ToLe ctime) csum.toBytes
    (64 + room - 8 - 16 - 8)
  simp only [nil_append, length_nil, length_append, hmagic,
    FixedBytes.length_toBytes, u64ToLe_length] at hfirst hsnd hthird hfourth
  rw [hfirst, hsnd, hthird, hfourth]
  congr 2
  omega

theorem writeDigests_fill (filled : Bytes) {position : Nat}
    (hfilled : filled.length = headerLen + position * digestLen) (digests : List Digest) :
    FixedIndexBuilder.writeDigests
        (filled ++ List.replicate (digests.length * digestLen) 0) position digests =
      filled ++ digests.flatMap FixedBytes.toBytes := by
  induction digests generalizing filled position with
  | nil => simp [FixedIndexBuilder.writeDigests]
  | cons digest rest ih =>
    have hroom : (digest :: rest).length * digestLen - digest.toBytes.length =
        rest.length * digestLen := by
      rw [FixedBytes.length_toBytes, length_cons, Nat.succ_mul]
      exact Nat.add_sub_cancel _ _
    have hnext : (filled ++ digest.toBytes).length = headerLen + (position + 1) * digestLen := by
      rw [length_append, hfilled, FixedBytes.length_toBytes, Nat.succ_mul, Nat.add_assoc]
      rfl
    rw [FixedIndexBuilder.writeDigests, ← hfilled, writeAt_fill, hroom, ih _ hnext,
      flatMap_cons, append_assoc]

theorem fixedSerializeInPlace_eq (prims : Primitives) (builder : FixedIndexBuilder) :
    builder.serializeInPlace prims = builder.serialize prims := by
  have hsplit : headerLen + builder.digests.length * digestLen =
      64 + (16 + (headerLen - 80 + builder.digests.length * digestLen)) := by
    simp only [headerLen]
    omega
  have hmagic : fixedMagic.length = 8 := rfl
  have hsize := writeAt_fill (fixedMagic ++ builder.uuid.toBytes ++
    u64ToLe builder.ctime.toUInt64 ++ (builder.indexCsum prims).toBytes) (u64ToLe builder.size)
    (16 + (headerLen - 80 + builder.digests.length * digestLen))
  have hchunkSize := writeAt_fill (fixedMagic ++ builder.uuid.toBytes ++
    u64ToLe builder.ctime.toUInt64 ++ (builder.indexCsum prims).toBytes ++ u64ToLe builder.size)
    (u64ToLe builder.chunkSize) (8 + (headerLen - 80 + builder.digests.length * digestLen))
  simp only [length_append, hmagic, FixedBytes.length_toBytes, u64ToLe_length,
    show ∀ n, 16 + n - 8 = 8 + n by omega, Nat.add_sub_cancel_left] at hsize hchunkSize
  have hdigs := @writeDigests_fill _ 0
    (padded_length (fixedHeaderFields_length prims builder) (by decide)) builder.digests
  rw [FixedIndexBuilder.serializeInPlace, hsplit, write_header hmagic, hsize, hchunkSize]
  rw [FixedIndexBuilder.serialize, ← hdigs, append_assoc _ (replicate _ _),
    replicate_append_replicate]
  rfl

theorem writeEntries_fill (filled : Bytes) (entries : List IndexEntry) :
    DynamicIndexBuilder.writeEntries
        (filled ++ List.replicate (entries.length * dynamicEntryLen) 0) filled.length entries =
      filled ++ entries.flatMap entryBytes := by
  induction entries generalizing filled with
  | nil => simp [DynamicIndexBuilder.writeEntries]
  | cons entry rest ih =>
    obtain ⟨endOffset, digest⟩ := entry
    have hdig := writeAt_fill (filled ++ u64ToLe endOffset) digest.toBytes
      (((endOffset, digest) :: rest).length * dynamicEntryLen - 8)
    have hroom : ((endOffset, digest) :: rest).length * dynamicEntryLen - 8 - 32 =
        rest.length * dynamicEntryLen := by
      rw [length_cons, Nat.succ_mul, dynamicEntryLen]
      omega
    have hents := ih (filled ++ u64ToLe endOffset ++ digest.toBytes)
    simp only [length_append, u64ToLe_length, FixedBytes.length_toBytes, hroom]
      at hdig hents
    have hnext : filled.length + dynamicEntryLen = filled.length + 8 + 32 :=
      (Nat.add_assoc _ _ _).symm
    simp only [DynamicIndexBuilder.writeEntries, writeAt_fill, u64ToLe_length, hdig, hnext, hents]
    simp only [flatMap_cons, entryBytes, append_assoc]

theorem dynamicSerializeInPlace_eq (prims : Primitives) (builder : DynamicIndexBuilder) :
    builder.serializeInPlace prims = builder.serialize prims := by
  have hsplit : headerLen + builder.entries.length * dynamicEntryLen =
      64 + (headerLen - 64 + builder.entries.length * dynamicEntryLen) := by
    simp only [headerLen]
    omega
  have hents := writeEntries_fill (builder.headerFields prims ++
    replicate (headerLen - 64) (0 : UInt8)) builder.entries
  rw [padded_length (headerFields_length prims builder) (by decide)] at hents
  rw [DynamicIndexBuilder.serializeInPlace, hsplit, @write_header dynamicMagic rfl]
  rw [DynamicIndexBuilder.serialize, ← hents, append_assoc _ (replicate _ _),
    replicate_append_replicate]
  rfl

/-- The builder with the fields and the digests of a parsed index. -/
def FixedIndex.toBuilder (index : FixedIndex) : FixedIndexBuilder :=
  { size := index.size, chunkSize := index.chunkSize, ctime := index.ctime, uuid := index.uuid,
    digests := index.digests }

/-- The builder with the fields and the entries of a parsed index. -/
def DynamicIndex.toBuilder (index : DynamicIndex) : DynamicIndexBuilder :=
  { ctime := index.ctime, uuid := index.uuid, entries := index.entries }

/-- The fields that both headers begin with, put together again from what was read
of them. -/
theorem header_join {bytes magic : Bytes} (hlong : headerLen ≤ bytes.length)
    (hmagic : slice bytes 0 8 = magic) :
    magic ++ (FixedBytes.ofBytes 16 (slice bytes 8 24)).toBytes ++
        u64ToLe (u64FromLe (slice bytes 24 32)).toInt64.toUInt64 ++
        (FixedBytes.ofBytes 32 (slice bytes 32 64)).toBytes = slice bytes 0 64 := by
  simp only [headerLen] at hlong
  have huuid : (slice bytes 8 24).length = 16 := slice_length (by omega)
  have hctime : (slice bytes 24 32).length = 8 := slice_length (by omega)
  have hcsum : (slice bytes 32 64).length = 32 := slice_length (by omega)
  rw [FixedBytes.toBytes_ofBytes huuid, UInt64.toUInt64_toInt64, u64ToLe_u64FromLe hctime,
    FixedBytes.toBytes_ofBytes hcsum, ← hmagic, slice_append_slice bytes (by omega) (by omega),
    slice_append_slice bytes (by omega) (by omega), slice_append_slice bytes (by omega) (by omega)]

variable {bytes : Bytes}

theorem ite_error_eq_ok {α : Type*} {c : Prop} [Decidable c] {error : PbsError}
    {result : Except PbsError α} {value : α} :
    (if c then .error error else result) = .ok value ↔ ¬ c ∧ result = .ok value := by
  split <;> simp [*]

variable {index : DynamicIndex}

/-- A fixed index file with zeroes in its reserved part and a checksum that agrees is
the serialization of the builder with its fields. -/
theorem serialize_of_fixedParse {prims : Primitives} {index : FixedIndex}
    (hparse : FixedIndex.parse bytes = .ok index)
    (hres : slice bytes 80 headerLen = List.replicate (headerLen - 80) 0)
    (hcsum : index.verifyCsum prims = true) : bytes = index.toBuilder.serialize prims := by
  simp only [FixedIndex.parse, ite_error_eq_ok, Nat.not_lt, not_not, Except.ok.injEq] at hparse
  obtain ⟨hlong, hmagic, hwhole, rfl⟩ := hparse
  have hread : ∀ piece : Bytes, piece.length = digestLen →
      (FixedBytes.ofBytes 32 piece).toBytes = piece := fun _ => FixedBytes.toBytes_ofBytes
  have hdigs := flatMap_map_pieces (by decide) hread hwhole
  have hindexCsum : digestsCsum prims _ = FixedBytes.ofBytes 32 (slice bytes 32 64) :=
    of_decide_eq_true hcsum
  have hlen : 80 ≤ bytes.length := Nat.le_trans (by decide) hlong
  simp only [FixedIndexBuilder.serialize, FixedIndexBuilder.headerFields,
    FixedIndexBuilder.indexCsum, FixedIndex.toBuilder, hindexCsum, hdigs]
  rw [header_join hlong hmagic, u64ToLe_u64FromLe (slice_length (by omega)),
    u64ToLe_u64FromLe (slice_length (by omega)), slice_append_slice bytes (by omega) (by omega),
    slice_append_slice bytes (by omega) (by omega), ← hres,
    slice_append_slice bytes (by decide) (by decide), slice_append_drop]

theorem entryBytes_parseEntry {piece : Bytes} (h : piece.length = dynamicEntryLen) :
    entryBytes (DynamicIndex.parseEntry piece) = piece := by
  have hoff : (slice piece 0 8).length = 8 := slice_length (by rw [h]; decide)
  have hdig : (slice piece 8 dynamicEntryLen).length = 32 := slice_length (Nat.le_of_eq h.symm)
  simp only [entryBytes, DynamicIndex.parseEntry]
  rw [u64ToLe_u64FromLe hoff, FixedBytes.toBytes_ofBytes hdig,
    slice_append_slice piece (by decide) (by decide), slice, drop_zero, ← h, take_length]

/-- A dynamic index file with zeroes in its reserved part and a checksum that agrees is
the serialization of the builder with its fields. -/
theorem serialize_of_dynamicParse {prims : Primitives}
    (hparse : DynamicIndex.parse bytes = .ok index)
    (hres : slice bytes 64 headerLen = List.replicate (headerLen - 64) 0)
    (hcsum : index.verifyCsum prims = true) : bytes = index.toBuilder.serialize prims := by
  simp only [DynamicIndex.parse, ite_error_eq_ok, Nat.not_lt, not_not, Except.ok.injEq] at hparse
  obtain ⟨hlong, hmagic, hwhole, rfl⟩ := hparse
  have hents := flatMap_map_pieces (by decide) (fun _ => entryBytes_parseEntry) hwhole
  have hindexCsum : entriesCsum prims _ = FixedBytes.ofBytes 32 (slice bytes 32 64) :=
    of_decide_eq_true hcsum
  simp only [DynamicIndexBuilder.serialize, DynamicIndexBuilder.headerFields,
    DynamicIndexBuilder.indexCsum, DynamicIndex.toBuilder, hindexCsum, hents]
  rw [header_join hlong hmagic, ← hres, slice_append_slice bytes (by decide) (by decide),
    slice_append_drop]

theorem fixedSerialize_reserved (prims : Primitives) (builder : FixedIndexBuilder) :
    slice (builder.serialize prims) 80 headerLen = List.replicate (headerLen - 80) 0 := by
  have hmid := slice_append_middle (builder.headerFields prims)
    (replicate (headerLen - 80) 0) (builder.digests.flatMap FixedBytes.toBytes)
  rw [fixedHeaderFields_length, length_replicate] at hmid
  exact hmid

theorem dynamicSerialize_reserved (prims : Primitives) (builder : DynamicIndexBuilder) :
    slice (builder.serialize prims) 64 headerLen = List.replicate (headerLen - 64) 0 := by
  have hmid := slice_append_middle (builder.headerFields prims)
    (replicate (headerLen - 64) 0) (builder.entries.flatMap entryBytes)
  rw [headerFields_length, length_replicate] at hmid
  exact hmid

/-- Both formats invert: every index that is serialized parses to its own fields and
passes its checksum, and the files that parse with zeroes in the reserved part and a
checksum that agrees are the serialized ones. -/
theorem index_files_invert (prims : Primitives) :
    (∀ builder : FixedIndexBuilder, ∃ index,
        FixedIndex.parse (builder.serializeInPlace prims) = .ok index ∧
          index.toBuilder = builder ∧ index.indexCsum = builder.indexCsum prims ∧
          index.verifyCsum prims = true) ∧
      (∀ (bytes : Bytes) (index : FixedIndex),
        (FixedIndex.parse bytes = .ok index ∧
            slice bytes 80 headerLen = List.replicate (headerLen - 80) 0 ∧
            index.verifyCsum prims = true) ↔
          bytes = index.toBuilder.serializeInPlace prims ∧
            index.indexCsum = index.toBuilder.indexCsum prims) ∧
      (∀ builder : DynamicIndexBuilder, ∃ index,
        DynamicIndex.parse (builder.serializeInPlace prims) = .ok index ∧
          index.toBuilder = builder ∧ index.indexCsum = builder.indexCsum prims ∧
          index.verifyCsum prims = true) ∧
      (∀ (bytes : Bytes) (index : DynamicIndex),
        (DynamicIndex.parse bytes = .ok index ∧
            slice bytes 64 headerLen = List.replicate (headerLen - 64) 0 ∧
            index.verifyCsum prims = true) ↔
          bytes = index.toBuilder.serializeInPlace prims ∧
            index.indexCsum = index.toBuilder.indexCsum prims) := by
  simp only [fixedSerializeInPlace_eq, dynamicSerializeInPlace_eq]
  refine ⟨fun builder => ?_, fun bytes index => ⟨?_, ?_⟩, fun builder => ?_,
    fun bytes index => ⟨?_, ?_⟩⟩
  · exact ⟨_, fixedParse_serialize prims builder, rfl, rfl,
      fixedVerifyCsum_of_builder prims builder⟩
  · rintro ⟨hparse, hreserved, hcsum⟩
    exact ⟨serialize_of_fixedParse hparse hreserved hcsum, (of_decide_eq_true hcsum).symm⟩
  · rintro ⟨rfl, hcsum⟩
    refine ⟨?_, fixedSerialize_reserved prims _, decide_eq_true hcsum.symm⟩
    rw [fixedParse_serialize, ← hcsum]
    rfl
  · exact ⟨_, parse_serialize prims builder, rfl, rfl, verifyCsum_of_builder prims builder⟩
  · rintro ⟨hparse, hreserved, hcsum⟩
    exact ⟨serialize_of_dynamicParse hparse hreserved hcsum, (of_decide_eq_true hcsum).symm⟩
  · rintro ⟨rfl, hcsum⟩
    refine ⟨?_, dynamicSerialize_reserved prims _, decide_eq_true hcsum.symm⟩
    rw [parse_serialize, ← hcsum]
    rfl

end PbsGui.Client
