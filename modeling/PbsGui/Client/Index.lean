import PbsGui.Client.Primitives
import PbsGui.Lib.Pieces

/-!
# Index files

A dynamic index lists the chunks of an archive as pairs of a cumulative end offset and a
digest, after a header of 4096 bytes with the magic, a uuid, the creation time and a checksum
over the entries (`index.rs`).  A fixed index lists the digests alone, and its header also has
the image size and the chunk size.  Parsing a serialized index gives the index back.
-/

namespace PbsGui.Client

open Lib List

def dynamicMagic : Bytes := [28, 145, 78, 165, 25, 186, 179, 205]

def headerLen : Nat := 4096

/-- On-disk size of one dynamic index entry: end offset and digest. -/
def dynamicEntryLen : Nat := 8 + 32

/-- An index entry: the chunk's cumulative end offset and its digest. -/
abbrev IndexEntry := UInt64 × Digest

/-- The bytes of one entry, in the file and in the checksum alike. -/
def entryBytes (entry : IndexEntry) : Bytes :=
  u64ToLe entry.1 ++ entry.2.toBytes

@[simp] theorem entryBytes_length (entry : IndexEntry) :
    (entryBytes entry).length = dynamicEntryLen := by
  simp [entryBytes, dynamicEntryLen]

/-- SHA-256 over the pairs of end offset and digest. -/
def entriesCsum (prims : Primitives) (entries : List IndexEntry) : Digest :=
  prims.sha256 (entries.flatMap entryBytes)

/-- The last chunk's end offset, or zero for an empty list. -/
def entriesTotal (entries : List IndexEntry) : UInt64 :=
  match entries.getLast? with
  | some entry => entry.1
  | none => 0

/-- Builds a dynamic index from variable-size (content-defined) chunks. -/
structure DynamicIndexBuilder where
  ctime : Int64
  uuid : FixedBytes 16
  entries : List IndexEntry

namespace DynamicIndexBuilder

def new (ctime : Int64) (uuid : FixedBytes 16) : DynamicIndexBuilder :=
  { ctime := ctime, uuid := uuid, entries := [] }

/-- Append a chunk by its cumulative end offset and digest. -/
def push (builder : DynamicIndexBuilder) (endOffset : UInt64) (digest : Digest) :
    DynamicIndexBuilder :=
  { builder with entries := builder.entries ++ [(endOffset, digest)] }

def entryCount (builder : DynamicIndexBuilder) : Nat := builder.entries.length

/-- Total archive size: the last chunk's end offset. -/
def totalSize (builder : DynamicIndexBuilder) : UInt64 := entriesTotal builder.entries

def indexCsum (prims : Primitives) (builder : DynamicIndexBuilder) : Digest :=
  entriesCsum prims builder.entries

def headerFields (prims : Primitives) (builder : DynamicIndexBuilder) : Bytes :=
  dynamicMagic ++ builder.uuid.toBytes ++ u64ToLe builder.ctime.toUInt64 ++
    (builder.indexCsum prims).toBytes

/-- The whole file: header, reserved zeroes, entries. -/
def serialize (prims : Primitives) (builder : DynamicIndexBuilder) : Bytes :=
  builder.headerFields prims ++ List.replicate (headerLen - 64) 0 ++
    builder.entries.flatMap entryBytes

end DynamicIndexBuilder

/-- A parsed dynamic index (as returned by the reader's download). -/
structure DynamicIndex where
  ctime : Int64
  uuid : FixedBytes 16
  indexCsum : Digest
  entries : List IndexEntry
  deriving DecidableEq

namespace DynamicIndex

def parseEntry (bytes : Bytes) : IndexEntry :=
  (u64FromLe (slice bytes 0 8), FixedBytes.ofBytes 32 (slice bytes 8 dynamicEntryLen))

def parse (bytes : Bytes) : Except PbsError DynamicIndex :=
  if bytes.length < headerLen then
    .error (.protocol "dynamic index shorter than its header")
  else if slice bytes 0 8 ≠ dynamicMagic then
    .error (.protocol "not a dynamic index (bad magic)")
  else
    let body := bytes.drop headerLen
    if body.length % dynamicEntryLen ≠ 0 then
      .error (.protocol "dynamic index body is not a whole number of entries")
    else
      .ok
        { uuid := FixedBytes.ofBytes 16 (slice bytes 8 24)
          ctime := (u64FromLe (slice bytes 24 32)).toInt64
          indexCsum := FixedBytes.ofBytes 32 (slice bytes 32 64)
          entries := (pieces dynamicEntryLen body).map parseEntry }

def digests (index : DynamicIndex) : List Digest := index.entries.map Prod.snd

def totalSize (index : DynamicIndex) : UInt64 := entriesTotal index.entries

/-- Recompute the checksum from the entries and compare it with the header. -/
def verifyCsum (prims : Primitives) (index : DynamicIndex) : Bool :=
  entriesCsum prims index.entries = index.indexCsum

end DynamicIndex

@[simp] theorem parseEntry_entryBytes (entry : IndexEntry) :
    DynamicIndex.parseEntry (entryBytes entry) = entry := by
  obtain ⟨endOffset, digest⟩ := entry
  have hoff : slice (u64ToLe endOffset ++ digest.toBytes) 0 8 = u64ToLe endOffset := by
    have := slice_append_middle [] (u64ToLe endOffset) digest.toBytes
    simpa using this
  have hdig : slice (u64ToLe endOffset ++ digest.toBytes) 8 40 = digest.toBytes := by
    have := slice_append_middle (u64ToLe endOffset) digest.toBytes []
    simpa using this
  simp [DynamicIndex.parseEntry, entryBytes, dynamicEntryLen, hoff, hdig]

theorem headerFields_length (prims : Primitives) (builder : DynamicIndexBuilder) :
    (builder.headerFields prims).length = 64 := by
  simp [DynamicIndexBuilder.headerFields, dynamicMagic]

theorem padded_length {fields : Bytes} {count : Nat} (hfields : fields.length = count)
    (hcount : count ≤ headerLen) :
    (fields ++ List.replicate (headerLen - count) (0 : UInt8)).length = headerLen := by
  rw [length_append, hfields, length_replicate, Nat.add_sub_cancel' hcount]

/-- A file whose body has a record for each of some items, behind a padded header. -/
theorem padded_body {α : Type*} {fields : Bytes} {count width : Nat} {record : α → Bytes}
    (hfields : fields.length = count) (hcount : count ≤ headerLen)
    (hrec : ∀ item, (record item).length = width) (items : List α) {file : Bytes}
    (hfile : file = fields ++ List.replicate (headerLen - count) 0 ++ items.flatMap record) :
    ¬ file.length < headerLen ∧ file.drop headerLen = items.flatMap record ∧
      (items.flatMap record).length % width = 0 := by
  have hhead := padded_length hfields hcount
  refine ⟨?_, ?_, ?_⟩
  · rw [hfile, length_append, hhead]
    exact Nat.not_lt.mpr (Nat.le_add_right _ _)
  · rw [hfile]
    exact drop_left' hhead
  · simp [length_flatMap, hrec]

/-- The fields that both kinds of header begin with are found where they were
written, whatever follows. -/
theorem header_fields {magic : Bytes} (hmagic : magic.length = 8) (uuid : FixedBytes 16)
    (ctime : UInt64) (csum : Digest) {file rest : Bytes}
    (hfile : file = magic ++ (uuid.toBytes ++ (u64ToLe ctime ++ (csum.toBytes ++ rest)))) :
    slice file 0 8 = magic ∧ slice file 8 24 = uuid.toBytes ∧
      slice file 24 32 = u64ToLe ctime ∧ slice file 32 64 = csum.toBytes := by
  rw [hfile]
  refine ⟨?_, ?_, ?_, ?_⟩
  · have := slice_append_middle [] magic
      (uuid.toBytes ++ (u64ToLe ctime ++ (csum.toBytes ++ rest)))
    simpa [hmagic] using this
  · have := slice_append_middle magic uuid.toBytes (u64ToLe ctime ++ (csum.toBytes ++ rest))
    simpa [hmagic, append_assoc] using this
  · have := slice_append_middle (magic ++ uuid.toBytes) (u64ToLe ctime) (csum.toBytes ++ rest)
    simpa [hmagic, append_assoc] using this
  · have := slice_append_middle (magic ++ uuid.toBytes ++ u64ToLe ctime) csum.toBytes rest
    simpa [hmagic, append_assoc] using this

theorem parse_serialize (prims : Primitives) (builder : DynamicIndexBuilder) :
    DynamicIndex.parse (builder.serialize prims) = .ok
      { ctime := builder.ctime
        uuid := builder.uuid
        indexCsum := builder.indexCsum prims
        entries := builder.entries } := by
  have hwhole : builder.serialize prims = dynamicMagic ++ (builder.uuid.toBytes ++
      (u64ToLe builder.ctime.toUInt64 ++ ((builder.indexCsum prims).toBytes ++
        (replicate (headerLen - 64) 0 ++ builder.entries.flatMap entryBytes)))) := by
    simp only [DynamicIndexBuilder.serialize, DynamicIndexBuilder.headerFields, append_assoc]
  obtain ⟨hmagic, huuid, hctime, hcsum⟩ := header_fields rfl _ _ _ hwhole
  obtain ⟨hlong, hbody, hwidth⟩ := padded_body (headerFields_length prims builder) (by decide)
    entryBytes_length builder.entries (rfl : builder.serialize prims = _)
  have hents := map_pieces_flatMap (by decide) entryBytes_length parseEntry_entryBytes
    builder.entries
  rw [DynamicIndex.parse, if_neg hlong]
  simp only [hmagic, ne_eq, not_true, if_false, hbody, hwidth, hents, huuid, hctime, hcsum,
    FixedBytes.ofBytes_toBytes, u64FromLe_u64ToLe, Int64.toInt64_toUInt64]

theorem verifyCsum_of_builder (prims : Primitives) (builder : DynamicIndexBuilder) :
    DynamicIndex.verifyCsum prims
      { ctime := builder.ctime
        uuid := builder.uuid
        indexCsum := builder.indexCsum prims
        entries := builder.entries } = true := by
  simp [DynamicIndex.verifyCsum, DynamicIndexBuilder.indexCsum]

/-! ### Fixed index files -/

def fixedMagic : Bytes := [47, 127, 65, 237, 145, 253, 15, 205]

def digestLen : Nat := 32

/-- Default fixed chunk size used for images (4 MiB), as hardcoded by the server. -/
def defaultChunkSize : UInt64 := 4096 * 1024

def digestsCsum (prims : Primitives) (digests : List Digest) : Digest :=
  prims.sha256 (digests.flatMap FixedBytes.toBytes)

/-- Builds a fixed index from a sequence of chunk digests. -/
structure FixedIndexBuilder where
  size : UInt64
  chunkSize : UInt64
  ctime : Int64
  uuid : FixedBytes 16
  digests : List Digest

namespace FixedIndexBuilder

def new (size chunkSize : UInt64) (ctime : Int64) (uuid : FixedBytes 16) : FixedIndexBuilder :=
  { size := size, chunkSize := chunkSize, ctime := ctime, uuid := uuid, digests := [] }

def pushDigest (builder : FixedIndexBuilder) (digest : Digest) : FixedIndexBuilder :=
  { builder with digests := builder.digests ++ [digest] }

def chunkCount (builder : FixedIndexBuilder) : Nat := builder.digests.length

/-- Expected number of chunks for the declared size and chunk size. -/
def expectedChunkCount (builder : FixedIndexBuilder) : UInt64 :=
  if builder.size % builder.chunkSize > 0 then builder.size / builder.chunkSize + 1
  else builder.size / builder.chunkSize

def indexCsum (prims : Primitives) (builder : FixedIndexBuilder) : Digest :=
  digestsCsum prims builder.digests

def headerFields (prims : Primitives) (builder : FixedIndexBuilder) : Bytes :=
  fixedMagic ++ builder.uuid.toBytes ++ u64ToLe builder.ctime.toUInt64 ++
    (builder.indexCsum prims).toBytes ++ u64ToLe builder.size ++ u64ToLe builder.chunkSize

/-- The whole file: header, reserved zeroes, digests. -/
def serialize (prims : Primitives) (builder : FixedIndexBuilder) : Bytes :=
  builder.headerFields prims ++ List.replicate (headerLen - 80) 0 ++
    builder.digests.flatMap FixedBytes.toBytes

end FixedIndexBuilder

/-- A parsed fixed index file. -/
structure FixedIndex where
  ctime : Int64
  uuid : FixedBytes 16
  size : UInt64
  chunkSize : UInt64
  indexCsum : Digest
  digests : List Digest
  deriving DecidableEq

namespace FixedIndex

def parse (bytes : Bytes) : Except PbsError FixedIndex :=
  if bytes.length < headerLen then
    .error (.protocol "fixed index shorter than its header")
  else if slice bytes 0 8 ≠ fixedMagic then
    .error (.protocol "not a fixed index (bad magic)")
  else
    let body := bytes.drop headerLen
    if body.length % digestLen ≠ 0 then
      .error (.protocol "fixed index body is not a whole number of digests")
    else
      .ok
        { uuid := FixedBytes.ofBytes 16 (slice bytes 8 24)
          ctime := (u64FromLe (slice bytes 24 32)).toInt64
          indexCsum := FixedBytes.ofBytes 32 (slice bytes 32 64)
          size := u64FromLe (slice bytes 64 72)
          chunkSize := u64FromLe (slice bytes 72 80)
          digests := (pieces digestLen body).map (FixedBytes.ofBytes 32) }

/-- Recompute the checksum from the digests and compare it with the header. -/
def verifyCsum (prims : Primitives) (index : FixedIndex) : Bool :=
  digestsCsum prims index.digests = index.indexCsum

end FixedIndex

variable (prims : Primitives) (builder : FixedIndexBuilder)

include prims builder

theorem fixedHeaderFields_length : (builder.headerFields prims).length = 80 := by
  simp [FixedIndexBuilder.headerFields, fixedMagic]

/-- The header fields of a serialized fixed index are found where they were
written. -/
theorem fixedSerialize_fields :
    slice (builder.serialize prims) 0 8 = fixedMagic ∧
      slice (builder.serialize prims) 8 24 = builder.uuid.toBytes ∧
      slice (builder.serialize prims) 24 32 = u64ToLe builder.ctime.toUInt64 ∧
      slice (builder.serialize prims) 32 64 = (builder.indexCsum prims).toBytes ∧
      slice (builder.serialize prims) 64 72 = u64ToLe builder.size ∧
      slice (builder.serialize prims) 72 80 = u64ToLe builder.chunkSize := by
  have hmagic : fixedMagic.length = 8 := rfl
  generalize hrest : replicate (headerLen - 80) (0 : UInt8) ++
    builder.digests.flatMap FixedBytes.toBytes = rest
  have hwhole : builder.serialize prims = fixedMagic ++ (builder.uuid.toBytes ++
      (u64ToLe builder.ctime.toUInt64 ++ ((builder.indexCsum prims).toBytes ++
        (u64ToLe builder.size ++ (u64ToLe builder.chunkSize ++ rest))))) := by
    simp only [FixedIndexBuilder.serialize, FixedIndexBuilder.headerFields, ← hrest, append_assoc]
  obtain ⟨hfirst, huuid, hctime, hcsum⟩ := header_fields hmagic _ _ _ hwhole
  refine ⟨hfirst, huuid, hctime, hcsum, ?_, ?_⟩
  · have := slice_append_middle (fixedMagic ++ builder.uuid.toBytes ++
      u64ToLe builder.ctime.toUInt64 ++ (builder.indexCsum prims).toBytes) (u64ToLe builder.size)
      (u64ToLe builder.chunkSize ++ rest)
    simpa [hwhole, hmagic, append_assoc] using this
  · have := slice_append_middle (fixedMagic ++ builder.uuid.toBytes ++
      u64ToLe builder.ctime.toUInt64 ++ (builder.indexCsum prims).toBytes ++ u64ToLe builder.size)
      (u64ToLe builder.chunkSize) rest
    simpa [hwhole, hmagic, append_assoc] using this

theorem fixedParse_serialize :
    FixedIndex.parse (builder.serialize prims) = .ok
      { ctime := builder.ctime
        uuid := builder.uuid
        size := builder.size
        chunkSize := builder.chunkSize
        indexCsum := builder.indexCsum prims
        digests := builder.digests } := by
  obtain ⟨hmagic, huuid, hctime, hcsum, hsize, hchunkSize⟩ := fixedSerialize_fields prims builder
  have hdig : ∀ digest : Digest, digest.toBytes.length = digestLen :=
    fun digest => digest.length_toBytes
  obtain ⟨hlong, hbody, hwidth⟩ := padded_body (fixedHeaderFields_length prims builder)
    (by decide) hdig builder.digests (rfl : builder.serialize prims = _)
  have hdigs := map_pieces_flatMap (by decide) hdig FixedBytes.ofBytes_toBytes
    builder.digests
  rw [FixedIndex.parse, if_neg hlong]
  simp only [hmagic, ne_eq, not_true, if_false, hbody, hwidth, hdigs, huuid, hctime, hcsum,
    hsize, hchunkSize, FixedBytes.ofBytes_toBytes, u64FromLe_u64ToLe, Int64.toInt64_toUInt64]

theorem fixedVerifyCsum_of_builder :
    FixedIndex.verifyCsum prims
      { ctime := builder.ctime
        uuid := builder.uuid
        size := builder.size
        chunkSize := builder.chunkSize
        indexCsum := builder.indexCsum prims
        digests := builder.digests } = true := by
  simp [FixedIndex.verifyCsum, FixedIndexBuilder.indexCsum]

end PbsGui.Client
