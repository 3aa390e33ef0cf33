import PbsGui.Client.RestoreIntegrity

/-!
# Backing up a fixed image, and restoring it

`backup_fixed_image` (`session.rs`) cuts an image in memory into chunks of 4 MiB, uploads them
one after the other, and appends their digests and start offsets to the server's index in
batches.  Every request is answered before the next one is sent, so a run is a function of the
answers.  The requests of a backup that returns Ok describe the image, and
`restore_fixed_image` returns it.
-/

namespace PbsGui.Client

open Lib List

/-- A fixed-index image entry for an unencrypted backup. -/
def FileEntry.fixedImage (filename : String) (size : UInt64) (indexCsum : Digest) : FileEntry :=
  { filename := filename
    cryptMode := "none"
    size := size
    csum := hexEncode indexCsum.toBytes }

/-- The requests of a fixed-image backup once its index writer exists. -/
inductive FixedRequest
  | uploadChunk (wid : UInt64) (digest : Digest) (plaintextLen : UInt64) (encoded : Bytes)
  | appendFixedIndex (wid : UInt64) (digests : List Digest) (offsets : List UInt64)
  | closeFixedIndex (wid chunkCount size : UInt64) (csum : Digest)
  | uploadBlob (fileName : String) (blob : Bytes)
  | finish
  deriving DecidableEq

/-- A writer session, seen through the server's answers.  The answer to a request
may depend on all that were sent before. -/
structure FixedWriter where
  connect : Except PbsError Unit
  createFixedIndex : String → UInt64 → Except PbsError UInt64
  answer : List FixedRequest → FixedRequest → Except PbsError Unit

/-- Send a request after the ones sent so far, and wait for the answer. -/
def FixedWriter.send (writer : FixedWriter) (sent : List FixedRequest) (request : FixedRequest) :
    Except PbsError (List FixedRequest) := do
  writer.answer sent request
  .ok (sent ++ [request])

/-- The locals of the loop over the chunks, and the requests sent so far. -/
structure FixedLocals where
  builder : FixedIndexBuilder
  batchDigests : List Digest
  batchOffsets : List UInt64
  offset : UInt64
  sent : List FixedRequest

def FixedLocals.initial (builder : FixedIndexBuilder) : FixedLocals :=
  { builder := builder, batchDigests := [], batchOffsets := [], offset := 0, sent := [] }

/-- Go through one chunk: upload it, note its digest and offset, and append the
batch when it is full. -/
def FixedWriter.backupChunk (prims : Primitives) (writer : FixedWriter) (wid : UInt64)
    (locals : FixedLocals) (chunk : Bytes) : Except PbsError FixedLocals := do
  let digest := prims.sha256 chunk
  let encoded := encodeAuto prims chunk
  let sent ← writer.send locals.sent
    (.uploadChunk wid digest (UInt64.ofNat chunk.length) encoded)
  let batchDigests := locals.batchDigests ++ [digest]
  let batchOffsets := locals.batchOffsets ++ [locals.offset]
  let noted : FixedLocals :=
    { builder := locals.builder.pushDigest digest
      batchDigests := batchDigests
      batchOffsets := batchOffsets
      offset := locals.offset + UInt64.ofNat chunk.length
      sent := sent }
  if appendBatch ≤ batchDigests.length then
    let sent ← writer.send sent (.appendFixedIndex wid batchDigests batchOffsets)
    .ok { noted with batchDigests := [], batchOffsets := [], sent := sent }
  else
    .ok noted

def FixedWriter.appendRest (writer : FixedWriter) (wid : UInt64) (locals : FixedLocals) :
    Except PbsError (List FixedRequest) :=
  if locals.batchDigests.isEmpty then
    .ok locals.sent
  else
    writer.send locals.sent (.appendFixedIndex wid locals.batchDigests locals.batchOffsets)

/-- What `backup_fixed_image` reaches outside of itself: the primitives, the
session parameters, the random uuid and the JSON encoder of the manifest. -/
structure FixedImageConfig where
  prims : Primitives
  params : SessionParams
  uuid : FixedBytes 16
  manifestJson : BackupManifest → Except String Bytes

/-- The chunks of an image; the last may be short, and an empty image has none. -/
def imageChunks (image : Bytes) : List Bytes :=
  pieces defaultChunkSize.toNat image

/-- Back up an in-memory image as a single fixed-index archive, then finish the
snapshot.  Beside the checksum the model returns the requests that were sent. -/
def FixedWriter.backupFixedImage (cfg : FixedImageConfig) (writer : FixedWriter)
    (archiveName : String) (image : Bytes) : Except PbsError (Digest × List FixedRequest) := do
  let size := UInt64.ofNat image.length
  writer.connect
  let wid ← writer.createFixedIndex archiveName size
  let builder := FixedIndexBuilder.new size defaultChunkSize cfg.params.backupTime cfg.uuid
  let locals ← (imageChunks image).foldlM (writer.backupChunk cfg.prims wid)
    (FixedLocals.initial builder)
  let sent ← writer.appendRest wid locals
  let csum := locals.builder.indexCsum cfg.prims
  let sent ← writer.send sent
    (.closeFixedIndex wid (UInt64.ofNat locals.builder.chunkCount) size csum)
  let backupManifest : BackupManifest :=
    { backupType := cfg.params.backupType
      backupId := cfg.params.backupId
      backupTime := cfg.params.backupTime
      files := [FileEntry.fixedImage archiveName size csum] }
  let manifestJson ← (cfg.manifestJson backupManifest).mapError
    fun text => .protocol ("encoding manifest: " ++ text)
  let sent ← writer.send sent
    (.uploadBlob manifestBlobName (encodeUncompressed cfg.prims manifestJson))
  let sent ← writer.send sent .finish
  .ok (csum, sent)

/-! ### What the requests say -/

namespace FixedRequest

def appendedDigests : FixedRequest → List Digest
  | .appendFixedIndex _ digests _ => digests
  | _ => []

def appendedOffsets : FixedRequest → List UInt64
  | .appendFixedIndex _ _ offsets => offsets
  | _ => []

/-- The chunk count, size and checksum of a close request. -/
def closing : FixedRequest → List (UInt64 × UInt64 × Digest)
  | .closeFixedIndex _ chunkCount size csum => [(chunkCount, size, csum)]
  | _ => []

end FixedRequest

/-- The locals once the loop has gone through these chunks. -/
structure FixedLocals.Describes (prims : Primitives) (wid : UInt64) (start : FixedIndexBuilder)
    (chunks : List Bytes) (locals : FixedLocals) : Prop where
  builder : locals.builder = { start with digests := chunks.map prims.sha256 }
  digests : locals.sent.flatMap FixedRequest.appendedDigests ++ locals.batchDigests =
    chunks.map prims.sha256
  offsets : locals.sent.flatMap FixedRequest.appendedOffsets ++ locals.batchOffsets =
    startOffsets chunks
  offset : locals.offset = UInt64.ofNat (totalLength chunks)
  paired : locals.batchOffsets.length = locals.batchDigests.length
  unclosed : locals.sent.flatMap FixedRequest.closing = []
  uploaded : ∀ data ∈ chunks,
    FixedRequest.uploadChunk wid (prims.sha256 data) (UInt64.ofNat data.length)
      (encodeAuto prims data) ∈ locals.sent
  uploads : ∀ wid' digest len blob, FixedRequest.uploadChunk wid' digest len blob ∈ locals.sent →
    ∃ data ∈ chunks, digest = prims.sha256 data ∧ blob = encodeAuto prims data

section Loop

variable {prims : Primitives} {writer : FixedWriter} {wid : UInt64} {start : FixedIndexBuilder}
  {chunks : List Bytes} {locals after : FixedLocals} {sent more : List FixedRequest}
  {request : FixedRequest}

theorem send_ok (h : writer.send sent request = .ok more) : more = sent ++ [request] := by
  obtain ⟨-, -, hmore⟩ := except_bind_eq_ok.mp h
  exact (Except.ok.inj hmore).symm

theorem FixedLocals.Describes.initial (hstart : start.digests = []) :
    (FixedLocals.initial start).Describes prims wid start [] where
  builder := by
    cases start
    cases hstart
    rfl
  digests := rfl
  offsets := rfl
  offset := rfl
  paired := rfl
  unclosed := rfl
  uploaded _ h := absurd h not_mem_nil
  uploads _ _ _ _ h := absurd h not_mem_nil

theorem FixedLocals.Describes.append (h : locals.Describes prims wid start chunks) :
    ({ locals with
        batchDigests := []
        batchOffsets := []
        sent := locals.sent ++ [.appendFixedIndex wid locals.batchDigests locals.batchOffsets] } :
      FixedLocals).Describes prims wid start chunks where
  builder := h.builder
  digests := by
    simp only [flatMap_append, flatMap_singleton, FixedRequest.appendedDigests, append_nil]
    exact h.digests
  offsets := by
    simp only [flatMap_append, flatMap_singleton, FixedRequest.appendedOffsets, append_nil]
    exact h.offsets
  offset := h.offset
  paired := rfl
  unclosed := by
    simp only [flatMap_append, flatMap_singleton, FixedRequest.closing, append_nil]
    exact h.unclosed
  uploaded data hdata := mem_append_left _ (h.uploaded data hdata)
  uploads wid' digest len blob hsent := by
    rcases mem_append.mp hsent with hpre | hlast
    · exact h.uploads wid' digest len blob hpre
    · cases mem_singleton.mp hlast

theorem FixedLocals.Describes.note (h : locals.Describes prims wid start chunks) (chunk : Bytes) :
    ({ builder := locals.builder.pushDigest (prims.sha256 chunk)
       batchDigests := locals.batchDigests ++ [prims.sha256 chunk]
       batchOffsets := locals.batchOffsets ++ [locals.offset]
       offset := locals.offset + UInt64.ofNat chunk.length
       sent := locals.sent ++ [.uploadChunk wid (prims.sha256 chunk) (UInt64.ofNat chunk.length)
         (encodeAuto prims chunk)] } :
      FixedLocals).Describes prims wid start (chunks ++ [chunk]) where
  builder := by
    rw [h.builder, map_append]
    rfl
  digests := by
    simp only [flatMap_append, flatMap_singleton, FixedRequest.appendedDigests,
      append_nil, map_append, map_singleton]
    rw [← append_assoc, h.digests]
  offsets := by
    simp only [flatMap_append, flatMap_singleton, FixedRequest.appendedOffsets, append_nil]
    rw [← append_assoc, h.offsets, startOffsets_snoc, h.offset]
  offset := by
    rw [h.offset, ← UInt64.ofNat_add, totalLength_append, totalLength_singleton]
  paired := by
    rw [length_append, length_append, h.paired]
    rfl
  unclosed := by
    simp only [flatMap_append, flatMap_singleton, FixedRequest.closing, append_nil]
    exact h.unclosed
  uploaded data hdata := by
    rcases mem_append.mp hdata with hpre | hlast
    · exact mem_append_left _ (h.uploaded data hpre)
    · rw [mem_singleton.mp hlast]
      exact mem_append_right _ (mem_singleton_self _)
  uploads wid' digest len blob hsent := by
    rcases mem_append.mp hsent with hpre | hlast
    · obtain ⟨data, hdata, hdig, hblob⟩ := h.uploads wid' digest len blob hpre
      exact ⟨data, mem_append_left _ hdata, hdig, hblob⟩
    · obtain ⟨-, hdig, -, hblob⟩ := FixedRequest.uploadChunk.inj (mem_singleton.mp hlast)
      exact ⟨chunk, mem_append_right _ (mem_singleton_self _), hdig, hblob⟩

theorem FixedLocals.Describes.step (h : locals.Describes prims wid start chunks) {chunk : Bytes}
    (hstep : writer.backupChunk prims wid locals chunk = .ok after) :
    after.Describes prims wid start (chunks ++ [chunk]) := by
  obtain ⟨sent, hup, hrest⟩ := except_bind_eq_ok.mp hstep
  obtain rfl := send_ok hup
  have hnoted := h.note chunk
  dsimp only at hrest
  split at hrest
  · obtain ⟨more, happ, hafter⟩ := except_bind_eq_ok.mp hrest
    obtain rfl := send_ok happ
    cases hafter
    exact hnoted.append
  · cases hrest
    exact hnoted

theorem FixedLocals.Describes.run (hstart : start.digests = [])
    (hrun : chunks.foldlM (writer.backupChunk prims wid) (FixedLocals.initial start) = .ok after) :
    after.Describes prims wid start chunks :=
  EventRuns.invariant_of_foldlM (fun _ _ _ _ hpre hstep => hpre.step hstep)
    (FixedLocals.Describes.initial hstart) hrun

theorem FixedLocals.Describes.appendRest (h : locals.Describes prims wid start chunks)
    (hrest : writer.appendRest wid locals = .ok sent) :
    ({ locals with batchDigests := [], batchOffsets := [], sent := sent } :
      FixedLocals).Describes prims wid start chunks := by
  unfold FixedWriter.appendRest at hrest
  split at hrest
  · next hempty =>
      cases hrest
      have hdigs : locals.batchDigests = [] := isEmpty_iff.mp hempty
      have hoffs : locals.batchOffsets = [] := by
        refine eq_nil_of_length_eq_zero ?_
        rw [h.paired, hdigs, length_nil]
      cases locals
      subst hdigs hoffs
      exact h
  · obtain rfl := send_ok hrest
    exact h.append

end Loop

theorem defaultChunkSize_pos : 0 < defaultChunkSize.toNat := by decide

@[simp] theorem imageChunks_flatten (image : Bytes) : (imageChunks image).flatten = image :=
  pieces_flatten defaultChunkSize_pos image

theorem startOffsets_imageChunks (image : Bytes) :
    startOffsets (imageChunks image) = (List.range (imageChunks image).length).map
      fun i => UInt64.ofNat (i * defaultChunkSize.toNat) := by
  refine map_congr_left fun i hi => ?_
  have hlen := pieces_length defaultChunkSize_pos image
  have hinside := mem_range.mp hi
  rw [totalLength, ← length_flatten, imageChunks,
    pieces_take_flatten defaultChunkSize_pos, length_take, Nat.min_eq_left]
  rw [imageChunks, hlen, Nat.lt_iff_add_one_le, Nat.le_div_iff_mul_le defaultChunkSize_pos,
    Nat.succ_mul] at hinside
  omega

theorem chunkCount_eq_expected {builder : FixedIndexBuilder} {image : Bytes} {prims : Primitives}
    (himage : image.length < 2 ^ 64) (hsize : builder.size = UInt64.ofNat image.length)
    (hchunkSize : builder.chunkSize = defaultChunkSize)
    (hdigs : builder.digests = (imageChunks image).map prims.sha256) :
    UInt64.ofNat builder.chunkCount = builder.expectedChunkCount := by
  have hcount : builder.chunkCount =
      (image.length + (defaultChunkSize.toNat - 1)) / defaultChunkSize.toNat := by
    rw [FixedIndexBuilder.chunkCount, hdigs, length_map, imageChunks,
      pieces_length defaultChunkSize_pos]
  have hfour : defaultChunkSize.toNat = 4194304 := by decide
  rw [hfour] at hcount
  rw [FixedIndexBuilder.expectedChunkCount, hsize, hchunkSize]
  apply UInt64.toNat_inj.mp
  have hquotient : (UInt64.ofNat image.length / defaultChunkSize).toNat =
      image.length / 4194304 := by
    rw [UInt64.toNat_div, UInt64.toNat_ofNat_of_lt' himage, hfour]
  have hremainder : (UInt64.ofNat image.length % defaultChunkSize).toNat =
      image.length % 4194304 := by
    rw [UInt64.toNat_mod, UInt64.toNat_ofNat_of_lt' himage, hfour]
  have hbranch : UInt64.ofNat image.length % defaultChunkSize > 0 ↔
      0 < image.length % 4194304 := by
    rw [gt_iff_lt, UInt64.lt_iff_toNat_lt, hremainder]
    rfl
  have hsmall : builder.chunkCount < UInt64.size := by
    change builder.chunkCount < 2 ^ 64
    omega
  rw [UInt64.toNat_ofNat_of_lt' hsmall, hcount]
  split
  · next hmore =>
      rw [UInt64.toNat_add, hquotient]
      have := hbranch.mp hmore
      change _ = (image.length / 4194304 + 1) % 2 ^ 64
      omega
  · next hexact =>
      rw [hquotient]
      have := mt hbranch.mpr hexact
      omega

variable {sent : List FixedRequest}

theorem backupFixedImage_ok {cfg : FixedImageConfig} {writer : FixedWriter} {archiveName : String}
    {image : Bytes} {csum : Digest}
    (hok : writer.backupFixedImage cfg archiveName image = .ok (csum, sent)) :
    csum = digestsCsum cfg.prims ((imageChunks image).map cfg.prims.sha256) ∧
      ∃ (wid : UInt64) (locals : FixedLocals) (manifest : Bytes),
        locals.Describes cfg.prims wid
          (FixedIndexBuilder.new (UInt64.ofNat image.length) defaultChunkSize
            cfg.params.backupTime cfg.uuid) (imageChunks image) ∧
        locals.batchDigests = [] ∧ locals.batchOffsets = [] ∧
        sent = locals.sent ++
          [FixedRequest.closeFixedIndex wid (UInt64.ofNat (imageChunks image).length)
            (UInt64.ofNat image.length) csum,
            .uploadBlob manifestBlobName manifest, .finish] := by
  simp only [FixedWriter.backupFixedImage, except_bind_eq_ok] at hok
  obtain ⟨-, -, wid, -, locals, hloop, rest, hrest, closed, hclose, json, -, blobbed, hblob, last,
    hfin, hres⟩ := hok
  obtain ⟨rfl, rfl⟩ := Prod.mk.inj (Except.ok.inj hres)
  have hdesc := FixedLocals.Describes.run rfl hloop
  have hcsum : locals.builder.indexCsum cfg.prims =
      digestsCsum cfg.prims ((imageChunks image).map cfg.prims.sha256) := by
    rw [hdesc.builder]
    rfl
  have hcount : locals.builder.chunkCount = (imageChunks image).length := by
    rw [hdesc.builder]
    exact length_map _
  refine ⟨hcsum, wid, _, encodeUncompressed cfg.prims json, hdesc.appendRest hrest, rfl, rfl, ?_⟩
  rw [send_ok hfin, send_ok hblob, send_ok hclose, hcount]
  simp only [append_assoc, cons_append, nil_append]

/-- A blob the server has under a digest: held from before, or uploaded. -/
def FixedHasBlob {prims : Primitives} (held : List (HeldChunk prims)) (sent : List FixedRequest)
    (digest : Digest) (blob : Bytes) : Prop :=
  (∃ chunk ∈ held, chunk.digest = digest ∧ chunk.blob = blob) ∨
    ∃ wid len, FixedRequest.uploadChunk wid digest len blob ∈ sent

/-- The server returns the chunks it has, and an index of the digests and the
size it was sent. -/
structure FixedServes {prims : Primitives} (archiveName : String) (held : List (HeldChunk prims))
    (sent : List FixedRequest) (client : ReaderClient) : Prop where
  chunk : ∀ position digest, (∃ blob, FixedHasBlob held sent digest blob) →
    ∃ blob, FixedHasBlob held sent digest blob ∧ client.downloadChunk position digest = .ok blob
  index : ∃ builder : FixedIndexBuilder,
    client.download archiveName = .ok (builder.serialize prims) ∧
      builder.digests = sent.flatMap FixedRequest.appendedDigests ∧
      ∃ count csum, (count, builder.size, csum) ∈ sent.flatMap FixedRequest.closing

/-- **A fixed image comes back.**  For every image, whatever its length, if its
backup returns Ok then

* the digests and start offsets of the append requests, in order, are those of
  the chunks of the image;
* the one close request has their number, the size of the image and the checksum
  over the digests;
* a restore without a key from a server that returns what it was sent gives
  exactly the image. -/
theorem restoreFixedImage_of_backup {cfg : FixedImageConfig} {writer : FixedWriter}
    {archiveName : String} {image : Bytes} (himage : image.length < 2 ^ 64) {csum : Digest}
    {sent : List FixedRequest}
    (hok : writer.backupFixedImage cfg archiveName image = .ok (csum, sent)) :
    (imageChunks image).flatten = image ∧
    sent.flatMap FixedRequest.appendedDigests = (imageChunks image).map cfg.prims.sha256 ∧
    sent.flatMap FixedRequest.appendedOffsets = ((List.range (imageChunks image).length).map
      fun i => UInt64.ofNat (i * defaultChunkSize.toNat)) ∧
    sent.flatMap FixedRequest.closing =
      [(UInt64.ofNat (imageChunks image).length, UInt64.ofNat image.length, csum)] ∧
    csum = digestsCsum cfg.prims ((imageChunks image).map cfg.prims.sha256) ∧
    ∀ (held : List (HeldChunk cfg.prims)) (client : ReaderClient), cfg.prims.Lawful →
      NoCollision cfg.prims ((imageChunks image).map (fun data => (none, data)) ++
        held.map fun chunk => (chunk.crypt, chunk.data)) →
      FixedServes archiveName held sent client →
        client.restoreFixedImage cfg.prims archiveName none = .ok image := by
  obtain ⟨hcsum, wid, locals, manifest, hlocals, hdigestsLeft, hoffsetsLeft, hsent⟩ :=
    backupFixedImage_ok hok
  have hdigests : sent.flatMap FixedRequest.appendedDigests =
      (imageChunks image).map cfg.prims.sha256 := by
    rw [← hlocals.digests, hdigestsLeft, hsent]
    simp [FixedRequest.appendedDigests]
  have hclosing : sent.flatMap FixedRequest.closing =
      [(UInt64.ofNat (imageChunks image).length, UInt64.ofNat image.length, csum)] := by
    rw [hsent, flatMap_append, hlocals.unclosed]
    rfl
  refine ⟨imageChunks_flatten image, hdigests, ?_, hclosing, hcsum, ?_⟩
  · rw [← startOffsets_imageChunks, ← hlocals.offsets, hoffsetsLeft, hsent]
    simp [FixedRequest.appendedOffsets]
  · intro held client hlaw hcollision hserves
    obtain ⟨builder, hdownload, hlisted, count, closeCsum, hclose⟩ := hserves.index
    have hsize : builder.size = UInt64.ofNat image.length := by
      rw [hclosing] at hclose
      exact (Prod.mk.inj (Prod.mk.inj (mem_singleton.mp hclose)).2).1
    refine restoreFixedImage_ok_iff.mpr ⟨_, _, imageChunks image, hdownload,
      fixedParse_serialize _ _, fixedVerifyCsum_of_builder _ _, ⟨?_, ?_⟩, ?_⟩
    · rw [hlisted, hdigests, length_map]
    · intro i digest data hdigest hdata
      rw [hlisted, hdigests, getElem?_map, hdata] at hdigest
      obtain rfl := Option.some.inj hdigest
      have hmem : data ∈ imageChunks image := mem_of_getElem? hdata
      have huploaded : FixedRequest.uploadChunk wid (cfg.prims.sha256 data)
          (UInt64.ofNat data.length) (encodeAuto cfg.prims data) ∈ sent := by
        rw [hsent]
        exact mem_append_left _ (hlocals.uploaded data hmem)
      obtain ⟨blob, hblob, hanswer⟩ := hserves.chunk (0 + i) (cfg.prims.sha256 data)
        ⟨_, Or.inr ⟨_, _, huploaded⟩⟩
      refine fetchChunk_ok_iff.mpr ⟨blob, hanswer, ?_, rfl⟩
      refine decodeBlob_of_noCollision hcollision hmem (hblob.imp_right ?_)
      rintro ⟨wid', len, hupload⟩
      rw [hsent] at hupload
      obtain ⟨other, hother, hdigest, rfl⟩ :=
        hlocals.uploads wid' _ len blob (by simpa using hupload)
      exact ⟨other, hother, hdigest,
        @decodeBlob_encodeFor_none cfg.prims (.error "") hlaw true other _ rfl none⟩
    · rw [hsize, UInt64.toNat_ofNat_of_lt' himage, imageChunks_flatten, take_length]

def acceptingWriter : FixedWriter where
  connect := .ok ()
  createFixedIndex _ _ := .ok 1
  answer _ _ := .ok ()

def sampleImageConfig : FixedImageConfig where
  prims := samplePrimitives
  params := { backupType := "host", backupId := "sql01", backupTime := 1700000000 }
  uuid := FixedBytes.ofBytes 16 []
  manifestJson _ := .ok []

def sampleImageSent : List FixedRequest :=
  [.uploadChunk 1 sampleDigestA 1 (encodeUncompressed samplePrimitives [97]),
    .appendFixedIndex 1 [sampleDigestA] [0],
    .closeFixedIndex 1 1 1 sampleCsum,
    .uploadBlob manifestBlobName (encodeUncompressed samplePrimitives []),
    .finish]

theorem sampleImage_serves : @FixedServes samplePrimitives "drive.img.fidx" [] sampleImageSent
     (oneChunkClient ((oneChunkImage 1).serialize samplePrimitives)) where
  index := ⟨oneChunkImage 1, rfl, rfl, 1, sampleCsum, mem_singleton_self _⟩
  chunk position digest hhas := by
    obtain ⟨blob, ⟨chunk, hchunk, -⟩ | ⟨wid, len, hsent⟩⟩ := hhas
    · exact absurd hchunk not_mem_nil
    · have hsame : wid = 1 ∧ digest = sampleDigestA ∧ len = 1 ∧
          blob = encodeUncompressed samplePrimitives [97] := by
        simpa [sampleImageSent] using hsent
      obtain ⟨rfl, rfl, rfl, rfl⟩ := hsame
      exact ⟨_, Or.inr ⟨1, 1, hsent⟩, rfl⟩

/-- The image of one byte is backed up in one chunk and one batch, and comes
back. -/
theorem sampleImage_restored :
    acceptingWriter.backupFixedImage sampleImageConfig "drive.img.fidx" [97] =
        .ok (sampleCsum, sampleImageSent) ∧
      (oneChunkClient ((oneChunkImage 1).serialize samplePrimitives)).restoreFixedImage
        samplePrimitives "drive.img.fidx" none = .ok [97] := by
  have hchunks : imageChunks [97] = [[97]] := by
    rw [imageChunks, pieces_cons defaultChunkSize_pos,
      take_of_length_le (by decide), drop_of_length_le (by decide)]
    rfl
  have hok : acceptingWriter.backupFixedImage sampleImageConfig "drive.img.fidx" [97] =
      .ok (sampleCsum, sampleImageSent) := by
    simp only [FixedWriter.backupFixedImage, hchunks]
    rfl
  obtain ⟨-, -, -, -, -, hrestore⟩ := restoreFixedImage_of_backup (by decide) hok
  rw [hchunks] at hrestore
  refine ⟨hok, hrestore [] _ samplePrimitives_lawful ?_ sampleImage_serves⟩
  unfold NoCollision
  decide

end PbsGui.Client
