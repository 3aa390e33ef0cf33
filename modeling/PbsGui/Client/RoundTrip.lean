import PbsGui.Client.Restore
import PbsGui.Client.UploadProtocol

/-!
# A backup is restored to its stream

Whatever the encoding, the key, the previous snapshot and the schedule of the uploads, an
archive that `backup_dynamic_reader` reports as backed up is restored by
`restore_dynamic_archive` to the stream it was made from.  The digest is assumed free of
collisions among the contents in play only.
-/

namespace PbsGui.Client

open Lib List

/-- A chunk the server holds: a blob that decodes under the key it was written
with to data with the digest it is stored under. -/
structure HeldChunk (prims : Primitives) where
  digest : Digest
  blob : Bytes
  crypt : Option CryptConfig
  data : Bytes
  decodes : decodeBlob prims blob crypt = .ok data
  digest_eq : chunkDigest prims crypt data = digest

/-- No two of these contents, each with the key it is stored under, share a
digest. -/
def NoCollision (prims : Primitives) (contents : List (Option CryptConfig × Bytes)) : Prop :=
  ∀ left ∈ contents, ∀ right ∈ contents,
    chunkDigest prims left.1 left.2 = chunkDigest prims right.1 right.2 → left = right

/-- A blob the server has under a digest: held from before, or accepted in the
run with this trace. -/
def HasBlob {prims : Primitives} (held : List (HeldChunk prims)) (trace : List Event)
    (digest : Digest) (blob : Bytes) : Prop :=
  (∃ chunk ∈ held, chunk.digest = digest ∧ chunk.blob = blob) ∨
    ∃ wid len, Event.request (.uploadDynamicChunk wid digest len blob) (.ok ()) ∈ trace

/-- The server returns the chunks and the index entries it was sent. -/
structure Serves (cfg : UploadConfig) (held : List (HeldChunk cfg.prims)) (trace : List Event)
    (client : ReaderClient) : Prop where
  chunk : ∀ position digest, (∃ blob, HasBlob held trace digest blob) →
    ∃ blob, HasBlob held trace digest blob ∧ client.downloadChunk position digest = .ok blob
  index : ∃ builder : DynamicIndexBuilder,
    client.download cfg.archiveName = .ok (builder.serialize cfg.prims) ∧
      builder.entries.map Prod.snd = sentDigests trace

theorem UploadReaches.known_subset {Source : Type*} {cfg : UploadConfig} {feed : Feed Source}
    {source : Source} {state : UploadSystem Source} (h : UploadReaches cfg feed source state) :
    state.up.known ⊆ cfg.knownFromPrevious := by
  induction h with
  | refl => exact nil_subset _
  | tail _ hlast ih =>
    cases hlast with
    | quiet | read | chunk | ends => exact ih
    | upload hrun hstep =>
      cases hstep with
      | fetchedPrevious => exact List.Subset.refl _
      | _ => exact ih

theorem chunkFeed_emitted {chunks : List Bytes} {catalog : Catalog}
    {state : FeedState (List Bytes × Catalog)}
    (h : Relation.ReflTransGen (FeedStep chunkFeed)
      { source := (chunks, catalog), emitted := [], exit := none } state) :
    state.emitted ++ state.source.1 = chunks ∧ (state.exit = some .ok → state.source.1 = []) := by
  induction h with
  | refl => exact ⟨rfl, nofun⟩
  | @tail before after _ hlast ih =>
    obtain ⟨hemit, hexit⟩ := ih
    cases hlast with
    | read hopen hread => exact hread.elim
    | quiet hquiet =>
      obtain ⟨hsame, -, -⟩ := hquiet
      exact ⟨by rw [hsame, hemit], fun h => by rw [hsame, hexit h]⟩
    | chunk hopen hchunk =>
      obtain ⟨hnext, -⟩ := hchunk
      refine ⟨?_, fun h => nomatch hopen.symm.trans h⟩
      rw [← hemit, hnext]
      simp
    | ends hopen hends =>
      obtain ⟨rfl, hlast⟩ := hends
      exact ⟨hemit, fun h => hlast (Option.some.inj h)⟩

/-- Whatever blob the server has under the digest of a chunk, held from before or uploaded, it
decodes to that chunk. -/
theorem decodeBlob_of_noCollision {prims : Primitives} {crypt : Option CryptConfig}
    {chunks : List Bytes} {held : List (HeldChunk prims)}
    (hcoll : NoCollision prims
      (chunks.map (fun data => (crypt, data)) ++ held.map fun chunk => (chunk.crypt, chunk.data)))
    {data blob : Bytes} (hdata : data ∈ chunks)
    (hblob : (∃ chunk ∈ held, chunk.digest = chunkDigest prims crypt data ∧ chunk.blob = blob) ∨
      ∃ other ∈ chunks, chunkDigest prims crypt data = chunkDigest prims crypt other ∧
        decodeBlob prims blob crypt = .ok other) :
    decodeBlob prims blob crypt = .ok data := by
  have hplay : ∀ other ∈ chunks, (crypt, other) ∈ chunks.map (fun data => (crypt, data)) ++
      held.map fun chunk => (chunk.crypt, chunk.data) :=
    fun other hother => mem_append_left _ (mem_map.mpr ⟨other, hother, rfl⟩)
  rcases hblob with ⟨chunk, hchunk, hdig, rfl⟩ | ⟨other, hother, hdig, hdecodes⟩
  · have hheld : (chunk.crypt, chunk.data) ∈ chunks.map (fun data => (crypt, data)) ++
        held.map fun chunk => (chunk.crypt, chunk.data) :=
      mem_append_right _ (mem_map.mpr ⟨chunk, hchunk, rfl⟩)
    have hsame := hcoll _ hheld _ (hplay data hdata) (chunk.digest_eq.trans hdig)
    obtain ⟨hcrypt, hcont⟩ := Prod.mk.inj hsame
    rw [← hcrypt, ← hcont]
    exact chunk.decodes
  · obtain ⟨-, rfl⟩ := Prod.mk.inj (hcoll _ (hplay data hdata) _ (hplay other hother) hdig)
    exact hdecodes

section RoundTrip

variable {cfg : UploadConfig} {chunks : List Bytes} {held : List (HeldChunk cfg.prims)}

/-- **The round trip.**  If the backup of a stream returns Ok, then restoring the
archive with the same key returns exactly the stream: for every way of cutting
the stream into chunks, every choice of compression, key and deduplication,
every previous index that lists chunks the server holds, and every schedule of
the chunk uploads. -/
theorem restoreDynamicArchive_of_backup (hlaw : cfg.prims.Lawful) {stream : Bytes}
    (hchunks : chunks.flatten = stream)
    (hprevious : ∀ digest ∈ cfg.knownFromPrevious, ∃ chunk ∈ held, chunk.digest = digest)
    (hcollision : NoCollision cfg.prims
      (chunks.map (fun data => (cfg.crypt, data)) ++ held.map fun chunk => (chunk.crypt, chunk.data)))
    {catalog : Catalog} {state : UploadSystem (List Bytes × Catalog)}
    (hreach : UploadReaches cfg chunkFeed (chunks, catalog) state)
    {stats : BackupStats} (hok : state.up.result = some (.ok stats))
    {client : ReaderClient} (hserves : Serves cfg held state.up.trace client) :
    client.restoreDynamicArchive cfg.prims cfg.archiveName cfg.crypt = .ok stream := by
  have hinv := hreach.inv
  have hphase := (hinv.commit.outcome stats hok).1
  obtain ⟨hexit, hindexed, -, hdigests, -, -, hsources⟩ :=
    hinv.closed (hinv.finish_mem hphase) (Or.inl rfl)
  -- The source ended well, so the index is that of all chunks of the stream.
  obtain ⟨hfed, hlast⟩ := chunkFeed_emitted hreach.feedRun
  have hemitted : state.feed.emitted = chunks := by
    rw [hlast hexit, append_nil] at hfed
    exact hfed
  rw [hindexed, hemitted] at hdigests
  obtain ⟨builder, hdownload, hentries⟩ := hserves.index
  have hrestore : ReaderClient.restoreFrom (client.fetchChunk cfg.prims cfg.crypt) 0
      (chunks.map cfg.digest) [] = .ok stream := by
    refine restoreFrom_ok_iff.mpr ⟨chunks, ⟨by simp, ?_⟩, by simp [hchunks]⟩
    intro i digest data hdigest hdata
    obtain rfl : cfg.digest data = digest := by
      rw [getElem?_map, hdata] at hdigest
      exact Option.some.inj hdigest
    have hmem : data ∈ chunks := mem_of_getElem? hdata
    -- A known chunk is held by the server from before; any other was uploaded in this run.
    have hhas : ∃ blob, HasBlob held state.up.trace (cfg.digest data) blob := by
      rcases hsources data (by rw [hindexed, hemitted]; exact hmem) with hknown | huploaded
      · obtain ⟨chunk, hchunk, hsame⟩ := hprevious _ (hreach.known_subset hknown)
        exact ⟨chunk.blob, Or.inl ⟨chunk, hchunk, hsame, rfl⟩⟩
      · obtain ⟨random, blob, -, hsent⟩ := huploaded
        exact ⟨blob, Or.inr ⟨_, _, hsent⟩⟩
    obtain ⟨blob, hblob, hanswer⟩ := hserves.chunk (0 + i) (cfg.digest data) hhas
    simp only [ReaderClient.fetchChunk, hanswer]
    refine decodeAndVerifyChunk_ok_iff.mpr ⟨decodeBlob_of_noCollision hcollision hmem ?_, rfl⟩
    refine hblob.imp_right ?_
    rintro ⟨wid, len, hsent⟩
    obtain ⟨-, -, other, hother, random, hdigest, -, hencode⟩ := hinv.tasks.sent _ _ _ _ _ hsent
    exact ⟨other, hemitted ▸ hother, hdigest, decodeBlob_encodeFor hlaw hencode⟩
  simp only [ReaderClient.restoreDynamicArchive, archiveDigests_of_serialize hdownload, hentries,
    hdigests]
  exact hrestore

end RoundTrip

/-- The server of the sample run held the first chunk. -/
def sampleHeld : List (HeldChunk sampleConfig.prims) :=
  [{ digest := sampleDigestA
     blob := encodeUncompressed samplePrimitives [97]
     crypt := none
     data := [97]
     decodes := by
       rw [decodeBlob_of_plain (Or.inl (slice_encodeUncompressed _ _))]
       exact decode_encodeUncompressed _ _
     digest_eq := rfl }]

def sampleIndex : DynamicIndexBuilder :=
  { ctime := 1700000000
    uuid := FixedBytes.ofBytes 16 []
    entries := [(1, sampleDigestA), (2, sampleDigestB)] }

/-- A server that returns what it holds and was sent in the sample run. -/
def sampleClient : ReaderClient where
  download _ := .ok (sampleIndex.serialize samplePrimitives)
  downloadChunk _ digest :=
    if digest = sampleDigestA then .ok (encodeUncompressed samplePrimitives [97])
    else .ok (encodeUncompressed samplePrimitives [98])

theorem sampleClient_serves :
    Serves sampleConfig sampleHeld sampleTrace sampleClient where
  index := ⟨sampleIndex, rfl, rfl⟩
  chunk position digest hhas := by
    obtain ⟨blob, hblob⟩ := hhas
    rcases hblob with ⟨chunk, hchunk, rfl, rfl⟩ | ⟨wid, len, hsent⟩
    · obtain rfl := mem_singleton.mp hchunk
      exact ⟨_, Or.inl ⟨_, hchunk, rfl, rfl⟩, rfl⟩
    · have hsame : wid = 1 ∧ digest = sampleDigestB ∧ len = 1 ∧
          blob = encodeUncompressed samplePrimitives [98] := by
        simpa [sampleTrace] using hsent
      obtain ⟨rfl, rfl, rfl, rfl⟩ := hsame
      have hother : sampleDigestB ≠ sampleDigestA := by decide
      exact ⟨_, Or.inr ⟨1, 1, hsent⟩, by simp only [sampleClient, if_neg hother]⟩

/-- The sample run is restored to the stream `ab`. -/
theorem sampleRun_restored :
    sampleClient.restoreDynamicArchive sampleConfig.prims sampleConfig.archiveName
      sampleConfig.crypt = .ok [97, 98] := by
  obtain ⟨state, hreach, hresult, htrace⟩ := sampleRun
  refine restoreDynamicArchive_of_backup samplePrimitives_lawful rfl ?_ ?_ hreach hresult
    (htrace ▸ sampleClient_serves)
  · rw [sampleConfig_known]
    intro digest hdigest
    exact ⟨_, mem_singleton_self _, (mem_singleton.mp hdigest).symm⟩
  · unfold NoCollision
    decide

end PbsGui.Client
