import PbsGui.Client.Pipeline

/-!
# What an index pins down

A restore decodes what a server answers and compares the digest.  So the index alone decides
the result, as long as no two of the answered contents collide.

The index is not held to the sizes it declares: the total of a dynamic index is not looked at,
and the size of a fixed index is where the image is cut off.
-/

namespace PbsGui.Client

open Lib List

/-- The contents that some answer of the server decodes to. -/
def ReaderClient.answered (prims : Primitives) (client : ReaderClient)
    (crypt : Option CryptConfig) : Set Bytes :=
  {data | ∃ position digest blob,
    client.downloadChunk position digest = .ok blob ∧ decodeBlob prims blob crypt = .ok data}

/-- No content of one set shares its digest with another content of the other.
Over all byte strings no digest does this, so the sets are the contents in play. -/
def NoCollisionBetween (prims : Primitives) (crypt : Option CryptConfig)
    (left right : Set Bytes) : Prop :=
  ∀ data ∈ left, ∀ other ∈ right,
    chunkDigest prims crypt data = chunkDigest prims crypt other → data = other

/-- A restore of a dynamic archive by any of the three functions has returned Ok:
the bytes it has delivered, and their number as it counts them. -/
inductive Restores (prims : Primitives) (client : ReaderClient) (archiveName : String)
    (crypt : Option CryptConfig) : Bytes → UInt64 → Prop
  | buffered {out : Bytes} (hok : client.restoreDynamicArchive prims archiveName crypt = .ok out) :
      Restores prims client archiveName crypt out (UInt64.ofNat out.length)
  | toWriter {width : Nat} {writer : ChunkSink} {state : StreamRestore} {count : UInt64}
      (hwidth : 1 ≤ width)
      (hreach : client.restoreDynamicArchiveToWriter prims width archiveName crypt writer state)
      (hok : state.result = some (.ok count)) :
      Restores prims client archiveName crypt state.window.taken.flatten count
  | streamed {width : Nat} {onChunk : List Bytes → Bytes → Except IoError Unit}
      {state : StreamRestore} {count : UInt64} (hwidth : 1 ≤ width)
      (hreach : client.restoreDynamicArchiveStreamed prims width archiveName crypt onChunk state)
      (hok : state.result = some (.ok count)) :
      Restores prims client archiveName crypt state.window.taken.flatten count

section Chunks

variable {prims : Primitives} {client : ReaderClient} {crypt : Option CryptConfig}

/-- The contents a restore fetches have the digests of the index, and come from
the server. -/
theorem FetchedFrom.digests {position : Nat} {digests : List Digest} {contents : List Bytes}
    (h : FetchedFrom (client.fetchChunk prims crypt) position digests contents) :
    contents.map (chunkDigest prims crypt) = digests ∧
      ∀ data ∈ contents, data ∈ client.answered prims crypt := by
  induction digests generalizing position contents with
  | nil =>
    obtain rfl := eq_nil_of_length_eq_zero h.1
    exact ⟨rfl, by simp⟩
  | cons digest digests ih =>
    cases contents with
    | nil => exact absurd h.1 (by simp)
    | cons =>
      obtain ⟨hhead, htail⟩ := fetchedFrom_cons.mp h
      obtain ⟨blob, hanswer, hdec, hdig⟩ := fetchChunk_ok_iff.mp hhead
      obtain ⟨hdigs, hans⟩ := ih htail
      refine ⟨by rw [map_cons, hdig, hdigs], ?_⟩
      rintro other (_ | ⟨_, hother⟩)
      · exact ⟨_, _, blob, hanswer, hdec⟩
      · exact hans other hother

theorem NoCollisionBetween.contents_eq {left right : Set Bytes}
    (h : NoCollisionBetween prims crypt left right) {contents others : List Bytes}
    (hleft : ∀ data ∈ contents, data ∈ left) (hright : ∀ data ∈ others, data ∈ right)
    (hsame : contents.map (chunkDigest prims crypt) = others.map (chunkDigest prims crypt)) :
    contents = others := by
  induction contents generalizing others with
  | nil => exact (map_eq_nil_iff.mp hsame.symm).symm
  | cons data contents ih =>
    cases others with
    | nil => cases hsame
    | cons other =>
      obtain ⟨hhead, htail⟩ := cons.inj hsame
      have hdata : data = other := h data (hleft data mem_cons_self) other
        (hright other mem_cons_self) hhead
      rw [hdata, ih (forall_mem_cons.mp hleft).2 (forall_mem_cons.mp hright).2 htail]

/-- A streaming restore that returned Ok delivered what the buffered restore
returns, whatever the sink is. -/
theorem StreamReaches.restored {width : Nat} {archiveName : String} {sink : ChunkSink}
    {state : StreamRestore} {count : UInt64} (hwidth : 1 ≤ width)
    (hreach : StreamReaches prims client width archiveName crypt sink state)
    (hok : state.result = some (.ok count)) :
    client.restoreDynamicArchive prims archiveName crypt = .ok state.window.taken.flatten ∧
      count = UInt64.ofNat state.window.taken.flatten.length := by
  cases hdigs : client.archiveDigests prims archiveName with
  | error => cases (hreach.index_failed hdigs).symm.trans hok
  | ok =>
    rcases hreach.accepting with ⟨error, hfail⟩ | haccepting
    · cases hfail.symm.trans hok
    · exact (haccepting.inv hwidth (fun _ _ => rfl) hdigs).restored hdigs hok

theorem Restores.buffered_eq {archiveName : String} {out : Bytes} {count : UInt64}
    (h : Restores prims client archiveName crypt out count) :
    client.restoreDynamicArchive prims archiveName crypt = .ok out ∧
      count = UInt64.ofNat out.length := by
  cases h with
  | buffered hok => exact ⟨hok, rfl⟩
  | toWriter hwidth hreach hok | streamed hwidth hreach hok =>
    exact StreamReaches.restored hwidth hreach hok

end Chunks

/-- **The index decides the result.**  Two servers that hand out the same index
and answer the chunk requests in any way at all: if a restore succeeds against
each, buffered, into a writer or streamed, the bytes delivered are the same. -/
theorem restores_eq_of_index {prims : Primitives} {crypt : Option CryptConfig}
    {left right : ReaderClient} {leftName rightName : String} {indexBytes : Bytes}
    (hleft : left.download leftName = .ok indexBytes)
    (hright : right.download rightName = .ok indexBytes)
    (hcollision : NoCollisionBetween prims crypt (left.answered prims crypt)
      (right.answered prims crypt))
    {out out' : Bytes} {count count' : UInt64}
    (hout : Restores prims left leftName crypt out count)
    (hout' : Restores prims right rightName crypt out' count') :
    out = out' ∧ count = count' := by
  obtain ⟨hrestored, rfl⟩ := hout.buffered_eq
  obtain ⟨hrestored', rfl⟩ := hout'.buffered_eq
  obtain ⟨bytes, index, contents, hbytes, hparse, -, hfetched, rfl⟩ :=
    restoreDynamicArchive_ok_iff.mp hrestored
  obtain ⟨bytes', index', contents', hbytes', hparse', -, hfetched', rfl⟩ :=
    restoreDynamicArchive_ok_iff.mp hrestored'
  obtain rfl := Except.ok.inj (hleft.symm.trans hbytes)
  obtain rfl := Except.ok.inj (hright.symm.trans hbytes')
  obtain rfl := Except.ok.inj (hparse.symm.trans hparse')
  obtain ⟨hdigests, hanswered⟩ := hfetched.digests
  obtain ⟨hdigests', hanswered'⟩ := hfetched'.digests
  have hcontents := hcollision.contents_eq hanswered hanswered' (hdigests.trans hdigests'.symm)
  rw [hcontents]
  exact ⟨rfl, rfl⟩

/-- A server that answers the sample chunks as zstd blobs. -/
def zstdClient : ReaderClient where
  download _ := .ok (sampleIndex.serialize samplePrimitives)
  downloadChunk _ digest :=
    if digest = sampleDigestA then .ok (frameZstd samplePrimitives [97])
    else .ok (frameZstd samplePrimitives [98])

theorem sample_answered {data : Bytes}
    (h : data ∈ sampleClient.answered samplePrimitives none ∪
      zstdClient.answered samplePrimitives none) : data = [97] ∨ data = [98] := by
  rcases h with ⟨position, digest, blob, hans, hdec⟩ | ⟨position, digest, blob, hans, hdec⟩
  · simp only [sampleClient] at hans
    split at hans
    all_goals
      cases hans
      rw [decodeBlob_of_plain (Or.inl (slice_encodeUncompressed _ _)),
        decode_encodeUncompressed] at hdec
      cases hdec
      simp
  · simp only [zstdClient] at hans
    split at hans
    all_goals
      cases hans
      rw [decodeBlob_of_plain (Or.inr (slice_frameZstd _ _)), decode_frameZstd] at hdec
      cases hdec
      simp

/-- The two sample servers, one read through the pipeline and one buffered. -/
theorem sampleServers_agree : ∃ state out,
    sampleClient.restoreDynamicArchiveToWriter samplePrimitives 2 "db.didx" none sampleSink state ∧
      state.result = some (.ok 2) ∧
      zstdClient.restoreDynamicArchive samplePrimitives "db.didx" none = .ok out ∧
      state.window.taken.flatten = out := by
  obtain ⟨state, hreach, hreturned⟩ := @exists_returned 2 sampleSink samplePrimitives sampleClient
    "db.didx" none (by decide) ⟨fun _ _ => rfl, rfl⟩
  have hresult : state.result = some (.ok 2) := by
    obtain ⟨result, hresult⟩ := Option.ne_none_iff_exists'.mp hreturned
    have hdigests := @archiveDigests_of_serialize samplePrimitives sampleClient "db.didx" _ rfl
    have hinv := hreach.inv (by decide) (fun _ _ => rfl) hdigests
    rw [hresult, hinv.result_eq hdigests rfl hresult, sampleClient_restore]
    rfl
  have hfirst : zstdClient.fetchItem samplePrimitives none (sampleDigestA, 0) = .ok [97] :=
    fetchChunk_ok_iff.mpr ⟨_, rfl, by
      rw [decodeBlob_of_plain (Or.inr (slice_frameZstd _ _)), decode_frameZstd]
      rfl, rfl⟩
  have hsecond : zstdClient.fetchItem samplePrimitives none (sampleDigestB, 1) = .ok [98] :=
    fetchChunk_ok_iff.mpr ⟨_, rfl, by
      rw [decodeBlob_of_plain (Or.inr (slice_frameZstd _ _)), decode_frameZstd]
      rfl, rfl⟩
  have hbuffered : zstdClient.restoreDynamicArchive samplePrimitives "db.didx" none =
      .ok [97, 98] := by
    have hdownload : zstdClient.download "db.didx" = .ok (sampleIndex.serialize samplePrimitives) :=
      rfl
    rw [restoreDynamicArchive_of_digests none (archiveDigests_of_serialize hdownload)]
    simp [sampleIndex, fetchAll, hfirst, hsecond]
  refine ⟨state, _, hreach, hresult, hbuffered, ?_⟩
  refine (@restores_eq_of_index samplePrimitives none sampleClient zstdClient "db.didx" "db.didx"
    (sampleIndex.serialize samplePrimitives) rfl rfl ?_ _ _ _ _
    (.toWriter (by decide) hreach hresult) (.buffered hbuffered)).1
  intro data hdata other hother hdigest
  rcases sample_answered (Or.inl hdata) with rfl | rfl <;>
    rcases sample_answered (Or.inr hother) with rfl | rfl
  · rfl
  · exact absurd hdigest (by decide)
  · exact absurd hdigest (by decide)
  · rfl

/-- A dynamic index that declares `total` bytes and lists the chunk `a`. -/
def oneChunkIndex (total : UInt64) : DynamicIndexBuilder :=
  { ctime := 1700000000, uuid := FixedBytes.ofBytes 16 [], entries := [(total, sampleDigestA)] }

/-- A fixed index that declares `size` bytes and lists the chunk `a`. -/
def oneChunkImage (size : UInt64) : FixedIndexBuilder :=
  { size := size, chunkSize := defaultChunkSize, ctime := 1700000000
    uuid := FixedBytes.ofBytes 16 [], digests := [sampleDigestA] }

/-- A server that hands out this index and the chunk `a`. -/
def oneChunkClient (indexBytes : Bytes) : ReaderClient where
  download _ := .ok indexBytes
  downloadChunk _ _ := .ok (encodeUncompressed samplePrimitives [97])

theorem oneChunkClient_fetched (indexBytes : Bytes) :
    FetchedFrom ((oneChunkClient indexBytes).fetchChunk samplePrimitives none) 0 [sampleDigestA]
      [[97]] := by
  refine fetchedFrom_cons.mpr ⟨fetchChunk_ok_iff.mpr ⟨_, rfl, ?_, rfl⟩, fetchedFrom_nil _⟩
  rw [decodeBlob_of_plain (Or.inl (slice_encodeUncompressed _ _)), decode_encodeUncompressed]

/-- Whatever length its index declares, the archive is restored to its one chunk. -/
theorem oneChunkClient_restore (total : UInt64) :
    (oneChunkClient ((oneChunkIndex total).serialize samplePrimitives)).restoreDynamicArchive
      samplePrimitives "db.didx" none = .ok [97] :=
  restoreDynamicArchive_ok_iff.mpr ⟨_, _, [[97]], rfl, parse_serialize _ _,
    verifyCsum_of_builder _ _, oneChunkClient_fetched _, rfl⟩

end PbsGui.Client
