import PbsGui.Client.Blob
import PbsGui.Client.Index
import PbsGui.Lib.EventRuns

/-!
# Restoring an archive, one chunk after the other

`ReaderClient::restore_dynamic_archive` and `restore_fixed_image`
(`session.rs`) download the index, check it, and then fetch and verify the
chunks in index order.  The server is given by its answers; a chunk request may
be answered differently each time, so the answer depends on the place in the
index it is made for.
-/

namespace PbsGui.Client

open Lib List

/-- A reader session, seen through its answers. -/
structure ReaderClient where
  /-- The named file, as `download` returns it. -/
  download : String → Except PbsError Bytes
  /-- The chunk blob, as `download_chunk` returns it for an index position. -/
  downloadChunk : Nat → Digest → Except PbsError Bytes

namespace ReaderClient

/-- Download and verify an archive's dynamic index, returning its chunk digests
in archive order. -/
def archiveDigests (prims : Primitives) (client : ReaderClient) (archiveName : String) :
    Except PbsError (List Digest) := do
  let indexBytes ← client.download archiveName
  let index ← DynamicIndex.parse indexBytes
  if index.verifyCsum prims then
    .ok index.digests
  else
    .error (.protocol "downloaded dynamic index failed its csum check")

/-- Download the chunk at a place of the index, decode it and verify it. -/
def fetchChunk (prims : Primitives) (client : ReaderClient) (crypt : Option CryptConfig)
    (position : Nat) (digest : Digest) : Except PbsError Bytes := do
  let chunkBlob ← client.downloadChunk position digest
  decodeAndVerifyChunk prims chunkBlob crypt digest

/-- The restore loop from a place of the index on. -/
def restoreFrom (fetch : Nat → Digest → Except PbsError Bytes) (position : Nat)
    (digests : List Digest) (out : Bytes) : Except PbsError Bytes :=
  match digests with
  | [] => .ok out
  | digest :: rest => do
    let chunk ← fetch position digest
    restoreFrom fetch (position + 1) rest (out ++ chunk)

/-- Download a dynamic-index archive and reassemble the original bytes. -/
def restoreDynamicArchive (prims : Primitives) (client : ReaderClient) (archiveName : String)
    (crypt : Option CryptConfig) : Except PbsError Bytes := do
  let digests ← client.archiveDigests prims archiveName
  restoreFrom (client.fetchChunk prims crypt) 0 digests []

/-- Download a fixed-index archive and reassemble the original image bytes, cut
off at the size in the header. -/
def restoreFixedImage (prims : Primitives) (client : ReaderClient) (archiveName : String)
    (crypt : Option CryptConfig) : Except PbsError Bytes := do
  let indexBytes ← client.download archiveName
  let fixed ← FixedIndex.parse indexBytes
  if fixed.verifyCsum prims then
    let image ← restoreFrom (client.fetchChunk prims crypt) 0 fixed.digests []
    .ok (image.take fixed.size.toNat)
  else
    .error (.protocol "downloaded fixed index failed its csum check")

end ReaderClient

section Loop

variable {fetch : Nat → Digest → Except PbsError Bytes}

/-- Every chunk from a place of the index on is fetched, with these contents. -/
def FetchedFrom (fetch : Nat → Digest → Except PbsError Bytes) (position : Nat)
    (digests : List Digest) (contents : List Bytes) : Prop :=
  contents.length = digests.length ∧
    ∀ i digest data, digests[i]? = some digest → contents[i]? = some data →
      fetch (position + i) digest = .ok data

theorem fetchedFrom_nil (position : Nat) : FetchedFrom fetch position [] [] := ⟨rfl, by simp⟩

variable {digests : List Digest}

theorem fetchedFrom_cons {position : Nat} {digest : Digest} {data : Bytes} {contents : List Bytes} :
    FetchedFrom fetch position (digest :: digests) (data :: contents) ↔
      fetch position digest = .ok data ∧ FetchedFrom fetch (position + 1) digests contents := by
  simp only [FetchedFrom, length_cons, Nat.add_right_cancel_iff]
  constructor
  · rintro ⟨hlen, hfetch⟩
    refine ⟨hfetch 0 digest data rfl rfl, hlen, fun i d c hd hc => ?_⟩
    have := hfetch (i + 1) d c hd hc
    rwa [show position + (i + 1) = position + 1 + i by omega] at this
  · rintro ⟨hhead, hlen, hfetch⟩
    refine ⟨hlen, fun i d c hd hc => ?_⟩
    cases i with
    | zero =>
      obtain rfl : digest = d := by simpa using hd
      obtain rfl : data = c := by simpa using hc
      exact hhead
    | succ i =>
      have := hfetch i d c (by simpa using hd) (by simpa using hc)
      rwa [show position + 1 + i = position + (i + 1) by omega] at this

/-- The loop succeeds exactly when every chunk is fetched, and then appends
their contents in order. -/
theorem restoreFrom_ok_iff {position : Nat} {out result : Bytes} :
    ReaderClient.restoreFrom fetch position digests out = .ok result ↔
      ∃ contents, FetchedFrom fetch position digests contents ∧
        result = out ++ contents.flatten := by
  -- The loop is a fold with the output as accumulator, so both it and the position vary.
  induction digests generalizing position out with
  | nil =>
    simp only [ReaderClient.restoreFrom, Except.ok.injEq]
    constructor
    · rintro rfl
      exact ⟨[], fetchedFrom_nil position, by simp⟩
    · rintro ⟨contents, ⟨hlen, -⟩, rfl⟩
      simp [eq_nil_of_length_eq_zero hlen]
  | cons digest digests ih =>
    rw [ReaderClient.restoreFrom, except_bind_eq_ok]
    constructor
    · rintro ⟨data, hfetch, hrest⟩
      obtain ⟨contents, hcont, rfl⟩ := ih.mp hrest
      exact ⟨data :: contents, fetchedFrom_cons.mpr ⟨hfetch, hcont⟩, by simp⟩
    · rintro ⟨contents, hcont, rfl⟩
      cases contents with
      | nil => exact absurd hcont.1 (by simp)
      | cons data contents =>
        obtain ⟨hfetch, hrest⟩ := fetchedFrom_cons.mp hcont
        exact ⟨data, hfetch, ih.mpr ⟨contents, hrest, by simp⟩⟩

end Loop

theorem archiveDigests_of_serialize {prims : Primitives} {client : ReaderClient}
    {archiveName : String} {builder : DynamicIndexBuilder}
    (h : client.download archiveName = .ok (builder.serialize prims)) :
    client.archiveDigests prims archiveName = .ok (builder.entries.map Prod.snd) := by
  simp only [ReaderClient.archiveDigests, except_bind_eq_ok]
  exact ⟨_, h, _, parse_serialize prims builder, if_pos (verifyCsum_of_builder prims builder)⟩

section Restored

variable {prims : Primitives} {client : ReaderClient} {archiveName : String}
  {crypt : Option CryptConfig} {out : Bytes}

theorem fetchChunk_ok_iff {position : Nat} {digest : Digest} :
    client.fetchChunk prims crypt position digest = .ok out ↔
      ∃ blob, client.downloadChunk position digest = .ok blob ∧
        decodeBlob prims blob crypt = .ok out ∧ chunkDigest prims crypt out = digest := by
  simp only [ReaderClient.fetchChunk, except_bind_eq_ok, decodeAndVerifyChunk_ok_iff]

theorem restoreDynamicArchive_ok_iff :
    client.restoreDynamicArchive prims archiveName crypt = .ok out ↔
      ∃ bytes index contents, client.download archiveName = .ok bytes ∧
        DynamicIndex.parse bytes = .ok index ∧ index.verifyCsum prims = true ∧
        FetchedFrom (client.fetchChunk prims crypt) 0 index.digests contents ∧
        out = contents.flatten := by
  simp only [ReaderClient.restoreDynamicArchive, ReaderClient.archiveDigests, except_bind_eq_ok,
    restoreFrom_ok_iff, nil_append]
  constructor
  · rintro ⟨digests, ⟨bytes, hdown, index, hparse, hcheck⟩, contents, hfetch, rfl⟩
    split at hcheck
    · next hcsum =>
        cases hcheck
        exact ⟨bytes, index, contents, hdown, hparse, hcsum, hfetch, rfl⟩
    · cases hcheck
  · rintro ⟨bytes, index, contents, hdown, hparse, hcsum, hfetch, rfl⟩
    exact ⟨index.digests, ⟨bytes, hdown, index, hparse, by rw [if_pos hcsum]⟩, contents,
      hfetch, rfl⟩

theorem restoreFixedImage_ok_iff :
    client.restoreFixedImage prims archiveName crypt = .ok out ↔
      ∃ bytes index contents, client.download archiveName = .ok bytes ∧
        FixedIndex.parse bytes = .ok index ∧ index.verifyCsum prims = true ∧
        FetchedFrom (client.fetchChunk prims crypt) 0 index.digests contents ∧
        out = contents.flatten.take index.size.toNat := by
  simp only [ReaderClient.restoreFixedImage, except_bind_eq_ok]
  constructor
  · rintro ⟨bytes, hdown, index, hparse, hrest⟩
    split at hrest
    · next hcsum =>
        obtain ⟨image, himage, hout⟩ := except_bind_eq_ok.mp hrest
        obtain ⟨contents, hfetch, rfl⟩ := restoreFrom_ok_iff.mp himage
        exact ⟨bytes, index, contents, hdown, hparse, hcsum, hfetch, (Except.ok.inj hout).symm⟩
    · cases hrest
  · rintro ⟨bytes, index, contents, hdown, hparse, hcsum, hfetch, rfl⟩
    refine ⟨bytes, hdown, index, hparse, ?_⟩
    rw [if_pos hcsum]
    exact except_bind_eq_ok.mpr
      ⟨contents.flatten, restoreFrom_ok_iff.mpr ⟨contents, hfetch, rfl⟩, rfl⟩

end Restored

end PbsGui.Client
