import PbsGui.Client.RoundTrip

/-!
# The encryption key of a job and its snapshots

A job owns at most one stored key (`enckey.rs`).  A backup uses it only while the job's
`encrypted` flag is on (`for_job`); a restore hands it to the client whatever the flag is, and
the client then verifies every chunk against the keyed digest.

The histories are those of one job whose key does not change: backups of any streams, whole or
cut short, and changes of the flag, in any order.
-/

namespace PbsGui.Engine

open Lib Client List

/-- The part of a job that decides on encryption. -/
structure Job where
  id : String
  encrypted : Bool

/-- The credential store, and the base64 decoder, which trims its input. -/
structure Secrets where
  get : String → Except String (Option String)
  base64Decode : String → Except String Bytes

/-- The credential-store key for a job's encryption key. -/
def encSecretKey (jobId : String) : String := "enc:" ++ jobId

/-- Decode a base64 key and confirm it is exactly 32 bytes. -/
def decodeKey (secrets : Secrets) (keyBase64 : String) : Except String (FixedBytes 32) :=
  match secrets.base64Decode keyBase64 with
  | .error text => .error ("the key is not valid base64: " ++ text)
  | .ok bytes =>
    if bytes.length = 32 then
      .ok (FixedBytes.ofBytes 32 bytes)
    else
      .error ("a key must be 32 bytes; got " ++ toString bytes.length)

/-- Load a job's key, or `none` if the job has no key stored. -/
def loadConfig (secrets : Secrets) (jobId : String) : Except String (Option CryptConfig) := do
  match ← secrets.get (encSecretKey jobId) with
  | some stored => return some { encKey := ← decodeKey secrets stored }
  | none => return none

/-- The encryption config of a backup, honoring the `encrypted` flag. -/
def forJob (secrets : Secrets) (job : Job) : Except String (Option CryptConfig) :=
  if job.encrypted then
    match loadConfig secrets job.id with
    | .error text => .error text
    | .ok (some config) => .ok (some config)
    | .ok none => .error "job is marked encrypted but its key is not stored"
  else
    .ok none

/-- Why a restore can fail. -/
inductive RestoreError
  | key (text : String)
  | pbs (error : PbsError)

/-- The restore path: load any stored key regardless of the flag, and restore
the archive with it. -/
def restoreJob (prims : Primitives) (secrets : Secrets) (job : Job) (client : ReaderClient)
    (archiveName : String) : Except RestoreError Bytes :=
  -- `encrypted` is not looked at: a stored key is always handed to the client
  match loadConfig secrets job.id with
  | .error text => .error (.key text)
  | .ok crypt =>
    match client.restoreDynamicArchive prims archiveName crypt with
    | .error error => .error (.pbs error)
    | .ok bytes => .ok bytes

/-! ### Histories -/

/-- A committed snapshot: whether it was taken with the flag on, the chunks of
its stream, and the digests its index lists. -/
structure Snapshot where
  encrypted : Bool
  chunks : List Bytes
  digests : List Digest

def Snapshot.stream (snapshot : Snapshot) : Bytes := snapshot.chunks.flatten

/-- A job with what its backups have left on the server.  No step reads
`contents`, the chunks of all streams. -/
structure JobHistory where
  job : Job
  blobs : List (Digest × Bytes)
  snapshots : List Snapshot
  contents : List Bytes

def JobHistory.new (job : Job) : JobHistory :=
  { job := job, blobs := [], snapshots := [], contents := [] }

def acceptedChunk : Event → Option (Digest × Bytes)
  | .request (.uploadDynamicChunk _ digest _ encoded) (.ok ()) => some (digest, encoded)
  | _ => none

def isFinish : Event → Bool
  | .request .finish (.ok ()) => true
  | _ => false

/-- What a backup of a stream with these chunks leaves behind. -/
def JobHistory.record (history : JobHistory) (chunks : List Bytes) (trace : List Event) :
    JobHistory :=
  { history with
    blobs := history.blobs ++ trace.filterMap acceptedChunk
    snapshots := history.snapshots ++
      if trace.any isFinish then [⟨history.job.encrypted, chunks, sentDigests trace⟩] else []
    contents := history.contents ++ chunks }

/-- The previous index a backup is given is that of a snapshot of the job. -/
def JobHistory.PreviousOf (history : JobHistory) (cfg : UploadConfig) : Prop :=
  cfg.previous = none ∨ ∃ snapshot ∈ history.snapshots, ∃ builder : DynamicIndexBuilder,
    cfg.previous = some (builder.serialize cfg.prims) ∧
      builder.entries.map Prod.snd = snapshot.digests

/-- The flag is set, or a backup runs, to its end or until it is stopped. -/
inductive JobStep (prims : Primitives) (secrets : Secrets) (history : JobHistory) :
    JobHistory → Prop
  | setEncrypted (encrypted : Bool) :
      JobStep prims secrets history { history with job := { history.job with encrypted := encrypted } }
  | backup {cfg : UploadConfig} {chunks : List Bytes} {catalog : Catalog}
      {state : UploadSystem (List Bytes × Catalog)}
      (hprims : cfg.prims = prims) (hcrypt : forJob secrets history.job = .ok cfg.crypt)
      (hprevious : history.PreviousOf cfg)
      (hreach : UploadReaches cfg chunkFeed (chunks, catalog) state) :
      JobStep prims secrets history (history.record chunks state.up.trace)

def JobReaches (prims : Primitives) (secrets : Secrets) (job : Job) (history : JobHistory) :
    Prop :=
  Relation.ReflTransGen (JobStep prims secrets) (JobHistory.new job) history

/-- The server returns a snapshot's index and the chunks it was sent. -/
structure ServesSnapshot (prims : Primitives) (history : JobHistory) (snapshot : Snapshot)
    (archiveName : String) (client : ReaderClient) : Prop where
  chunk : ∀ position digest, (∃ blob, (digest, blob) ∈ history.blobs) →
    ∃ blob, (digest, blob) ∈ history.blobs ∧ client.downloadChunk position digest = .ok blob
  index : ∃ builder : DynamicIndexBuilder,
    client.download archiveName = .ok (builder.serialize prims) ∧
      builder.entries.map Prod.snd = snapshot.digests

def cryptOf (key : CryptConfig) : Bool → Option CryptConfig
  | true => some key
  | false => none

/-- Each of these contents, with the key and without. -/
def inPlay (key : CryptConfig) (contents : List Bytes) : List (Option CryptConfig × Bytes) :=
  contents.flatMap fun data => [(none, data), (some key, data)]

theorem mem_inPlay {key : CryptConfig} {contents : List Bytes} {data : Bytes}
    (hdata : data ∈ contents) (encrypted : Bool) :
    (cryptOf key encrypted, data) ∈ inPlay key contents := by
  refine mem_flatMap.mpr ⟨data, hdata, ?_⟩
  cases encrypted <;> simp [cryptOf]

theorem forJob_ok {secrets : Secrets} {job : Job} {key : CryptConfig} {crypt : Option CryptConfig}
    (hkey : loadConfig secrets job.id = .ok (some key)) (h : forJob secrets job = .ok crypt) : crypt = cryptOf key job.encrypted := by
  unfold forJob at h
  cases hflag : job.encrypted with
  | false =>
    simp only [hflag, Bool.false_eq_true, if_false, Except.ok.injEq] at h
    exact h.symm
  | true =>
    simp only [hflag, if_true, hkey, Except.ok.injEq] at h
    exact h.symm

/-- What holds in every history: the stored blobs decode under the key, and every
digest a snapshot lists is that of a chunk of its stream and has a blob. -/
structure JobInv (prims : Primitives) (key : CryptConfig) (jobId : String)
    (history : JobHistory) : Prop where
  id : history.job.id = jobId
  blobs : ∀ entry ∈ history.blobs, ∃ encrypted, ∃ data ∈ history.contents,
    entry.1 = chunkDigest prims (cryptOf key encrypted) data ∧
      decodeBlob prims entry.2 (some key) = .ok data
  snapshots : ∀ snapshot ∈ history.snapshots,
    snapshot.digests = snapshot.chunks.map (chunkDigest prims (cryptOf key snapshot.encrypted)) ∧
      snapshot.chunks ⊆ history.contents ∧
      ∀ digest ∈ snapshot.digests, ∃ blob, (digest, blob) ∈ history.blobs

section Invariant

variable {prims : Primitives} {secrets : Secrets} {key : CryptConfig} {jobId : String}
  {history after : JobHistory}

theorem acceptedChunk_eq_some {event : Event} {entry : Digest × Bytes}
    (h : acceptedChunk event = some entry) :
    ∃ wid len, event = .request (.uploadDynamicChunk wid entry.1 len entry.2) (.ok ()) := by
  unfold acceptedChunk at h
  split at h
  case h_1 wid digest len encoded =>
    cases h
    exact ⟨wid, len, rfl⟩
  case h_2 => exact nomatch h

theorem isFinish_eq_true {event : Event} (h : isFinish event = true) :
    event = .request .finish (.ok ()) := by
  unfold isFinish at h
  split at h
  · rfl
  · exact nomatch h

/-- What is stored of a chunk decodes under the job's key, with the flag on or
off: a plain blob is decoded without looking at the key. -/
theorem decodeBlob_encodeFor_cryptOf (hlaw : prims.Lawful) {encrypted compress : Bool}
    {random : Except String (FixedBytes 16)} {data blob : Bytes}
    (h : encodeFor prims (cryptOf key encrypted) compress random data = .ok blob) :
    decodeBlob prims blob (some key) = .ok data := by
  cases encrypted with
  | false => exact decodeBlob_encodeFor_none hlaw h (some key)
  | true => exact decodeBlob_encodeFor_some hlaw h

theorem JobHistory.PreviousOf.known {cfg : UploadConfig} (h : history.PreviousOf cfg)
    {digest : Digest} (hdig : digest ∈ cfg.knownFromPrevious) :
    ∃ snapshot ∈ history.snapshots, digest ∈ snapshot.digests := by
  unfold UploadConfig.knownFromPrevious at hdig
  rcases h with hnone | ⟨snapshot, hsnapshot, builder, hprev, hdigs⟩
  · simp [hnone] at hdig
  · refine ⟨snapshot, hsnapshot, ?_⟩
    simp only [hprev, parse_serialize] at hdig
    rw [← hdigs]
    exact hdig

theorem JobInv.backup (hlaw : prims.Lawful) (h : JobInv prims key jobId history)
    {cfg : UploadConfig} {chunks : List Bytes} {catalog : Catalog}
    {state : UploadSystem (List Bytes × Catalog)} (hprims : cfg.prims = prims)
    (hcrypt : cfg.crypt = cryptOf key history.job.encrypted) (hprev : history.PreviousOf cfg)
    (hreach : UploadReaches cfg chunkFeed (chunks, catalog) state) :
    JobInv prims key jobId (history.record chunks state.up.trace) := by
  subst hprims
  obtain ⟨hfed, hlast⟩ := chunkFeed_emitted hreach.feedRun
  have hemit : state.feed.emitted ⊆ chunks := hfed ▸ subset_append_left _ _
  refine ⟨h.id, fun entry hentry => ?_, fun snapshot hsnapshot => ?_⟩
  · rcases mem_append.mp hentry with hold | hnew
    · obtain ⟨encrypted, data, hdata, hentry⟩ := h.blobs entry hold
      exact ⟨encrypted, data, mem_append_left _ hdata, hentry⟩
    -- A blob of this run encodes a chunk of the stream, under the key that the flag gives.
    · obtain ⟨event, hevent, haccepted⟩ := mem_filterMap.mp hnew
      obtain ⟨wid, len, rfl⟩ := acceptedChunk_eq_some haccepted
      obtain ⟨-, -, data, hdata, random, hdig, -, henc⟩ := hreach.inv.tasks.sent _ _ _ _ _ hevent
      rw [hcrypt] at henc
      refine ⟨history.job.encrypted, data, mem_append_right _ (hemit hdata), ?_,
        decodeBlob_encodeFor_cryptOf hlaw henc⟩
      rw [hdig, ← hcrypt]
      rfl
  · rcases mem_append.mp hsnapshot with hold | hnew
    · obtain ⟨hdigs, hchs, hblobs⟩ := h.snapshots snapshot hold
      refine ⟨hdigs, fun data hdata => mem_append_left _ (hchs hdata), ?_⟩
      intro digest hdig
      obtain ⟨blob, hblob⟩ := hblobs digest hdig
      exact ⟨blob, mem_append_left _ hblob⟩
    · split at hnew
      case isFalse => exact absurd hnew not_mem_nil
      case isTrue hfinished =>
        obtain rfl := mem_singleton.mp hnew
        obtain ⟨event, hevent, hfin⟩ := any_eq_true.mp hfinished
        obtain rfl := isFinish_eq_true hfin
        -- `finish` was accepted, so the source ended well and the index lists the whole stream.
        obtain ⟨hexit, hidx, -, hdigs, -, -, hsrcs⟩ := hreach.inv.closed hevent (Or.inl rfl)
        rw [hlast hexit, append_nil] at hfed
        rw [hidx, hfed] at hdigs hsrcs
        have hsame : sentDigests state.up.trace =
            chunks.map (chunkDigest cfg.prims (cryptOf key history.job.encrypted)) := by
          rw [hdigs, ← hcrypt]
          rfl
        refine ⟨hsame, subset_append_right _ _, fun digest hdig => ?_⟩
        rw [hdigs] at hdig
        obtain ⟨data, hdata, rfl⟩ := mem_map.mp hdig
        rcases hsrcs data hdata with hknown | ⟨random, blob, -, hsent⟩
        -- A reused chunk is listed by an older snapshot, whose blobs are still there.
        · obtain ⟨older, holder, hlist⟩ := hprev.known (hreach.known_subset hknown)
          obtain ⟨blob, hblob⟩ := (h.snapshots older holder).2.2 _ hlist
          exact ⟨blob, mem_append_left _ hblob⟩
        · exact ⟨blob, mem_append_right _ (mem_filterMap.mpr ⟨_, hsent, rfl⟩)⟩

theorem JobReaches.inv (hlaw : prims.Lawful) {job : Job}
    (hkey : loadConfig secrets job.id = .ok (some key))
    (hrun : JobReaches prims secrets job history) : JobInv prims key job.id history := by
  induction hrun with
  | refl => exact ⟨rfl, nofun, nofun⟩
  | tail _ hlast ih =>
    cases hlast with
    | setEncrypted => exact ⟨ih.id, ih.blobs, ih.snapshots⟩
    | backup hprims hcrypt hprev hreach =>
      refine ih.backup hlaw hprims (forJob_ok ?_ hcrypt) hprev hreach
      rw [ih.id]
      exact hkey

end Invariant

section Restore

variable {prims : Primitives} {secrets : Secrets} {key : CryptConfig} {jobId archiveName : String}
  {history : JobHistory} {snapshot : Snapshot} {client : ReaderClient}

section

variable (h : JobInv prims key jobId history)
  (hcollision : NoCollision prims (inPlay key history.contents))
  (hsnapshot : snapshot ∈ history.snapshots)
  (hserves : ServesSnapshot prims history snapshot archiveName client)

include h hcollision hsnapshot hserves

/-- With the key in hand a chunk of a snapshot is fetched exactly when the
snapshot was taken with the flag on: its blob decodes either way, but the digest
is then taken with the key. -/
theorem JobInv.fetchChunk_iff {data : Bytes} (hdata : data ∈ snapshot.chunks) (position : Nat)
    {found : Bytes} :
    client.fetchChunk prims (some key) position
        (chunkDigest prims (cryptOf key snapshot.encrypted) data) = .ok found ↔
      found = data ∧ snapshot.encrypted = true := by
  obtain ⟨hdigs, hchs, hblobs⟩ := h.snapshots snapshot hsnapshot
  obtain ⟨blob, hblob, hans⟩ := hserves.chunk position _
    (hblobs _ (hdigs ▸ mem_map.mpr ⟨data, hdata, rfl⟩))
  obtain ⟨encrypted, stored, hstored, hdig, hdec⟩ := h.blobs _ hblob
  -- The blob found may be an older one, but without collisions it holds the same chunk.
  obtain ⟨-, rfl⟩ := Prod.mk.inj (hcollision _ (mem_inPlay (hchs hdata) snapshot.encrypted)
    _ (mem_inPlay hstored encrypted) hdig)
  simp only [ReaderClient.fetchChunk, hans]
  change decodeAndVerifyChunk prims blob (some key) _ = .ok found ↔ _
  rw [decodeAndVerifyChunk_ok_iff, hdec, Except.ok.injEq]
  constructor
  -- The client verifies with the key it was given, so the digest listed is the keyed one.
  · rintro ⟨rfl, hsame⟩
    refine ⟨rfl, ?_⟩
    have hpair := hcollision _ (mem_inPlay (hchs hdata) true) _
      (mem_inPlay (hchs hdata) snapshot.encrypted) hsame
    cases hflag : snapshot.encrypted with
    | true => rfl
    | false =>
      rw [hflag] at hpair
      cases (Prod.mk.inj hpair).1
  · rintro ⟨rfl, hflag⟩
    rw [hflag]
    exact ⟨rfl, rfl⟩

theorem JobInv.restoreDynamicArchive_iff {bytes : Bytes} :
    client.restoreDynamicArchive prims archiveName (some key) = .ok bytes ↔
      bytes = snapshot.stream ∧ (snapshot.encrypted = true ∨ snapshot.chunks = []) := by
  obtain ⟨builder, hdown, hents⟩ := hserves.index
  have hfetch : ∀ data ∈ snapshot.chunks, ∀ position found,
      client.fetchChunk prims (some key) position
          (chunkDigest prims (cryptOf key snapshot.encrypted) data) = .ok found ↔
        found = data ∧ snapshot.encrypted = true :=
    fun data hdata position found => h.fetchChunk_iff hcollision hsnapshot hserves hdata position
  have hloop : client.restoreDynamicArchive prims archiveName (some key) =
      ReaderClient.restoreFrom (client.fetchChunk prims (some key)) 0
        (snapshot.chunks.map (chunkDigest prims (cryptOf key snapshot.encrypted))) [] := by
    simp only [ReaderClient.restoreDynamicArchive, archiveDigests_of_serialize hdown, hents,
      (h.snapshots snapshot hsnapshot).1]
    rfl
  rw [hloop, restoreFrom_ok_iff]
  constructor
  · rintro ⟨contents, ⟨hlen, hcont⟩, rfl⟩
    rw [length_map] at hlen
    have hat : ∀ i (hleft : i < contents.length) (hright : i < snapshot.chunks.length),
        contents[i] = snapshot.chunks[i] ∧ snapshot.encrypted = true := by
      intro i hleft hright
      refine (hfetch _ (getElem_mem hright) (0 + i) _).mp
        (hcont i _ _ ?_ (getElem?_eq_getElem hleft))
      rw [getElem?_map, getElem?_eq_getElem hright]
      rfl
    have hsame : contents = snapshot.chunks :=
      ext_getElem hlen fun i hleft hright => (hat i hleft hright).1
    refine ⟨by rw [nil_append, hsame, Snapshot.stream], ?_⟩
    cases hchs : snapshot.chunks with
    | nil => exact .inr rfl
    | cons =>
      have hpos : 0 < snapshot.chunks.length := by simp [hchs]
      exact .inl (hat 0 (hlen ▸ hpos) hpos).2
  · rintro ⟨rfl, hflag⟩
    refine ⟨snapshot.chunks, ⟨by simp, fun i digest data hdig hdata => ?_⟩, by
      simp [Snapshot.stream]⟩
    have hmem := mem_of_getElem? hdata
    obtain rfl : chunkDigest prims (cryptOf key snapshot.encrypted) data = digest := by
      rw [getElem?_map, hdata] at hdig
      exact Option.some.inj hdig
    refine (hfetch data hmem (0 + i) data).mpr ⟨rfl, hflag.resolve_right fun hnil => ?_⟩
    rw [hnil] at hmem
    exact absurd hmem not_mem_nil

end

/-- The snapshots of a job with one stored key are restored to their streams
exactly when they were taken with the flag on, or have no chunks at all. -/
theorem restoreJob_eq_stream_iff (hlaw : prims.Lawful) {job : Job}
    (hkey : loadConfig secrets job.id = .ok (some key))
    (hrun : JobReaches prims secrets job history)
    (hcollision : NoCollision prims (inPlay key history.contents))
    (hsnapshot : snapshot ∈ history.snapshots)
    (hserves : ServesSnapshot prims history snapshot archiveName client) :
    restoreJob prims secrets history.job client archiveName = .ok snapshot.stream ↔
      snapshot.encrypted = true ∨ snapshot.chunks = [] := by
  have hinv := hrun.inv hlaw hkey
  have hiff := @JobInv.restoreDynamicArchive_iff _ _ _ _ _ _ _ hinv hcollision hsnapshot hserves
  have hload : loadConfig secrets history.job.id = .ok (some key) := by
    rw [hinv.id]
    exact hkey
  simp only [restoreJob, hload]
  cases hrestore : client.restoreDynamicArchive prims archiveName (some key) with
  | ok =>
    obtain ⟨rfl, hflag⟩ := hiff.mp hrestore
    exact ⟨fun _ => hflag, fun _ => rfl⟩
  | error =>
    refine ⟨nofun, fun hflag => ?_⟩
    exact nomatch hrestore.symm.trans (hiff.mpr ⟨rfl, hflag⟩)

end Restore

/-! ### A history

A job with a stored key backs up the stream `a` with the flag on, the flag is
turned off, and the stream is backed up again.  The values are the real ones. -/

def sampleKey : CryptConfig := { encKey := FixedBytes.ofBytes 32 (List.replicate 32 1) }

def sampleIdKey : FixedBytes 32 := FixedBytes.ofBytes 32
  [66, 22, 121, 216, 212, 57, 209, 203, 242, 169, 21, 144, 74, 145, 209, 186, 32, 183, 230, 65,
    249, 200, 70, 55, 139, 137, 152, 100, 24, 159, 243, 4]

/-- The keyed digest of `a`. -/
def sampleKeyedDigest : Digest := FixedBytes.ofBytes 32
  [230, 167, 225, 223, 132, 169, 205, 160, 117, 19, 77, 123, 170, 150, 184, 96, 118, 220, 43, 163,
    129, 176, 214, 88, 239, 51, 218, 229, 127, 183, 235, 102]

/-- SHA-256 of the entries of the encrypted snapshot's index. -/
def sampleKeyedCsum : Digest := FixedBytes.ofBytes 32
  [48, 229, 31, 86, 160, 17, 218, 212, 189, 50, 85, 90, 216, 179, 176, 146, 98, 132, 54, 36, 251,
    182, 199, 22, 92, 219, 34, 50, 111, 228, 63, 194]

/-- The tag of `a` under the sample key and a zero IV. -/
def sampleTag : FixedBytes 16 := FixedBytes.ofBytes 16
  [105, 211, 108, 199, 172, 243, 63, 122, 182, 101, 5, 28, 155, 113, 64, 104]

def sampleIv : FixedBytes 16 := FixedBytes.ofBytes 16 (List.replicate 16 0)

/-- The primitives on the inputs of the sample history. -/
def jobPrimitives : Primitives where
  sha256 input :=
    if input = [97] then sampleDigestA
    else if input = [97] ++ sampleIdKey.toBytes then sampleKeyedDigest
    else if input = entryBytes (1, sampleDigestA) then samplePreviousCsum
    else sampleKeyedCsum
  crc32 payload := if payload = [97] then 3904355907 else 3484811241
  zstdEncode payload := payload
  zstdDecode frame := .ok frame
  idKey key := if key = sampleKey.encKey then sampleIdKey else key
  aesGcmEncrypt key iv plain :=
    if key = sampleKey.encKey ∧ iv = sampleIv ∧ plain = [97] then some ([16], sampleTag) else none
  aesGcmDecrypt key iv cipher tag :=
    if key = sampleKey.encKey ∧ iv = sampleIv ∧ cipher = [16] ∧ tag = sampleTag then some [97]
    else none

theorem jobPrimitives_lawful : jobPrimitives.Lawful where
  zstd_roundtrip _ := rfl
  aesGcm_roundtrip key iv plain cipher tag h := by
    simp only [jobPrimitives] at h ⊢
    split at h
    case isTrue hinput =>
      cases h
      rw [if_pos ⟨hinput.1, hinput.2.1, rfl, rfl⟩, hinput.2.2]
    case isFalse => exact nomatch h

def sampleSecrets : Secrets where
  get name :=
    if name = "enc:job1" then .ok (some "AQEBAQEBAQEBAQEBAQEBAQEBAQEBAQEBAQEBAQEBAQE=") else .ok none
  base64Decode _ := .ok (List.replicate 32 1)

theorem sampleSecrets_key : loadConfig sampleSecrets "job1" = .ok (some sampleKey) := rfl

def sampleJobConfig (crypt : Option CryptConfig) (previous : Option Bytes) (json : Bytes) :
    UploadConfig :=
  { sampleConfig with
    prims := jobPrimitives, totalBytes := 1, crypt := crypt, previous := previous
    manifestJson := fun _ => .ok json }

variable {crypt : Option CryptConfig}

attribute [local irreducible] UploadConfig.knownFromPrevious in
theorem sampleJob_run {previous : Option Bytes} {json : Bytes} {blob : Bytes}
    (hnew : chunkDigest jobPrimitives crypt [97] ∉ (sampleJobConfig crypt previous json).knownFromPrevious)
    (hblob : encodeFor jobPrimitives crypt false (.ok sampleIv) [97] = .ok blob) :
    ∃ state, UploadReaches (sampleJobConfig crypt previous json) chunkFeed ([[97]], .absent) state ∧
      state.up.trace.filterMap acceptedChunk = [(chunkDigest jobPrimitives crypt [97], blob)] ∧
      sentDigests state.up.trace = [chunkDigest jobPrimitives crypt [97]] ∧
      state.up.trace.any isFinish = true := by
  have hchunk : chunkFeed.chunk ([[97]], .absent) [97] ([], .absent) := ⟨rfl, rfl⟩
  have hends : chunkFeed.ends ([], .absent) .ok ([], .absent) := ⟨rfl, fun _ => rfl⟩
  have hperm : 0 < 2 := by decide
  have hroom : 0 < chunkChannelCapacity := by decide
  refine ⟨_,
    .head (.upload rfl (.connected rfl)) <|
    .head (.upload rfl (.fetchedPrevious rfl)) <|
    .head (.upload rfl (.createdIndex 1 (FixedBytes.ofBytes 16 []) rfl)) <|
    .head (.chunk rfl rfl hroom rfl hchunk) <|
    .head (.ends rfl rfl hends) <|
    .head (.upload rfl (.receivedNew rfl rfl hnew)) <|
    .head (.upload rfl (.spawned rfl hperm)) <|
    .head (.upload rfl (.pushed rfl)) <|
    .head (.upload rfl (.taskMoved (nil_append _).symm (.encoded rfl hblob))) <|
    .head (.upload rfl (.streamEnded rfl rfl (by simp))) <|
    .head (.upload rfl (.taskMoved (nil_append _).symm (.replied (.ok ()) rfl))) <|
    .head (.upload rfl (.reaped (Or.inr rfl) (nil_append _).symm rfl)) <|
    .head (.upload rfl (.joined rfl rfl)) <|
    .head (.upload rfl (.accepted rfl)) <|
    .head (.upload rfl (.appended rfl)) <|
    .head (.upload rfl (.chunkerFinished rfl rfl)) <|
    .head (.upload rfl (.accepted rfl)) <|
    .head (.upload rfl (.catalogSkipped rfl (.inl rfl))) <|
    manifest_run rfl rfl rfl, ?_, ?_, ?_⟩
  · rfl
  · rfl
  · rfl

/-- The encrypted blob of `a`. -/
def sampleEncryptedBlob : Bytes :=
  magicEncrypted ++ u32ToLe 3484811241 ++ sampleIv.toBytes ++ sampleTag.toBytes ++ [16]

def sampleJobIndex (digest : Digest) : DynamicIndexBuilder :=
  (DynamicIndexBuilder.new 1700000000 (FixedBytes.ofBytes 16 [])).push 1 digest

/-- The sample history: an encrypted snapshot, the flag turned off, and a plain
snapshot. -/
theorem sampleHistory : ∃ history, JobReaches jobPrimitives sampleSecrets ⟨"job1", true⟩ history ∧
    history.blobs = [(sampleKeyedDigest, sampleEncryptedBlob),
      (sampleDigestA, encodeUncompressed jobPrimitives [97])] ∧
    history.snapshots = [⟨true, [[97]], [sampleKeyedDigest]⟩, ⟨false, [[97]], [sampleDigestA]⟩] ∧
    history.contents = [[97], [97]] := by
  have hkeyed : chunkDigest jobPrimitives (some sampleKey) [97] = sampleKeyedDigest := by decide
  have hplain : chunkDigest jobPrimitives none [97] = sampleDigestA := rfl
  have hfirstBlob : encodeFor jobPrimitives (some sampleKey) false (.ok sampleIv) [97] =
      .ok sampleEncryptedBlob := rfl
  have hnone : ∀ json, (sampleJobConfig (some sampleKey) none json).knownFromPrevious = [] :=
    fun _ => rfl
  have hknown : ∀ json, (sampleJobConfig none
      (some ((sampleJobIndex sampleKeyedDigest).serialize jobPrimitives)) json).knownFromPrevious =
        [sampleKeyedDigest] := by
    simp only [UploadConfig.knownFromPrevious, sampleJobConfig, parse_serialize]
    exact fun _ => rfl
  obtain ⟨first, hfirst, hblobs, hdigs, hfin⟩ :=
    @sampleJob_run (some sampleKey) none
      (sampleManifestText "encrypt" "1"
        "30e51f56a011dad4bd32555ad8b3b09262843624fbb6c7165cdb22326fe43fc2") _ (by rw [hnone]; exact not_mem_nil) hfirstBlob
  obtain ⟨second, hsnd, hblobs', hdigs', hfin'⟩ :=
    @sampleJob_run none (some ((sampleJobIndex sampleKeyedDigest).serialize jobPrimitives))
      (sampleManifestText "none" "1"
        "cd23d09c4cb76daf5a50f172c31576b20a8e77c27dbe9adca5afcc5d8a1ba164")
      (encodeUncompressed jobPrimitives [97])
      (by rw [hknown, hplain]; decide) rfl
  rw [hkeyed] at hblobs hdigs
  rw [hplain] at hblobs' hdigs'
  refine ⟨_,
    .head (.backup rfl rfl (.inl rfl) hfirst) <|
    .head (.setEncrypted false) <|
    .single (.backup rfl rfl (.inr ⟨⟨true, [[97]], [sampleKeyedDigest]⟩, ?_,
      sampleJobIndex sampleKeyedDigest, rfl, rfl⟩) hsnd), ?_, ?_, rfl⟩
  · simp only [JobHistory.record, hfin, hdigs]
    exact mem_cons_self
  · simp only [JobHistory.record, hblobs, hblobs']
    rfl
  · simp only [JobHistory.record, hfin, hfin', hdigs, hdigs']
    rfl

/-- A server that returns the blobs of the sample history. -/
def sampleJobClient (digest : Digest) : ReaderClient where
  download _ := .ok ((sampleJobIndex digest).serialize jobPrimitives)
  downloadChunk _ digest :=
    if digest = sampleKeyedDigest then .ok sampleEncryptedBlob
    else .ok (encodeUncompressed jobPrimitives [97])

theorem sampleJobClient_serves {history : JobHistory}
    (hblobs : history.blobs = [(sampleKeyedDigest, sampleEncryptedBlob),
      (sampleDigestA, encodeUncompressed jobPrimitives [97])])
    (encrypted : Bool) (digest : Digest) :
    ServesSnapshot jobPrimitives history ⟨encrypted, [[97]], [digest]⟩ "db.didx"
      (sampleJobClient digest) where
  index := ⟨sampleJobIndex digest, rfl, rfl⟩
  chunk position wanted hhas := by
    have hother : sampleDigestA ≠ sampleKeyedDigest := by decide
    obtain ⟨blob, hblob⟩ := hhas
    refine ⟨blob, hblob, ?_⟩
    rw [hblobs] at hblob
    rcases mem_cons.mp hblob with hfirst | hrest
    · cases hfirst
      rfl
    · obtain ⟨rfl, rfl⟩ := Prod.mk.inj (mem_singleton.mp hrest)
      simp only [sampleJobClient, if_neg hother]

theorem sampleHistory_noCollision :
    NoCollision jobPrimitives (inPlay sampleKey [[97], [97]]) := by
  unfold NoCollision
  decide

/-- The plain snapshot of the sample history is not restored: its chunk fails
verification against the keyed digest. -/
theorem restoreJob_plain_snapshot_fails : ∃ history snapshot client,
    JobReaches jobPrimitives sampleSecrets ⟨"job1", true⟩ history ∧
      loadConfig sampleSecrets "job1" = .ok (some sampleKey) ∧
      snapshot ∈ history.snapshots ∧ snapshot.stream = [97] ∧
      ServesSnapshot jobPrimitives history snapshot "db.didx" client ∧
      restoreJob jobPrimitives sampleSecrets history.job client "db.didx" ≠
        .ok snapshot.stream := by
  obtain ⟨history, hrun, hblobs, hsnapshots, hcontents⟩ := sampleHistory
  have hinv := hrun.inv jobPrimitives_lawful sampleSecrets_key
  have hserves := sampleJobClient_serves hblobs false sampleDigestA
  have hmem : (⟨false, [[97]], [sampleDigestA]⟩ : Snapshot) ∈ history.snapshots := by
    simp [hsnapshots]
  refine ⟨history, _, _, hrun, sampleSecrets_key, hmem, rfl, hserves, fun hok => ?_⟩
  have hcollision := sampleHistory_noCollision
  rw [← hcontents] at hcollision
  have hload : loadConfig sampleSecrets history.job.id = .ok (some sampleKey) := by
    rw [hinv.id]
    rfl
  simp only [restoreJob, hload] at hok
  split at hok
  case h_1 => exact nomatch hok
  case h_2 bytes hrestore =>
    rcases ((hinv.restoreDynamicArchive_iff hcollision hmem hserves).mp hrestore).2 with h | h
    · exact nomatch h
    · exact nomatch h

/-- The encrypted snapshot of the sample history is restored with the flag off. -/
theorem sampleHistory_restored : ∃ history,
    JobReaches jobPrimitives sampleSecrets ⟨"job1", true⟩ history ∧
      restoreJob jobPrimitives sampleSecrets history.job (sampleJobClient sampleKeyedDigest)
        "db.didx" = .ok [97] := by
  obtain ⟨history, hrun, hblobs, hsnapshots, hcontents⟩ := sampleHistory
  have hcollision := sampleHistory_noCollision
  rw [← hcontents] at hcollision
  have hmem : (⟨true, [[97]], [sampleKeyedDigest]⟩ : Snapshot) ∈ history.snapshots := by
    simp [hsnapshots]
  exact ⟨history, hrun, (restoreJob_eq_stream_iff jobPrimitives_lawful sampleSecrets_key hrun
    hcollision hmem (sampleJobClient_serves hblobs true sampleKeyedDigest)).mpr (.inl rfl)⟩

end PbsGui.Engine
