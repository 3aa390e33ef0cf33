import Mathlib.Logic.Relation
import PbsGui.Client.Blob
import PbsGui.Client.Index

/-!
# The deduplicating upload, as a transition system

`backup_dynamic_reader` (`session.rs`) runs four kinds of task at once: a chunker thread that
fills a bounded channel, a main loop that empties it and builds the index, one task for each
chunk that is being uploaded, and whatever produces the source.

* `Feed` is the producer seen through the chunker, with the deferred catalog blob.
* `Upload` holds the locals of the function, its channel and its tasks, and the trace of the
  requests with their replies.
* `UploadStep` is one step of the main loop or of a task, and `SystemStep` one step of the
  whole system.

A cancelled backup is a prefix of a run.
-/

namespace PbsGui.Client

open Lib

/-- The part of the session parameters that reaches the archive. -/
structure SessionParams where
  backupType : String
  backupId : String
  backupTime : Int64

/-- One archive within a snapshot. -/
structure FileEntry where
  filename : String
  cryptMode : String
  size : UInt64
  csum : String
  deriving DecidableEq

/-- An archive entry, marking it encrypted when a key is in use. -/
def FileEntry.withCrypt (filename : String) (size : UInt64) (indexCsum : Digest)
    (encrypted : Bool) : FileEntry :=
  { filename := filename
    cryptMode := if encrypted then "encrypt" else "none"
    size := size
    csum := hexEncode indexCsum.toBytes }

/-- A backup snapshot manifest; its free-form part is always the empty object. -/
structure BackupManifest where
  backupType : String
  backupId : String
  backupTime : Int64
  files : List FileEntry
  deriving DecidableEq

def manifestBlobName : String := "index.json.blob"

/-- Outcome of a deduplicated dynamic backup. -/
structure BackupStats where
  chunks : UInt64
  reused : UInt64
  uploaded : UInt64
  bytes : UInt64
  uploadedBytes : UInt64
  storedBytes : UInt64
  csum : Digest
  deriving DecidableEq

/-- A live snapshot of a backup in progress. -/
structure BackupProgress where
  bytesDone : UInt64
  totalBytes : UInt64
  chunks : UInt64
  reused : UInt64
  uploaded : UInt64
  uploadedBytes : UInt64
  reusedBytes : UInt64
  storedBytes : UInt64
  deriving DecidableEq

/-- The arguments of `backup_dynamic_reader`, with what it reaches outside of
itself: the primitives, the JSON encoder of the manifest, the pipeline width and
the server's answer about the previous snapshot. -/
structure UploadConfig where
  prims : Primitives
  params : SessionParams
  archiveName : String
  dedupWithPrevious : Bool
  compress : Bool
  totalBytes : UInt64
  crypt : Option CryptConfig
  manifestJson : BackupManifest → Except String Bytes
  pipelineWidth : Nat
  /-- What `download_previous` answers: the previous index file, if there is one. -/
  previous : Option Bytes

namespace UploadConfig

/-- The digest the chunker thread computes for a chunk. -/
def digest (cfg : UploadConfig) (data : Bytes) : Digest :=
  chunkDigest cfg.prims cfg.crypt data

/-- The digests of the previous index; none when it does not parse. -/
def knownFromPrevious (cfg : UploadConfig) : List Digest :=
  match cfg.previous with
  | none => []
  | some file =>
    match DynamicIndex.parse file with
    | .ok index => index.digests
    | .error _ => []

end UploadConfig

/-- How many index entries one append request carries at most. -/
def appendBatch : Nat := 64

/-- Capacity of the channel between the chunker thread and the main loop. -/
def chunkChannelCapacity : Nat := 8

/-- The requests of a backup session once its index writer exists. -/
inductive Request
  | uploadDynamicChunk (wid : UInt64) (digest : Digest) (plaintextLen : UInt64) (encoded : Bytes)
  | appendDynamicIndex (wid : UInt64) (digests : List Digest) (offsets : List UInt64)
  | closeDynamicIndex (wid chunkCount size : UInt64) (csum : Digest)
  | uploadBlob (fileName : String) (blob : Bytes)
  | finish
  deriving DecidableEq

/-- What a run leaves behind: requests with their replies, and upload tasks that
failed before they sent anything. -/
inductive Event
  | request (request : Request) (reply : Except PbsError Unit)
  | uploadFailed (digest : Digest) (error : PbsError)

namespace Event

/-- The event belongs to an upload task and not to the main loop. -/
def IsUpload : Event → Prop
  | .request (.uploadDynamicChunk ..) _ => True
  | .request _ _ => False
  | .uploadFailed .. => True

def FailedUpload : Event → Prop
  | .request (.uploadDynamicChunk ..) (.error _) => True
  | .request _ _ => False
  | .uploadFailed .. => True

end Event

/-- The variables the main loop updates once for each chunk. -/
structure LoopState where
  builder : DynamicIndexBuilder
  allDigests : List Digest
  allOffsets : List UInt64
  endOffset : UInt64
  chunks : UInt64
  reused : UInt64
  uploaded : UInt64
  uploadedBytes : UInt64
  reusedBytes : UInt64

namespace LoopState

def initial (ctime : Int64) (uuid : FixedBytes 16) : LoopState :=
  { builder := DynamicIndexBuilder.new ctime uuid
    allDigests := []
    allOffsets := []
    endOffset := 0
    chunks := 0
    reused := 0
    uploaded := 0
    uploadedBytes := 0
    reusedBytes := 0 }

/-- A received chunk that the server already has. -/
def countReused (len : UInt64) (locals : LoopState) : LoopState :=
  { locals with
    endOffset := locals.endOffset + len
    chunks := locals.chunks + 1
    reused := locals.reused + 1
    reusedBytes := locals.reusedBytes + len }

/-- A received chunk that has to be uploaded, up to the wait for a permit. -/
def countNew (len : UInt64) (locals : LoopState) : LoopState :=
  { locals with
    endOffset := locals.endOffset + len
    chunks := locals.chunks + 1
    uploadedBytes := locals.uploadedBytes + len }

/-- The upload task of the current chunk has been spawned. -/
def countSpawned (locals : LoopState) : LoopState :=
  { locals with uploaded := locals.uploaded + 1 }

/-- The end of the loop body: the chunk enters the index. -/
def pushEntry (startOffset : UInt64) (digest : Digest) (locals : LoopState) : LoopState :=
  { locals with
    builder := locals.builder.push locals.endOffset digest
    allDigests := locals.allDigests ++ [digest]
    allOffsets := locals.allOffsets ++ [startOffset] }

/-- The batches in which the index is appended. -/
def batches (locals : LoopState) : List (List Digest × List UInt64) :=
  (pieces appendBatch locals.allDigests).zip (pieces appendBatch locals.allOffsets)

end LoopState

/-- The chunk the loop body is at work on, with the offset it starts at. -/
structure CurrentChunk where
  digest : Digest
  data : Bytes
  startOffset : UInt64

/-- Where an upload task stands. -/
inductive TaskStage
  | encoding
  | sending (encoded : Bytes)
  | finished (result : Except PbsError Unit)

/-- A spawned upload task with the data it owns. -/
structure UploadTask where
  digest : Digest
  data : Bytes
  stage : TaskStage

/-- The task still holds its permit: it is released when the task ends. -/
def UploadTask.holdsPermit (task : UploadTask) : Bool :=
  match task.stage with
  | .finished _ => false
  | _ => true

/-- One step of an upload task: the task afterwards, the events it leaves and
the number of encoded bytes it adds to the shared counter. -/
inductive TaskStep (cfg : UploadConfig) (wid : UInt64) (task : UploadTask) :
    UploadTask → List Event → UInt64 → Prop
  | encoded {random : Except String (FixedBytes 16)} {blob : Bytes}
      (hstage : task.stage = .encoding)
      (hblob : encodeFor cfg.prims cfg.crypt cfg.compress random task.data = .ok blob) :
      TaskStep cfg wid task { task with stage := .sending blob } [] (UInt64.ofNat blob.length)
  | encodeFailed {random : Except String (FixedBytes 16)} {error : PbsError}
      (hstage : task.stage = .encoding)
      (herror : encodeFor cfg.prims cfg.crypt cfg.compress random task.data = .error error) :
      TaskStep cfg wid task { task with stage := .finished (.error error) }
        [.uploadFailed task.digest error] 0
  /-- A panic of the blocking encoder or of the task itself; the join error
  becomes a protocol error with one of two prefixes. -/
  | panicked {text : String}
      (hstage : task.holdsPermit = true) :
      TaskStep cfg wid task { task with stage := .finished (.error (.protocol text)) }
        [.uploadFailed task.digest (.protocol text)] 0
  | replied {blob : Bytes} (reply : Except PbsError Unit)
      (hstage : task.stage = .sending blob) :
      TaskStep cfg wid task { task with stage := .finished reply }
        [.request (.uploadDynamicChunk wid task.digest (UInt64.ofNat task.data.length) blob) reply]
        0

/-! ### The main loop -/

/-- Where the main task stands. -/
inductive Phase
  | connecting
  | fetchingPrevious
  | creatingIndex
  | receiving
  | acquiring (current : CurrentChunk)
  | reaping (current : CurrentChunk)
  | joining
  | appending (rest : List (List Digest × List UInt64))
  | awaitingChunker
  | closing
  | awaitingCatalog
  | sendingCatalog (name : String) (blob : Bytes)
  | encodingManifest
  | sendingManifest (blob : Bytes)
  | finishing
  | finished

/-- The chunker thread exists from the creation of the index on. -/
def Phase.started : Phase → Bool
  | .connecting | .fetchingPrevious | .creatingIndex => false
  | _ => true

/-- How the chunker thread ended. -/
inductive ChunkerExit
  | ok
  | ioError (error : IoError)
  | panicked (text : String)

/-- What the main task finds in the catalog channel. -/
inductive Catalog
  /-- No catalog was passed in. -/
  | absent
  | pending
  | sent (name : String) (content : Bytes)
  /-- The sender was dropped without sending. -/
  | dropped

/-- The state of one call of `backup_dynamic_reader`.

`indexed` lists the contents of the chunks whose loop body has finished, oldest
first; no step reads it. -/
structure Upload where
  phase : Phase
  result : Option (Except PbsError BackupStats)
  known : List Digest
  wid : UInt64
  locals : LoopState
  storedBytes : UInt64
  queue : List (Digest × Bytes)
  inflight : List UploadTask
  progress : List BackupProgress
  trace : List Event
  indexed : List Bytes

namespace Upload

/-- The state at the call; `wid` and `locals` are set when the index is created. -/
def initial : Upload :=
  { phase := .connecting
    result := none
    known := []
    wid := 0
    locals := LoopState.initial 0 (FixedBytes.ofBytes 16 [])
    storedBytes := 0
    queue := []
    inflight := []
    progress := []
    trace := []
    indexed := [] }

/-- The size the builder reports, as it goes into the close request. -/
def size (up : Upload) : UInt64 := up.locals.builder.totalSize

def csum (cfg : UploadConfig) (up : Upload) : Digest := up.locals.builder.indexCsum cfg.prims

def manifest (cfg : UploadConfig) (up : Upload) : BackupManifest :=
  { backupType := cfg.params.backupType
    backupId := cfg.params.backupId
    backupTime := cfg.params.backupTime
    files := [FileEntry.withCrypt cfg.archiveName up.size (up.csum cfg) cfg.crypt.isSome] }

/-- The statistics returned after `finish`. -/
def stats (cfg : UploadConfig) (up : Upload) : BackupStats :=
  { chunks := up.locals.chunks
    reused := up.locals.reused
    uploaded := up.locals.uploaded
    bytes := up.size
    uploadedBytes := up.locals.uploadedBytes
    storedBytes := up.storedBytes
    csum := up.csum cfg }

def appendRequest (wid : UInt64) (batch : List Digest × List UInt64) : Request :=
  .appendDynamicIndex wid batch.1 batch.2

/-- The close request of the index built so far. -/
def closeRequest (cfg : UploadConfig) (up : Upload) : Request :=
  .closeDynamicIndex up.wid (UInt64.ofNat up.locals.builder.entryCount) up.size (up.csum cfg)

/-- The request the main task is waiting for, and where a success takes it. -/
def pendingRequest (cfg : UploadConfig) (up : Upload) : Option (Request × Phase) :=
  match up.phase with
  | .appending (batch :: rest) => some (appendRequest up.wid batch, .appending rest)
  | .closing => some (up.closeRequest cfg, .awaitingCatalog)
  | .sendingCatalog name blob => some (.uploadBlob name blob, .encodingManifest)
  | .sendingManifest blob => some (.uploadBlob manifestBlobName blob, .finishing)
  | .finishing => some (.finish, .finished)
  | _ => none

/-- The progress report made when a chunk enters the index. -/
def report (cfg : UploadConfig) (up : Upload) (locals : LoopState) : BackupProgress :=
  { bytesDone := locals.endOffset
    totalBytes := cfg.totalBytes
    chunks := locals.chunks
    reused := locals.reused
    uploaded := locals.uploaded
    uploadedBytes := locals.uploadedBytes
    reusedBytes := locals.reusedBytes
    storedBytes := up.storedBytes }

/-- The end of the loop body: the index entry, the progress report, and back to
the channel. -/
def pushCurrent (cfg : UploadConfig) (up : Upload) (locals : LoopState) (startOffset : UInt64)
    (digest : Digest) (data : Bytes) : Upload :=
  { up with
    phase := .receiving
    locals := locals.pushEntry startOffset digest
    progress := up.progress ++ [up.report cfg locals]
    indexed := up.indexed ++ [data] }

end Upload

/-- The ways the main task can return an error without a refused request. -/
inductive Fails (cfg : UploadConfig) (exit : Option ChunkerExit) (catalog : Catalog)
    (up : Upload) : PbsError → Prop
  /-- The connection, the previous index or the index writer was refused. -/
  | opening {error : PbsError} (hphase : up.phase.started = false) :
      Fails cfg exit catalog up error
  | upload {error : PbsError} {task : UploadTask}
      (hphase : (∃ current, up.phase = .reaping current) ∨ up.phase = .joining)
      (htask : task ∈ up.inflight)
      (hstage : task.stage = .finished (.error error)) :
      Fails cfg exit catalog up error
  | chunkerIo {error : IoError} (hphase : up.phase = .awaitingChunker)
      (hexit : exit = some (.ioError error)) :
      Fails cfg exit catalog up (.io error)
  | chunkerPanic {text : String} (hphase : up.phase = .awaitingChunker)
      (hexit : exit = some (.panicked text)) :
      Fails cfg exit catalog up (.protocol ("chunker task failed: " ++ text))
  | catalogEncode {random : Except String (FixedBytes 16)} {name : String} {content : Bytes}
      {error : PbsError}
      (hphase : up.phase = .awaitingCatalog)
      (hcatalog : catalog = .sent name content)
      (herror : encodeFor cfg.prims cfg.crypt cfg.compress random content = .error error) :
      Fails cfg exit catalog up error
  | manifestEncode {text : String} (hphase : up.phase = .encodingManifest)
      (herror : cfg.manifestJson (up.manifest cfg) = .error text) :
      Fails cfg exit catalog up (.protocol ("encoding manifest: " ++ text))

/-- One step of the main task or of an upload task.  `exit` is how the chunker
thread ended, if it has, and `catalog` what the catalog channel holds. -/
inductive UploadStep (cfg : UploadConfig) (exit : Option ChunkerExit) (catalog : Catalog)
    (up : Upload) : Upload → Prop
  | connected (hphase : up.phase = .connecting) :
      UploadStep cfg exit catalog up
        { up with phase := if cfg.dedupWithPrevious then .fetchingPrevious else .creatingIndex }
  | fetchedPrevious (hphase : up.phase = .fetchingPrevious) :
      UploadStep cfg exit catalog up
        { up with phase := .creatingIndex, known := cfg.knownFromPrevious }
  | createdIndex (wid : UInt64) (uuid : FixedBytes 16) (hphase : up.phase = .creatingIndex) :
      UploadStep cfg exit catalog up
        { up with
          phase := .receiving
          wid := wid
          locals := LoopState.initial cfg.params.backupTime uuid }
  | receivedKnown {digest : Digest} {data : Bytes} {rest : List (Digest × Bytes)}
      (hphase : up.phase = .receiving)
      (hqueue : up.queue = (digest, data) :: rest)
      (hknown : digest ∈ up.known) :
      -- no task is needed, so the rest of the loop body runs without waiting
      UploadStep cfg exit catalog up
        ({ up with queue := rest }.pushCurrent cfg
          (up.locals.countReused (UInt64.ofNat data.length)) up.locals.endOffset digest data)
  | receivedNew {digest : Digest} {data : Bytes} {rest : List (Digest × Bytes)}
      (hphase : up.phase = .receiving)
      (hqueue : up.queue = (digest, data) :: rest)
      (hnew : digest ∉ up.known) :
      UploadStep cfg exit catalog up
        { up with
          phase := .acquiring ⟨digest, data, up.locals.endOffset⟩
          queue := rest
          locals := up.locals.countNew (UInt64.ofNat data.length) }
  | spawned {current : CurrentChunk} (hphase : up.phase = .acquiring current)
      -- a task keeps its permit until it has finished, reaped or not
      (hpermit : (up.inflight.filter UploadTask.holdsPermit).length < cfg.pipelineWidth) :
      UploadStep cfg exit catalog up
        { up with
          phase := .reaping current
          inflight := up.inflight ++ [⟨current.digest, current.data, .encoding⟩]
          locals := up.locals.countSpawned }
  | taskMoved {left right : List UploadTask} {task after : UploadTask} {events : List Event}
      {stored : UInt64}
      (hinflight : up.inflight = left ++ task :: right)
      (htask : TaskStep cfg up.wid task after events stored) :
      UploadStep cfg exit catalog up
        { up with
          inflight := left ++ after :: right
          trace := up.trace ++ events
          storedBytes := up.storedBytes + stored }
  | reaped {left right : List UploadTask} {task : UploadTask}
      (hphase : (∃ current, up.phase = .reaping current) ∨ up.phase = .joining)
      (hinflight : up.inflight = left ++ task :: right)
      (hstage : task.stage = .finished (.ok ())) :
      UploadStep cfg exit catalog up { up with inflight := left ++ right }
  /-- `try_join_next` found nothing (more) to reap. -/
  | pushed {current : CurrentChunk} (hphase : up.phase = .reaping current) :
      UploadStep cfg exit catalog up
        (up.pushCurrent cfg up.locals current.startOffset current.digest current.data)
  | streamEnded (hphase : up.phase = .receiving) (hqueue : up.queue = [])
      (hexit : exit ≠ none) :
      UploadStep cfg exit catalog up { up with phase := .joining }
  | joined (hphase : up.phase = .joining) (hinflight : up.inflight = []) :
      UploadStep cfg exit catalog up { up with phase := .appending up.locals.batches }
  | appended (hphase : up.phase = .appending []) :
      UploadStep cfg exit catalog up { up with phase := .awaitingChunker }
  | chunkerFinished (hphase : up.phase = .awaitingChunker) (hexit : exit = some .ok) :
      UploadStep cfg exit catalog up { up with phase := .closing }
  | catalogSkipped (hphase : up.phase = .awaitingCatalog)
      -- a sender that was dropped counts as no catalog
      (hcatalog : catalog = .absent ∨ catalog = .dropped) :
      UploadStep cfg exit catalog up { up with phase := .encodingManifest }
  | catalogEncoded {random : Except String (FixedBytes 16)} {name : String}
      {content blob : Bytes}
      (hphase : up.phase = .awaitingCatalog)
      (hcatalog : catalog = .sent name content)
      (hblob : encodeFor cfg.prims cfg.crypt cfg.compress random content = .ok blob) :
      UploadStep cfg exit catalog up { up with phase := .sendingCatalog name blob }
  | manifestEncoded {json : Bytes} (hphase : up.phase = .encodingManifest)
      (hjson : cfg.manifestJson (up.manifest cfg) = .ok json) :
      UploadStep cfg exit catalog up
        { up with phase := .sendingManifest (encodeUncompressed cfg.prims json) }
  | accepted {request : Request} {next : Phase}
      (hpending : up.pendingRequest cfg = some (request, next)) :
      UploadStep cfg exit catalog up
        { up with phase := next, trace := up.trace ++ [.request request (.ok ())] }
  | refused {request : Request} {next : Phase} (error : PbsError)
      (hpending : up.pendingRequest cfg = some (request, next)) :
      UploadStep cfg exit catalog up
        { up with
          result := some (.error error)
          trace := up.trace ++ [.request request (.error error)] }
  | failed {error : PbsError} (hfails : Fails cfg exit catalog up error) :
      UploadStep cfg exit catalog up { up with result := some (.error error) }
  | returned (hphase : up.phase = .finished) :
      UploadStep cfg exit catalog up { up with result := some (.ok (up.stats cfg)) }

/-- A source of chunks: the reader given to `backup_dynamic_reader` together
with everything that feeds it, seen through the chunker.  `quiet` is a step of
what feeds the reader and `read` one of the chunker thread that yields nothing. -/
structure Feed (Source : Type*) where
  quiet : Source → Source → Prop
  read : Source → Source → Prop
  chunk : Source → Bytes → Source → Prop
  ends : Source → ChunkerExit → Source → Prop
  catalog : Source → Catalog

/-- A source whose chunks are given in advance.  Reading it may fail or panic at
any point, but it ends well only after its last chunk; a pending catalog may be
sent or dropped at any time. -/
def chunkFeed : Feed (List Bytes × Catalog) where
  quiet before after := after.1 = before.1 ∧ before.2 = .pending ∧ after.2 ≠ .absent
  read _ _ := False
  -- yielding a chunk leaves the catalog as it is
  chunk before data after := before.1 = data :: after.1 ∧ after.2 = before.2
  ends before exit after := after = before ∧ (exit = .ok → before.1 = [])
  catalog := Prod.snd

/-- A source, the chunks it has yielded so far, and how it ended. -/
structure FeedState (Source : Type*) where
  source : Source
  emitted : List Bytes
  exit : Option ChunkerExit

/-- The steps of a source on its own. -/
inductive FeedStep {Source : Type*} (feed : Feed Source) (state : FeedState Source) :
    FeedState Source → Prop
  | quiet {after : Source} (hquiet : feed.quiet state.source after) :
      FeedStep feed state { state with source := after }
  | read {after : Source} (hopen : state.exit = none) (hread : feed.read state.source after) :
      FeedStep feed state { state with source := after }
  | chunk {after : Source} {data : Bytes} (hopen : state.exit = none)
      (hchunk : feed.chunk state.source data after) :
      FeedStep feed state
        { state with source := after, emitted := state.emitted ++ [data] }
  | ends {after : Source} {exit : ChunkerExit} (hopen : state.exit = none)
      (hends : feed.ends state.source exit after) :
      FeedStep feed state { state with source := after, exit := some exit }

/-- The upload with its source. -/
structure UploadSystem (Source : Type*) where
  feed : FeedState Source
  up : Upload

/-- The system at the call of `backup_dynamic_reader`. -/
def UploadSystem.initial {Source : Type*} (source : Source) : UploadSystem Source :=
  { feed := { source := source, emitted := [], exit := none }
    up := Upload.initial }

/-- One step of the whole system. -/
inductive SystemStep {Source : Type*} (cfg : UploadConfig) (feed : Feed Source)
    (state : UploadSystem Source) : UploadSystem Source → Prop
  | quiet {after : Source} (hquiet : feed.quiet state.feed.source after) :
      SystemStep cfg feed state { state with feed := { state.feed with source := after } }
  | read {after : Source} (hstarted : state.up.phase.started = true)
      (hopen : state.feed.exit = none) (hread : feed.read state.feed.source after) :
      SystemStep cfg feed state { state with feed := { state.feed with source := after } }
  /-- The chunker thread yields a chunk and sends it with its digest. -/
  | chunk {after : Source} {data : Bytes}
      (hstarted : state.up.phase.started = true)
      (hrunning : state.up.result = none)
      (hroom : state.up.queue.length < chunkChannelCapacity)
      (hopen : state.feed.exit = none)
      (hchunk : feed.chunk state.feed.source data after) :
      SystemStep cfg feed state
        { feed :=
            { state.feed with source := after, emitted := state.feed.emitted ++ [data] }
          up := { state.up with queue := state.up.queue ++ [(cfg.digest data, data)] } }
  | ends {after : Source} {exit : ChunkerExit}
      (hstarted : state.up.phase.started = true)
      (hopen : state.feed.exit = none)
      (hends : feed.ends state.feed.source exit after) :
      SystemStep cfg feed state
        { state with feed := { state.feed with source := after, exit := some exit } }
  | upload {after : Upload} (hrunning : state.up.result = none)
      (hstep : UploadStep cfg state.feed.exit (feed.catalog state.feed.source) state.up after) :
      SystemStep cfg feed state { state with up := after }

/-- The states a backup of the given source can reach. -/
def UploadReaches {Source : Type*} (cfg : UploadConfig) (feed : Feed Source) (source : Source)
    (state : UploadSystem Source) : Prop :=
  Relation.ReflTransGen (SystemStep cfg feed) (UploadSystem.initial source) state

end PbsGui.Client
