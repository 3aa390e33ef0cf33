import PbsGui.Client.StreamFeed

/-!
# Archiving a System State capture into the upload

A thread runs `tar::Builder` over the files of the shadow copy, into a `ChannelWriter` that
sends buffers of `CHUNK` bytes over a bounded channel.  At its end the thread reports over a
second channel whether the archive is whole.

The `tar` crate is not part of the repository: `TarBuilder` is what it writes for a file, in
any number of pieces, and at the end of the archive.
-/

namespace PbsGui.Ad

open Lib Client List

/-- A file of the capture. -/
structure CapturedFile where
  shadowPath : String
  originalPath : String
  archiveName : String
  size : UInt64

/-- What the builder does with one file: its writes, and the error that cuts them
short. -/
structure TarEntry where
  writes : List Bytes
  failure : Option String

/-- What the builder writes for the files of the shadow copy and at the end of the
archive. -/
structure TarBuilder where
  append : CapturedFile → TarEntry
  trailer : List Bytes

def TarBuilder.archive (tar : TarBuilder) (files : List CapturedFile) : Bytes :=
  files.flatMap (fun file => (tar.append file).writes.flatten) ++ tar.trailer.flatten

/-- A write of the builder and the file it is made for; those at the end of the
archive are made for none. -/
structure TarWrite where
  file : Option CapturedFile
  data : Bytes

def TarWrite.bytes (writes : List TarWrite) : Bytes := writes.flatMap TarWrite.data

/-- An error in a write, as the thread reports it. -/
def archiveError : Option CapturedFile → String → String
  | some file, text => "archiving " ++ file.archiveName ++ ": " ++ text
  | none, text => text

/-- The writes of a builder that is never refused one, and how it ends. -/
def TarBuilder.run (tar : TarBuilder) : List CapturedFile → List TarWrite × Except String Unit
  | [] => (tar.trailer.map (TarWrite.mk none), .ok ())
  | file :: files =>
    let own := (tar.append file).writes.map (TarWrite.mk (some file))
    match (tar.append file).failure with
    | some text => (own, .error (archiveError (some file) text))
    | none => (own ++ (tar.run files).1, (tar.run files).2)

/-- A builder that ends well has archived every file, and has written the archive. -/
theorem TarBuilder.run_ok {tar : TarBuilder} {files : List CapturedFile}
    (hok : (tar.run files).2 = .ok ()) :
    (∀ file ∈ files, (tar.append file).failure = none) ∧
      TarWrite.bytes (tar.run files).1 = tar.archive files := by
  have hmap (file : Option CapturedFile) (writes : List Bytes) :
      TarWrite.bytes (writes.map (TarWrite.mk file)) = writes.flatten := by
    rw [TarWrite.bytes, flatMap_map, flatten_eq_flatMap]
    rfl
  induction files with
  | nil => exact ⟨nofun, hmap _ _⟩
  | cons file files ih =>
    rw [run] at hok ⊢
    cases hfail : (tar.append file).failure with
    | some => simp [hfail] at hok
    | none =>
      simp only [hfail] at hok ⊢
      obtain ⟨hfiles, hbytes⟩ := ih hok
      refine ⟨fun other hother => ?_, ?_⟩
      · rcases mem_cons.mp hother with rfl | hmem
        · exact hfail
        · exact hfiles other hmem
      · rw [TarWrite.bytes, flatMap_append, ← TarWrite.bytes, ← TarWrite.bytes, hmap,
          hbytes, archive, archive, flatMap_cons, append_assoc]

/-- `CHUNK`: the size of the buffers a `ChannelWriter` sends. -/
def writerChunk : Nat := 256 * 1024

/-- The error of a `ChannelWriter` whose receiver is gone. -/
def uploadSideClosed : String := "the upload side closed"

/-- Where the archive thread stands. -/
inductive TarStage
  | writing
  /-- In a `write` for this file, sending full buffers. -/
  | sending (file : Option CapturedFile)
  | flushing
  /-- The builder has failed and is being dropped. -/
  | failing (text : String)
  /-- The builder is gone, and the data sender with it in the next step. -/
  | closing (result : Except String Unit)
  | reporting (result : Except String Unit)
  | returned (result : Except String Unit)
  | panicked

/-- The archive thread: what the builder is still to write and how it will end, and
the buffer of its `ChannelWriter`.  `metadata` is what the catalog channel holds. -/
structure TarThread where
  writes : List TarWrite
  outcome : Except String Unit
  buf : Bytes
  stage : TarStage
  metadata : Catalog

/-- The thread when it is spawned; the metadata blob has been sent before. -/
def TarThread.start (tar : TarBuilder) (files : List CapturedFile) (metadata : Catalog) :
    TarThread :=
  { writes := (tar.run files).1
    outcome := (tar.run files).2
    buf := []
    stage := .writing
    metadata := metadata }

/-- The number of buffers the data channel holds. -/
def archiveQueue : Nat := 16

/-- One step of the archive thread on its side of the stream.  A send may find the
receiver gone at any time. -/
inductive TarStep (thread : TarThread) (stream : VerdictStream UInt8 IoError) :
    TarThread → VerdictStream UInt8 IoError → Prop
  | write {write : TarWrite} {rest : List TarWrite} (hstage : thread.stage = .writing)
      (hwrites : thread.writes = write :: rest) :
      TarStep thread stream
        { thread with
          writes := rest
          buf := thread.buf ++ write.data
          stage := .sending write.file } stream
  | send {file : Option CapturedFile} (hstage : thread.stage = .sending file)
      (hfull : writerChunk ≤ thread.buf.length) (hopen : stream.channel.closed = false)
      (hroom : stream.channel.queue.length < archiveQueue) :
      TarStep thread stream { thread with buf := thread.buf.drop writerChunk }
        (stream.send (thread.buf.take writerChunk))
  | sendRefused {file : Option CapturedFile} (hstage : thread.stage = .sending file)
      (hfull : writerChunk ≤ thread.buf.length) :
      TarStep thread stream
        { thread with
          buf := thread.buf.drop writerChunk
          stage := .failing (archiveError file uploadSideClosed) } stream
  | written {file : Option CapturedFile} (hstage : thread.stage = .sending file)
      (hsmall : thread.buf.length < writerChunk) :
      TarStep thread stream { thread with stage := .writing } stream
  | ended (hstage : thread.stage = .writing) (hwrites : thread.writes = [])
      (hok : thread.outcome = .ok ()) :
      TarStep thread stream { thread with stage := .flushing } stream
  | failed {text : String} (hstage : thread.stage = .writing) (hwrites : thread.writes = [])
      (hfailed : thread.outcome = .error text) :
      TarStep thread stream { thread with stage := .failing text } stream
  /-- A builder that is dropped ends the archive, which may fill another buffer. -/
  | trailing {text : String} (data : Bytes) (hstage : thread.stage = .failing text)
      (hopen : stream.channel.closed = false)
      (hroom : stream.channel.queue.length < archiveQueue) :
      TarStep thread stream thread (stream.send data)
  | builderDropped {text : String} (hstage : thread.stage = .failing text) :
      TarStep thread stream { thread with stage := .closing (.error text) } stream
  | flush (hstage : thread.stage = .flushing) (hbuf : thread.buf ≠ [])
      (hopen : stream.channel.closed = false)
      (hroom : stream.channel.queue.length < archiveQueue) :
      TarStep thread stream { thread with buf := [], stage := .closing (.ok ()) }
        (stream.send thread.buf)
  | flushRefused (hstage : thread.stage = .flushing) (hbuf : thread.buf ≠ []) :
      TarStep thread stream
        { thread with buf := [], stage := .closing (.error uploadSideClosed) } stream
  | flushEmpty (hstage : thread.stage = .flushing) (hbuf : thread.buf = []) :
      TarStep thread stream { thread with stage := .closing (.ok ()) } stream
  | close {result : Except String Unit} (hstage : thread.stage = .closing result)
      (hopen : stream.channel.closed = false) :
      TarStep thread stream { thread with stage := .reporting result } stream.close
  | report {result : Except String Unit} (hstage : thread.stage = .reporting result)
      (hpending : stream.channel.verdict = .pending) :
      TarStep thread stream { thread with stage := .returned result }
        (stream.sendVerdict result.toBool)
  | panic (hrunning : ∀ result, thread.stage ≠ .returned result) :
      TarStep thread stream { thread with stage := .panicked } stream
  -- unwinding drops both senders
  | unwindData (hstage : thread.stage = .panicked) (hopen : stream.channel.closed = false) :
      TarStep thread stream thread stream.close
  | unwindVerdict (hstage : thread.stage = .panicked)
      (hpending : stream.channel.verdict = .pending) :
      TarStep thread stream thread stream.dropVerdict

theorem TarStep.produces {thread thread' : TarThread} {stream stream' : VerdictStream UInt8 IoError}
    (hstep : TarStep thread stream thread' stream') :
    stream' = stream ∨ stream.Produces archiveQueue stream' := by
  cases hstep with
  | send _ _ hopen hroom | trailing _ _ hopen hroom | flush _ _ hopen hroom =>
    exact .inr (.send _ hopen hroom)
  | close _ hopen | unwindData _ hopen => exact .inr (.close hopen)
  | report _ hpend => exact .inr (.verdict _ hpend)
  | unwindVerdict _ hpend => exact .inr (.dropVerdict hpend)
  | _ => exact .inl rfl

/-- The archive thread behind the `ChannelReader` of a System State backup. -/
def tarProducer : StreamProducer TarThread where
  capacity := archiveQueue
  failure :=
    { kind := .unexpectedEof
      text := "the archive stream ended before the producer confirmed success; " ++
        "refusing to upload a truncated backup" }
  catalog := TarThread.metadata
  step := TarStep
  produces _ _ _ _ hstep := hstep.produces

section Verdict

variable {tar : TarBuilder} {files : List CapturedFile} {thread thread' : TarThread}
  {stream stream' : VerdictStream UInt8 IoError}

/-- Every file was archived, and the archive is what was sent. -/
def Archived (tar : TarBuilder) (files : List CapturedFile)
    (stream : VerdictStream UInt8 IoError) : Prop :=
  (tar.run files).2 = .ok () ∧ stream.sent.flatten = TarWrite.bytes (tar.run files).1

def TarThread.Progress (tar : TarBuilder) (files : List CapturedFile)
    (stream : VerdictStream UInt8 IoError) (thread : TarThread) : TarStage → Prop
  | .writing | .sending _ =>
    thread.outcome = (tar.run files).2 ∧
      stream.sent.flatten ++ (thread.buf ++ TarWrite.bytes thread.writes) =
        TarWrite.bytes (tar.run files).1
  | .flushing =>
    (tar.run files).2 = .ok () ∧
      stream.sent.flatten ++ thread.buf = TarWrite.bytes (tar.run files).1
  | .failing _ | .panicked => True
  | .closing result | .reporting result | .returned result =>
    result = .ok () → Archived tar files stream

/-- The verdict of a thread by its stage: only a thread that has returned has sent
one, and it is that of its result. -/
def TarStage.Reported (verdict : VerdictCell) : TarStage → Prop
  | .returned result => verdict = .sent result.toBool
  | .panicked => verdict = .pending ∨ verdict = .dropped
  | _ => verdict = .pending

/-- What holds of the archive thread in every run. -/
structure TarInv (tar : TarBuilder) (files : List CapturedFile) (thread : TarThread)
    (stream : VerdictStream UInt8 IoError) : Prop where
  progress : thread.Progress tar files stream thread.stage
  reported : thread.stage.Reported stream.channel.verdict

theorem TarInv.start (metadata : Catalog) :
    TarInv tar files (TarThread.start tar files metadata) .new where
  progress := ⟨rfl, rfl⟩
  reported := rfl

theorem TarInv.congr (h : TarInv tar files thread stream) (hsent : stream'.sent = stream.sent)
    (hverd : stream'.channel.verdict = stream.channel.verdict) :
    TarInv tar files thread stream' := by
  refine ⟨?_, hverd ▸ h.reported⟩
  have hprog := h.progress
  revert hprog
  cases thread.stage <;> simp only [TarThread.Progress, Archived, hsent] <;> exact id

theorem TarInv.step (h : TarInv tar files thread stream)
    (hstep : TarStep thread stream thread' stream') : TarInv tar files thread' stream' := by
  obtain ⟨hprog, hrep⟩ := h
  cases hstep with
  | write hstage hwrites =>
    rw [hstage] at hprog hrep
    obtain ⟨hout, hbytes⟩ := hprog
    refine ⟨⟨hout, ?_⟩, hrep⟩
    rw [← hbytes, hwrites, TarWrite.bytes, TarWrite.bytes, flatMap_cons, append_assoc]
  | @send file hstage hfull hopen hroom =>
    rw [hstage] at hprog hrep
    obtain ⟨hout, hbytes⟩ := hprog
    refine ⟨?_, ?_⟩
    · simp only [hstage]
      refine ⟨hout, ?_⟩
      rw [← hbytes]
      simp only [VerdictStream.send, flatten_append, flatten_cons, flatten_nil,
        append_nil, append_assoc]
      rw [← append_assoc (thread.buf.take writerChunk), take_append_drop]
    · simp only [hstage]
      exact hrep
  | sendRefused hstage | failed hstage =>
    rw [hstage] at hrep
    exact ⟨trivial, hrep⟩
  | written hstage | close hstage =>
    rw [hstage] at hprog hrep
    exact ⟨hprog, hrep⟩
  | ended hstage hwrites hok =>
    rw [hstage] at hprog hrep
    obtain ⟨hout, hbytes⟩ := hprog
    refine ⟨⟨hout.symm.trans hok, ?_⟩, hrep⟩
    rw [hwrites] at hbytes
    simpa [TarWrite.bytes] using hbytes
  | trailing data hstage | unwindData hstage =>
    rw [hstage] at hrep
    constructor
    · simp only [hstage, TarThread.Progress]
    · simp only [hstage]
      exact hrep
  | builderDropped hstage | flushRefused hstage =>
    rw [hstage] at hrep
    exact ⟨fun hok => absurd hok (by simp), hrep⟩
  | flush hstage =>
    rw [hstage] at hprog hrep
    obtain ⟨hok, hbytes⟩ := hprog
    refine ⟨fun _ => ⟨hok, ?_⟩, hrep⟩
    rw [← hbytes]
    simp [VerdictStream.send]
  | flushEmpty hstage hbuf =>
    rw [hstage] at hprog hrep
    obtain ⟨hok, hbytes⟩ := hprog
    refine ⟨fun _ => ⟨hok, ?_⟩, hrep⟩
    rw [← hbytes, hbuf, append_nil]
  | report hstage =>
    rw [hstage] at hprog
    exact ⟨hprog, rfl⟩
  | panic hrun =>
    refine ⟨trivial, ?_⟩
    cases hstage : thread.stage with
    | returned result => exact absurd hstage (hrun result)
    | panicked =>
      rw [hstage] at hrep
      exact hrep
    | _ =>
      rw [hstage] at hrep
      exact .inl hrep
  | unwindVerdict hstage =>
    constructor
    · simp only [hstage, TarThread.Progress]
    · simp only [hstage]
      exact .inr rfl

theorem TarInv.archived (h : TarInv tar files thread stream)
    (hverd : stream.channel.verdict = .sent true) : Archived tar files stream := by
  obtain ⟨hprog, hrep⟩ := h
  rw [hverd] at hrep
  cases hstage : thread.stage with
  | returned result =>
    rw [hstage] at hprog hrep
    cases result with
    | ok => exact hprog rfl
    | error => cases hrep
  | panicked =>
    rw [hstage] at hrep
    rcases hrep with hpend | hdrop
    · cases hpend
    · cases hdrop
  | _ =>
    rw [hstage] at hrep
    cases hrep

end Verdict

/-- **No truncated archive is committed.**  An upload of a capture that returns Ok
has finished the snapshot, every file of the capture was archived without an
error, and the chunks in the index are the whole archive. -/
theorem tarUpload_ok {tar : TarBuilder} {files : List CapturedFile} {cfg : UploadConfig}
    {metadata : Catalog} {state : UploadSystem (StreamSource TarThread)} {stats : BackupStats}
    (hrun : UploadReaches cfg tarProducer.feed
      (StreamSource.new (TarThread.start tar files metadata)) state)
    (hres : state.up.result = some (.ok stats)) :
    Event.request .finish (.ok ()) ∈ state.up.trace ∧
      (∀ file ∈ files, (tar.append file).failure = none) ∧
      state.up.indexed.flatten = tar.archive files := by
  have hinv : TarInv tar files state.feed.source.env state.feed.source.stream :=
    hrun.producer_invariant (TarInv.start metadata) (fun _ _ _ _ h hstep => h.step hstep)
      (fun _ _ _ h hsent hverd => h.congr hsent hverd)
  obtain ⟨hphase, -⟩ := hrun.inv.commit.outcome stats hres
  have hfin := hrun.inv.finish_mem hphase
  obtain ⟨hexit, hidx⟩ := hrun.inv.issued (.inl ⟨_, hfin⟩) (.inl rfl)
  obtain ⟨-, hverd, hemit, -⟩ := hrun.streamFeed.whole hexit
  obtain ⟨hok, hsent⟩ := hinv.archived hverd
  obtain ⟨hfiles, harchive⟩ := TarBuilder.run_ok hok
  exact ⟨hfin, hfiles, by rw [hidx, hemit, hsent, harchive]⟩

end PbsGui.Ad
