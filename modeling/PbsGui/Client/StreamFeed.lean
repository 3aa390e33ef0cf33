import PbsGui.Lib.VerdictStream
import PbsGui.Client.UploadProtocol

/-!
# Uploading a stream that ends on a verdict

`backup_dynamic_reader` is given a reader over a data channel and a verdict channel
(`ChannelReader`, `RelayRead`) and cuts what it reads into chunks.  Of the chunker it is
assumed that it reads until a read returns no bytes, yields what it has read in order, ends
well only when it has yielded it all, and passes on the error of a read.

Whatever the producer is, the snapshot is finished only after the positive verdict, and then
the index holds everything the producer sent.
-/

namespace PbsGui.Client

open Lib List

/-- What stands behind a reader: the steps it takes on its own state and on its
side of the stream, the catalog it offers, and the error the reader reports for
a stream that is not whole. -/
structure StreamProducer (Env : Type*) where
  capacity : Nat
  failure : IoError
  catalog : Env → Catalog
  step : Env → VerdictStream UInt8 IoError → Env → VerdictStream UInt8 IoError → Prop
  produces : ∀ env stream env' stream', step env stream env' stream' →
    stream' = stream ∨ stream.Produces capacity stream'

/-- The producer, the stream with its reader, and the chunker's buffer. -/
structure StreamSource (Env : Type*) where
  env : Env
  stream : VerdictStream UInt8 IoError
  pending : Bytes
  eof : Bool

variable {Env : Type*}

def StreamSource.new (env : Env) : StreamSource Env :=
  { env := env, stream := .new, pending := [], eof := false }

/-- The chunker fills its buffer. -/
inductive ChunkerRead (failure : IoError) (source : StreamSource Env) :
    StreamSource Env → Prop
  | startRead (want : Nat) (hwant : 0 < want) (hidle : source.stream.call = none)
      (hopen : source.eof = false) :
      ChunkerRead failure source { source with stream := source.stream.startRead want }
  | pulled {want : Nat} {reader : VerdictReader UInt8} {channel : VerdictChannel UInt8}
      (hcall : source.stream.call = some want)
      (hpoll : source.stream.reader.poll failure want source.stream.channel =
        .pulled reader channel) :
      ChunkerRead failure source
        { source with stream := { source.stream with reader := reader, channel := channel } }
  | filled {want : Nat} {reader : VerdictReader UInt8} {bytes : Bytes}
      (hcall : source.stream.call = some want)
      (hpoll : source.stream.reader.poll failure want source.stream.channel =
        .returned reader (.ok bytes)) :
      ChunkerRead failure source
        { source with
          stream := source.stream.finishRead want reader (.ok bytes)
          pending := source.pending ++ bytes
          eof := bytes.isEmpty }

/-- The chunker thread ends: after the last chunk, with the error of a read, or
by a panic. -/
inductive ChunkerEnds (failure : IoError) (source : StreamSource Env) :
    ChunkerExit → StreamSource Env → Prop
  | finished (hidle : source.stream.call = none) (heof : source.eof = true)
      (hpending : source.pending = []) : ChunkerEnds failure source .ok source
  | failed {want : Nat} {reader : VerdictReader UInt8} {error : IoError} (wrapped : IoError)
      (hcall : source.stream.call = some want)
      (hpoll : source.stream.reader.poll failure want source.stream.channel =
        .returned reader (.error error)) :
      ChunkerEnds failure source (.ioError wrapped)
        { source with stream := source.stream.finishRead want reader (.error error) }
  | panicked (text : String) : ChunkerEnds failure source (.panicked text) source

def StreamProducer.feed (producer : StreamProducer Env) : Feed (StreamSource Env) where
  quiet before after := ∃ env stream, producer.step before.env before.stream env stream ∧
    after = { before with env := env, stream := stream }
  read := ChunkerRead producer.failure
  chunk before data after := before.stream.call = none ∧
    ∃ rest, before.pending = data ++ rest ∧ after = { before with pending := rest }
  ends := ChunkerEnds producer.failure
  catalog source := producer.catalog source.env

/-- What holds of a source in every run: the chunks and the chunker's buffer are
what the reader delivered, and the chunker has seen the end when it says so. -/
structure StreamFeedInv (failure : IoError) (state : FeedState (StreamSource Env)) : Prop where
  stream : state.source.stream.Inv failure
  bytes : state.emitted.flatten ++ state.source.pending = state.source.stream.delivered
  room : ∀ want, state.source.stream.call = some want → 0 < want
  eof : state.source.eof = true →
    ∃ entry ∈ state.source.stream.log, VerdictStream.IsEnd entry true
  done : state.exit = some .ok → state.source.eof = true ∧ state.source.pending = []

section Invariant

variable {producer : StreamProducer Env} {state after : FeedState (StreamSource Env)}

theorem StreamFeedInv.new (env : Env) {failure : IoError} :
    StreamFeedInv failure { source := StreamSource.new env, emitted := [], exit := none } where
  stream := .new
  bytes := rfl
  room _ h := nomatch h
  eof h := nomatch h
  done h := nomatch h

variable {source : StreamSource Env}

theorem StreamFeedInv.quiet (h : StreamFeedInv producer.failure state)
    (hquiet : producer.feed.quiet state.source source) :
    StreamFeedInv producer.failure { state with source := source } := by
  obtain ⟨env, stream, hstep, rfl⟩ := hquiet
  rcases producer.produces _ _ _ _ hstep with rfl | hproduces
  · exact ⟨h.stream, h.bytes, h.room, h.eof, h.done⟩
  · obtain ⟨hlog, hcall⟩ : stream.log = state.source.stream.log ∧
        stream.call = state.source.stream.call := by cases hproduces <;> exact ⟨rfl, rfl⟩
    refine ⟨h.stream.produces hproduces, ?_, ?_, ?_, h.done⟩
    · rw [VerdictStream.delivered, hlog]
      exact h.bytes
    · rw [hcall]
      exact h.room
    · rw [hlog]
      exact h.eof

theorem StreamFeedInv.read (h : StreamFeedInv producer.failure state) (hopen : state.exit = none)
    (hread : producer.feed.read state.source source) :
    StreamFeedInv producer.failure { state with source := source } := by
  have hdone : state.exit ≠ some .ok := by simp [hopen]
  cases hread with
  | startRead want hwant =>
    refine ⟨h.stream.startRead _, h.bytes, fun other hcall => ?_, h.eof, h.done⟩
    rw [← Option.some.inj hcall]
    exact hwant
  | pulled hcall hpoll =>
    exact ⟨h.stream.reads (.pulled hcall hpoll), h.bytes, h.room, h.eof, h.done⟩
  | @filled want reader bytes hcall hpoll =>
    refine ⟨h.stream.reads (.returned hcall hpoll), ?_, nofun,
      fun hempty => ?_, fun hexit => absurd hexit hdone⟩
    · rw [← append_assoc, h.bytes]
      simp [VerdictStream.delivered, VerdictStream.finishRead, VerdictStream.bytesOf]
    · refine ⟨(want, .ok bytes), mem_append_right _ mem_cons_self, h.room _ hcall, ?_⟩
      rw [isEmpty_iff.mp hempty]

theorem StreamFeedInv.step (h : StreamFeedInv producer.failure state)
    (hstep : FeedStep producer.feed state after) : StreamFeedInv producer.failure after := by
  cases hstep with
  | quiet hquiet => exact h.quiet hquiet
  | read hopen hread => exact h.read hopen hread
  | chunk hopen hchunk =>
    obtain ⟨_, rest, hpend, rfl⟩ := hchunk
    refine ⟨h.stream, ?_, h.room, h.eof, fun hexit => ?_⟩
    · rw [← h.bytes, hpend]
      simp
    · exact nomatch hopen.symm.trans hexit
  | ends hopen hends =>
    cases hends with
    | finished _ heof hpend => exact ⟨h.stream, h.bytes, h.room, h.eof, fun _ => ⟨heof, hpend⟩⟩
    | panicked => exact ⟨h.stream, h.bytes, h.room, h.eof, nofun⟩
    | failed wrapped hcall hpoll =>
      refine ⟨h.stream.reads (.returned hcall hpoll), ?_, nofun, fun heof => ?_, nofun⟩
      · rw [h.bytes]
        simp [VerdictStream.delivered, VerdictStream.finishRead, VerdictStream.bytesOf]
      · obtain ⟨entry, hentry, hend⟩ := h.eof heof
        exact ⟨entry, mem_append_left _ hentry, hend⟩

theorem UploadReaches.streamFeed {cfg : UploadConfig} {env : Env}
    {state : UploadSystem (StreamSource Env)}
    (hrun : UploadReaches cfg producer.feed (StreamSource.new env) state) :
    StreamFeedInv producer.failure state.feed :=
  Transition.invariant_of_reachable (StreamFeedInv.new env)
    (fun _ _ hpre hstep => hpre.step hstep) hrun.feedRun

/-- What the producer's steps keep, and what depends only on its side of the stream,
holds in every run. -/
theorem UploadReaches.producer_invariant {holds : Env → VerdictStream UInt8 IoError → Prop}
    {cfg : UploadConfig} {env : Env} {state : UploadSystem (StreamSource Env)}
    (hstart : holds env .new)
    (hkeep : ∀ env stream env' stream', holds env stream →
      producer.step env stream env' stream' → holds env' stream')
    (hcongr : ∀ env stream stream', holds env stream → stream'.sent = stream.sent →
      stream'.channel.verdict = stream.channel.verdict → holds env stream')
    (hrun : UploadReaches cfg producer.feed (StreamSource.new env) state) :
    holds state.feed.source.env state.feed.source.stream := by
  refine @Transition.invariant_of_reachable _ _
    (fun feed : FeedState (StreamSource Env) => holds feed.source.env feed.source.stream) _ _
    hstart (fun before after h hstep => ?_) hrun.feedRun
  have hreads : ∀ {stream'}, before.source.stream.Reads producer.failure stream' →
      holds before.source.env stream' := by
    intro stream' hread
    obtain ⟨hsent, -, hverd⟩ := hread.producer
    exact hcongr _ _ _ h hsent hverd
  cases hstep with
  | quiet hquiet =>
    obtain ⟨env, stream, henv, rfl⟩ := hquiet
    exact hkeep _ _ _ _ h henv
  | read _ hread =>
    cases hread with
    | startRead => exact hcongr _ _ _ h rfl rfl
    | pulled hcall hpoll => exact hreads (.pulled hcall hpoll)
    | filled hcall hpoll => exact hreads (.returned hcall hpoll)
  | chunk _ hchunk =>
    obtain ⟨_, rest, _, rfl⟩ := hchunk
    exact h
  | ends _ hends =>
    cases hends with
    | finished | panicked => exact h
    | failed _ hcall hpoll => exact hreads (.returned hcall hpoll)

theorem StreamFeedInv.whole {failure : IoError} (h : StreamFeedInv failure state)
    (hexit : state.exit = some .ok) :
    state.source.stream.channel.closed = true ∧
      state.source.stream.channel.verdict = .sent true ∧
      state.emitted.flatten = state.source.stream.sent.flatten ∧
      ∀ entry ∈ state.source.stream.log, ∀ error, entry.2 ≠ .error error := by
  obtain ⟨heof, hpend⟩ := h.done hexit
  obtain ⟨last, hlast, hend⟩ := h.eof heof
  obtain ⟨hclosed, hdel, hverd⟩ := h.stream.ended ⟨last, hlast, hend⟩
  refine ⟨hclosed, hverd, ?_, fun entry hentry error herror => ?_⟩
  · rw [← hdel, ← h.bytes, hpend, append_nil]
  · have htrue := h.stream.ends last hlast true hend
    have hfalse := h.stream.ends entry hentry false ⟨error, herror⟩
    exact nomatch htrue.symm.trans hfalse

end Invariant

/-- The requests that seal the index and the snapshot. -/
def Request.IsCommit (request : Request) : Prop :=
  request = .finish ∨ ∃ wid count size csum, request = .closeDynamicIndex wid count size csum

/-- The request has been sent, with or without a reply so far. -/
def Upload.Issued (cfg : UploadConfig) (up : Upload) (request : Request) : Prop :=
  (∃ reply, Event.request request reply ∈ up.trace) ∨
    ∃ next, up.pendingRequest cfg = some (request, next)

variable {cfg : UploadConfig} {up : Upload} {request : Request} {next : Phase}

theorem Upload.pendingRequest_commit (hpend : up.pendingRequest cfg = some (request, next))
    (hreq : request.IsCommit) : up.phase.afterChunker = true := by
  have hsends := sends_of_pendingRequest hpend
  generalize up.phase = phase at hsends ⊢
  cases hsends with
  | close | finish => rfl
  | _ => rcases hreq with h | ⟨_, _, _, _, h⟩ <;> cases h

/-- A commit is issued only over a source that has ended well, and then the index
lists everything the source yielded. -/
theorem UploadSystem.Inv.issued {Source : Type*} {state : UploadSystem Source} (h : state.Inv cfg)
    (hiss : state.up.Issued cfg request) (hreq : request.IsCommit) :
    state.feed.exit = some .ok ∧ state.up.indexed = state.feed.emitted := by
  rcases hiss with ⟨reply, hmem⟩ | ⟨next, hpend⟩
  · obtain ⟨hexit, hidx, -⟩ := h.closed hmem hreq
    exact ⟨hexit, hidx⟩
  · have hafter := Upload.pendingRequest_commit hpend hreq
    exact ⟨h.commit.exited hafter, (h.committed (Phase.committing_of_afterChunker hafter)).1⟩

/-! ### The catalog

The snapshot is not finished before the catalog channel is settled. -/

/-- The phases after the catalog was received or its sender found dropped. -/
def Phase.afterCatalog : Phase → Bool
  | .sendingCatalog _ _ | .encodingManifest | .sendingManifest _ | .finishing | .finished => true
  | _ => false

def Upload.PastCatalog (up : Upload) : Prop :=
  up.phase.afterCatalog = true ∨ ∃ reply, Event.request .finish reply ∈ up.trace

/-- A request that takes the main task past the catalog, or is the last one, is
sent after the catalog. -/
theorem Upload.pendingRequest_afterCatalog (hpend : up.pendingRequest cfg = some (request, next))
    (hlate : next.afterCatalog = true ∨ request = .finish) : up.phase.afterCatalog = true := by
  have hsends := sends_of_pendingRequest hpend
  generalize up.phase = phase at hsends ⊢
  cases hsends with
  | append | close => rcases hlate with h | h <;> cases h
  | _ => rfl

/-- The reply to a pending request brings the upload past the catalog only if it was. -/
theorem Upload.pastCatalog_of_reply {reply answer : Except PbsError Unit}
    (hpend : up.pendingRequest cfg = some (request, next))
    (hmem : Event.request .finish reply ∈ up.trace ++ [.request request answer]) :
    up.PastCatalog := by
  rcases mem_append.mp hmem with hold | hnew
  · exact .inr ⟨reply, hold⟩
  · obtain ⟨hreq, -⟩ := Event.request.inj (mem_singleton.mp hnew)
    exact .inl (pendingRequest_afterCatalog hpend (.inr hreq.symm))

theorem UploadStep.pastCatalog {exit : Option ChunkerExit} {catalog : Catalog} {up after : Upload}
    (hstep : UploadStep cfg exit catalog up after) (hpast : after.PastCatalog) :
    up.PastCatalog ∨ catalog ≠ .pending := by
  cases hstep with
  | catalogSkipped hphase hcat =>
    right
    -- The two steps that leave the catalog phase look at a settled catalog.
    rcases hcat with rfl | rfl <;> exact nofun
  | catalogEncoded hphase hcat =>
    right
    rw [hcat]
    exact nofun
  | taskMoved hfly htask =>
    refine .inl (hpast.imp_right ?_)
    rintro ⟨reply, hmem⟩
    exact ⟨reply, (mem_append.mp hmem).resolve_right (by cases htask <;> simp)⟩
  | @accepted request next hpend =>
    refine .inl ?_
    rcases hpast with hphase | ⟨reply, hmem⟩
    · exact .inl (Upload.pendingRequest_afterCatalog hpend (.inl hphase))
    · exact Upload.pastCatalog_of_reply hpend hmem
  | @refused request next error hpend =>
    refine .inl ?_
    rcases hpast with hphase | ⟨reply, hmem⟩
    · exact .inl hphase
    · exact Upload.pastCatalog_of_reply hpend hmem
  | manifestEncoded hphase => exact .inl (.inl (by rw [hphase]; rfl))
  | failed | returned | reaped => exact .inl hpast
  | connected =>
    refine .inl (hpast.imp_left fun hphase => ?_)
    revert hphase
    cases cfg.dedupWithPrevious <;> exact nofun
  -- All other steps lead to phases in front of the catalog.
  | _ => exact .inl (hpast.imp_left nofun)

theorem UploadReaches.catalog_settled {producer : StreamProducer Env} {env : Env}
    {state : UploadSystem (StreamSource Env)}
    (hsett : ∀ env stream env' stream', producer.step env stream env' stream' →
      producer.catalog env ≠ .pending → producer.catalog env' ≠ .pending)
    (hrun : UploadReaches cfg producer.feed (StreamSource.new env) state)
    (hpast : state.up.PastCatalog) : producer.catalog state.feed.source.env ≠ .pending := by
  induction hrun with
  | refl =>
    rcases hpast with hphase | ⟨reply, hmem⟩
    · exact nomatch hphase
    · exact nomatch hmem
  | tail _ hlast ih =>
    cases hlast with
    | quiet hquiet =>
      obtain ⟨env', stream, hstep, rfl⟩ := hquiet
      exact hsett _ _ _ _ hstep (ih hpast)
    | read _ _ hread => cases hread <;> exact ih hpast
    | chunk _ _ _ _ hchunk =>
      obtain ⟨_, rest, _, rfl⟩ := hchunk
      exact ih hpast
    | ends _ _ hends => cases hends <;> exact ih hpast
    | upload _ hstep =>
      rcases hstep.pastCatalog hpast with hpre | hcat
      · exact ih hpre
      · exact hcat

end PbsGui.Client
