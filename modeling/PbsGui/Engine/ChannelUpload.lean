import PbsGui.Client.StreamFeed

/-!
# Local uploads: a `ChannelReader` feeding the uploader

The VDI device thread and the file archiver hand their bytes to `backup_dynamic_reader` over a
bounded channel, with a second channel for the verdict on the stream (`vdi.rs`).  The producer
is left free: it may send any buffers, drop either sender or send its verdict at any time and
in any order.
-/

namespace PbsGui.Engine

open Lib Client

/-- The error of a `ChannelReader` whose stream is not whole. -/
def channelReaderFailure (failure : String) : IoError :=
  { kind := .unexpectedEof, text := failure }

/-- A catalog channel is settled once: by a blob or by dropping the sender. -/
inductive CatalogStep : Catalog → Catalog → Prop
  | sent (name : String) (content : Bytes) : CatalogStep .pending (.sent name content)
  | dropped : CatalogStep .pending .dropped

/-- A producer behind `ChannelReader::with_failure` with a channel of `capacity`
buffers. -/
def channelProducer (capacity : Nat) (failure : String) : StreamProducer Catalog where
  capacity := capacity
  failure := channelReaderFailure failure
  catalog := id
  step catalog stream catalog' stream' :=
    (catalog' = catalog ∧ stream.Produces capacity stream') ∨
      (CatalogStep catalog catalog' ∧ stream' = stream)
  produces _ _ _ _ hstep := hstep.symm.imp And.right And.right

/-- The producer of `backup_database_to_pbs`, with the reader of
`ChannelReader::new`. -/
def vdiProducer : StreamProducer Catalog :=
  channelProducer 16
    "the SQL Server BACKUP did not complete; refusing to upload a truncated backup"

/-- The producer of `start_archiver`. -/
def archiverProducer : StreamProducer Catalog :=
  channelProducer 8 "building the file archive failed; refusing to upload a partial archive"

/-- **Truncation safety of the local upload.**  In every run the index is closed
and the snapshot finished only if the data channel was closed and the verdict was
true, and then the chunks in the index are exactly the buffers that were sent.
After a read error, a false verdict or a dropped verdict neither request is ever
issued. -/
theorem channelUpload_commits_whole_streams (capacity : Nat) (failure : String)
    (cfg : UploadConfig) (catalog : Catalog) {state : UploadSystem (StreamSource Catalog)}
    (hrun : UploadReaches cfg (channelProducer capacity failure).feed
      (StreamSource.new catalog) state) :
    (∀ request, state.up.Issued cfg request → request.IsCommit →
      state.feed.source.stream.channel.closed = true ∧
        state.feed.source.stream.channel.verdict = .sent true ∧
        state.up.indexed.flatten = state.feed.source.stream.sent.flatten) ∧
    ((∃ entry ∈ state.feed.source.stream.log, ∃ error, entry.2 = .error error) ∨
        state.feed.source.stream.channel.verdict = .sent false ∨
        state.feed.source.stream.channel.verdict = .dropped →
      ∀ request, state.up.Issued cfg request → ¬ request.IsCommit) := by
  have hwhole : ∀ request, state.up.Issued cfg request → request.IsCommit →
      state.up.indexed = state.feed.emitted ∧ state.feed.exit = some .ok := by
    intro request hissued hcommit
    exact (hrun.inv.issued hissued hcommit).symm
  refine ⟨fun request hissued hcommit => ?_, fun hbad request hissued hcommit => ?_⟩
  · obtain ⟨hindexed, hexit⟩ := hwhole request hissued hcommit
    obtain ⟨hclosed, hverdict, hbytes, -⟩ := hrun.streamFeed.whole hexit
    exact ⟨hclosed, hverdict, hindexed ▸ hbytes⟩
  · obtain ⟨-, hverdict, -, hclean⟩ :=
      hrun.streamFeed.whole (hwhole request hissued hcommit).2
    rcases hbad with ⟨entry, hentry, error, herror⟩ | hfalse | hdropped
    · exact hclean entry hentry error herror
    · exact nomatch hverdict.symm.trans hfalse
    · exact nomatch hverdict.symm.trans hdropped

/-- A producer that sends an empty buffer and `ab`, whose stream is read whole before
its catalog is settled. -/
theorem sampleStream_reads {capacity : Nat} (failure : String) (hcapacity : 1 < capacity) :
    ∃ source : StreamSource Catalog,
      Relation.ReflTransGen (channelProducer capacity failure).feed.Idle
          (StreamSource.new .pending) source ∧
        source.pending = [97, 98] ∧ source.eof = true ∧ source.env = .pending ∧
        source.stream.call = none ∧ source.stream.channel.verdict = .sent true := by
  have hroom : 0 < capacity := Nat.zero_lt_of_lt hcapacity
  exact ⟨_,
    .head (.quiet ⟨_, _, .inl ⟨rfl, .send [] rfl hroom⟩, rfl⟩) <|
    .head (.read (.startRead 8 (by decide) rfl rfl)) <|
    .head (.quiet ⟨_, _, .inl ⟨rfl, .send [97, 98] rfl hcapacity⟩, rfl⟩) <|
    .head (.read (.pulled rfl rfl)) <|
    .head (.read (.pulled rfl rfl)) <|
    .head (.read (.filled rfl rfl)) <|
    .head (.quiet ⟨_, _, .inl ⟨rfl, .close rfl⟩, rfl⟩) <|
    .head (.read (.startRead 6 (by decide) rfl rfl)) <|
    .head (.quiet ⟨_, _, .inl ⟨rfl, .verdict true rfl⟩, rfl⟩) <|
    .head (.read (.filled rfl rfl)) <|
    .refl, rfl, rfl, rfl, rfl, rfl⟩

/-- The sample backup is committed, with every byte in the index. -/
theorem sampleBackup_committed :
    ∃ state : UploadSystem (StreamSource Catalog),
      UploadReaches sampleConfig vdiProducer.feed (StreamSource.new .pending) state ∧
        Event.request .finish (.ok ()) ∈ state.up.trace ∧
        state.feed.source.stream.channel.verdict = .sent true ∧
        state.up.indexed.flatten = state.feed.source.stream.sent.flatten := by
  obtain ⟨source, hidle, hpending, heof, henv, hcall, -⟩ :=
    @sampleStream_reads 16
      "the SQL Server BACKUP did not complete; refusing to upload a truncated backup" (by decide)
  have hdropped : vdiProducer.feed.quiet source { source with env := .dropped } :=
    ⟨_, _, .inr ⟨henv ▸ .dropped, rfl⟩, rfl⟩
  have hfirst : vdiProducer.feed.chunk { source with env := .dropped } [97]
      { source with env := .dropped, pending := [98] } := ⟨hcall, [98], hpending, rfl⟩
  have hsecond : vdiProducer.feed.chunk { source with env := .dropped, pending := [98] } [98]
      { source with env := .dropped, pending := [] } := ⟨hcall, [], rfl, rfl⟩
  obtain ⟨state, hrun, -, -, htrace⟩ := sampleRun_of_feed (hidle.tail (.quiet hdropped))
    hfirst hsecond (ChunkerEnds.finished hcall heof rfl) (.inr rfl)
  have hfinish : Event.request .finish (.ok ()) ∈ state.up.trace := by
    rw [htrace]
    simp [sampleTrace]
  have hcommitted := (channelUpload_commits_whole_streams 16 _ sampleConfig .pending hrun).1
    .finish (.inl ⟨_, hfinish⟩) (.inl rfl)
  exact ⟨state, hrun, hfinish, hcommitted.2⟩

end PbsGui.Engine
