import PbsGui.Client.RoundTrip
import PbsGui.Lib.Window

/-!
# Restoring an archive through the download pipeline

`spawn_chunk_pipeline` (`session.rs`) downloads and decodes the chunks of an archive through a
window of concurrent tasks and emits them in order on a bounded channel, which two restores
drain into a sink.  As long as the sink takes what it is given, both do what the sequential
`restore_dynamic_archive` does, on every schedule.
-/

namespace PbsGui.Client

open Lib List

/-- What the chunks are handed to.  `write` is told what it was given before. -/
structure ChunkSink where
  write : List Bytes → Bytes → Except IoError Unit
  flush : Except IoError Unit

def ChunkSink.AcceptsAll (sink : ChunkSink) : Prop :=
  (∀ before chunk, sink.write before chunk = .ok ()) ∧ sink.flush = .ok ()

/-- A call of one of the two streaming restores: the pipeline, the bytes counted
so far and the returned value. -/
structure StreamRestore where
  window : Window (Digest × Nat) Bytes PbsError
  written : UInt64
  result : Option (Except PbsError UInt64)

/-- The pipeline over the chunks of an index, each with its place. -/
def spawnChunkPipeline (width : Nat) (digests : List Digest) :
    Window (Digest × Nat) Bytes PbsError :=
  Window.start width digests.zipIdx

/-- The call after the index was downloaded: the pipeline is spawned, or the
error of the index is returned. -/
def StreamRestore.start (width : Nat) : Except PbsError (List Digest) → StreamRestore
  | .ok digests => { window := spawnChunkPipeline width digests, written := 0, result := none }
  | .error error =>
    { window := spawnChunkPipeline width [], written := 0, result := some (.error error) }

/-- What the call returns when the channel is closed: the pipeline's own error,
then the error of the flush, then the count. -/
def StreamRestore.joinPipeline (sink : ChunkSink) (outcome : Except PbsError Unit)
    (written : UInt64) : Except PbsError UInt64 :=
  match outcome, sink.flush with
  | .error error, _ => .error error
  | .ok (), .error error => .error (.io error)
  | .ok (), .ok () => .ok written

/-- One step of the pipeline or of the loop that drains it. -/
inductive StreamStep (fetch : Digest × Nat → Except PbsError Bytes) (width : Nat)
    (sink : ChunkSink) (state : StreamRestore) : StreamRestore → Prop
  | pipeline {after : Window (Digest × Nat) Bytes PbsError}
      (hstep : Window.Step fetch width state.window after) :
      StreamStep fetch width sink state { state with window := after }
  | wrote {chunk : Bytes} {more : List Bytes} (hrunning : state.result = none)
      (hchannel : state.window.channel = chunk :: more)
      (hwrite : sink.write state.window.taken chunk = .ok ()) :
      StreamStep fetch width sink state
        { state with
          window := state.window.take chunk more
          written := state.written + UInt64.ofNat chunk.length }
  /-- A failed write returns at once, which drops the receiver. -/
  | writeFailed {chunk : Bytes} {more : List Bytes} {error : IoError}
      (hrunning : state.result = none)
      (hchannel : state.window.channel = chunk :: more)
      (hwrite : sink.write state.window.taken chunk = .error error) :
      StreamStep fetch width sink state
        { state with
          window := (state.window.take chunk more).dropReceiver
          result := some (.error (.io error)) }
  | joined {outcome : Except PbsError Unit} (hrunning : state.result = none)
      (hchannel : state.window.channel = [])
      (hended : state.window.producer = .ended outcome) :
      StreamStep fetch width sink state
        { state with
          result := some (StreamRestore.joinPipeline sink outcome state.written) }

def ReaderClient.fetchItem (prims : Primitives) (client : ReaderClient)
    (crypt : Option CryptConfig) (item : Digest × Nat) : Except PbsError Bytes :=
  client.fetchChunk prims crypt item.2 item.1

/-- The states a streaming restore into a sink can reach. -/
def StreamReaches (prims : Primitives) (client : ReaderClient) (width : Nat)
    (archiveName : String) (crypt : Option CryptConfig) (sink : ChunkSink) :
    StreamRestore → Prop :=
  Relation.ReflTransGen (StreamStep (client.fetchItem prims crypt) width sink)
    (StreamRestore.start width (client.archiveDigests prims archiveName))

namespace ReaderClient

/-- `restore_dynamic_archive_to_writer`: the sink writes and is flushed. -/
def restoreDynamicArchiveToWriter (prims : Primitives) (client : ReaderClient) (width : Nat)
    (archiveName : String) (crypt : Option CryptConfig) (out : ChunkSink) :
    StreamRestore → Prop :=
  StreamReaches prims client width archiveName crypt out

/-- `restore_dynamic_archive_streamed`: the sink is a callback, with nothing to
flush.  The callback's chunk is counted before the call and not after it, which
no caller can see: a failed callback returns the error. -/
def restoreDynamicArchiveStreamed (prims : Primitives) (client : ReaderClient) (width : Nat)
    (archiveName : String) (crypt : Option CryptConfig)
    (onChunk : List Bytes → Bytes → Except IoError Unit) : StreamRestore → Prop :=
  StreamReaches prims client width archiveName crypt { write := onChunk, flush := .ok () }

end ReaderClient

theorem restoreFrom_eq (fetch : Nat → Digest → Except PbsError Bytes) (digests : List Digest)
    (position : Nat) (out : Bytes) :
    ReaderClient.restoreFrom fetch position digests out =
      match fetchAll (fun item : Digest × Nat => fetch item.2 item.1)
        (digests.zipIdx position) with
      | (chunks, none) => .ok (out ++ chunks.flatten)
      | (_, some error) => .error error := by
  induction digests generalizing position out with
  | nil => simp [ReaderClient.restoreFrom, fetchAll]
  | cons digest digests ih =>
    rw [zipIdx_cons, fetchAll]
    cases hfetch : fetch position digest with
    | error =>
      simp only [ReaderClient.restoreFrom, hfetch]
      rfl
    | ok chunk =>
      simp only [ReaderClient.restoreFrom, hfetch]
      refine (ih (position + 1) (out ++ chunk)).trans ?_
      split <;> simp_all

theorem restoreDynamicArchive_of_digests {prims : Primitives} {client : ReaderClient}
    {archiveName : String} {digests : List Digest} (crypt : Option CryptConfig)
    (h : client.archiveDigests prims archiveName = .ok digests) :
    client.restoreDynamicArchive prims archiveName crypt =
      match fetchAll (client.fetchItem prims crypt) digests.zipIdx with
      | (chunks, none) => .ok chunks.flatten
      | (_, some error) => .error error := by
  simp only [ReaderClient.restoreDynamicArchive, h]
  exact restoreFrom_eq (client.fetchChunk prims crypt) digests 0 []

/-! ### The pipeline refines the loop -/

/-- A streaming restore whose sink has taken everything it was given. -/
structure StreamInv (fetch : Digest × Nat → Except PbsError Bytes) (width : Nat)
    (sink : ChunkSink) (digests : List Digest) (state : StreamRestore) : Prop where
  ordered : state.window.Ordered fetch width digests.zipIdx
  counted : state.written = UInt64.ofNat state.window.taken.flatten.length
  returned : ∀ result, state.result = some result → state.window.channel = [] ∧
    ∃ outcome, state.window.producer = .ended outcome ∧
      result = StreamRestore.joinPipeline sink outcome state.written

section Refinement

variable {fetch : Digest × Nat → Except PbsError Bytes} {width : Nat} {sink : ChunkSink}
  {digests : List Digest} {state after : StreamRestore}

theorem StreamInv.start :
    StreamInv fetch width sink digests (StreamRestore.start width (.ok digests)) where
  ordered := Window.Ordered.start fetch width digests.zipIdx
  counted := rfl
  returned _ h := nomatch h

theorem StreamInv.step (hwidth : 0 < width)
    (hwrites : ∀ before chunk, sink.write before chunk = .ok ())
    (h : StreamInv fetch width sink digests state)
    (hstep : StreamStep fetch width sink state after) :
    StreamInv fetch width sink digests after := by
  cases hstep with
  | @pipeline window hstep =>
    refine ⟨h.ordered.step hwidth hstep, ?_, ?_⟩
    · rw [hstep.taken_eq]
      exact h.counted
    · intro result hres
      obtain ⟨hchan, outcome, hended, hjoin⟩ := h.returned result hres
      obtain ⟨hprod, hsame⟩ := hstep.of_ended hended
      exact ⟨hsame.trans hchan, outcome, hprod, hjoin⟩
  | @wrote chunk more hrun hchan hwrite =>
    refine ⟨h.ordered.take hchan, ?_, fun result hres => nomatch hrun.symm.trans hres⟩
    change state.written + _ = UInt64.ofNat (state.window.taken ++ [chunk]).flatten.length
    rw [h.counted, ← UInt64.ofNat_add]
    simp
  | writeFailed hrun hchan hwrite =>
    rw [hwrites] at hwrite
    cases hwrite
  | @joined outcome hrun hchan hended =>
    refine ⟨h.ordered, h.counted, fun result hres => ⟨hchan, outcome, hended, ?_⟩⟩
    exact (Option.some.inj hres).symm

def StreamRestore.weight (state : StreamRestore) : Nat :=
  state.window.weight + if state.result.isNone then 1 else 0

theorem StreamStep.weight_lt (hstep : StreamStep fetch width sink state after) :
    after.weight < state.weight := by
  cases hstep with
  | pipeline hstep => exact Nat.add_lt_add_right (Window.weight_step hstep) _
  | wrote hrun hchan => exact Nat.add_lt_add_right (Window.weight_take hchan) _
  | @writeFailed chunk more error hrun hchan hwrite =>
    have hless : (state.window.take chunk more).dropReceiver.weight < state.window.weight :=
      Window.weight_take hchan
    simp only [StreamRestore.weight, hrun, Option.isNone_none, Option.isNone_some, if_true,
      Bool.false_eq_true, if_false]
    omega
  | joined hrun =>
    simp only [StreamRestore.weight, hrun, Option.isNone_none, Option.isNone_some, if_true,
      Bool.false_eq_true, if_false]
    omega

theorem streamStep_terminates (state : StreamRestore) :
    Transition.Terminates (StreamStep fetch width sink) state :=
  Transition.terminates_of_measure StreamRestore.weight
    (fun _ _ _ _ => trivial) (fun _ _ (_ : True) hstep => hstep.weight_lt) trivial

theorem StreamInv.progress (hwidth : 0 < width) (hsink : sink.AcceptsAll)
    (h : StreamInv fetch width sink digests state) (hrun : state.result = none) :
    ∃ after, StreamStep fetch width sink state after := by
  cases hchan : state.window.channel with
  | cons => exact ⟨_, .wrote hrun hchan (hsink.1 _ _)⟩
  | nil =>
    cases hprod : state.window.producer with
    | ended => exact ⟨_, .joined hrun hchan hprod⟩
    | _ =>
      obtain ⟨window, hstep⟩ := Window.exists_step fetch hwidth h.ordered.listening hchan
        (by simp [hprod])
      exact ⟨_, .pipeline hstep⟩

end Refinement

section Streaming

variable {prims : Primitives} {client : ReaderClient} {width : Nat} {archiveName : String}
  {crypt : Option CryptConfig} {sink : ChunkSink} {state : StreamRestore}

variable {digests : List Digest}

/-- The invariant of every reachable state of a streaming restore whose index
was downloaded. -/
theorem StreamReaches.inv (hwidth : 0 < width)
    (hwrites : ∀ before chunk, sink.write before chunk = .ok ())
    (hdigests : client.archiveDigests prims archiveName = .ok digests)
    (hreach : StreamReaches prims client width archiveName crypt sink state) :
    StreamInv (client.fetchItem prims crypt) width sink digests state := by
  unfold StreamReaches at hreach
  rw [hdigests] at hreach
  exact Transition.invariant_of_reachable StreamInv.start
    (fun _ _ hpre hstep => hpre.step hwidth hwrites hstep) hreach

section

variable (h : StreamInv (client.fetchItem prims crypt) width sink digests state)
  (hdigests : client.archiveDigests prims archiveName = .ok digests)

include h hdigests

/-- A call whose sink can be flushed returns what the sequential restore returns, as
a length. -/
theorem StreamInv.result_eq {result : Except PbsError UInt64} (hflush : sink.flush = .ok ())
    (hres : state.result = some result) :
    result = (client.restoreDynamicArchive prims archiveName crypt).map
      fun out => UInt64.ofNat out.length := by
  obtain ⟨hchan, outcome, hended, rfl⟩ := h.returned result hres
  rw [restoreDynamicArchive_of_digests crypt hdigests, h.ordered.ended hended hchan]
  cases outcome with
  | error => rfl
  | ok =>
    simp only [StreamRestore.joinPipeline, hflush, h.counted]
    rfl

/-- A call that has returned Ok has delivered what the sequential restore returns. -/
theorem StreamInv.restored {count : UInt64} (hok : state.result = some (.ok count)) :
    client.restoreDynamicArchive prims archiveName crypt = .ok state.window.taken.flatten ∧
      count = UInt64.ofNat state.window.taken.flatten.length := by
  obtain ⟨hchan, outcome, hended, hjoin⟩ := h.returned _ hok
  have hall := h.ordered.ended hended hchan
  rw [restoreDynamicArchive_of_digests crypt hdigests, hall, ← h.counted]
  cases outcome with
  | error => cases hjoin
  | ok =>
    refine ⟨rfl, ?_⟩
    cases hflush : sink.flush with
    | error => simp [StreamRestore.joinPipeline, hflush] at hjoin
    | ok => simpa [StreamRestore.joinPipeline, hflush] using hjoin

end

theorem StreamReaches.accepting
    (hreach : StreamReaches prims client width archiveName crypt sink state) :
    (∃ error, state.result = some (.error error)) ∨
      StreamReaches prims client width archiveName crypt
        { sink with write := fun _ _ => .ok () } state := by
  induction hreach with
  | refl => exact Or.inr .refl
  | tail _ hlast ih =>
    rcases ih with ⟨error, hfail⟩ | hpre
    · -- A call that has returned keeps its value; only the pipeline can still move.
      cases hlast with
      | pipeline => exact Or.inl ⟨error, hfail⟩
      | wrote hrun | writeFailed hrun | joined hrun => cases hrun.symm.trans hfail
    · cases hlast with
      | pipeline hstep => exact Or.inr (hpre.tail (.pipeline hstep))
      | wrote hrun hchan => exact Or.inr (hpre.tail (.wrote hrun hchan rfl))
      | @writeFailed _ _ error => exact Or.inl ⟨_, rfl⟩
      | joined hrun hchan hended =>
        exact Or.inr (hpre.tail (.joined hrun hchan hended))

theorem StreamReaches.index_failed (hreach : StreamReaches prims client width archiveName crypt
    sink state) {error : PbsError} (herror : client.archiveDigests prims archiveName = .error error) :
    state.result = some (.error error) := by
  unfold StreamReaches at hreach
  rw [herror] at hreach
  induction hreach with
  | refl => rfl
  | tail _ hlast ih =>
    cases hlast with
    | pipeline => exact ih
    | wrote hrun | writeFailed hrun | joined hrun =>
      exact nomatch hrun.symm.trans ih

theorem exists_returned (prims : Primitives) (client : ReaderClient) (archiveName : String)
    (crypt : Option CryptConfig) (hwidth : 0 < width) (hsink : sink.AcceptsAll) :
    ∃ state, StreamReaches prims client width archiveName crypt sink state ∧
      state.result ≠ none := by
  unfold StreamReaches
  cases client.archiveDigests prims archiveName with
  | error => exact ⟨_, .refl, by simp [StreamRestore.start]⟩
  | ok digests =>
    exact Transition.exists_finished_of_terminates
      (fun _ _ hpre hstep => hpre.step hwidth hsink.1 hstep)
      (fun state hstate hrun => hstate.progress hwidth hsink (not_not.mp hrun))
      (@StreamInv.start (client.fetchItem prims crypt) width sink digests)
      (streamStep_terminates _)

theorem streamReaches_of_either (hsink : sink.AcceptsAll)
    (hreach : client.restoreDynamicArchiveToWriter prims width archiveName crypt sink state ∨
      client.restoreDynamicArchiveStreamed prims width archiveName crypt sink.write state) :
    StreamReaches prims client width archiveName crypt sink state := by
  rcases hreach with hwriter | hstreamed
  · exact hwriter
  · have hsame : ({ write := sink.write, flush := .ok () } : ChunkSink) = sink := by
      rw [← hsink.2]
    rw [ReaderClient.restoreDynamicArchiveStreamed, hsame] at hstreamed
    exact hstreamed

/-- **The pipeline refines the sequential restore.**  For every pipeline width of
at least one, every completion order of the downloads and every set of failing
chunks, as long as the sink takes what it is given:

* what has been delivered is at any time a beginning of the chunks before the
  first failing one, in index order;
* when the call returns it has delivered exactly those, it returns an error
  exactly when the index or some chunk fails, and it returns what the sequential
  restore returns, as a length; the delivered bytes are then those of the
  sequential restore;
* every run is finite, and a call that has not returned can always go on. -/
theorem streamRestore_refines_restoreDynamicArchive (hwidth : 1 ≤ width)
    (hsink : sink.AcceptsAll)
    (hreach : client.restoreDynamicArchiveToWriter prims width archiveName crypt sink state ∨
      client.restoreDynamicArchiveStreamed prims width archiveName crypt sink.write state) :
    (∀ digests, client.archiveDigests prims archiveName = .ok digests →
      state.window.taken <+: (fetchAll (client.fetchItem prims crypt) digests.zipIdx).1) ∧
    (∀ result, state.result = some result →
      result = (client.restoreDynamicArchive prims archiveName crypt).map
          (fun out => UInt64.ofNat out.length) ∧
        (∀ out, client.restoreDynamicArchive prims archiveName crypt = .ok out →
          state.window.taken.flatten = out) ∧
        ∀ digests, client.archiveDigests prims archiveName = .ok digests →
          state.window.taken = (fetchAll (client.fetchItem prims crypt) digests.zipIdx).1 ∧
            ((∃ error, result = .error error) ↔
              ∃ item ∈ digests.zipIdx, ∃ error,
                client.fetchItem prims crypt item = .error error)) ∧
    Transition.Terminates (StreamStep (client.fetchItem prims crypt) width sink) state ∧
    (state.result = none →
      ∃ after, StreamStep (client.fetchItem prims crypt) width sink state after) := by
  have hstream := streamReaches_of_either hsink hreach
  cases hdigests : client.archiveDigests prims archiveName with
  | error error =>
    -- Without an index neither restore fetches anything.
    have hresult := hstream.index_failed hdigests
    have hsequential : client.restoreDynamicArchive prims archiveName crypt = .error error := by
      simp only [ReaderClient.restoreDynamicArchive, hdigests]
      rfl
    refine ⟨by rintro _ ⟨⟩, fun result h => ?_, streamStep_terminates state,
      fun h => by cases hresult.symm.trans h⟩
    obtain rfl := Option.some.inj (hresult.symm.trans h)
    rw [hsequential]
    exact ⟨rfl, by rintro _ ⟨⟩, by rintro _ ⟨⟩⟩
  | ok digests =>
    have hinv := hstream.inv hwidth hsink.1 hdigests
    have hsequential := restoreDynamicArchive_of_digests crypt hdigests
    refine ⟨?_, ?_, streamStep_terminates state, hinv.progress hwidth hsink⟩
    · intro digests' hsame
      obtain rfl := Except.ok.inj hsame
      have hbegin := hinv.ordered.values_prefix
      rw [append_assoc] at hbegin
      exact (prefix_append _ _).trans hbegin
    · intro result hresult
      -- The call returns after the channel is drained, so all values of the window were taken.
      obtain ⟨hchannel, outcome, hended, hjoin⟩ := hinv.returned result hresult
      have hall := hinv.ordered.ended hended hchannel
      have hfails := @fetchAll_error_iff _ _ _ (client.fetchItem prims crypt) digests.zipIdx
      refine ⟨hinv.result_eq hdigests hsink.2 hresult, ?_, ?_⟩
      · intro out hout
        rw [hsequential, hall] at hout
        cases outcome with
        | error => cases hout
        | ok => exact Except.ok.inj hout
      · intro digests' hsame
        obtain rfl := Except.ok.inj hsame
        refine ⟨by rw [hall], ?_⟩
        rw [← hfails, hall, hjoin]
        cases outcome with
        | error => simp [StreamRestore.joinPipeline]
        | ok => simp [StreamRestore.joinPipeline, hsink.2]

end Streaming

def sampleSink : ChunkSink := { write := fun _ _ => .ok (), flush := .ok () }

theorem fetchItem_encodeUncompressed {prims : Primitives} {client : ReaderClient}
    {item : Digest × Nat} {data : Bytes}
    (hans : client.downloadChunk item.2 item.1 = .ok (encodeUncompressed prims data))
    (hdig : prims.sha256 data = item.1) :
    client.fetchItem prims none item = .ok data := by
  simp only [ReaderClient.fetchItem, ReaderClient.fetchChunk, hans]
  refine decodeAndVerifyChunk_ok_iff.mpr ⟨?_, hdig⟩
  rw [decodeBlob_of_plain (Or.inl (slice_encodeUncompressed _ _)), decode_encodeUncompressed]

theorem sampleClient_restore :
    sampleClient.restoreDynamicArchive samplePrimitives "db.didx" none = .ok [97, 98] := by
  have hdown : sampleClient.download "db.didx" = .ok (sampleIndex.serialize samplePrimitives) := rfl
  have hfirst : sampleClient.fetchItem samplePrimitives none (sampleDigestA, 0) = .ok [97] :=
    fetchItem_encodeUncompressed rfl rfl
  have hsnd : sampleClient.fetchItem samplePrimitives none (sampleDigestB, 1) = .ok [98] :=
    fetchItem_encodeUncompressed rfl rfl
  rw [restoreDynamicArchive_of_digests none (archiveDigests_of_serialize hdown)]
  simp [sampleIndex, fetchAll, hfirst, hsnd]

/-- The sample archive through a window of two: some run returns, and what it has
delivered and returned is the sequential restore. -/
theorem sampleClient_streamed : ∃ state,
    sampleClient.restoreDynamicArchiveToWriter samplePrimitives 2 "db.didx" none sampleSink
        state ∧
      state.result = some (.ok 2) ∧ state.window.taken.flatten = [97, 98] := by
  obtain ⟨state, hstate, hreturned⟩ := @exists_returned 2 sampleSink samplePrimitives sampleClient
    "db.didx" none (by decide) ⟨fun _ _ => rfl, rfl⟩
  obtain ⟨result, hresult⟩ := Option.ne_none_iff_exists'.mp hreturned
  obtain ⟨-, hall, -, -⟩ := streamRestore_refines_restoreDynamicArchive (by decide)
    ⟨fun _ _ => rfl, rfl⟩ (Or.inl hstate)
  obtain ⟨hsame, hbytes, -⟩ := hall result hresult
  rw [sampleClient_restore] at hsame
  exact ⟨state, hstate, hresult.trans (congrArg some hsame), hbytes _ sampleClient_restore⟩

end PbsGui.Client
