import PbsGui.Client.RestoreIntegrity
import PbsGui.Relay.Agent

/-!
# A relay restore from the download to the agent

In `restore_one_streamed` a task downloads the archive from PBS and sends its chunks
over a bounded channel to `push_data`, which writes them as data frames to the agent;
`run_restore_session` feeds them to the device.

`push_data` writes an `End` frame that says ok once the channel is closed, and a download that
fails closes it the way one that is done does.
-/

namespace PbsGui.Relay

open Lib Client List

/-- The download task.  Its sender is dropped when it ends. -/
inductive Download
  | connecting
  | streaming (state : StreamRestore)
  | finished
  /-- It has returned an error, or has panicked. -/
  | failed

def Download.ended : Download → Bool
  | connecting | streaming _ => false
  | finished | failed => true

/-- Where `push_data` is. -/
inductive Writer
  | receiving
  /-- The channel is closed and empty. -/
  | ending
  /-- The `End` frame is out; it waits for the agent to close. -/
  | draining
  | finished
  /-- It has returned because the agent is gone. -/
  | stopped

def Writer.listens : Writer → Bool
  | receiving | ending | draining => true
  | finished | stopped => false

def Writer.sawEnd : Writer → Bool
  | receiving | stopped => false
  | ending | draining | finished => true

/-- Where `run_restore_session` is, from the `Hello` frame on; `rest` is what has arrived
and is not read yet. -/
inductive RestorePhase
  | reading (rest : Bytes)
  /-- It hands a payload to the device. -/
  | feeding (payload rest : Bytes)
  /-- The loop is over, with `stream_ok`, and the device is awaited. -/
  | joining (streamOk : Bool)
  | returned (result : Except String UInt64)

def RestorePhase.extend (more : Bytes) : RestorePhase → RestorePhase
  | reading rest => reading (rest ++ more)
  | feeding payload rest => feeding payload (rest ++ more)
  | joining streamOk => joining streamOk
  | returned result => returned result

/-- The restore: the download task and its channel, the writer and the data connection, the
agent's session with its device.  No step reads the last three fields: the chunks the
channel accepted, those written as data frames, and those the agent has read. -/
structure RelayRestore where
  download : Download
  queue : List Bytes
  writer : Writer
  wire : Bytes
  /-- The part of `wire` that has reached the agent. -/
  arrived : Bytes
  phase : RestorePhase
  device : DeviceThread
  deviceQueue : List Bytes
  /-- The device still takes what it is fed. -/
  deviceReads : Bool
  handed : List Bytes
  written : List Bytes
  received : List Bytes

/-- The data connection is there, and the download task has been spawned. -/
def RelayRestore.start : RelayRestore where
  download := .connecting
  queue := []
  writer := .receiving
  wire := []
  arrived := []
  phase := .reading []
  device := .running
  deviceQueue := []
  deviceReads := true
  handed := []
  written := []
  received := []

def RelayRestore.endWriter (restore : RelayRestore) (writer : Writer) : RelayRestore :=
  { restore with writer := writer, queue := [] }

/-- The archive that is restored: where it is and how it is read. -/
structure RestoreSource where
  prims : Primitives
  client : ReaderClient
  width : Nat
  archiveName : String
  crypt : Option CryptConfig

namespace RestoreSource

variable (source : RestoreSource)

def fetch : Digest × Nat → Except PbsError Bytes :=
  source.client.fetchItem source.prims source.crypt

def image : Except PbsError Bytes :=
  source.client.restoreDynamicArchive source.prims source.archiveName source.crypt

/-- The streaming restore after the index was downloaded. -/
def stream : StreamRestore :=
  StreamRestore.start source.width (source.client.archiveDigests source.prims source.archiveName)

end RestoreSource

/-- The error of the callback when the channel has no receiver. -/
def restoreStopped : IoError := { kind := .brokenPipe, text := "restore consumer stopped" }

def noFlush : ChunkSink := { write := fun _ _ => .ok (), flush := .ok () }

/-- One step of the download task. -/
inductive DownloadStep (source : RestoreSource) (restore : RelayRestore) : RelayRestore → Prop
  | connected (hdownload : restore.download = .connecting) :
      DownloadStep source restore { restore with download := .streaming source.stream }
  | notConnected (hdownload : restore.download = .connecting) :
      DownloadStep source restore { restore with download := .failed }
  | pipeline {state : StreamRestore} {window : Window (Digest × Nat) Bytes PbsError}
      (hdownload : restore.download = .streaming state)
      (hstep : Window.Step source.fetch source.width state.window window) :
      DownloadStep source restore
        { restore with download := .streaming { state with window := window } }
  | sent {state : StreamRestore} {chunk : Bytes} {more : List Bytes}
      (hdownload : restore.download = .streaming state) (hrunning : state.result = none)
      (hchannel : state.window.channel = chunk :: more)
      (hlistens : restore.writer.listens = true) (hroom : restore.queue.length < dataQueue) :
      DownloadStep source restore
        { restore with
          download := .streaming
            { state with
              window := state.window.take chunk more
              written := state.written + UInt64.ofNat chunk.length }
          queue := restore.queue ++ [chunk]
          handed := restore.handed ++ [chunk] }
  | refused {state : StreamRestore} {chunk : Bytes} {more : List Bytes}
      (hdownload : restore.download = .streaming state) (hrunning : state.result = none)
      (hchannel : state.window.channel = chunk :: more)
      (hlistens : restore.writer.listens = false) :
      DownloadStep source restore
        { restore with
          download := .streaming
            { state with
              window := (state.window.take chunk more).dropReceiver
              result := some (.error (.io restoreStopped)) } }
  | joined {state : StreamRestore} {outcome : Except PbsError Unit}
      (hdownload : restore.download = .streaming state) (hrunning : state.result = none)
      (hchannel : state.window.channel = [])
      (hended : state.window.producer = .ended outcome) :
      DownloadStep source restore
        { restore with
          download := .streaming
            { state with
              result := some (StreamRestore.joinPipeline noFlush outcome state.written) } }
  | returned {state : StreamRestore} {count : UInt64}
      (hdownload : restore.download = .streaming state) (hresult : state.result = some (.ok count)) :
      DownloadStep source restore { restore with download := .finished }
  | notReturned {state : StreamRestore} {error : PbsError}
      (hdownload : restore.download = .streaming state)
      (hresult : state.result = some (.error error)) :
      DownloadStep source restore { restore with download := .failed }
  | panicked (hdownload : restore.download.ended = false) :
      DownloadStep source restore { restore with download := .failed }

/-- One step of `push_data`. -/
inductive WriterStep (codec : ControlCodec) (restore : RelayRestore) : RelayRestore → Prop
  | wrote {chunk frame : Bytes} {more : List Bytes} (hwriter : restore.writer = .receiving)
      (hqueue : restore.queue = chunk :: more) (hframe : writeData chunk = .ok frame) :
      WriterStep codec restore
        { restore with
          queue := more, wire := restore.wire ++ frame, written := restore.written ++ [chunk] }
  | refused {chunk : Bytes} {more : List Bytes} {error : IoError}
      (hwriter : restore.writer = .receiving) (hqueue : restore.queue = chunk :: more)
      (hframe : writeData chunk = .error error) :
      WriterStep codec restore (restore.endWriter .stopped)
  | writeFailed {chunk frame reached : Bytes} {more : List Bytes}
      (hwriter : restore.writer = .receiving) (hqueue : restore.queue = chunk :: more)
      -- part of the frame may have reached the connection before the write failed
      (hframe : writeData chunk = .ok frame) (hreached : reached <+: frame) :
      WriterStep codec restore
        ({ restore with wire := restore.wire ++ reached }.endWriter .stopped)
  | channelClosed (hwriter : restore.writer = .receiving) (hqueue : restore.queue = [])
      -- a failed download looks the same from here
      (hended : restore.download.ended = true) :
      WriterStep codec restore { restore with writer := .ending }
  | ended {frame reached : Bytes} (hwriter : restore.writer = .ending)
      (hframe : writeControl codec (.ended true none) = .ok frame) (hreached : reached <+: frame) :
      WriterStep codec restore
        { restore with wire := restore.wire ++ reached, writer := .draining }
  | notEncoded {error : IoError} (hwriter : restore.writer = .ending)
      (hframe : writeControl codec (.ended true none) = .error error) :
      WriterStep codec restore { restore with writer := .draining }
  | drained (hwriter : restore.writer = .draining) :
      WriterStep codec restore (restore.endWriter .finished)

/-- What the session returns: a device error first, then whether the stream was whole. -/
def restoreResult (deviceResult : Except String UInt64) (streamOk : Bool) : Except String UInt64 :=
  match deviceResult with
  | .error error => .error error
  | .ok bytes =>
    if streamOk then .ok bytes
    else .error "the restore image stream from the proxy did not complete"

/-- One step of the agent's session, its device and the connection.  A session that waits for
bytes may find the connection cut or failed at any time. -/
inductive SessionStep (codec : ControlCodec) (restore : RelayRestore) : RelayRestore → Prop
  | arrive {more : Bytes} (hmore : restore.arrived ++ more <+: restore.wire) :
      SessionStep codec restore
        { restore with
          arrived := restore.arrived ++ more, phase := restore.phase.extend more }
  | received (tail : StreamTail) {bytes payload rest : Bytes}
      (hphase : restore.phase = .reading bytes)
      (haction : pumpAction codec tail bytes = .forward payload rest) :
      SessionStep codec restore
        { restore with
          phase := .feeding payload rest, received := restore.received ++ [payload] }
  | fed {payload rest : Bytes} (hphase : restore.phase = .feeding payload rest)
      (hreads : restore.deviceReads = true) (hroom : restore.deviceQueue.length < dataQueue) :
      SessionStep codec restore
        { restore with
          phase := .reading rest, deviceQueue := restore.deviceQueue ++ [payload] }
  | notFed {payload rest : Bytes} (hphase : restore.phase = .feeding payload rest)
      (hreads : restore.deviceReads = false) :
      SessionStep codec restore { restore with phase := .joining false }
  | ended (tail : StreamTail) {bytes : Bytes} {ok : Bool} (hphase : restore.phase = .reading bytes)
      (haction : pumpAction codec tail bytes = .ended ok) :
      SessionStep codec restore { restore with phase := .joining ok }
  | truncated (tail : StreamTail) {bytes : Bytes} (hphase : restore.phase = .reading bytes)
      (haction : pumpAction codec tail bytes = .stopped) :
      SessionStep codec restore { restore with phase := .joining false }
  | deviceTook {buffer : Bytes} {more : List Bytes} (hqueue : restore.deviceQueue = buffer :: more) :
      SessionStep codec restore { restore with deviceQueue := more }
  | deviceReturned (result : Except String UInt64) (hdevice : restore.device = .running) :
      SessionStep codec restore
        { restore with device := .returned result, deviceReads := false, deviceQueue := [] }
  | devicePanicked (text : String) (hdevice : restore.device = .running) :
      SessionStep codec restore
        { restore with device := .panicked text, deviceReads := false, deviceQueue := [] }
  | joined {streamOk : Bool} {result : Except String UInt64}
      (hphase : restore.phase = .joining streamOk) (hdevice : restore.device = .returned result) :
      SessionStep codec restore
        { restore with phase := .returned (restoreResult result streamOk) }
  | notJoined {streamOk : Bool} {text : String} (hphase : restore.phase = .joining streamOk)
      (hdevice : restore.device = .panicked text) :
      SessionStep codec restore
        { restore with phase := .returned (.error ("device thread panicked: " ++ text)) }

/-- One step of a relay restore. -/
inductive RestoreStep (codec : ControlCodec) (source : RestoreSource) (restore : RelayRestore) :
    RelayRestore → Prop
  | download {after : RelayRestore} (hstep : DownloadStep source restore after) :
      RestoreStep codec source restore after
  | writer {after : RelayRestore} (hstep : WriterStep codec restore after) :
      RestoreStep codec source restore after
  | session {after : RelayRestore} (hstep : SessionStep codec restore after) :
      RestoreStep codec source restore after

/-! ### What holds in every state -/

/-- What the download task has handed to the channel. -/
def Download.Handed (source : RestoreSource) (handed : List Bytes) : Download → Prop
  | connecting => handed = []
  | streaming state => (∃ error, state.result = some (.error error)) ∨
      StreamReaches source.prims source.client source.width source.archiveName source.crypt
        noFlush state ∧ handed = state.window.taken
  | finished => source.image = .ok handed.flatten
  | failed => True

/-- What the connection carries after the data frames. -/
def Writer.Cut (codec : ControlCodec) (cut : Bytes) : Writer → Prop
  | receiving | ending => cut = []
  | draining | finished => cut = [] ∨ ∃ json, codec.toVec (.ended true none) = .ok json ∧
      json.length ≤ maxFrame ∧ cut <+: rawFrame kindControl json
  | stopped => ∃ chunk : Bytes, chunk.length ≤ maxFrame ∧ cut <+: rawFrame kindData chunk

/-- What the session has made of the bytes that have arrived. -/
def RestorePhase.Parsed (codec : ControlCodec) (arrived : Bytes) (received : List Bytes) :
    RestorePhase → Prop
  | reading rest | feeding _ rest => (∀ payload ∈ received, payload.length ≤ maxFrame) ∧
      arrived = received.flatMap (rawFrame kindData) ++ rest
  | joining streamOk => streamOk = true → EndedStream codec arrived received true
  | returned result => ∀ bytes, result = .ok bytes → EndedStream codec arrived received true

/-- What holds in every state of a restore. -/
structure RestoreInv (codec : ControlCodec) (source : RestoreSource) (restore : RelayRestore) :
    Prop where
  download : restore.download.Handed source restore.handed
  queued : restore.writer = .receiving → restore.handed = restore.written ++ restore.queue
  closed : restore.writer.sawEnd = true →
    restore.download.ended = true ∧ restore.handed = restore.written
  sizes : ∀ chunk ∈ restore.written, chunk.length ≤ maxFrame
  wire : ∃ cut, restore.wire = restore.written.flatMap (rawFrame kindData) ++ cut ∧
    restore.writer.Cut codec cut
  arrived : restore.arrived <+: restore.wire
  parsed : restore.phase.Parsed codec restore.arrived restore.received

section Invariant

variable {codec : ControlCodec} {source : RestoreSource} {restore after : RelayRestore}

theorem RestoreInv.start : RestoreInv codec source RelayRestore.start where
  download := rfl
  queued _ := rfl
  closed h := by cases h
  sizes _ h := by cases h
  wire := ⟨[], rfl, rfl⟩
  arrived := prefix_refl _
  parsed := ⟨nofun, rfl⟩

theorem DownloadStep.running (hstep : DownloadStep source restore after) :
    restore.download.ended = false := by
  cases hstep with
  | panicked hdown => exact hdown
  | connected hdown | notConnected hdown | pipeline hdown | sent hdown
  | refused hdown | joined hdown | returned hdown | notReturned hdown =>
    rw [hdown]
    rfl

theorem RestoreInv.withDownload (h : RestoreInv codec source restore)
    (hrun : restore.download.ended = false) {download : Download}
    (hdown : download.Handed source restore.handed) :
    RestoreInv codec source { restore with download := download } := by
  refine ⟨hdown, h.queued, fun hsaw => ?_, h.sizes, h.wire, h.arrived, h.parsed⟩
  cases hrun.symm.trans (h.closed hsaw).1

theorem RestoreSource.stream_taken : source.stream.window.taken = [] := by
  unfold RestoreSource.stream
  cases source.client.archiveDigests source.prims source.archiveName <;> rfl

theorem RestoreInv.downloadStep (h : RestoreInv codec source restore) (hwidth : 0 < source.width)
    (hstep : DownloadStep source restore after) : RestoreInv codec source after := by
  have hrun := hstep.running
  have hhanded := h.download
  cases hstep with
  | connected hdown =>
    rw [hdown] at hhanded
    refine h.withDownload hrun (.inr ⟨.refl, ?_⟩)
    rw [hhanded, RestoreSource.stream_taken]
  | notConnected | notReturned | panicked => exact h.withDownload hrun trivial
  | pipeline hdown hstep =>
    rw [hdown] at hhanded
    refine h.withDownload hrun ?_
    rcases hhanded with hfail | ⟨hreach, htaken⟩
    · exact .inl hfail
    · exact .inr ⟨hreach.tail (.pipeline hstep), htaken.trans hstep.taken_eq.symm⟩
  | @sent state chunk more hdown hnone hchan hlistens hroom =>
    rw [hdown] at hhanded
    have hsent : (Download.streaming
        { state with
          window := state.window.take chunk more
          written := state.written + UInt64.ofNat chunk.length }).Handed source
        (restore.handed ++ [chunk]) := by
      rcases hhanded with ⟨error, hfail⟩ | ⟨hreach, htaken⟩
      · cases hnone.symm.trans hfail
      · exact .inr ⟨hreach.tail (.wrote hnone hchan rfl), by rw [htaken]; rfl⟩
    refine ⟨hsent, fun hwriter => ?_, fun hsaw => ?_, h.sizes, h.wire, h.arrived, h.parsed⟩
    · rw [h.queued hwriter, append_assoc]
    · cases hrun.symm.trans (h.closed hsaw).1
  | refused => exact h.withDownload hrun (.inl ⟨_, rfl⟩)
  | joined hdown hnone hchan hended =>
    rw [hdown] at hhanded
    refine h.withDownload hrun ?_
    rcases hhanded with ⟨error, hfail⟩ | ⟨hreach, htaken⟩
    · cases hnone.symm.trans hfail
    · exact .inr ⟨hreach.tail (.joined hnone hchan hended), htaken⟩
  | returned hdown hres =>
    rw [hdown] at hhanded
    refine h.withDownload hrun ?_
    rcases hhanded with ⟨error, hfail⟩ | ⟨hreach, htaken⟩
    · cases hfail.symm.trans hres
    · rw [htaken]
      exact (hreach.restored hwidth hres).1

theorem RestoreInv.wire_eq (h : RestoreInv codec source restore)
    (hwriter : restore.writer = .receiving ∨ restore.writer = .ending) :
    restore.wire = restore.written.flatMap (rawFrame kindData) := by
  obtain ⟨cut, hwire, hcut⟩ := h.wire
  rcases hwriter with hwriter | hwriter
  all_goals
    rw [hwriter] at hcut
    obtain rfl : cut = [] := hcut
    rw [hwire, append_nil]

theorem RestoreInv.writerStep (h : RestoreInv codec source restore)
    (hstep : WriterStep codec restore after) : RestoreInv codec source after := by
  cases hstep with
  | @wrote chunk frame more hwriter hqueue hframe =>
    obtain ⟨hsize, rfl⟩ := writeData_ok hframe
    refine ⟨h.download, fun _ => ?_, fun hsaw => ?_, ?_, ⟨[], ?_, ?_⟩,
      h.arrived.trans (prefix_append _ _), h.parsed⟩
    · rw [h.queued hwriter, hqueue, append_assoc, singleton_append]
    · rw [hwriter] at hsaw
      cases hsaw
    · intro other hother
      rcases mem_append.mp hother with hold | hnew
      · exact h.sizes other hold
      · rw [mem_singleton.mp hnew]
        exact hsize
    · rw [h.wire_eq (.inl hwriter)]
      simp
    · rw [hwriter]
      rfl
  | refused hwriter =>
    refine ⟨h.download, nofun, nofun, h.sizes,
      ⟨[], ?_, [], Nat.zero_le _, nil_prefix⟩, h.arrived, h.parsed⟩
    rw [append_nil]
    exact h.wire_eq (.inl hwriter)
  | @writeFailed chunk frame reached more hwriter hqueue hframe hreach =>
    obtain ⟨hsize, rfl⟩ := writeData_ok hframe
    refine ⟨h.download, nofun, nofun, h.sizes,
      ⟨reached, ?_, chunk, hsize, hreach⟩, h.arrived.trans (prefix_append _ _), h.parsed⟩
    exact congrArg (· ++ reached) (h.wire_eq (.inl hwriter))
  | channelClosed hwriter hqueue hended =>
    refine ⟨h.download, nofun, fun _ => ⟨hended, ?_⟩, h.sizes, ⟨[], ?_, rfl⟩, h.arrived, h.parsed⟩
    · rw [h.queued hwriter, hqueue, append_nil]
    · rw [append_nil]
      exact h.wire_eq (.inl hwriter)
  | @ended frame reached hwriter hframe hreach =>
    obtain ⟨json, hjson, hsize, rfl⟩ := writeControl_ok hframe
    have hclosed := h.closed (by rw [hwriter]; rfl)
    refine ⟨h.download, nofun, fun _ => hclosed, h.sizes,
      ⟨reached, ?_, .inr ⟨json, hjson, hsize, hreach⟩⟩,
      h.arrived.trans (prefix_append _ _), h.parsed⟩
    exact congrArg (· ++ reached) (h.wire_eq (.inr hwriter))
  | notEncoded hwriter =>
    have hclosed := h.closed (by rw [hwriter]; rfl)
    refine ⟨h.download, nofun, fun _ => hclosed, h.sizes, ⟨[], ?_, .inl rfl⟩, h.arrived, h.parsed⟩
    rw [append_nil]
    exact h.wire_eq (.inr hwriter)
  | drained hwriter =>
    have hclosed := h.closed (by rw [hwriter]; rfl)
    obtain ⟨cut, hwire, hcut⟩ := h.wire
    rw [hwriter] at hcut
    exact ⟨h.download, nofun, fun _ => hclosed, h.sizes, ⟨cut, hwire, hcut⟩, h.arrived, h.parsed⟩

variable {phase : RestorePhase}

theorem RestorePhase.Parsed.extend {arrived more : Bytes} {received : List Bytes}
    (h : phase.Parsed codec arrived received) :
    (phase.extend more).Parsed codec (arrived ++ more) received := by
  cases phase with
  | reading rest | feeding payload rest =>
    refine ⟨h.1, ?_⟩
    rw [h.2, append_assoc]
  | joining => exact fun hok => (h hok).mono (prefix_append _ _)
  | returned => exact fun bytes hbytes => (h bytes hbytes).mono (prefix_append _ _)

theorem RestoreInv.withPhase (h : RestoreInv codec source restore)
    (hphase : phase.Parsed codec restore.arrived restore.received) :
    RestoreInv codec source { restore with phase := phase } :=
  ⟨h.download, h.queued, h.closed, h.sizes, h.wire, h.arrived, hphase⟩

theorem RestoreInv.sessionStep (h : RestoreInv codec source restore)
    (hstep : SessionStep codec restore after) : RestoreInv codec source after := by
  have hparse := h.parsed
  cases hstep with
  | arrive hmore => exact ⟨h.download, h.queued, h.closed, h.sizes, h.wire, hmore, h.parsed.extend⟩
  | @received tail bytes payload rest hphase hact =>
    obtain ⟨hsize, rfl⟩ := pumpAction_forward_iff.mp hact
    rw [hphase] at hparse
    refine ⟨h.download, h.queued, h.closed, h.sizes, h.wire, h.arrived, ?_, ?_⟩
    · intro other hother
      rcases mem_append.mp hother with hold | hnew
      · exact hparse.1 other hold
      · rw [mem_singleton.mp hnew]
        exact hsize
    · rw [hparse.2]
      simp
  | fed hphase =>
    rw [hphase] at hparse
    exact ⟨h.download, h.queued, h.closed, h.sizes, h.wire, h.arrived, hparse⟩
  | notFed | truncated => exact h.withPhase nofun
  | @ended tail bytes ok hphase hact =>
    obtain ⟨json, rest, error, hsize, hjson, rfl⟩ := pumpAction_ended_iff.mp hact
    rw [hphase] at hparse
    refine h.withPhase ?_
    rintro rfl
    exact ⟨hparse.1, json, rest, error, hsize, hjson, hparse.2⟩
  | deviceTook | deviceReturned | devicePanicked =>
    exact ⟨h.download, h.queued, h.closed, h.sizes, h.wire, h.arrived, h.parsed⟩
  | @joined streamOk result hphase hdev =>
    rw [hphase] at hparse
    refine h.withPhase fun bytes hbytes => hparse ?_
    unfold restoreResult at hbytes
    cases result with
    | error => cases hbytes
    | ok =>
      cases streamOk with
      | true => rfl
      | false => cases hbytes
  | notJoined => exact h.withPhase nofun

theorem RestoreInv.step (h : RestoreInv codec source restore) (hwidth : 0 < source.width)
    (hstep : RestoreStep codec source restore after) : RestoreInv codec source after := by
  cases hstep with
  | download hstep => exact h.downloadStep hwidth hstep
  | writer hstep => exact h.writerStep hstep
  | session hstep => exact h.sessionStep hstep

/-- A stream that ends with ok carries what was handed to the channel, and the download has
ended. -/
theorem RestoreInv.endedStream (h : RestoreInv codec source restore) (hcodec : codec.Lawful)
    (hended : EndedStream codec restore.arrived restore.received true) :
    restore.download.ended = true ∧ restore.received = restore.handed := by
  obtain ⟨cut, hwire, hcut⟩ := h.wire
  have hpump := (@pumped_eq_iff _ .eof _ _ _).mpr (hended.mono h.arrived)
  rw [hwire, pumped_frames h.sizes, Prod.mk.injEq] at hpump
  obtain ⟨hreceived, hok⟩ := hpump
  have hend : ∀ json, codec.toVec (.ended true none) = .ok json → json.length ≤ maxFrame →
      cut <+: rawFrame kindControl json → restore.writer.sawEnd = true →
      restore.download.ended = true ∧ restore.received = restore.handed := by
    intro json hjson hsize hpart hsaw
    obtain ⟨hdone, hhanded⟩ := h.closed hsaw
    refine ⟨hdone, ?_⟩
    rcases @pumped_ended_part _ .eof _ _ _ _ hsize (hcodec _ _ hjson) hpart with hcut | hcut
    · rw [hcut, append_nil] at hreceived
      rw [hhanded, hreceived]
    · rw [hcut] at hok
      cases hok
  cases hwriter : restore.writer with
  | receiving | ending =>
    rw [hwriter] at hcut
    obtain rfl : cut = [] := hcut
    rw [pumped_nil] at hok
    cases hok
  | stopped =>
    rw [hwriter] at hcut
    obtain ⟨chunk, hsize, hpart⟩ := hcut
    rw [pumped_data_part hsize hpart] at hok
    cases hok
  | draining | finished =>
    rw [hwriter] at hcut
    rcases hcut with rfl | ⟨json, hjson, hsize, hpart⟩
    · rw [pumped_nil] at hok
      cases hok
    · exact hend json hjson hsize hpart (by rw [hwriter]; rfl)

end Invariant

/-- The session has `stream_ok`, or has returned a count of bytes. -/
def RestorePhase.Complete : RestorePhase → Prop
  | reading _ | feeding _ _ => False
  | joining streamOk => streamOk = true
  | returned result => ∃ bytes, result = .ok bytes

section Runs

variable {codec : ControlCodec} {source : RestoreSource} {restore : RelayRestore}

/-- **A session is complete only for a whole image.**  In every run in which the download
does not fail, whatever becomes of the connection, the device and the other tasks, the
agent has `stream_ok` only when it has read the whole content of the archive. -/
theorem restore_complete_only_when_whole (hcodec : codec.Lawful) (hwidth : 0 < source.width)
    (hrun : Relation.ReflTransGen
      (fun before after => RestoreStep codec source before after ∧ after.download ≠ .failed)
      RelayRestore.start restore)
    (hcomplete : restore.phase.Complete) : source.image = .ok restore.received.flatten := by
  have hinv : RestoreInv codec source restore ∧ restore.download ≠ .failed := by
    refine @Transition.invariant_of_reachable _ _
      (fun restore => RestoreInv codec source restore ∧ restore.download ≠ .failed) _ _
      ⟨.start, nofun⟩ ?_ hrun
    exact fun before after hbefore hstep => ⟨hbefore.1.step hwidth hstep.1, hstep.2⟩
  obtain ⟨hinv, hgood⟩ := hinv
  have hended : EndedStream codec restore.arrived restore.received true := by
    have hparsed := hinv.parsed
    cases hphase : restore.phase with
    | reading rest | feeding payload rest =>
      rw [hphase] at hcomplete
      cases hcomplete
    | joining =>
      rw [hphase] at hparsed hcomplete
      exact hparsed hcomplete
    | returned =>
      rw [hphase] at hparsed hcomplete
      obtain ⟨bytes, hbytes⟩ := hcomplete
      exact hparsed bytes hbytes
  obtain ⟨hdone, hreceived⟩ := hinv.endedStream hcodec hended
  have hhanded := hinv.download
  cases hdownload : restore.download with
  | connecting | streaming state =>
    rw [hdownload] at hdone
    cases hdone
  | failed => exact absurd hdownload hgood
  | finished =>
    rw [hdownload] at hhanded
    rw [hreceived]
    exact hhanded

end Runs

def oneChunkSource : RestoreSource where
  prims := samplePrimitives
  client := oneChunkClient ((oneChunkIndex 1).serialize samplePrimitives)
  width := 1
  archiveName := "db.didx"
  crypt := none

theorem oneChunkSource_stream :
    oneChunkSource.stream = StreamRestore.start 1 (.ok [sampleDigestA]) := by
  have hdown : oneChunkSource.client.download "db.didx" =
      .ok ((oneChunkIndex 1).serialize samplePrimitives) := rfl
  exact congrArg (StreamRestore.start 1) (archiveDigests_of_serialize hdown)

theorem oneChunkSource_fetch : oneChunkSource.fetch (sampleDigestA, 0) = .ok [97] :=
  (fetchedFrom_cons.mp (oneChunkClient_fetched _)).1

variable {codec : ControlCodec} {source : RestoreSource}

theorem RestoreStep.failed_stays {restore after : RelayRestore}
    (hstep : RestoreStep codec source restore after) (hfail : restore.download = .failed) :
    after.download = .failed := by
  cases hstep with
  | download hstep =>
    have hrun := hstep.running
    rw [hfail] at hrun
    cases hrun
  | writer hstep | session hstep => cases hstep <;> exact hfail

/-- The one chunk is downloaded, written, and read by the agent. -/
theorem oneChunkSource_whole : ∃ restore,
    Relation.ReflTransGen (RestoreStep sampleCodec oneChunkSource) RelayRestore.start restore ∧
      restore.phase = .returned (.ok 1) ∧ oneChunkSource.image = .ok restore.received.flatten := by
  have hconnected : RestoreStep sampleCodec oneChunkSource RelayRestore.start
      { RelayRestore.start with
        download := .streaming (StreamRestore.start 1 (.ok [sampleDigestA])) } := by
    rw [← oneChunkSource_stream]
    exact .download (.connected rfl)
  have hslot : [Slot.mk (sampleDigestA, 0) (some (oneChunkSource.fetch (sampleDigestA, 0)))] =
      [⟨(sampleDigestA, 0), some (.ok [97])⟩] := by rw [oneChunkSource_fetch]
  have hwrite : writeData [97] = .ok (rawFrame kindData [97]) := rfl
  have hdata : pumpAction sampleCodec .eof (rawFrame kindData [97]) = .forward [97] [] :=
    pumpAction_forward_iff.mpr ⟨by decide, (append_nil _).symm⟩
  have hrun : ∃ restore,
      Relation.ReflTransGen (RestoreStep sampleCodec oneChunkSource) RelayRestore.start restore ∧
        restore.download = .finished ∧ restore.phase = .returned (.ok 1) :=
    ⟨_,
      .head hconnected <|
      .head (.download (.pipeline rfl (@Window.Step.completed _ _ _ _ _ _ [] [] _ rfl))) <|
      .head (.download (.pipeline rfl (.awaited rfl hslot))) <|
      .head (.download (.pipeline rfl (.sentLast rfl (by decide) rfl rfl))) <|
      .head (.download (.pipeline rfl (.exhausted rfl rfl))) <|
      .head (.download (.sent rfl rfl rfl rfl (by decide))) <|
      .head (.download (.joined rfl rfl rfl rfl)) <|
      .head (.download (.returned rfl rfl)) <|
      .head (.writer (.wrote rfl rfl hwrite)) <|
      .head (.session (.arrive (prefix_refl (rawFrame kindData [97])))) <|
      .head (.session (.received .eof rfl hdata)) <|
      .head (.session (.fed rfl rfl (by decide))) <|
      .head (.session (.deviceTook rfl)) <|
      .head (.writer (.channelClosed rfl rfl rfl)) <|
      .head (.writer (.ended rfl sampleCodec_end (prefix_refl _))) <|
      .head (.session (.arrive (prefix_refl
        (rawFrame kindData [97] ++ rawFrame kindControl sampleEndJson)))) <|
      .head (.session (.ended .eof rfl sampleEnd_read)) <|
      .head (.session (.deviceReturned (.ok 1) rfl)) <|
      .head (.session (.joined rfl rfl)) .refl, rfl, rfl⟩
  obtain ⟨restore, hsteps, hdownload, hphase⟩ := hrun
  refine ⟨restore, hsteps, hphase, ?_⟩
  refine restore_complete_only_when_whole sampleCodec_lawful Nat.one_pos
    (Transition.avoids_of_stays (·.download = .failed) (fun _ _ => RestoreStep.failed_stays)
      (by rw [hdownload]; exact nofun) hsteps) ?_
  rw [hphase]
  exact ⟨1, rfl⟩

/-- A connection that fails: the channel is closed at once, the `End` frame says ok, and the
agent has `stream_ok` without a byte of an archive that the server holds whole. -/
theorem oneChunkSource_truncated : ∃ restore,
    Relation.ReflTransGen (RestoreStep sampleCodec oneChunkSource) RelayRestore.start restore ∧
      oneChunkSource.image = .ok [97] ∧ restore.phase = .joining true ∧ restore.received = [] :=
  ⟨_,
    .head (.download (.notConnected rfl)) <|
    .head (.writer (.channelClosed rfl rfl rfl)) <|
    .head (.writer (.ended rfl sampleCodec_end (prefix_refl _))) <|
    .head (.session (.arrive (prefix_refl (rawFrame kindControl sampleEndJson)))) <|
    .head (.session (.ended .eof rfl sampleEnd_read)) .refl,
    oneChunkClient_restore 1, rfl, rfl⟩

end PbsGui.Relay
