import PbsGui.Relay.Reader

/-!
# The agent's side of a relay backup session

`run_backup_session` starts the device runner on a thread of its own, forwards
the buffers the runner hands over as data frames, and closes the data connection
with an `End` frame that says whether the stream is whole.

The runner may hand over any buffers, drop its sender early, return anything or panic.  A write
to the connection is refused for its size, succeeds, or fails after any part of the frame.
-/

namespace PbsGui.Relay

open Lib Client List

/-- What a device runner does, as far as the session can see. -/
inductive DeviceEvent
  | working
  | ready (outcome : Except String Unit)
  | sent (buffer : Bytes)
  | sendRefused
  | dropSender
  | returned (result : Except String UInt64)
  | panicked (text : String)

abbrev DeviceRunner (Device : Type*) := Device → DeviceEvent → Device → Prop

/-- The thread of the device runner. -/
inductive DeviceThread
  | running
  | returned (result : Except String UInt64)
  | panicked (text : String)

/-- The channel on which the runner signals that the device set exists. -/
inductive ReadyCell
  | pending
  | sent (outcome : Except String Unit)
  | dropped

/-- Where `run_backup_session` is. -/
inductive AgentPhase
  | awaitingReady
  | dialing
  | greeting
  | streaming
  | joining (sendError : Option IoError)
  | ending (deviceResult : Except String UInt64) (sendError : Option IoError)
  | draining (deviceResult : Except String UInt64) (sendError : Option IoError)
  | returned (result : Except String UInt64)

/-- A backup session on the agent.  `wire` holds the bytes on the data connection
after the `Hello` frame.  No step reads the last three fields: the buffers the
channel accepted, those written as data frames, and the `End` verdict. -/
structure AgentSession (Device : Type*) where
  device : Device
  thread : DeviceThread
  ready : ReadyCell
  senderAlive : Bool
  receiverAlive : Bool
  queue : List Bytes
  phase : AgentPhase
  wire : Bytes
  broken : Bool
  sent : List Bytes
  written : List Bytes
  ended : Option (Bool × Option String)

variable {Device : Type*}

namespace AgentSession

def new (device : Device) : AgentSession Device :=
  { device := device, thread := .running, ready := .pending, senderAlive := true
    receiverAlive := true, queue := [], phase := .awaitingReady, wire := [], broken := false
    sent := [], written := [], ended := none }

/-- The session returns; its receiver is dropped. -/
def finish (session : AgentSession Device) (result : Except String UInt64) :
    AgentSession Device :=
  { session with receiverAlive := false, queue := [], phase := .returned result }

/-- The forwarding loop ends and drops the receiver. -/
def stopForwarding (session : AgentSession Device) (sendError : Option IoError) :
    AgentSession Device :=
  { session with receiverAlive := false, queue := [], phase := .joining sendError }

/-- The thread of the runner ends; what it owned is dropped. -/
def endThread (session : AgentSession Device) (thread : DeviceThread) :
    AgentSession Device :=
  { session with
    thread := thread
    senderAlive := false
    ready := match session.ready with
      | .pending => .dropped
      | .sent outcome => .sent outcome
      | .dropped => .dropped }

end AgentSession

/-- The verdict of the `End` frame: only a clean device close with every buffer
sent may say ok. -/
def endVerdict (deviceResult : Except String UInt64) (sendError : Option IoError) :
    Bool × Option String :=
  match deviceResult, sendError with
  | .ok _, none => (true, none)
  | .ok _, some error => (false, some ("sending backup data failed: " ++ error.text))
  | .error error, _ => (false, some error)

def sessionResult (deviceResult : Except String UInt64) (sendError : Option IoError) :
    Except String UInt64 :=
  match sendError with
  | some error => .error ("sending backup data to the proxy: " ++ error.text)
  | none => deviceResult

/-- One step of the device thread. -/
inductive DeviceStep (runner : DeviceRunner Device) (session : AgentSession Device) :
    AgentSession Device → Prop
  | working {device : Device} (hthread : session.thread = .running)
      (hrunner : runner session.device .working device) :
      DeviceStep runner session { session with device := device }
  | ready {device : Device} {outcome : Except String Unit} (hthread : session.thread = .running)
      (hpending : session.ready = .pending)
      (hrunner : runner session.device (.ready outcome) device) :
      DeviceStep runner session { session with device := device, ready := .sent outcome }
  | sent {device : Device} {buffer : Bytes} (hthread : session.thread = .running)
      (halive : session.senderAlive = true) (hreceiver : session.receiverAlive = true)
      (hroom : session.queue.length < dataQueue)
      (hrunner : runner session.device (.sent buffer) device) :
      DeviceStep runner session
        { session with
          device := device, queue := session.queue ++ [buffer], sent := session.sent ++ [buffer] }
  | sendRefused {device : Device} (hthread : session.thread = .running)
      (hreceiver : session.receiverAlive = false)
      (hrunner : runner session.device .sendRefused device) :
      DeviceStep runner session { session with device := device }
  | dropSender {device : Device} (hthread : session.thread = .running)
      (hrunner : runner session.device .dropSender device) :
      DeviceStep runner session { session with device := device, senderAlive := false }
  | returned {device : Device} {result : Except String UInt64}
      (hthread : session.thread = .running)
      (hrunner : runner session.device (.returned result) device) :
      DeviceStep runner session ({ session with device := device }.endThread (.returned result))
  | panicked {device : Device} {text : String} (hthread : session.thread = .running)
      (hrunner : runner session.device (.panicked text) device) :
      DeviceStep runner session ({ session with device := device }.endThread (.panicked text))

/-- One step of `run_backup_session` itself. -/
inductive ForwardStep (codec : ControlCodec) (session : AgentSession Device) :
    AgentSession Device → Prop
  | readied (hphase : session.phase = .awaitingReady) (hready : session.ready = .sent (.ok ())) :
      ForwardStep codec session { session with phase := .dialing }
  | notReadied {text : String} (hphase : session.phase = .awaitingReady)
      (hready : session.ready = .sent (.error text)) :
      ForwardStep codec session
        (session.finish (.error ("creating the VDI device set: " ++ text)))
  | exitedEarly (hphase : session.phase = .awaitingReady) (hready : session.ready = .dropped) :
      ForwardStep codec session
        (session.finish (.error "the device runner exited before signaling readiness"))
  | dialed (hphase : session.phase = .dialing) :
      ForwardStep codec session { session with phase := .greeting }
  | notDialed (text : String) (hphase : session.phase = .dialing) :
      ForwardStep codec session
        (session.finish (.error ("dialing the data connection: " ++ text)))
  | greeted (hphase : session.phase = .greeting) :
      ForwardStep codec session { session with phase := .streaming }
  | notGreeted (error : IoError) (hphase : session.phase = .greeting) :
      ForwardStep codec session (session.finish (.error error.text))
  | wrote {buffer frame : Bytes} {more : List Bytes} (hphase : session.phase = .streaming)
      (hqueue : session.queue = buffer :: more) (hframe : writeData buffer = .ok frame) :
      ForwardStep codec session
        { session with
          queue := more, wire := session.wire ++ frame, written := session.written ++ [buffer] }
  | refused {buffer : Bytes} {more : List Bytes} {error : IoError}
      (hphase : session.phase = .streaming) (hqueue : session.queue = buffer :: more)
      (hframe : writeData buffer = .error error) :
      ForwardStep codec session (session.stopForwarding (some error))
  | writeFailed {buffer frame reached : Bytes} {more : List Bytes} (error : IoError)
      (hphase : session.phase = .streaming) (hqueue : session.queue = buffer :: more)
      -- part of the frame may have reached the connection before the write failed
      (hframe : writeData buffer = .ok frame) (hreached : reached <+: frame) :
      ForwardStep codec session
        ({ session with wire := session.wire ++ reached, broken := true }.stopForwarding
          (some error))
  | channelClosed (hphase : session.phase = .streaming) (hqueue : session.queue = [])
      (hdropped : session.senderAlive = false) :
      ForwardStep codec session (session.stopForwarding none)
  | joined {result : Except String UInt64} {sendError : Option IoError}
      (hphase : session.phase = .joining sendError) (hthread : session.thread = .returned result) :
      ForwardStep codec session { session with phase := .ending result sendError }
  | notJoined {text : String} {sendError : Option IoError}
      (hphase : session.phase = .joining sendError) (hthread : session.thread = .panicked text) :
      ForwardStep codec session
        (session.finish (.error ("device thread panicked: " ++ text)))
  /-- Writing the `End` frame: its bytes, or a part of them, reach the connection. -/
  | ended {result : Except String UInt64} {sendError : Option IoError} {frame reached : Bytes}
      (hphase : session.phase = .ending result sendError)
      (hframe : writeControl codec
        (.ended (endVerdict result sendError).1 (endVerdict result sendError).2) = .ok frame)
      (hreached : reached <+: frame) (hbroken : session.broken = true → reached = []) :
      ForwardStep codec session
        { session with
          wire := session.wire ++ reached, ended := some (endVerdict result sendError)
          phase := .draining result sendError }
  | notEncoded {result : Except String UInt64} {sendError : Option IoError} {error : IoError}
      (hphase : session.phase = .ending result sendError)
      (hframe : writeControl codec
        (.ended (endVerdict result sendError).1 (endVerdict result sendError).2) = .error error) :
      ForwardStep codec session { session with phase := .draining result sendError }
  | drained {result : Except String UInt64} {sendError : Option IoError}
      (hphase : session.phase = .draining result sendError) :
      ForwardStep codec session (session.finish (sessionResult result sendError))

/-- One step of a session. -/
inductive AgentStep (codec : ControlCodec) (runner : DeviceRunner Device)
    (session : AgentSession Device) : AgentSession Device → Prop
  | device {after : AgentSession Device} (hstep : DeviceStep runner session after) :
      AgentStep codec runner session after
  | forward {after : AgentSession Device} (hstep : ForwardStep codec session after) :
      AgentStep codec runner session after

/-- The states of a session whose runner starts as `device`. -/
def AgentReaches (codec : ControlCodec) (runner : DeviceRunner Device) (device : Device)
    (session : AgentSession Device) : Prop :=
  Relation.ReflTransGen (AgentStep codec runner) (AgentSession.new device) session

/-! ### What holds in every state -/

namespace AgentPhase

def forwarding : AgentPhase → Bool
  | .awaitingReady | .dialing | .greeting | .streaming => true
  | _ => false

/-- The `End` frame has not been written yet. -/
def beforeEnd : AgentPhase → Bool
  | .draining _ _ | .returned _ => false
  | _ => true

def sendError : AgentPhase → Option (Option IoError)
  | .joining sendError | .ending _ sendError | .draining _ sendError => some sendError
  | _ => none

def deviceResult : AgentPhase → Option (Except String UInt64)
  | .ending result _ | .draining result _ => some result
  | _ => none

theorem of_forwarding {phase : AgentPhase} (h : phase.forwarding = true) :
    phase.beforeEnd = true ∧ phase.sendError = none ∧ phase.deviceResult = none := by
  cases phase <;> simp_all [forwarding, beforeEnd, sendError, deviceResult]

end AgentPhase

namespace AgentSession

/-- Every buffer the channel accepted was written, and no more can come. -/
def Forwarded (session : AgentSession Device) : Prop :=
  session.sent = session.written ∧ session.senderAlive = false

/-- What the connection carries after the frames of the written buffers: nothing,
a part of the frame of a failed write, or the `End` frame or a part of it. -/
def Cut (codec : ControlCodec) (session : AgentSession Device) (cut : Bytes) : Prop :=
  (session.broken = false ∧ session.ended = none ∧ cut = []) ∨
  (session.broken = true ∧ ∃ buffer : Bytes,
    buffer.length ≤ maxFrame ∧ cut <+: rawFrame kindData buffer) ∨
  (∃ verdict json, session.ended = some verdict ∧
    codec.toVec (.ended verdict.1 verdict.2) = .ok json ∧ json.length ≤ maxFrame ∧
      cut <+: rawFrame kindControl json)

end AgentSession

/-- What holds in every state of a session. -/
structure AgentInv (codec : ControlCodec) (session : AgentSession Device) : Prop where
  sizes : ∀ buffer ∈ session.written, buffer.length ≤ maxFrame
  forwarding : session.phase.forwarding = true →
    session.sent = session.written ++ session.queue ∧ session.broken = false
  unended : session.phase.beforeEnd = true → session.ended = none
  stopped : session.phase.sendError = some none → session.Forwarded
  device : ∀ result, session.phase.deviceResult = some result →
    session.thread = .returned result
  ended : ∀ verdict, session.ended = some verdict →
    ∃ result sendError, session.thread = .returned result ∧
      verdict = endVerdict result sendError ∧ (sendError = none → session.Forwarded)
  wire : ∃ cut, session.wire = session.written.flatMap (rawFrame kindData) ++ cut ∧
    session.Cut codec cut

section Invariant

variable {codec : ControlCodec} {runner : DeviceRunner Device}
  {session after : AgentSession Device}

/-- All that a step of the device thread can do to the session. -/
structure DeviceEffect (session after : AgentSession Device) : Prop where
  running : session.thread = .running
  phase : after.phase = session.phase
  written : after.written = session.written
  wire : after.wire = session.wire
  broken : after.broken = session.broken
  ended : after.ended = session.ended
  sender : session.senderAlive = false → after.senderAlive = false
  queue : (after.sent = session.sent ∧ after.queue = session.queue) ∨
    ∃ buffer, session.senderAlive = true ∧ after.sent = session.sent ++ [buffer] ∧
      after.queue = session.queue ++ [buffer]

theorem DeviceStep.effect (hstep : DeviceStep runner session after) :
    DeviceEffect session after := by
  cases hstep with
  | working hthr | ready hthr | sendRefused hthr =>
    exact ⟨hthr, rfl, rfl, rfl, rfl, rfl, id, .inl ⟨rfl, rfl⟩⟩
  | sent hthr halive =>
    exact ⟨hthr, rfl, rfl, rfl, rfl, rfl, id, .inr ⟨_, halive, rfl, rfl⟩⟩
  | dropSender hthr _ | returned hthr _ | panicked hthr _ =>
    exact ⟨hthr, rfl, rfl, rfl, rfl, rfl, fun _ => rfl, .inl ⟨rfl, rfl⟩⟩

theorem AgentInv.new (device : Device) : AgentInv codec (AgentSession.new device) where
  sizes _ h := nomatch h
  forwarding _ := ⟨rfl, rfl⟩
  unended _ := rfl
  stopped h := nomatch h
  device _ h := nomatch h
  ended _ h := nomatch h
  wire := ⟨[], rfl, .inl ⟨rfl, rfl, rfl⟩⟩

theorem AgentInv.deviceStep (h : AgentInv codec session) (hstep : DeviceStep runner session after) : AgentInv codec after := by
  have heff := hstep.effect
  -- The thread still runs, so the `End` frame has not been written.
  have hnone : ∀ verdict, session.ended ≠ some verdict := by
    intro verdict hverd
    obtain ⟨result, _, hthr, _⟩ := h.ended verdict hverd
    exact nomatch heff.running.symm.trans hthr
  refine ⟨?_, fun hphase => ?_, fun hphase => ?_, fun hphase => ?_, fun result hphase => ?_,
    fun verdict hverd => ?_, ?_⟩
  · rw [heff.written]
    exact h.sizes
  · rw [heff.phase] at hphase
    obtain ⟨hsent, hbroken⟩ := h.forwarding hphase
    refine ⟨?_, heff.broken.trans hbroken⟩
    rcases heff.queue with ⟨hsame, hqueue⟩ | ⟨buffer, _, hmore, hqueue⟩
    · rw [hsame, hqueue, heff.written, hsent]
    · rw [hmore, hqueue, heff.written, hsent, append_assoc]
  · rw [heff.phase] at hphase
    exact heff.ended.trans (h.unended hphase)
  · rw [heff.phase] at hphase
    obtain ⟨hsent, hsender⟩ := h.stopped hphase
    refine ⟨?_, heff.sender hsender⟩
    rcases heff.queue with ⟨hsame, _⟩ | ⟨buffer, halive, _⟩
    · rw [hsame, heff.written, hsent]
    · exact nomatch halive.symm.trans hsender
  · rw [heff.phase] at hphase
    exact nomatch heff.running.symm.trans (h.device result hphase)
  · exact absurd (heff.ended ▸ hverd) (hnone verdict)
  · obtain ⟨cut, hwire, hcut⟩ := h.wire
    refine ⟨cut, by rw [heff.wire, heff.written, hwire], ?_⟩
    simpa only [AgentSession.Cut, heff.broken, heff.ended] using hcut

theorem AgentInv.finish (h : AgentInv codec session) (result : Except String UInt64) :
    AgentInv codec (session.finish result) :=
  ⟨h.sizes, nofun, nofun, nofun, nofun, h.ended, h.wire⟩

theorem AgentInv.enter (h : AgentInv codec session) {phase : AgentPhase}
    (hpre : session.phase.forwarding = true) (hafter : phase.forwarding = true) :
    AgentInv codec { session with phase := phase } := by
  obtain ⟨_, hsendError, hres⟩ := AgentPhase.of_forwarding hafter
  refine ⟨h.sizes, fun _ => h.forwarding hpre,
    fun _ => h.unended (AgentPhase.of_forwarding hpre).1, fun hphase => ?_,
    fun _ hphase => ?_, h.ended, h.wire⟩
  · exact nomatch hsendError.symm.trans hphase
  · exact nomatch hres.symm.trans hphase

variable {sendError : Option IoError}

theorem AgentInv.stopForwarding (h : AgentInv codec session)
    (hphase : session.phase.forwarding = true) (hforwarded : sendError = none → session.Forwarded) :
    AgentInv codec (session.stopForwarding sendError) := by
  refine ⟨h.sizes, nofun,
    fun _ => h.unended (AgentPhase.of_forwarding hphase).1, fun hstop => ?_,
    nofun, h.ended, h.wire⟩
  exact hforwarded (Option.some.inj hstop)

variable {result : Except String UInt64}

section

variable (h : AgentInv codec session)

include h

/-- The steps after the forwarding loop keep how it ended and what the thread
returned. -/
theorem AgentInv.afterwards {phase : AgentPhase} (hthr : session.thread = .returned result)
    (hphase : phase.sendError = session.phase.sendError)
    (hres : phase.deviceResult = some result) (hforwarding : phase.forwarding = false)
    (hended : phase.beforeEnd = true → session.ended = none) :
    AgentInv codec { session with phase := phase } := by
  refine ⟨h.sizes, (fun hforward => nomatch hforwarding.symm.trans hforward), hended,
    fun hstop => h.stopped (hphase.symm.trans hstop), fun other hdev => ?_, h.ended,
    h.wire⟩
  rw [← Option.some.inj (hres.symm.trans hdev)]
  exact hthr

theorem AgentInv.wire_eq (hbroken : session.broken = false) (hended : session.ended = none) :
    session.wire = session.written.flatMap (rawFrame kindData) := by
  obtain ⟨cut, hwire, ⟨_, _, rfl⟩ | ⟨hbroke, _⟩ | ⟨_, _, hsome, _⟩⟩ := h.wire
  · rw [hwire, append_nil]
  · exact nomatch hbroken.symm.trans hbroke
  · exact nomatch hended.symm.trans hsome

theorem AgentInv.wrote {buffer : Bytes} {more : List Bytes}
    (hphase : session.phase.forwarding = true) (hqueue : session.queue = buffer :: more)
    (hsize : buffer.length ≤ maxFrame) :
    AgentInv codec
      { session with
        queue := more, wire := session.wire ++ rawFrame kindData buffer
        written := session.written ++ [buffer] } := by
  obtain ⟨hsent, hbroken⟩ := h.forwarding hphase
  obtain ⟨hpre, hsendError, hres⟩ := AgentPhase.of_forwarding hphase
  have hended := h.unended hpre
  refine ⟨?_, fun _ => ⟨?_, hbroken⟩, fun _ => hended,
    (fun hstop => nomatch hsendError.symm.trans hstop),
    (fun _ hdev => nomatch hres.symm.trans hdev),
    (fun verdict hverd => nomatch hended.symm.trans hverd), [], ?_,
    .inl ⟨hbroken, hended, rfl⟩⟩
  · intro other hother
    rcases mem_append.mp hother with hold | hnew
    · exact h.sizes other hold
    · rw [mem_singleton.mp hnew]
      exact hsize
  · rw [hsent, hqueue]
    simp
  · rw [h.wire_eq hbroken hended]
    simp

theorem AgentInv.writeFailed {buffer reached : Bytes} (hphase : session.phase.forwarding = true)
    (hsize : buffer.length ≤ maxFrame) (hreach : reached <+: rawFrame kindData buffer)
    (error : IoError) :
    AgentInv codec
      ({ session with wire := session.wire ++ reached, broken := true }.stopForwarding
        (some error)) := by
  obtain ⟨hsent, hbroken⟩ := h.forwarding hphase
  have hended := h.unended (AgentPhase.of_forwarding hphase).1
  refine ⟨h.sizes, nofun, fun _ => hended,
    nofun, nofun,
    (fun verdict hverd => nomatch hended.symm.trans hverd), reached, ?_,
    .inr (.inl ⟨rfl, buffer, hsize, hreach⟩)⟩
  change session.wire ++ reached = session.written.flatMap (rawFrame kindData) ++ reached
  rw [h.wire_eq hbroken hended]

/-- Writing the `End` frame: on an intact connection it follows the data, and a
broken one stays as it was. -/
theorem AgentInv.writeEnd {json reached : Bytes} (hphase : session.phase = .ending result sendError)
    (hjson : codec.toVec (.ended (endVerdict result sendError).1 (endVerdict result sendError).2)
      = .ok json)
    (hsize : json.length ≤ maxFrame) (hreach : reached <+: rawFrame kindControl json)
    (hbroken : session.broken = true → reached = []) :
    AgentInv codec
      { session with
        wire := session.wire ++ reached, ended := some (endVerdict result sendError)
        phase := .draining result sendError } := by
  have hthr := h.device result (by rw [hphase]; rfl)
  have hunended := h.unended (by rw [hphase]; rfl)
  have hstop : sendError = none → session.Forwarded := by
    rintro rfl
    exact h.stopped (by rw [hphase]; rfl)
  refine ⟨h.sizes, nofun, nofun,
    fun hnone => hstop (Option.some.inj hnone), fun other hdev => ?_,
    fun verdict hverd => ?_, ?_⟩
  · rw [← Option.some.inj hdev]
    exact hthr
  · exact ⟨result, sendError, hthr, (Option.some.inj hverd).symm, hstop⟩
  · obtain ⟨cut, hwire, hcut⟩ := h.wire
    refine ⟨cut ++ reached, by simp only [hwire, append_assoc], ?_⟩
    -- After whole frames the `End` frame may be cut; after a cut one nothing more arrives.
    rcases hcut with ⟨_, _, rfl⟩ | ⟨hbroke, buffer, hbuffer, hbegin⟩ | ⟨_, _, hsome, _⟩
    · exact .inr (.inr ⟨_, json, rfl, hjson, hsize, hreach⟩)
    · refine .inr (.inl ⟨hbroke, buffer, hbuffer, ?_⟩)
      rw [hbroken hbroke, append_nil]
      exact hbegin
    · exact nomatch hunended.symm.trans hsome

theorem AgentInv.forwardStep (hstep : ForwardStep codec session after) : AgentInv codec after := by
  cases hstep with
  | readied hphase | dialed hphase | greeted hphase => exact h.enter (by rw [hphase]; rfl) rfl
  | notReadied _ _ | exitedEarly _ _ | notDialed _ _ | notGreeted _ _ | notJoined _ _
  | drained => exact h.finish _
  | wrote hphase hqueue hframe =>
    obtain ⟨hsize, rfl⟩ := writeData_ok hframe
    exact h.wrote (by rw [hphase]; rfl) hqueue hsize
  | refused hphase => exact h.stopForwarding (by rw [hphase]; rfl) nofun
  | writeFailed error hphase _ hframe hreach =>
    obtain ⟨hsize, rfl⟩ := writeData_ok hframe
    exact h.writeFailed (by rw [hphase]; rfl) hsize hreach error
  | channelClosed hphase hqueue hdrop =>
    refine h.stopForwarding (by rw [hphase]; rfl) fun _ => ⟨?_, hdrop⟩
    rw [(h.forwarding (by rw [hphase]; rfl)).1, hqueue, append_nil]
  | joined hphase hthr =>
    exact h.afterwards hthr (by rw [hphase]; rfl) rfl rfl
      fun _ => h.unended (by rw [hphase]; rfl)
  | ended hphase hframe hreach hbroken =>
    obtain ⟨json, hjson, hsize, rfl⟩ := writeControl_ok hframe
    exact h.writeEnd hphase hjson hsize hreach hbroken
  | notEncoded hphase =>
    exact h.afterwards (h.device _ (by rw [hphase]; rfl)) (by rw [hphase]; rfl) rfl rfl
      nofun

theorem AgentInv.step (hstep : AgentStep codec runner session after) : AgentInv codec after := by
  cases hstep with
  | device hdev => exact h.deviceStep hdev
  | forward hforward => exact h.forwardStep hforward

end

theorem AgentReaches.inv {device : Device} (hrun : AgentReaches codec runner device session) :
    AgentInv codec session :=
  Transition.invariant_of_reachable (AgentInv.new device)
    (fun _ _ hpre hstep => hpre.step hstep) hrun

theorem AgentInv.ended_ok (h : AgentInv codec session) {error : Option String}
    (hended : session.ended = some (true, error)) :
    (∃ total, session.thread = .returned (.ok total)) ∧ session.Forwarded := by
  obtain ⟨result, sendError, hthr, hverd, hforwarded⟩ := h.ended _ hended
  cases result with
  | error => exact nomatch (Prod.mk.inj hverd).1
  | ok total =>
    cases sendError with
    | some => exact nomatch (Prod.mk.inj hverd).1
    | none => exact ⟨⟨total, hthr⟩, hforwarded rfl⟩

/-- The verdict that can be read off the connection is the one that was written. -/
theorem AgentInv.endedStream (h : AgentInv codec session) (hcodec : codec.Lawful)
    {payloads : List Bytes} {ok : Bool} (hended : EndedStream codec session.wire payloads ok) :
    payloads = session.written ∧ ∃ error, session.ended = some (ok, error) := by
  obtain ⟨cut, hwire, hcut⟩ := h.wire
  have hpump := (@pumped_eq_iff _ .eof _ _ _).mpr hended
  rw [hwire, pumped_frames h.sizes, Prod.mk.injEq] at hpump
  obtain ⟨hpayloads, hok⟩ := hpump
  rcases hcut with ⟨_, _, rfl⟩ | ⟨_, buffer, hsize, hpart⟩ |
    ⟨verdict, json, hverd, hjson, hsize, hpart⟩
  · rw [pumped_nil] at hok
    exact nomatch hok
  · rw [pumped_data_part hsize hpart] at hok
    exact nomatch hok
  · rcases @pumped_ended_part _ .eof _ _ _ _ hsize (hcodec _ _ hjson) hpart with hcut | hcut
    · rw [hcut] at hpayloads hok
      cases hok
      exact ⟨by rw [← hpayloads, append_nil], verdict.2, hverd⟩
    · rw [hcut] at hok
      exact nomatch hok

end Invariant

/-- A relay data connection is read to its end only when it is whole.  The reader
reports end of stream only on whole data frames followed by a whole `End` frame
that says ok, having delivered exactly their payloads; over any other connection,
and only then, a reader that goes on reading gets an error, and errors stay
errors.  Each read returns.  And the agent writes an `End` frame that says ok only if its device run
returned without an error and every buffer it handed over was written. -/
theorem relayRead_end_only_when_whole (codec : ControlCodec) (tail : StreamTail) (input : Bytes)
    {session : RelaySession} (hrun : RelayReaches codec tail input session) :
    (∀ before entry later, session.stream.log = before ++ entry :: later →
      VerdictStream.IsEnd entry true → ∃ payloads, EndedStream codec input payloads true ∧
        before.flatMap VerdictStream.bytesOf = payloads.flatten) ∧
    ((∀ payloads, ¬ EndedStream codec input payloads true) →
      (∀ entry ∈ session.stream.log, ¬ VerdictStream.IsEnd entry true) ∧
      (input.length < session.stream.roomyReads →
        ∃ entry ∈ session.stream.log, VerdictStream.IsEnd entry false)) ∧
    (∀ entry ∈ session.stream.log, VerdictStream.IsEnd entry false →
      ∀ payloads, ¬ EndedStream codec input payloads true) ∧
    (session.stream.log.Pairwise fun earlier later =>
      VerdictStream.IsEnd earlier false → later.2 = .error relayReadFailure) ∧
    (Transition.Terminates (RelayTurn codec tail) session ∧
      (session.stream.call ≠ none → ∃ after, RelayTurn codec tail session after)) ∧
    (∀ (Device : Type) (runner : DeviceRunner Device) (device : Device)
      (agent : AgentSession Device), AgentReaches codec runner device agent →
      ∀ error, agent.ended = some (true, error) →
        (∃ total, agent.thread = .returned (.ok total)) ∧ agent.written = agent.sent ∧
          agent.written.flatMap (rawFrame kindData) <+: agent.wire) := by
  have hinv := hrun.inv
  -- A good end was reported only if the pump has seen a good `End` frame.
  have hwhole : ∀ entry ∈ session.stream.log, VerdictStream.IsEnd entry true →
      EndedStream codec input session.stream.sent true := by
    intro entry hentry hend
    exact hinv.endedStream (hinv.stream.ended ⟨entry, hentry, hend⟩).2.2
  refine ⟨?_, fun hnot => ⟨fun entry hentry hend => ?_, fun hmany => ?_⟩, ?_, ?_,
    ⟨relayTurn_terminates codec tail session, fun hcall => ?_⟩, ?_⟩
  · intro before entry later hlog hend
    have hentry : entry ∈ session.stream.log := by simp [hlog]
    refine ⟨_, hwhole entry hentry hend, ?_⟩
    rw [hinv.stream.delivered_before hlog hend, (hinv.stream.ended ⟨entry, hentry, hend⟩).2.1]
  · exact hnot _ (hwhole entry hentry hend)
  · obtain ⟨entry, hentry, ok, hend⟩ :=
      hinv.stream.exists_end (Nat.lt_of_le_of_lt hinv.sent_length_le hmany)
    cases ok with
    | true => exact absurd (hwhole entry hentry hend) (hnot _)
    | false => exact ⟨entry, hentry, hend⟩
  · intro entry hentry hend payloads
    obtain ⟨hclosed, _, hverdict⟩ := hinv.stream.ended ⟨entry, hentry, hend⟩
    refine hinv.not_endedStream hclosed fun hsent => ?_
    rcases hverdict with hfalse | hdropped
    · exact nomatch hsent.symm.trans hfalse
    · exact nomatch hsent.symm.trans hdropped
  · exact hinv.stream.stays.imp fun hstays hend => hstays false hend
  · obtain ⟨want, hwant⟩ := Option.ne_none_iff_exists'.mp hcall
    exact hinv.exists_turn hwant
  · intro Device runner device agent hagent error hended
    obtain ⟨hreturned, hforwarded⟩ := hagent.inv.ended_ok hended
    obtain ⟨cut, hwire, _⟩ := hagent.inv.wire
    exact ⟨hreturned, hforwarded.1.symm, hwire ▸ prefix_append _ _⟩

/-- The message that ends a whole stream, as it is encoded. -/
def sampleEndJson : Bytes :=
  "\x7b\"type\":\"end\",\"ok\":true,\"error\":null\x7d".toList.map fun char =>
    UInt8.ofNat char.toNat

/-- A codec that knows the message that ends a whole stream. -/
def sampleCodec : ControlCodec where
  toVec msg :=
    if msg = .ended true none then .ok sampleEndJson
    else .error { kind := .other, text := "not a sample message" }
  fromSlice json :=
    if json = sampleEndJson then .ok (.ended true none) else .error "expected value"

theorem sampleCodec_fromSlice :
    sampleCodec.fromSlice sampleEndJson = .ok (.ended true none) := by
  simp [sampleCodec]

theorem sampleCodec_lawful : sampleCodec.Lawful := by
  intro msg json h
  simp only [sampleCodec] at h
  split at h
  case isTrue hmsg => rw [← Except.ok.inj h, sampleCodec_fromSlice, hmsg]
  case isFalse => exact nomatch h

theorem sampleCodec_end :
    writeControl sampleCodec (.ended true none) = .ok (rawFrame kindControl sampleEndJson) := by
  have hsize : sampleEndJson.length ≤ maxFrame := by decide
  simp [writeControl, writeRaw, sampleCodec, bind, Except.bind, hsize]

theorem sampleEnd_read :
    pumpAction sampleCodec .eof (rawFrame kindControl sampleEndJson) = .ended true :=
  pumpAction_ended_iff.mpr
    ⟨_, [], none, by decide, sampleCodec_fromSlice, (append_nil _).symm⟩

/-- One data frame and the `End` frame. -/
def sampleInput : Bytes :=
  rawFrame kindData [7] ++ (rawFrame kindControl sampleEndJson ++ [])

theorem sampleSession : ∃ session, RelayReaches sampleCodec .eof sampleInput session ∧
    session.stream.log = [(4, .ok [7]), (4, .ok [])] := by
  have hsize : sampleEndJson.length ≤ maxFrame := by decide
  have hfirst : pumpAction sampleCodec .eof sampleInput =
      .forward [7] (rawFrame kindControl sampleEndJson ++ []) :=
    pumpAction_forward_iff.mpr ⟨by decide, rfl⟩
  have hsnd : pumpAction sampleCodec .eof (rawFrame kindControl sampleEndJson ++ []) =
      .ended true :=
    pumpAction_ended_iff.mpr ⟨_, [], none, hsize, sampleCodec_fromSlice, rfl⟩
  exact ⟨_,
    .head (.startRead 4 rfl) <|
    .head (.turn (.pump (.receive rfl hfirst))) <|
    .head (.turn (.pump (.forward rfl rfl (by decide)))) <|
    .head (.turn (.read (.pulled rfl rfl))) <|
    .head (.turn (.read (.returned rfl rfl))) <|
    .head (.startRead 4 rfl) <|
    .head (.turn (.pump (.ended rfl hsnd rfl))) <|
    .head (.turn (.pump (.dropData rfl rfl))) <|
    .head (.turn (.read (.returned rfl rfl))) <|
    .refl, rfl⟩

/-- The second read of the sample session reports the end of a whole stream. -/
theorem sampleSession_whole : ∃ session, RelayReaches sampleCodec .eof sampleInput session ∧
    session.stream.log = [(4, .ok [7])] ++ (4, .ok []) :: [] ∧
    ∃ payloads, EndedStream sampleCodec sampleInput payloads true ∧
      [7] = payloads.flatten := by
  obtain ⟨session, hrun, hlog⟩ := sampleSession
  refine ⟨session, hrun, hlog, ?_⟩
  exact (relayRead_end_only_when_whole sampleCodec .eof sampleInput hrun).1
    [(4, .ok [7])] (4, .ok []) [] hlog ⟨by decide, rfl⟩

end PbsGui.Relay
