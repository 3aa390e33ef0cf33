import Mathlib.Data.List.Flatten
import PbsGui.Lib.Transition
import PbsGui.Lib.VerdictStream
import PbsGui.Relay.Proto

/-!
# The proxy's reader over a relay data connection

`pump_data` reads the frames of a session's data connection, forwards the data
payloads over a bounded channel and sends the verdict of the `End` frame over a
second channel; `RelayRead` is the blocking reader on the other side.

`EndedStream` says of the bytes of a connection what the pump makes of them, and `RelayInv`
relates a state of a session to it, whatever the interleaving of the pump and the reader.
-/

namespace PbsGui.Relay

open Lib Client List

/-- Buffered data frames between the socket pump and the consuming reader. -/
def dataQueue : Nat := 16

/-- What the next frame makes the pump do. -/
inductive PumpAction
  | forward (payload rest : Bytes)
  | ended (ok : Bool)
  | stopped

/-- One turn of the loop in `pump_data`.  An unexpected frame, the end of the
connection or an error stops the pump without a verdict. -/
def pumpAction (codec : ControlCodec) (tail : StreamTail) (bytes : Bytes) : PumpAction :=
  match readFrame codec bytes tail with
  | .ok (some (.data payload, rest)) => .forward payload rest
  | .ok (some (.control (.ended ok _), _)) => .ended ok
  -- any other control frame, a missing `End` and a bad frame all drop the verdict sender
  | .ok (some (.control _, _)) => .stopped
  | .ok none => .stopped
  | .error _ => .stopped

variable {codec : ControlCodec} {tail : StreamTail} {bytes : Bytes}

variable {payload rest : Bytes}

theorem pumpAction_forward_iff :
    pumpAction codec tail bytes = .forward payload rest ↔
      payload.length ≤ maxFrame ∧ bytes = rawFrame kindData payload ++ rest := by
  constructor
  · intro h
    unfold pumpAction at h
    split at h
    case h_1 found left hframe =>
      obtain ⟨rfl, rfl⟩ : found = payload ∧ left = rest := by simpa using h
      obtain ⟨kind, body, hsize, hbytes, hdec⟩ := readFrame_some hframe
      obtain ⟨rfl, rfl⟩ := decodeFrame_data.mp hdec
      exact ⟨hsize, hbytes⟩
    all_goals exact nomatch h
  · rintro ⟨hsize, rfl⟩
    rw [pumpAction, readFrame_rawFrame codec kindData hsize, decodeFrame_data.mpr ⟨rfl, rfl⟩]
    rfl

variable {ok : Bool}

theorem pumpAction_ended_iff :
    pumpAction codec tail bytes = .ended ok ↔
      ∃ json rest error, json.length ≤ maxFrame ∧
        codec.fromSlice json = .ok (.ended ok error) ∧
        bytes = rawFrame kindControl json ++ rest := by
  constructor
  · intro h
    unfold pumpAction at h
    split at h
    case h_2 found error left hframe =>
      obtain rfl : found = ok := by simpa using h
      obtain ⟨kind, json, hsize, hbytes, hdec⟩ := readFrame_some hframe
      obtain ⟨rfl, hjson⟩ := decodeFrame_control.mp hdec
      exact ⟨json, left, error, hsize, hjson, hbytes⟩
    all_goals exact nomatch h
  · rintro ⟨json, rest, error, hsize, hjson, rfl⟩
    rw [pumpAction, readFrame_rawFrame codec kindControl hsize,
      decodeFrame_control.mpr ⟨rfl, hjson⟩]
    rfl

theorem pumpAction_forward_length (h : pumpAction codec tail bytes = .forward payload rest) :
    bytes.length = 5 + payload.length + rest.length := by
  rw [(pumpAction_forward_iff.mp h).2, length_append, rawFrame_length]

/-- What the pump makes of a whole connection: the payloads it forwards, and the
verdict it sends unless it stops without one. -/
def pumped (codec : ControlCodec) (tail : StreamTail) (bytes : Bytes) :
    List Bytes × Option Bool :=
  match _haction : pumpAction codec tail bytes with
  | .forward payload rest => (payload :: (pumped codec tail rest).1, (pumped codec tail rest).2)
  | .ended ok => ([], some ok)
  | .stopped => ([], none)
termination_by bytes.length
decreasing_by
  all_goals
    have hlength := pumpAction_forward_length _haction
    omega

theorem pumped_of_forward (h : pumpAction codec tail bytes = .forward payload rest) :
    pumped codec tail bytes =
      (payload :: (pumped codec tail rest).1, (pumped codec tail rest).2) := by
  rw [pumped]
  split
  case h_1 payload' rest' h' =>
    obtain ⟨rfl, rfl⟩ := PumpAction.forward.inj (h.symm.trans h')
    rfl
  case h_2 h' | h_3 h' => exact nomatch h.symm.trans h'

theorem pumped_of_ended (h : pumpAction codec tail bytes = .ended ok) :
    pumped codec tail bytes = ([], some ok) := by
  rw [pumped]
  split
  case h_1 h' | h_3 h' => exact nomatch h.symm.trans h'
  case h_2 ok' h' => rw [PumpAction.ended.inj (h.symm.trans h')]

theorem pumped_of_stopped (h : pumpAction codec tail bytes = .stopped) :
    pumped codec tail bytes = ([], none) := by
  rw [pumped]
  split
  case h_1 h' | h_2 h' => exact nomatch h.symm.trans h'
  case h_3 => rfl

/-- The bytes begin with the data frames of `payloads` and a whole `End` frame
with the verdict `ok`. -/
def EndedStream (codec : ControlCodec) (bytes : Bytes) (payloads : List Bytes) (ok : Bool) :
    Prop :=
  (∀ payload ∈ payloads, payload.length ≤ maxFrame) ∧
    ∃ json rest error, json.length ≤ maxFrame ∧ codec.fromSlice json = .ok (.ended ok error) ∧
      bytes = payloads.flatMap (rawFrame kindData) ++ (rawFrame kindControl json ++ rest)

variable {payloads : List Bytes}

theorem EndedStream.mono {more : Bytes} (h : EndedStream codec bytes payloads ok)
    (hbegin : bytes <+: more) : EndedStream codec more payloads ok := by
  obtain ⟨hsizes, json, rest, error, hsize, hjson, rfl⟩ := h
  obtain ⟨later, rfl⟩ := hbegin
  exact ⟨hsizes, json, rest ++ later, error, hsize, hjson, by simp only [append_assoc]⟩

theorem pumped_of_part {kind : UInt8} {payload : Bytes} (hsize : payload.length ≤ maxFrame)
    (hpart : bytes <+: rawFrame kind payload) (hless : bytes ≠ rawFrame kind payload) :
    pumped codec tail bytes = ([], none) := by
  obtain ⟨missing, hmissing⟩ := hpart
  have hwhole : ∀ kind' payload' rest, payload'.length ≤ maxFrame →
      bytes ≠ rawFrame kind' payload' ++ rest := by
    rintro kind' payload' rest hsize' rfl
    rw [append_assoc, ← append_nil (rawFrame kind payload)] at hmissing
    obtain ⟨rfl, rfl, hnil⟩ := rawFrame_append_inj hsize' hsize hmissing
    obtain ⟨rfl, rfl⟩ := append_eq_nil_iff.mp hnil
    exact hless (append_nil _)
  cases hact : pumpAction codec tail bytes with
  | stopped => exact pumped_of_stopped hact
  | forward =>
    obtain ⟨hsize', hbytes⟩ := pumpAction_forward_iff.mp hact
    exact absurd hbytes (hwhole _ _ _ hsize')
  | ended =>
    obtain ⟨json, rest, _, hsize', _, hbytes⟩ := pumpAction_ended_iff.mp hact
    exact absurd hbytes (hwhole _ _ _ hsize')

theorem pumped_frames (hsize : ∀ payload ∈ payloads, payload.length ≤ maxFrame) :
    pumped codec tail (payloads.flatMap (rawFrame kindData) ++ bytes) =
      (payloads ++ (pumped codec tail bytes).1, (pumped codec tail bytes).2) := by
  induction payloads with
  | nil => rfl
  | cons payload payloads ih =>
    rw [flatMap_cons, append_assoc, pumped_of_forward
      (pumpAction_forward_iff.mpr ⟨hsize payload mem_cons_self, rfl⟩),
      ih (forall_mem_cons.mp hsize).2]
    rfl

theorem pumped_nil : pumped codec tail [] = ([], none) := by
  refine pumped_of_stopped ?_
  cases tail <;> rfl

theorem pumped_data_part {payload : Bytes} (hsize : payload.length ≤ maxFrame)
    (hpart : bytes <+: rawFrame kindData payload) : (pumped codec tail bytes).2 = none := by
  by_cases hwhole : bytes = rawFrame kindData payload
  · have hframe : bytes = [payload].flatMap (rawFrame kindData) ++ [] := by simp [hwhole]
    rw [hframe, pumped_frames (by simpa using hsize), pumped_nil]
  · rw [pumped_of_part hsize hpart hwhole]

theorem pumped_ended_part {json : Bytes} {error : Option String} (hsize : json.length ≤ maxFrame)
    (hjson : codec.fromSlice json = .ok (.ended ok error))
    (hpart : bytes <+: rawFrame kindControl json) :
    pumped codec tail bytes = ([], some ok) ∨ pumped codec tail bytes = ([], none) := by
  by_cases hwhole : bytes = rawFrame kindControl json
  · refine .inl (pumped_of_ended (pumpAction_ended_iff.mpr ⟨json, [], error, hsize, hjson, ?_⟩))
    rw [hwhole, append_nil]
  · exact .inr (pumped_of_part hsize hpart hwhole)

theorem pumped_eq_iff :
    pumped codec tail bytes = (payloads, some ok) ↔ EndedStream codec bytes payloads ok := by
  constructor
  · intro h
    -- Each payload is that of the first frame of what is left.
    induction payloads generalizing bytes with
    | nil =>
      cases hact : pumpAction codec tail bytes with
      | forward => rw [pumped_of_forward hact] at h; exact nomatch h
      | stopped => rw [pumped_of_stopped hact] at h; exact nomatch h
      | ended found =>
        rw [pumped_of_ended hact] at h
        obtain rfl : found = ok := by simpa using h
        exact ⟨nofun, pumpAction_ended_iff.mp hact⟩
    | cons payload payloads ih =>
      cases hact : pumpAction codec tail bytes with
      | ended => rw [pumped_of_ended hact] at h; exact nomatch h
      | stopped => rw [pumped_of_stopped hact] at h; exact nomatch h
      | forward =>
        rw [pumped_of_forward hact] at h
        simp only [Prod.mk.injEq, cons.injEq] at h
        obtain ⟨⟨rfl, hpayloads⟩, hok⟩ := h
        obtain ⟨hsize, hbytes⟩ := pumpAction_forward_iff.mp hact
        obtain ⟨hsizes, json, left, error, hjson, hended, rfl⟩ := ih (Prod.ext hpayloads hok)
        refine ⟨?_, json, left, error, hjson, hended, ?_⟩
        · intro other hother
          rcases mem_cons.mp hother with rfl | hmem
          · exact hsize
          · exact hsizes other hmem
        · rw [hbytes, flatMap_cons, append_assoc]
  · rintro ⟨hsize, hend⟩
    obtain ⟨json, rest, error, hjson, hended, rfl⟩ := hend
    rw [pumped_frames hsize, pumped_of_ended
      (pumpAction_ended_iff.mpr ⟨json, rest, error, hjson, hended, rfl⟩), append_nil]

theorem pumped_length_le : (pumped codec tail bytes).1.flatten.length ≤ bytes.length := by
  fun_induction pumped codec tail bytes with
  | case1 bytes payload rest hact =>
    have := pumpAction_forward_length hact
    rw [flatten_cons, length_append]
    omega
  | case2 => simp
  | case3 => simp

/-! ### Sessions -/

/-- What `pump_data` is doing. -/
inductive Pump
  | reading (rest : Bytes)
  | sending (payload rest : Bytes)
  | returned

/-- A session's pump, its two channels and its reader. -/
structure RelaySession where
  pump : Pump
  stream : VerdictStream UInt8 IoError

/-- The session once the connection with these bytes is bound to it. -/
def RelaySession.new (input : Bytes) : RelaySession :=
  { pump := .reading input, stream := .new }

/-- The error of a `RelayRead` whose stream is not whole. -/
def relayReadFailure : IoError :=
  { kind := .unexpectedEof
    text := "the relay data stream did not complete; refusing to treat a truncated backup as whole" }

/-- One step of the pump.  Its ends of the channels are dropped when it returns.
The channel can only be closed from the other side by dropping the reader, after
which there is nothing left to read, so that exit of the pump has no step. -/
inductive PumpStep (codec : ControlCodec) (tail : StreamTail) (session : RelaySession) :
    RelaySession → Prop
  | receive {bytes payload rest : Bytes} (hpump : session.pump = .reading bytes)
      (haction : pumpAction codec tail bytes = .forward payload rest) :
      PumpStep codec tail session { session with pump := .sending payload rest }
  | forward {payload rest : Bytes} (hpump : session.pump = .sending payload rest)
      (hopen : session.stream.channel.closed = false)
      (hroom : session.stream.channel.queue.length < dataQueue) :
      PumpStep codec tail session
        { pump := .reading rest, stream := session.stream.send payload }
  | ended {bytes : Bytes} {ok : Bool} (hpump : session.pump = .reading bytes)
      (haction : pumpAction codec tail bytes = .ended ok)
      (hpending : session.stream.channel.verdict = .pending) :
      PumpStep codec tail session
        { pump := .returned, stream := session.stream.sendVerdict ok }
  | stopped {bytes : Bytes} (hpump : session.pump = .reading bytes)
      (haction : pumpAction codec tail bytes = .stopped) :
      PumpStep codec tail session { session with pump := .returned }
  | dropData (hpump : session.pump = .returned)
      (hopen : session.stream.channel.closed = false) :
      PumpStep codec tail session { session with stream := session.stream.close }
  | dropDone (hpump : session.pump = .returned)
      (hpending : session.stream.channel.verdict = .pending) :
      PumpStep codec tail session { session with stream := session.stream.dropVerdict }

/-- One step of the pump or of a read in progress. -/
inductive RelayTurn (codec : ControlCodec) (tail : StreamTail) (session : RelaySession) :
    RelaySession → Prop
  | pump {after : RelaySession} (hstep : PumpStep codec tail session after) :
      RelayTurn codec tail session after
  | read {after : VerdictStream UInt8 IoError}
      (hread : session.stream.Reads relayReadFailure after) :
      RelayTurn codec tail session { session with stream := after }

/-- One step of a session: a turn, or a new read into a buffer of any size. -/
inductive RelayStep (codec : ControlCodec) (tail : StreamTail) (session : RelaySession) :
    RelaySession → Prop
  | turn {after : RelaySession} (hturn : RelayTurn codec tail session after) :
      RelayStep codec tail session after
  | startRead (want : Nat) (hidle : session.stream.call = none) :
      RelayStep codec tail session { session with stream := session.stream.startRead want }

/-- The states of a session over a connection that carries `input` and then ends
as `tail` says. -/
def RelayReaches (codec : ControlCodec) (tail : StreamTail) (input : Bytes)
    (session : RelaySession) : Prop :=
  Relation.ReflTransGen (RelayStep codec tail) (RelaySession.new input) session

def verdictOf : VerdictCell → Option Bool
  | .pending => none
  | .sent ok => some ok
  | .dropped => none

/-- How far the pump has got with `input`. -/
def Pump.Progress (codec : ControlCodec) (tail : StreamTail) (input : Bytes)
    (stream : VerdictStream UInt8 IoError) : Pump → Prop
  | .reading rest =>
    stream.channel.closed = false ∧ stream.channel.verdict = .pending ∧
      pumped codec tail input =
        (stream.sent ++ (pumped codec tail rest).1, (pumped codec tail rest).2)
  | .sending payload rest =>
    stream.channel.closed = false ∧ stream.channel.verdict = .pending ∧
      pumped codec tail input =
        (stream.sent ++ payload :: (pumped codec tail rest).1, (pumped codec tail rest).2)
  | .returned => pumped codec tail input = (stream.sent, verdictOf stream.channel.verdict)

/-- What holds in every state of a session. -/
structure RelayInv (codec : ControlCodec) (tail : StreamTail) (input : Bytes)
    (session : RelaySession) : Prop where
  stream : session.stream.Inv relayReadFailure
  pump : session.pump.Progress codec tail input session.stream

section Invariant

variable {input : Bytes} {session after : RelaySession}

theorem Pump.Progress.congr {stream stream' : VerdictStream UInt8 IoError} {pump : Pump}
    (hsent : stream'.sent = stream.sent) (hclosed : stream'.channel.closed = stream.channel.closed)
    (hverd : stream'.channel.verdict = stream.channel.verdict)
    (h : pump.Progress codec tail input stream) : pump.Progress codec tail input stream' := by
  cases pump <;> simpa only [Pump.Progress, hsent, hclosed, hverd] using h

theorem PumpStep.produces (hstep : PumpStep codec tail session after) :
    after.stream = session.stream ∨ session.stream.Produces dataQueue after.stream := by
  cases hstep with
  | receive | stopped => exact .inl rfl
  | forward _ hopen hroom => exact .inr (.send _ hopen hroom)
  | ended _ _ hpend => exact .inr (.verdict _ hpend)
  | dropData _ hopen => exact .inr (.close hopen)
  | dropDone _ hpend => exact .inr (.dropVerdict hpend)

theorem Pump.Progress.step (h : session.pump.Progress codec tail input session.stream)
    (hstep : PumpStep codec tail session after) :
    after.pump.Progress codec tail input after.stream := by
  cases hstep with
  | receive hpump hact =>
    rw [hpump] at h
    obtain ⟨hopen, hpend, hinput⟩ := h
    refine ⟨hopen, hpend, ?_⟩
    rw [hinput, pumped_of_forward hact]
  | forward hpump =>
    rw [hpump] at h
    obtain ⟨hopen, hpend, hinput⟩ := h
    refine ⟨hopen, hpend, ?_⟩
    rw [hinput]
    simp [VerdictStream.send]
  | ended hpump hact =>
    rw [hpump] at h
    obtain ⟨_, _, hinput⟩ := h
    rw [pumped_of_ended hact, append_nil] at hinput
    exact hinput
  | stopped hpump hact =>
    rw [hpump] at h
    obtain ⟨_, hpend, hinput⟩ := h
    rw [pumped_of_stopped hact, append_nil] at hinput
    simp only [Pump.Progress, hpend]
    exact hinput
  | dropData hpump =>
    simp only [hpump] at h ⊢
    exact h
  | dropDone hpump hpend =>
    simp only [hpump, Pump.Progress, hpend] at h ⊢
    exact h

theorem RelayInv.turn (h : RelayInv codec tail input session)
    (hturn : RelayTurn codec tail session after) : RelayInv codec tail input after := by
  cases hturn with
  | pump hstep =>
    refine ⟨?_, h.pump.step hstep⟩
    rcases hstep.produces with hsame | hproduces
    · rw [hsame]
      exact h.stream
    · exact h.stream.produces hproduces
  | read hread =>
    obtain ⟨hsent, hclosed, hverd⟩ := hread.producer
    exact ⟨h.stream.reads hread, h.pump.congr hsent hclosed hverd⟩

theorem RelayInv.step (h : RelayInv codec tail input session)
    (hstep : RelayStep codec tail session after) : RelayInv codec tail input after := by
  cases hstep with
  | turn hturn => exact h.turn hturn
  | startRead want => exact ⟨h.stream.startRead want, h.pump.congr rfl rfl rfl⟩

theorem RelayInv.new : RelayInv codec tail input (RelaySession.new input) := ⟨.new, rfl, rfl, rfl⟩

theorem RelayReaches.inv (hrun : RelayReaches codec tail input session) :
    RelayInv codec tail input session :=
  Transition.invariant_of_reachable RelayInv.new
    (fun _ _ hpre hstep => hpre.step hstep) hrun

theorem RelayInv.endedStream (h : RelayInv codec tail input session) {ok : Bool}
    (hverd : session.stream.channel.verdict = .sent ok) :
    EndedStream codec input session.stream.sent ok := by
  have hpumped := h.pump
  cases hpump : session.pump with
  | returned =>
    simp only [hpump, Pump.Progress, hverd] at hpumped
    exact pumped_eq_iff.mp hpumped
  | _ =>
    rw [hpump] at hpumped
    exact nomatch hverd.symm.trans hpumped.2.1

theorem RelayInv.not_endedStream (h : RelayInv codec tail input session)
    (hclosed : session.stream.channel.closed = true)
    (hverd : session.stream.channel.verdict ≠ .sent true) {payloads : List Bytes} :
    ¬ EndedStream codec input payloads true := by
  intro hwhole
  have hpumped := h.pump
  have hres := (@pumped_eq_iff _ tail _ _ _).mpr hwhole
  cases hpump : session.pump with
  | returned =>
    simp only [hpump, Pump.Progress, hres, Prod.mk.injEq] at hpumped
    cases hcell : session.stream.channel.verdict with
    | pending | dropped => simp [hcell, verdictOf] at hpumped
    | sent =>
      rw [hcell] at hpumped
      exact hverd (by rw [hcell, Option.some.inj hpumped.2.symm])
  | _ =>
    rw [hpump] at hpumped
    exact nomatch hclosed.symm.trans hpumped.1

theorem RelayInv.sent_length_le (h : RelayInv codec tail input session) :
    session.stream.sent.flatten.length ≤ input.length := by
  have hlen : (pumped codec tail input).1.flatten.length ≤ input.length := pumped_length_le
  have hpumped := h.pump
  cases hpump : session.pump with
  | reading | sending =>
    rw [hpump] at hpumped
    rw [hpumped.2.2, flatten_append, length_append] at hlen
    omega
  | returned =>
    rw [hpump] at hpumped
    rwa [show pumped codec tail input = _ from hpumped] at hlen

def Pump.weight : Pump → Nat
  | .reading rest => 3 * rest.length + 1
  | .sending _ rest => 3 * rest.length + 3
  | .returned => 0

def RelaySession.weight (session : RelaySession) : Nat :=
  session.pump.weight + session.stream.weight

theorem PumpStep.weight_lt (hstep : PumpStep codec tail session after) :
    after.weight < session.weight := by
  cases hstep with
  | receive hpump hact =>
    have := pumpAction_forward_length hact
    simp only [RelaySession.weight, hpump, Pump.weight]
    omega
  | forward hpump =>
    simp only [RelaySession.weight, hpump, Pump.weight, VerdictStream.weight_send]
    omega
  | @ended bytes ok hpump hact hpend =>
    have := VerdictStream.weight_sendVerdict ok hpend
    simp only [RelaySession.weight, hpump, Pump.weight]
    omega
  | stopped hpump =>
    simp only [RelaySession.weight, hpump, Pump.weight]
    omega
  | dropData hpump hopen => exact Nat.add_lt_add_left (VerdictStream.weight_close hopen) _
  | dropDone hpump hpend =>
    exact Nat.add_lt_add_left (VerdictStream.weight_dropVerdict hpend) _

theorem RelayTurn.weight_lt (hturn : RelayTurn codec tail session after) :
    after.weight < session.weight := by
  cases hturn with
  | pump hstep => exact hstep.weight_lt
  | read hread => exact Nat.add_lt_add_left hread.weight_lt _

theorem relayTurn_terminates (codec : ControlCodec) (tail : StreamTail) (session : RelaySession) : Transition.Terminates (RelayTurn codec tail) session :=
  Transition.terminates_of_measure RelaySession.weight
    (fun _ _ _ _ => trivial) (fun _ _ (_ : True) hturn => hturn.weight_lt) trivial

theorem RelayInv.exists_turn (h : RelayInv codec tail input session) {want : Nat}
    (hcall : session.stream.call = some want) : ∃ after, RelayTurn codec tail session after := by
  have hpumped := h.pump
  cases hpump : session.pump with
  | reading rest =>
    rw [hpump] at hpumped
    cases hact : pumpAction codec tail rest with
    | forward => exact ⟨_, .pump (.receive hpump hact)⟩
    | ended => exact ⟨_, .pump (.ended hpump hact hpumped.2.1)⟩
    | stopped => exact ⟨_, .pump (.stopped hpump hact)⟩
  | sending =>
    rw [hpump] at hpumped
    by_cases hroom : session.stream.channel.queue.length < dataQueue
    · exact ⟨_, .pump (.forward hpump hpumped.1 hroom)⟩
    -- The channel is full, so it is the turn of the reader.
    · have hqueue : session.stream.channel.queue ≠ [] := by
        intro hempty
        rw [hempty] at hroom
        exact hroom (by decide)
      obtain ⟨stream, hread⟩ := VerdictStream.exists_reads relayReadFailure hcall (.inl hqueue)
      exact ⟨_, .read hread⟩
  | returned =>
    -- The pump still has its two senders to drop; after that the reader sees the end.
    cases hopen : session.stream.channel.closed with
    | false => exact ⟨_, .pump (.dropData hpump hopen)⟩
    | true =>
      by_cases hpend : session.stream.channel.verdict = .pending
      · exact ⟨_, .pump (.dropDone hpump hpend)⟩
      · obtain ⟨stream, hread⟩ :=
          VerdictStream.exists_reads relayReadFailure hcall (.inr ⟨hopen, hpend⟩)
        exact ⟨_, .read hread⟩

end Invariant

end PbsGui.Relay
