import PbsGui.Client.Primitives
import PbsGui.Lib.EventRuns

/-!
# Frames on a relay connection

The wire format between a proxy and its relay agents (`proto.rs`): a kind byte,
a little-endian length and a payload.  A connection is the bytes that arrive on it and what
comes after them, the peer's close or a transport error.  The JSON codec of the control messages
is a parameter.
-/

namespace PbsGui.Relay

open Lib Client List

def maxFrame : Nat := 16 * 1024 * 1024

def kindControl : UInt8 := 0
def kindData : UInt8 := 1

/-- Control messages, for both directions and both connection kinds. -/
inductive ControlMsg
  | register (agentName host token version : String) (proto : UInt32)
  | sessionDone (sessionId : String) (ok : Bool) (error : Option String) (bytes : UInt64)
  | pong
  | registered (ok : Bool) (message : String)
  | startBackup (sessionId : String) (instanceName : Option String) (setName : String)
  | startRestore (sessionId : String) (instanceName : Option String) (setName : String)
  | cancel (sessionId : String)
  | ping
  | hello (sessionId token : String)
  | ended (ok : Bool) (error : Option String)
  deriving DecidableEq

/-- One frame on a relay connection. -/
inductive Frame
  | control (msg : ControlMsg)
  | data (payload : Bytes)
  deriving DecidableEq

/-- The JSON encoder and decoder of the control messages. -/
structure ControlCodec where
  toVec : ControlMsg → Except IoError Bytes
  fromSlice : Bytes → Except String ControlMsg

def ControlCodec.Lawful (codec : ControlCodec) : Prop :=
  ∀ msg json, codec.toVec msg = .ok json → codec.fromSlice json = .ok msg

/-- What comes after the bytes of a connection. -/
inductive StreamTail
  | eof
  | failed (error : IoError)

/-- The error of a read that needs bytes which do not come. -/
def StreamTail.error : StreamTail → IoError
  | .eof => { kind := .unexpectedEof, text := "early eof" }
  | .failed error => error

def rawFrame (kind : UInt8) (payload : Bytes) : Bytes :=
  kind :: (u32ToLe (UInt32.ofNat payload.length) ++ payload)

/-- `write_raw`: the bytes it writes, or its refusal of an oversized payload. -/
def writeRaw (kind : UInt8) (payload : Bytes) : Except IoError Bytes :=
  if payload.length ≤ maxFrame then
    .ok (rawFrame kind payload)
  else
    .error { kind := .invalidInput, text := "relay frame too large" }

def writeData (payload : Bytes) : Except IoError Bytes :=
  writeRaw kindData payload

def writeControl (codec : ControlCodec) (msg : ControlMsg) : Except IoError Bytes := do
  writeRaw kindControl (← codec.toVec msg)

/-- `read_exact`: the next `count` bytes and what is left. -/
def readExact (count : Nat) (bytes : Bytes) (tail : StreamTail) :
    Except IoError (Bytes × Bytes) :=
  if count ≤ bytes.length then
    .ok (bytes.take count, bytes.drop count)
  else
    .error tail.error

def decodeFrame (codec : ControlCodec) (kind : UInt8) (payload : Bytes) :
    Except IoError Frame :=
  if kind = kindControl then
    match codec.fromSlice payload with
    | .ok msg => .ok (.control msg)
    | .error text => .error { kind := .invalidData, text := "bad relay control frame: " ++ text }
  else if kind = kindData then
    .ok (.data payload)
  else
    .error { kind := .invalidData, text := "unknown relay frame kind " ++ toString kind.toNat }

/-- Read one frame, with the bytes left after it, or `none` at a clean end of
stream. -/
def readFrame (codec : ControlCodec) (bytes : Bytes) (tail : StreamTail) :
    Except IoError (Option (Frame × Bytes)) :=
  match bytes with
  | [] =>
    -- only here, between two frames, is the end of the stream a clean one
    match tail with
    | .eof => .ok none
    | .failed error => .error error
  | kind :: afterKind => do
    let (lenBytes, afterLen) ← readExact 4 afterKind tail
    let len := (u32FromLe lenBytes).toNat
    if maxFrame < len then
      .error
        { kind := .invalidData
          text := "relay frame of " ++ toString len ++ " bytes exceeds the " ++
            toString maxFrame ++ " limit" }
    else
      let (payload, rest) ← readExact len afterLen tail
      let frame ← decodeFrame codec kind payload
      .ok (some (frame, rest))

theorem rawFrame_length (kind : UInt8) (payload : Bytes) :
    (rawFrame kind payload).length = 5 + payload.length := by
  simp only [rawFrame, length_cons, length_append, u32ToLe_length]
  omega

variable {payload : Bytes}

theorem toNat_ofNat_length (hsize : payload.length ≤ maxFrame) :
    (UInt32.ofNat payload.length).toNat = payload.length := by
  rw [UInt32.toNat_ofNat_of_lt']
  exact Nat.lt_of_le_of_lt hsize (by decide)

theorem rawFrame_append_inj {kind kind' : UInt8} {payload payload' rest rest' : Bytes}
    (hsize : payload.length ≤ maxFrame) (hsize' : payload'.length ≤ maxFrame)
    (h : rawFrame kind payload ++ rest = rawFrame kind' payload' ++ rest') :
    kind = kind' ∧ payload = payload' ∧ rest = rest' := by
  simp only [rawFrame, cons_append, cons.injEq, append_assoc] at h
  obtain ⟨hkind, hrest⟩ := h
  obtain ⟨hlen, hbody⟩ := append_inj hrest (by rw [u32ToLe_length, u32ToLe_length])
  have hlength : payload.length = payload'.length := by
    have := congrArg (fun bytes => (u32FromLe bytes).toNat) hlen
    simpa only [u32FromLe_u32ToLe, toNat_ofNat_length hsize, toNat_ofNat_length hsize'] using this
  exact ⟨hkind, append_inj hbody hlength⟩

theorem readExact_append (left rest : Bytes) (tail : StreamTail) :
    readExact left.length (left ++ rest) tail = .ok (left, rest) := by
  simp [readExact]

theorem readExact_ok {count : Nat} {bytes first rest : Bytes} {tail : StreamTail}
    (h : readExact count bytes tail = .ok (first, rest)) :
    first.length = count ∧ bytes = first ++ rest := by
  unfold readExact at h
  split at h
  case isFalse => exact nomatch h
  case isTrue hcount =>
    obtain ⟨rfl, rfl⟩ := Prod.mk.inj (Except.ok.inj h)
    exact ⟨by simpa using hcount, (take_append_drop _ _).symm⟩

theorem readFrame_rawFrame (codec : ControlCodec) (kind : UInt8) (hsize : payload.length ≤ maxFrame)
    (rest : Bytes) (tail : StreamTail) :
    readFrame codec (rawFrame kind payload ++ rest) tail =
      (decodeFrame codec kind payload).map fun frame => some (frame, rest) := by
  have hlen := toNat_ofNat_length hsize
  have hhead : readExact 4 (u32ToLe (UInt32.ofNat payload.length) ++ (payload ++ rest)) tail =
      .ok (u32ToLe (UInt32.ofNat payload.length), payload ++ rest) := by
    have := readExact_append (u32ToLe (UInt32.ofNat payload.length)) (payload ++ rest) tail
    rwa [u32ToLe_length] at this
  simp only [rawFrame, cons_append, append_assoc, readFrame, hhead]
  simp only [bind, Except.bind, u32FromLe_u32ToLe, hlen, if_neg (Nat.not_lt.mpr hsize),
    readExact_append]
  cases decodeFrame codec kind payload <;> rfl

variable {codec : ControlCodec}

theorem readFrame_some {bytes rest : Bytes} {tail : StreamTail} {frame : Frame}
    (h : readFrame codec bytes tail = .ok (some (frame, rest))) :
    ∃ kind payload, payload.length ≤ maxFrame ∧ bytes = rawFrame kind payload ++ rest ∧
      decodeFrame codec kind payload = .ok frame := by
  cases bytes with
  | nil => cases tail <;> exact nomatch h
  | cons kind =>
    obtain ⟨⟨lenBytes, afterLen⟩, hlen, hafter⟩ := except_bind_eq_ok.mp h
    obtain ⟨hfour, rfl⟩ := readExact_ok hlen
    dsimp only at hafter
    split at hafter
    -- A length over the limit is refused before the payload is read.
    case isTrue => cases hafter
    case isFalse hsize =>
      obtain ⟨⟨payload, left⟩, hbody, hdec⟩ := except_bind_eq_ok.mp hafter
      obtain ⟨hpayload, rfl⟩ := readExact_ok hbody
      obtain ⟨found, hframe, hfound⟩ := except_bind_eq_ok.mp hdec
      simp only [Except.ok.injEq, Option.some.injEq, Prod.mk.injEq] at hfound
      obtain ⟨rfl, rfl⟩ := hfound
      refine ⟨kind, payload, by omega, ?_, hframe⟩
      rw [rawFrame, hpayload, UInt32.ofNat_toNat, u32ToLe_u32FromLe hfour]
      simp

variable {kind : UInt8}

theorem decodeFrame_data {payload found : Bytes} :
    decodeFrame codec kind payload = .ok (.data found) ↔ kind = kindData ∧ found = payload := by
  unfold decodeFrame
  by_cases hcontrol : kind = kindControl
  · subst hcontrol
    have hdiffer : kindControl ≠ kindData := by decide
    simp only [if_pos, hdiffer, false_and, iff_false]
    cases codec.fromSlice payload <;> simp
  · rw [if_neg hcontrol]
    by_cases hdata : kind = kindData
    · subst hdata
      simp only [if_pos, Except.ok.injEq, Frame.data.injEq, true_and]
      exact eq_comm
    · simp [hdata]

theorem decodeFrame_control {msg : ControlMsg} :
    decodeFrame codec kind payload = .ok (.control msg) ↔
      kind = kindControl ∧ codec.fromSlice payload = .ok msg := by
  unfold decodeFrame
  by_cases hcontrol : kind = kindControl
  · subst hcontrol
    simp only [if_pos, true_and]
    cases codec.fromSlice payload <;> simp
  · rw [if_neg hcontrol]
    simp only [hcontrol, false_and, iff_false]
    split <;> simp

theorem writeRaw_ok {payload frame : Bytes} (h : writeRaw kind payload = .ok frame) :
    payload.length ≤ maxFrame ∧ frame = rawFrame kind payload := by
  unfold writeRaw at h
  split at h
  case isTrue hsize => exact ⟨hsize, (Except.ok.inj h).symm⟩
  case isFalse => cases h

theorem writeData_ok {buffer frame : Bytes} (h : writeData buffer = .ok frame) :
    buffer.length ≤ maxFrame ∧ frame = rawFrame kindData buffer :=
  writeRaw_ok h

theorem writeControl_ok {msg : ControlMsg} {frame : Bytes} (h : writeControl codec msg = .ok frame) :
    ∃ json, codec.toVec msg = .ok json ∧ json.length ≤ maxFrame ∧
      frame = rawFrame kindControl json := by
  obtain ⟨json, hjson, hraw⟩ := except_bind_eq_ok.mp h
  exact ⟨json, hjson, writeRaw_ok hraw⟩

end PbsGui.Relay
