import PbsGui.Lib.Bytes
import PbsGui.Lib.Serving

/-!
# The device of a restore

`fill_device` (`sql/vdi.rs`) answers the read commands of a virtual device from an image in
memory, or from a channel of buffers that a download fills.  Both have the same bytes left
after the same requests, so the server cannot tell which of them it restores from.
-/

namespace PbsGui.Engine

open Lib List

/-! ### The sources -/

/-- A backup that is in memory. -/
structure ImageSource where
  data : Bytes
  pos : Nat

namespace ImageSource

def new (data : Bytes) : ImageSource := ⟨data, 0⟩

def readInto (source : ImageSource) (want : Nat) : Bytes × ImageSource :=
  let n := min (source.data.length - source.pos) want
  ((source.data.drop source.pos).take n, { source with pos := source.pos + n })

def left (source : ImageSource) : Bytes := source.data.drop source.pos

theorem readInto_bytes (source : ImageSource) (want : Nat) :
    (source.readInto want).1 = source.left.take want := by
  rw [readInto, left, ← length_drop, Nat.min_comm]
  exact take_eq_take_min.symm

theorem left_readInto (source : ImageSource) (want : Nat) :
    (source.readInto want).2.left = source.left.drop want := by
  have hafter : (source.readInto want).2.left =
      source.data.drop (source.pos + min (source.data.length - source.pos) want) := rfl
  rw [hafter, left, drop_drop]
  by_cases hfits : want ≤ source.data.length - source.pos
  · rw [Nat.min_eq_right hfits]
  · rw [Nat.min_eq_left (by omega), drop_eq_nil_of_le (by omega), drop_eq_nil_of_le (by omega)]

def server : ByteServer ImageSource UInt8 where
  read := readInto
  left := left
  read_bytes := readInto_bytes
  left_read := left_readInto

end ImageSource

/-- A backup that comes in buffers. -/
structure StreamReader where
  /-- The buffers that are still received before the senders are gone. -/
  rx : List Bytes
  buf : Bytes
  pos : Nat

namespace StreamReader

def new (rx : List Bytes) : StreamReader := ⟨rx, [], 0⟩

/-- The loop of a request, with so many bytes still to fill. -/
def readInto (reader : StreamReader) (want : Nat) : Bytes × StreamReader :=
  if _hmore : 0 < want then
    if _hbuf : reader.pos < reader.buf.length then
      let n := min (reader.buf.length - reader.pos) want
      let next := readInto { reader with pos := reader.pos + n } (want - n)
      ((reader.buf.drop reader.pos).take n ++ next.1, next.2)
    else
      match _hrx : reader.rx with
      | buf :: rx => readInto ⟨rx, buf, 0⟩ want
      -- every sender dropped: end of stream
      | [] => ([], reader)
  else ([], reader)
termination_by want + reader.rx.length
decreasing_by
  · omega
  · rw [_hrx, List.length_cons]
    omega

def left (reader : StreamReader) : Bytes := reader.buf.drop reader.pos ++ reader.rx.flatten

theorem left_new (rx : List Bytes) : (new rx).left = rx.flatten := rfl

variable {reader : StreamReader}

theorem left_copied {n : Nat} (h : n ≤ reader.buf.length - reader.pos) :
    (reader.buf.drop reader.pos).take n = reader.left.take n ∧
      left { reader with pos := reader.pos + n } = reader.left.drop n := by
  rw [← length_drop] at h
  constructor
  · rw [left, take_append_of_le_length h]
  · rw [left, left, drop_append_of_le_length h, drop_drop]

theorem readInto_spec (reader : StreamReader) (want : Nat) :
    (reader.readInto want).1 = reader.left.take want ∧
      (reader.readInto want).2.left = reader.left.drop want := by
  -- along the loop: it copies from the buffer, receives the next one or ends
  fun_induction readInto reader want with
  | case1 reader want hmore hbuf n next ih =>
    obtain ⟨hcopied, hleft⟩ := @left_copied reader n (Nat.min_le_left _ _)
    have hwant : want = n + (want - n) := (Nat.add_sub_cancel' (Nat.min_le_right _ _)).symm
    rw [hleft] at ih
    obtain ⟨hbytes, hafter⟩ := ih
    constructor
    · rw [hwant, take_add, ← hcopied, ← hbytes]
    · rw [hwant, ← drop_drop, ← hafter]
  | case2 reader want hmore hbuf buf rx hrx ih =>
    rw [left, drop_eq_nil_of_le (Nat.le_of_not_lt hbuf), hrx]
    exact ih
  | case3 reader want hmore hbuf hrx =>
    have hnone : reader.left = [] := by
      rw [left, drop_eq_nil_of_le (Nat.le_of_not_lt hbuf), hrx]
      rfl
    rw [hnone, take_nil, drop_nil]
    exact ⟨rfl, rfl⟩
  | case4 reader want hmore =>
    rw [Nat.eq_zero_of_not_pos hmore]
    exact ⟨rfl, rfl⟩

def server : ByteServer StreamReader UInt8 where
  read := readInto
  left := left
  read_bytes reader want := (readInto_spec reader want).1
  left_read reader want := (readInto_spec reader want).2

end StreamReader

/-! ### The device -/

/-- A command of the device. -/
inductive DeviceCommand
  | read (size : UInt32)
  | flush
  | clearError
  | other (code : UInt32)

inductive CompletionCode
  | success
  | handleEof
  | notSupported
  deriving DecidableEq

/-- What a command is completed with, and the bytes put into its buffer. -/
structure Completion where
  code : CompletionCode
  bytesTransferred : UInt32
  data : Bytes
  deriving DecidableEq

/-- A command, and whether completing it succeeds. -/
structure DeviceTurn where
  command : DeviceCommand
  completes : Bool

/-- How a run of the device ends, as `GetCommand` says. -/
inductive DeviceEnd
  | closed
  | failed

/-- The completions of a run, and its result. -/
structure DeviceRun where
  completions : List Completion
  result : Except String UInt64

section Device

variable {σ : Type} (server : ByteServer σ UInt8)

/-- The answer to a command, what is added to the total and the source after it. -/
def completeCommand (state : σ) : DeviceCommand → Completion × Nat × σ
  | .read size =>
    let (data, after) := server.read state size.toNat
    let n := data.length
    -- a short read is end of stream
    (⟨if UInt32.ofNat n = size then .success else .handleEof, UInt32.ofNat n, data⟩, n, after)
  | .flush | .clearError => (⟨.success, 0, []⟩, 0, state)
  | .other _ => (⟨.notSupported, 0, []⟩, 0, state)

/-- The loop over the device's commands, with the total so far. -/
def fillLoop (ending : DeviceEnd) (state : σ) (total : UInt64) : List DeviceTurn → DeviceRun
  | [] =>
    match ending with
    | .closed => ⟨[], .ok total⟩
    | .failed => ⟨[], .error "VDI GetCommand failed"⟩
  | turn :: turns =>
    let (completion, n, after) := completeCommand server state turn.command
    if turn.completes then
      let run := fillLoop ending after (total + UInt64.ofNat n) turns
      { run with completions := completion :: run.completions }
    else ⟨[completion], .error "VDI CompleteCommand failed"⟩

/-- Satisfy the device's read commands from a source until the device closes; `opened` is
how opening the device ends. -/
def fillDevice (opened : Except String Unit) (state : σ) (turns : List DeviceTurn)
    (ending : DeviceEnd) : DeviceRun :=
  match opened with
  | .error e => ⟨[], .error e⟩
  | .ok () => fillLoop server ending state 0 turns

variable {server} {τ : Type} {other : ByteServer τ UInt8} {state : σ} {state' : τ}

theorem completeCommand_eq (h : server.left state = other.left state') (command : DeviceCommand) :
    (completeCommand server state command).1 = (completeCommand other state' command).1 ∧
      (completeCommand server state command).2.1 = (completeCommand other state' command).2.1 ∧
      server.left (completeCommand server state command).2.2 =
        other.left (completeCommand other state' command).2.2 := by
  cases command with
  | read size =>
    obtain ⟨hbytes, hleft⟩ := ByteServer.read_eq_of_left h size.toNat
    simp only [completeCommand, hbytes]
    exact ⟨trivial, trivial, hleft⟩
  | flush | clearError | other => exact ⟨rfl, rfl, h⟩

theorem fillLoop_eq (h : server.left state = other.left state') (ending : DeviceEnd)
    (total : UInt64) (turns : List DeviceTurn) :
    fillLoop server ending state total turns = fillLoop other ending state' total turns := by
  induction turns generalizing state state' total with
  | nil => rfl
  | cons turn turns ih =>
    obtain ⟨hcompletion, hcount, hleft⟩ := completeCommand_eq h turn.command
    simp only [fillLoop, hcompletion, hcount, ih hleft]

end Device

/-- However an image comes in buffers, the streamed source answers as the buffered one does,
short only with all that is left of the image, and the device cannot tell them apart. -/
theorem streamed_eq_buffered (image : Bytes) {rx : List Bytes} (hrx : rx.flatten = image) :
    (∀ wants, StreamReader.server.answers (.new rx) wants =
      ImageSource.server.answers (.new image) wants) ∧
    (∀ wants want,
      let answer := ((StreamReader.server.after (.new rx) wants).readInto want).1
      answer = (image.drop wants.sum).take want ∧
        (answer.length < want → answer = image.drop wants.sum)) ∧
    ∀ opened turns ending,
      fillDevice StreamReader.server opened (.new rx) turns ending =
        fillDevice ImageSource.server opened (.new image) turns ending := by
  have hleft : StreamReader.server.left (.new rx) = ImageSource.server.left (.new image) := hrx
  refine ⟨ByteServer.answers_eq_of_left hleft, ?_, ?_⟩
  · intro wants want answer
    have hafter : (StreamReader.server.after (.new rx) wants).left = image.drop wants.sum :=
      (StreamReader.server.left_after (.new rx) wants).trans (congrArg (drop wants.sum) hrx)
    rw [← hafter]
    exact ⟨(StreamReader.readInto_spec _ want).1,
      @ByteServer.read_eq_left_of_short _ _ StreamReader.server _ want⟩
  · intro opened turns ending
    cases opened with
    | error => rfl
    | ok => exact fillLoop_eq hleft ending 0 turns

/-- Three bytes in buffers of two, none and one, with a request across them. -/
theorem threeBuffers_answered :
    StreamReader.server.answers (.new [[1, 2], [], [3]]) [1, 4] =
      ImageSource.server.answers (.new [1, 2, 3]) [1, 4] ∧
    ImageSource.server.answers (.new [1, 2, 3]) [1, 4] = [[1], [2, 3]] :=
  ⟨(@streamed_eq_buffered [1, 2, 3] [[1, 2], [], [3]] rfl).1 [1, 4], by decide⟩

end PbsGui.Engine
