import Mathlib.Data.List.Forall2
import Mathlib.Order.Bounds.Defs
import PbsGui.Lib.Arrivals
import PbsGui.Relay.Agent

/-!
# Frames over a connection that arrives in pieces

`read_frame` (`proto.rs`) reads its header and its payload from a socket, which
hands out the bytes in whatever pieces they arrive, and asks for buffers of the payload's size.
A connection that carries the encodings of some frames is read back frame by frame, cut
anywhere; only a cut between two frames is a clean end.
-/

namespace PbsGui.Relay

open Lib Client List

def writeFrame (codec : ControlCodec) : Frame → Except IoError Bytes
  | .control msg => writeControl codec msg
  | .data payload => writeData payload

/-- A connection as its reader sees it. -/
structure Connection where
  stream : Arrivals UInt8 IoError
  /-- The sizes of the payload buffers the reader has asked for. -/
  payloads : List Nat

namespace Connection

def opened (stream : Arrivals UInt8 IoError) : Connection :=
  { stream := stream, payloads := [] }

def bytes (conn : Connection) : Bytes := conn.stream.items

def tail (conn : Connection) : StreamTail :=
  match conn.stream.failure with
  | none => .eof
  | some error => .failed error

/-- `read_frame`, read by read. -/
def readFrame (codec : ControlCodec) (conn : Connection) :
    Except IoError (Option Frame) × Connection :=
  match conn.stream.read 1 with
  | (.error error, rest) => (.error error, { conn with stream := rest })
  | (.ok [], rest) => (.ok none, { conn with stream := rest })
  | (.ok (kind :: _), rest) =>
    match rest.readExact StreamTail.eof.error 4 with
    | (.error error, rest) => (.error error, { conn with stream := rest })
    | (.ok lenBytes, rest) =>
      let len := (u32FromLe lenBytes).toNat
      if maxFrame < len then
        (.error
          { kind := .invalidData
            text := "relay frame of " ++ toString len ++ " bytes exceeds the " ++
              toString maxFrame ++ " limit" }, { conn with stream := rest })
      else
        match rest.readExact StreamTail.eof.error len with
        | (.error error, rest) =>
          (.error error, { stream := rest, payloads := conn.payloads ++ [len] })
        | (.ok payload, rest) =>
          ((decodeFrame codec kind payload).map some,
            { stream := rest, payloads := conn.payloads ++ [len] })

variable {codec : ControlCodec} {conn : Connection}

theorem readFrame_of_nil (h : conn.bytes = []) :
    (conn.readFrame codec).1 =
      (Relay.readFrame codec conn.bytes conn.tail).map (Option.map Prod.fst) := by
  have hread := Arrivals.read_of_nil h 1
  rw [h, readFrame, hread]
  unfold tail
  cases conn.stream.failure <;> rfl

theorem read_kind {kind : UInt8} {afterKind : Bytes} (h : conn.bytes = kind :: afterKind) :
    ∃ rest, conn.stream.read 1 = (.ok [kind], rest) ∧ rest.items = afterKind ∧
      rest.failure = conn.stream.failure := by
  have hsome : conn.stream.items ≠ [] := by
    rw [← bytes, h]
    exact cons_ne_nil _ _
  obtain ⟨got, rest, hread, hgot, hone, hsplit, hfail⟩ := Arrivals.read_of_items Nat.one_pos hsome
  obtain ⟨first, rfl⟩ : ∃ first, got = [first] :=
    length_eq_one_iff.mp (Nat.le_antisymm hone (length_pos_iff.mpr hgot))
  rw [← bytes, h] at hsplit
  obtain ⟨rfl, hrest⟩ := cons_eq_cons.mp hsplit
  exact ⟨rest, hread, hrest.symm, hfail⟩

theorem readExact_cases (conn : Connection) {stream : Arrivals UInt8 IoError}
    (hfail : stream.failure = conn.stream.failure) (count : Nat) :
    (∃ first left rest, readExact count stream.items conn.tail = .ok (first, left) ∧
        stream.readExact StreamTail.eof.error count = (.ok first, rest) ∧ rest.items = left ∧
        rest.failure = conn.stream.failure) ∨
      ∃ error rest, readExact count stream.items conn.tail = .error error ∧
        stream.readExact StreamTail.eof.error count = (.error error, rest) := by
  obtain ⟨rest, hexact, hshort⟩ := stream.readExact_spec StreamTail.eof.error count
  unfold readExact
  by_cases hcount : count ≤ stream.items.length
  · obtain ⟨hread, hitems, hsame⟩ := hexact hcount
    exact .inl ⟨_, _, rest, if_pos hcount, hread, hitems, hsame.trans hfail⟩
  · refine .inr ⟨_, rest, if_neg hcount, ?_⟩
    rw [hshort (Nat.not_le.mp hcount), hfail, tail]
    cases conn.stream.failure <;> rfl

/-- The reader over pieces returns what the reader over bytes returns, and a frame
leaves the same bytes. -/
theorem readFrame_refines (codec : ControlCodec) (conn : Connection) :
    (conn.readFrame codec).1 =
        (Relay.readFrame codec conn.bytes conn.tail).map (Option.map Prod.fst) ∧
      ∀ frame rest, Relay.readFrame codec conn.bytes conn.tail = .ok (some (frame, rest)) →
        (conn.readFrame codec).2.bytes = rest ∧ (conn.readFrame codec).2.tail = conn.tail := by
  cases hbytes : conn.bytes with
  | nil =>
    refine ⟨hbytes ▸ readFrame_of_nil hbytes, fun frame rest h => ?_⟩
    obtain ⟨kind, payload, -, hframe, -⟩ := readFrame_some h
    exact absurd hframe (cons_ne_nil _ _).symm
  | cons kind =>
    obtain ⟨afterRead, hread, hitems, hfail⟩ := read_kind hbytes
    rw [← hitems, readFrame, hread]
    simp only [Relay.readFrame, bind, Except.bind]
    rcases readExact_cases conn hfail 4 with
      ⟨lenBytes, left, afterLen, hlen, hstream, hleft, hfail⟩ | ⟨error, rest, hlen, hstream⟩
    · simp only [hlen, hstream]
      by_cases hsize : maxFrame < (u32FromLe lenBytes).toNat
      · simp only [if_pos hsize]
        exact ⟨rfl, fun _ _ h => by cases h⟩
      · simp only [if_neg hsize, ← hleft]
        rcases readExact_cases conn hfail (u32FromLe lenBytes).toNat with
          ⟨payload, left, afterPayload, hbody, hstream, hleft, hfail⟩ |
            ⟨error, rest, hbody, hstream⟩
        · simp only [hbody, hstream]
          cases decodeFrame codec kind payload with
          | error => exact ⟨rfl, fun _ _ h => by cases h⟩
          | ok =>
            refine ⟨rfl, fun found rest h => ?_⟩
            cases h
            exact ⟨hleft, by simp only [tail, hfail]⟩
        · simp only [hbody, hstream]
          exact ⟨rfl, fun _ _ h => by cases h⟩
    · simp only [hlen, hstream]
      exact ⟨rfl, fun _ _ h => by cases h⟩

theorem readFrame_payloads (codec : ControlCodec) (conn : Connection) :
    (conn.readFrame codec).2.payloads = conn.payloads ∨
      ∃ len ≤ maxFrame, (conn.readFrame codec).2.payloads = conn.payloads ++ [len] := by
  unfold readFrame
  split
  · exact .inl rfl
  · exact .inl rfl
  · split
    · exact .inl rfl
    · dsimp only
      split
      -- A length over the limit is refused before there is a buffer for it.
      case isTrue => exact .inl rfl
      case isFalse hsize =>
        refine .inr ⟨_, Nat.not_lt.mp hsize, ?_⟩
        split <;> rfl

theorem readFrame_frame {frame : Frame} {rest : Connection}
    (h : conn.readFrame codec = (.ok (some frame), rest)) :
    Relay.readFrame codec conn.bytes conn.tail = .ok (some (frame, rest.bytes)) ∧
      rest.tail = conn.tail := by
  obtain ⟨hres, hrest⟩ := readFrame_refines codec conn
  rw [h] at hres hrest
  rcases hread : Relay.readFrame codec conn.bytes conn.tail with error | _ | ⟨first, left⟩ <;>
    rw [hread] at hres <;> cases hres
  obtain ⟨hbytes, htail⟩ := hrest _ left hread
  exact ⟨by rw [hbytes], htail⟩

theorem readFrame_shorter {frame : Frame} {rest : Connection}
    (h : conn.readFrame codec = (.ok (some frame), rest)) :
    rest.bytes.length < conn.bytes.length := by
  obtain ⟨kind, payload, -, hbytes, -⟩ := readFrame_some (readFrame_frame h).1
  rw [hbytes, length_append, rawFrame_length]
  omega

end Connection

/-- What reading a connection to its end gives: the frames, whether the end was a clean
one, and the connection afterwards. -/
structure Reading where
  frames : List Frame
  ended : Except IoError Unit
  conn : Connection

/-- Read frames until there is none, or an error. -/
def Connection.readAll (codec : ControlCodec) (conn : Connection) : Reading :=
  match h : conn.readFrame codec with
  | (.error error, rest) => { frames := [], ended := .error error, conn := rest }
  | (.ok none, rest) => { frames := [], ended := .ok (), conn := rest }
  | (.ok (some frame), rest) =>
    have : rest.bytes.length < conn.bytes.length := Connection.readFrame_shorter h
    let later := rest.readAll codec
    { later with frames := frame :: later.frames }
  termination_by conn.bytes.length

namespace Connection

variable {codec : ControlCodec} {conn : Connection}

theorem readAll_eq (codec : ControlCodec) (conn : Connection) :
    conn.readAll codec =
      match conn.readFrame codec with
      | (.error error, rest) => { frames := [], ended := .error error, conn := rest }
      | (.ok none, rest) => { frames := [], ended := .ok (), conn := rest }
      | (.ok (some frame), rest) =>
        { rest.readAll codec with frames := frame :: (rest.readAll codec).frames } := by
  rw [readAll]
  split <;> rename_i h <;> simp only [h]

theorem readAll_payloads (codec : ControlCodec) (conn : Connection)
    (hpre : ∀ size ∈ conn.payloads, size ≤ maxFrame) :
    ∀ size ∈ (conn.readAll codec).conn.payloads, size ≤ maxFrame := by
  induction hbound : conn.bytes.length using Nat.strongRecOn generalizing conn with
  | ind bound ih =>
    have hafter : ∀ size ∈ (conn.readFrame codec).2.payloads, size ≤ maxFrame := by
      rcases readFrame_payloads codec conn with hsame | ⟨len, hlen, hmore⟩
      · rwa [hsame]
      · rw [hmore]
        intro size hsize
        rcases mem_append.mp hsize with hold | hnew
        · exact hpre size hold
        · rwa [mem_singleton.mp hnew]
    rw [readAll_eq]
    split
    case h_1 _ _ h | h_2 _ h => rwa [h] at hafter
    case h_3 frame rest h =>
      rw [h] at hafter
      exact ih _ (hbound ▸ readFrame_shorter h) rest hafter rfl

variable {kind : UInt8}

theorem readAll_rawFrame {payload left : Bytes} {frame : Frame} (hsize : payload.length ≤ maxFrame)
    (hdec : decodeFrame codec kind payload = .ok frame)
    (hbytes : conn.bytes = rawFrame kind payload ++ left) :
    ∃ rest : Connection, rest.bytes = left ∧ rest.tail = conn.tail ∧
      (conn.readAll codec).frames = frame :: (rest.readAll codec).frames ∧
      (conn.readAll codec).ended = (rest.readAll codec).ended := by
  have hread : Relay.readFrame codec conn.bytes conn.tail = .ok (some (frame, left)) := by
    rw [hbytes, readFrame_rawFrame codec kind hsize, hdec]
    rfl
  obtain ⟨hres, hrest⟩ := readFrame_refines codec conn
  obtain ⟨hleft, htail⟩ := hrest frame left hread
  rw [hread] at hres
  have hpair : conn.readFrame codec = (.ok (some frame), (conn.readFrame codec).2) :=
    Prod.ext hres rfl
  refine ⟨(conn.readFrame codec).2, hleft, htail, ?_⟩
  rw [readAll_eq, hpair]
  exact ⟨rfl, rfl⟩

theorem readAll_ends {ended : Except IoError Unit}
    (hread : Relay.readFrame codec conn.bytes conn.tail = ended.map fun _ => none) :
    (conn.readAll codec).frames = [] ∧ (conn.readAll codec).ended = ended := by
  have hres := (readFrame_refines codec conn).1
  rw [hread] at hres
  rw [readAll_eq, ← Prod.eta (conn.readFrame codec), hres]
  cases ended <;> exact ⟨rfl, rfl⟩

theorem readFrame_cut (codec : ControlCodec) {payload : Bytes} (hsize : payload.length ≤ maxFrame)
    {cut : Nat} (hpos : 0 < cut) (hcut : cut < (rawFrame kind payload).length) :
    Relay.readFrame codec ((rawFrame kind payload).take cut) .eof = .error StreamTail.eof.error := by
  obtain ⟨cut, rfl⟩ : ∃ k, cut = k + 1 := ⟨cut - 1, by omega⟩
  have hlen := u32ToLe_length (UInt32.ofNat payload.length)
  rw [rawFrame_length] at hcut
  rw [rawFrame, take_succ_cons]
  simp only [Relay.readFrame]
  by_cases hhead : cut < 4
  · have hshort : ¬ 4 ≤ ((u32ToLe (UInt32.ofNat payload.length) ++ payload).take cut).length := by
      rw [length_take]
      omega
    rw [readExact, if_neg hshort]
    rfl
  · have hread : (u32ToLe (UInt32.ofNat payload.length) ++ payload).take cut =
        u32ToLe (UInt32.ofNat payload.length) ++ payload.take (cut - 4) := by
      rw [take_append, hlen, take_of_length_le (by omega)]
    have hfour := readExact_append (u32ToLe (UInt32.ofNat payload.length))
      (payload.take (cut - 4)) .eof
    have hshort : ¬ payload.length ≤ (payload.take (cut - 4)).length := by
      rw [length_take]
      omega
    rw [hlen] at hfour
    rw [hread, hfour]
    simp only [bind, Except.bind, u32FromLe_u32ToLe, toNat_ofNat_length hsize,
      if_neg (Nat.not_lt.mpr hsize)]
    rw [readExact, if_neg hshort]

end Connection

/-! ### Frames written and read back -/

section Written

variable {codec : ControlCodec} {frames : List Frame} {encodings : List Bytes}

theorem writeFrame_ok (hcodec : codec.Lawful) {frame : Frame} {encoding : Bytes}
    (h : writeFrame codec frame = .ok encoding) :
    ∃ kind payload, encoding = rawFrame kind payload ∧ payload.length ≤ maxFrame ∧
      decodeFrame codec kind payload = .ok frame := by
  cases frame with
  | control msg =>
    obtain ⟨json, hjson, hsize, rfl⟩ := writeControl_ok h
    exact ⟨kindControl, json, rfl, hsize, decodeFrame_control.mpr ⟨rfl, hcodec msg json hjson⟩⟩
  | data payload =>
    obtain ⟨hsize, rfl⟩ := writeData_ok h
    exact ⟨kindData, payload, rfl, hsize, decodeFrame_data.mpr ⟨rfl, rfl⟩⟩

/-- The number of encodings that lie wholly within the first `cut` bytes. -/
def wholeWithin : List Bytes → Nat → Nat
  | [], _ => 0
  | encoding :: later, cut =>
    if encoding.length ≤ cut then wholeWithin later (cut - encoding.length) + 1 else 0

theorem wholeWithin_isGreatest (encodings : List Bytes) (cut : Nat) :
    IsGreatest { count | count ≤ encodings.length ∧ (encodings.take count).flatten.length ≤ cut }
      (wholeWithin encodings cut) := by
  induction encodings generalizing cut with
  | nil => exact ⟨⟨Nat.le_refl _, Nat.zero_le _⟩, fun count h => h.1⟩
  | cons encoding later ih =>
    unfold wholeWithin
    split
    case isTrue hfits =>
      obtain ⟨⟨hcount, hlen⟩, hupper⟩ := ih (cut - encoding.length)
      refine ⟨⟨Nat.succ_le_succ hcount, ?_⟩, ?_⟩
      · rw [take_succ_cons, flatten_cons, length_append]
        omega
      · rintro count ⟨hle, hlong⟩
        cases count with
        | zero => exact Nat.zero_le _
        | succ =>
          rw [take_succ_cons, flatten_cons, length_append] at hlong
          have hbound := hupper ⟨Nat.le_of_succ_le_succ hle, by omega⟩
          exact Nat.succ_le_succ hbound
    case isFalse hlong =>
      refine ⟨⟨Nat.zero_le _, Nat.zero_le _⟩, ?_⟩
      rintro count ⟨-, hfits⟩
      cases count with
      | zero => exact Nat.le_refl _
      | succ =>
        rw [take_succ_cons, flatten_cons, length_append] at hfits
        omega

/-- Reading the encodings of some frames up to a cut gives the frames that are whole, and
a clean end if the cut is behind the last of them. -/
theorem readAll_encodings (hcodec : codec.Lawful)
    (hwrit : List.Forall₂ (fun frame encoding => writeFrame codec frame = .ok encoding)
      frames encodings) {conn : Connection} (htail : conn.tail = .eof) {cut : Nat}
    (hcut : cut ≤ encodings.flatten.length) (hbytes : conn.bytes = encodings.flatten.take cut) :
    (conn.readAll codec).frames = frames.take (wholeWithin encodings cut) ∧
      (conn.readAll codec).ended =
        if (encodings.take (wholeWithin encodings cut)).flatten.length = cut then .ok ()
        else .error StreamTail.eof.error := by
  induction hwrit generalizing conn cut with
  | nil =>
    obtain rfl : cut = 0 := Nat.le_zero.mp hcut
    exact Connection.readAll_ends (by rw [hbytes, htail]; rfl)
  | @cons frame encoding frames later hframe hwrit ih =>
    obtain ⟨kind, payload, rfl, hsize, hdec⟩ := writeFrame_ok hcodec hframe
    rw [flatten_cons] at hbytes hcut
    unfold wholeWithin
    split
    case isTrue hfits =>
      rw [take_append, take_of_length_le hfits] at hbytes
      rw [length_append] at hcut
      obtain ⟨rest, hrest, hrestTail, hframes, hended⟩ :=
        Connection.readAll_rawFrame hsize hdec hbytes
      obtain ⟨hmore, hlast⟩ := ih (hrestTail.trans htail) (by omega) hrest
      refine ⟨by rw [hframes, hmore, take_succ_cons], ?_⟩
      rw [hended, hlast, take_succ_cons, flatten_cons, length_append]
      congr 1
      rw [eq_iff_iff]
      omega
    case isFalse hlong =>
      rw [take_append_of_le_length (by omega)] at hbytes
      rcases Nat.eq_zero_or_pos cut with rfl | hpos
      · exact Connection.readAll_ends (by rw [hbytes, htail]; rfl)
      · rw [if_neg (by simp only [take_zero, flatten_nil, length_nil]; omega)]
        refine Connection.readAll_ends ?_
        rw [hbytes, htail, Connection.readFrame_cut codec hsize hpos (by omega)]
        rfl

theorem flatten_take_mono (encodings : List Bytes) {fewer more : Nat} (h : fewer ≤ more) :
    (encodings.take fewer).flatten.length ≤ (encodings.take more).flatten.length :=
  (take_prefix_take_left h).sublist.flatten.length_le

theorem wholeWithin_all (encodings : List Bytes) :
    wholeWithin encodings encodings.flatten.length = encodings.length := by
  obtain ⟨⟨hle, -⟩, hupper⟩ := wholeWithin_isGreatest encodings encodings.flatten.length
  exact Nat.le_antisymm hle (hupper ⟨Nat.le_refl _, by rw [take_length]⟩)

theorem boundary_iff (encodings : List Bytes) (cut : Nat) :
    (encodings.take (wholeWithin encodings cut)).flatten.length = cut ↔
      ∃ count, (encodings.take count).flatten.length = cut := by
  obtain ⟨⟨-, hwhole⟩, hupper⟩ := wholeWithin_isGreatest encodings cut
  constructor
  · exact fun h => ⟨_, h⟩
  · rintro ⟨count, hcount⟩
    have hmin : (encodings.take (min count encodings.length)).flatten.length = cut := by
      rw [← take_eq_take_min, hcount]
    have hbound := hupper ⟨Nat.min_le_right count _, Nat.le_of_eq hmin⟩
    have hmono := flatten_take_mono encodings hbound
    omega

/-- The encodings of some frames, arriving in any pieces, are read back as the frames and
then none.  Cut anywhere they are read back as the frames that are whole, and then none if
the cut is between two frames and an error otherwise.  Whatever arrives, the reader asks
for no payload over the limit. -/
theorem frames_read_back (hcodec : codec.Lawful)
    (hwritten : List.Forall₂ (fun frame encoding => writeFrame codec frame = .ok encoding)
      frames encodings) :
    (∀ stream : Arrivals UInt8 IoError, stream.failure = none →
        stream.items = encodings.flatten →
        ((Connection.opened stream).readAll codec).frames = frames ∧
          ((Connection.opened stream).readAll codec).ended = .ok ()) ∧
      (∀ cut < encodings.flatten.length, ∀ stream : Arrivals UInt8 IoError,
        stream.failure = none → stream.items = encodings.flatten.take cut →
        ∃ whole,
          IsGreatest { count | count ≤ encodings.length ∧
            (encodings.take count).flatten.length ≤ cut } whole ∧
          ((Connection.opened stream).readAll codec).frames = frames.take whole ∧
          ((∃ count, (encodings.take count).flatten.length = cut) →
            ((Connection.opened stream).readAll codec).ended = .ok ()) ∧
          ((¬ ∃ count, (encodings.take count).flatten.length = cut) →
            ∃ error, ((Connection.opened stream).readAll codec).ended = .error error)) ∧
      ∀ stream : Arrivals UInt8 IoError,
        ∀ size ∈ ((Connection.opened stream).readAll codec).conn.payloads, size ≤ maxFrame := by
  have htail : ∀ stream : Arrivals UInt8 IoError, stream.failure = none →
      (Connection.opened stream).tail = .eof := fun stream hclosed => by
    simp only [Connection.tail, Connection.opened, hclosed]
  refine ⟨fun stream hclosed hitems => ?_, fun cut hcut stream hclosed hitems => ?_,
    fun stream => ?_⟩
  · have hall : (Connection.opened stream).bytes =
        encodings.flatten.take encodings.flatten.length := by
      rw [take_length]
      exact hitems
    obtain ⟨hframes, hended⟩ :=
      readAll_encodings hcodec hwritten (htail stream hclosed) (Nat.le_refl _) hall
    rw [wholeWithin_all, take_length, if_pos rfl] at hended
    rw [wholeWithin_all, ← hwritten.length_eq, take_length] at hframes
    exact ⟨hframes, hended⟩
  · obtain ⟨hframes, hended⟩ :=
      readAll_encodings hcodec hwritten (htail stream hclosed) (Nat.le_of_lt hcut) hitems
    refine ⟨_, wholeWithin_isGreatest encodings cut, hframes, fun hboundary => ?_,
      fun hinside => ⟨StreamTail.eof.error, ?_⟩⟩
    · rw [hended, if_pos ((boundary_iff encodings cut).mpr hboundary)]
    · rw [hended, if_neg (mt (boundary_iff encodings cut).mp hinside)]
  · exact Connection.readAll_payloads codec _ nofun

/-- A data frame and the frame that ends a stream. -/
def sampleFrames : List Frame := [.data [7], .control (.ended true none)]

def sampleEncodings : List Bytes := [rawFrame kindData [7], rawFrame kindControl sampleEndJson]

/-- Their bytes, of which the first three arrive alone. -/
def sampleStream : Arrivals UInt8 IoError where
  pieces := [⟨sampleEncodings.flatten.take 3, by decide⟩, ⟨sampleEncodings.flatten.drop 3, by decide⟩]
  failure := none

def sampleCutStream : Arrivals UInt8 IoError where
  pieces := [⟨[1, 1], by decide⟩, ⟨[0], by decide⟩]
  failure := none

/-- The frames are read back, and the stream that ends in a header has none and is an
error. -/
theorem sampleFrames_read_back :
    ((Connection.opened sampleStream).readAll sampleCodec).frames = sampleFrames ∧
      ((Connection.opened sampleStream).readAll sampleCodec).ended = .ok () ∧
      ((Connection.opened sampleCutStream).readAll sampleCodec).frames = [] ∧
      ∃ error, ((Connection.opened sampleCutStream).readAll sampleCodec).ended = .error error := by
  have hwritten : List.Forall₂ (fun frame encoding => writeFrame sampleCodec frame = .ok encoding)
      sampleFrames sampleEncodings := .cons rfl (.cons sampleCodec_end .nil)
  obtain ⟨hwhole, hcut, -⟩ := frames_read_back sampleCodec_lawful hwritten
  have hitems : sampleStream.items = sampleEncodings.flatten := by
    simp only [sampleStream, Arrivals.items, map_cons, map_nil, flatten_cons,
      flatten_nil, append_nil, take_append_drop]
  obtain ⟨hframes, hended⟩ := hwhole sampleStream rfl hitems
  obtain ⟨whole, ⟨⟨-, hfits⟩, -⟩, hnone, -, herror⟩ :=
    hcut 3 (by decide) sampleCutStream rfl (by decide)
  -- The first encoding has six bytes, so no whole one ends within the first three.
  have hfirst : ∀ count, 0 < count → 6 ≤ (sampleEncodings.take count).flatten.length :=
    fun count hpos => flatten_take_mono sampleEncodings hpos
  have hzero : whole = 0 := by
    by_contra hpos
    have := hfirst whole (Nat.pos_of_ne_zero hpos)
    omega
  rw [hzero] at hnone
  refine ⟨hframes, hended, hnone, herror ?_⟩
  rintro ⟨count, hcount⟩
  cases count with
  | zero => cases hcount
  | succ count =>
    have := hfirst (count + 1) (Nat.succ_pos _)
    omega

end Written

end PbsGui.Relay
