import Mathlib.Data.List.Basic
import Mathlib.Logic.Relation

/-!
# Streams that end only on a verdict

A producer sends buffers over a bounded channel and, over a second channel, one verdict on
whether the stream is whole.  The reader reports end of stream only on a positive verdict, and
an error on a negative one or when the verdict's sender is dropped.

`Produces` and `Reads` are the steps of the two sides, which may interleave freely, and `Inv` is
what every run keeps: nothing is lost, duplicated or reordered between the two, and the first
end the reader reports is the last thing it reports.
-/

namespace PbsGui.Lib

open List

variable {Byte Failure : Type*}

/-- The verdict channel: nothing sent yet, a verdict, or a dropped sender. -/
inductive VerdictCell
  | pending
  | sent (ok : Bool)
  | dropped
  deriving DecidableEq

def VerdictCell.unsettled : VerdictCell → Nat
  | .pending => 1
  | .sent _ => 0
  | .dropped => 0

/-- The data channel and the verdict channel. -/
structure VerdictChannel (Byte : Type*) where
  queue : List (List Byte)
  closed : Bool
  verdict : VerdictCell

/-- The reader: its current buffer, the position in it, and the verdict once it
has been received. -/
structure VerdictReader (Byte : Type*) where
  buf : List Byte
  pos : Nat
  verdict : Option Bool

namespace VerdictChannel

def new : VerdictChannel Byte := { queue := [], closed := false, verdict := .pending }

end VerdictChannel

namespace VerdictReader

def new : VerdictReader Byte := { buf := [], pos := 0, verdict := none }

def unread (reader : VerdictReader Byte) : List Byte := reader.buf.drop reader.pos

/-- What a read returns at the end of the data. -/
def atEnd (failure : Failure) : Bool → Except Failure (List Byte)
  | true => .ok []
  | false => .error failure

/-- One turn of the loop in `read`: it blocks, replaces the buffer, or returns. -/
inductive Poll (Byte Failure : Type*)
  | blocked
  | pulled (reader : VerdictReader Byte) (channel : VerdictChannel Byte)
  | returned (reader : VerdictReader Byte) (result : Except Failure (List Byte))

/-- The verdict a reader has or can receive: a cached one, else the one that was
sent, else `false` when the sender is gone. -/
def receivedVerdict (reader : VerdictReader Byte) (channel : VerdictChannel Byte) :
    Option Bool :=
  match reader.verdict with
  | some ok => some ok
  | none =>
    match channel.verdict with
    | .pending => none
    | .sent ok => some ok
    | .dropped => some false

/-- One turn of the loop of a read into a buffer of `want` bytes.  A successful
read returns the bytes it copies. -/
def poll (failure : Failure) (want : Nat) (reader : VerdictReader Byte)
    (channel : VerdictChannel Byte) : Poll Byte Failure :=
  if reader.buf.length ≤ reader.pos then
    match channel.queue with
    | next :: more => .pulled { reader with buf := next, pos := 0 } { channel with queue := more }
    | [] =>
      if channel.closed then
        match reader.receivedVerdict channel with
        | some ok => .returned { reader with verdict := some ok } (atEnd failure ok)
        | none => .blocked
      else
        .blocked
  else
    let n := min (reader.buf.length - reader.pos) want
    .returned { reader with pos := reader.pos + n } (.ok (reader.unread.take n))

section Poll

variable {failure : Failure} {want : Nat} {reader after : VerdictReader Byte}
  {channel channel' : VerdictChannel Byte} {result : Except Failure (List Byte)}

theorem unread_eq_nil_iff : reader.unread = [] ↔ reader.buf.length ≤ reader.pos := drop_eq_nil_iff

theorem poll_pulled (h : poll failure want reader channel = .pulled after channel') :
    reader.unread = [] ∧ ∃ next more, channel.queue = next :: more ∧
      after = { reader with buf := next, pos := 0 } ∧
      channel' = { channel with queue := more } := by
  unfold poll at h
  split at h
  case isFalse => exact nomatch h
  case isTrue hread =>
    refine ⟨unread_eq_nil_iff.mpr hread, ?_⟩
    split at h
    case h_1 next more hqueue =>
      injection h with hreader hchan
      exact ⟨next, more, hqueue, hreader.symm, hchan.symm⟩
    case h_2 =>
      split at h
      · split at h <;> exact nomatch h
      · exact nomatch h

theorem poll_returned (h : poll failure want reader channel = .returned after result) :
    (reader.unread ≠ [] ∧ ∃ n, n = min reader.unread.length want ∧
      after = { reader with pos := reader.pos + n } ∧ result = .ok (reader.unread.take n)) ∨
    (reader.unread = [] ∧ channel.queue = [] ∧ channel.closed = true ∧
      ∃ ok, reader.receivedVerdict channel = some ok ∧
        after = { reader with verdict := some ok } ∧ result = atEnd failure ok) := by
  unfold poll at h
  split at h
  case isFalse hread =>
    left
    injection h with hreader hres
    refine ⟨fun hnil => hread (unread_eq_nil_iff.mp hnil), _, ?_, hreader.symm, hres.symm⟩
    rw [unread, length_drop]
  case isTrue hread =>
    right
    refine ⟨unread_eq_nil_iff.mpr hread, ?_⟩
    split at h
    case h_1 => exact nomatch h
    case h_2 hqueue =>
      split at h
      case isFalse => exact nomatch h
      case isTrue hclosed =>
        split at h
        case h_2 => exact nomatch h
        case h_1 ok hverd =>
          injection h with hreader hres
          exact ⟨hqueue, hclosed, ok, hverd, hreader.symm, hres.symm⟩

theorem poll_blocked (h : poll failure want reader channel = .blocked) :
    channel.queue = [] ∧ (channel.closed = true → channel.verdict = .pending) := by
  unfold poll at h
  split at h
  case isFalse => exact nomatch h
  case isTrue =>
    split at h
    case h_1 => exact nomatch h
    case h_2 hqueue =>
      refine ⟨hqueue, fun hclosed => ?_⟩
      rw [if_pos hclosed] at h
      split at h
      case h_1 => exact nomatch h
      case h_2 hverd =>
        unfold receivedVerdict at hverd
        split at hverd
        · exact nomatch hverd
        · split at hverd
          · assumption
          · exact nomatch hverd
          · exact nomatch hverd

end Poll

end VerdictReader

/-! ### Runs -/

/-- A stream with its reader: the read in progress, with the size of its buffer,
everything the producer has sent, and the reads that have returned, oldest
first.  No step reads `sent` or `log`. -/
structure VerdictStream (Byte Failure : Type*) where
  channel : VerdictChannel Byte
  reader : VerdictReader Byte
  call : Option Nat
  sent : List (List Byte)
  log : List (Nat × Except Failure (List Byte))

namespace VerdictStream

def new : VerdictStream Byte Failure :=
  { channel := .new, reader := .new, call := none, sent := [], log := [] }

def send (stream : VerdictStream Byte Failure) (data : List Byte) :
    VerdictStream Byte Failure :=
  { stream with
    channel := { stream.channel with queue := stream.channel.queue ++ [data] }
    sent := stream.sent ++ [data] }

def close (stream : VerdictStream Byte Failure) : VerdictStream Byte Failure :=
  { stream with channel := { stream.channel with closed := true } }

def sendVerdict (stream : VerdictStream Byte Failure) (ok : Bool) :
    VerdictStream Byte Failure :=
  { stream with channel := { stream.channel with verdict := .sent ok } }

def dropVerdict (stream : VerdictStream Byte Failure) : VerdictStream Byte Failure :=
  { stream with channel := { stream.channel with verdict := .dropped } }

/-- What the producer can do, at any time and in any order. -/
inductive Produces (capacity : Nat) (stream : VerdictStream Byte Failure) :
    VerdictStream Byte Failure → Prop
  | send (data : List Byte) (hopen : stream.channel.closed = false)
      (hroom : stream.channel.queue.length < capacity) :
      Produces capacity stream (stream.send data)
  | close (hopen : stream.channel.closed = false) : Produces capacity stream stream.close
  | verdict (ok : Bool) (hpending : stream.channel.verdict = .pending) :
      Produces capacity stream (stream.sendVerdict ok)
  | dropVerdict (hpending : stream.channel.verdict = .pending) :
      Produces capacity stream stream.dropVerdict

/-- A read into a buffer of `want` bytes begins. -/
def startRead (stream : VerdictStream Byte Failure) (want : Nat) :
    VerdictStream Byte Failure :=
  { stream with call := some want }

def finishRead (stream : VerdictStream Byte Failure) (want : Nat) (reader : VerdictReader Byte)
    (result : Except Failure (List Byte)) : VerdictStream Byte Failure :=
  { stream with reader := reader, call := none, log := stream.log ++ [(want, result)] }

/-- What a read in progress can do. -/
inductive Reads (failure : Failure) (stream : VerdictStream Byte Failure) :
    VerdictStream Byte Failure → Prop
  | pulled {want : Nat} {reader : VerdictReader Byte} {channel : VerdictChannel Byte}
      (hcall : stream.call = some want)
      (hpoll : stream.reader.poll failure want stream.channel = .pulled reader channel) :
      Reads failure stream { stream with reader := reader, channel := channel }
  | returned {want : Nat} {reader : VerdictReader Byte} {result : Except Failure (List Byte)}
      (hcall : stream.call = some want)
      (hpoll : stream.reader.poll failure want stream.channel = .returned reader result) :
      Reads failure stream (stream.finishRead want reader result)

def bytesOf (entry : Nat × Except Failure (List Byte)) : List Byte :=
  match entry.2 with
  | .ok bytes => bytes
  | .error _ => []

def delivered (stream : VerdictStream Byte Failure) : List Byte := stream.log.flatMap bytesOf

/-- The read reported the end of the stream: no bytes into a buffer with room,
or an error. -/
def IsEnd (entry : Nat × Except Failure (List Byte)) : Bool → Prop
  | true => 0 < entry.1 ∧ entry.2 = .ok []
  | false => ∃ error, entry.2 = .error error

/-- What holds in every state of a stream. -/
structure Inv (failure : Failure) (stream : VerdictStream Byte Failure) : Prop where
  flow : stream.delivered ++ stream.reader.unread ++ stream.channel.queue.flatten =
    stream.sent.flatten
  cached : ∀ ok, stream.reader.verdict = some ok →
    stream.channel.closed = true ∧ stream.channel.queue = [] ∧ stream.reader.unread = [] ∧
      (if ok then stream.channel.verdict = .sent true
        else stream.channel.verdict = .sent false ∨ stream.channel.verdict = .dropped)
  ends : ∀ entry ∈ stream.log, ∀ ok, IsEnd entry ok → stream.reader.verdict = some ok
  stays : stream.log.Pairwise fun earlier later =>
    ∀ ok, IsEnd earlier ok → later.2 = VerdictReader.atEnd failure ok

section Invariant

variable {capacity : Nat} {failure : Failure} {stream after : VerdictStream Byte Failure}

theorem Inv.new : (VerdictStream.new : VerdictStream Byte Failure).Inv failure where
  flow := rfl
  cached _ h := nomatch h
  ends _ h := nomatch h
  stays := .nil

theorem Reads.producer (hread : stream.Reads failure after) :
    after.sent = stream.sent ∧ after.channel.closed = stream.channel.closed ∧
      after.channel.verdict = stream.channel.verdict := by
  cases hread with
  | pulled hcall hpoll =>
    obtain ⟨_, next, more, _, rfl, rfl⟩ := VerdictReader.poll_pulled hpoll
    exact ⟨rfl, rfl, rfl⟩
  | returned => exact ⟨rfl, rfl, rfl⟩

theorem Inv.not_cached (h : stream.Inv failure) (hpend : stream.channel.verdict = .pending)
    (ok : Bool) : stream.reader.verdict ≠ some ok := by
  intro hok
  have hsett := (h.cached ok hok).2.2.2
  rw [hpend] at hsett
  cases ok <;> simp at hsett

theorem Inv.produces (h : stream.Inv failure) (hstep : Produces capacity stream after) :
    after.Inv failure := by
  cases hstep with
  | send data hopen =>
    refine ⟨?_, fun ok hok => ?_, h.ends, h.stays⟩
    · change stream.delivered ++ stream.reader.unread ++
        (stream.channel.queue ++ [data]).flatten = (stream.sent ++ [data]).flatten
      rw [flatten_append, flatten_append, ← h.flow]
      simp
    · rw [(h.cached ok hok).1] at hopen
      exact nomatch hopen
  | close hopen =>
    refine ⟨h.flow, fun ok hok => ?_, h.ends, h.stays⟩
    rw [(h.cached ok hok).1] at hopen
    exact nomatch hopen
  | verdict ok hpend | dropVerdict hpend =>
    exact ⟨h.flow, fun cachedOk hok => absurd hok (h.not_cached hpend cachedOk), h.ends, h.stays⟩

theorem Inv.startRead (h : stream.Inv failure) (want : Nat) :
    (stream.startRead want).Inv failure :=
  ⟨h.flow, h.cached, h.ends, h.stays⟩

theorem Inv.readBytes (h : stream.Inv failure) {want n : Nat}
    (hunread : stream.reader.unread ≠ []) (hn : n = min stream.reader.unread.length want) :
    (stream.finishRead want { stream.reader with pos := stream.reader.pos + n }
      (.ok (stream.reader.unread.take n))).Inv failure := by
  -- With bytes left in the buffer no verdict is cached, so no end has been reported.
  have hnone : stream.reader.verdict = none := by
    cases hcase : stream.reader.verdict with
    | none => rfl
    | some ok => exact absurd (h.cached ok hcase).2.2.1 hunread
  have hlog : ∀ entry ∈ stream.log, ∀ ok, ¬ IsEnd entry ok := by
    intro entry hentry ok hend
    exact nomatch hnone.symm.trans (h.ends entry hentry ok hend)
  refine ⟨?_, (fun ok hok => nomatch hnone.symm.trans hok), fun entry hentry ok hend => ?_, ?_⟩
  · have hsplit : stream.reader.unread.take n ++
        stream.reader.buf.drop (stream.reader.pos + n) = stream.reader.unread := by
      rw [VerdictReader.unread, ← drop_drop, take_append_drop]
    have hlogged : (stream.log ++ [(want, Except.ok (stream.reader.unread.take n))]).flatMap
        bytesOf = stream.delivered ++ stream.reader.unread.take n := by
      simp [delivered, bytesOf]
    change (stream.log ++ [(want, Except.ok (stream.reader.unread.take n))]).flatMap bytesOf ++
      stream.reader.buf.drop (stream.reader.pos + n) ++ stream.channel.queue.flatten =
        stream.sent.flatten
    rw [hlogged, append_assoc stream.delivered, hsplit, h.flow]
  · rcases mem_append.mp hentry with hold | hnew
    · exact absurd hend (hlog entry hold ok)
    · rw [mem_singleton.mp hnew] at hend
      cases ok with
      | false =>
        obtain ⟨error, herror⟩ := hend
        exact nomatch herror
      | true =>
        -- A read with room copies at least one byte, so it does not look like an end.
        obtain ⟨hwant, hempty⟩ := hend
        have hzero : min n stream.reader.unread.length = 0 := by
          rw [← length_take, Except.ok.inj hempty]
          rfl
        have hsome := length_pos_iff.mpr hunread
        simp only at hwant
        omega
  · refine pairwise_append.mpr ⟨h.stays, pairwise_singleton _ _, ?_⟩
    exact fun entry hentry _ _ ok hend => absurd hend (hlog entry hentry ok)

variable {ok : Bool}

theorem Inv.readEnd (h : stream.Inv failure) {want : Nat} (hunread : stream.reader.unread = [])
    (hqueue : stream.channel.queue = []) (hclosed : stream.channel.closed = true)
    (hverd : stream.reader.receivedVerdict stream.channel = some ok) :
    (stream.finishRead want { stream.reader with verdict := some ok }
      (VerdictReader.atEnd failure ok)).Inv failure := by
  -- A cached verdict is the received one, so later ends repeat the first.
  have hcached : ∀ ok', stream.reader.verdict = some ok' → ok' = ok := by
    intro ok' hok'
    simp only [VerdictReader.receivedVerdict, hok'] at hverd
    exact Option.some.inj hverd
  refine ⟨?_, fun ok' hok' => ?_, fun entry hentry ok' hend => ?_, ?_⟩
  · change _ = stream.sent.flatten
    rw [← h.flow]
    simp only [delivered, finishRead, flatMap_append]
    cases ok <;> simp [bytesOf, VerdictReader.atEnd, VerdictReader.unread]
  · cases hok'
    refine ⟨hclosed, hqueue, hunread, ?_⟩
    cases hcase : stream.reader.verdict with
    | some ok' =>
      obtain rfl := hcached ok' hcase
      exact (h.cached ok' hcase).2.2.2
    | none =>
      -- The verdict has just been received: a dropped sender counts as `false`.
      simp only [VerdictReader.receivedVerdict, hcase] at hverd
      cases hcell : stream.channel.verdict with
      | pending => simp [hcell] at hverd
      | dropped =>
        obtain rfl : false = ok := by simpa [hcell] using hverd
        exact .inr hcell
      | sent sentOk =>
        obtain rfl : sentOk = ok := by simpa [hcell] using hverd
        cases sentOk with
        | true => exact hcell
        | false => exact .inl hcell
  · rcases mem_append.mp hentry with hold | hnew
    · rw [hcached ok' (h.ends entry hold ok' hend)]
      rfl
    · rw [mem_singleton.mp hnew] at hend
      cases ok <;> cases ok' <;> simp [finishRead, IsEnd, VerdictReader.atEnd] at hend ⊢
  · refine pairwise_append.mpr ⟨h.stays, pairwise_singleton _ _, ?_⟩
    intro entry hentry later hlater ok' hend
    rw [mem_singleton.mp hlater, hcached ok' (h.ends entry hentry ok' hend)]

theorem Inv.reads (h : stream.Inv failure) (hstep : Reads failure stream after) :
    after.Inv failure := by
  cases hstep with
  | @pulled want reader channel hcall hpoll =>
    obtain ⟨hread, next, more, hqueue, rfl, rfl⟩ := VerdictReader.poll_pulled hpoll
    refine ⟨?_, fun ok hok => ?_, h.ends, h.stays⟩
    · rw [← h.flow, hread, hqueue]
      simp [delivered, VerdictReader.unread]
    · have := (h.cached ok hok).2.1
      rw [hqueue] at this
      exact nomatch this
  | @returned want reader result hcall hpoll =>
    rcases VerdictReader.poll_returned hpoll with
      ⟨hunread, n, hn, rfl, rfl⟩ | ⟨hunread, hqueue, hclosed, ok, hverd, rfl, rfl⟩
    · exact h.readBytes hunread hn
    · exact h.readEnd hunread hqueue hclosed hverd

/-- The reader has reported a whole stream: the producer sent the positive
verdict and closed the channel, and every byte was delivered. -/
theorem Inv.ended (h : stream.Inv failure) (hend : ∃ entry ∈ stream.log, IsEnd entry ok) :
    stream.channel.closed = true ∧ stream.delivered = stream.sent.flatten ∧
      (if ok then stream.channel.verdict = .sent true
        else stream.channel.verdict = .sent false ∨ stream.channel.verdict = .dropped) := by
  obtain ⟨entry, hentry, hend⟩ := hend
  obtain ⟨hclosed, hqueue, hunread, hverd⟩ := h.cached ok (h.ends entry hentry ok hend)
  have hflow := h.flow
  rw [hqueue, hunread] at hflow
  exact ⟨hclosed, by simpa using hflow, hverd⟩

theorem Inv.delivered_before (h : stream.Inv failure)
    {before later : List (Nat × Except Failure (List Byte))}
    {entry : Nat × Except Failure (List Byte)} (hlog : stream.log = before ++ entry :: later)
    (hend : IsEnd entry ok) : before.flatMap bytesOf = stream.delivered := by
  have hstays := h.stays
  rw [hlog, pairwise_append, pairwise_cons] at hstays
  have hentry : bytesOf entry = [] := by
    cases ok with
    | true => rw [bytesOf, hend.2]
    | false =>
      obtain ⟨error, herror⟩ := hend
      rw [bytesOf, herror]
  have hlater : later.flatMap bytesOf = [] := by
    rw [flatMap_eq_nil_iff]
    intro other hother
    rw [bytesOf, hstays.2.1.1 other hother ok hend]
    cases ok <;> rfl
  rw [delivered, hlog, flatMap_append, flatMap_cons, hentry, hlater, nil_append, append_nil]

theorem Inv.delivered_prefix (h : stream.Inv failure) :
    stream.delivered <+: stream.sent.flatten := by
  rw [← h.flow, append_assoc]
  exact prefix_append _ _

/-- The reads that have returned and had room for at least one byte. -/
def roomyReads (stream : VerdictStream Byte Failure) : Nat :=
  stream.log.countP fun entry => decide (0 < entry.1)

theorem roomy_le_delivered {log : List (Nat × Except Failure (List Byte))}
    (hlog : ∀ entry ∈ log, ∀ ok, ¬ IsEnd entry ok) :
    (log.countP fun entry => decide (0 < entry.1)) ≤ (log.flatMap bytesOf).length := by
  induction log with
  | nil => simp
  | cons entry log ih =>
    have hrest := ih (forall_mem_cons.mp hlog).2
    have hentry := hlog entry mem_cons_self
    have hbytes : 0 < entry.1 → 0 < (bytesOf entry).length := by
      intro hwant
      unfold bytesOf
      split
      case h_1 bytes hbytes =>
        refine length_pos_iff.mpr fun hempty => hentry true ⟨hwant, ?_⟩
        rw [hbytes, hempty]
      case h_2 error herror => exact absurd ⟨error, herror⟩ (hentry false)
    rw [countP_cons, flatMap_cons, length_append]
    by_cases hwant : 0 < entry.1
    · have := hbytes hwant
      simp only [hwant, decide_true, if_true]
      omega
    · simp only [hwant, decide_false, Bool.false_eq_true, if_false]
      omega

theorem Inv.exists_end (h : stream.Inv failure)
    (hmany : stream.sent.flatten.length < stream.roomyReads) :
    ∃ entry ∈ stream.log, ∃ ok, IsEnd entry ok := by
  by_contra hnone
  have hdel := h.delivered_prefix.length_le
  have := roomy_le_delivered fun entry hentry ok hend => hnone ⟨entry, hentry, ok, hend⟩
  simp only [roomyReads, delivered] at *
  omega

/-- Counts what is left to happen besides new reads and new buffers: buffers to
take, a read to return, the channel to close and the verdict to be settled. -/
def weight (stream : VerdictStream Byte Failure) : Nat :=
  stream.channel.queue.length + stream.call.toList.length +
    (!stream.channel.closed).toNat + stream.channel.verdict.unsettled

theorem Reads.weight_lt (hstep : Reads failure stream after) : after.weight < stream.weight := by
  cases hstep with
  | @pulled want reader channel hcall hpoll =>
    obtain ⟨_, next, more, hqueue, rfl, rfl⟩ := VerdictReader.poll_pulled hpoll
    simp only [weight, hqueue, length_cons]
    omega
  | @returned want reader result hcall hpoll =>
    simp only [weight, finishRead, hcall, Option.toList_none, Option.toList_some,
      length_nil, length_singleton]
    omega

theorem weight_send (data : List Byte) : (stream.send data).weight = stream.weight + 1 := by
  simp only [weight, send, length_append, length_singleton]
  omega

theorem weight_close (hopen : stream.channel.closed = false) :
    stream.close.weight < stream.weight := by
  simp only [weight, close, hopen, Bool.not_true, Bool.not_false, Bool.toNat_false, Bool.toNat_true]
  omega

theorem weight_sendVerdict (ok : Bool) (hpend : stream.channel.verdict = .pending) :
    (stream.sendVerdict ok).weight < stream.weight := by
  simp only [weight, sendVerdict, hpend, VerdictCell.unsettled]
  omega

theorem weight_dropVerdict (hpend : stream.channel.verdict = .pending) :
    stream.dropVerdict.weight < stream.weight := by
  simp only [weight, dropVerdict, hpend, VerdictCell.unsettled]
  omega

theorem exists_reads (failure : Failure) {want : Nat} (hcall : stream.call = some want)
    (hready : stream.channel.queue ≠ [] ∨
      (stream.channel.closed = true ∧ stream.channel.verdict ≠ .pending)) :
    ∃ after, Reads failure stream after := by
  cases hpoll : stream.reader.poll failure want stream.channel with
  | pulled => exact ⟨_, .pulled hcall hpoll⟩
  | returned => exact ⟨_, .returned hcall hpoll⟩
  | blocked =>
    obtain ⟨hqueue, hverd⟩ := VerdictReader.poll_blocked hpoll
    rcases hready with hmore | ⟨hclosed, hsent⟩
    · exact absurd hqueue hmore
    · exact absurd (hverd hclosed) hsent

end Invariant

end VerdictStream

end PbsGui.Lib
