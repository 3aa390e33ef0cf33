import PbsGui.Lib.Transition
import PbsGui.Lib.VerdictStream

/-!
# Streams of given pieces

A stream whose producer sends given pieces in their order, and then drops its sender and
sends a positive verdict, in either order.  The reader of such a stream never sees an
error: it is delivered exactly the pieces, in whatever sizes it reads, and then the end.
-/

namespace PbsGui.Lib

open List

variable {Byte Failure : Type*}

/-- The pieces that are still to be sent, and the stream. -/
structure PieceFeed (Byte Failure : Type*) where
  pieces : List (List Byte)
  stream : VerdictStream Byte Failure

namespace PieceFeed

open VerdictStream

def new (pieces : List (List Byte)) : PieceFeed Byte Failure := ⟨pieces, .new⟩

/-- One step of the producer or of a read in progress. -/
inductive Turn (capacity : Nat) (failure : Failure) (feed : PieceFeed Byte Failure) :
    PieceFeed Byte Failure → Prop
  | send {piece : List Byte} {rest : List (List Byte)} (hpieces : feed.pieces = piece :: rest)
      (hroom : feed.stream.channel.queue.length < capacity) :
      Turn capacity failure feed ⟨rest, feed.stream.send piece⟩
  | close (hpieces : feed.pieces = []) (hopen : feed.stream.channel.closed = false) :
      Turn capacity failure feed { feed with stream := feed.stream.close }
  | verdict (hpieces : feed.pieces = []) (hpending : feed.stream.channel.verdict = .pending) :
      Turn capacity failure feed { feed with stream := feed.stream.sendVerdict true }
  | read {after : VerdictStream Byte Failure} (hread : feed.stream.Reads failure after) :
      Turn capacity failure feed { feed with stream := after }

/-- One step: a turn, or a new read into a buffer of any size. -/
inductive Step (capacity : Nat) (failure : Failure) (feed : PieceFeed Byte Failure) :
    PieceFeed Byte Failure → Prop
  | turn {after : PieceFeed Byte Failure} (hturn : Turn capacity failure feed after) :
      Step capacity failure feed after
  | startRead (want : Nat) (hidle : feed.stream.call = none) :
      Step capacity failure feed { feed with stream := feed.stream.startRead want }

def Reaches (capacity : Nat) (failure : Failure) (pieces : List (List Byte))
    (feed : PieceFeed Byte Failure) : Prop :=
  Relation.ReflTransGen (Step capacity failure) (new pieces) feed

/-- What holds in every state. -/
structure Inv (failure : Failure) (pieces : List (List Byte)) (feed : PieceFeed Byte Failure) :
    Prop where
  stream : feed.stream.Inv failure
  sent : feed.stream.sent ++ feed.pieces = pieces
  closed : feed.stream.channel.closed = true → feed.pieces = []
  verdict : feed.stream.channel.verdict = .pending ∨ feed.stream.channel.verdict = .sent true

variable {capacity : Nat} {failure : Failure} {pieces : List (List Byte)}
  {feed after : PieceFeed Byte Failure}

theorem Inv.new : Inv failure pieces (PieceFeed.new pieces) where
  stream := .new
  sent := rfl
  closed h := nomatch h
  verdict := .inl rfl

theorem Inv.turn (h : feed.Inv failure pieces) (hturn : Turn capacity failure feed after) :
    after.Inv failure pieces := by
  cases hturn with
  | @send piece rest hpieces hroom =>
    have hopen : feed.stream.channel.closed = false := by
      refine Bool.eq_false_iff.mpr fun hclosed => ?_
      exact nomatch hpieces.symm.trans (h.closed hclosed)
    refine ⟨h.stream.produces (.send piece hopen hroom), ?_, fun hclosed => ?_, h.verdict⟩
    · rw [← h.sent, hpieces]
      exact append_assoc feed.stream.sent [piece] rest
    · exact nomatch hopen.symm.trans hclosed
  | close hpieces hopen =>
    exact ⟨h.stream.produces (@Produces.close _ _ capacity _ hopen), h.sent, fun _ => hpieces,
      h.verdict⟩
  | verdict hpieces hpend =>
    exact ⟨h.stream.produces (@Produces.verdict _ _ capacity _ true hpend), h.sent, h.closed,
      .inr rfl⟩
  | read hread =>
    obtain ⟨hsent, hclosed, hverd⟩ := hread.producer
    refine ⟨h.stream.reads hread, ?_, ?_, ?_⟩
    · rw [hsent, h.sent]
    · rw [hclosed]
      exact h.closed
    · rw [hverd]
      exact h.verdict

theorem Inv.step (h : feed.Inv failure pieces) (hstep : Step capacity failure feed after) :
    after.Inv failure pieces := by
  cases hstep with
  | turn hturn => exact h.turn hturn
  | startRead want => exact ⟨h.stream.startRead want, h.sent, h.closed, h.verdict⟩

theorem Reaches.inv (hrun : Reaches capacity failure pieces feed) : feed.Inv failure pieces :=
  Transition.invariant_of_reachable .new (fun _ _ h hstep => h.step hstep) hrun

theorem Inv.ended (h : feed.Inv failure pieces)
    {before later : List (Nat × Except Failure (List Byte))}
    {entry : Nat × Except Failure (List Byte)} {ok : Bool}
    (hlog : feed.stream.log = before ++ entry :: later) (hend : IsEnd entry ok) :
    ok = true ∧ before.flatMap bytesOf = pieces.flatten := by
  have hentry : entry ∈ feed.stream.log := by
    rw [hlog]
    exact mem_append_right _ mem_cons_self
  obtain ⟨hclosed, hdel, hverd⟩ := h.stream.ended ⟨entry, hentry, hend⟩
  have hsent := h.sent
  rw [h.closed hclosed, append_nil] at hsent
  refine ⟨?_, ?_⟩
  · cases ok with
    | true => rfl
    | false =>
      -- neither a negative verdict nor a dropped sender is among the producer's steps
      rcases h.verdict with hcell | hcell <;> rw [hcell] at hverd <;> simp at hverd
  · rw [h.stream.delivered_before hlog hend, hdel, hsent]

theorem Inv.exists_end (h : feed.Inv failure pieces)
    (hmany : pieces.flatten.length < feed.stream.roomyReads) :
    ∃ entry ∈ feed.stream.log, IsEnd entry true := by
  have hsent : feed.stream.sent.flatten.length ≤ pieces.flatten.length := by
    rw [← h.sent, flatten_append, length_append]
    exact Nat.le_add_right _ _
  obtain ⟨entry, hentry, ok, hend⟩ := h.stream.exists_end (Nat.lt_of_le_of_lt hsent hmany)
  obtain ⟨before, later, hlog⟩ := append_of_mem hentry
  obtain ⟨rfl, -⟩ := h.ended hlog hend
  exact ⟨entry, hentry, hend⟩

def weight (feed : PieceFeed Byte Failure) : Nat := 2 * feed.pieces.length + feed.stream.weight

theorem Turn.weight_lt (hturn : Turn capacity failure feed after) : after.weight < feed.weight := by
  cases hturn with
  | send hpieces =>
    simp only [weight, hpieces, length_cons, weight_send]
    omega
  | close hpieces hopen => exact Nat.add_lt_add_left (weight_close hopen) _
  | verdict hpieces hpend => exact Nat.add_lt_add_left (weight_sendVerdict true hpend) _
  | read hread => exact Nat.add_lt_add_left hread.weight_lt _

theorem turn_terminates (capacity : Nat) (failure : Failure) (feed : PieceFeed Byte Failure) :
    Transition.Terminates (Turn capacity failure) feed :=
  Transition.terminates_of_measure weight
    (fun _ _ _ _ => trivial) (fun _ _ (_ : True) hturn => hturn.weight_lt) trivial

theorem exists_turn (hcapacity : 0 < capacity) {want : Nat} (hcall : feed.stream.call = some want) :
    ∃ after, Turn capacity failure feed after := by
  cases hpieces : feed.pieces with
  | cons =>
    by_cases hroom : feed.stream.channel.queue.length < capacity
    · exact ⟨_, .send hpieces hroom⟩
    -- the channel is full, so it is the turn of the reader
    · have hqueue : feed.stream.channel.queue ≠ [] := by
        intro hempty
        rw [hempty] at hroom
        exact hroom hcapacity
      obtain ⟨stream, hread⟩ := exists_reads failure hcall (.inl hqueue)
      exact ⟨_, .read hread⟩
  | nil =>
    cases hopen : feed.stream.channel.closed with
    | false => exact ⟨_, .close hpieces hopen⟩
    | true =>
      by_cases hpend : feed.stream.channel.verdict = .pending
      · exact ⟨_, .verdict hpieces hpend⟩
      · obtain ⟨stream, hread⟩ := exists_reads failure hcall (.inr ⟨hopen, hpend⟩)
        exact ⟨_, .read hread⟩

end PieceFeed

end PbsGui.Lib
