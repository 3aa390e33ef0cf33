import PbsGui.Ad.Archive
import PbsGui.Engine.ChannelUpload
import PbsGui.Lib.PieceFeed
import PbsGui.Lib.PieceWriter

/-!
# The writers of the two engines

Both engines hand an archive to the uploader through a `ChannelWriter`.  The one of the
engine (`archive.rs`) sends its whole buffer once that has reached `PIECE` bytes; the one
of the AD engine (`stream.rs`) cuts buffers of exactly `CHUNK` bytes.  A flush sends what is
left.  The reader of either is the same loop.

The calls of a writer give the pieces, and the pieces the stream that the reader reads.
-/

namespace PbsGui

open Lib Client List

namespace Engine

abbrev ChannelWriter := PieceWriter UInt8

namespace ChannelWriter

/-- `PIECE`: the size from which a buffer is sent. -/
def pieceSize : Nat := 1 <<< 20

/-- The error of a writer whose receiver is gone. -/
def uploadStopped : IoError := { kind := .brokenPipe, text := "the PBS upload stopped" }

def send (writer : ChannelWriter) : Except IoError Unit × ChannelWriter :=
  writer.sendBuf uploadStopped

def write (writer : ChannelWriter) (data : Bytes) : Except IoError Nat × ChannelWriter :=
  let writer : ChannelWriter := { writer with buf := writer.buf ++ data }
  if pieceSize ≤ writer.buf.length then
    ((send writer).1.map fun () => data.length, (send writer).2)
  else (.ok data.length, writer)

def flush (writer : ChannelWriter) : Except IoError Unit × ChannelWriter := send writer

theorem write_hands (writer : ChannelWriter) (data : Bytes) :
    PieceWriter.Hands (· ≠ []) writer data (write writer data).2 := by
  have hcollect := PieceWriter.Hands.collect (· ≠ []) writer data
  simp only [write]
  split
  case isTrue =>
    have hsend := hcollect.trans (PieceWriter.sendBuf_hands uploadStopped _)
    rwa [append_nil] at hsend
  case isFalse => exact hcollect

theorem write_ok {writer : ChannelWriter} (hstays : writer.tx.accepts = none) (data : Bytes) :
    (write writer data).1 = .ok data.length := by
  simp only [write]
  split
  case isTrue =>
    have hok : (send ⟨writer.tx, writer.buf ++ data⟩).1 = .ok () :=
      (@PieceWriter.sendBuf_ok _ _ ⟨writer.tx, writer.buf ++ data⟩ hstays uploadStopped).1
    rw [hok]
    rfl
  case isFalse => rfl

def writing : PieceWriting UInt8 IoError where
  write := write
  flush := flush
  write_hands := write_hands
  flush_hands := PieceWriter.sendBuf_hands uploadStopped
  write_ok := write_ok
  flush_ok hstays := PieceWriter.sendBuf_ok hstays uploadStopped

end ChannelWriter

end Engine

namespace Ad

abbrev ChannelWriter := PieceWriter UInt8

namespace ChannelWriter

def sideClosed : IoError := { kind := .other, text := uploadSideClosed }

/-- The loop of a write: cut chunks off the buffer and send them. -/
def sendChunks (writer : ChannelWriter) : Except IoError Unit × ChannelWriter :=
  if _hfull : writerChunk ≤ writer.buf.length then
    let rest := writer.buf.drop writerChunk
    match writer.tx.send (writer.buf.take writerChunk) with
    | some tx => sendChunks ⟨tx, rest⟩
    | none => (.error sideClosed, ⟨writer.tx, rest⟩)
  else (.ok (), writer)
termination_by writer.buf.length
decreasing_by
  have hpos : 0 < writerChunk := by decide
  simp only [List.length_drop]
  omega

def write (writer : ChannelWriter) (data : Bytes) : Except IoError Nat × ChannelWriter :=
  let writer : ChannelWriter := { writer with buf := writer.buf ++ data }
  ((sendChunks writer).1.map fun () => data.length, (sendChunks writer).2)

def flush (writer : ChannelWriter) : Except IoError Unit × ChannelWriter :=
  writer.sendBuf sideClosed

theorem sendChunks_hands (writer : ChannelWriter) :
    PieceWriter.Hands (·.length = writerChunk) writer [] (sendChunks writer).2 := by
  -- along the loop: a chunk is sent, or refused, or there is none left
  fun_induction sendChunks writer with
  | case1 writer hfull rest tx htx ih =>
    have hpush := @PieceWriter.push_hands _ _ (·.length = writerChunk) writer _ rest sideClosed
      (length_take_of_le hfull) (take_append_drop _ _)
    rw [PieceWriter.push, htx] at hpush
    exact hpush.trans ih
  | case2 writer hfull rest htx =>
    have hpush := @PieceWriter.push_hands _ _ (·.length = writerChunk) writer _ rest sideClosed
      (length_take_of_le hfull) (take_append_drop _ _)
    rwa [PieceWriter.push, htx] at hpush
  | case3 writer => exact .refl _ writer

variable {writer : ChannelWriter}

theorem sendChunks_ok (hstays : writer.tx.accepts = none) : (sendChunks writer).1 = .ok () := by
  fun_induction sendChunks writer with
  | case1 writer hfull rest tx htx ih =>
    rw [PieceSender.send_of_stays hstays] at htx
    exact ih (Option.some.inj htx ▸ rfl)
  | case2 writer hfull rest htx =>
    rw [PieceSender.send_of_stays hstays] at htx
    exact nomatch htx
  | case3 => rfl

theorem write_chunks (writer : ChannelWriter) (data : Bytes) :
    PieceWriter.Hands (·.length = writerChunk) writer data (write writer data).2 := by
  have hwrite := (PieceWriter.Hands.collect _ writer data).trans (sendChunks_hands _)
  rwa [append_nil] at hwrite

theorem write_ok (hstays : writer.tx.accepts = none) (data : Bytes) :
    (write writer data).1 = .ok data.length := by
  rw [write, @sendChunks_ok ⟨writer.tx, writer.buf ++ data⟩ hstays]
  rfl

def writing : PieceWriting UInt8 IoError where
  write := write
  flush := flush
  write_hands writer data := by
    refine (write_chunks writer data).mono fun piece hpiece hempty => ?_
    rw [hempty] at hpiece
    exact nomatch hpiece
  flush_hands := PieceWriter.sendBuf_hands sideClosed
  write_ok := write_ok
  flush_ok hstays := PieceWriter.sendBuf_ok hstays sideClosed

end ChannelWriter

end Ad

namespace Engine

/-- **Delivery.**  Calls of either writer that end with a flush succeed while the reader is
there.  Whatever the interleaving and the sizes of the reads, the reader then never sees an
error, it has read what was written when it reports the end of the stream, and it does so
once it has read more often than there are bytes; a read in progress always returns.  The
writes of the AD engine send buffers of exactly `CHUNK` bytes, and no call of either writer
sends an empty one, whenever the receiver goes. -/
theorem written_is_read (capacity : Nat) (failure : IoError) {ops : List (WriteOp UInt8)}
    (hflush : ops.getLast? = some .flush) :
    (∀ writing ∈ [ChannelWriter.writing, Ad.ChannelWriter.writing],
      (writing.run (.new .new) ops).1 = .ok () ∧
      ∀ feed, PieceFeed.Reaches capacity failure (writing.run (.new .new) ops).2.tx.sent feed →
        (∀ before entry later ok, feed.stream.log = before ++ entry :: later →
          VerdictStream.IsEnd entry ok →
          ok = true ∧ before.flatMap VerdictStream.bytesOf = written ops) ∧
        ((written ops).length < feed.stream.roomyReads →
          ∃ entry ∈ feed.stream.log, VerdictStream.IsEnd entry true) ∧
        (0 < capacity → ∀ want, feed.stream.call = some want →
          ∃ after, PieceFeed.Turn capacity failure feed after) ∧
        Transition.Terminates (PieceFeed.Turn capacity failure) feed) ∧
    (∀ writer data, ∃ chunks,
      (Ad.ChannelWriter.write writer data).2.tx.sent = writer.tx.sent ++ chunks ∧
        ∀ chunk ∈ chunks, chunk.length = Ad.writerChunk) ∧
    (∀ writing ∈ [ChannelWriter.writing, Ad.ChannelWriter.writing], ∀ calls accepts,
      ∀ buffer ∈ (writing.run (.new ⟨[], accepts⟩) calls).2.tx.sent, buffer ≠ []) := by
  refine ⟨fun writing _ => ⟨(PieceWriting.run_stays rfl ops).1, fun feed hrun => ?_⟩, ?_, ?_⟩
  · have hbytes := @PieceWriting.flatten_sent _ _ writing ops hflush
    refine ⟨fun before entry later ok hlog hend => ?_, fun hmany => ?_, ?_, ?_⟩
    · rw [← hbytes]
      exact hrun.inv.ended hlog hend
    · rw [← hbytes] at hmany
      exact hrun.inv.exists_end hmany
    · exact fun hcapacity want hcall => PieceFeed.exists_turn hcapacity hcall
    · exact PieceFeed.turn_terminates capacity failure feed
  · exact fun writer data => (Ad.ChannelWriter.write_chunks writer data).sent
  · intro writing _ calls accepts
    obtain ⟨pieces, hsent, hpieces⟩ :=
      @PieceWriting.run_sends _ _ writing (.new ⟨[], accepts⟩) calls
    rw [hsent]
    exact hpieces

/-- Three bytes that a flush sends, read and then the end. -/
theorem threeBytes_read :
    ∃ feed, PieceFeed.Reaches 8 archiverProducer.failure
        (ChannelWriter.writing.run (.new .new) [.write [1, 2, 3], .flush]).2.tx.sent feed ∧
      feed.stream.log = [(4, .ok [1, 2, 3])] ++ (4, .ok []) :: [] ∧
      [(4, .ok [1, 2, 3])].flatMap (@VerdictStream.bytesOf UInt8 IoError) =
        written [.write [1, 2, 3], .flush] := by
  have hsent : (ChannelWriter.writing.run (.new .new) [.write [1, 2, 3], .flush]).2.tx.sent =
      [[1, 2, 3]] := rfl
  have hstart : @PieceFeed.Reaches UInt8 _ 8 archiverProducer.failure [[1, 2, 3]]
      (.new [[1, 2, 3]]) := .refl
  have hproduced := ((hstart.tail (.turn (.send rfl (by decide)))).tail
    (.turn (.close rfl rfl))).tail (.turn (.verdict rfl rfl))
  have hread := ((hproduced.tail (.startRead 4 rfl)).tail (.turn (.read (.pulled rfl rfl)))).tail
    (.turn (.read (.returned rfl rfl)))
  have hended := (hread.tail (.startRead 4 rfl)).tail (.turn (.read (.returned rfl rfl)))
  have hdelivered := (@written_is_read 8 archiverProducer.failure [.write [1, 2, 3], .flush]
    rfl).1 ChannelWriter.writing mem_cons_self
  rw [hsent] at hdelivered ⊢
  exact ⟨_, hended, rfl, ((hdelivered.2 _ hended).1 _ _ _ true rfl ⟨by decide, rfl⟩).2⟩

end Engine
end PbsGui
