import Mathlib.Data.List.Basic

/-!
# Writers that send what they collect in pieces

A writer collects what it is given and sends it in pieces over a channel, some with its
writes and what is left with a flush.  `Hands` is what one call does: the pieces it sends
are good ones, and while the receiver is there nothing is lost.  Such calls compose.
-/

namespace PbsGui.Lib

open List

variable {α ε : Type}

/-- The sending side of a channel. -/
structure PieceSender (α : Type) where
  sent : List (List α)
  /-- How many more pieces are taken until the receiver is gone, if it goes. -/
  accepts : Option Nat

namespace PieceSender

/-- The sending side of a channel whose receiver stays. -/
def new : PieceSender α := ⟨[], none⟩

def send (tx : PieceSender α) (piece : List α) : Option (PieceSender α) :=
  match tx.accepts with
  | none => some ⟨tx.sent ++ [piece], none⟩
  | some 0 => none
  | some (n + 1) => some ⟨tx.sent ++ [piece], some n⟩

theorem send_of_stays {tx : PieceSender α} (h : tx.accepts = none) (piece : List α) :
    tx.send piece = some ⟨tx.sent ++ [piece], none⟩ := by
  rw [send, h]

theorem sent_of_send {tx after : PieceSender α} {piece : List α} (h : tx.send piece = some after) :
    after.sent = tx.sent ++ [piece] := by
  unfold send at h
  split at h
  · exact Option.some.inj h ▸ rfl
  · exact nomatch h
  · exact Option.some.inj h ▸ rfl

end PieceSender

/-- A writer: its channel, and what it has collected. -/
structure PieceWriter (α : Type) where
  tx : PieceSender α
  buf : List α

namespace PieceWriter

def new (tx : PieceSender α) : PieceWriter α := ⟨tx, []⟩

def bytes (writer : PieceWriter α) : List α := writer.tx.sent.flatten ++ writer.buf

def push (error : ε) (writer : PieceWriter α) (piece rest : List α) :
    Except ε Unit × PieceWriter α :=
  match writer.tx.send piece with
  | some tx => (.ok (), ⟨tx, rest⟩)
  | none => (.error error, ⟨writer.tx, rest⟩)

/-- Send what is collected, if there is anything. -/
def sendBuf (error : ε) (writer : PieceWriter α) : Except ε Unit × PieceWriter α :=
  if writer.buf.isEmpty then (.ok (), writer) else writer.push error writer.buf []

/-- What is sent between the two are good pieces. -/
def Sends (good : List α → Prop) (before after : PieceWriter α) : Prop :=
  ∃ pieces, after.tx.sent = before.tx.sent ++ pieces ∧ ∀ piece ∈ pieces, good piece

/-- What a call does that is given `data`: it sends good pieces, and loses nothing while the
receiver is there. -/
structure Hands (good : List α → Prop) (before : PieceWriter α) (data : List α)
    (after : PieceWriter α) : Prop where
  sent : Sends good before after
  kept : before.tx.accepts = none → after.tx.accepts = none ∧ after.bytes = before.bytes ++ data

section Hands

variable {good : List α → Prop} {before between after : PieceWriter α} {data more : List α}

theorem Sends.nothing (h : after.tx = before.tx) : Sends good before after :=
  ⟨[], by rw [h, append_nil], nofun⟩

theorem Sends.trans (hfirst : Sends good before between) (hsnd : Sends good between after) :
    Sends good before after := by
  obtain ⟨pieces, hpieces, hgood⟩ := hfirst
  obtain ⟨later, hlater, hgood'⟩ := hsnd
  refine ⟨pieces ++ later, ?_, fun piece hpiece => ?_⟩
  · rw [hlater, hpieces, append_assoc]
  · exact (mem_append.mp hpiece).elim (hgood piece) (hgood' piece)

theorem Hands.collect (good : List α → Prop) (writer : PieceWriter α) (data : List α) :
    Hands good writer data { writer with buf := writer.buf ++ data } where
  sent := .nothing rfl
  kept hstays := ⟨hstays, (append_assoc _ _ _).symm⟩

theorem Hands.refl (good : List α → Prop) (writer : PieceWriter α) :
    Hands good writer [] writer where
  sent := .nothing rfl
  kept hstays := ⟨hstays, (append_nil _).symm⟩

theorem Hands.trans (hfirst : Hands good before data between)
    (hsnd : Hands good between more after) : Hands good before (data ++ more) after where
  sent := hfirst.sent.trans hsnd.sent
  kept hstays := by
    obtain ⟨hbetween, hbytes⟩ := hfirst.kept hstays
    obtain ⟨hafter, hbytes'⟩ := hsnd.kept hbetween
    exact ⟨hafter, by rw [hbytes', hbytes, append_assoc]⟩

theorem Hands.mono {better : List α → Prop} (h : Hands good before data after)
    (hbetter : ∀ piece, good piece → better piece) : Hands better before data after where
  sent := by
    obtain ⟨pieces, hpieces, hgood⟩ := h.sent
    exact ⟨pieces, hpieces, fun piece hpiece => hbetter piece (hgood piece hpiece)⟩
  kept := h.kept

variable {writer : PieceWriter α}

theorem push_hands {piece rest : List α} (error : ε) (hpiece : good piece)
    (hbuf : piece ++ rest = writer.buf) :
    Hands good writer [] (writer.push error piece rest).2 := by
  unfold push
  split
  case h_1 tx htx =>
    refine ⟨⟨[piece], PieceSender.sent_of_send htx, ?_⟩, fun hstays => ?_⟩
    · exact fun other hother => mem_singleton.mp hother ▸ hpiece
    · rw [PieceSender.send_of_stays hstays] at htx
      cases htx
      refine ⟨rfl, ?_⟩
      simp only [bytes, ← hbuf, flatten_append, flatten_singleton, append_assoc, append_nil]
  case h_2 htx =>
    refine ⟨.nothing rfl, fun hstays => ?_⟩
    rw [PieceSender.send_of_stays hstays] at htx
    exact nomatch htx

theorem sendBuf_hands (error : ε) (writer : PieceWriter α) :
    Hands (· ≠ []) writer [] (writer.sendBuf error).2 := by
  unfold sendBuf
  split
  case isTrue => exact .refl _ writer
  case isFalse hbuf =>
    refine push_hands error (fun hempty => hbuf ?_) (append_nil _)
    rw [hempty]
    rfl

theorem sendBuf_ok (hstays : writer.tx.accepts = none) (error : ε) :
    (writer.sendBuf error).1 = .ok () ∧ (writer.sendBuf error).2.buf = [] := by
  unfold sendBuf
  split
  case isTrue hbuf => exact ⟨rfl, isEmpty_iff.mp hbuf⟩
  case isFalse =>
    rw [push, PieceSender.send_of_stays hstays]
    exact ⟨rfl, rfl⟩

end Hands

end PieceWriter

/-! ### Sequences of calls -/

/-- A call of a writer. -/
inductive WriteOp (α : Type)
  | write (data : List α)
  | flush

def WriteOp.data : WriteOp α → List α
  | .write data => data
  | .flush => []

def written (ops : List (WriteOp α)) : List α := ops.flatMap WriteOp.data

/-- The two functions of a writer that sends no empty piece, takes all it is given and has
sent everything after a flush. -/
structure PieceWriting (α ε : Type) where
  write : PieceWriter α → List α → Except ε Nat × PieceWriter α
  flush : PieceWriter α → Except ε Unit × PieceWriter α
  write_hands (writer : PieceWriter α) (data : List α) :
    PieceWriter.Hands (· ≠ []) writer data (write writer data).2
  flush_hands (writer : PieceWriter α) : PieceWriter.Hands (· ≠ []) writer [] (flush writer).2
  write_ok {writer : PieceWriter α} (hstays : writer.tx.accepts = none) (data : List α) :
    (write writer data).1 = .ok data.length
  flush_ok {writer : PieceWriter α} (hstays : writer.tx.accepts = none) :
    (flush writer).1 = .ok () ∧ (flush writer).2.buf = []

namespace PieceWriting

variable (writing : PieceWriting α ε)

def call (writer : PieceWriter α) : WriteOp α → Except ε Unit × PieceWriter α
  | .write data => ((writing.write writer data).1.map fun _ => (), (writing.write writer data).2)
  | .flush => writing.flush writer

def run (writer : PieceWriter α) : List (WriteOp α) → Except ε Unit × PieceWriter α
  | [] => (.ok (), writer)
  | op :: ops =>
    match writing.call writer op with
    | (.ok (), after) => run after ops
    | (.error e, after) => (.error e, after)

variable {writing} {writer : PieceWriter α}

theorem call_hands (op : WriteOp α) :
    PieceWriter.Hands (· ≠ []) writer op.data (writing.call writer op).2 := by
  cases op with
  | write data => exact writing.write_hands writer data
  | flush => exact writing.flush_hands writer

theorem call_ok (hstays : writer.tx.accepts = none) (op : WriteOp α) :
    (writing.call writer op).1 = .ok () := by
  cases op with
  | write =>
    rw [call, writing.write_ok hstays]
    rfl
  | flush => exact (writing.flush_ok hstays).1

theorem run_cons (hstays : writer.tx.accepts = none) (op : WriteOp α) (ops : List (WriteOp α)) :
    writing.run writer (op :: ops) = writing.run (writing.call writer op).2 ops := by
  have hcall : writing.call writer op = (.ok (), (writing.call writer op).2) :=
    Prod.ext (call_ok hstays op) rfl
  rw [run, hcall]

theorem run_sends (ops : List (WriteOp α)) :
    PieceWriter.Sends (· ≠ []) writer (writing.run writer ops).2 := by
  induction ops generalizing writer with
  | nil => exact .nothing rfl
  | cons op ops ih =>
    have hcall := (@call_hands α ε writing writer op).sent
    unfold run
    split
    case h_1 after hafter =>
      rw [hafter] at hcall
      exact hcall.trans ih
    case h_2 e after hafter =>
      rw [hafter] at hcall
      exact hcall

theorem run_stays (hstays : writer.tx.accepts = none) (ops : List (WriteOp α)) :
    (writing.run writer ops).1 = .ok () ∧ (writing.run writer ops).2.tx.accepts = none ∧
      (writing.run writer ops).2.bytes = writer.bytes ++ written ops := by
  induction ops generalizing writer with
  | nil => exact ⟨rfl, hstays, (append_nil _).symm⟩
  | cons op ops ih =>
    obtain ⟨hafter, hbytes⟩ := (call_hands op).kept hstays
    obtain ⟨hok, hend, hrest⟩ := ih hafter
    rw [run_cons hstays]
    refine ⟨hok, hend, ?_⟩
    rw [hrest, hbytes, append_assoc]
    rfl

variable {ops : List (WriteOp α)}

theorem run_flushed (hstays : writer.tx.accepts = none) (hlast : ops.getLast? = some .flush) :
    (writing.run writer ops).2.buf = [] := by
  induction ops generalizing writer with
  | nil => exact nomatch hlast
  | cons op ops ih =>
    rw [run_cons hstays]
    cases ops with
    | nil =>
      cases hlast
      exact (writing.flush_ok hstays).2
    | cons =>
      rw [getLast?_cons_cons] at hlast
      exact ih ((call_hands op).kept hstays).1 hlast

theorem flatten_sent (hlast : ops.getLast? = some .flush) :
    (writing.run (.new .new) ops).2.tx.sent.flatten = written ops := by
  have hbytes := (@run_stays α ε writing (.new .new) rfl ops).2.2
  rw [PieceWriter.bytes, run_flushed rfl hlast, append_nil] at hbytes
  exact hbytes

end PieceWriting

end PbsGui.Lib
