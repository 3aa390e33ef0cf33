import Mathlib.Data.List.Basic

/-!
# Streams that arrive in pieces

A stream is the list of the pieces in which it arrives, none of them empty.  One read returns
what has arrived, as far as it fits, and `readExact` reads until its buffer is full.  What
`readExact` returns depends on the items alone, not on the pieces.
-/

namespace PbsGui.Lib

open List

variable {α ε : Type*}

/-- The pieces a stream arrives in, and the error that comes after them, if it is not
closed. -/
structure Arrivals (α ε : Type*) where
  pieces : List { piece : List α // piece ≠ [] }
  failure : Option ε

namespace Arrivals

def items (stream : Arrivals α ε) : List α :=
  (stream.pieces.map Subtype.val).flatten

/-- What is left of a piece when a buffer smaller than it has been filled. -/
def leftOver {count : Nat} (piece : List α) (h : count < piece.length) :
    { piece : List α // piece ≠ [] } :=
  ⟨piece.drop count, by
    rw [ne_eq, List.drop_eq_nil_iff]
    omega⟩

/-- One read into a buffer for `count` items. -/
def read (count : Nat) (stream : Arrivals α ε) : Except ε (List α) × Arrivals α ε :=
  match stream.pieces with
  | [] =>
    match stream.failure with
    | none => (.ok [], stream)
    | some error => (.error error, stream)
  | piece :: rest =>
    if h : count < piece.val.length then
      (.ok (piece.val.take count), { stream with pieces := leftOver piece.val h :: rest })
    else (.ok piece.val, { stream with pieces := rest })

/-- Reads until a buffer for `count` items is full, of which the end of the stream
makes the error `eof`. -/
def readExact (eof : ε) (count : Nat) (stream : Arrivals α ε) :
    Except ε (List α) × Arrivals α ε :=
  if count = 0 then (.ok [], stream)
  else
    match stream.read count with
    | (.error error, rest) => (.error error, rest)
    | (.ok [], rest) => (.error eof, rest)
    | (.ok (item :: got), rest) =>
      match rest.readExact eof (count - (item :: got).length) with
      | (.error error, rest) => (.error error, rest)
      | (.ok more, rest) => (.ok (item :: got ++ more), rest)
  termination_by count

variable {count : Nat} {stream : Arrivals α ε}

theorem read_of_items (hcount : 0 < count) (h : stream.items ≠ []) :
    ∃ got rest, stream.read count = (.ok got, rest) ∧ got ≠ [] ∧ got.length ≤ count ∧
      stream.items = got ++ rest.items ∧ rest.failure = stream.failure := by
  obtain ⟨pieces, failure⟩ := stream
  cases pieces with
  | nil => exact absurd rfl h
  | cons piece later =>
    by_cases hlong : count < piece.val.length
    · refine ⟨piece.val.take count, ⟨leftOver piece.val hlong :: later, failure⟩, ?_, ?_,
        length_take_le _ _, ?_, rfl⟩
      · simp only [read, hlong, dite_true]
      · rw [ne_eq, take_eq_nil_iff]
        exact not_or.mpr ⟨Nat.ne_of_gt hcount, piece.property⟩
      · simp only [items, leftOver, map_cons, flatten_cons]
        rw [← append_assoc, take_append_drop]
    · refine ⟨piece.val, ⟨later, failure⟩, ?_, piece.property, Nat.not_lt.mp hlong, ?_, rfl⟩
      · simp only [read, hlong, dite_false]
      · simp only [items, map_cons, flatten_cons]

theorem read_of_nil (h : stream.items = []) (count : Nat) :
    stream.read count = (stream.failure.elim (.ok []) .error, stream) := by
  obtain ⟨pieces, failure⟩ := stream
  cases pieces with
  | nil => cases failure <;> rfl
  | cons piece =>
    have hnil : piece.val = [] := (append_eq_nil_iff.mp h).1
    exact absurd hnil piece.property

theorem readExact_spec (eof : ε) (count : Nat) (stream : Arrivals α ε) : ∃ rest,
    (count ≤ stream.items.length →
      stream.readExact eof count = (.ok (stream.items.take count), rest) ∧
        rest.items = stream.items.drop count ∧ rest.failure = stream.failure) ∧
      (stream.items.length < count →
        stream.readExact eof count = (.error (stream.failure.getD eof), rest)) := by
  induction count using Nat.strongRecOn generalizing stream with
  | ind count ih =>
    rcases Nat.eq_zero_or_pos count with rfl | hcount
    · exact ⟨stream, fun _ => ⟨by rw [readExact, if_pos rfl]; rfl, rfl, rfl⟩, nofun⟩
    rw [readExact, if_neg (Nat.ne_of_gt hcount)]
    by_cases hitems : stream.items = []
    · refine ⟨stream, fun h => absurd h ?_, fun _ => ?_⟩
      · rw [hitems]
        exact Nat.not_le.mpr hcount
      · rw [read_of_nil hitems]
        cases stream.failure <;> rfl
    · obtain ⟨got, rest, hread, hgot, hfits, hsplit, hfail⟩ := read_of_items hcount hitems
      obtain ⟨item, got, rfl⟩ := exists_cons_of_ne_nil hgot
      obtain ⟨later, hexact, hshort⟩ :=
        ih (count - (item :: got).length) (Nat.sub_lt hcount (Nat.succ_pos _)) rest
      rw [hread, hsplit, length_append]
      refine ⟨later, fun h => ?_, fun h => ?_⟩
      · obtain ⟨hmore, hlater, hsame⟩ := hexact (by omega)
        refine ⟨?_, ?_, hsame.trans hfail⟩
        · simp only [hmore]
          rw [take_append, take_of_length_le hfits]
        · rw [hlater, drop_append, drop_of_length_le hfits, nil_append]
      · simp only [hshort (by omega), hfail]

end Arrivals

end PbsGui.Lib
