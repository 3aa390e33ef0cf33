import Mathlib.Algebra.Ring.Nat
import Mathlib.Data.List.Basic

/-!
# Sources that fill a request

A source of bytes that fills every request unless it runs out.  What such a source answers
depends only on the bytes that are left in it, so two sources with the same bytes left
answer any sequence of requests alike, however each of them keeps its bytes.
-/

namespace PbsGui.Lib

open List

/-- A source with states `σ` that fills every request as far as its bytes go. -/
structure ByteServer (σ α : Type) where
  read : σ → Nat → List α × σ
  /-- The bytes that are not served yet. -/
  left : σ → List α
  read_bytes (state : σ) (want : Nat) : (read state want).1 = (left state).take want
  left_read (state : σ) (want : Nat) : left (read state want).2 = (left state).drop want

namespace ByteServer

variable {σ τ α : Type} (server : ByteServer σ α)

def answers : σ → List Nat → List (List α)
  | _, [] => []
  | state, want :: wants => (server.read state want).1 :: answers (server.read state want).2 wants

def after : σ → List Nat → σ
  | state, [] => state
  | state, want :: wants => after (server.read state want).2 wants

theorem left_after (state : σ) (wants : List Nat) :
    server.left (server.after state wants) = (server.left state).drop wants.sum := by
  induction wants generalizing state with
  | nil => rfl
  | cons want wants ih => rw [after, ih, left_read, drop_drop, sum_cons]

variable {server} {other : ByteServer τ α}

variable {state : σ}

theorem read_eq_of_left {state' : τ} (h : server.left state = other.left state') (want : Nat) :
    (server.read state want).1 = (other.read state' want).1 ∧
      server.left (server.read state want).2 = other.left (other.read state' want).2 := by
  rw [read_bytes, read_bytes, left_read, left_read, h]
  exact ⟨rfl, rfl⟩

theorem answers_eq_of_left {state' : τ} (h : server.left state = other.left state')
    (wants : List Nat) : server.answers state wants = other.answers state' wants := by
  induction wants generalizing state state' with
  | nil => rfl
  | cons want wants ih =>
    obtain ⟨hbytes, hleft⟩ := read_eq_of_left h want
    rw [answers, answers, hbytes, ih hleft]

theorem read_eq_left_of_short {want : Nat} (h : (server.read state want).1.length < want) :
    (server.read state want).1 = server.left state := by
  rw [read_bytes, length_take] at h
  rw [read_bytes]
  exact take_of_length_le (by omega)

end ByteServer

end PbsGui.Lib
