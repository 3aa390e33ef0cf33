import Mathlib.Data.List.Lex
import PbsGui.Lib.IsoTime

/-!
# Numbers in names

Numbers of one width sort as the numbers they stand for, also at the front of longer texts.
A number that is only filled up to a width can be told from the text, but beyond the width
its place among the others is another one.
-/

namespace PbsGui.Lib

open List

/-- A number with zeros in front of it, of at least the given width. -/
def zeroFilled (width value : Nat) : List Char :=
  List.replicate (width - (Nat.toDigits 10 value).length) '0' ++ Nat.toDigits 10 value

def signedText (value : Int) : List Char :=
  if value < 0 then '-' :: Nat.toDigits 10 value.natAbs else Nat.toDigits 10 value.natAbs

theorem isDigit_of_mem_zeroFilled {width value : Nat} {c : Char} (hc : c ∈ zeroFilled width value) :
    c.isDigit = true := by
  rcases mem_append.mp hc with hzero | hdigit
  · rw [eq_of_mem_replicate hzero]
    rfl
  · exact Nat.isDigit_of_mem_toDigits (by decide) (by decide) hdigit

theorem numeralValue_zeros (count : Nat) : numeralValue 10 (List.replicate count '0') 0 = 0 := by
  induction count with
  | zero => rfl
  | succ count ih => exact ih

theorem numeralValue_zeroFilled (width value : Nat) :
    numeralValue 10 (zeroFilled width value) 0 = value := by
  rw [zeroFilled, numeralValue_append, numeralValue_zeros, numeralValue_toDigits]

variable {width value other : Nat}

/-- A number can be told from a text in which something that is not a digit follows it. -/
theorem zeroFilled_append_inj {mark : Char} (hmark : mark.isDigit = false) {rest rest' : List Char}
    (h : zeroFilled width value ++ mark :: rest = zeroFilled width other ++ mark :: rest') :
    value = other := by
  have hcut : ∀ (number : Nat) (rest : List Char),
      (zeroFilled width number ++ mark :: rest).takeWhile Char.isDigit = zeroFilled width number := by
    intro number rest
    rw [takeWhile_append_of_pos fun c hc => isDigit_of_mem_zeroFilled hc,
      takeWhile_cons_of_neg (by simp [hmark]), append_nil]
  have hsame := congrArg (takeWhile Char.isDigit) h
  rw [hcut, hcut] at hsame
  rw [← numeralValue_zeroFilled width value, hsame, numeralValue_zeroFilled]

theorem append_lt_append {α : Type*} [LT α] {left right : List α} (h : left < right)
    (hlen : left.length = right.length) (rest rest' : List α) :
    left ++ rest < right ++ rest' := by
  replace h : List.Lex (· < ·) left right := h
  induction h with
  | nil => cases hlen
  | rel hlt => exact List.Lex.rel hlt
  | cons _ ih => exact List.Lex.cons (ih (Nat.succ.inj hlen))

theorem digitChar_lt_digitChar : ∀ left < 10, ∀ right < 10, left < right →
    Nat.digitChar left < Nat.digitChar right := by decide

theorem padded_lt_padded {width left right : Nat} (hlt : left < right) (hright : right < 10 ^ width) :
    padded width left < padded width right := by
  induction width generalizing left right with
  | zero =>
    rw [Nat.pow_zero] at hright
    omega
  | succ width ih =>
    rw [padded, padded]
    by_cases hfront : left / 10 = right / 10
    · have hlast : left % 10 < right % 10 := by omega
      rw [hfront]
      exact List.Lex.append_left (· < ·) (List.Lex.rel (digitChar_lt_digitChar _
        (Nat.mod_lt _ (by decide)) _ (Nat.mod_lt _ (by decide)) hlast)) _
    · rw [Nat.pow_succ] at hright
      have hless : left / 10 < right / 10 := by omega
      have hbelow : right / 10 < 10 ^ width := by omega
      refine append_lt_append (ih hless hbelow) ?_ _ _
      rw [length_padded, length_padded]

end PbsGui.Lib
