import PbsGui.Lib.Bytes

/-!
# Reading bytes as text

The lossy decoder of UTF-8: a valid sequence is its character, and what is not valid is
replaced, the longest beginning of a sequence by one replacement character and any other
byte by one of its own.  A byte below 128 never belongs to a longer sequence, so the text on
both sides of it is decoded as if it stood alone.
-/

namespace PbsGui.Lib

open List

def replacementChar : Char := Char.ofNat 0xFFFD

def byteChar (byte : UInt8) : Char := Char.ofNat byte.toNat

theorem byteChar_toNat (byte : UInt8) : (byteChar byte).toNat = byte.toNat := by
  have hbyte := byte.toNat_lt
  have hvalid : Nat.isValidChar byte.toNat := .inl (by omega)
  rw [byteChar, Char.ofNat, dif_pos hvalid]
  rfl

/-- How many bytes have to follow a first byte, and the range of the first of them. -/
def sequenceOf (lead : Nat) : Option (Nat × Nat × Nat) :=
  if 0xC2 ≤ lead ∧ lead ≤ 0xDF then some (1, 0x80, 0xBF)
  else if lead = 0xE0 then some (2, 0xA0, 0xBF)
  else if lead = 0xED then some (2, 0x80, 0x9F)
  else if 0xE1 ≤ lead ∧ lead ≤ 0xEF then some (2, 0x80, 0xBF)
  else if lead = 0xF0 then some (3, 0x90, 0xBF)
  else if 0xF1 ≤ lead ∧ lead ≤ 0xF3 then some (3, 0x80, 0xBF)
  else if lead = 0xF4 then some (3, 0x80, 0x8F)
  else none

/-- Read `count` more bytes of a sequence whose value so far is `value`, the first of
them between `low` and `high`.  It stops in front of a byte that cannot follow. -/
def continued : Nat → Nat → Nat → Nat → Bytes → Option Nat × Bytes
  | 0, _, _, value, rest => (some value, rest)
  | _ + 1, _, _, _, [] => (none, [])
  | count + 1, low, high, value, byte :: rest =>
    if low ≤ byte.toNat ∧ byte.toNat ≤ high then
      continued count 0x80 0xBF (value * 64 + byte.toNat % 64) rest
    else (none, byte :: rest)

/-- The character that begins with a byte, and the bytes after it. -/
def decodeChar (lead : UInt8) (rest : Bytes) : Char × Bytes :=
  if lead.toNat < 0x80 then (byteChar lead, rest)
  else
    match sequenceOf lead.toNat with
    | none => (replacementChar, rest)
    | some (count, low, high) =>
      match continued count low high (lead.toNat % 2 ^ (6 - count)) rest with
      | (some value, rest) => (Char.ofNat value, rest)
      | (none, rest) => (replacementChar, rest)

/-- `fromUtf8Lossy` with a bound on the number of characters. -/
def lossyWithin : Nat → Bytes → List Char
  | 0, _ => []
  | _ + 1, [] => []
  | fuel + 1, lead :: rest => (decodeChar lead rest).1 :: lossyWithin fuel (decodeChar lead rest).2

/-- `String::from_utf8_lossy`. -/
def fromUtf8Lossy (bytes : Bytes) : List Char := lossyWithin bytes.length bytes

theorem continued_length (count low high value : Nat) (bytes : Bytes) :
    (continued count low high value bytes).2.length ≤ bytes.length := by
  induction bytes generalizing count low high value with
  | nil => cases count <;> simp [continued]
  | cons byte rest ih =>
    cases count with
    | zero => simp [continued]
    | succ =>
      unfold continued
      split
      · exact Nat.le_succ_of_le (ih _ _ _ _)
      · exact Nat.le_refl _

theorem decodeChar_length (lead : UInt8) (rest : Bytes) :
    (decodeChar lead rest).2.length ≤ rest.length := by
  unfold decodeChar
  split
  · exact Nat.le_refl _
  · split
    · exact Nat.le_refl _
    · rename_i count low high _
      have hlen := continued_length count low high (lead.toNat % 2 ^ (6 - count)) rest
      split <;> rename_i h <;> rw [h] at hlen <;> exact hlen

theorem lossyWithin_eq {fuel : Nat} {bytes : Bytes} (h : bytes.length ≤ fuel) :
    lossyWithin fuel bytes = fromUtf8Lossy bytes := by
  induction hbound : bytes.length using Nat.strongRecOn generalizing bytes fuel with
  | ind bound ih =>
    cases bytes with
    | nil => cases fuel <;> rfl
    | cons lead rest =>
      have hshorter := decodeChar_length lead rest
      cases fuel with
      | zero => cases h
      | succ =>
        rw [length_cons] at h hbound
        rw [fromUtf8Lossy, length_cons, lossyWithin, lossyWithin,
          ih _ (by omega) (by omega) rfl, ih _ (by omega) (by omega) rfl]

@[simp] theorem fromUtf8Lossy_nil : fromUtf8Lossy [] = [] := rfl

theorem fromUtf8Lossy_cons (lead : UInt8) (rest : Bytes) :
    fromUtf8Lossy (lead :: rest) =
      (decodeChar lead rest).1 :: fromUtf8Lossy (decodeChar lead rest).2 := by
  rw [fromUtf8Lossy, length_cons, lossyWithin, lossyWithin_eq (decodeChar_length lead rest)]

section Ascii

variable {byte : UInt8}

theorem continued_append (hbyte : byte.toNat < 0x80) {count low high value : Nat}
    (hlow : 0x80 ≤ low) (left right : Bytes) :
    continued count low high value (left ++ byte :: right) =
      ((continued count low high value left).1,
        (continued count low high value left).2 ++ byte :: right) := by
  induction left generalizing count low high value with
  | nil =>
    cases count with
    | zero => rfl
    | succ =>
      simp only [nil_append, continued]
      rw [if_neg (by omega)]
  | cons first left ih =>
    cases count with
    | zero => rfl
    | succ =>
      simp only [cons_append, continued]
      split
      · exact ih (Nat.le_refl _)
      · rfl

theorem sequenceOf_low {lead count low high : Nat} (h : sequenceOf lead = some (count, low, high)) :
    0x80 ≤ low := by
  unfold sequenceOf at h
  repeat' split at h
  all_goals
    simp only [Option.some.injEq, Prod.mk.injEq, reduceCtorEq] at h
    try omega

theorem decodeChar_append (hbyte : byte.toNat < 0x80) (lead : UInt8) (left right : Bytes) :
    decodeChar lead (left ++ byte :: right) =
      ((decodeChar lead left).1, (decodeChar lead left).2 ++ byte :: right) := by
  unfold decodeChar
  split
  · rfl
  · cases hlead : sequenceOf lead.toNat with
    | none => rfl
    | some lengths =>
      obtain ⟨count, low, high⟩ := lengths
      dsimp only
      rw [continued_append hbyte (sequenceOf_low hlead)]
      generalize continued count low high (lead.toNat % 2 ^ (6 - count)) left = found
      obtain ⟨value, rest⟩ := found
      cases value <;> rfl

theorem fromUtf8Lossy_append (hbyte : byte.toNat < 0x80) (left right : Bytes) :
    fromUtf8Lossy (left ++ byte :: right) =
      fromUtf8Lossy left ++ byteChar byte :: fromUtf8Lossy right := by
  induction hbound : left.length using Nat.strongRecOn generalizing left with
  | ind bound ih =>
    cases left with
    | nil =>
      rw [nil_append, fromUtf8Lossy_cons, decodeChar, if_pos hbyte]
      rfl
    | cons lead left =>
      have hshorter := decodeChar_length lead left
      rw [length_cons] at hbound
      rw [cons_append, fromUtf8Lossy_cons, fromUtf8Lossy_cons, decodeChar_append hbyte,
        ih _ (by omega) _ rfl, cons_append]

theorem fromUtf8Lossy_front {block : Bytes} (hblock : ∀ byte ∈ block, byte.toNat < 0x80)
    (right : Bytes) :
    fromUtf8Lossy (block ++ right) = block.map byteChar ++ fromUtf8Lossy right := by
  induction block with
  | nil => rfl
  | cons byte block ih =>
    have happ := fromUtf8Lossy_append (hblock byte mem_cons_self) [] (block ++ right)
    rw [nil_append, fromUtf8Lossy_nil, nil_append] at happ
    rw [cons_append, happ, ih (forall_mem_cons.mp hblock).2, map_cons, cons_append]

theorem fromUtf8Lossy_block {block : Bytes} (hblock : ∀ byte ∈ block, byte.toNat < 0x80)
    (hsome : block ≠ []) (left right : Bytes) :
    fromUtf8Lossy (left ++ block ++ right) =
      fromUtf8Lossy left ++ block.map byteChar ++ fromUtf8Lossy right := by
  cases block with
  | nil => exact absurd rfl hsome
  | cons byte =>
    rw [append_assoc, cons_append,
      fromUtf8Lossy_append (hblock byte mem_cons_self),
      fromUtf8Lossy_front (forall_mem_cons.mp hblock).2,
      map_cons, append_assoc, cons_append]

end Ascii

end PbsGui.Lib
