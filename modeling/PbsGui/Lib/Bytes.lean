import Mathlib.Data.List.Basic
import Mathlib.Tactic.Ring

/-!
# Byte strings, fixed-width fields and little-endian integers

The vocabulary of binary formats that are cut out of byte strings by position: slices, byte
arrays of a fixed length, little-endian integers, and the sums of 64-bit counters.
-/

namespace PbsGui.Lib

open List

abbrev Bytes := List UInt8

/-- The bytes at positions `start, ..., stop - 1`. -/
def slice (bytes : Bytes) (start stop : Nat) : Bytes :=
  (bytes.take stop).drop start

theorem slice_append_middle (left middle right : Bytes) :
    slice (left ++ middle ++ right) left.length (left.length + middle.length) = middle := by
  simp [slice, take_append, take_of_length_le]

theorem slice_length {bytes : Bytes} {start stop : Nat} (h : stop ≤ bytes.length) :
    (slice bytes start stop).length = stop - start := by
  simp only [slice, length_drop, length_take, Nat.min_eq_left h]

theorem slice_append_slice (bytes : Bytes) {start middle stop : Nat} (hstart : start ≤ middle)
    (hstop : middle ≤ stop) :
    slice bytes start middle ++ slice bytes middle stop = slice bytes start stop := by
  have hcut : bytes.take middle = (bytes.take stop).take middle := by
    rw [take_take, Nat.min_eq_left hstop]
  have hdrop : (bytes.take stop).drop middle =
      ((bytes.take stop).drop start).drop (middle - start) := by
    rw [drop_drop, Nat.add_sub_cancel' hstart]
  rw [slice, slice, slice, hcut, hdrop, drop_take, take_append_drop]

theorem slice_append_drop (bytes : Bytes) (stop : Nat) :
    slice bytes 0 stop ++ bytes.drop stop = bytes :=
  take_append_drop stop bytes

def writeAt (out : Bytes) (start : Nat) (field : Bytes) : Bytes :=
  out.take start ++ field ++ out.drop (start + field.length)

/-- In a buffer filled from the front the next field goes where the zeroes begin. -/
theorem writeAt_fill (filled field : Bytes) (room : Nat) :
    writeAt (filled ++ List.replicate room 0) filled.length field =
      filled ++ field ++ List.replicate (room - field.length) 0 := by
  rw [writeAt, take_left, drop_append, drop_replicate,
    drop_of_length_le (by omega), Nat.add_sub_cancel_left, nil_append]

/-- A byte array whose length is part of its type. -/
structure FixedBytes (n : Nat) where
  toBytes : Bytes
  length_eq : toBytes.length = n
  deriving DecidableEq, Repr

namespace FixedBytes

variable {n : Nat}

@[ext] theorem ext {left right : FixedBytes n} (h : left.toBytes = right.toBytes) :
    left = right := by
  cases left
  cases right
  simp only at h
  subst h
  rfl

@[simp] theorem length_toBytes (field : FixedBytes n) : field.toBytes.length = n := field.length_eq

/-- The first `n` bytes as an array.  A string that is too short is padded with
zeroes, so that the conversion is total; it is only applied to strings of
length `n`. -/
def ofBytes (n : Nat) (bytes : Bytes) : FixedBytes n :=
  ⟨(bytes ++ List.replicate n 0).take n, by simp⟩

theorem toBytes_ofBytes {bytes : Bytes} (h : bytes.length = n) :
    (ofBytes n bytes).toBytes = bytes := by
  simp [ofBytes, ← h]

@[simp] theorem ofBytes_toBytes (field : FixedBytes n) :
    ofBytes n field.toBytes = field := by
  apply FixedBytes.ext
  exact toBytes_ofBytes field.length_eq

end FixedBytes

theorem append_separator_inj {α : Type*} {separator : α} {left right rest more : List α}
    (hleft : separator ∉ left) (hright : separator ∉ right)
    (h : left ++ separator :: rest = right ++ separator :: more) : left = right ∧ rest = more := by
  induction left generalizing right with
  | nil =>
    cases right with
    | nil => exact ⟨rfl, tail_eq_of_cons_eq h⟩
    | cons => exact absurd (head_eq_of_cons_eq h ▸ mem_cons_self) hright
  | cons first left ih =>
    cases right with
    | nil => exact absurd (head_eq_of_cons_eq h ▸ mem_cons_self) hleft
    | cons =>
      obtain ⟨heq, hrest⟩ := ih (fun hmem => hleft (mem_cons_of_mem _ hmem))
        (fun hmem => hright (mem_cons_of_mem _ hmem)) (tail_eq_of_cons_eq h)
      have hfirst := head_eq_of_cons_eq h
      exact ⟨by rw [heq, hfirst], hrest⟩

/-- The `width` least significant bytes of `value`, lowest first. -/
def leBytes : Nat → Nat → Bytes
  | 0, _ => []
  | width + 1, value => UInt8.ofNat value :: leBytes width (value / 256)

/-- The number a little-endian byte string denotes. -/
def leValue : Bytes → Nat
  | [] => 0
  | byte :: rest => byte.toNat + 256 * leValue rest

@[simp] theorem leBytes_length (width value : Nat) : (leBytes width value).length = width := by
  induction width generalizing value with
  | zero => rfl
  | succ width ih => simp [leBytes, ih]

theorem leValue_leBytes (width value : Nat) :
    leValue (leBytes width value) = value % 256 ^ width := by
  induction width generalizing value with
  | zero => simp [leBytes, leValue, Nat.mod_one]
  | succ width ih =>
    have hbyte : (UInt8.ofNat value).toNat = value % 256 := by
      simp [UInt8.toNat_ofNat']
    simp only [leBytes, leValue, ih, hbyte]
    rw [pow_succ', Nat.mod_mul]

theorem leValue_lt (bytes : Bytes) : leValue bytes < 256 ^ bytes.length := by
  induction bytes with
  | nil => simp [leValue]
  | cons byte =>
    have hbyte : byte.toNat < 256 := byte.toNat_lt
    simp only [leValue, length_cons, pow_succ']
    omega

theorem leBytes_leValue (bytes : Bytes) : leBytes bytes.length (leValue bytes) = bytes := by
  induction bytes with
  | nil => rfl
  | cons byte rest ih =>
    have hbyte : byte.toNat < 256 := byte.toNat_lt
    have hquotient : (byte.toNat + 256 * leValue rest) / 256 = leValue rest := by omega
    have hhead : UInt8.ofNat (byte.toNat + 256 * leValue rest) = byte := by
      apply UInt8.toNat_inj.mp
      rw [UInt8.toNat_ofNat']
      omega
    simp only [length_cons, leBytes, leValue, hquotient, hhead, ih]

/-- A 64-bit integer as eight little-endian bytes. -/
def u64ToLe (value : UInt64) : Bytes := leBytes 8 value.toNat

/-- Eight little-endian bytes as a 64-bit integer. -/
def u64FromLe (bytes : Bytes) : UInt64 := UInt64.ofNat (leValue bytes)

@[simp] theorem u64ToLe_length (value : UInt64) : (u64ToLe value).length = 8 := by
  simp [u64ToLe]

@[simp] theorem u64FromLe_u64ToLe (value : UInt64) : u64FromLe (u64ToLe value) = value := by
  have hlt : value.toNat < 256 ^ 8 := value.toNat_lt
  rw [u64FromLe, u64ToLe, leValue_leBytes, Nat.mod_eq_of_lt hlt]
  exact UInt64.ofNat_toNat

theorem u64ToLe_u64FromLe {bytes : Bytes} (h : bytes.length = 8) :
    u64ToLe (u64FromLe bytes) = bytes := by
  have hlt : leValue bytes < 2 ^ 64 := by
    have := leValue_lt bytes
    rw [h] at this
    exact this
  rw [u64ToLe, u64FromLe, UInt64.toNat_ofNat_of_lt' hlt, ← h, leBytes_leValue]

theorem u64ToLe_injective : Function.Injective u64ToLe :=
  Function.LeftInverse.injective u64FromLe_u64ToLe

/-- A 32-bit integer as four little-endian bytes. -/
def u32ToLe (value : UInt32) : Bytes := leBytes 4 value.toNat

/-- Four little-endian bytes as a 32-bit integer. -/
def u32FromLe (bytes : Bytes) : UInt32 := UInt32.ofNat (leValue bytes)

@[simp] theorem u32ToLe_length (value : UInt32) : (u32ToLe value).length = 4 := by
  simp [u32ToLe]

@[simp] theorem u32FromLe_u32ToLe (value : UInt32) : u32FromLe (u32ToLe value) = value := by
  have hlt : value.toNat < 256 ^ 4 := value.toNat_lt
  rw [u32FromLe, u32ToLe, leValue_leBytes, Nat.mod_eq_of_lt hlt]
  exact UInt32.ofNat_toNat

theorem u32ToLe_u32FromLe {bytes : Bytes} (h : bytes.length = 4) :
    u32ToLe (u32FromLe bytes) = bytes := by
  have hlt : leValue bytes < 2 ^ 32 := by
    have := leValue_lt bytes
    rw [h] at this
    exact this
  rw [u32ToLe, u32FromLe, UInt32.toNat_ofNat_of_lt' hlt, ← h, leBytes_leValue]

def u64Sum (values : List UInt64) : UInt64 := values.foldl (· + ·) 0

theorem u64Sum_cons (value : UInt64) (values : List UInt64) :
    u64Sum (value :: values) = value + u64Sum values := by
  rw [u64Sum, u64Sum, foldl_cons, UInt64.add_comm 0 value, foldl_assoc]

end PbsGui.Lib
