import Mathlib.Data.List.Basic

/-!
# Archives of blocks

An archive is a sequence of entries and an end of two blank blocks.  An entry is a head,
which has a name and a length, and the data, filled up to whole blocks.

The writer fills up what it has copied, and the reader goes on behind as many blocks as
the length in the head needs.  The entries are read back if these are the same.
-/

namespace PbsGui.Lib

open List

section Blocks

variable {Byte : Type} {block : Nat}

def wholeBlocks (block length : Nat) : Nat := (length + (block - 1)) / block * block

theorem le_wholeBlocks (hblock : 0 < block) (length : Nat) : length ≤ wholeBlocks block length := by
  have hmod := Nat.div_add_mod (length + (block - 1)) block
  have hlt := Nat.mod_lt (length + (block - 1)) hblock
  rw [wholeBlocks, Nat.mul_comm]
  omega

def fillBlocks (block : Nat) (blank : Byte) (data : List Byte) : List Byte :=
  data ++ List.replicate (wholeBlocks block data.length - data.length) blank

theorem length_fillBlocks (hblock : 0 < block) (blank : Byte) (data : List Byte) :
    (fillBlocks block blank data).length = wholeBlocks block data.length := by
  have hle := le_wholeBlocks hblock data.length
  rw [fillBlocks, length_append, length_replicate]
  omega

end Blocks

/-! ### Writing and reading -/

/-- How the head of an entry is written and read.  A head is at least a block, and its
first block is not blank. -/
structure BlockFormat (Name Byte : Type) (block limit : Nat) (blank : Byte) where
  head : Name → Nat → List Byte
  readHead : List Byte → Option (Name × Nat × List Byte)
  /-- The names that a head can hold. -/
  Writable : Name → Prop
  block_le_head : ∀ name size, block ≤ (head name size).length
  head_marked : ∀ name size, ∃ byte ∈ (head name size).take block, byte ≠ blank
  readHead_head : ∀ {name size}, Writable name → size < limit → ∀ rest,
    readHead (head name size ++ rest) = some (name, size, rest)

/-- An entry: its name, the length in its head and the data behind it. -/
structure BlockEntry (Name Byte : Type) where
  name : Name
  size : Nat
  data : List Byte

namespace BlockFormat

variable {Name Byte : Type} {block limit : Nat} {blank : Byte}
  (format : BlockFormat Name Byte block limit blank)

def writeEntry (entry : BlockEntry Name Byte) : List Byte :=
  format.head entry.name entry.size ++ fillBlocks block blank entry.data

def write (entries : List (BlockEntry Name Byte)) : List Byte :=
  entries.flatMap format.writeEntry ++ List.replicate (2 * block) blank

theorem length_le_write (hblock : 0 < block) (entries : List (BlockEntry Name Byte)) :
    entries.length ≤ (format.write entries).length := by
  induction entries with
  | nil => exact Nat.zero_le _
  | cons entry =>
    have hhead := format.block_le_head entry.name entry.size
    rw [write, flatMap_cons, append_assoc, ← write, length_cons, length_append,
      writeEntry, length_append]
    omega

variable [DecidableEq Byte]

/-- The entries up to a blank block or the end of the text.  A part of a block, a block that
is no head, and a text that ends within the blocks of an entry are errors. -/
def readWithin : Nat → List Byte → Option (List (BlockEntry Name Byte))
  | 0, _ => none
  | fuel + 1, text =>
    if text = [] then some []
    else if text.length < block then none
    else if ∀ byte ∈ text.take block, byte = blank then some []
    else do
      let (name, size, rest) ← format.readHead text
      if rest.length < wholeBlocks block size then none
      else do
        let more ← readWithin fuel (rest.drop (wholeBlocks block size))
        some (⟨name, size, rest.take size⟩ :: more)

def read (text : List Byte) : Option (List (BlockEntry Name Byte)) :=
  format.readWithin (text.length + 1) text

variable {format}

theorem readWithin_blank (hblock : 0 < block) {fuel : Nat} {text : List Byte}
    (hlen : block ≤ text.length) (hblank : ∀ byte ∈ text.take block, byte = blank) :
    format.readWithin (fuel + 1) text = some [] := by
  have hne : text ≠ [] := by
    rintro rfl
    exact absurd hlen (Nat.not_le.mpr hblock)
  rw [readWithin, if_neg hne, if_neg (Nat.not_lt.mpr hlen), if_pos hblank]

theorem readWithin_head (hblock : 0 < block) {name : Name} {size : Nat}
    (hname : format.Writable name) (hsize : size < limit) {rest : List Byte}
    (hrest : wholeBlocks block size ≤ rest.length) (fuel : Nat) :
    format.readWithin (fuel + 1) (format.head name size ++ rest) =
      (format.readWithin fuel (rest.drop (wholeBlocks block size))).map
        fun more => ⟨name, size, rest.take size⟩ :: more := by
  have hlen := format.block_le_head name size
  have hne : format.head name size ++ rest ≠ [] := by
    refine append_ne_nil_of_left_ne_nil (fun hnil => ?_) _
    rw [hnil] at hlen
    exact absurd hlen (Nat.not_le.mpr hblock)
  have hlong : ¬ (format.head name size ++ rest).length < block := by
    rw [length_append]
    omega
  have hmarked : ¬ ∀ byte ∈ (format.head name size ++ rest).take block, byte = blank := by
    rw [take_append_of_le_length hlen]
    obtain ⟨byte, hbyte, hother⟩ := format.head_marked name size
    exact fun hblank => hother (hblank byte hbyte)
  rw [readWithin, if_neg hne, if_neg hlong, if_neg hmarked, format.readHead_head hname hsize]
  simp only [Option.bind_eq_bind, Option.bind_some, if_neg (Nat.not_lt.mpr hrest)]
  cases format.readWithin fuel (rest.drop (wholeBlocks block size)) <;> rfl

theorem readWithin_writeEntry (hblock : 0 < block) {entry : BlockEntry Name Byte}
    (hname : format.Writable entry.name) (hsize : entry.size < limit)
    (hblocks : wholeBlocks block entry.size = wholeBlocks block entry.data.length)
    (fuel : Nat) (later : List Byte) :
    format.readWithin (fuel + 1) (format.writeEntry entry ++ later) =
      (format.readWithin fuel later).map fun more =>
        ⟨entry.name, entry.size, (fillBlocks block blank entry.data).take entry.size⟩ :: more := by
  have hfilled : (fillBlocks block blank entry.data).length = wholeBlocks block entry.size := by
    rw [length_fillBlocks hblock, hblocks]
  have hle : entry.size ≤ (fillBlocks block blank entry.data).length := by
    rw [hfilled]
    exact le_wholeBlocks hblock entry.size
  have hrest : wholeBlocks block entry.size ≤
      (fillBlocks block blank entry.data ++ later).length := by
    rw [length_append]
    omega
  rw [writeEntry, append_assoc, readWithin_head hblock hname hsize hrest,
    drop_left' hfilled, take_append_of_le_length hle]

variable {entries : List (BlockEntry Name Byte)}

section

variable (hblock : 0 < block)
  (hentries : ∀ entry ∈ entries, format.Writable entry.name ∧ entry.size < limit ∧
    wholeBlocks block entry.size = wholeBlocks block entry.data.length)

include hblock hentries

theorem readWithin_write {fuel : Nat} (hfuel : entries.length < fuel) :
    format.readWithin fuel (format.write entries) = some (entries.map fun entry =>
      ⟨entry.name, entry.size, (fillBlocks block blank entry.data).take entry.size⟩) := by
  induction entries generalizing fuel with
  | nil =>
    obtain ⟨fuel, rfl⟩ : ∃ less, fuel = less + 1 := ⟨fuel - 1, by omega⟩
    refine readWithin_blank hblock ?_ fun byte hbyte => ?_
    · rw [write, flatMap_nil, nil_append, length_replicate]
      omega
    · exact eq_of_mem_replicate (mem_of_mem_take hbyte)
  | cons entry entries ih =>
    obtain ⟨fuel, rfl⟩ : ∃ less, fuel = less + 1 := ⟨fuel - 1, by omega⟩
    obtain ⟨hname, hsize, hblocks⟩ := hentries entry mem_cons_self
    have hmore := ih (forall_mem_cons.mp hentries).2
      (show entries.length < fuel by rw [length_cons] at hfuel; omega)
    rw [write, flatMap_cons, append_assoc, ← write,
      readWithin_writeEntry hblock hname hsize hblocks, hmore]
    rfl

theorem read_write :
    format.read (format.write entries) = some (entries.map fun entry =>
      ⟨entry.name, entry.size, (fillBlocks block blank entry.data).take entry.size⟩) :=
  readWithin_write hblock hentries (Nat.lt_succ_of_le (format.length_le_write hblock entries))

end

theorem read_head_blank (hblock : 0 < block) {name : Name} {size : Nat}
    (hname : format.Writable name) (hsize : size < limit) {data : List Byte}
    (hdata : data.length = wholeBlocks block size) (later : List Byte) :
    format.read (format.head name size ++ (data ++ (List.replicate block blank ++ later))) =
      some [⟨name, size, data.take size⟩] := by
  have hlen := format.block_le_head name size
  have hrest : wholeBlocks block size ≤
      (data ++ (replicate block blank ++ later)).length := by
    rw [length_append]
    omega
  have hle : size ≤ data.length := by
    rw [hdata]
    exact le_wholeBlocks hblock size
  have hend : ∀ fuel, format.readWithin (fuel + 1) (replicate block blank ++ later) =
      some [] := by
    intro fuel
    refine readWithin_blank hblock ?_ fun byte hbyte => ?_
    · rw [length_append, length_replicate]
      omega
    · rw [take_left' length_replicate] at hbyte
      exact eq_of_mem_replicate hbyte
  obtain ⟨fuel, hfuel⟩ : ∃ fuel,
      (format.head name size ++ (data ++ (replicate block blank ++ later))).length = fuel + 1 := by
    refine ⟨_ - 1, (Nat.sub_add_cancel ?_).symm⟩
    rw [length_append]
    omega
  rw [read, hfuel, readWithin_head hblock hname hsize hrest, drop_left' hdata, hend,
    take_append_of_le_length hle]
  rfl

end BlockFormat

end PbsGui.Lib
