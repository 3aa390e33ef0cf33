import PbsGui.Engine.ArchiveNames
import PbsGui.Lib.BlockArchive

/-!
# The bytes of an archive

The tar that `write_tar` writes, and how `list_tar` and `extract` of `restore.rs` read it.
The library puts the size from the open file's metadata into the head of an entry, copies
the file to its end and fills up what it copied to whole blocks.  A file that grows or shrinks
while it is copied does no harm within its last block; beyond it the reader looks for the next
head in the wrong place.
-/

namespace PbsGui.Engine

open Lib List

/-! ### Archives as bytes -/

/-- What a head says about an entry besides its size. -/
structure TarHead where
  path : String
  isDir : Bool
  deriving DecidableEq

abbrev TarFormat := BlockFormat TarHead UInt8 512 (2 ^ 64) 0

/-- An entry as `append_file` writes it. -/
def TarEntry.block (entry : TarEntry) : BlockEntry TarHead UInt8 :=
  ⟨⟨entry.name, false⟩, entry.size.toNat, entry.data⟩

def tarBytes (format : TarFormat) (tar : List TarEntry) : Bytes :=
  format.write (tar.map TarEntry.block)

/-- The blocks that the head asks for are those that were copied. -/
def TarEntry.InStep (entry : TarEntry) : Prop :=
  wholeBlocks 512 entry.size.toNat = wholeBlocks 512 entry.data.length

/-- A file in an archive. -/
structure FileInfo where
  path : String
  size : Nat
  deriving DecidableEq

/-- List the files inside a tar archive; `none` if it cannot be read. -/
def listTar (format : TarFormat) (bytes : Bytes) : Option (List FileInfo) :=
  (format.read bytes).map fun entries =>
    (entries.filter fun entry => !entry.name.isDir).map fun entry =>
      ⟨slashes entry.name.path, entry.size⟩

/-- Name and content of the entries, as they are extracted. -/
def readTar (format : TarFormat) (bytes : Bytes) : Option (List (String × Bytes)) :=
  (format.read bytes).map fun entries => entries.map fun entry => (entry.name.path, entry.data)

section Reading

variable {format : TarFormat} {tar : List TarEntry}

def Writable (format : TarFormat) (tar : List TarEntry) : Prop :=
  ∀ entry ∈ tar, format.Writable ⟨entry.name, false⟩

theorem read_tarBytes (hwr : Writable format tar) (hstep : ∀ entry ∈ tar, entry.InStep) :
    format.read (tarBytes format tar) = some (tar.map fun entry =>
      ⟨⟨entry.name, false⟩, entry.size.toNat,
        (fillBlocks 512 0 entry.data).take entry.size.toNat⟩) := by
  rw [tarBytes, BlockFormat.read_write (by decide), map_map]
  · rfl
  · intro block hblock
    obtain ⟨entry, hentry, rfl⟩ := mem_map.mp hblock
    exact ⟨hwr entry hentry, entry.size.toNat_lt, hstep entry hentry⟩

theorem listTar_tarBytes (hwr : Writable format tar) (hstep : ∀ entry ∈ tar, entry.InStep) :
    listTar format (tarBytes format tar) =
      some (tar.map fun entry => ⟨slashes entry.name, entry.size.toNat⟩) := by
  rw [listTar, read_tarBytes hwr hstep, Option.map_some, filter_eq_self.mpr, map_map]
  · rfl
  · intro block hblock
    obtain ⟨entry, -, rfl⟩ := mem_map.mp hblock
    rfl

theorem readTar_tarBytes (hwr : Writable format tar)
    (hsizes : ∀ entry ∈ tar, entry.size.toNat = entry.data.length) :
    readTar format (tarBytes format tar) =
      some (tar.map fun entry => (entry.name, entry.data)) := by
  have hstep : ∀ entry ∈ tar, entry.InStep := by
    intro entry hentry
    rw [TarEntry.InStep, hsizes entry hentry]
  rw [readTar, read_tarBytes hwr hstep, Option.map_some, map_map]
  refine congrArg some (map_congr_left fun entry hentry => ?_)
  simp only [Function.comp_apply, hsizes entry hentry, fillBlocks, take_left]

end Reading

section Changing

variable {N F : Type} [DecidableEq N] {text : N → String} {patterns : List (String → Bool)}
  {readRoot : FsPath N → Option (FsPath N)} {access : TreeAccess N F}

theorem slashes_eq_self {name : String} (h : '\\' ∉ name.toList) : slashes name = name := by
  have hmap : name.toList.map slash = name.toList := by
    refine (map_congr_left fun c hc => ?_).trans (map_id _)
    exact if_neg fun (heq : c = '\\') => h (heq ▸ hc)
  rw [slashes, hmap, String.ofList_toList]

theorem storedFrom_slashes (htext : ∀ name, '\\' ∉ (text name).toList) {source : FsPath N}
    {entry : TarEntry} (hentry : entry ∈ storedFrom text patterns readRoot access source) :
    slashes entry.name = entry.name := by
  rcases mem_storedFrom hentry with ⟨entries, found, -, -, hstored⟩ | ⟨file, -, hstored⟩
  · rw [(storedFile_eq_some hstored).1, archiveName_join, slashes_slashes]
  · rw [(ArchiveEvent.stored_add hstored).1]
    cases source.fileName with
    | none => exact slashes_eq_self (show '\\' ∉ "file".toList by decide)
    | some name => exact slashes_eq_self (htext name)

end Changing

/-! ### A file that grows -/

/-- A head of one block for two names: a mark for the name, and the size. -/
def sampleHead (head : TarHead) (size : Nat) : Bytes :=
  (if head.path = "data/a" then 1 else 2) :: (leBytes 8 size ++ List.replicate 503 0)

def readSampleHead : Bytes → Option (TarHead × Nat × Bytes)
  | [] => none
  | mark :: fields =>
    if mark = 1 ∨ mark = 2 then
      some (⟨if mark = 1 then "data/a" else "data/b", false⟩, leValue (fields.take 8),
        fields.drop 511)
    else none

def SampleHead (head : TarHead) : Prop := head = ⟨"data/a", false⟩ ∨ head = ⟨"data/b", false⟩

theorem readSampleHead_sampleHead {head : TarHead} {size : Nat} (hname : SampleHead head)
    (hsize : size < 2 ^ 64) (rest : Bytes) :
    readSampleHead (sampleHead head size ++ rest) = some (head, size, rest) := by
  have hfields : ((leBytes 8 size ++ replicate 503 (0 : UInt8)) ++ rest).take 8 =
      leBytes 8 size := by
    rw [append_assoc]
    exact take_left' (leBytes_length 8 size)
  have hrest : ((leBytes 8 size ++ replicate 503 (0 : UInt8)) ++ rest).drop 511 = rest :=
    drop_left' (by rw [length_append, leBytes_length, length_replicate])
  have hvalue : leValue (leBytes 8 size) = size := by
    rw [leValue_leBytes]
    exact Nat.mod_eq_of_lt hsize
  rw [sampleHead, cons_append, readSampleHead, hfields, hrest, hvalue]
  rcases hname with rfl | rfl
  · rfl
  · rfl

def sampleTarFormat : TarFormat where
  head := sampleHead
  readHead := readSampleHead
  Writable := SampleHead
  block_le_head head size := by
    rw [sampleHead, List.length_cons, List.length_append, leBytes_length, List.length_replicate]
  head_marked head size := by
    refine ⟨_, List.mem_cons_self, ?_⟩
    split <;> decide
  readHead_head := readSampleHead_sampleHead

/-- The names of a folder and its two files. -/
inductive DataName
  | data | a | b
  deriving DecidableEq

def DataName.text : DataName → String
  | data => "data"
  | a => "a"
  | b => "b"

/-- The folder, where each file is read as the given pair says: the size in the head, and
what is copied. -/
def growingFiles (first second : UInt64 × Bytes) : TreeAccess DataName (UInt64 × Bytes) where
  root _ := .ok (.folder (.cons .a (.file first) (.cons .b (.file second) .nil)))
  listing _ := none
  read _ copied := .opened (some copied.1) (.ok copied)

def growingArchive (first second : UInt64 × Bytes) : Archive where
  tar := [⟨"data/a", first.1, first.2⟩, ⟨"data/b", second.1, second.2⟩]
  entries := [("data/a", first.1), ("data/b", second.1)]

theorem writeTar_growingFiles (first second : UInt64 × Bytes) :
    writeTar DataName.text [] (fun _ => none) (growingFiles first second) [⟨"C:\\", [.data]⟩]
      (.ok ()) = .ok (growingArchive first second) := rfl

theorem growingArchive_writable (first second : UInt64 × Bytes) :
    Writable sampleTarFormat (growingArchive first second).tar := by
  intro entry hentry
  simp only [growingArchive, mem_cons, not_mem_nil, or_false] at hentry
  rcases hentry with rfl | rfl
  · exact .inl rfl
  · exact .inr rfl

end PbsGui.Engine
