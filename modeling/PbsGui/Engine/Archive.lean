import PbsGui.Lib.Bytes
import PbsGui.Lib.FileTree
import PbsGui.Lib.Keyed

/-!
# The archive of a job's files

`archive.rs` writes the files of a job's sources into one tar, each under its path relative to
the parent of its source, and reports what it left out; `restore.rs` takes the tar apart
again.  Names are of any type with a text (`to_string_lossy`), so that two names may have the
same one.
-/

namespace PbsGui.Engine

open Lib

/-! ### Paths -/

/-- A path: a drive or share with its root, and the names below it. -/
structure FsPath (N : Type) where
  root : String
  parts : List N
  deriving DecidableEq

def joinText {N : Type} (text : N → String) (parts : List N) : String :=
  String.ofList (['\\'].intercalate (parts.map fun name => (text name).toList))

def slash (c : Char) : Char := if c = '\\' then '/' else c

/-- `replace('\\', "/")` -/
def slashes (text : String) : String := String.ofList (text.toList.map slash)

theorem slash_slash (c : Char) : slash (slash c) = slash c := by
  by_cases hc : c = '\\' <;> simp [slash, hc]

theorem slashes_slashes (text : String) : slashes (slashes text) = slashes text := by
  simp [slashes, slash_slash, Function.comp_def]

namespace FsPath

variable {N : Type}

def parent (path : FsPath N) : Option (FsPath N) :=
  if path.parts.isEmpty then none else some { path with parts := path.parts.dropLast }

def fileName (path : FsPath N) : Option N := path.parts.getLast?

def join (path : FsPath N) (below : List N) : FsPath N :=
  { path with parts := path.parts ++ below }

def stripPrefix [DecidableEq N] (path base : FsPath N) : Option (List N) :=
  if base.root = path.root ∧ base.parts <+: path.parts then
    some (path.parts.drop base.parts.length)
  else none

def text (text : N → String) (path : FsPath N) : String :=
  path.root ++ joinText text path.parts

end FsPath

section Names

variable {N : Type} [DecidableEq N] (text : N → String)

def excluded (patterns : List (String → Bool)) (path : FsPath N) : Bool :=
  patterns.any fun pattern => pattern (path.text text)

/-- The live path for a path found while walking `read`, the read location of
`liveRoot`. -/
def toLive (liveRoot read path : FsPath N) : FsPath N :=
  match path.stripPrefix read with
  | some [] => liveRoot
  | some below => liveRoot.join below
  | none => path

/-- Name of a path inside the archive: relative to the source's parent. -/
def archiveName (sourceRoot path : FsPath N) : String :=
  let base := sourceRoot.parent.getD sourceRoot
  match path.stripPrefix base with
  | some below => slashes (joinText text below)
  | none => slashes (path.text text)

end Names

/-! ### Writing -/

/-- Why a file could not be appended: its data, or the archive. -/
inductive AppendError
  | read (reason : String)
  | write (reason : String)
  deriving DecidableEq

/-- What happens when a file is added. -/
inductive FileRead
  /-- A placeholder without data. -/
  | cloudOnly
  | openFailed (reason : String)
  /-- The size in the open file's metadata, and how `append_file` ends: with the size
  it put in the header and the data it copied. -/
  | opened (size : Option UInt64) (append : Except AppendError (UInt64 × Bytes))

/-- The file system as a run finds it. -/
structure TreeAccess (N F : Type) where
  /-- What is at a source's path. -/
  root : FsPath N → Except String (Node N F)
  /-- Why a folder cannot be listed. -/
  listing : FsPath N → Option String
  read : FsPath N → F → FileRead

structure TarEntry where
  name : String
  size : UInt64
  data : Bytes
  deriving DecidableEq

structure Skipped where
  /-- The live path. -/
  path : String
  reason : String
  deriving DecidableEq

/-- The archive so far: the tar, and the report. -/
structure Archive where
  tar : List TarEntry := []
  /-- Archive path and size of each file added. -/
  entries : List (String × UInt64) := []
  skipped : List Skipped := []
  deriving DecidableEq

def Archive.skip (archive : Archive) (path reason : String) : Archive :=
  { archive with skipped := archive.skipped ++ [⟨path, reason⟩] }

/-- What the loop does next. -/
inductive ArchiveEvent (N : Type)
  | skip (live : FsPath N) (reason : String)
  | add (live : FsPath N) (name : String) (read : FileRead)

section Write

variable {N F : Type} [DecidableEq N] (text : N → String)

/-- Append one file, or record why it was skipped. -/
def addFile (archive : Archive) (live : FsPath N) (name : String) (read : FileRead) :
    Except AppendError Archive :=
  match read with
  | .cloudOnly =>
    .ok (archive.skip (live.text text) "cloud-only file (not downloaded to this machine)")
  | .openFailed reason => .ok (archive.skip (live.text text) reason)
  | .opened _ (.error e) => .error e
  | .opened size (.ok (header, data)) =>
    .ok { archive with
          tar := archive.tar ++ [⟨name, header, data⟩]
          entries := archive.entries ++ [(name, size.getD 0)] }

def handleEvent (archive : Archive) : ArchiveEvent N → Except AppendError Archive
  | .skip live reason => .ok (archive.skip (live.text text) reason)
  | .add live name read => addFile text archive live name read

variable (patterns : List (String → Bool)) (readRoot : FsPath N → Option (FsPath N))
  (access : TreeAccess N F)

def walkEvent (source read : FsPath N) : WalkItem N F → List (ArchiveEvent N)
  | .error below reason => [.skip (toLive source read (read.join below)) reason]
  | .nonFile _ => []
  | .file below file =>
    let live := toLive source read (read.join below)
    if excluded text patterns live then []
    else [.add live (archiveName text source live) (access.read (read.join below) file)]

def sourceEvents (source : FsPath N) : List (ArchiveEvent N) :=
  let read := (readRoot source).getD source
  match access.root read with
  | .error e => [.skip source ("source not readable: " ++ e)]
  | .ok (.folder entries) =>
    (Node.walk (fun below => access.listing (read.join below)) (.folder entries)).flatMap
      (walkEvent text patterns access source read)
  | .ok (.file file) =>
    if excluded text patterns source then []
    else [.add source ((source.fileName.map text).getD "file") (access.read read file)]
  | .ok .other => []

/-- Write a tar of the sources; `flush` is how the final flush ends. -/
def writeTar (sources : List (FsPath N)) (flush : Except AppendError Unit) :
    Except AppendError Archive := do
  let archive ← (sources.flatMap (sourceEvents text patterns readRoot access)).foldlM
    (handleEvent text) {}
  flush
  return archive

end Write

/-- The entries that the tar library reads back, if each was as long as its header
says.  What is read from another archive is not modelled. -/
def readBack (tar : List TarEntry) : Option (List (String × Bytes)) :=
  if ∀ entry ∈ tar, entry.size.toNat = entry.data.length then
    some (tar.map fun entry => (entry.name, entry.data))
  else none

def nameParts (name : String) : List String :=
  ((slashes name).toList.splitOn '/').map String.ofList

/-- The parts that count when an entry is unpacked. -/
def unpackParts (name : String) : List String :=
  (nameParts name).filter fun part => part ≠ "" ∧ part ≠ "."

section Extract

variable {κ : Type} [DecidableEq κ] (fold : String → κ)

/-- Put a file below a folder.  A file that is there already is replaced; a file where a
folder is needed, or a folder in the file's place, is an error. -/
def putFile (files : List (List κ × Bytes)) (name : String) (path : List κ) (data : Bytes) :
    Except String (List (List κ × Bytes)) :=
  if ∃ file ∈ files, file.1 ≠ path ∧ (file.1 <+: path ∨ path <+: file.1) then
    .error ("failed to unpack " ++ name)
  else .ok (Keyed.upsert Prod.fst (path, data) files)

/-- `unpack_in` below a folder whose file system tells names apart by `fold`.  An entry
that would leave the folder is not unpacked. -/
def unpackIn (files : List (List κ × Bytes)) (name : String) (data : Bytes) :
    Except String (List (List κ × Bytes) × Bool) :=
  if ".." ∈ unpackParts name then .ok (files, false)
  else if unpackParts name = [] then .ok (files, true)
  else (putFile files name ((unpackParts name).map fold) data).map fun files => (files, true)

def extractEntry (selected : Option (List String)) (done : Nat × List (List κ × Bytes))
    (entry : String × Bytes) : Except String (Nat × List (List κ × Bytes)) :=
  if selected.all fun names => names.contains (slashes entry.1) then do
    let (files, unpacked) ← unpackIn fold done.2 entry.1 entry.2
    return (if unpacked then done.1 + 1 else done.1, files)
  else .ok done

/-- Extract an archive into an empty folder: the number of entries unpacked, and the
files that are there in the end. -/
def extract (selected : Option (List String)) (entries : List (String × Bytes)) :
    Except String (Nat × List (List κ × Bytes)) :=
  entries.foldlM (extractEntry fold selected) (0, [])

end Extract

end PbsGui.Engine
