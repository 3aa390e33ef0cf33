import Mathlib.Algebra.GroupWithZero.Nat
import Mathlib.Data.Char
import Mathlib.Data.List.Lex
import PbsGui.Ad.Matchspec
import PbsGui.Lib.FileTree
import PbsGui.Lib.Selection
import PbsGui.Lib.Text

/-!
# The files of the System State

`resolve_files` (`vss.rs`) collects the files on the shadow copies that the file descriptors
of the VSS writers match, one for each archive name.  The archive name is made of the directory
as the descriptor spells it and of the names found below it.

Windows looks a directory up without regard to case.  Descriptors that overlap therefore
yield a file once if they spell its path alike, and several times if they do not.
-/

namespace PbsGui.Ad.ResolveFiles

open Lib List

/-- A path on a shadow copy: the device, the directory as the descriptor spells it, and the
entries below it. -/
structure ShadowPath (N : Type) where
  device : List Char
  rel : List Char
  names : List N

/-- The machine as the capture meets it.  `N` are the names of files, which need not be
Unicode, and `κ` is what of a name counts when it is looked up. -/
structure Windows (N κ : Type) where
  /-- `to_string_lossy` -/
  lossy : N → List Char
  nameKey : N → κ
  textKey : List Char → κ
  /-- `str::to_lowercase` -/
  lowercase : List Char → List Char
  /-- `GetVolumePathNameW` -/
  volumeOf : List Char → Except String (List Char)
  /-- The root directory of each device, with the sizes of the files that have one. -/
  tree : List Char → Entries N (Option UInt64)
  /-- The directories that cannot be listed, and the entries that cannot be read or whose
  kind cannot be told. -/
  failed : ShadowPath N → Bool
  lossy_ne_nil : ∀ name, lossy name ≠ []
  lossy_plain : ∀ name, ∀ c ∈ lossy name, c ≠ '\\' ∧ c ≠ '/' ∧ c ≠ ':'
  tree_apart : ∀ device, (Node.folder (tree device)).KeysApart nameKey

structure FileDescriptor (G : Type) where
  writerId : G
  directory : List Char
  spec : List Char
  recursive : Bool

structure CapturedFile (N : Type) where
  shadowPath : ShadowPath N
  originalPath : List Char
  archiveName : List Char
  size : UInt64
  writer : String

/-! ### Texts of paths -/

/-- `trim_start_matches('\\')` -/
def trimStartSlashes (text : List Char) : List Char := text.dropWhile (· = '\\')

/-- `trim_end_matches('\\')` -/
def trimEndSlashes (text : List Char) : List Char := text.rdropWhile (· = '\\')

/-- `replace(':', "").replace('\\', "/")` -/
def archiveNameOf (originalPath : List Char) : List Char :=
  (originalPath.filter (· ≠ ':')).map fun c => if c = '\\' then '/' else c

/-- `str::len` -/
def utf8Len (text : List Char) : Nat := (text.map Char.utf8Size).sum

/-- `&text[count..]`; nothing where that panics. -/
def dropBytes : Nat → List Char → Option (List Char)
  | 0, text => some text
  | _ + 1, [] => none
  | count + 1, c :: rest =>
    if c.utf8Size ≤ count + 1 then dropBytes (count + 1 - c.utf8Size) rest else none

def dropLastSlash (rel : List Char) : List Char :=
  if rel.getLast? = some '\\' then rel.dropLast else rel

/-- The names in a path below a device.  A separator may stand at its end; elsewhere a path
of this kind has no empty names. -/
def components (rel : List Char) : Option (List (List Char)) :=
  if rel = [] then some []
  else if [] ∈ (dropLastSlash rel).splitOn '\\' then none
  else some ((dropLastSlash rel).splitOn '\\')

section Collect

variable {N κ : Type} (w : Windows N κ)

/-- What `collect_matching` is called with and passes on unchanged. -/
structure Search where
  device : List Char
  rel : List Char
  spec : List Char
  recursive : Bool
  writer : String

def Search.file (search : Search) (originalPath : List Char) (names : List N)
    (size : Option UInt64) : CapturedFile N where
  shadowPath := ⟨search.device, search.rel, names⟩
  originalPath := originalPath
  archiveName := archiveNameOf originalPath
  size := size.getD 0
  writer := search.writer

mutual

def collectEntry (search : Search) (originalDir : List Char) (names : List N) (name : N) :
    Node N (Option UInt64) → List (CapturedFile N)
  | .folder entries =>
    if search.recursive then
      collectMatching search (trimEndSlashes originalDir ++ '\\' :: w.lossy name)
        (names ++ [name]) entries
    else []
  | .file size =>
    if filespecMatches w.lowercase search.spec (w.lossy name) then
      [search.file (trimEndSlashes originalDir ++ '\\' :: w.lossy name) (names ++ [name]) size]
    else []
  | .other => []

/-- `collect_matching`, for a directory that can be listed: the files it adds, in turn. -/
def collectMatching (search : Search) (originalDir : List Char) (names : List N) :
    Entries N (Option UInt64) → List (CapturedFile N)
  | .nil => []
  | .cons name node rest =>
    (if w.failed ⟨search.device, search.rel, names ++ [name]⟩ then []
      else collectEntry search originalDir names name node) ++
    collectMatching search originalDir names rest

end

/-- A file at these names below a directory is asked for. -/
def Windows.takes (spec : List Char) (recursive : Bool) (below : List N) : Bool :=
  (recursive || below.length == 1) &&
    below.getLast?.any fun name => filespecMatches w.lowercase spec (w.lossy name)

/-- The path of a file, with the directory as it is spelled. -/
def Windows.spelled (directory : List Char) (below : List N) : List Char :=
  trimEndSlashes directory ++ below.flatMap fun name => '\\' :: w.lossy name

theorem trimEndSlashes_append {c : Char} (hc : c ≠ '\\') (left right : List Char) :
    trimEndSlashes (left ++ c :: right) = left ++ c :: trimEndSlashes right :=
  rdropWhile_append_cons (by simp [hc]) left right

namespace Windows

theorem not_mem_lossy (name : N) :
    '\\' ∉ w.lossy name ∧ '/' ∉ w.lossy name ∧ ':' ∉ w.lossy name :=
  ⟨fun h => (w.lossy_plain name _ h).1 rfl, fun h => (w.lossy_plain name _ h).2.1 rfl,
    fun h => (w.lossy_plain name _ h).2.2 rfl⟩

theorem trimEndSlashes_lossy (above : List Char) (name : N) :
    trimEndSlashes (above ++ w.lossy name) = above ++ w.lossy name := by
  obtain ⟨start, last, hname⟩ :=
    (eq_nil_or_concat' (w.lossy name)).resolve_left (w.lossy_ne_nil name)
  have hlast : last ≠ '\\' := fun heq =>
    (w.not_mem_lossy name).1 (hname ▸ mem_append_right _ (mem_singleton.mpr heq.symm))
  rw [hname, ← append_assoc, trimEndSlashes_append hlast]
  rfl

theorem spelled_cons (directory : List Char) (name : N) (below : List N) :
    w.spelled (trimEndSlashes directory ++ '\\' :: w.lossy name) below =
      w.spelled directory (name :: below) := by
  have htrim := w.trimEndSlashes_lossy (trimEndSlashes directory ++ ['\\']) name
  rw [append_assoc, singleton_append] at htrim
  rw [spelled, htrim, spelled, flatMap_cons, append_assoc]

end Windows

theorem Windows.takes_cons {spec : List Char} {recursive : Bool} {name : N} {below : List N}
    (hbelow : below ≠ []) :
    w.takes spec recursive (name :: below) = (recursive && w.takes spec recursive below) := by
  obtain ⟨first, later, rfl⟩ := exists_cons_of_ne_nil hbelow
  cases recursive <;> simp [takes]

/-- What a walk makes of a file below the directory. -/
def Search.record (search : Search) (originalDir : List Char) (names : List N)
    (found : List N × Option UInt64) : Option (CapturedFile N) :=
  if w.takes search.spec search.recursive found.1 then
    some (search.file (w.spelled originalDir found.1) (names ++ found.1) found.2)
  else none

variable {w} {search : Search}

mutual

theorem collectEntry_eq (hcalls : ∀ path, w.failed path = false) :
    ∀ {originalDir : List Char} {names : List N} {name : N} (node : Node N (Option UInt64)),
      collectEntry w search originalDir names name node =
        node.files.filterMap fun found =>
          search.record w originalDir names (name :: found.1, found.2)
  | _, _, name, .file size => by
    have htakes : w.takes search.spec search.recursive [name] =
        filespecMatches w.lowercase search.spec (w.lossy name) := by
      simp [Windows.takes]
    simp only [collectEntry, Node.files, Node.walk, walkedFiles, filterMap_cons, WalkItem.file?,
      filterMap_nil, Search.record, htakes, Windows.spelled, flatMap_singleton]
    split <;> rfl
  | _, _, _, .other => rfl
  | originalDir, names, name, .folder entries => by
    rw [collectEntry, collectMatching_eq hcalls entries]
    -- the files below have at least one name, so that the depth is no matter
    have hrec : ∀ found ∈ (Node.folder entries).files,
        search.record w originalDir names (name :: found.1, found.2) =
          if search.recursive then
            search.record w (trimEndSlashes originalDir ++ '\\' :: w.lossy name) (names ++ [name])
              found
          else none := by
      intro found hfound
      obtain ⟨first, -, later, hbelow⟩ := Entries.exists_name_of_walk hfound
      have hsome : found.1 ≠ [] := hbelow ▸ cons_ne_nil _ _
      rw [Search.record, Search.record, Windows.takes_cons w hsome, w.spelled_cons,
        append_assoc, singleton_append]
      cases search.recursive <;> rfl
    rw [filterMap_congr hrec]
    split
    · rfl
    · exact (filterMap_eq_nil_iff.mpr fun _ _ => rfl).symm

theorem collectMatching_eq (hcalls : ∀ path, w.failed path = false) :
    ∀ {originalDir : List Char} {names : List N} (entries : Entries N (Option UInt64)),
      collectMatching w search originalDir names entries =
        (walkedFiles (entries.walk fun _ => none)).filterMap
          (search.record w originalDir names)
  | _, _, .nil => rfl
  | _, _, .cons name node rest => by
    rw [collectMatching, hcalls, if_neg Bool.false_ne_true, collectEntry_eq hcalls node,
      collectMatching_eq hcalls rest, Entries.walk, walkedFiles_append, walkedFiles_under,
      filterMap_append, filterMap_map]
    rfl

end

theorem mem_collectMatching (hcalls : ∀ path, w.failed path = false) {originalDir : List Char}
    {entries : Entries N (Option UInt64)} {file : CapturedFile N} :
    file ∈ collectMatching w search originalDir [] entries ↔
      ∃ below size, (below, size) ∈ walkedFiles (entries.walk fun _ => none) ∧
        w.takes search.spec search.recursive below = true ∧
        search.file (w.spelled originalDir below) below size = file := by
  rw [collectMatching_eq hcalls, mem_filterMap]
  simp [Search.record]

end Collect

section Resolve

variable {N κ G : Type} [DecidableEq κ] [DecidableEq G] (w : Windows N κ)

/-- The directory that a path below a device leads to, with its path as it is on the disk. -/
def Windows.opened (device rel : List Char) : Option (List N × Entries N (Option UInt64)) :=
  (components rel).bind fun names => (w.tree device).descend w.nameKey (names.map w.textKey)

variable (shadowRoots : List Char → Option (List Char))

/-- Where a descriptor leads: the device of its volume and the path below it, or nothing if
the volume has no shadow copy. -/
def shadowDir (d : FileDescriptor G) : Except String (Option (List Char × List Char)) :=
  match w.volumeOf d.directory with
  | .error e => .error e
  | .ok vol =>
    match shadowRoots (vol.map Char.toLower) with
    | none => .ok none
    | some device =>
      match dropBytes (utf8Len vol) d.directory with
      | none => .error "byte index is out of bounds or not a char boundary"
      | some tail => .ok (some (device, trimStartSlashes tail))

/-- The name of a writer, empty if it has none. -/
def writerOf (names : List (G × String)) (id : G) : String :=
  ((names.find? fun entry => entry.1 = id).map Prod.snd).getD ""

def FileDescriptor.search (d : FileDescriptor G) (names : List (G × String))
    (device rel : List Char) : Search :=
  ⟨device, rel, d.spec, d.recursive, writerOf names d.writerId⟩

def collectDescriptor (names : List (G × String)) (d : FileDescriptor G) :
    Except String (List (CapturedFile N)) :=
  match shadowDir w shadowRoots d with
  | .error e => .error e
  | .ok none => .ok []
  | .ok (some (device, rel)) =>
    match w.opened device rel with
    | none => .ok []
    | some (_, entries) =>
      if w.failed ⟨device, rel, []⟩ then .ok []
      else .ok (collectMatching w (d.search names device rel) d.directory [] entries)

/-- A file is left out if one before it has its archive name (`entry(..).or_insert(..)`). -/
def sameArchiveName (file earlier : CapturedFile N) : Bool :=
  file.archiveName = earlier.archiveName

def collectAll (names : List (G × String)) :
    List (FileDescriptor G) → Except String (List (CapturedFile N))
  | [] => .ok []
  | d :: rest =>
    match collectDescriptor w shadowRoots names d with
    | .error e => .error e
    | .ok files => (collectAll names rest).map (files ++ ·)

/-- `resolve_files`: of each archive name the file found first, in the order of the names. -/
def resolveFiles (descriptors : List (FileDescriptor G)) (names : List (G × String)) :
    Except String (List (CapturedFile N)) :=
  (collectAll w shadowRoots names descriptors).map fun collected =>
    dedupBy sameArchiveName (sortByKey CapturedFile.archiveName collected)

/-! ### What is to be found -/

/-- The device and the path of a file on the disk. -/
abbrev Place (N : Type) : Type := List Char × List N

def Windows.place (path : ShadowPath N) : Option (Place N) :=
  (w.opened path.device path.rel).map fun found => (path.device, found.1 ++ path.names)

/-- The descriptor matches the file at the place, which is at these names below its
directory. -/
inductive FileDescriptor.Finds (d : FileDescriptor G) (below : List N) (place : Place N) : Prop
  | intro {device rel : List Char} {path : List N} {entries : Entries N (Option UInt64)}
      {size : Option UInt64} (hdir : shadowDir w shadowRoots d = .ok (some (device, rel)))
      (hopened : w.opened device rel = some (path, entries))
      (hfile : (below, size) ∈ walkedFiles (entries.walk fun _ => none))
      (htakes : w.takes d.spec d.recursive below = true) (hplace : place = (device, path ++ below))

def FileDescriptor.Matches (d : FileDescriptor G) (place : Place N) : Prop :=
  ∃ below, d.Finds w shadowRoots below place

/-- Descriptors that match a file spell its path alike, in the case of the letters too. -/
def SpelledAlike (descriptors : List (FileDescriptor G)) : Prop :=
  ∀ d ∈ descriptors, ∀ e ∈ descriptors, ∀ below below' place,
    d.Finds w shadowRoots below place → e.Finds w shadowRoots below' place →
    w.spelled d.directory below = w.spelled e.directory below'

/-- A path that begins with a drive letter, which is its volume. -/
def Windows.DrivePath (directory : List Char) : Prop :=
  ∃ letter rest, directory = letter :: ':' :: '\\' :: rest ∧ letter.isAlpha = true ∧
    ':' ∉ rest ∧ '/' ∉ rest ∧ w.volumeOf directory = .ok [letter, ':', '\\']

/-- The descriptor spells its directory as the disk has it, behind the text for the drive. -/
def FileDescriptor.AsStored (drive : List Char → List Char) (d : FileDescriptor G) : Prop :=
  ∀ device rel path entries, shadowDir w shadowRoots d = .ok (some (device, rel)) →
    w.opened device rel = some (path, entries) →
    trimEndSlashes d.directory = drive device ++ path.flatMap fun name => '\\' :: w.lossy name

/-- No name loses anything when it is read as text. -/
def Windows.NamesUnicode : Prop :=
  ∀ name, w.textKey (w.lossy name) = w.nameKey name

variable {w shadowRoots}

omit [DecidableEq G] in
/-- Descriptors that spell their directories as the disk has them spell every file alike. -/
theorem spelledAlike_of_asStored {descriptors : List (FileDescriptor G)}
    {drive : List Char → List Char} (hstored : ∀ d ∈ descriptors, d.AsStored w shadowRoots drive) :
    SpelledAlike w shadowRoots descriptors := by
  have hspell : ∀ d ∈ descriptors, ∀ below place, d.Finds w shadowRoots below place →
      w.spelled d.directory below =
        drive place.1 ++ place.2.flatMap fun name => '\\' :: w.lossy name := by
    rintro d hd below place ⟨hdir, hopen, -, -, rfl⟩
    rw [Windows.spelled, hstored d hd _ _ _ _ hdir hopen, flatMap_append, append_assoc]
  intro d hd e he below below' place hfinds hfinds'
  rw [hspell d hd below place hfinds, hspell e he below' place hfinds']

/-- The file that is recorded for a match. -/
structure FileDescriptor.Records (w : Windows N κ) (d : FileDescriptor G) (below : List N)
    (place : Place N) (file : CapturedFile N) : Prop where
  archiveName : file.archiveName = archiveNameOf (w.spelled d.directory below)
  place : w.place file.shadowPath = some place

theorem place_file {device rel : List Char} {path below : List N}
    {entries : Entries N (Option UInt64)} {search : Search}
    (hopen : w.opened device rel = some (path, entries)) (hdev : search.device = device)
    (hrel : search.rel = rel) (originalPath : List Char) (size : Option UInt64) :
    w.place (search.file originalPath below size).shadowPath = some (device, path ++ below) := by
  rw [Search.file, Windows.place, hdev, hrel, hopen]
  rfl

section Collected

variable {names : List (G × String)} {d : FileDescriptor G} {file : CapturedFile N}
  {files : List (CapturedFile N)} {below : List N} {place : Place N}

theorem exists_finds_of_mem (hcalls : ∀ path, w.failed path = false)
    (h : collectDescriptor w shadowRoots names d = .ok files) (hfile : file ∈ files) :
    ∃ below place, d.Finds w shadowRoots below place ∧ d.Records w below place file := by
  rw [collectDescriptor] at h
  split at h
  case h_1 => cases h
  case h_2 =>
    cases h
    cases hfile
  case h_3 device rel hdir =>
    split at h
    case h_1 =>
      cases h
      cases hfile
    case h_2 path entries hopen =>
      rw [hcalls, if_neg Bool.false_ne_true] at h
      cases h
      obtain ⟨below, size, hbelow, htakes, rfl⟩ := (mem_collectMatching hcalls).mp hfile
      exact ⟨below, _, .intro hdir hopen hbelow htakes rfl, rfl, place_file hopen rfl rfl _ size⟩

theorem exists_mem_of_finds (hcalls : ∀ path, w.failed path = false)
    (h : collectDescriptor w shadowRoots names d = .ok files)
    (hfinds : d.Finds w shadowRoots below place) :
    ∃ file ∈ files, d.Records w below place file := by
  obtain @⟨device, rel, path, entries, size, hdir, hopen, hfile, htakes, rfl⟩ := hfinds
  simp only [collectDescriptor, hdir, hopen, hcalls, if_neg Bool.false_ne_true] at h
  cases h
  refine ⟨_, (mem_collectMatching hcalls).mpr ⟨below, size, hfile, htakes, rfl⟩, rfl, ?_⟩
  exact place_file hopen rfl rfl _ size

theorem mem_collectAll {descriptors : List (FileDescriptor G)}
    (h : collectAll w shadowRoots names descriptors = .ok files) :
    (∀ file ∈ files, ∃ d ∈ descriptors, ∃ added,
      collectDescriptor w shadowRoots names d = .ok added ∧ file ∈ added) ∧
    ∀ d ∈ descriptors, ∃ added,
      collectDescriptor w shadowRoots names d = .ok added ∧ added ⊆ files := by
  induction descriptors generalizing files with
  | nil =>
    cases h
    exact ⟨nofun, nofun⟩
  | cons first rest ih =>
    rw [collectAll] at h
    split at h
    case h_1 => cases h
    case h_2 added hadded =>
      cases hrest : collectAll w shadowRoots names rest with
      | error =>
        rw [hrest] at h
        cases h
      | ok =>
        rw [hrest] at h
        cases h
        obtain ⟨hfrom, hto⟩ := ih hrest
        constructor
        · intro file hfile
          rcases mem_append.mp hfile with hhere | hlater
          · exact ⟨first, mem_cons_self, added, hadded, hhere⟩
          · obtain ⟨d, hd, added', hadded', hmem⟩ := hfrom file hlater
            exact ⟨d, mem_cons_of_mem _ hd, added', hadded', hmem⟩
        · intro d hd
          rcases mem_cons.mp hd with rfl | hlater
          · exact ⟨added, hadded, subset_append_left _ _⟩
          · obtain ⟨added', hadded', hsub⟩ := hto d hlater
            exact ⟨added', hadded', subset_append_of_subset_right _ hsub⟩

end Collected

/-! ### Paths on a drive -/

theorem dropBytes_append (left right : List Char) :
    dropBytes (utf8Len left) (left ++ right) = some right := by
  induction left with
  | nil => rw [utf8Len, map_nil, sum_nil, nil_append, dropBytes]
  | cons c rest ih =>
    obtain ⟨size, hsize⟩ := Nat.exists_eq_add_one_of_ne_zero (Nat.ne_of_gt c.utf8Size_pos)
    have hlen : utf8Len (c :: rest) = (size + utf8Len rest) + 1 := by
      rw [utf8Len, map_cons, sum_cons, hsize, utf8Len]
      omega
    have hdrop : size + utf8Len rest + 1 - c.utf8Size = utf8Len rest := by omega
    rw [hlen, cons_append, dropBytes, if_pos (by omega), hdrop, ih]

theorem nonemptyParts_dropLastSlash (rel : List Char) :
    nonemptyParts '\\' (dropLastSlash rel) = nonemptyParts '\\' rel := by
  rw [dropLastSlash]
  split
  case isTrue hlast =>
    have happ := @nonemptyParts_append _ _ '\\' rel.dropLast []
    rw [dropLast_append_getLast? _ hlast, nonemptyParts_nil, append_nil] at happ
    exact happ.symm
  case isFalse => rfl

theorem nonemptyParts_of_components {rel : List Char} {parts : List (List Char)}
    (h : components rel = some parts) : nonemptyParts '\\' rel = parts := by
  rw [components] at h
  split at h
  case isTrue hempty =>
    cases h
    rw [hempty, nonemptyParts_nil]
  case isFalse =>
    split at h
    case isTrue => cases h
    case isFalse hparts =>
      cases h
      rw [← nonemptyParts_dropLastSlash, nonemptyParts_eq_splitOn hparts]

/-- What an archive name has for a character of a path. -/
def slashed (c : Char) : Char := if c = '\\' then '/' else c

theorem archiveNameOf_drive {letter : Char} {tail : List Char} (hlet : letter.isAlpha = true)
    (htail : ':' ∉ tail) : archiveNameOf (letter :: ':' :: tail) = letter :: tail.map slashed := by
  have hcolon : letter ≠ ':' := fun heq => absurd (heq ▸ hlet) (by decide)
  have hslash : letter ≠ '\\' := fun heq => absurd (heq ▸ hlet) (by decide)
  have hfilt : tail.filter (· ≠ ':') = tail :=
    filter_eq_self.mpr fun c hc => decide_eq_true fun heq => htail (heq ▸ hc)
  rw [archiveNameOf, filter_cons_of_pos (by simp [hcolon]), filter_cons_of_neg (by simp),
    hfilt, map_cons, if_neg hslash]
  rfl

theorem map_slashed_inj {left right : List Char} (hleft : '/' ∉ left) (hright : '/' ∉ right)
    (h : left.map slashed = right.map slashed) : left = right := by
  have hback : ∀ text : List Char, '/' ∉ text →
      text.map (fun c => if slashed c = '/' then '\\' else slashed c) = text := by
    intro text htext
    refine (map_congr_left fun c hc => ?_).trans (map_id text)
    have hne : c ≠ '/' := fun heq => htext (heq ▸ hc)
    rw [slashed]
    split <;> simp_all
  have hboth := congrArg (map fun c => if c = '/' then '\\' else c) h
  rw [map_map, map_map] at hboth
  rw [← hback left hleft, ← hback right hright]
  exact hboth

/-- What stands behind the colon in the path of a file on a drive. -/
def Windows.behindColon (w : Windows N κ) (rest : List Char) (below : List N) : List Char :=
  trimEndSlashes ('\\' :: rest) ++ (below.map w.lossy).flatMap ('\\' :: ·)

section BehindColon

omit [DecidableEq κ]

variable {rest : List Char} {below : List N}

theorem Windows.spelled_drive (letter : Char) :
    w.spelled (letter :: ':' :: '\\' :: rest) below =
      letter :: ':' :: w.behindColon rest below := by
  have htrim : trimEndSlashes (letter :: ':' :: '\\' :: rest) =
      letter :: ':' :: trimEndSlashes ('\\' :: rest) :=
    trimEndSlashes_append (by decide) [letter] ('\\' :: rest)
  rw [spelled, htrim, behindColon, flatMap_map]
  rfl

theorem Windows.not_mem_behindColon {c : Char} (hc : c ≠ '\\') (hrest : c ∉ rest)
    (hnames : ∀ name, c ∉ w.lossy name) : c ∉ w.behindColon rest below := by
  intro hmem
  rcases mem_append.mp hmem with habove | hbelow
  · have hstart : c ∈ '\\' :: rest := ( rdropWhile_prefix _ _).subset habove
    exact (mem_cons.mp hstart).elim hc hrest
  · obtain ⟨part, hpart, hin⟩ := mem_flatMap.mp hbelow
    obtain ⟨name, -, rfl⟩ := mem_map.mp hpart
    exact (mem_cons.mp hin).elim hc (hnames name)

theorem Windows.nonemptyParts_behindColon {parts : List (List Char)}
    (hparts : components (trimStartSlashes rest) = some parts) :
    nonemptyParts '\\' (w.behindColon rest below) = parts ++ below.map w.lossy := by
  have hnames : ∀ part ∈ below.map w.lossy, part ≠ [] ∧ '\\' ∉ part := by
    intro part hpart
    obtain ⟨name, -, rfl⟩ := mem_map.mp hpart
    exact ⟨w.lossy_ne_nil name, (w.not_mem_lossy name).1⟩
  have hrest : nonemptyParts '\\' (trimEndSlashes ('\\' :: rest)) = parts := by
    rw [trimEndSlashes, nonemptyParts_rdropWhile, nonemptyParts_cons_self,
      ← nonemptyParts_of_components hparts, trimStartSlashes, nonemptyParts_dropWhile]
  rw [behindColon, nonemptyParts_append_flatMap hnames, hrest]

omit [DecidableEq G] in
theorem shadowDir_drive {d : FileDescriptor G} {letter : Char} {device rel : List Char}
    (hdir : d.directory = letter :: ':' :: '\\' :: rest)
    (hvolume : w.volumeOf d.directory = .ok [letter, ':', '\\'])
    (h : shadowDir w shadowRoots d = .ok (some (device, rel))) :
    shadowRoots ([letter, ':', '\\'].map Char.toLower) = some device ∧
      rel = trimStartSlashes rest := by
  have hdrop : dropBytes (utf8Len [letter, ':', '\\']) d.directory = some rest := by
    rw [hdir]
    exact dropBytes_append [letter, ':', '\\'] rest
  rw [shadowDir, hvolume] at h
  simp only [hdrop] at h
  split at h
  case h_1 => cases h
  case h_2 device' hdev =>
    cases h
    exact ⟨hdev, rfl⟩

end BehindColon

/-- What the path of a match says where its directory is on a drive. -/
structure Spelling (w : Windows N κ) (shadowRoots : List Char → Option (List Char))
    (place : Place N) (letter : Char) (tail : List Char) : Prop where
  letter_alpha : letter.isAlpha = true
  colon : ':' ∉ tail
  slash : '/' ∉ tail
  device : shadowRoots ([letter, ':', '\\'].map Char.toLower) = some place.1
  keys : (nonemptyParts '\\' tail).map w.textKey = place.2.map w.nameKey
  file : ∃ size, (place.2, size) ∈ walkedFiles ((w.tree place.1).walk fun _ => none)

section Drive

omit [DecidableEq G]

variable {d e : FileDescriptor G} {below below' : List N} {place place' : Place N}

theorem FileDescriptor.Finds.spelling (hunicode : w.NamesUnicode)
    (hdrive : w.DrivePath d.directory) (hfinds : d.Finds w shadowRoots below place) :
    ∃ letter tail, w.spelled d.directory below = letter :: ':' :: tail ∧
      Spelling w shadowRoots place letter tail := by
  obtain ⟨letter, rest, hdirectory, hlet, hcolon, hslash, hvolume⟩ := hdrive
  obtain @⟨device, rel, path, entries, size, hdir, hopen, hfile, htakes, rfl⟩ := hfinds
  obtain ⟨hdev, rfl⟩ := shadowDir_drive hdirectory hvolume hdir
  obtain ⟨parts, hparts, hdescend⟩ := Option.bind_eq_some_iff.mp hopen
  obtain ⟨hkeys, hfiles⟩ := Entries.descend_spec hdescend
  refine ⟨letter, w.behindColon rest below, hdirectory ▸ w.spelled_drive letter, hlet, ?_, ?_,
    hdev, ?_, size, hfiles below size hfile⟩
  · exact Windows.not_mem_behindColon (by decide) hcolon fun name => (w.not_mem_lossy name).2.2
  · exact Windows.not_mem_behindColon (by decide) hslash fun name => (w.not_mem_lossy name).2.1
  · have hbelow : (below.map w.lossy).map w.textKey = below.map w.nameKey := by
      rw [map_map]
      exact map_congr_left fun name _ => hunicode name
    rw [Windows.nonemptyParts_behindColon hparts, map_append, map_append, hbelow, hkeys]

theorem eq_of_archiveName_eq (hunicode : w.NamesUnicode) (hd : w.DrivePath d.directory)
    (he : w.DrivePath e.directory) (hfinds : d.Finds w shadowRoots below place)
    (hfinds' : e.Finds w shadowRoots below' place')
    (hname : archiveNameOf (w.spelled d.directory below) =
      archiveNameOf (w.spelled e.directory below')) :
    w.spelled d.directory below = w.spelled e.directory below' ∧ place = place' := by
  obtain ⟨letter, tail, hspell, hspelling⟩ := hfinds.spelling hunicode hd
  obtain ⟨letter', tail', hspell', hspelling'⟩ := hfinds'.spelling hunicode he
  rw [hspell, hspell', archiveNameOf_drive hspelling.letter_alpha hspelling.colon,
    archiveNameOf_drive hspelling'.letter_alpha hspelling'.colon] at hname
  obtain ⟨rfl, htails⟩ := cons.inj hname
  obtain rfl := map_slashed_inj hspelling.slash hspelling'.slash htails
  refine ⟨hspell.trans hspell'.symm, ?_⟩
  obtain ⟨device, path⟩ := place
  obtain ⟨device', path'⟩ := place'
  obtain rfl : device = device' := Option.some.inj (hspelling.device.symm.trans hspelling'.device)
  obtain ⟨size, hfile⟩ := hspelling.file
  obtain ⟨size', hfile'⟩ := hspelling'.file
  have hsame := Entries.eq_of_keys_eq (w.tree_apart device).1 (w.tree_apart device).2 hfile hfile'
    (hspelling.keys.symm.trans hspelling'.keys)
  exact Prod.ext rfl (Prod.mk.inj hsame).1

end Drive

section Resolved

variable {names : List (G × String)} {descriptors : List (FileDescriptor G)}
  {files : List (CapturedFile N)}

/-- What is left of the files collected: each is a match, every match is recorded, and no
two have the same archive name. -/
theorem resolveFiles_spec (hcalls : ∀ path, w.failed path = false)
    (h : resolveFiles w shadowRoots descriptors names = .ok files) :
    (files.Pairwise fun left right => left.archiveName < right.archiveName) ∧
    (∀ file ∈ files, ∃ d ∈ descriptors, ∃ below place,
      d.Finds w shadowRoots below place ∧ d.Records w below place file) ∧
    ∀ d ∈ descriptors, ∀ below place, d.Finds w shadowRoots below place →
      ∃ file ∈ files, file.archiveName = archiveNameOf (w.spelled d.directory below) := by
  cases hall : collectAll w shadowRoots names descriptors with
  | error =>
    rw [resolveFiles, hall] at h
    cases h
  | ok collected =>
    rw [resolveFiles, hall] at h
    cases h
    have hsame : ∀ file other : CapturedFile N,
        sameArchiveName file other = true ↔ file.archiveName = other.archiveName :=
      fun _ _ => decide_eq_true_iff
    obtain ⟨hrising, hmem⟩ :=
      @dedupBy_sortByKey _ _ _ CapturedFile.archiveName collected sameArchiveName hsame
    obtain ⟨hfrom, hto⟩ := mem_collectAll hall
    refine ⟨hrising, ?_, ?_⟩
    · intro file hfile
      have hcollected := mem_of_find?_eq_some ((hmem file).mp hfile)
      obtain ⟨d, hd, added, hadded, hin⟩ := hfrom file hcollected
      exact ⟨d, hd, exists_finds_of_mem hcalls hadded hin⟩
    · intro d hd below place hfinds
      obtain ⟨added, hadded, hsub⟩ := hto d hd
      obtain ⟨file, hfile, hrecs⟩ := exists_mem_of_finds hcalls hadded hfinds
      -- the first with this archive name is the one that is kept
      have hsome : (collected.find? (sameArchiveName · file)).isSome = true :=
        find?_isSome.mpr ⟨file, hsub hfile, (hsame file file).mpr rfl⟩
      obtain ⟨kept, hkept⟩ := Option.isSome_iff_exists.mp hsome
      have hfirst := find?_some hkept
      have hname := (hsame kept file).mp hfirst
      refine ⟨kept, (hmem kept).mpr ?_, hname.trans hrecs.archiveName⟩
      rw [← hkept]
      refine congrArg (find? · collected) (funext fun other => ?_)
      rw [sameArchiveName, sameArchiveName, hname]

theorem exists_file_of_finds (hunicode : w.NamesUnicode) (hcalls : ∀ path, w.failed path = false)
    (hdrive : ∀ d ∈ descriptors, w.DrivePath d.directory)
    (h : resolveFiles w shadowRoots descriptors names = .ok files) {d : FileDescriptor G}
    (hd : d ∈ descriptors) {below : List N} {place : Place N}
    (hfinds : d.Finds w shadowRoots below place) :
    ∃ file ∈ files, file.archiveName = archiveNameOf (w.spelled d.directory below) ∧
      w.place file.shadowPath = some place := by
  obtain ⟨-, hfrom, hto⟩ := resolveFiles_spec hcalls h
  obtain ⟨file, hfile, hname⟩ := hto d hd below place hfinds
  obtain ⟨e, he, below', place', hfinds', hrecs⟩ := hfrom file hfile
  obtain ⟨-, rfl⟩ := eq_of_archiveName_eq hunicode (hdrive d hd) (hdrive e he) hfinds hfinds'
    (hname.symm.trans hrecs.archiveName)
  exact ⟨file, hfile, hname, hrecs.place⟩

variable [DecidableEq N]

def Windows.isAt (w : Windows N κ) (place : Place N) (file : CapturedFile N) : Bool :=
  w.place file.shadowPath = some place

def Windows.copies (w : Windows N κ) (files : List (CapturedFile N)) (place : Place N) : Nat :=
  files.countP (w.isAt place)

section Copies

omit [DecidableEq G]

variable {place : Place N}

variable {file : CapturedFile N}

theorem Windows.mem_filter_isAt :
    file ∈ files.filter (w.isAt place) ↔ file ∈ files ∧ w.place file.shadowPath = some place := by
  rw [mem_filter, isAt, decide_eq_true_iff]

theorem Windows.eq_of_copies_eq_one (hcops : w.copies files place = 1) {left right : CapturedFile N}
    (hleft : left ∈ files) (hright : right ∈ files) (hplace : w.place left.shadowPath = some place)
    (hplace' : w.place right.shadowPath = some place) : left = right := by
  rw [copies, countP_eq_length_filter, length_eq_one_iff] at hcops
  obtain ⟨only, honly⟩ := hcops
  have hin := mem_filter_isAt.mpr ⟨hleft, hplace⟩
  have hin' := mem_filter_isAt.mpr ⟨hright, hplace'⟩
  rw [honly, mem_singleton] at hin hin'
  rw [hin, hin']

theorem Windows.copies_eq_one (hfile : file ∈ files) (hplace : w.place file.shadowPath = some place)
    (hrising : files.Pairwise fun left right => left.archiveName < right.archiveName)
    (hnames : ∀ left ∈ files, ∀ right ∈ files, w.place left.shadowPath = some place →
      w.place right.shadowPath = some place → left.archiveName = right.archiveName) :
    w.copies files place = 1 := by
  have hin := mem_filter_isAt.mpr ⟨hfile, hplace⟩
  rw [copies, countP_eq_length_filter]
  match hfilt : files.filter (w.isAt place) with
  | [] =>
    rw [hfilt] at hin
    cases hin
  | [_] => rfl
  | first :: second :: later =>
    -- the two would have one name, but the names rise
    have hpairs := hrising.filter (w.isAt place)
    rw [hfilt] at hpairs
    have hlt := rel_of_pairwise_cons hpairs mem_cons_self
    obtain ⟨hfirst, hat⟩ := mem_filter_isAt.mp (hfilt ▸ mem_cons_self)
    obtain ⟨hsnd, hat'⟩ := mem_filter_isAt.mp (hfilt ▸ mem_cons_of_mem _ mem_cons_self)
    exact absurd (hnames first hfirst second hsnd hat hat') (ne_of_lt hlt)

end Copies

/-- On drives, where no call fails, every file that a descriptor matches is captured.  It is
captured once if and only if the descriptors that match it spell its path alike. -/
theorem resolveFiles_once_iff (hunicode : w.NamesUnicode)
    (hcalls : ∀ path, w.failed path = false)
    (hdrive : ∀ d ∈ descriptors, w.DrivePath d.directory)
    (h : resolveFiles w shadowRoots descriptors names = .ok files) :
    (∀ d ∈ descriptors, ∀ place, d.Matches w shadowRoots place → 1 ≤ w.copies files place) ∧
    ((∀ d ∈ descriptors, ∀ place, d.Matches w shadowRoots place → w.copies files place = 1) ↔
      SpelledAlike w shadowRoots descriptors) := by
  have hfound := fun {d} hd {below place} hfinds =>
    @exists_file_of_finds _ _ _ _ _ _ _ _ _ _ hunicode hcalls hdrive h d hd below place hfinds
  obtain ⟨hrising, hfrom, -⟩ := resolveFiles_spec hcalls h
  refine ⟨?_, ?_, ?_⟩
  · rintro d hd place ⟨below, hfinds⟩
    obtain ⟨file, hfile, -, hplace⟩ := hfound hd hfinds
    exact countP_pos_iff.mpr ⟨file, hfile, decide_eq_true hplace⟩
  · intro honce d hd e he below below' place hfinds hfinds'
    obtain ⟨file, hfile, hname, hplace⟩ := hfound hd hfinds
    obtain ⟨other, hother, hname', hplace'⟩ := hfound he hfinds'
    obtain rfl := Windows.eq_of_copies_eq_one (honce d hd place ⟨below, hfinds⟩) hfile hother
      hplace hplace'
    exact (eq_of_archiveName_eq hunicode (hdrive d hd) (hdrive e he) hfinds hfinds'
      (hname.symm.trans hname')).1
  · rintro halike d hd place ⟨below, hfinds⟩
    obtain ⟨file, hfile, -, hplace⟩ := hfound hd hfinds
    refine Windows.copies_eq_one hfile hplace hrising fun left hleft right hright hat hat' => ?_
    obtain ⟨e, he, below₁, place₁, hfinds₁, hrecords₁⟩ := hfrom left hleft
    obtain ⟨e', he', below₂, place₂, hfinds₂, hrecords₂⟩ := hfrom right hright
    obtain rfl := Option.some.inj (hrecords₁.place.symm.trans hat)
    obtain rfl := Option.some.inj (hrecords₂.place.symm.trans hat')
    rw [hrecords₁.archiveName, hrecords₂.archiveName,
      halike e he e' he' below₁ below₂ _ hfinds₁ hfinds₂]

end Resolved

end Resolve

/-! ### One file under two names -/

inductive SampleName
  | ntds
  | database
  deriving DecidableEq

def SampleName.text : SampleName → List Char
  | ntds => ['N', 'T', 'D', 'S']
  | database => ['d', 'i', 't']

/-- A machine with the file `C:\NTDS\dit`. -/
def sampleWindows : Windows SampleName (List Char) where
  lossy := SampleName.text
  nameKey name := name.text.map Char.toLower
  textKey text := text.map Char.toLower
  lowercase text := text.map Char.toLower
  volumeOf directory := .ok (directory.take 3)
  tree _ := .cons .ntds (.folder (.cons .database (.file none) .nil)) .nil
  failed _ := false
  lossy_ne_nil name := by cases name <;> decide
  lossy_plain name := by cases name <;> simp [SampleName.text]
  tree_apart _ := by simp [Node.KeysApart, Entries.KeysApart, Entries.names]

def sampleRoots (vol : List Char) : Option (List Char) :=
  if vol = ['c', ':', '\\'] then some ['s', 'h', 'a', 'd', 'o', 'w'] else none

def samplePlace : Place SampleName := (['s', 'h', 'a', 'd', 'o', 'w'], [.ntds, .database])

/-- All files in a directory of the drive, or below it. -/
def sampleDescriptor (rel : List Char) (recursive : Bool) : FileDescriptor Unit :=
  ⟨(), 'C' :: ':' :: '\\' :: rel, ['*'], recursive⟩

/-- The directory as the disk has it, and in small letters. -/
def storedDescriptor : FileDescriptor Unit := sampleDescriptor ['N', 'T', 'D', 'S'] false

def smallDescriptor : FileDescriptor Unit := sampleDescriptor ['n', 't', 'd', 's'] false

theorem sampleWindows_takes {below : List SampleName} {recursive : Bool}
    (hdepth : (recursive || below.length == 1) = true) (hlast : below.getLast? = some .database) :
    sampleWindows.takes ['*'] recursive below = true := by
  have hstar : GlobMatches [GlobToken.run] ['d', 'i', 't'] := .run ['d', 'i', 't'] .nil
  have hmatches : filespecMatches sampleWindows.lowercase ['*'] ['d', 'i', 't'] = true :=
    (GlobCursor.run_eq_true_iff (by decide) .start).mpr hstar
  rw [Windows.takes, hdepth, hlast]
  exact hmatches

theorem storedDescriptor_finds :
    storedDescriptor.Finds sampleWindows sampleRoots [.database] samplePlace :=
  .intro rfl rfl mem_cons_self (sampleWindows_takes rfl rfl) rfl

theorem smallDescriptor_finds :
    smallDescriptor.Finds sampleWindows sampleRoots [.database] samplePlace :=
  .intro rfl rfl mem_cons_self (sampleWindows_takes rfl rfl) rfl

theorem sampleDescriptor_drivePath {rel : List Char} (recursive : Bool) (hcolon : ':' ∉ rel)
    (hslash : '/' ∉ rel) :
    sampleWindows.DrivePath (sampleDescriptor rel recursive).directory :=
  ⟨'C', rel, rfl, by decide, hcolon, hslash, rfl⟩

/-- Two descriptors that spell a directory in different cases do not yield its file once. -/
theorem respelled_file_not_once :
    ∃ files, resolveFiles sampleWindows sampleRoots [storedDescriptor, smallDescriptor] [] =
        .ok files ∧
      storedDescriptor.Matches sampleWindows sampleRoots samplePlace ∧
      smallDescriptor.Matches sampleWindows sampleRoots samplePlace ∧
      1 < sampleWindows.copies files samplePlace := by
  have hdrive : ∀ d ∈ [storedDescriptor, smallDescriptor],
      sampleWindows.DrivePath d.directory := by
    simp only [forall_mem_cons]
    exact ⟨sampleDescriptor_drivePath _ (by decide) (by decide),
      sampleDescriptor_drivePath _ (by decide) (by decide), nofun⟩
  refine ⟨_, rfl, ⟨_, storedDescriptor_finds⟩, ⟨_, smallDescriptor_finds⟩, ?_⟩
  have hfound := fun {d} hd {below place} => @exists_file_of_finds _ _ _ _ _ sampleWindows
    sampleRoots [] _ _ (fun _ => rfl) (fun _ => rfl) hdrive rfl d hd below place
  obtain ⟨file, hfile, hname, hplace⟩ := hfound (by simp) storedDescriptor_finds
  obtain ⟨other, hother, hname', hplace'⟩ := hfound (by simp) smallDescriptor_finds
  refine Nat.lt_of_le_of_ne (countP_pos_iff.mpr ⟨file, hfile, decide_eq_true hplace⟩) ?_
  intro honce
  obtain rfl := Windows.eq_of_copies_eq_one honce.symm hfile hother hplace hplace'
  exact absurd (hname.symm.trans hname') (by decide)

def driveDescriptor : FileDescriptor Unit := sampleDescriptor [] true

theorem driveDescriptor_matches :
    driveDescriptor.Matches sampleWindows sampleRoots samplePlace :=
  ⟨[.ntds, .database], .intro rfl rfl mem_cons_self (sampleWindows_takes rfl rfl) rfl⟩

/-- Descriptors that overlap, and spell what they share alike, yield the file once. -/
theorem overlapping_file_once :
    ∃ files, resolveFiles sampleWindows sampleRoots [storedDescriptor, driveDescriptor] [] =
        .ok files ∧
      storedDescriptor.Matches sampleWindows sampleRoots samplePlace ∧
      driveDescriptor.Matches sampleWindows sampleRoots samplePlace ∧
      sampleWindows.copies files samplePlace = 1 := by
  have hdrive : ∀ d ∈ [storedDescriptor, driveDescriptor],
      sampleWindows.DrivePath d.directory := by
    simp only [forall_mem_cons]
    exact ⟨sampleDescriptor_drivePath _ (by decide) (by decide),
      sampleDescriptor_drivePath _ (by decide) (by decide), nofun⟩
  have hstored : ∀ d ∈ [storedDescriptor, driveDescriptor],
      d.AsStored sampleWindows sampleRoots fun _ => ['C', ':'] := by
    simp only [forall_mem_cons]
    refine ⟨?_, ?_, nofun⟩ <;>
    · rintro device rel path entries ⟨⟩ ⟨⟩
      rfl
  refine ⟨_, rfl, ⟨_, storedDescriptor_finds⟩, driveDescriptor_matches, ?_⟩
  exact (resolveFiles_once_iff (fun _ => rfl) (fun _ => rfl) hdrive rfl).2.mpr
    (spelledAlike_of_asStored hstored) driveDescriptor (by simp) _ driveDescriptor_matches

end PbsGui.Ad.ResolveFiles
