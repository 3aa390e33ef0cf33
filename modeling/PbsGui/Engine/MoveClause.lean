import PbsGui.Lib.Quoted

/-!
# The files of a renamed restore

A restore under a new name gives each file of the backup a new path (`move_clause` in
`sql/vdi.rs`): the default directory for data or for logs, or else the file's own directory,
and there the target name in front of the file's base name.

Every file is moved under its own logical name.  Two files go to one path exactly if they
go to one directory and have the same base name.
-/

namespace PbsGui.Engine

open Lib List

/-- A file of a backup (`BackupFile`). -/
structure BackupFile where
  logical : List Char
  physical : List Char
  isLog : Bool

def isSeparator (c : Char) : Bool := c = '\\' || c = '/'

def quoteMark : Char := Char.ofNat 0x27

/-- Escape a T-SQL single-quoted string literal. -/
def esc (value : List Char) : List Char := doubleMarks quoteMark value

/-- Keep only filename-safe characters for the target-name prefix. -/
def sanitizeFile (value : List Char) : List Char :=
  value.map fun c => if c.isAlphanum || c = '.' || c = '_' || c = '-' then c else '_'

def baseName (physical : List Char) : List Char := physical.rtakeWhile fun c => !isSeparator c

/-- What stands before the last separator of a path; nothing if there is none. -/
def parentDir (physical : List Char) : List Char :=
  (physical.rdropWhile fun c => !isSeparator c).dropLast

def ensureTrailingSep (dir : List Char) : List Char :=
  if dir = [] ∨ dir.getLast? = some '\\' ∨ dir.getLast? = some '/' then dir else dir ++ ['\\']

section Clause

variable (dataDir logDir target : List Char)

def targetDir (file : BackupFile) : List Char :=
  let chosen := if file.isLog then logDir else dataDir
  ensureTrailingSep (if chosen = [] then parentDir file.physical else chosen)

def newPath (file : BackupFile) : List Char :=
  targetDir dataDir logDir file ++ (sanitizeFile target ++ '_' :: baseName file.physical)

/-- The clauses that relocate each file into the default directory under a
target-prefixed name. -/
def moveClause (files : List BackupFile) : List Char :=
  files.flatMap fun file =>
    ", MOVE N'".toList ++ (esc file.logical ++ quoteMark :: (" TO N'".toList ++
      (esc (newPath dataDir logDir target file) ++ [quoteMark])))

end Clause

/-- The moves of a clause, each as a logical name and a path. -/
def readMovesWithin : Nat → List Char → Option (List (List Char × List Char))
  | _, [] => some []
  | 0, _ :: _ => none
  | fuel + 1, c :: rest => do
    let text ← (c :: rest).dropPrefix? ", MOVE N'".toList
    let (logical, text) ← readQuoted quoteMark text
    let text ← text.dropPrefix? " TO N'".toList
    let (path, text) ← readQuoted quoteMark text
    let moves ← readMovesWithin fuel text
    some ((logical, path) :: moves)

def readMoves (text : List Char) : Option (List (List Char × List Char)) :=
  readMovesWithin text.length text

section Read

variable {dataDir logDir target : List Char}

theorem moveClause_cons (file : BackupFile) (files : List BackupFile) :
    moveClause dataDir logDir target (file :: files) =
      ", MOVE N'".toList ++ (esc file.logical ++ quoteMark :: (" TO N'".toList ++
        (esc (newPath dataDir logDir target file) ++
          quoteMark :: moveClause dataDir logDir target files))) := by
  simp [moveClause]

theorem moveClause_head (files : List BackupFile) :
    (moveClause dataDir logDir target files).head? ≠ some quoteMark := by
  cases files with
  | nil => simp [moveClause]
  | cons =>
    rw [moveClause_cons, show ∀ later, (", MOVE N'".toList ++ later).head? = some ',' from
      fun _ => rfl]
    decide

theorem length_le_moveClause (files : List BackupFile) :
    files.length ≤ (moveClause dataDir logDir target files).length := by
  induction files with
  | nil => exact Nat.zero_le _
  | cons =>
    simp only [moveClause_cons, length_append, length_cons]
    omega

theorem readMovesWithin_moveClause {files : List BackupFile} {fuel : Nat}
    (h : files.length ≤ fuel) :
    readMovesWithin fuel (moveClause dataDir logDir target files) =
      some (files.map fun file => (file.logical, newPath dataDir logDir target file)) := by
  induction files generalizing fuel with
  | nil => cases fuel <;> rfl
  | cons file files ih =>
    obtain ⟨fuel, rfl⟩ : ∃ less, fuel = less + 1 := ⟨fuel - 1, by rw [length_cons] at h; omega⟩
    have hlater := ih (show files.length ≤ fuel by rw [length_cons] at h; omega)
    have hfirst : ", MOVE N'".toList = ',' :: " MOVE N'".toList := by decide
    rw [moveClause_cons, hfirst, cons_append, readMovesWithin, ← cons_append, ← hfirst,
      dropPrefix?_append_of_beq _ (BEq.rfl), esc, esc]
    have hspace : ∀ later, (" TO N'".toList ++ later).head? ≠ some quoteMark := fun later => by
      rw [show (" TO N'".toList ++ later).head? = some ' ' from rfl]
      decide
    simp only [Option.bind_eq_bind, Option.bind_some]
    rw [readQuoted_doubleMarks _ (hspace _)]
    simp only [Option.bind_some]
    rw [dropPrefix?_append_of_beq _ (BEq.rfl)]
    simp only [Option.bind_some]
    rw [readQuoted_doubleMarks _ (moveClause_head files)]
    simp only [Option.bind_some, hlater, map_cons]

end Read

/-- A comparison without case, character by character.  A separator is the variant of
separators only. -/
structure CaseFold where
  fold : Char → Char
  isSeparator_fold : ∀ c, isSeparator (fold c) = isSeparator c

def CaseFold.Same (caseFold : CaseFold) (left right : List Char) : Prop :=
  left.map caseFold.fold = right.map caseFold.fold

section Paths

variable {dir target : List Char} {c : Char}

theorem isSeparator_iff : isSeparator c = true ↔ c = '\\' ∨ c = '/' := by
  simp [isSeparator]

theorem ensureTrailingSep_last (h : (ensureTrailingSep dir).getLast? = some c) :
    isSeparator c = true := by
  unfold ensureTrailingSep at h
  split at h
  case isTrue hdir =>
    rcases hdir with rfl | hlast | hlast
    · cases h
    · rw [hlast] at h
      cases h
      rfl
    · rw [hlast] at h
      cases h
      rfl
  case isFalse =>
    rw [getLast?_append] at h
    cases h
    rfl

theorem isSeparator_of_mem_sanitizeFile (h : c ∈ sanitizeFile target) : isSeparator c = false := by
  obtain ⟨original, -, rfl⟩ := mem_map.mp h
  split
  case isTrue hsafe =>
    refine Bool.eq_false_iff.mpr fun hseparator => ?_
    rcases isSeparator_iff.mp hseparator with rfl | rfl
    · exact absurd hsafe (by decide)
    · exact absurd hsafe (by decide)
  case isFalse => rfl

theorem isSeparator_of_mem_baseName (h : c ∈ baseName dir) : isSeparator c = false := by
  simpa using mem_rtakeWhile_imp h

variable {dataDir logDir : List Char} (caseFold : CaseFold)

/-- Two files go to one path if they go to one directory and have one base name. -/
theorem newPath_same_iff (file other : BackupFile) :
    caseFold.Same (newPath dataDir logDir target file) (newPath dataDir logDir target other) ↔
      caseFold.Same (targetDir dataDir logDir file) (targetDir dataDir logDir other) ∧
        caseFold.Same (baseName file.physical) (baseName other.physical) := by
  have hdir : ∀ (file : BackupFile) (c : Char),
      ((targetDir dataDir logDir file).map caseFold.fold).getLast? = some c →
        (!isSeparator c) = false := by
    intro file c hc
    rw [getLast?_map, Option.map_eq_some_iff] at hc
    obtain ⟨last, hlast, rfl⟩ := hc
    rw [caseFold.isSeparator_fold, ensureTrailingSep_last hlast]
    rfl
  have hname : ∀ (file : BackupFile),
      ∀ c ∈ (sanitizeFile target ++ '_' :: baseName file.physical).map caseFold.fold,
        (!isSeparator c) = true := by
    intro file c hc
    obtain ⟨original, horiginal, rfl⟩ := mem_map.mp hc
    rw [caseFold.isSeparator_fold]
    rcases mem_append.mp horiginal with hsafe | hrest
    · rw [isSeparator_of_mem_sanitizeFile hsafe]
      rfl
    · rcases mem_cons.mp hrest with rfl | hbase
      · rfl
      · rw [isSeparator_of_mem_baseName hbase]
        rfl
  have hpath : ∀ file, (newPath dataDir logDir target file).map caseFold.fold =
      (targetDir dataDir logDir file).map caseFold.fold ++
        (sanitizeFile target ++ '_' :: baseName file.physical).map caseFold.fold :=
    fun _ => map_append
  unfold CaseFold.Same
  rw [hpath, hpath, append_free_inj (hdir file) (hname file) (hdir other) (hname other), map_append,
    map_append, append_cancel_left_eq, map_cons, map_cons, cons.injEq, and_iff_right rfl]

/-- The clause moves each file under its own logical name, and to paths that differ without
case exactly if no two files that go to one directory have the same base name. -/
theorem moveClause_distinct_iff (dataDir logDir target : List Char) (files : List BackupFile) :
    readMoves (moveClause dataDir logDir target files) =
        some (files.map fun file => (file.logical, newPath dataDir logDir target file)) ∧
      (files.Pairwise (fun file other => ¬ caseFold.Same
          (newPath dataDir logDir target file) (newPath dataDir logDir target other)) ↔
        files.Pairwise fun file other =>
          caseFold.Same (targetDir dataDir logDir file) (targetDir dataDir logDir other) →
            ¬ caseFold.Same (baseName file.physical) (baseName other.physical)) := by
  refine ⟨readMovesWithin_moveClause (length_le_moveClause files), ?_⟩
  simp only [newPath_same_iff, not_and]

end Paths

def asciiFold : CaseFold where
  fold := Char.toLower
  isSeparator_fold := by
    intro c
    by_cases hascii : c.toNat < 128
    · have hall : ∀ code < 128,
          isSeparator (Char.ofNat code).toLower = isSeparator (Char.ofNat code) := by decide
      have hcode := hall c.toNat hascii
      rwa [Char.ofNat_toNat] at hcode
    · have hupper : ¬ (c.val ≥ 'A'.val ∧ c.val ≤ 'Z'.val) := fun hrange =>
        hascii (Nat.lt_of_le_of_lt (UInt32.le_iff_toNat_le.mp hrange.2) (by decide))
      have hlower : c.toLower = c := dif_neg hupper
      rw [hlower]

/-- Two data files with one base name, in two directories. -/
def sampleFiles : List BackupFile :=
  [⟨"data1".toList, "C:\\one\\data.ndf".toList, false⟩,
    ⟨"data2".toList, "D:\\two\\data.ndf".toList, false⟩]

/-- Both are moved to one path. -/
theorem sampleFiles_collide :
    sampleFiles.Pairwise (fun file other => ¬ asciiFold.Same file.physical other.physical) ∧
      readMoves (moveClause "E:\\sql".toList "F:\\log".toList "copy".toList sampleFiles) =
        some [("data1".toList, "E:\\sql\\copy_data.ndf".toList),
          ("data2".toList, "E:\\sql\\copy_data.ndf".toList)] := by
  refine ⟨?_, by decide⟩
  unfold CaseFold.Same
  decide

end PbsGui.Engine
