import PbsGui.Engine.ArchiveNames
import PbsGui.Engine.ChangeDetection
import PbsGui.Lib.Transition

/-!
# Runs that are skipped as unchanged

A run of a file job with change detection compares the fingerprint of its sources with
the one that the last successful backup left in the job's state file.  The file says
nothing of where that backup went, nor of the files that it could not read.
-/

namespace PbsGui.Engine

open Lib Relation List

/-- How the write of the state file ends. -/
inductive SaveResult
  | written
  /-- The file could not be opened. -/
  | untouched
  /-- The write stopped after that many bytes. -/
  | cut (length : Fin 32)
  deriving DecidableEq

/-- The last successful fingerprint, if recorded: a file of any other length is none. -/
def load (file : Option Bytes) : Option (FixedBytes 32) :=
  file.bind fun bytes => if h : bytes.length = 32 then some ⟨bytes, h⟩ else none

/-- Record the fingerprint of a successful run. -/
def save (file : Option Bytes) (fingerprint : FixedBytes 32) : SaveResult → Option Bytes
  | .written => some fingerprint.toBytes
  | .untouched => file
  | .cut length => some (fingerprint.toBytes.take length)

theorem load_written (fingerprint : FixedBytes 32) :
    load (some fingerprint.toBytes) = some fingerprint := by
  simp [load]

theorem load_cut (fingerprint : FixedBytes 32) (length : Fin 32) :
    load (some (fingerprint.toBytes.take length)) = none := by
  have hlen : (fingerprint.toBytes.take length).length ≠ 32 := by
    have := length.isLt
    simp
    omega
  simp only [load, Option.bind_some, dif_neg hlen]

/-! ### Runs -/

/-- Path and content of the file that an event archives. -/
def ArchiveEvent.archived {N : Type} (text : N → String) :
    ArchiveEvent N → Option (String × Bytes)
  | .add live _ (.opened _ (.ok (_, data))) => some (slashes (live.text text), data)
  | _ => none

/-- What a run meets. -/
structure RunEnv (N : Type) where
  /-- The file system when the fingerprint is made. -/
  view : FileView N
  /-- Where the sources are read from, and the file system when they are archived. -/
  readRoot : FsPath N → Option (FsPath N)
  access : TreeAccess N StoredFile
  flush : Except AppendError Unit
  /-- Problems of the run that are not about a file. -/
  warnings : List String
  /-- How the session with the server ends. -/
  upload : Except String Unit
  save : SaveResult

/-- A snapshot that a run committed. -/
structure CommittedRun where
  destination : Ipc.JobDestination
  /-- Path and content of the files in its archive. -/
  archived : List (String × Bytes)
  /-- The files of the fingerprint that was recorded, if one was. -/
  recorded : Option (List (String × StoredFile))

/-- A job, its state file and the snapshots of its runs, the latest first. -/
structure FileJobState (N : Type) where
  job : FileJob N
  file : Option Bytes
  runs : List CommittedRun

inductive RunOutcome
  /-- "no changes since last run; skipped" -/
  | skipped
  | backedUp (warning : Bool)
  deriving DecidableEq

section Runs

variable {N : Type} [DecidableEq N] (platform : Platform N)

def archivedFiles (env : RunEnv N) (job : FileJob N) : List (String × Bytes) :=
  (job.sources.flatMap (sourceEvents platform.text (job.patterns platform) env.readRoot
    env.access)).filterMap (ArchiveEvent.archived platform.text)

/-- `do_backup` of a job with a files source. -/
def doFileBackup (env : RunEnv N) (job : FileJob N) : Except String Archive :=
  match job.destination with
  | .folder _ => .error "backing up files to a folder is not supported yet"
  | .pbs _ _ =>
    if job.sources.isEmpty then .error "job has no sources"
    else
      match writeTar platform.text (job.patterns platform) env.readRoot env.access job.sources
          env.flush, env.upload with
      -- the upload stopped first, so the archiver's write failed
      | .error (.write _), .error reason => .error reason
      | .error (.write reason), .ok _ | .error (.read reason), _ =>
        .error ("archiving the sources failed: " ++ reason)
      | .ok _, .error reason => .error reason
      | .ok archive, .ok _ => .ok archive

def committed (state : FileJobState N) (env : RunEnv N)
    (found : Option (List (String × StoredFile))) : FileJobState N :=
  { state with
    file :=
      match found with
      | some found => save state.file (hashFound platform found) env.save
      | none => state.file
    runs := {
      destination := state.job.destination
      archived := archivedFiles platform env state.job
      recorded := if env.save = .written then found else none } :: state.runs }

/-- The files of the fingerprint, with change detection. -/
def detectFiles (env : RunEnv N) (job : FileJob N) :
    Except String (Option (List (String × StoredFile))) :=
  if job.changeDetection then (foundFiles platform env.view job).map some else .ok none

/-- `run_inner`: the outcome, and what it leaves. -/
def runInner (state : FileJobState N) (env : RunEnv N) : Except String RunOutcome × FileJobState N :=
  match detectFiles platform env state.job with
  | .error e => (.error e, state)
  | .ok found =>
    if found.isSome ∧ load state.file = found.map (hashFound platform) then
      (.ok .skipped, state)
    else
      match doFileBackup platform env state.job with
      | .error e => (.error e, state)
      | .ok archive =>
        (.ok (.backedUp (!archive.skipped.isEmpty || !env.warnings.isEmpty)),
          committed platform state env found)

/-- A step of a job's life; the file system may be another at each run. -/
inductive FileJobStep (state : FileJobState N) : FileJobState N → Prop
  | edit {job : FileJob N} : FileJobStep state { state with job := job }
  | run {env : RunEnv N} : FileJobStep state (runInner platform state env).2

abbrev FileJobReaches : FileJobState N → FileJobState N → Prop := ReflTransGen (FileJobStep platform)

end Runs

section Archived

variable {N : Type} {text : N → String} {platform : Platform N}

theorem ArchiveEvent.archived_data (event : ArchiveEvent N) :
    (event.archived text).map Prod.snd = event.stored.map TarEntry.data := by
  cases event with
  | skip => rfl
  | add live name read =>
    cases read with
    | cloudOnly | openFailed => rfl
    | opened size append => cases append <;> rfl

variable [DecidableEq N]

theorem doFileBackup_archived {env : RunEnv N} {job : FileJob N} {archive : Archive}
    (h : doFileBackup platform env job = .ok archive) :
    archive.tar.map TarEntry.data = (archivedFiles platform env job).map Prod.snd := by
  rw [doFileBackup] at h
  split at h
  · cases h
  · split at h
    · cases h
    · split at h
      case h_5 htar _ =>
        cases h
        have htars := (writeTar_ok htar).1.trans filterMap_flatMap.symm
        rw [htars, archivedFiles, map_filterMap, map_filterMap]
        exact filterMap_congr fun event _ => (ArchiveEvent.archived_data event).symm
      all_goals cases h

end Archived

section History

variable {N : Type} [DecidableEq N] {platform : Platform N}

/-- The latest run that recorded a fingerprint, and the files it was made of. -/
def lastRecorded (runs : List CommittedRun) :
    Option (CommittedRun × List (String × StoredFile)) :=
  runs.findSome? fun run => run.recorded.map fun found => (run, found)

theorem lastRecorded_mem {runs : List CommittedRun} {run : CommittedRun}
    {found : List (String × StoredFile)} (h : lastRecorded runs = some (run, found)) :
    run ∈ runs := by
  obtain ⟨other, hmem, hother⟩ := exists_of_findSome?_eq_some h
  obtain ⟨_, -, heq⟩ := Option.map_eq_some_iff.mp hother
  cases heq
  exact hmem

/-- A fingerprint in the state file is that of the latest run that recorded one. -/
def StateFileInv (platform : Platform N) (state : FileJobState N) : Prop :=
  ∀ fingerprint, load state.file = some fingerprint →
    ∃ run found, lastRecorded state.runs = some (run, found) ∧
      fingerprint = hashFound platform found

variable {state : FileJobState N}

theorem StateFileInv.committed (h : StateFileInv platform state) (env : RunEnv N)
    (found : Option (List (String × StoredFile))) :
    StateFileInv platform (committed platform state env found) := by
  intro fingerprint hload
  simp only [Engine.committed, lastRecorded, findSome?_cons] at hload ⊢
  cases found with
  | none =>
    simp only [ite_self, Option.map_none] at hload ⊢
    exact h fingerprint hload
  | some found =>
    cases hsave : env.save with
    | written =>
      simp only [hsave, save, load_written, Option.some.injEq, if_pos, Option.map_some] at hload ⊢
      exact ⟨_, found, rfl, hload.symm⟩
    | untouched =>
      simp only [hsave, save] at hload
      exact h fingerprint hload
    | cut => simp [hsave, save, load_cut] at hload

theorem runInner_state {env : RunEnv N} :
    (runInner platform state env).2 = state ∨
      ∃ found, (runInner platform state env).2 = committed platform state env found := by
  rw [runInner]
  split
  · exact .inl rfl
  · split
    · exact .inl rfl
    · split
      · exact .inl rfl
      · exact .inr ⟨_, rfl⟩

theorem StateFileInv.step {state next : FileJobState N} (h : StateFileInv platform state)
    (hstep : FileJobStep platform state next) : StateFileInv platform next := by
  cases hstep with
  | edit => exact h
  | @run env =>
    rcases @runInner_state N _ platform state env with hsame | ⟨found, hcomm⟩
    · rw [hsame]
      exact h
    · rw [hcomm]
      exact h.committed env found

theorem stateFileInv_of_reaches {job : FileJob N}
    (hreach : FileJobReaches platform ⟨job, none, []⟩ state) : StateFileInv platform state := by
  refine Transition.invariant_of_reachable ?_ (fun _ _ => StateFileInv.step) hreach
  intro fingerprint hload
  cases hload

theorem exists_recorded_of_skipped {job : FileJob N} {env : RunEnv N}
    (hreach : FileJobReaches platform ⟨job, none, []⟩ state)
    (hskip : (runInner platform state env).1 = .ok .skipped) :
    ∃ run found now, lastRecorded state.runs = some (run, found) ∧
      foundFiles platform env.view state.job = .ok now ∧
      hashFound platform found = hashFound platform now := by
  rw [runInner] at hskip
  split at hskip
  · cases hskip
  · rename_i detected hdet
    split at hskip
    · rename_i hsame
      obtain ⟨hsome, hload⟩ := hsame
      obtain ⟨now, rfl⟩ := Option.isSome_iff_exists.mp hsome
      obtain ⟨run, found, hlast, hhash⟩ := stateFileInv_of_reaches hreach _ hload
      refine ⟨run, found, now, hlast, ?_, hhash.symm⟩
      rw [detectFiles] at hdet
      split at hdet
      · cases hfound : foundFiles platform env.view state.job with
        | error => simp [hfound, Except.map] at hdet
        | ok => simpa [hfound, Except.map] using hdet
      · cases hdet
    · split at hskip <;> cases hskip

end History

section Skipped

variable {N : Type} (platform : Platform N)

/-- What is needed of the run that recorded the fingerprint `found`, for a job that finds
the files `now`. -/
structure StandsFor (job : FileJob N) (run : CommittedRun)
    (found now : List (String × StoredFile)) : Prop where
  /-- The job has the same destination. -/
  destination : run.destination = job.destination
  /-- Every file of the fingerprint was archived, as it was then. -/
  complete : ∀ file ∈ found, (slashes file.1, file.2.content) ∈ run.archived
  /-- A file that was changed has another size or another modification second. -/
  sameContent : ∀ old ∈ found, ∀ new ∈ now, fileItem old = fileItem new →
    old.2.content = new.2.content
  /-- The two listings do not collide. -/
  noCollision : hashFound platform found = hashFound platform now →
    encodeItems (found.map fileItem) = encodeItems (now.map fileItem)
  nulFree : ∀ file ∈ found ++ now, NulFree file.1

variable {platform}

theorem StandsFor.mem_archived {job : FileJob N} {run : CommittedRun}
    {found now : List (String × StoredFile)} (h : StandsFor platform job run found now)
    (hhash : hashFound platform found = hashFound platform now) {file : String × StoredFile}
    (hfile : file ∈ now) : (slashes file.1, file.2.content) ∈ run.archived := by
  have hnul : ∀ files, files ⊆ found ++ now →
      ∀ item ∈ files.map fileItem, NulFree item.path := by
    intro files hfiles item hitem
    obtain ⟨one, hone, rfl⟩ := mem_map.mp hitem
    exact h.nulFree one (hfiles hone)
  have hperm := (encodeItems_eq_iff (hnul found (subset_append_left found now))
    (hnul now (subset_append_right found now))).mp (h.noCollision hhash)
  obtain ⟨old, hold, hitem⟩ := mem_map.mp (hperm.mem_iff.mpr (mem_map_of_mem hfile))
  have hpath : old.1 = file.1 := congrArg FileItem.path hitem
  rw [← hpath, ← h.sameContent old hold file hfile hitem]
  exact h.complete old hold

variable [DecidableEq N]

/-- When a run is skipped, the latest run that recorded a fingerprint has archived every
file that is there now, at the job's destination, provided that it archived all files it
found and that the destination is still the same. -/
theorem skippedRun_covered {start : FileJob N} {state : FileJobState N} {env : RunEnv N}
    (hreach : FileJobReaches platform ⟨start, none, []⟩ state)
    (hskip : (runInner platform state env).1 = .ok .skipped)
    (hroots : ∀ source ∈ state.job.sources, env.view.rootFails source = false)
    (hstands : ∀ run found now, lastRecorded state.runs = some (run, found) →
      foundFiles platform env.view state.job = .ok now →
      StandsFor platform state.job run found now) :
    ∃ run ∈ state.runs, run.destination = state.job.destination ∧
      ∀ source ∈ state.job.sources,
        ∀ file ∈ currentFiles platform env.view (state.job.patterns platform) source,
          (slashes (file.1.text platform.text), file.2.content) ∈ run.archived := by
  obtain ⟨run, found, now, hlast, hnow, hhash⟩ := exists_recorded_of_skipped hreach hskip
  have hrun := hstands run found now hlast hnow
  refine ⟨run, lastRecorded_mem hlast, hrun.destination, fun source hsource file hfile => ?_⟩
  obtain ⟨path, hpath, htext⟩ := mem_foundFiles_of_current hnow hsource (hroots source hsource) hfile
  have harchived := hrun.mem_archived hhash hpath
  rw [← htext]
  exact harchived

end Skipped

def samplePlatform : Platform String where
  text := id
  compile _ := none
  hash := FixedBytes.ofBytes 32

def sampleData : Node String StoredFile := .folder (.cons "x.txt" (.file ⟨[7], 0⟩) .nil)

/-- A job that backs up the folder to a server. -/
def dataJob (serverId : String) : FileJob String where
  sources := [⟨"C:\\", ["data"]⟩]
  excludes := []
  changeDetection := true
  destination := .pbs serverId "host"

/-- A run in which reading the file ends in the given way. -/
def dataRun (read : FileRead) : RunEnv String where
  view := {
    disk := fun _ => some sampleData
    rootFails := fun _ => false
    listing := fun _ => none
    metadata := fun _ => none }
  readRoot _ := none
  access := {
    root := fun _ => .ok sampleData
    listing := fun _ => none
    read := fun _ _ => read }
  flush := .ok ()
  warnings := []
  upload := .ok ()
  save := .written

def readWell : FileRead := .opened (some 1) (.ok (1, [7]))

/-- The run after an edit of the destination is skipped, and nothing is there; the run
after one that could not read the file is skipped, and no snapshot has the file. -/
theorem skippedRun_not_covered :
    (∃ state, FileJobReaches samplePlatform ⟨dataJob "pbs1", none, []⟩ state ∧
      (runInner samplePlatform state (dataRun readWell)).1 = .ok .skipped ∧
      ∀ run ∈ state.runs, run.destination ≠ state.job.destination) ∧
    ∃ state, FileJobReaches samplePlatform ⟨dataJob "pbs1", none, []⟩ state ∧
      (runInner samplePlatform state (dataRun readWell)).1 = .ok .skipped ∧
      currentFiles samplePlatform (dataRun readWell).view [] ⟨"C:\\", ["data"]⟩ =
        [(⟨"C:\\", ["data", "x.txt"]⟩, ⟨[7], 0⟩)] ∧
      ∀ run ∈ state.runs, run.archived = [] := by
  constructor
  · refine ⟨_, .tail (.single (@FileJobStep.run _ _ _ _ (dataRun readWell)))
      (@FileJobStep.edit _ _ _ _ (dataJob "pbs2")), rfl, ?_⟩
    intro run hrun
    obtain rfl := mem_singleton.mp hrun
    decide
  · refine ⟨_, .single (@FileJobStep.run _ _ _ _ (dataRun (.openFailed "locked"))), rfl, rfl, ?_⟩
    intro run hrun
    obtain rfl := mem_singleton.mp hrun
    rfl

theorem unchangedData_covered :
    ∃ state, FileJobReaches samplePlatform ⟨dataJob "pbs1", none, []⟩ state ∧
      (runInner samplePlatform state (dataRun readWell)).1 = .ok .skipped ∧
      ∃ run ∈ state.runs, run.destination = .pbs "pbs1" "host" ∧
        ("C:/data/x.txt", [7]) ∈ run.archived := by
  have hreach := ReflTransGen.single (@FileJobStep.run _ _ samplePlatform
    ⟨dataJob "pbs1", none, []⟩ (dataRun readWell))
  refine ⟨_, hreach, rfl, ?_⟩
  obtain ⟨run, hrun, hdestination, hfiles⟩ := @skippedRun_covered _ _ _ _ _ (dataRun readWell)
    hreach rfl (fun _ _ => rfl) fun run found now hlast hnow => by
      cases hlast
      cases hnow
      exact ⟨rfl, by decide, by decide, fun _ => rfl, by decide⟩
  refine ⟨run, hrun, hdestination, ?_⟩
  exact hfiles ⟨"C:\\", ["data"]⟩ mem_cons_self (⟨"C:\\", ["data", "x.txt"]⟩, ⟨[7], 0⟩)
    mem_cons_self

end PbsGui.Engine
