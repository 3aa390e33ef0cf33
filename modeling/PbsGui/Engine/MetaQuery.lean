import PbsGui.Engine.BackupMeta
import PbsGui.Engine.Plan
import PbsGui.Lib.Transition

/-!
# The metadata of a backup and the history table

SQL Server adds a row to `msdb.dbo.backupset` for every backup that finishes, whoever
takes it.  After its `BACKUP` statement the engine reads the newest row of the database as the
metadata of the backup.  The query knows the database by its name and nothing of the statement.
It turns local times into Unix time with the offset from UTC at that moment.
-/

namespace PbsGui.Engine

open Lib Relation List

def doubled (char : Char) (text : String) : String :=
  String.ofList (text.toList.flatMap fun c => if c = char then [c, c] else [c])

/-- The `BACKUP` statement. -/
def backupStatement (database setName : String) (kind : SqlBackupType) (copyOnly : Bool) :
    Except String String :=
  let db := doubled ']' database
  match kind with
  | .full =>
    let copy := if copyOnly then " WITH COPY_ONLY" else ""
    .ok ("BACKUP DATABASE [" ++ db ++ "] TO VIRTUAL_DEVICE = '" ++ setName ++ "'" ++ copy)
  | .log => .ok ("BACKUP LOG [" ++ db ++ "] TO VIRTUAL_DEVICE = '" ++ setName ++ "'")
  | .differential => .error "differential SQL backups are not supported yet"

/-! ### The table -/

/-- A backup as SQL Server took it. -/
structure TakenBackup where
  kind : SqlBackupType
  firstLsn : Nat
  lastLsn : Nat
  databaseBackupLsn : Nat
  /-- When it finished, in Unix seconds. -/
  finished : Int

/-- The columns of `msdb.dbo.backupset` that are read, all but the first two nullable. -/
structure BackupSetRow where
  backupSetId : Nat
  databaseName : String
  type : Option String
  firstLsn : Option Nat
  lastLsn : Option Nat
  databaseBackupLsn : Option Nat
  /-- In local time, as seconds from the start of 1970. -/
  backupFinishDate : Option Int

/-- The letter of the `type` column. -/
def typeLetter : SqlBackupType → String
  | .full => "D"
  | .differential => "I"
  | .log => "L"

/-- The row that SQL Server adds for a backup, with the minutes that local time is ahead
of UTC. -/
def TakenBackup.row (taken : TakenBackup) (id : Nat) (database : String) (offset : Int) :
    BackupSetRow where
  backupSetId := id
  databaseName := database
  type := some (typeLetter taken.kind)
  firstLsn := some taken.firstLsn
  lastLsn := some taken.lastLsn
  databaseBackupLsn := some taken.databaseBackupLsn
  backupFinishDate := some (taken.finished + offset * 60)

/-- `SELECT TOP 1 .. WHERE database_name = .. ORDER BY backup_set_id DESC` -/
def newestRow (database : String) (rows : List BackupSetRow) : Option BackupSetRow :=
  maxByKey BackupSetRow.backupSetId (rows.filter fun row => row.databaseName = database)

/-- The metadata of a row; a null reads as the default. -/
def BackupSetRow.metadata (row : BackupSetRow) (offset : Int) (files : List SqlBackupFile) :
    SqlBackupMeta where
  kind := if (row.type.getD "D").toList.map Char.toLower = "l".toList then "log" else "full"
  backupTime := (row.backupFinishDate.map fun date => date - offset * 60).getD 0
  firstLsn := (row.firstLsn.map toString).getD ""
  lastLsn := (row.lastLsn.map toString).getD ""
  databaseBackupLsn := (row.databaseBackupLsn.map toString).getD ""
  files := files

/-- Read the just-written backup's chain metadata. -/
def queryBackupMeta (rows : List BackupSetRow) (offset : Int) (files : List SqlBackupFile)
    (database : String) : Except String SqlBackupMeta :=
  match newestRow database rows with
  | none => .error "no msdb.dbo.backupset row for the database"
  | some row => .ok (row.metadata offset files)

/-- How far a backup of the engine has come. -/
inductive BackupStage
  /-- The statement is running. -/
  | running
  /-- SQL Server has added the row; the query is yet to come. -/
  | written (taken : TakenBackup)
  /-- The query is over; without its result the snapshot gets no metadata. -/
  | queried (taken : TakenBackup) (blob : Option SqlBackupMeta)
  /-- The snapshot is committed. -/
  | committed (taken : TakenBackup) (blob : Option SqlBackupMeta)
  | failed

structure EngineBackup where
  database : String
  kind : SqlBackupType
  stage : BackupStage

/-- An instance of SQL Server with the engine's backups on it. -/
structure SqlInstance where
  rows : List BackupSetRow
  /-- The minutes that local time is ahead of UTC. -/
  offset : Int
  backups : List EngineBackup

/-- What is assumed of a run: when a row is added for a database, and when the offset
changes. -/
structure InstanceLimits where
  insert : SqlInstance → String → Prop
  clock : SqlInstance → Prop

/-- A step of an instance. -/
inductive InstanceStep (limits : InstanceLimits) (state : SqlInstance) : SqlInstance → Prop
  /-- The engine issues a statement. -/
  | issue {database setName statement : String} {kind : SqlBackupType} {copyOnly : Bool}
      (h : backupStatement database setName kind copyOnly = .ok statement) :
      InstanceStep limits state
        { state with backups := ⟨database, kind, .running⟩ :: state.backups }
  /-- A backup of the engine finishes. -/
  | finish {before after : List EngineBackup} {backup : EngineBackup} {taken : TakenBackup} {id : Nat}
      (hsplit : state.backups = before ++ backup :: after) (hstage : backup.stage = .running)
      (hkind : taken.kind = backup.kind) (hid : ∀ row ∈ state.rows, row.backupSetId < id)
      (hlimit : limits.insert state backup.database) :
      InstanceStep limits state
        { state with
          rows := state.rows ++ [taken.row id backup.database state.offset]
          backups := before ++ { backup with stage := .written taken } :: after }
  /-- Another tool's backup finishes. -/
  | foreign {row : BackupSetRow} (hid : ∀ old ∈ state.rows, old.backupSetId < row.backupSetId)
      (hlimit : limits.insert state row.databaseName) :
      InstanceStep limits state { state with rows := state.rows ++ [row] }
  | clock {offset : Int} (hlimit : limits.clock state) :
      InstanceStep limits state { state with offset := offset }
  | query {before after : List EngineBackup} {backup : EngineBackup} {taken : TakenBackup}
      {files : List SqlBackupFile} {metadata : SqlBackupMeta}
      (hsplit : state.backups = before ++ backup :: after) (hstage : backup.stage = .written taken)
      (hquery : queryBackupMeta state.rows state.offset files backup.database = .ok metadata) :
      InstanceStep limits state
        { state with
          backups := before ++ { backup with stage := .queried taken (some metadata) } :: after }
  | queryFailed {before after : List EngineBackup} {backup : EngineBackup} {taken : TakenBackup}
      (hsplit : state.backups = before ++ backup :: after) (hstage : backup.stage = .written taken) :
      InstanceStep limits state
        { state with backups := before ++ { backup with stage := .queried taken none } :: after }
  | commit {before after : List EngineBackup} {backup : EngineBackup} {taken : TakenBackup}
      {blob : Option SqlBackupMeta} (hsplit : state.backups = before ++ backup :: after)
      (hstage : backup.stage = .queried taken blob) :
      InstanceStep limits state
        { state with backups := before ++ { backup with stage := .committed taken blob } :: after }
  /-- The statement, the upload or the run fails. -/
  | fail {before after : List EngineBackup} {backup : EngineBackup}
      (hsplit : state.backups = before ++ backup :: after) :
      InstanceStep limits state
        { state with backups := before ++ { backup with stage := .failed } :: after }

def InstanceReaches (limits : InstanceLimits) : SqlInstance → SqlInstance → Prop :=
  ReflTransGen (InstanceStep limits)

/-- The metadata of a full or log backup that is its own. -/
structure Describes (metadata : SqlBackupMeta) (taken : TakenBackup) : Prop where
  kind : metadata.kind = if taken.kind = .log then "log" else "full"
  backupTime : metadata.backupTime = taken.finished
  firstLsn : metadata.firstLsn = toString taken.firstLsn
  lastLsn : metadata.lastLsn = toString taken.lastLsn
  databaseBackupLsn : metadata.databaseBackupLsn = toString taken.databaseBackupLsn

/-- A backup of the database is between its row and the query. -/
def SqlInstance.Waits (state : SqlInstance) (database : String) : Prop :=
  ∃ backup ∈ state.backups, backup.database = database ∧ ∃ taken, backup.stage = .written taken

/-- Nothing comes between the row of a backup and the query: no other row of the
database, and no change of the offset. -/
def undisturbed : InstanceLimits where
  insert state database := ¬ state.Waits database
  clock state := ∀ database, ¬ state.Waits database

section Rows

variable {rows : List BackupSetRow} {row : BackupSetRow} {database : String} {taken : TakenBackup}
  {id : Nat} {offset : Int} {files : List SqlBackupFile} {metadata : SqlBackupMeta}

theorem newestRow_append (hid : ∀ old ∈ rows, old.backupSetId < row.backupSetId) :
    newestRow database (rows ++ [row]) =
      if row.databaseName = database then some row else newestRow database rows := by
  unfold newestRow
  rw [filter_append, filter_singleton]
  by_cases hname : row.databaseName = database
  · rw [if_pos hname, decide_eq_true hname, cond_true]
    exact maxByKey_of_last fun old hold => (hid old (mem_filter.mp hold).1).le
  · rw [if_neg hname, decide_eq_false hname, cond_false, append_nil]

theorem TakenBackup.describes_row (hkind : taken.kind ≠ .differential) :
    Describes ((taken.row id database offset).metadata offset files) taken where
  kind := by
    cases hlet : taken.kind with
    | full | log => simp [BackupSetRow.metadata, row, hlet, typeLetter]
    | differential => exact absurd hlet hkind
  backupTime := by
    simp [BackupSetRow.metadata, row]
  firstLsn := rfl
  lastLsn := rfl
  databaseBackupLsn := rfl

end Rows

/-! ### Every interleaving -/

/-- What holds of a backup: while it waits for the query, the newest row of its database
is its own; afterwards its metadata describes it. -/
def EngineBackup.Ok (rows : List BackupSetRow) (offset : Int) (backup : EngineBackup) : Prop :=
  backup.kind ≠ .differential ∧
    match backup.stage with
    | .running | .failed => True
    | .written taken => taken.kind = backup.kind ∧
        ∃ id, newestRow backup.database rows = some (taken.row id backup.database offset)
    | .queried taken blob | .committed taken blob => ∀ metadata ∈ blob, Describes metadata taken

def InstanceInv (state : SqlInstance) : Prop :=
  ∀ backup ∈ state.backups, backup.Ok state.rows state.offset

section Runs

variable {state state' : SqlInstance} {before after : List EngineBackup} {backup changed : EngineBackup}
  {rows : List BackupSetRow} {row : BackupSetRow} {offset : Int}

/-- The table and the clock matter to a backup only while it waits for the query. -/
theorem EngineBackup.Ok.of_not_written {rows' : List BackupSetRow} {offset' : Int}
    (h : backup.Ok rows offset) (hstage : ∀ taken, backup.stage ≠ .written taken) :
    backup.Ok rows' offset' := by
  obtain ⟨hkind, hok⟩ := h
  refine ⟨hkind, ?_⟩
  cases hcase : backup.stage with
  | written taken => exact absurd hcase (hstage taken)
  | running | failed => trivial
  | queried taken blob | committed taken blob =>
    rw [hcase] at hok
    exact hok

theorem EngineBackup.Ok.append (h : backup.Ok rows offset)
    (hid : ∀ old ∈ rows, old.backupSetId < row.backupSetId)
    (hwaits : ∀ taken, backup.stage = .written taken → backup.database ≠ row.databaseName) :
    backup.Ok (rows ++ [row]) offset := by
  by_cases hwrit : ∃ taken, backup.stage = .written taken
  · obtain ⟨taken, hstage⟩ := hwrit
    obtain ⟨hkind, hok⟩ := h
    rw [hstage] at hok
    obtain ⟨hsame, id, hnew⟩ := hok
    refine ⟨hkind, ?_⟩
    rw [hstage]
    refine ⟨hsame, id, ?_⟩
    rw [newestRow_append hid, if_neg fun hname => hwaits taken hstage hname.symm]
    exact hnew
  · exact h.of_not_written fun taken hstage => hwrit ⟨taken, hstage⟩

theorem InstanceInv.replace (h : InstanceInv state) (hsplit : state.backups = before ++ backup :: after)
    (hchanged : changed.Ok state.rows state.offset) :
    InstanceInv { state with backups := before ++ changed :: after } := by
  intro other hother
  rcases mem_cons.mp (perm_middle.mem_iff.mp hother) with rfl | hstays
  · exact hchanged
  · refine h other ?_
    rw [hsplit]
    exact ((sublist_cons_self _ _).append_left _).subset hstays

theorem InstanceInv.append (h : InstanceInv state)
    (hid : ∀ old ∈ state.rows, old.backupSetId < row.backupSetId)
    (hlimit : ¬ state.Waits row.databaseName) :
    InstanceInv { state with rows := state.rows ++ [row] } := by
  intro backup hback
  refine (h backup hback).append hid fun taken hstage hname => ?_
  exact hlimit ⟨backup, hback, hname, taken, hstage⟩

theorem InstanceInv.step (h : InstanceInv state) (hstep : InstanceStep undisturbed state state') :
    InstanceInv state' := by
  have hmem : ∀ {before after : List EngineBackup} {backup : EngineBackup},
      state.backups = before ++ backup :: after → backup.Ok state.rows state.offset :=
    fun hsplit => h _ (hsplit ▸ mem_append_right _ mem_cons_self)
  cases hstep with
  | issue hstmt =>
    intro backup hback
    rcases mem_cons.mp hback with rfl | hold
    · refine ⟨?_, trivial⟩
      rintro rfl
      cases hstmt
    · exact h backup hold
  | @finish before after backup taken id hsplit hstage hkind hid hlimit =>
    -- the new row is the newest of its database, which no other backup waits for
    refine @InstanceInv.replace { state with rows := state.rows ++ _ } _ _ backup _
      (h.append hid hlimit) hsplit ⟨(hmem hsplit).1, hkind, id, ?_⟩
    exact (newestRow_append hid).trans (if_pos rfl)
  | foreign hid hlimit => exact h.append hid hlimit
  | clock hlimit =>
    intro backup hback
    refine (h backup hback).of_not_written fun taken hstage => ?_
    exact hlimit backup.database ⟨backup, hback, rfl, taken, hstage⟩
  | @query before after backup taken files metadata hsplit hstage hquery =>
    obtain ⟨hkind, hrow⟩ := hmem hsplit
    rw [hstage] at hrow
    obtain ⟨hsame, id, hnew⟩ := hrow
    rw [queryBackupMeta, hnew] at hquery
    cases hquery
    refine h.replace hsplit ⟨hkind, ?_⟩
    rintro metadata ⟨⟩
    exact TakenBackup.describes_row (hsame ▸ hkind)
  | queryFailed hsplit =>
    refine h.replace hsplit ⟨(hmem hsplit).1, ?_⟩
    rintro metadata ⟨⟩
  | commit hsplit hstage =>
    obtain ⟨hkind, hblob⟩ := hmem hsplit
    rw [hstage] at hblob
    exact h.replace hsplit ⟨hkind, hblob⟩
  | fail hsplit => exact h.replace hsplit ⟨(hmem hsplit).1, trivial⟩

/-- In every interleaving in which nothing comes between the row of a backup and the
query, the metadata in a committed snapshot is that of the backup in it. -/
theorem committed_metadata_describes {rows : List BackupSetRow} {offset : Int}
    (hreach : InstanceReaches undisturbed ⟨rows, offset, []⟩ state) (hbackup : backup ∈ state.backups)
    {taken : TakenBackup} {metadata : SqlBackupMeta}
    (hstage : backup.stage = .committed taken (some metadata)) : Describes metadata taken := by
  have hinv : InstanceInv state :=
    Transition.invariant_of_reachable (fun other hother => absurd hother not_mem_nil)
      (fun _ _ hbefore hstep => hbefore.step hstep) hreach
  have hblob := (hinv backup hbackup).2
  rw [hstage] at hblob
  exact hblob metadata rfl

end Runs

/-- A full backup, with a log backup of another tool right after it. -/
def sampleFull : TakenBackup := ⟨.full, 100, 120, 0, 1700000000⟩

def sampleForeign : BackupSetRow :=
  (TakenBackup.mk .log 90 130 100 1700000005).row 2 "db" 60

def sampleCommitted (metadata : SqlBackupMeta) : EngineBackup :=
  ⟨"db", .full, .committed sampleFull (some metadata)⟩

theorem sampleFull_describes : ∃ state, ∃ metadata,
    InstanceReaches undisturbed ⟨[], 60, []⟩ state ∧ sampleCommitted metadata ∈ state.backups ∧
      Describes metadata sampleFull := by
  have hidle : ∀ database, ¬ SqlInstance.Waits ⟨[], 60, [⟨"db", .full, .running⟩]⟩ database := by
    rintro database ⟨backup, hbackup, -, taken, hstage⟩
    rw [mem_singleton.mp hbackup] at hstage
    cases hstage
  have hreach : InstanceReaches undisturbed ⟨[], 60, []⟩ _ :=
    .tail (.tail (.tail (.single (@InstanceStep.issue _ _ "db" "pbsgui-1" _ .full false rfl))
      (@InstanceStep.finish _ _ [] [] _ sampleFull 1 rfl rfl rfl (by simp) (hidle "db")))
      (@InstanceStep.query _ _ [] [] _ sampleFull [] _ rfl rfl rfl))
      (@InstanceStep.commit _ _ [] [] _ sampleFull _ rfl rfl)
  exact ⟨_, _, hreach, mem_cons_self,
    committed_metadata_describes hreach mem_cons_self rfl⟩

/-- With another tool's log backup in between, the full is stored as that log backup;
with a change of the clock in between, it is stored with a time that is an hour off. -/
theorem committed_metadata_of_another :
    (∃ state metadata, InstanceReaches ⟨fun _ _ => True, fun _ => True⟩ ⟨[], 60, []⟩ state ∧
      sampleCommitted metadata ∈ state.backups ∧ metadata.kind = "log" ∧
      metadata.firstLsn = "90" ∧ metadata.backupTime = 1700000005 ∧ ¬ Describes metadata sampleFull) ∧
    ∃ state metadata, InstanceReaches ⟨fun _ _ => True, fun _ => True⟩ ⟨[], 60, []⟩ state ∧
      sampleCommitted metadata ∈ state.backups ∧ metadata.kind = "full" ∧
      metadata.backupTime = 1700000000 + 3600 ∧ ¬ Describes metadata sampleFull := by
  have hwritten : InstanceReaches ⟨fun _ _ => True, fun _ => True⟩ ⟨[], 60, []⟩ _ :=
    .tail (.single (@InstanceStep.issue _ _ "db" "pbsgui-1" _ .full false rfl))
      (@InstanceStep.finish _ _ [] [] _ sampleFull 1 rfl rfl rfl (by simp) trivial)
  constructor
  · have hforeign := hwritten.tail (@InstanceStep.foreign _ _ sampleForeign (by decide) trivial)
    have hcommitted := (hforeign.tail (@InstanceStep.query _ _ [] [] _ sampleFull [] _ rfl rfl rfl)).tail
      (@InstanceStep.commit _ _ [] [] _ sampleFull _ rfl rfl)
    refine ⟨_, _, hcommitted, mem_cons_self, rfl, rfl, rfl, fun h => ?_⟩
    exact absurd h.kind (by decide)
  · have hclock := hwritten.tail (@InstanceStep.clock _ _ 0 trivial)
    have hcommitted := (hclock.tail (@InstanceStep.query _ _ [] [] _ sampleFull [] _ rfl rfl rfl)).tail
      (@InstanceStep.commit _ _ [] [] _ sampleFull _ rfl rfl)
    refine ⟨_, _, hcommitted, mem_cons_self, rfl, rfl, fun h => ?_⟩
    exact absurd h.backupTime (by decide)

end PbsGui.Engine
