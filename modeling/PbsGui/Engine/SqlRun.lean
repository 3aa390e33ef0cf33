import PbsGui.Client.Upload
import PbsGui.Engine.Plan
import PbsGui.Engine.SqlSched

/-!
# Runs of a SQL job

The loop of `backup_sql_to_pbs` over a job's databases, the folder backup, and the
wrapper `run_job_kind` that records in the job's state file how a run ended.  What
the world answers is the input of a run; the state that runs leave behind is the state file and
the backups committed.

Log lines, progress, notifications and metrics are left out.
-/

namespace PbsGui.Engine

open Client

/-- Where a job's backups go. -/
inductive SqlDestination
  | pbs
  | folder (path : String)
  deriving DecidableEq

/-- A backup that a run of this job on this machine committed. -/
structure SqlCommit where
  database : String
  kind : SqlBackupType
  copyOnly : Bool
  destination : SqlDestination
  deriving DecidableEq

/-- What the runs of a job leave behind on a machine. -/
structure SqlJobState where
  /-- The state file. -/
  file : SchedFile
  /-- The backups committed, oldest first. -/
  commits : List SqlCommit

def SqlJobState.new : SqlJobState := ⟨none, []⟩

/-- A finished backup: its summary, the stats if anything was written, and whether
it had warnings. -/
structure Outcome where
  message : String
  stats : Option BackupStats
  warning : Bool

/-- How a run that did not fail ended. -/
structure RunReport where
  message : String
  warning : Bool

/-! ### One database -/

/-- What the world answers when it is a database's turn. -/
structure DbTurn where
  database : String
  /-- What SQL Server reports about it. -/
  state : Except String DbState
  /-- The parameters of the PBS session. -/
  session : Except String Unit := .ok ()
  /-- How the backup ends. -/
  result : Except String BackupStats
  /-- A backup can be reported as failed, or be cut short, after the server has
  finished its snapshot. -/
  landed : Bool := false
  /-- The clock at a missing chain, at the check of its age, and at a promoted full. -/
  noteTime : Int := 0
  checkTime : Int := 0
  recordTime : Int := 0
  noteIo : FileIo := {}
  clearIo : FileIo := {}
  recordIo : FileIo := {}

/-- The variables of the loop over the databases. -/
structure SqlLoop where
  job : SqlJobState
  /-- Whether this job has a full from this machine. -/
  localFull : Bool
  /-- The summed statistics. -/
  totals : BackupStats
  backedUp : Nat
  skipped : List String
  warned : List String
  failed : List String

def zeroStats : BackupStats :=
  ⟨0, 0, 0, 0, 0, 0, Lib.FixedBytes.ofBytes 32 (List.replicate 32 0)⟩

/-- How long a secondary's log backups may find no chain before the run fails. -/
def noChainEscalateSecs : Int := 3600

def runIsLogButFull (run : SqlRun) (taken : SqlBackupType) : Bool :=
  run = .log && taken = .full

namespace SqlLoop

def start (job : SqlJobState) (localFull : Bool) : SqlLoop :=
  ⟨job, localFull, zeroStats, 0, [], [], []⟩

/-- The text that names a database in a summary. -/
def reason (database why : String) : String := "[" ++ database ++ "]: " ++ why

def fail (loop : SqlLoop) (reason : String) : SqlLoop :=
  { loop with failed := loop.failed ++ [reason] }

def skip (loop : SqlLoop) (reason : String) : SqlLoop :=
  { loop with skipped := loop.skipped ++ [reason] }

def warn (loop : SqlLoop) (reason : String) : SqlLoop :=
  { loop with warned := loop.warned ++ [reason] }

/-- A snapshot has been finished on the server. -/
def commit (loop : SqlLoop) (database : String) (kind : SqlBackupType) (copyOnly : Bool) :
    SqlLoop :=
  { loop with
    job := { loop.job with commits := loop.job.commits ++ [⟨database, kind, copyOnly, .pbs⟩] } }

def onFile (loop : SqlLoop) (change : SchedFile → SchedFile) : SqlLoop :=
  { loop with job := { loop.job with file := change loop.job.file } }

def count (loop : SqlLoop) (stats : BackupStats) : SqlLoop :=
  { loop with
    totals :=
      { loop.totals with
        chunks := loop.totals.chunks + stats.chunks
        uploaded := loop.totals.uploaded + stats.uploaded
        reused := loop.totals.reused + stats.reused
        bytes := loop.totals.bytes + stats.bytes
        uploadedBytes := loop.totals.uploadedBytes + stats.uploadedBytes
        storedBytes := loop.totals.storedBytes + stats.storedBytes }
    backedUp := loop.backedUp + 1 }

/-- A log backup found no chain: a warning, or a failure once it has lasted. -/
def noChain (loop : SqlLoop) (turn : DbTurn) (role : Role) : SqlLoop :=
  let why :=
    if role = .secondary then Plan.noChainOnSecondary
    else "no full backup starts the log chain; the next run takes a full backup"
  let noted := SqlSched.noteNoChain turn.noteIo turn.database turn.noteTime loop.job.file
  let loop := loop.onFile fun _ => noted.1
  if noChainEscalateSecs ≤ turn.checkTime - noted.2 then
    loop.fail (reason turn.database
      ("log backups have found no full backup to start the log chain for over an hour. " ++
        "Check that pbsgui runs this job on the primary replica (see docs/ALWAYS-ON.md)"))
  else
    loop.warn (reason turn.database why)

def succeed (loop : SqlLoop) (run : SqlRun) (turn : DbTurn) (kind : SqlBackupType)
    (stats : BackupStats) : SqlLoop :=
  let loop := loop.onFile (SqlSched.clearNoChain turn.clearIo turn.database)
  if runIsLogButFull run kind then
    -- a full taken in place of a log backup is this job's full from here on
    { loop.onFile (SqlSched.recordFull turn.recordIo turn.recordTime) with
      localFull := true }.count stats
  else
    loop.count stats

/-- A backup that is not seen to succeed may have been finished all the same. -/
def land (loop : SqlLoop) (turn : DbTurn) (kind : SqlBackupType) (copyOnly : Bool) : SqlLoop :=
  if turn.landed then loop.commit turn.database kind copyOnly else loop

def takeTurn (plan : PlanKind) (run : SqlRun) (loop : SqlLoop) (turn : DbTurn) : SqlLoop :=
  match turn.state with
  | .error e => loop.fail (reason turn.database e)
  | .ok state =>
    match Plan.decide plan run state loop.localFull with
    | .skip why => loop.skip (reason turn.database why)
    | .backup kind copyOnly _ =>
      match turn.session, turn.result with
      | .error e, _ => loop.fail (reason turn.database e)
      | .ok (), .error message =>
        if kind = .log ∧ Plan.isNoChainError message then
          (loop.land turn kind copyOnly).noChain turn state.role
        else
          (loop.land turn kind copyOnly).fail (reason turn.database message)
      | .ok (), .ok stats => (loop.commit turn.database kind copyOnly).succeed run turn kind stats

/-- A pass that is cut short before the backup's result is seen. -/
def cutTurn (plan : PlanKind) (run : SqlRun) (loop : SqlLoop) (turn : DbTurn) : SqlLoop :=
  match turn.state with
  | .error _ => loop
  | .ok state =>
    match Plan.decide plan run state loop.localFull with
    | .skip _ => loop
    | .backup kind copyOnly _ => loop.land turn kind copyOnly

def finish (humanBytes : UInt64 → String) (loop : SqlLoop) : Except String Outcome :=
  if loop.failed ≠ [] then
    .error ((if 0 < loop.backedUp then "backed up " ++ toString loop.backedUp ++ ", but " else "")
      ++ toString loop.failed.length ++ " database(s) failed: " ++ "; ".intercalate loop.failed)
  else if loop.backedUp = 0 then
    let reasons := loop.warned ++ loop.skipped
    let reason := if reasons = [] then "no databases selected" else "; ".intercalate reasons
    .ok ⟨"skipped: " ++ reason, none, loop.warned ≠ []⟩
  else
    let summary := "backed up " ++ toString loop.backedUp ++ " database(s) to PBS: " ++
      humanBytes loop.totals.bytes ++ ", " ++ toString loop.totals.chunks ++ " chunks, " ++
      toString loop.totals.uploaded ++ " uploaded, " ++ toString loop.totals.reused ++ " reused"
    let stored :=
      if 0 < loop.totals.storedBytes then ", " ++ humanBytes loop.totals.storedBytes ++ " stored"
      else ""
    let warned :=
      if loop.warned ≠ [] then
        "; " ++ toString loop.warned.length ++ " warning(s): " ++ "; ".intercalate loop.warned
      else ""
    let skipped :=
      if loop.skipped ≠ [] then
        "; skipped " ++ toString loop.skipped.length ++ ": " ++ ", ".intercalate loop.skipped
      else ""
    .ok ⟨summary ++ stored ++ warned ++ skipped, some loop.totals, loop.warned ≠ []⟩

end SqlLoop

/-! ### One run -/

/-- How a run ends. -/
inductive RunEnd
  /-- It comes to its end, whether or not a cancel request has arrived by then. -/
  | finished (cancelled : Bool)
  /-- A cancel request drops it, perhaps while a database is being backed up. -/
  | cancelled (during : Option DbTurn)
  /-- The engine stops, perhaps while a database is being backed up. -/
  | crashed (during : Option DbTurn)

/-- The database being backed up when a run is cut short. -/
def RunEnd.during : RunEnd → Option DbTurn
  | .finished _ => none
  | .cancelled during | .crashed during => during

/-- A run of a SQL job: the job as it is configured then, and what the world answers. -/
structure SqlRunInput where
  run : SqlRun
  plan : PlanKind
  destination : SqlDestination := .pbs
  /-- Whether the job's encryption settings can be resolved. -/
  key : Except String Unit := .ok ()
  /-- The saved connection: whether it is a failover cluster instance. -/
  connection : Except String Bool := .ok false
  /-- Whether SQL Server can be reached from this machine. -/
  connect : Except String Unit := .ok ()
  /-- Whether the state file can be read when the loop starts. -/
  readable : Bool := true
  /-- The databases of the job, up to where the run is cut short. -/
  turns : List DbTurn
  ending : RunEnd := .finished false
  recordTime : Int := 0
  recordIo : FileIo := {}

namespace SqlRunInput

/-- The loop before the first database of a run. -/
def startLoop (input : SqlRunInput) (job : SqlJobState) : SqlLoop :=
  .start job (SqlSched.lastFull input.readable job.file).isSome

def loopAfter (input : SqlRunInput) (job : SqlJobState) (turns : List DbTurn) : SqlLoop :=
  turns.foldl (SqlLoop.takeTurn input.plan input.run) (input.startLoop job)

def endLoop (input : SqlRunInput) (job : SqlJobState) : SqlLoop :=
  match input.ending.during with
  | none => input.loopAfter job input.turns
  | some turn => (input.loopAfter job input.turns).cutTurn input.plan input.run turn

end SqlRunInput

def backupSqlToPbs (humanBytes : UInt64 → String) (input : SqlRunInput) (job : SqlJobState) :
    SqlJobState × Except String Outcome :=
  if input.turns = [] ∧ input.ending.during.isNone then
    (job, .error "no databases selected")
  else
    match input.connection, input.connect with
    | .error e, _ => (job, .error e)
    | .ok true, .error _ =>
      -- a failover cluster instance that cannot be reached is active on another node
      (job, .ok ⟨"skipped: the failover cluster instance is not active on this node", none, false⟩)
    | .ok false, .error e => (job, .error e)
    | .ok _, .ok () => ((input.endLoop job).job, (input.endLoop job).finish humanBytes)

/-- The loop of the folder backup, which stops at the first failure. -/
def folderTurns (path : String) : List DbTurn → SqlJobState → UInt64 →
    SqlJobState × Except String UInt64
  | [], job, total => (job, .ok total)
  | turn :: rest, job, total =>
    match turn.result with
    | .error e => (job, .error e)
    | .ok stats =>
      folderTurns path rest
        { job with commits := job.commits ++ [⟨turn.database, .full, false, .folder path⟩] }
        (total + stats.bytes)

/-- Back up the databases to files in a folder, always as fulls. -/
def backupSqlToFolder (humanBytes : UInt64 → String) (input : SqlRunInput) (path : String)
    (job : SqlJobState) : SqlJobState × Except String Outcome :=
  if input.turns = [] then
    (job, .error "no databases selected")
  else
    match input.connection with
    | .error e => (job, .error e)
    | .ok _ =>
      match folderTurns path input.turns job 0 with
      | (job, .error e) => (job, .error e)
      | (job, .ok total) =>
        (job, .ok ⟨"backed up " ++ toString input.turns.length ++ " database(s) to " ++ path ++
          ": " ++ humanBytes total, some { zeroStats with bytes := total }, false⟩)

/-- The SQL branches of the dispatch on source and destination. -/
def doBackup (humanBytes : UInt64 → String) (input : SqlRunInput) (job : SqlJobState) :
    SqlJobState × Except String Outcome :=
  match input.destination with
  | .pbs =>
    match input.key with
    | .error e => (job, .error e)
    | .ok () => backupSqlToPbs humanBytes input job
  | .folder path => backupSqlToFolder humanBytes input path job

namespace SqlRunInput

def recordSuccess (input : SqlRunInput) (job : SqlJobState) : SqlJobState :=
  match input.run with
  | .full => { job with file := SqlSched.recordFull input.recordIo input.recordTime job.file }
  | .log => { job with file := SqlSched.recordLog input.recordIo input.recordTime job.file }

def recordAttempt (input : SqlRunInput) (job : SqlJobState) : SqlJobState :=
  match input.run with
  | .full => { job with file := SqlSched.recordFullAttempt input.recordIo input.recordTime job.file }
  | .log => { job with file := SqlSched.recordLogAttempt input.recordIo input.recordTime job.file }

end SqlRunInput

/-- A run that has claimed its job, and what it reports; a run that the engine does
not survive reports nothing. -/
def runJobKind (humanBytes : UInt64 → String) (input : SqlRunInput) (job : SqlJobState) :
    SqlJobState × Option (Except String RunReport) :=
  let done := doBackup humanBytes input job
  match input.ending, done.2 with
  | .crashed _, _ => (done.1, none)
  | .cancelled _, _ | .finished true, .error _ =>
    (input.recordAttempt done.1, some (.ok ⟨"cancelled", false⟩))
  | .finished false, .error e => (input.recordAttempt done.1, some (.error e))
  | .finished _, .ok outcome =>
    (input.recordSuccess done.1, some (.ok ⟨outcome.message, outcome.warning⟩))

end PbsGui.Engine
