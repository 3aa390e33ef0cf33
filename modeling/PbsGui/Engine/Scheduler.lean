import PbsGui.Engine.ListStore
import PbsGui.Engine.Schedule
import PbsGui.Engine.SqlRun
import PbsGui.Lib.Transition

/-!
# The engine's scheduler

The loop of `scheduler.rs` next to everything that runs beside it: the `RunJob`
requests of the GUI, the calls that change the job store and the clock.  What happens
between two `await` points is one step.

A tick reads the clock and the list of jobs once and goes through that list; for a job that is
due it spawns a run, waits for its end and records the outcome.  A run claims the job first, and
one that finds it claimed already reports that it was skipped.  The runs that have claimed a job
are kept as a history.

Writes of the store and of the state files succeed, and no task panics.
-/

namespace PbsGui.Engine

open Lib

/-- For a SQL job, whether a full or a log backup is due. -/
def sqlDueKind (zone : TimeZone) (file : SchedFile) (protection : Ipc.SqlProtection) (now : Int) :
    Option SqlRun :=
  match protection with
  | .pointInTime full logIntervalMinutes =>
    if scheduleDue zone full (SqlSched.lastFullAttempt true file) now then some .full
    else
      let baseline := (SqlSched.lastLogAttempt true file).or (SqlSched.lastFull true file)
      if logDue baseline logIntervalMinutes now then some .log else none
  | .dailyRestorePoints schedule | .secondaryCopy schedule =>
    if scheduleDue zone schedule (SqlSched.lastFullAttempt true file) now then some .full else none

/-- Whether a job is due, and for which kind of run; the kind is ignored for files. -/
def dueKind (zone : TimeZone) (files : String → SchedFile) (job : Ipc.Job) (now : Int) :
    Option SqlRun :=
  match job.source with
  | .sql _ _ protection => sqlDueKind zone (files job.id) protection now
  | .files _ _ _ => if scheduleDue zone job.schedule job.lastRun now then some .full else none

/-- The status recorded for a run that did not fail. -/
def RunReport.status (report : RunReport) : String :=
  if report.warning then "warning: " ++ report.message else "ok"

def RunReport.plain (message : String) : RunReport := ⟨message, false⟩

/-- How a run ends. -/
inductive RunResult
  | finished (report : RunReport)
  | failed (message : String)
  | cancelled

namespace RunResult

def status : RunResult → String
  | finished report => report.status
  | failed message => message
  | cancelled => (RunReport.plain "cancelled").status

/-- What a SQL run leaves in the job's state file at its end. -/
def recordIn (result : RunResult) (kind : SqlRun) (now : Int) : SchedFile → SchedFile :=
  match kind, result with
  | .full, finished _ => SqlSched.recordFull {} now
  | .full, failed _ | .full, cancelled => SqlSched.recordFullAttempt {} now
  | .log, finished _ => SqlSched.recordLog {} now
  | .log, failed _ | .log, cancelled => SqlSched.recordLogAttempt {} now

end RunResult

/-- What a SQL run may do to the state file before its end. -/
inductive ChainWrite (now : Int) (file : SchedFile) : SchedFile → Prop
  /-- A full was taken in place of a log backup. -/
  | promoted : ChainWrite now file (SqlSched.recordFull {} now file)
  | noteNoChain (database : String) : ChainWrite now file (SqlSched.noteNoChain {} database now file).1
  | clearNoChain (database : String) : ChainWrite now file (SqlSched.clearNoChain {} database file)

/-- How far a spawned run has come. -/
inductive TaskPhase
  | spawned
  /-- It has claimed the job. -/
  | running
  /-- It is over; the job is still claimed. -/
  | recorded (status : String)
  | ended (status : String)

/-- A spawned run: the job as it was read from the store, and the kind of run. -/
structure RunTask where
  job : Ipc.Job
  kind : SqlRun
  phase : TaskPhase

/-! ### The engine -/

/-- Where the scheduler's loop is. -/
inductive SchedulerLoop
  | sleeping
  /-- In a tick that read the clock at `now`, with the jobs it has yet to look at. -/
  | ticking (now : Int) (rest : List Ipc.Job)
  /-- Waiting for the run of a job that was due. -/
  | waiting (now : Int) (rest : List Ipc.Job) (task : RunTask)

/-- A run that has claimed its job. -/
structure RunStart where
  jobId : String
  kind : SqlRun
  time : Int
  /-- The time of the scheduler's tick; `none` for a request. -/
  tick : Option Int
  deriving DecidableEq

structure EngineState where
  clock : Int
  /-- The jobs in the store. -/
  jobs : List Ipc.Job
  /-- The state file of each job. -/
  files : String → SchedFile
  /-- The claimed job ids. -/
  running : List String
  loop : SchedulerLoop
  /-- The `RunJob` requests that are being handled. -/
  requests : List RunTask
  /-- The runs that have started, newest first. -/
  starts : List RunStart

namespace EngineState

def start (clock : Int) (jobs : List Ipc.Job) (files : String → SchedFile) : EngineState :=
  { clock := clock, jobs := jobs, files := files, running := [], loop := .sleeping,
    requests := [], starts := [] }

def setFile (state : EngineState) (id : String) (file : SchedFile) : EngineState :=
  { state with files := fun other => if other = id then file else state.files other }

def claim (state : EngineState) (tick : Option Int) (task : RunTask) : EngineState :=
  { state with
    running := task.job.id :: state.running
    starts := ⟨task.job.id, task.kind, state.clock, tick⟩ :: state.starts }

/-- A run is over: the state file of a SQL job is written. -/
def finish (state : EngineState) (task : RunTask) (result : RunResult) : EngineState :=
  state.setFile task.job.id
    (if task.job.isSql then result.recordIn task.kind state.clock (state.files task.job.id)
      else state.files task.job.id)

def release (state : EngineState) (id : String) : EngineState :=
  { state with running := state.running.filter fun other => other ≠ id }

def record (state : EngineState) (task : RunTask) (status : String) : EngineState :=
  { state with jobs := JobStore.withRun task.job.id state.clock status state.jobs }

end EngineState

/-- A step of a spawned run, `run_job_kind`. -/
inductive TaskStep (tick : Option Int) (state : EngineState) (task : RunTask) :
    EngineState → RunTask → Prop
  | claim (hphase : task.phase = .spawned) (hfree : task.job.id ∉ state.running) :
      TaskStep tick state task (state.claim tick task) { task with phase := .running }
  | refuse (hphase : task.phase = .spawned) (hclaimed : task.job.id ∈ state.running) :
      TaskStep tick state task state
        { task with
          phase := .ended (RunReport.plain "skipped: a run is already in progress").status }
  | chain (hphase : task.phase = .running) (hsql : task.job.isSql = true) {file : SchedFile}
      (hwrite : ChainWrite state.clock (state.files task.job.id) file) :
      TaskStep tick state task (state.setFile task.job.id file) task
  | finish (hphase : task.phase = .running) (result : RunResult) :
      TaskStep tick state task (state.finish task result)
        { task with phase := .recorded result.status }
  | release {status : String} (hphase : task.phase = .recorded status) :
      TaskStep tick state task (state.release task.job.id) { task with phase := .ended status }

/-- What is assumed of a run of the engine: which calls reach the job store, and in
which states the outcome of a task is recorded. -/
structure EngineLimits where
  edit : JobCall → Prop
  record : EngineState → RunTask → Prop := fun _ _ => True

/-- A step of the engine. -/
inductive EngineStep (zone : TimeZone) (limits : EngineLimits) (state : EngineState) :
    EngineState → Prop
  | advance {later : Int} (h : state.clock ≤ later) :
      EngineStep zone limits state { state with clock := later }
  | edit {call : JobCall} (h : limits.edit call) :
      EngineStep zone limits state { state with jobs := call.apply state.jobs }
  | tick (h : state.loop = .sleeping) :
      EngineStep zone limits state { state with loop := .ticking state.clock state.jobs }
  | tickEnd {now : Int} (h : state.loop = .ticking now []) :
      EngineStep zone limits state { state with loop := .sleeping }
  | notDue {now : Int} {job : Ipc.Job} {rest : List Ipc.Job}
      (h : state.loop = .ticking now (job :: rest))
      (hdue : dueKind zone state.files job now = none) :
      EngineStep zone limits state { state with loop := .ticking now rest }
  | due {now : Int} {job : Ipc.Job} {rest : List Ipc.Job} {kind : SqlRun}
      (h : state.loop = .ticking now (job :: rest))
      (hdue : dueKind zone state.files job now = some kind) :
      EngineStep zone limits state { state with loop := .waiting now rest ⟨job, kind, .spawned⟩ }
  | scheduled {now : Int} {rest : List Ipc.Job} {task task' : RunTask} {state' : EngineState}
      (h : state.loop = .waiting now rest task) (hstep : TaskStep (some now) state task state' task') :
      EngineStep zone limits state { state' with loop := .waiting now rest task' }
  | scheduledDone {now : Int} {rest : List Ipc.Job} {task : RunTask} {status : String}
      (h : state.loop = .waiting now rest task) (hphase : task.phase = .ended status)
      (hrecord : limits.record state task) :
      EngineStep zone limits state { state.record task status with loop := .ticking now rest }
  | request {id : String} {job : Ipc.Job} (h : Keyed.lookup Ipc.Job.id id state.jobs = some job) :
      EngineStep zone limits state
        { state with requests := ⟨job, .full, .spawned⟩ :: state.requests }
  | requested {before after : List RunTask} {task task' : RunTask} {state' : EngineState}
      (h : state.requests = before ++ task :: after) (hstep : TaskStep none state task state' task') :
      EngineStep zone limits state { state' with requests := before ++ task' :: after }
  | requestDone {before after : List RunTask} {task : RunTask} {status : String}
      (h : state.requests = before ++ task :: after) (hphase : task.phase = .ended status)
      (hrecord : limits.record state task) :
      EngineStep zone limits state { state.record task status with requests := before ++ after }

def EngineReaches (zone : TimeZone) (limits : EngineLimits) : EngineState → EngineState → Prop :=
  Relation.ReflTransGen (EngineStep zone limits)

def JobCall.jobId : JobCall → String
  | .saveJob job => job.id
  | .delete id | .recordRun id _ _ => id

/-- A job that is not edited: no call names it. -/
def untouched (id : String) : EngineLimits := { edit := fun call => call.jobId ≠ id }

section Steps

variable {tick : Option Int} {state state' : EngineState} {task task' : RunTask} {call : JobCall}
  {jobs : List Ipc.Job} {job : Ipc.Job}

theorem TaskStep.frame (h : TaskStep tick state task state' task') :
    state'.jobs = state.jobs ∧ state'.clock = state.clock ∧ state'.loop = state.loop ∧
      task'.job = task.job ∧ task'.kind = task.kind := by
  cases h <;> exact ⟨rfl, rfl, rfl, rfl, rfl⟩

theorem JobCall.mem_of_mem_apply (h : job ∈ call.apply jobs) (hid : call.jobId ≠ job.id) :
    job ∈ jobs := by
  cases call with
  | saveJob =>
    rcases Keyed.mem_of_mem_upsert h with rfl | hmem
    · exact absurd rfl hid
    · exact hmem
  | delete => exact (List.mem_filter.mp h).1
  | recordRun =>
    rcases Keyed.mem_of_mem_modify h with hmem | ⟨old, -, hold, rfl⟩
    · exact hmem
    · exact absurd hold.symm hid

end Steps

end PbsGui.Engine
