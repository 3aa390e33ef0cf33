import PbsGui.Engine.ScheduledRuns
import PbsGui.Engine.SqlJobRuns
import PbsGui.Engine.SkippedRuns

/-!
# The status that is recorded for a run

`run_job_kind` reports how a run ended, and its two callers, `run_due` and `run_job`, turn that
into the job's last status.  "ok" is the status of every report without a warning, also for a
run that a cancel request ended and a request that found another run in progress.
-/

namespace PbsGui.Engine

open Lib Relation List

/-! ### From a run to its status -/

/-- Who waits for a run and records its status. -/
inductive RunCaller
  /-- `run_due` of the scheduler. -/
  | runDue
  /-- `run_job` of the handler. -/
  | runJob

namespace RunCaller

/-- The text of an error with the causes below it: the scheduler takes the outermost
message (`to_string`), the handler all of them (`{:#}`). -/
def errorText (caller : RunCaller) (message : String) (causes : List String) : String :=
  match caller with
  | runDue => message
  | runJob => ": ".intercalate (message :: causes)

def panicText (caller : RunCaller) (panicked : String) : String :=
  match caller with
  | runDue => "task failed: " ++ panicked
  | runJob => "job task failed: " ++ panicked

/-- The status recorded for what the task of the run returned; nothing if it panicked. -/
def status (caller : RunCaller) (causes : List String) (panicked : String) :
    Option (Except String RunReport) → String
  | some (.ok report) => report.status
  | some (.error message) => caller.errorText message causes
  | none => caller.panicText panicked

end RunCaller

/-- How a run of a file job ends; `landed` tells whether the server had finished the
snapshot by then. -/
inductive FileRunEnd
  | finished (cancelled : Bool)
  | cancelled (landed : Bool)
  | crashed (landed : Bool)

/-- The report of a file run that did not fail. -/
def RunOutcome.report (summary : String) : RunOutcome → RunReport
  | skipped => ⟨"no changes since last run; skipped", false⟩
  | backedUp warning => ⟨summary, warning⟩

/-- What runs leave behind: of a job with databases, and of one with files. -/
structure RunWorld (N : Type) where
  sql : SqlJobState
  files : FileJobState N

/-- A request for a run of the job, with what the world answers. -/
inductive RunRequest (N : Type)
  /-- Another run is in progress. -/
  | refused
  | sql (input : SqlRunInput)
  | files (env : RunEnv N) (summary : String) (ending : FileRunEnd)

section Runs

variable {N : Type} [DecidableEq N] (platform : Platform N) (humanBytes : UInt64 → String)

/-- A file run that is cut short after the server has finished the snapshot. -/
def landFiles (env : RunEnv N) (landed : Bool) (state : FileJobState N) : FileJobState N :=
  if landed then committed platform state env none else state

/-- `run_job_kind` of a file job that has been claimed. -/
def runFileJob (env : RunEnv N) (summary : String) (ending : FileRunEnd) (state : FileJobState N) :
    FileJobState N × Option (Except String RunReport) :=
  let done := runInner platform state env
  match ending, done.1 with
  | .crashed landed, _ => (landFiles platform env landed state, none)
  | .cancelled landed, _ => (landFiles platform env landed state, some (.ok (.plain "cancelled")))
  | .finished true, .error _ => (done.2, some (.ok (.plain "cancelled")))
  | .finished false, .error e => (done.2, some (.error e))
  | .finished _, .ok outcome => (done.2, some (.ok (outcome.report summary)))

namespace RunRequest

/-- What a request does, and what the task of the run returns. -/
def perform (request : RunRequest N) (world : RunWorld N) :
    RunWorld N × Option (Except String RunReport) :=
  match request with
  | refused => (world, some (.ok (.plain "skipped: a run is already in progress")))
  | sql input =>
    let done := runJobKind humanBytes input world.sql
    ({ world with sql := done.1 }, done.2)
  | files env summary ending =>
    let done := runFileJob platform env summary ending world.files
    ({ world with files := done.1 }, done.2)

/-- A cancel request came before the run had succeeded. -/
def Cancelled (request : RunRequest N) (world : RunWorld N) : Prop :=
  match request with
  | refused => False
  | sql input => (∃ during, input.ending = .cancelled during) ∨
      input.ending = .finished true ∧ ∃ e, (doBackup humanBytes input world.sql).2 = .error e
  | files env _ ending => (∃ landed, ending = .cancelled landed) ∨
      ending = .finished true ∧ ∃ e, (runInner platform world.files env).1 = .error e

end RunRequest

/-- A recorded run: the request, the state it started from, and its status. -/
structure RunRecord (N : Type) where
  caller : RunCaller
  request : RunRequest N
  before : RunWorld N
  status : String

/-- A job with its runs, newest first. -/
structure JobRuns (N : Type) where
  world : RunWorld N
  lastStatus : Option String
  records : List (RunRecord N)

def JobRuns.new (job : FileJob N) : JobRuns N := ⟨⟨.new, job, none, []⟩, none, []⟩

/-- A run of the job, and the record of its status. -/
def JobRuns.run (caller : RunCaller) (request : RunRequest N) (causes : List String)
    (panicked : String) (state : JobRuns N) : JobRuns N :=
  let done := request.perform platform humanBytes state.world
  let status := caller.status causes panicked done.2
  { world := done.1
    lastStatus := some status
    records := ⟨caller, request, state.world, status⟩ :: state.records }

/-- A step of the job's life. -/
inductive JobRunStep (state : JobRuns N) : JobRuns N → Prop
  | edit (job : FileJob N) :
      JobRunStep state
        { state with world := { state.world with files := { state.world.files with job := job } } }
  | run (caller : RunCaller) (request : RunRequest N) (causes : List String) (panicked : String) :
      JobRunStep state (state.run platform humanBytes caller request causes panicked)

def JobRunReaches : JobRuns N → JobRuns N → Prop :=
  ReflTransGen (JobRunStep platform humanBytes)

end Runs

/-- The backups that the rules decide on for the databases in turn. -/
inductive SqlLoop.Planned (plan : PlanKind) (run : SqlRun) :
    SqlLoop → List DbTurn → List SqlCommit → Prop
  | nil {loop : SqlLoop} : Planned plan run loop [] []
  | skip {loop : SqlLoop} {turn : DbTurn} {rest : List DbTurn} {commits : List SqlCommit}
      {state : DbState} {why : String} (hstate : turn.state = .ok state)
      (hdecide : Plan.decide plan run state loop.localFull = .skip why)
      (hrest : Planned plan run (loop.takeTurn plan run turn) rest commits) :
      Planned plan run loop (turn :: rest) commits
  | backup {loop : SqlLoop} {turn : DbTurn} {rest : List DbTurn} {commits : List SqlCommit}
      {state : DbState} {kind : SqlBackupType} {copyOnly : Bool} {note : Option String}
      (hstate : turn.state = .ok state)
      (hdecide : Plan.decide plan run state loop.localFull = .backup kind copyOnly note)
      (hrest : Planned plan run (loop.takeTurn plan run turn) rest commits) :
      Planned plan run loop (turn :: rest) (⟨turn.database, kind, copyOnly, .pbs⟩ :: commits)

/-- A SQL run has committed the backups it attempted, or had none to make: the cluster
instance is not active here, or the rules skip every database. -/
def SqlRunInput.Earned (input : SqlRunInput) (before after : SqlJobState) : Prop :=
  match input.destination with
  | .pbs =>
    input.connection = .ok true ∧ input.connect ≠ .ok () ∨
      ∃ commits, SqlLoop.Planned input.plan input.run (input.startLoop before) input.turns commits ∧
        after.commits = before.commits ++ commits
  | .folder path =>
    after.commits = before.commits ++
      input.turns.map fun turn => ⟨turn.database, .full, false, .folder path⟩

section Earned

variable {N : Type} [DecidableEq N] (platform : Platform N)

/-- A file run has committed a snapshot of every file, or found the sources unchanged. -/
def FileRunEarned (env : RunEnv N) (before after : FileJobState N) : Prop :=
  (∃ found, detectFiles platform env before.job = .ok (some found) ∧
      load before.file = some (hashFound platform found)) ∨
    ∃ archive found, doFileBackup platform env before.job = .ok archive ∧ archive.skipped = [] ∧
      after = committed platform before env found

/-- The run has committed what it attempted, or decided that there was nothing to do. -/
def RunRequest.Earned (request : RunRequest N) (before after : RunWorld N) : Prop :=
  match request with
  | refused => False
  | sql input => input.Earned before.sql after.sql
  | files env _ _ => FileRunEarned platform env before.files after.files

end Earned

theorem RunReport.status_eq_ok {report : RunReport} (h : report.status = "ok") :
    report.warning = false := by
  cases hwarn : report.warning with
  | false => rfl
  | true =>
    rw [RunReport.status, if_pos hwarn] at h
    simpa using congrArg String.toList h

theorem RunCaller.panicText_ne (caller : RunCaller) (panicked : String) :
    caller.panicText panicked ≠ "ok" := by
  intro h
  -- the fixed part alone is longer
  have hlen := congrArg String.length h
  have hok : "ok".length = 2 := rfl
  cases caller with
  | runDue =>
    change ("task failed: " ++ panicked).length = "ok".length at hlen
    have hfixed : "task failed: ".length = 13 := rfl
    rw [String.length_append] at hlen
    omega
  | runJob =>
    change ("job task failed: " ++ panicked).length = "ok".length at hlen
    have hfixed : "job task failed: ".length = 17 := rfl
    rw [String.length_append] at hlen
    omega

theorem RunCaller.errorText_eq_ok {caller : RunCaller} {message : String} {causes : List String}
    (h : caller.errorText message causes = "ok") : message = "ok" := by
  cases caller with
  | runDue => exact h
  | runJob =>
    cases causes with
    | nil => simpa [errorText] using h
    | cons =>
      have hchars := congrArg String.toList h
      rw [errorText, String.intercalate_cons_cons] at hchars
      simp only [String.toList_append] at hchars
      -- two characters leave no room for a message before the colon
      match hmsg : message.toList with
      | [] | [_] | _ :: _ :: _ => simp [hmsg] at hchars

/-! ### Runs of a SQL job -/

namespace SqlLoop

/-- Nothing has failed so far, and there is no warning. -/
def Quiet (loop : SqlLoop) : Prop := loop.failed = [] ∧ loop.warned = []

variable {plan : PlanKind} {run : SqlRun} {loop : SqlLoop} {turn : DbTurn} {turns : List DbTurn}

theorem not_quiet_fail (text : String) : ¬ (loop.fail text).Quiet := fun h => fail_failed h.1

theorem not_quiet_noChain (role : Role) : ¬ (loop.noChain turn role).Quiet := by
  intro h
  unfold noChain at h
  dsimp only at h
  split at h
  · exact not_quiet_fail _ h
  · simpa [warn] using h.2

theorem quiet_succeed {kind : SqlBackupType} {stats : Client.BackupStats}
    (h : (loop.succeed run turn kind stats).Quiet) : loop.Quiet := by
  unfold succeed at h
  dsimp only at h
  split at h <;> exact h

/-- A turn after which there is neither a failure nor a warning was skipped by the rules
or has committed its backup. -/
theorem takeTurn_quiet (h : (loop.takeTurn plan run turn).Quiet) :
    loop.Quiet ∧ ∃ state, turn.state = .ok state ∧
      ((∃ why, Plan.decide plan run state loop.localFull = .skip why ∧
          (loop.takeTurn plan run turn).job.commits = loop.job.commits) ∨
        ∃ kind copyOnly note,
          Plan.decide plan run state loop.localFull = .backup kind copyOnly note ∧
          (loop.takeTurn plan run turn).job.commits =
            loop.job.commits ++ [⟨turn.database, kind, copyOnly, .pbs⟩]) := by
  revert h
  fun_cases takeTurn plan run loop turn with
  | case1 | case3 | case5 => exact fun h => absurd h (not_quiet_fail _)
  | case4 => exact fun h => absurd h (not_quiet_noChain _)
  | case2 state hstate why hdec => exact fun h => ⟨h, state, hstate, .inl ⟨why, hdec, rfl⟩⟩
  | case6 state hstate kind copyOnly note hdec =>
    intro h
    have hquiet : (loop.commit turn.database kind copyOnly).Quiet := quiet_succeed h
    exact ⟨hquiet, state, hstate, .inr ⟨kind, copyOnly, note, hdec, succeed_commits⟩⟩

theorem quiet_of_foldl (h : (turns.foldl (takeTurn plan run) loop).Quiet) : loop.Quiet := by
  induction turns generalizing loop with
  | nil => exact h
  | cons turn rest ih => exact (takeTurn_quiet (ih h)).1

theorem planned_of_quiet (h : (turns.foldl (takeTurn plan run) loop).Quiet) :
    ∃ commits, Planned plan run loop turns commits ∧
      (turns.foldl (takeTurn plan run) loop).job.commits = loop.job.commits ++ commits := by
  induction turns generalizing loop with
  | nil => exact ⟨[], .nil, by rw [append_nil]; rfl⟩
  | cons turn rest ih =>
    obtain ⟨commits, hplanned, hcommits⟩ := ih h
    obtain ⟨-, state, hstate, hturn⟩ := takeTurn_quiet (quiet_of_foldl h)
    rw [foldl_cons, hcommits]
    rcases hturn with ⟨why, hdec, hsame⟩ | ⟨kind, copyOnly, note, hdec, hmore⟩
    · exact ⟨commits, .skip hstate hdec hplanned, by rw [hsame]⟩
    · refine ⟨_, .backup hstate hdec hplanned, ?_⟩
      rw [hmore, append_assoc, singleton_append]

theorem quiet_of_finish {humanBytes : UInt64 → String} {outcome : Outcome}
    (h : loop.finish humanBytes = .ok outcome) (hwarn : outcome.warning = false) : loop.Quiet := by
  rcases loop.finish_cases humanBytes with ⟨-, message, herror⟩ | ⟨hfail, message, hok⟩
  · rw [herror] at h
    cases h
  · rw [hok] at h
    cases h
    exact ⟨hfail, by simpa using hwarn⟩

end SqlLoop

theorem folderTurns_ok {path : String} {turns : List DbTurn} {job : SqlJobState} {total sum : UInt64}
    (h : (folderTurns path turns job total).2 = .ok sum) :
    (folderTurns path turns job total).1.commits = job.commits ++
      turns.map fun turn => ⟨turn.database, .full, false, .folder path⟩ := by
  induction turns generalizing job total with
  | nil => simp [folderTurns]
  | cons turn rest ih =>
    unfold folderTurns at h ⊢
    split at h
    · cases h
    · rw [ih h, append_assoc]
      rfl

section Sql

variable {humanBytes : UInt64 → String} {input : SqlRunInput} {job : SqlJobState}

variable {outcome : Outcome}

theorem backupSqlToPbs_ok (hdur : input.ending.during = none)
    (h : (backupSqlToPbs humanBytes input job).2 = .ok outcome) (hwarn : outcome.warning = false) :
    input.connection = .ok true ∧ input.connect ≠ .ok () ∨
      ∃ commits, SqlLoop.Planned input.plan input.run (input.startLoop job) input.turns commits ∧
        (backupSqlToPbs humanBytes input job).1.commits = job.commits ++ commits := by
  have hend : input.endLoop job = input.loopAfter job input.turns := by
    unfold SqlRunInput.endLoop
    rw [hdur]
  unfold backupSqlToPbs at h ⊢
  split
  · rename_i hnone
    rw [if_pos hnone] at h
    cases h
  · rename_i hsome
    rw [if_neg hsome] at h
    split at h
    · cases h
    · rename_i e hconn hconnect
      exact .inl ⟨hconn, by simp [hconnect]⟩
    · cases h
    · rw [hend] at h ⊢
      exact .inr (SqlLoop.planned_of_quiet (SqlLoop.quiet_of_finish h hwarn))

theorem backupSqlToFolder_ok {path : String}
    (h : (backupSqlToFolder humanBytes input path job).2 = .ok outcome) :
    (backupSqlToFolder humanBytes input path job).1.commits = job.commits ++
      input.turns.map fun turn => ⟨turn.database, .full, false, .folder path⟩ := by
  unfold backupSqlToFolder at h ⊢
  split
  · rename_i hnone
    rw [if_pos hnone] at h
    cases h
  · rename_i hsome
    rw [if_neg hsome] at h
    split at h
    · cases h
    · have hturns := @folderTurns_ok path input.turns job 0
      split at h
      · cases h
      · rename_i hfold
        rw [hfold] at hturns
        exact hturns rfl

theorem doBackup_earned (hdur : input.ending.during = none)
    (h : (doBackup humanBytes input job).2 = .ok outcome) (hwarn : outcome.warning = false) :
    input.Earned job (doBackup humanBytes input job).1 := by
  unfold SqlRunInput.Earned
  cases hdest : input.destination with
  | pbs =>
    simp only [doBackup, hdest] at h ⊢
    split
    · rename_i e hkey
      rw [hkey] at h
      cases h
    · rename_i hkey
      rw [hkey] at h
      exact backupSqlToPbs_ok hdur h hwarn
  | folder =>
    simp only [doBackup, hdest] at h ⊢
    exact backupSqlToFolder_ok h

theorem SqlRunInput.Earned.of_commits {before after other : SqlJobState}
    (h : input.Earned before after) (hcommits : other.commits = after.commits) :
    input.Earned before other := by
  unfold SqlRunInput.Earned at h ⊢
  rwa [hcommits]

/-- A run that no cancel request ended and that reports no warning has earned it. -/
theorem runJobKind_earned {report : RunReport} (hcanc : ∀ during, input.ending ≠ .cancelled during)
    (hfail : input.ending = .finished true → ∀ e, (doBackup humanBytes input job).2 ≠ .error e)
    (h : (runJobKind humanBytes input job).2 = some (.ok report)) (hwarn : report.warning = false) :
    input.Earned job (runJobKind humanBytes input job).1 := by
  simp only [runJobKind] at h
  cases hend : input.ending with
  | crashed =>
    rw [hend] at h
    cases h
  | cancelled during => exact absurd hend (hcanc during)
  | finished cancelled =>
    have hdur : input.ending.during = none := by
      rw [hend]
      rfl
    cases hdone : (doBackup humanBytes input job).2 with
    | error e =>
      cases cancelled with
      | true => exact absurd hdone (hfail hend e)
      | false =>
        rw [hend, hdone] at h
        cases h
    | ok =>
      rw [hend, hdone] at h
      cases cancelled with
      | true | false =>
        cases h
        exact (doBackup_earned hdur hdone hwarn).of_commits runJobKind_commits

end Sql

section Files

variable {N : Type} [DecidableEq N] {platform : Platform N} {humanBytes : UInt64 → String}

variable {state : FileJobState N}

theorem runInner_earned {env : RunEnv N} {outcome : RunOutcome}
    (h : (runInner platform state env).1 = .ok outcome) (hquiet : outcome ≠ .backedUp true) :
    FileRunEarned platform env state (runInner platform state env).2 := by
  rw [runInner] at h ⊢
  cases hdet : detectFiles platform env state.job with
  | error =>
    rw [hdet] at h
    cases h
  | ok found =>
    simp only [hdet] at h ⊢
    split at h
    · rename_i hsame
      obtain ⟨hsome, hload⟩ := hsame
      obtain ⟨files, rfl⟩ := Option.isSome_iff_exists.mp hsome
      exact .inl ⟨files, hdet, hload⟩
    · rename_i hother
      rw [if_neg hother]
      cases hback : doFileBackup platform env state.job with
      | error =>
        rw [hback] at h
        cases h
      | ok archive =>
        rw [hback] at h
        cases h
        -- a file that was skipped is a warning
        have hnone : archive.skipped = [] ∧ env.warnings = [] := by simpa using hquiet
        exact .inr ⟨archive, found, hback, hnone.1, rfl⟩

/-- A run that no cancel request ended and that reports no warning has earned it. -/
theorem runFileJob_earned {env : RunEnv N} {summary : String} {ending : FileRunEnd}
    {report : RunReport} (hcanc : ∀ landed, ending ≠ .cancelled landed)
    (hfail : ending = .finished true → ∀ e, (runInner platform state env).1 ≠ .error e)
    (h : (runFileJob platform env summary ending state).2 = some (.ok report))
    (hwarn : report.warning = false) :
    FileRunEarned platform env state (runFileJob platform env summary ending state).1 := by
  simp only [runFileJob] at h ⊢
  cases ending with
  | crashed => cases h
  | cancelled landed => exact absurd rfl (hcanc landed)
  | finished cancelled =>
    cases hdone : (runInner platform state env).1 with
    | error e =>
      cases cancelled with
      | true => exact absurd hdone (hfail rfl e)
      | false =>
        rw [hdone] at h
        cases h
    | ok outcome =>
      rw [hdone] at h
      cases cancelled with
      | true | false =>
        cases h
        have hquiet : outcome ≠ .backedUp true := by
          rintro rfl
          cases hwarn
        exact runInner_earned hdone hquiet

/-- A run that no cancel request ended and that reports no warning has earned it. -/
theorem RunRequest.perform_earned {request : RunRequest N} {world : RunWorld N} {report : RunReport}
    (href : request ≠ .refused) (hcanc : ¬ request.Cancelled platform humanBytes world)
    (h : (request.perform platform humanBytes world).2 = some (.ok report))
    (hwarn : report.warning = false) :
    request.Earned platform world (request.perform platform humanBytes world).1 := by
  cases request with
  | refused => exact absurd rfl href
  | sql =>
    refine runJobKind_earned (fun during hend => ?_) (fun hend e herror => ?_) h hwarn
    · exact hcanc (.inl ⟨during, hend⟩)
    · exact hcanc (.inr ⟨hend, e, herror⟩)
  | files =>
    refine runFileJob_earned (fun landed hend => ?_) (fun hend e herror => ?_) h hwarn
    · exact hcanc (.inl ⟨landed, hend⟩)
    · exact hcanc (.inr ⟨hend, e, herror⟩)

def RunRecord.Faithful (platform : Platform N) (humanBytes : UInt64 → String)
    (record : RunRecord N) : Prop :=
  ∃ causes panicked, record.status =
    record.caller.status causes panicked (record.request.perform platform humanBytes record.before).2

theorem RunRecord.Faithful.earned {record : RunRecord N}
    (h : record.Faithful platform humanBytes) (href : record.request ≠ .refused)
    (hcanc : ¬ record.request.Cancelled platform humanBytes record.before)
    (htext : (record.request.perform platform humanBytes record.before).2 ≠ some (.error "ok"))
    (hok : record.status = "ok") :
    record.request.Earned platform record.before
      (record.request.perform platform humanBytes record.before).1 := by
  obtain ⟨causes, panicked, hstat⟩ := h
  rw [hok] at hstat
  cases hret : (record.request.perform platform humanBytes record.before).2 with
  | none =>
    rw [hret] at hstat
    exact absurd hstat.symm (RunCaller.panicText_ne _ _)
  | some result =>
    cases result with
    | error =>
      rw [hret] at hstat htext
      exact absurd (by rw [RunCaller.errorText_eq_ok hstat.symm]) htext
    | ok =>
      rw [hret] at hstat
      exact RunRequest.perform_earned href hcanc hret
        (RunReport.status_eq_ok hstat.symm)

/-- In every sequence of runs, edits between them, the status recorded for a run that was
neither refused nor cancelled before it had succeeded is "ok" only if it has committed
what it attempted or had nothing to do; and the job's last status is that of the newest
run. -/
theorem okStatus_earned {start : FileJob N} {state : JobRuns N}
    (hreach : JobRunReaches platform humanBytes (.new start) state) :
    state.lastStatus = state.records.head?.map RunRecord.status ∧
      ∀ record ∈ state.records, record.request ≠ .refused →
        ¬ record.request.Cancelled platform humanBytes record.before →
        (record.request.perform platform humanBytes record.before).2 ≠ some (.error "ok") →
        record.status = "ok" →
        record.request.Earned platform record.before
          (record.request.perform platform humanBytes record.before).1 := by
  have hinv : state.lastStatus = state.records.head?.map RunRecord.status ∧
      ∀ record ∈ state.records, record.Faithful platform humanBytes := by
    refine @Transition.invariant_of_reachable _ _ (fun state : JobRuns N =>
      state.lastStatus = state.records.head?.map RunRecord.status ∧
        ∀ record ∈ state.records, record.Faithful platform humanBytes) _ _ ?_ ?_ hreach
    · exact ⟨rfl, fun record hrecord => absurd hrecord not_mem_nil⟩
    · intro before after hbefore hstep
      cases hstep with
      | edit => exact hbefore
      | run caller request causes panicked =>
        refine ⟨rfl, fun record hrecord => ?_⟩
        rcases mem_cons.mp hrecord with rfl | hold
        · exact ⟨causes, panicked, rfl⟩
        · exact hbefore.2 record hold
  exact ⟨hinv.1, fun record hrecord => (hinv.2 record hrecord).earned⟩

end Files

def refusedSession : RunEnv String := { dataRun readWell with upload := .error "connection reset" }

/-- A request during another run covers up the failure before it; a run that is cancelled
before anything was committed counts as a success. -/
theorem okStatus_not_earned :
    (∃ state : JobRuns String, JobRunReaches samplePlatform (fun _ => "1 B") (.new (dataJob "pbs1")) state ∧
      state.records.map RunRecord.status = ["ok", "connection reset"] ∧
      state.lastStatus = some "ok" ∧ state.world.files.runs = [] ∧
      ∃ record ∈ state.records, record.request = .refused ∧ record.status = "ok") ∧
    ∃ state : JobRuns String, JobRunReaches samplePlatform (fun _ => "1 B") (.new (dataJob "pbs1")) state ∧
      state.lastStatus = some "ok" ∧ state.world.files.runs = [] ∧
      ∃ record ∈ state.records, record.status = "ok" ∧
        ¬ record.request.Earned samplePlatform record.before state.world := by
  constructor
  · refine ⟨_, .tail (.single (.run .runDue (.files refusedSession "" (.finished false)) [] ""))
      (.run .runJob .refused [] ""), rfl, rfl, rfl, _, mem_cons_self, rfl, rfl⟩
  · refine ⟨_, .single (.run .runJob (.files (dataRun readWell) "" (.cancelled false)) [] ""),
      rfl, rfl, _, mem_cons_self, rfl, ?_⟩
    rintro (⟨found, -, hload⟩ | ⟨archive, found, -, -, hcommitted⟩)
    · cases hload
    · exact absurd (congrArg FileJobState.runs hcommitted) (cons_ne_nil _ _).symm

def sampleRecorded : JobRuns String :=
  (JobRuns.new (dataJob "pbs1")).run samplePlatform (fun _ => "1 B") .runDue
    (.files (dataRun readWell) "backed up 1 B" (.finished false)) [] ""

theorem sampleRecorded_earned : ∃ record ∈ sampleRecorded.records, record.status = "ok" ∧
    record.request.Earned samplePlatform record.before sampleRecorded.world := by
  have hreach : JobRunReaches samplePlatform (fun _ => "1 B") (.new (dataJob "pbs1")) sampleRecorded :=
    .single (.run _ _ _ _)
  refine ⟨_, mem_cons_self, rfl, (okStatus_earned hreach).2 _ mem_cons_self ?_ ?_ ?_ rfl⟩
  · intro hrefused
    cases hrefused
  · rintro (⟨landed, hending⟩ | ⟨hending, -⟩)
    · cases hending
    · cases hending
  · intro htext
    cases htext

end PbsGui.Engine
