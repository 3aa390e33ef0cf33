import PbsGui.Engine.ListStore
import PbsGui.Lib.Exposition

/-!
# The metrics exporter

`render` writes the last result of every job as lines of the Prometheus text format
(`metrics.rs`).  Names of jobs and databases are label values, which are escaped by three
replacements, one after the other.

Each `writeln` of the source is one constructor of `MetricsWrite`.  The text of all of them is
read back as one comment or one sample for each, with the names as they were.
-/

namespace PbsGui.Engine.Metrics

open Lib Lib.Exposition List

/-! ### Run state -/

/-- What the exporter does with `f64` values, and how it is shown. -/
structure FloatOps (F : Type) where
  /-- `v as f64`. -/
  ofInt : Int → F
  div : F → F → F
  /-- `v.fract() == 0.0`. -/
  fractIsZero : F → Bool
  /-- `v.abs() < 1e15`. -/
  isSmall : F → Bool
  /-- `v as i64`. -/
  toInt : F → Int
  /-- `format!("{v}")`. -/
  display : F → List Char
  /-- A decimal number without exponent, an infinity or not a number. -/
  display_isFloatText : ∀ v, isFloatText (display v) = true

/-- Point-in-time chain status for one database. -/
structure SqlDbStatus where
  database : String
  /-- Newest snapshot time across the full and log groups. -/
  chainLatest : Option Int
  stalled : Bool
  fullCount : Nat
  logCount : Nat
  /-- Span of the recoverable window. -/
  pitWindowSecs : Option Int
  deriving DecidableEq

structure JobRuntime (F : Type) where
  lastRun : Option Int := none
  lastSuccess : Option Int := none
  lastOk : Option Bool := none
  lastDuration : Option F := none
  lastBytes : Option Nat := none
  lastChunks : Option Nat := none
  lastUploaded : Option Nat := none
  lastReused : Option Nat := none
  lastUploadedBytes : Option Nat := none
  lastStoredBytes : Option Nat := none
  runsSuccess : Nat := 0
  runsFailure : Nat := 0
  runsSkipped : Nat := 0
  bytesTotal : Nat := 0
  running : Bool := false
  /-- Live progress of the run in flight. -/
  progressBytes : Nat := 0
  progressTotal : Nat := 0
  throughputBps : F
  databases : List SqlDbStatus := []

structure MetricsState (F : Type) where
  startTime : Int
  jobs : String → Option (JobRuntime F)

/-- Outcome of a run, for the per-result counters. -/
inductive RunResult
  | success
  | skipped
  | failure

/-- The figures of a finished backup (`BackupStats`). -/
structure BackupStats where
  bytes : Nat
  chunks : Nat
  uploaded : Nat
  reused : Nat
  uploadedBytes : Nat
  storedBytes : Nat

variable {F : Type} (ops : FloatOps F)

namespace MetricsState

/-- Change the entry of a job, after `or_default` made it. -/
def update (state : MetricsState F) (jobId : String) (change : JobRuntime F → JobRuntime F) :
    MetricsState F :=
  let entry := (state.jobs jobId).getD { throughputBps := ops.ofInt 0 }
  { state with jobs := fun id => if id = jobId then some (change entry) else state.jobs id }

def setRunning (state : MetricsState F) (jobId : String) (running : Bool) : MetricsState F :=
  state.update ops jobId fun j => { j with running := running }

def recordProgress (state : MetricsState F) (jobId : String) (bytesDone totalBytes : Nat)
    (throughputBps : F) : MetricsState F :=
  state.update ops jobId fun j =>
    { j with
      running := true, progressBytes := bytesDone, progressTotal := totalBytes
      throughputBps := throughputBps }

/-- Record a finished run's outcome and last-run gauges; counters are `u64`. -/
def recordRun (state : MetricsState F) (now : Int) (jobId : String) (result : RunResult)
    (duration : F) (stats : Option BackupStats) : MetricsState F :=
  state.update ops jobId fun j =>
    let j := { j with running := false, lastRun := some now, lastDuration := some duration }
    let j :=
      match result with
      | .success =>
        { j with
          runsSuccess := (j.runsSuccess + 1) % 2 ^ 64, lastOk := some true
          lastSuccess := some now }
      -- a skip is not a failure
      | .skipped => { j with runsSkipped := (j.runsSkipped + 1) % 2 ^ 64, lastOk := some true }
      | .failure => { j with runsFailure := (j.runsFailure + 1) % 2 ^ 64, lastOk := some false }
    let j :=
      match stats with
      | some s =>
        { j with
          lastBytes := some s.bytes, lastChunks := some s.chunks
          lastUploaded := some s.uploaded, lastReused := some s.reused
          lastUploadedBytes := some s.uploadedBytes, lastStoredBytes := some s.storedBytes
          bytesTotal := (j.bytesTotal + s.bytes) % 2 ^ 64 }
      | none => j
    { j with progressBytes := 0, progressTotal := 0, throughputBps := ops.ofInt 0 }

/-- Replace a job's per-database point-in-time status. -/
def setSqlStatus (state : MetricsState F) (jobId : String) (databases : List SqlDbStatus) :
    MetricsState F :=
  state.update ops jobId fun j => { j with databases := databases }

end MetricsState

/-- `str::replace` of one character. -/
def replaceChar (old : Char) (new text : List Char) : List Char :=
  text.flatMap fun c => if c = old then new else [c]

def esc (s : List Char) : List Char :=
  replaceChar '\n' ['\\', 'n'] (replaceChar '\"' ['\\', '\"'] (replaceChar '\\' ['\\', '\\'] s))

/-- Format a value: integers without a decimal point, otherwise plain. -/
def fmt (v : F) : List Char :=
  if ops.fractIsZero v && ops.isSmall v then signedText (ops.toInt v) else ops.display v

def protectionLabel : Ipc.SqlProtection → String
  | .pointInTime _ _ => "point_in_time"
  | .dailyRestorePoints _ => "daily_restore_points"
  | .secondaryCopy _ => "secondary_copy"

def RunResult.label : RunResult → String
  | .success => "success"
  | .failure => "failure"
  | .skipped => "skipped"

/-! ### Families -/

inductive MetricKind
  | gauge
  | counter

def MetricKind.label : MetricKind → String
  | .gauge => "gauge"
  | .counter => "counter"

theorem isMetricName_ofList {name : List Char} (h : isMetricName name = true) :
    isMetricName (String.ofList name).toList = true := by
  rwa [String.toList_ofList]

theorem newline_notMem_ofList {text : List Char} (h : '\n' ∉ text) :
    '\n' ∉ (String.ofList text).toList := by
  rwa [String.toList_ofList]

/-- A family of samples as its help presents it. -/
structure MetricHead where
  name : String
  help : String
  kind : MetricKind := .gauge
  isName : isMetricName name.toList = true := by exact isMetricName_ofList (by decide)
  oneLine : '\n' ∉ help.toList := by exact newline_notMem_ofList (by decide)

def buildInfoHead : MetricHead := { name := "pbsgui_build_info", help := "Build information." }

def jobsHead : MetricHead := { name := "pbsgui_jobs", help := "Number of configured jobs." }

def startTimeHead : MetricHead :=
  { name := "pbsgui_engine_start_timestamp_seconds", help := "Engine start time." }

def jobInfoHead : MetricHead := { name := "pbsgui_job_info", help := "Static job metadata." }

def jobRunsHead : MetricHead :=
  { name := "pbsgui_job_runs_total", help := "Runs by result since engine start."
    kind := .counter }

/-- A gauge of a job; jobs without a value have no sample. -/
structure JobGauge (F : Type) where
  head : MetricHead
  pick : JobRuntime F → Option F

/-- A gauge of a database. -/
structure SqlGauge (F : Type) where
  head : MetricHead
  pick : SqlDbStatus → Option F

def FloatOps.ofBool (b : Bool) : F := ops.ofInt (if b then 1 else 0)

def FloatOps.ofNat (value : Nat) : F := ops.ofInt value

def jobGauges : List (JobGauge F) :=
  [ { head :=
        { name := "pbsgui_job_running", help := "1 while a backup for the job is running." }
      pick := fun r => some (ops.ofBool r.running) },
    { head :=
        { name := "pbsgui_job_last_run_timestamp_seconds", help := "Time of the last run." }
      pick := fun r => r.lastRun.map ops.ofInt },
    { head :=
        { name := "pbsgui_job_last_success_timestamp_seconds"
          help := "Time of the last successful run." }
      pick := fun r => r.lastSuccess.map ops.ofInt },
    { head :=
        { name := "pbsgui_job_last_run_success", help := "1 if the last run succeeded, else 0." }
      pick := fun r => r.lastOk.map ops.ofBool },
    { head :=
        { name := "pbsgui_job_last_duration_seconds", help := "Duration of the last run." }
      pick := fun r => r.lastDuration },
    { head := { name := "pbsgui_job_last_size_bytes", help := "Size of the last backup." }
      pick := fun r => r.lastBytes.map ops.ofNat },
    { head := { name := "pbsgui_job_last_chunks", help := "Chunks in the last backup." }
      pick := fun r => r.lastChunks.map ops.ofNat },
    { head :=
        { name := "pbsgui_job_last_chunks_uploaded"
          help := "Chunks uploaded in the last backup." }
      pick := fun r => r.lastUploaded.map ops.ofNat },
    { head :=
        { name := "pbsgui_job_last_chunks_reused"
          help := "Chunks reused (deduplicated) in the last backup." }
      pick := fun r => r.lastReused.map ops.ofNat },
    { head :=
        { name := "pbsgui_job_last_uploaded_bytes"
          help := "Plaintext bytes uploaded (not deduplicated) in the last backup." }
      pick := fun r => r.lastUploadedBytes.map ops.ofNat },
    { head :=
        { name := "pbsgui_job_last_stored_bytes"
          help := "Encoded bytes stored after compression/encryption in the last backup." }
      pick := fun r => r.lastStoredBytes.map ops.ofNat },
    { head :=
        { name := "pbsgui_job_last_compression_ratio"
          help := "Compression ratio of uploaded data in the last backup (uploaded/stored)." }
      pick := fun r =>
        match r.lastUploadedBytes, r.lastStoredBytes with
        | some u, some s => if s > 0 then some (ops.div (ops.ofNat u) (ops.ofNat s)) else none
        | _, _ => none },
    -- live progress, absent while a job is not running
    { head :=
        { name := "pbsgui_job_progress_bytes"
          help := "Bytes processed so far in the running backup." }
      pick := fun r => if r.running then some (ops.ofNat r.progressBytes) else none },
    { head :=
        { name := "pbsgui_job_progress_total_bytes"
          help := "Estimated total bytes for the running backup (0 if unknown)." }
      pick := fun r =>
        if r.running ∧ r.progressTotal > 0 then some (ops.ofNat r.progressTotal) else none },
    { head :=
        { name := "pbsgui_job_throughput_bytes_per_second"
          help := "Throughput of the running backup." }
      pick := fun r => if r.running then some r.throughputBps else none } ]

def bytesTotalGauge : JobGauge F where
  head :=
    { name := "pbsgui_job_bytes_backed_up_total"
      help := "Cumulative bytes backed up since engine start." }
  pick := fun r => some (ops.ofNat r.bytesTotal)

def sqlGauges : List (SqlGauge F) :=
  [ { head :=
        { name := "pbsgui_sql_chain_latest_timestamp_seconds"
          help := "Newest snapshot time in the shared PBS group." }
      pick := fun db => db.chainLatest.map ops.ofInt },
    { head :=
        { name := "pbsgui_sql_chain_stalled"
          help := "1 if the point-in-time chain has stopped advancing." }
      pick := fun db => some (ops.ofBool db.stalled) },
    { head :=
        { name := "pbsgui_sql_full_count", help := "Full backups retained in the group." }
      pick := fun db => some (ops.ofNat db.fullCount) },
    { head := { name := "pbsgui_sql_log_count", help := "Log backups retained in the group." }
      pick := fun db => some (ops.ofNat db.logCount) },
    { head :=
        { name := "pbsgui_sql_pit_window_seconds"
          help := "Span of the recoverable point-in-time window." }
      pick := fun db => db.pitWindowSecs.map ops.ofInt } ]

/-! ### Rendering -/

/-- A sample with what it is built from; `commit` is what the engine was built from, if the
build named it. -/
inductive MetricsSample (F : Type)
  | buildInfo (commit : Option String)
  | jobs (count : Nat)
  | startTime (seconds : Int)
  | jobInfo (job : Ipc.Job)
  | jobGauge (head : MetricHead) (job : Ipc.Job) (value : F)
  | jobRuns (job : Ipc.Job) (result : RunResult) (count : Nat)
  | sqlGauge (head : MetricHead) (job : Ipc.Job) (database : String) (value : F)

/-- A line that is written. -/
inductive MetricsWrite (F : Type)
  | help (head : MetricHead)
  | type (head : MetricHead)
  | sample (sample : MetricsSample F)

def sourceLabel (job : Ipc.Job) : String :=
  match job.source with
  | .sql _ _ _ => "sql"
  | .files _ _ _ => "files"

def planLabel (job : Ipc.Job) : String :=
  match job.source with
  | .sql _ _ protection => protectionLabel protection
  | .files _ _ _ => ""

def destinationLabel (job : Ipc.Job) : String :=
  match job.destination with
  | .pbs _ _ => "pbs"
  | .folder _ => "folder"

def encryptedLabel (job : Ipc.Job) : String := if job.encrypted then "true" else "false"

def MetricsSample.text : MetricsSample F → List Char
  | .buildInfo commit =>
    sampleText buildInfoHead.name.toList
      [labelText "version".toList "0.0.1".toList,
        labelText "commit".toList (esc (commit.getD "dev").toList)] ['1']
  | .jobs count => jobsHead.name.toList ++ ' ' :: Nat.toDigits 10 count
  | .startTime seconds => startTimeHead.name.toList ++ ' ' :: signedText seconds
  | .jobInfo job =>
    sampleText jobInfoHead.name.toList
      [labelText "job".toList (esc job.name.toList), labelText "job_id".toList (esc job.id.toList),
        labelText "source".toList (sourceLabel job).toList,
        labelText "destination".toList (destinationLabel job).toList,
        labelText "plan".toList (planLabel job).toList,
        labelText "encrypted".toList (encryptedLabel job).toList] ['1']
  | .jobGauge head job value =>
    sampleText head.name.toList [labelText "job".toList (esc job.name.toList)] (fmt ops value)
  | .jobRuns job result count =>
    sampleText jobRunsHead.name.toList
      [labelText "job".toList (esc job.name.toList),
        labelText "result".toList result.label.toList] (Nat.toDigits 10 count)
  | .sqlGauge head job database value =>
    sampleText head.name.toList
      [labelText "job".toList (esc job.name.toList),
        labelText "database".toList (esc database.toList)] (fmt ops value)

def MetricsWrite.text : MetricsWrite F → List Char
  | .help head => '#' :: " HELP ".toList ++ head.name.toList ++ ' ' :: head.help.toList
  | .type head => '#' :: " TYPE ".toList ++ head.name.toList ++ ' ' :: head.kind.label.toList
  | .sample one => one.text ops

/-- A family, which is written as its help, its type and its samples. -/
structure Family (F : Type) where
  head : MetricHead
  samples : List (MetricsSample F)

def Family.writes (family : Family F) : List (MetricsWrite F) :=
  .help family.head :: .type family.head :: family.samples.map .sample

section Families

variable (state : MetricsState F) (jobs : List Ipc.Job)

def tracked : List (Ipc.Job × JobRuntime F) :=
  jobs.filterMap fun job => (state.jobs job.id).map fun r => (job, r)

/-- One gauge family across all jobs, skipping jobs with no value yet. -/
def jobGauge (gauge : JobGauge F) : Family F where
  head := gauge.head
  samples := (tracked state jobs).filterMap fun (job, r) =>
    (gauge.pick r).map fun v => .jobGauge gauge.head job v

def jobRuns : Family F where
  head := jobRunsHead
  samples := (tracked state jobs).flatMap fun (job, r) =>
    [.jobRuns job .success r.runsSuccess, .jobRuns job .failure r.runsFailure,
      .jobRuns job .skipped r.runsSkipped]

def sqlGauge (gauge : SqlGauge F) : Family F where
  head := gauge.head
  samples := (tracked state jobs).flatMap fun (job, r) =>
    r.databases.filterMap fun db =>
      (gauge.pick db).map fun v => .sqlGauge gauge.head job db.database v

/-- The families in the order they are written. -/
def families (commit : Option String) : List (Family F) :=
  [{ head := buildInfoHead, samples := [.buildInfo commit] },
    { head := jobsHead, samples := [.jobs jobs.length] },
    { head := startTimeHead, samples := [.startTime state.startTime] },
    { head := jobInfoHead, samples := jobs.map .jobInfo }] ++
  (jobGauges ops).map (jobGauge state jobs) ++
  [jobRuns state jobs, jobGauge state jobs (bytesTotalGauge ops)] ++
  (sqlGauges ops).map (sqlGauge state jobs)

end Families

def renderWrites (commit : Option String) (store : JobStore) (state : MetricsState F) :
    List (MetricsWrite F) :=
  (families ops state store.list commit).flatMap Family.writes

def render (commit : Option String) (store : JobStore) (state : MetricsState F) : List Char :=
  linesText ((renderWrites ops commit store state).map (MetricsWrite.text ops))

/-! ### Reading the text back -/

namespace MetricsSample

def head : MetricsSample F → MetricHead
  | .buildInfo _ => buildInfoHead
  | .jobs _ => jobsHead
  | .startTime _ => startTimeHead
  | .jobInfo _ => jobInfoHead
  | .jobGauge head _ _ => head
  | .jobRuns _ _ _ => jobRunsHead
  | .sqlGauge head _ _ _ => head

/-- The labels, with names of jobs and databases as they are. -/
def labels : MetricsSample F → List (List Char × List Char)
  | .buildInfo commit =>
    [("version".toList, "0.0.1".toList), ("commit".toList, (commit.getD "dev").toList)]
  | .jobs _ => []
  | .startTime _ => []
  | .jobInfo job =>
    [("job".toList, job.name.toList), ("job_id".toList, job.id.toList),
      ("source".toList, (sourceLabel job).toList),
      ("destination".toList, (destinationLabel job).toList),
      ("plan".toList, (planLabel job).toList), ("encrypted".toList, (encryptedLabel job).toList)]
  | .jobGauge _ job _ => [("job".toList, job.name.toList)]
  | .jobRuns job result _ =>
    [("job".toList, job.name.toList), ("result".toList, result.label.toList)]
  | .sqlGauge _ job database _ =>
    [("job".toList, job.name.toList), ("database".toList, database.toList)]

def value : MetricsSample F → List Char
  | .buildInfo _ => ['1']
  | .jobs count => Nat.toDigits 10 count
  | .startTime seconds => signedText seconds
  | .jobInfo _ => ['1']
  | .jobGauge _ _ value => fmt ops value
  | .jobRuns _ _ count => Nat.toDigits 10 count
  | .sqlGauge _ _ _ value => fmt ops value

end MetricsSample

def MetricsWrite.meaning : MetricsWrite F → ExpositionLine
  | .help head => .comment (" HELP ".toList ++ head.name.toList ++ ' ' :: head.help.toList)
  | .type head => .comment (" TYPE ".toList ++ head.name.toList ++ ' ' :: head.kind.label.toList)
  | .sample one => .sample one.head.name.toList one.labels (one.value ops) none

theorem esc_eq_escapeValue (s : List Char) : esc s = escapeValue s := by
  induction s with
  | nil => rfl
  | cons c s ih =>
    have happ : ∀ old new (left right : List Char),
        replaceChar old new (left ++ right) = replaceChar old new left ++ replaceChar old new right :=
      fun old new left right => flatMap_append
    have hescape : esc (c :: s) = esc [c] ++ esc s := by
      rw [esc, esc, esc, ← happ, ← happ, ← happ, singleton_append]
    have hone : esc [c] = escapeChar c := by
      rw [escapeChar]
      by_cases hslash : c = '\\'
      · rw [if_pos hslash, hslash]
        rfl
      by_cases hquote : c = '\"'
      · rw [if_neg hslash, if_pos hquote, hquote]
        rfl
      by_cases hline : c = '\n'
      · rw [if_neg hslash, if_neg hquote, if_pos hline, hline]
        rfl
      · simp [esc, replaceChar, hslash, hquote, hline]
    rw [hescape, ih, hone, escapeValue, escapeValue, flatMap_cons]

theorem isLabelName_ofList {name : List Char} (h : isLabelName name = true) :
    isLabelName (String.ofList name).toList = true := by
  rwa [String.toList_ofList]

variable {value : List Char}

theorem escapeValue_ofList (h : escapeValue value = value) :
    escapeValue (String.ofList value).toList = (String.ofList value).toList := by
  rwa [String.toList_ofList]

theorem isFloatText_fmt (v : F) : isFloatText (fmt ops v) = true := by
  rw [fmt]
  split
  · exact isFloatText_signedText _
  · exact ops.display_isFloatText v

theorem escapeValue_sourceLabel (job : Ipc.Job) :
    escapeValue (sourceLabel job).toList = (sourceLabel job).toList := by
  unfold sourceLabel
  cases job.source with
  | files | sql => exact escapeValue_ofList (by decide)

theorem escapeValue_planLabel (job : Ipc.Job) :
    escapeValue (planLabel job).toList = (planLabel job).toList := by
  unfold planLabel
  cases job.source with
  | files => exact escapeValue_ofList (by decide)
  | sql _ _ protection => cases protection <;> exact escapeValue_ofList (by decide)

theorem escapeValue_destinationLabel (job : Ipc.Job) :
    escapeValue (destinationLabel job).toList = (destinationLabel job).toList := by
  unfold destinationLabel
  cases job.destination <;> exact escapeValue_ofList (by decide)

theorem escapeValue_encryptedLabel (job : Ipc.Job) :
    escapeValue (encryptedLabel job).toList = (encryptedLabel job).toList := by
  unfold encryptedLabel
  split <;> exact escapeValue_ofList (by decide)

theorem escapeValue_resultLabel (result : RunResult) :
    escapeValue result.label.toList = result.label.toList := by
  cases result <;> exact escapeValue_ofList (by decide)

theorem parseLine_labelled (head : MetricHead) {labels : List (List Char × List Char)}
    {written : List (List Char)} (hsome : labels ≠ [])
    (hnames : ∀ label ∈ labels, isLabelName label.1 = true) (hvalue : isFloatText value = true)
    (hwrit : labelTexts labels = written) :
    '\n' ∉ sampleText head.name.toList written value ∧
      parseLine (sampleText head.name.toList written value) =
        some (.sample head.name.toList labels value none) := by
  rw [← hwrit]
  exact ⟨newline_notMem_sampleText head.isName hnames hvalue,
    parseLine_sampleText head.isName hsome hnames hvalue⟩

theorem parseLine_unlabelled (head : MetricHead) (hvalue : isFloatText value = true) :
    '\n' ∉ head.name.toList ++ ' ' :: value ∧
      parseLine (head.name.toList ++ ' ' :: value) =
        some (.sample head.name.toList [] value none) := by
  refine ⟨?_, parseLine_plain head.isName hvalue⟩
  simp [newline_notMem_name head.isName, newline_notMem_value hvalue]

theorem parseLine_sample (sample : MetricsSample F) :
    '\n' ∉ sample.text ops ∧
      parseLine (sample.text ops) =
        some (.sample sample.head.name.toList sample.labels (sample.value ops) none) := by
  have hone : isFloatText ['1'] = true := by decide
  have hjob : isLabelName "job".toList = true := isLabelName_ofList (by decide)
  cases sample with
  | buildInfo =>
    refine parseLine_labelled buildInfoHead (cons_ne_nil _ _) ?_ hone ?_
    · exact forall_mem_cons.mpr ⟨isLabelName_ofList (by decide),
        forall_mem_singleton.mpr (isLabelName_ofList (by decide))⟩
    · have hver : escapeValue "0.0.1".toList = "0.0.1".toList := escapeValue_ofList (by decide)
      simp only [labelTexts, MetricsSample.labels, map_cons, map_nil, hver, esc_eq_escapeValue]
  | jobs count => exact parseLine_unlabelled jobsHead (isFloatText_toDigits count)
  | startTime seconds => exact parseLine_unlabelled startTimeHead (isFloatText_signedText seconds)
  | jobInfo =>
    refine parseLine_labelled jobInfoHead (cons_ne_nil _ _) ?_ hone ?_
    · simp only [MetricsSample.labels, forall_mem_cons, not_mem_nil, false_implies,
        implies_true, and_true]
      exact ⟨hjob, isLabelName_ofList (by decide), isLabelName_ofList (by decide),
        isLabelName_ofList (by decide), isLabelName_ofList (by decide),
        isLabelName_ofList (by decide)⟩
    · simp only [labelTexts, MetricsSample.labels, map_cons, map_nil, esc_eq_escapeValue,
        escapeValue_sourceLabel, escapeValue_destinationLabel, escapeValue_planLabel,
        escapeValue_encryptedLabel]
  | jobGauge head job value =>
    refine parseLine_labelled head (cons_ne_nil _ _) (forall_mem_singleton.mpr hjob)
      (isFloatText_fmt ops value) ?_
    simp only [labelTexts, MetricsSample.labels, map_cons, map_nil, esc_eq_escapeValue]
  | jobRuns job result count =>
    refine parseLine_labelled jobRunsHead (cons_ne_nil _ _) ?_ (isFloatText_toDigits count) ?_
    · exact forall_mem_cons.mpr ⟨hjob, forall_mem_singleton.mpr (isLabelName_ofList (by decide))⟩
    · simp only [labelTexts, MetricsSample.labels, map_cons, map_nil, esc_eq_escapeValue,
        escapeValue_resultLabel]
  | sqlGauge head job database value =>
    refine parseLine_labelled head (cons_ne_nil _ _) ?_ (isFloatText_fmt ops value) ?_
    · exact forall_mem_cons.mpr ⟨hjob, forall_mem_singleton.mpr (isLabelName_ofList (by decide))⟩
    · simp only [labelTexts, MetricsSample.labels, map_cons, map_nil, esc_eq_escapeValue]

theorem parseLine_write (write : MetricsWrite F) :
    '\n' ∉ write.text ops ∧ parseLine (write.text ops) = some (write.meaning ops) := by
  have hcomment : ∀ front text : List Char, '\n' ∉ front → '\n' ∉ text → ∀ head : MetricHead,
      '\n' ∉ '#' :: front ++ head.name.toList ++ ' ' :: text := by
    intro front text hfront htext head
    simp [hfront, htext, newline_notMem_name head.isName]
  cases write with
  | help head => exact ⟨hcomment _ _ (newline_notMem_ofList (by decide)) head.oneLine head, rfl⟩
  | type head =>
    have hkind : '\n' ∉ head.kind.label.toList := by
      cases head.kind <;> exact newline_notMem_ofList (by decide)
    exact ⟨hcomment _ _ (newline_notMem_ofList (by decide)) hkind head, rfl⟩
  | sample sample => exact parseLine_sample ops sample

theorem parseExposition_render (commit : Option String) (store : JobStore)
    (state : MetricsState F) :
    parseExposition (render ops commit store state) =
      some ((renderWrites ops commit store state).map (MetricsWrite.meaning ops)) :=
  parseExposition_linesText (fun write _ => (parseLine_write ops write).1)
    fun write _ => (parseLine_write ops write).2

/-- The text has one line for each line that is written, and each is read as one comment or
as one sample with the names it was built from. -/
theorem render_read_back (commit : Option String) (store : JobStore) (state : MetricsState F) :
    (render ops commit store state).splitOn '\n' =
        (renderWrites ops commit store state).map (MetricsWrite.text ops) ++ [[]] ∧
      (∀ write ∈ renderWrites ops commit store state,
        parseLine (write.text ops) = some (write.meaning ops)) ∧
      parseExposition (render ops commit store state) =
        some ((renderWrites ops commit store state).map (MetricsWrite.meaning ops)) := by
  refine ⟨splitOn_linesText fun line hline => ?_, fun write _ => (parseLine_write ops write).2,
    parseExposition_render ops commit store state⟩
  obtain ⟨write, -, rfl⟩ := mem_map.mp hline
  exact (parseLine_write ops write).1

def integers : FloatOps Int where
  ofInt := id
  div := (· / ·)
  fractIsZero := fun _ => true
  isSmall := fun v => decide (v.natAbs < 10 ^ 15)
  toInt := id
  display := signedText
  display_isFloatText := isFloatText_signedText

end PbsGui.Engine.Metrics
