import PbsGui.Engine.ChannelUpload
import PbsGui.Engine.Metrics
import PbsGui.Engine.RunStatuses
import PbsGui.Relay.Backup

/-!
# Runs that a cancel request ends

`run_job_kind` runs `run_inner` against a cancellation token.  Its `select!` takes a result
that is ready, but drops a run that is still waiting; what it had asked of the server by then
may still happen.

The model follows a run that writes one archive, of a file job or of a SQL job with one
database: the upload of `backup_dynamic_reader` with the archiver or the device beside it, the
server, which commits when a `finish` request has reached it, and the token, which can be
cancelled at any moment.

A run is reported truly as long as no cancel request is pending between the `finish` request
and the end of `run_inner`.  In that window a committed snapshot is reported as cancelled.
-/

namespace PbsGui.Engine.CancelledRuns

open Lib Client Relay Relation List

/-- The part of an archive's report that a run's summary is made of. -/
structure ArchiveReport where
  skipped : List Skipped
  warnings : List String

/-- An error of the archiver; a broken pipe is what it meets when the upload has stopped. -/
structure ArchiverError where
  text : String
  brokenPipe : Bool

/-- The most skipped files named in a run's summary. -/
def maxSkippedNamed : Nat := 3

def skippedSummary (skipped : List Skipped) : String :=
  let named := (skipped.take maxSkippedNamed).map fun file => file.path ++ " (" ++ file.reason ++ ")"
  let more := skipped.length - maxSkippedNamed
  "skipped " ++ toString skipped.length ++ " file(s) that could not be read: " ++
    "; ".intercalate named ++
    (if 0 < more then "; and " ++ toString more ++ " more (see the run log)" else "")

/-- The end of `backup_files_to_pbs`; `archived` is an error when the archiver's task
panicked. -/
def combineArchived (archived : Except String (Except ArchiverError ArchiveReport))
    (upload : Except PbsError BackupStats) : Except String (BackupStats × ArchiveReport) :=
  match archived with
  | .error text => .error ("archive task failed: " ++ text)
  | .ok archived =>
    match archived, upload with
    | .ok report, .ok stats => .ok (stats, report)
    | .error archiver, .error pbs =>
      -- the upload stopped first, so the archiver's write failed with a broken pipe
      if archiver.brokenPipe then .error pbs.text
      else .error ("archiving the sources failed: " ++ archiver.text)
    | .error archiver, .ok _ => .error ("archiving the sources failed: " ++ archiver.text)
    | .ok _, .error pbs => .error pbs.text

/-- Combine the `BACKUP` statement and the upload. -/
def combinePbsResult (backup : Except String Unit) (upload : Except PbsError BackupStats) :
    Except String BackupStats :=
  match backup, upload with
  | .ok (), .ok stats => .ok stats
  | .ok (), .error pbs => .error ("PBS upload failed: " ++ pbs.text)
  | .error sql, .ok _ => .error ("BACKUP failed: " ++ sql)
  | .error sql, .error pbs =>
    .error ("PBS upload failed: " ++ pbs.text ++ "; BACKUP also failed: " ++ sql)

/-- The files branch of `do_backup` after the backup. -/
def filesOutcome (humanBytes : UInt64 → String) (stats : BackupStats) (report : ArchiveReport) :
    Outcome :=
  { message := "backed up " ++ (humanBytes stats.bytes ++ ": " ++ toString stats.chunks ++
      " chunks, " ++ toString stats.uploaded ++ " uploaded, " ++ toString stats.reused ++
      " reused" ++
      (if report.skipped = [] then "" else "; " ++ skippedSummary report.skipped) ++
      (if report.warnings = [] then ""
        else "; " ++ toString report.warnings.length ++ " warning(s)"))
    stats := some stats
    warning := report.skipped ≠ [] ∨ report.warnings ≠ [] }

/-- The database of a SQL job with one, when the rules say that it is backed up. -/
structure OneDatabase where
  job : SqlJobState
  localFull : Bool
  plan : PlanKind
  run : SqlRun
  turn : DbTurn
  state : DbState
  kind : SqlBackupType
  copyOnly : Bool
  note : Option String
  state_eq : turn.state = .ok state
  session_eq : turn.session = .ok ()
  decide_eq : Plan.decide plan run state localFull = .backup kind copyOnly note

/-- What `backup_sql_to_pbs` makes of the database's result. -/
def OneDatabase.outcome (humanBytes : UInt64 → String) (db : OneDatabase)
    (result : Except String BackupStats) : Except String Outcome :=
  ((SqlLoop.start db.job db.localFull).takeTurn db.plan db.run
    { db.turn with result := result }).finish humanBytes

/-- The ways in which a run writes one archive. -/
inductive SingleArchive
  /-- A file job. -/
  | files
  /-- A SQL job with one database, over the local device. -/
  | sql (db : OneDatabase)
  /-- The same through a relay agent, from the session with the agent on. -/
  | relay (codec : ControlCodec) (agent : AgentSession VdiDevice) (db : OneDatabase)

namespace SingleArchive

/-- What stands behind the reader of the upload. -/
def Env : SingleArchive → Type
  | files | sql _ => Catalog
  | relay _ _ _ => RelayEnv

def env : (job : SingleArchive) → job.Env
  | files | sql _ => Catalog.pending
  | relay _ agent _ => RelayEnv.start agent

def producer : (job : SingleArchive) → StreamProducer job.Env
  | files => archiverProducer
  | sql _ => vdiProducer
  | relay codec _ _ => relayProducer codec

/-- The results that are waited for beside the upload: of the archiver's task, of the device
thread and the statement, or of the statement alone. -/
def Parts : SingleArchive → Type
  | files => Except String (Except ArchiverError ArchiveReport)
  | sql _ => Except String Unit × Except String Unit
  | relay _ _ _ => Except String Unit

/-- The parts have ended with these results.  The archiver and the local statement send their
verdict on the stream before they return. -/
def Ended : (job : SingleArchive) → StreamSource job.Env → job.Parts → Prop
  | files, source, archived => ∀ result : Except ArchiverError ArchiveReport,
      archived = .ok result → source.stream.channel.verdict = .sent result.isOk
  | sql _, source, results => source.stream.channel.verdict = .sent results.2.isOk
  | relay _ _ _, source, backup =>
    match source.env.statement with
    | .issued => False
    | .succeeded => backup = .ok ()
    | .failed text =>
      backup = .error ("the BACKUP statement failed on the remote instance: " ++ text)

/-- No task panicked, and a relayed statement succeeded: its verdict on the stream is not the
statement's. -/
def Sound : (job : SingleArchive) → job.Parts → Prop
  | files, archived => ∃ result : Except ArchiverError ArchiveReport, archived = .ok result
  | sql _, results => results.1 = .ok ()
  | relay _ _ _, backup => backup = .ok ()

/-- The result of `do_backup`. -/
def outcome (humanBytes : UInt64 → String) :
    (job : SingleArchive) → job.Parts → Except PbsError BackupStats → Except String Outcome
  | files, archived, upload =>
    (combineArchived archived upload).map fun done => filesOutcome humanBytes done.1 done.2
  | sql db, results, upload =>
    db.outcome humanBytes
      (match results.1 with
      | .error text => .error ("VDI thread panicked: " ++ text)
      | .ok () => combinePbsResult results.2 upload)
  | relay _ _ db, backup, upload => db.outcome humanBytes (combinePbsResult backup upload)

/-- Whether the run waits once more, for a line of its log to be taken: its summary, or the
failure of a database. -/
def logs : SingleArchive → Except String Outcome → Bool
  | files, outcome => outcome.isOk
  | _, _ => true

end SingleArchive

/-! ### The run, the token and the server -/

/-- Where a run stands. -/
inductive Stage
  /-- Before the upload: change detection, the scan, the connection to SQL Server. -/
  | preparing
  /-- The upload, and the wait for what runs beside it. -/
  | uploading
  /-- The run waits until its last log line is taken. -/
  | logging (outcome : Except String Outcome)
  | returned (outcome : Except String Outcome)
  /-- The cancelled branch of the `select!` was taken. -/
  | dropped
  | reported (report : Except String RunReport) (result : Metrics.RunResult)

/-- A run, what the server has made of it, and its token. -/
structure CancelRun (job : SingleArchive) where
  stage : Stage
  upload : UploadSystem (StreamSource job.Env)
  /-- The results of the parts beside the upload, once they were waited for. -/
  parts : Option job.Parts
  /-- The `finish` request has been sent. -/
  finishSent : Bool
  /-- PBS has committed the snapshot. -/
  committed : Bool
  /-- The token is cancelled. -/
  cancelled : Bool

def CancelRun.start (job : SingleArchive) : CancelRun job :=
  { stage := .preparing
    upload := UploadSystem.initial (StreamSource.new job.env)
    parts := none
    finishSent := false
    committed := false
    cancelled := false }

/-- The main task of the upload waits for something in this phase. -/
def awaits : Phase → Bool
  | .reaping _ | .appending [] | .encodingManifest | .finished => false
  | _ => true

/-- `run_inner` waits for something, so that it can be dropped. -/
def CancelRun.waiting {job : SingleArchive} (run : CancelRun job) : Bool :=
  match run.stage with
  | .preparing | .logging _ => true
  | .uploading => run.upload.up.result.isSome || awaits run.upload.up.phase
  | _ => false

/-- The outcome of the `select!`. -/
def CancelRun.outcome {job : SingleArchive} (run : CancelRun job) :
    Option (Except String Outcome) :=
  match run.stage with
  | .returned outcome => some outcome
  | .dropped => some (.error "cancelled by request")
  | _ => none

/-- The rest of `run_job_kind`: the report and the result for the metrics. -/
def conclude (cancelled : Bool) (outcome : Except String Outcome) :
    Except String RunReport × Metrics.RunResult :=
  match outcome with
  | .ok outcome =>
    (.ok ⟨outcome.message, outcome.warning⟩, if outcome.stats.isSome then .success else .skipped)
  | .error message =>
    if cancelled then (.ok (.plain "cancelled"), .failure) else (.error message, .failure)

section Steps

variable (humanBytes : UInt64 → String) (cfg : UploadConfig)

/-- A step of the run, of the server or of whoever cancels the run. -/
inductive RunStep {job : SingleArchive} (run : CancelRun job) : CancelRun job → Prop
  /-- The run ends before the upload: with an error, or because there is nothing to do. -/
  | skipped (outcome : Except String Outcome) (hstage : run.stage = .preparing) :
      RunStep run { run with stage := .returned outcome }
  | prepared (hstage : run.stage = .preparing) : RunStep run { run with stage := .uploading }
  /-- A step of the upload or of what feeds it.  Only a committed snapshot has its `finish`
  accepted; that the connection fails, before or after the commit, is possible too. -/
  | upload {after : UploadSystem (StreamSource job.Env)} (hstage : run.stage = .uploading)
      (hstep : SystemStep cfg job.producer.feed run.upload after)
      (hreply : Event.request .finish (.ok ()) ∈ after.up.trace → run.committed = true) :
      RunStep run { run with upload := after }
  | sentFinish (hstage : run.stage = .uploading) (hrunning : run.upload.up.result = none)
      (hphase : run.upload.up.phase = .finishing) :
      RunStep run { run with finishSent := true }
  /-- The request has reached the server, whatever has become of the run. -/
  | committed (hsent : run.finishSent = true) : RunStep run { run with committed := true }
  | joined {result : Except PbsError BackupStats} {parts : job.Parts}
      (hstage : run.stage = .uploading) (hresult : run.upload.up.result = some result)
      (hparts : job.Ended run.upload.feed.source parts) :
      RunStep run
        { run with
          stage :=
            if job.logs (job.outcome humanBytes parts result) then
              .logging (job.outcome humanBytes parts result)
            else .returned (job.outcome humanBytes parts result)
          parts := some parts }
  | logged {outcome : Except String Outcome} (hstage : run.stage = .logging outcome) :
      RunStep run { run with stage := .returned outcome }
  | cancelRequested : RunStep run { run with cancelled := true }
  | dropped (hcancelled : run.cancelled = true) (hwaiting : run.waiting = true) :
      RunStep run { run with stage := .dropped }
  | concluded {outcome : Except String Outcome} (houtcome : run.outcome = some outcome) :
      RunStep run
        { run with
          stage := .reported (conclude run.cancelled outcome).1 (conclude run.cancelled outcome).2 }

/-- The stages in which a cancel request changes nothing any more. -/
def Stage.settled : Stage → Bool
  | .returned (.ok _) | .reported _ _ => true
  | _ => false

/-- A cancel request is pending although the `finish` request has been sent. -/
def CancelRun.Overtaken {job : SingleArchive} (run : CancelRun job) : Prop :=
  run.cancelled = true ∧ run.finishSent = true ∧ run.stage.settled = false

/-- The runs in which no cancel request is pending between the `finish` request and the end of
`run_inner`. -/
def TimelyReaches (job : SingleArchive) : CancelRun job → Prop :=
  ReflTransGen (fun before after => RunStep humanBytes cfg before after ∧ ¬ after.Overtaken)
    (CancelRun.start job)

end Steps

theorem TimelyReaches.reaches {humanBytes : UInt64 → String} {cfg : UploadConfig}
    {job : SingleArchive} {run : CancelRun job} (hrun : TimelyReaches humanBytes cfg job run) :
    ReflTransGen (RunStep humanBytes cfg) (CancelRun.start job) run :=
  hrun.lift id fun _ _ hstep => hstep.1

theorem runJobKind_report (humanBytes : UInt64 → String) (input : SqlRunInput) (job : SqlJobState) :
    (∀ cancelled, input.ending = .finished cancelled →
      (runJobKind humanBytes input job).2 =
        some (conclude cancelled (doBackup humanBytes input job).2).1) ∧
    (∀ during, input.ending = .cancelled during →
      (runJobKind humanBytes input job).2 =
        some (conclude true (.error "cancelled by request")).1) := by
  refine ⟨fun cancelled hend => ?_, fun during hend => ?_⟩
  · simp only [runJobKind, hend, conclude]
    cases cancelled <;> cases (doBackup humanBytes input job).2 <;> rfl
  · simp only [runJobKind, hend]
    rfl

section Outcomes

variable {humanBytes : UInt64 → String}

theorem backedUp_ne_cancelled (rest : String) : "backed up " ++ rest ≠ "cancelled" := by
  intro h
  have := congrArg String.toList h
  simp at this

theorem skipped_ne_cancelled (rest : String) : "skipped: " ++ rest ≠ "cancelled" := by
  intro h
  have := congrArg String.toList h
  simp at this

variable {outcome : Outcome}

theorem finish_message {loop : SqlLoop} (h : loop.finish humanBytes = .ok outcome) :
    ∃ rest, outcome.message =
      (if loop.backedUp = 0 then "skipped: " else "backed up ") ++ rest := by
  unfold SqlLoop.finish at h
  split at h
  · cases h
  · split at h
    · next hnone =>
        cases h
        exact ⟨_, by rw [if_pos hnone]⟩
    · next hsome =>
        cases h
        rw [if_neg hsome]
        simp only [String.append_assoc]
        exact ⟨_, rfl⟩

theorem OneDatabase.outcome_ok (db : OneDatabase) (stats : BackupStats) :
    ∃ rest totals, db.outcome humanBytes (.ok stats) =
      .ok ⟨"backed up " ++ rest, some totals, false⟩ := by
  have hturn : ∃ after : SqlLoop, (SqlLoop.start db.job db.localFull).takeTurn db.plan db.run
      { db.turn with result := .ok stats } = after ∧
      after.failed = [] ∧ after.warned = [] ∧ after.backedUp = 1 := by
    refine ⟨_, rfl, ?_⟩
    have hdec : Plan.decide db.plan db.run db.state
        (SqlLoop.start db.job db.localFull).localFull = .backup db.kind db.copyOnly db.note :=
      db.decide_eq
    simp only [SqlLoop.takeTurn, db.state_eq, hdec, db.session_eq, SqlLoop.succeed]
    split <;> exact ⟨rfl, rfl, rfl⟩
  obtain ⟨after, hafter, hfail, hwarned, hcount⟩ := hturn
  rw [OneDatabase.outcome, hafter]
  rcases after.finish_cases humanBytes with ⟨hfails, -⟩ | ⟨-, message, hfin⟩
  · exact absurd hfail hfails
  · obtain ⟨rest, hmsg⟩ := finish_message hfin
    have hone : ¬ after.backedUp = 0 := by omega
    obtain rfl : message = "backed up " ++ rest := by simpa only [if_neg hone] using hmsg
    refine ⟨rest, after.totals, ?_⟩
    rw [hfin, if_neg hone, hwarned]
    rfl

theorem OneDatabase.message_ne_cancelled {db : OneDatabase} {result : Except String BackupStats}
    (h : db.outcome humanBytes result = .ok outcome) : outcome.message ≠ "cancelled" := by
  obtain ⟨rest, hmsg⟩ := finish_message h
  rw [hmsg]
  split
  · exact skipped_ne_cancelled rest
  · exact backedUp_ne_cancelled rest

/-- When the stream was whole and the parts ended soundly, an accepted upload is a success. -/
theorem SingleArchive.outcome_ok (job : SingleArchive) {source : StreamSource job.Env}
    {parts : job.Parts} (hended : job.Ended source parts) (hsound : job.Sound parts)
    (hverd : source.stream.channel.verdict = .sent true) (stats : BackupStats) :
    ∃ rest totals warning, job.outcome humanBytes parts (.ok stats) =
      .ok ⟨"backed up " ++ rest, some totals, warning⟩ := by
  cases job with
  | files =>
    obtain ⟨result, rfl⟩ := hsound
    have hok := VerdictCell.sent.inj (hverd.symm.trans (hended result rfl))
    cases result with
    | error => exact nomatch hok
    | ok => exact ⟨_, _, _, rfl⟩
  | sql db =>
    obtain ⟨thread, backup⟩ := parts
    obtain rfl : thread = .ok () := hsound
    have hok := VerdictCell.sent.inj (hverd.symm.trans hended)
    cases backup with
    | error => exact nomatch hok
    | ok =>
      obtain ⟨rest, totals, hout⟩ := db.outcome_ok stats
      exact ⟨rest, totals, false, hout⟩
  | relay codec agent db =>
    obtain rfl : parts = .ok () := hsound
    obtain ⟨rest, totals, hout⟩ := db.outcome_ok stats
    exact ⟨rest, totals, false, hout⟩

theorem SingleArchive.message_ne_cancelled {job : SingleArchive} {parts : job.Parts}
    {upload : Except PbsError BackupStats} (h : job.outcome humanBytes parts upload = .ok outcome) :
    outcome.message ≠ "cancelled" := by
  cases job with
  | files =>
    change (combineArchived parts upload).map _ = _ at h
    cases hcombined : combineArchived parts upload with
    | error =>
      rw [hcombined] at h
      cases h
    | ok =>
      rw [hcombined] at h
      cases h
      exact backedUp_ne_cancelled _
  | sql | relay => exact OneDatabase.message_ne_cancelled h

end Outcomes

/-! ### What holds in every run -/

section Invariant

variable {humanBytes : UInt64 → String} {cfg : UploadConfig} {job : SingleArchive}
  {run after : CancelRun job}

/-- The reply to `finish` was received. -/
def CancelRun.replied (run : CancelRun job) : Prop :=
  Event.request .finish (.ok ()) ∈ run.upload.up.trace

/-- The parts that were waited for ended soundly. -/
def CancelRun.Sound (run : CancelRun job) : Prop :=
  ∀ parts, run.parts = some parts → job.Sound parts

/-- What the outcome of a run says is true of it. -/
structure CancelRun.OutcomeTrue (run : CancelRun job) (outcome : Except String Outcome) :
    Prop where
  message : run.finishSent = true → ∀ done, outcome = .ok done → done.message ≠ "cancelled"
  success : run.replied → run.Sound →
    ∃ rest stats warning, outcome = .ok ⟨"backed up " ++ rest, some stats, warning⟩

def CancelRun.StageInv (run : CancelRun job) : Prop :=
  match run.stage with
  | .preparing =>
    run.upload = UploadSystem.initial (StreamSource.new job.env) ∧ run.finishSent = false
  | .uploading => True
  | .logging outcome | .returned outcome => run.OutcomeTrue outcome
  | .dropped => run.cancelled = true
  | .reported report result =>
    (report = .ok (.plain "cancelled") → run.finishSent = false) ∧
      (run.replied → run.Sound →
        ∃ rest warning, report = .ok ⟨"backed up " ++ rest, warning⟩ ∧ result = .success)

variable (cfg) in
/-- The invariant of the runs in which no cancel request overtakes the `finish` request. -/
structure CancelRun.Inv (run : CancelRun job) : Prop where
  reaches : UploadReaches cfg job.producer.feed (StreamSource.new job.env) run.upload
  sent : run.committed = true → run.finishSent = true
  replied : run.replied → run.committed = true
  stage : run.StageInv
  timely : ¬ run.Overtaken

/-- The token and the server have no part in it, but that a dropped run was cancelled. -/
theorem CancelRun.StageInv.congr (h : run.StageInv) {committed cancelled : Bool}
    (hcanc : run.cancelled = true → cancelled = true) :
    { run with committed := committed, cancelled := cancelled }.StageInv := by
  obtain ⟨stage, upload, parts, finishSent, _, _⟩ := run
  cases stage with
  | logging | returned => exact ⟨h.message, h.success⟩
  | dropped => exact hcanc h
  | _ => exact h

theorem CancelRun.Inv.start : (CancelRun.start job).Inv cfg where
  reaches := .refl
  sent h := nomatch h
  replied h := nomatch h
  stage := ⟨rfl, rfl⟩
  timely h := nomatch h.1

theorem CancelRun.Inv.joined (h : run.Inv cfg) {result : Except PbsError BackupStats}
    {parts : job.Parts} (hres : run.upload.up.result = some result)
    (hparts : job.Ended run.upload.feed.source parts) {stage : Stage} :
    { run with stage := stage, parts := some parts }.OutcomeTrue
      (job.outcome humanBytes parts result) where
  message _ _ := SingleArchive.message_ne_cancelled
  success hrepl hsound := by
    obtain ⟨stats, rfl⟩ := h.reaches.ok_of_finish_mem hrepl hres
    have hexit := (h.reaches.inv.issued (.inl ⟨_, hrepl⟩) (.inl rfl)).1
    have hverd := (h.reaches.streamFeed.whole hexit).2.1
    exact job.outcome_ok hparts (hsound parts rfl) hverd stats

theorem CancelRun.Inv.concluded (h : run.Inv cfg) {outcome : Except String Outcome}
    (hout : run.outcome = some outcome) :
    ((conclude run.cancelled outcome).1 = .ok (.plain "cancelled") → run.finishSent = false) ∧
      (run.replied → run.Sound → ∃ rest warning,
        (conclude run.cancelled outcome).1 = .ok ⟨"backed up " ++ rest, warning⟩ ∧
          (conclude run.cancelled outcome).2 = .success) := by
  have hstage := h.stage
  -- a cancelled run that has no result to show has not sent its `finish`
  have hunsent : run.cancelled = true → run.stage.settled = false → run.finishSent = false :=
    fun hcanc hopen => Bool.eq_false_iff.mpr fun hsent => h.timely ⟨hcanc, hsent, hopen⟩
  unfold CancelRun.outcome at hout
  split at hout
  · next returned hret =>
      obtain rfl := Option.some.inj hout
      rw [CancelRun.StageInv, hret] at hstage
      cases returned with
      | ok done =>
        refine ⟨fun hrep => ?_, fun hrepl hsound => ?_⟩
        · have hmsg : done.message = "cancelled" :=
            congrArg RunReport.message (Except.ok.inj hrep)
          exact Bool.eq_false_iff.mpr fun hsent => hstage.message hsent done rfl hmsg
        · obtain ⟨rest, stats, warning, hdone⟩ := hstage.success hrepl hsound
          rw [Except.ok.inj hdone]
          exact ⟨rest, warning, rfl, rfl⟩
      | error =>
        refine ⟨fun hrep => ?_, fun hrepl hsound => ?_⟩
        · cases hcanc : run.cancelled with
          | true => exact hunsent hcanc (by rw [hret]; rfl)
          | false =>
            rw [hcanc] at hrep
            exact nomatch hrep
        · obtain ⟨rest, stats, warning, hdone⟩ := hstage.success hrepl hsound
          exact nomatch hdone
  · next hdrop =>
      cases hout
      rw [CancelRun.StageInv, hdrop] at hstage
      have hsent := hunsent hstage (by rw [hdrop]; rfl)
      refine ⟨fun _ => hsent, fun hrepl _ => ?_⟩
      exact nomatch hsent.symm.trans (h.sent (h.replied hrepl))
  · cases hout

theorem CancelRun.Inv.step (h : run.Inv cfg) (hstep : RunStep humanBytes cfg run after)
    (htimely : ¬ after.Overtaken) : after.Inv cfg := by
  have hstage := h.stage
  cases hstep with
  | skipped outcome hpreparing =>
    rw [CancelRun.StageInv, hpreparing] at hstage
    obtain ⟨hup, hunsent⟩ := hstage
    refine ⟨h.reaches, h.sent, h.replied, ⟨fun hsent => ?_, fun hrepl => ?_⟩, htimely⟩
    · exact nomatch hunsent.symm.trans hsent
    · exact nomatch hunsent.symm.trans (h.sent (h.replied hrepl))
  | prepared => exact ⟨h.reaches, h.sent, h.replied, trivial, htimely⟩
  | upload huploading hsystem hreply =>
    refine ⟨h.reaches.tail hsystem, h.sent, hreply, ?_, htimely⟩
    simp only [CancelRun.StageInv, huploading]
  | sentFinish huploading =>
    refine ⟨h.reaches, fun _ => rfl, h.replied, ?_, htimely⟩
    simp only [CancelRun.StageInv, huploading]
  | committed hsent => exact ⟨h.reaches, fun _ => hsent, fun _ => rfl, hstage.congr id, htimely⟩
  | joined huploading hres hparts =>
    refine ⟨h.reaches, h.sent, h.replied, ?_, htimely⟩
    split
    · exact h.joined hres hparts
    · exact h.joined hres hparts
  | logged hlogging =>
    rw [CancelRun.StageInv, hlogging] at hstage
    exact ⟨h.reaches, h.sent, h.replied, ⟨hstage.message, hstage.success⟩, htimely⟩
  | cancelRequested => exact ⟨h.reaches, h.sent, h.replied, hstage.congr fun _ => rfl, htimely⟩
  | dropped hcanc => exact ⟨h.reaches, h.sent, h.replied, hcanc, htimely⟩
  | concluded hout => exact ⟨h.reaches, h.sent, h.replied, h.concluded hout, htimely⟩

end Invariant

/-- **Cancelled runs.**  In every run with one archive in which no cancel request is pending
between the `finish` request and the end of `run_inner`: a run that is reported as cancelled
has not been committed, then or later; and a run whose commit was answered is reported as a
success, unless a task beside the upload panicked or a relayed statement failed. -/
theorem cancelled_runs_reported {humanBytes : UInt64 → String} {cfg : UploadConfig}
    {job : SingleArchive} {run : CancelRun job} (hrun : TimelyReaches humanBytes cfg job run)
    {report : Except String RunReport} {result : Metrics.RunResult}
    (hreport : run.stage = .reported report result) :
    (report = .ok (.plain "cancelled") → run.committed = false) ∧
      (run.committed = true → run.replied → run.Sound →
        ∃ rest warning, report = .ok ⟨"backed up " ++ rest, warning⟩ ∧ result = .success) := by
  have hinv : run.Inv cfg :=
    Transition.invariant_of_reachable CancelRun.Inv.start
      (fun _ _ hbefore hstep => hbefore.step hstep.1 hstep.2) hrun
  have hstage := hinv.stage
  rw [CancelRun.StageInv, hreport] at hstage
  refine ⟨fun hcancelled => Bool.eq_false_iff.mpr fun hcommitted => ?_, fun _ => hstage.2⟩
  exact nomatch (hstage.1 hcancelled).symm.trans (hinv.sent hcommitted)

/-! ### Three runs of a file job

The archive is `ab`, and the runs agree up to the `finish` request. -/

section Samples

variable {humanBytes : UInt64 → String} {cfg : UploadConfig} {job : SingleArchive}

theorem sampleArchive_finishing : ∃ system : UploadSystem (StreamSource Catalog),
    UploadReaches sampleConfig archiverProducer.feed (StreamSource.new .pending) system ∧
      system.up.phase = .finishing ∧ system.up.result = none ∧
      system.feed.source.stream.channel.verdict = .sent true := by
  obtain ⟨source, hidle, hpend, heof, henv, hcall, hverd⟩ :=
    @sampleStream_reads 8
      "building the file archive failed; refusing to upload a partial archive" (by decide)
  let catalog : Catalog := .sent "catalog.json.blob" [91, 93]
  have hsent : archiverProducer.feed.quiet source { source with env := catalog } :=
    ⟨_, _, .inr ⟨henv ▸ .sent _ _, rfl⟩, rfl⟩
  have hfirst : archiverProducer.feed.chunk { source with env := catalog } [97]
      { source with env := catalog, pending := [98] } := ⟨hcall, [98], hpend, rfl⟩
  have hsnd : archiverProducer.feed.chunk { source with env := catalog, pending := [98] } [98]
      { source with env := catalog, pending := [] } := ⟨hcall, [], rfl, rfl⟩
  obtain ⟨up, hrun, hphase, hrunning, -, -⟩ :=
    @sampleRun_toCatalog _ _ sampleConfig.params sampleConfig.archiveName sampleConfig.totalBytes
      _ _ _ _ _ (hidle.tail (.quiet hsent)) hfirst hsnd (ChunkerEnds.finished hcall heof rfl)
  have hblob : encodeFor samplePrimitives none false (.ok (FixedBytes.ofBytes 16 [])) [91, 93] =
    .ok (encodeUncompressed samplePrimitives [91, 93]) := rfl
  exact ⟨_, hrun.trans <|
    .head (.upload hrunning (.catalogEncoded hphase rfl hblob)) <|
    .head (.upload hrunning (.accepted rfl)) <|
    .head (.upload hrunning (.manifestEncoded rfl rfl)) <|
    .head (.upload hrunning (.accepted rfl)) .refl, rfl, hrunning, hverd⟩

/-- The sample run when its `finish` request has been sent. -/
def sampleSent (system : UploadSystem (StreamSource Catalog)) : CancelRun .files :=
  { CancelRun.start .files with stage := .uploading, upload := system, finishSent := true }

variable {system : UploadSystem (StreamSource Catalog)}

theorem sampleSent_reached
    (hrun : UploadReaches sampleConfig archiverProducer.feed (StreamSource.new .pending) system)
    (hphase : system.up.phase = .finishing) (hrunning : system.up.result = none) :
    TimelyReaches humanBytes sampleConfig .files (sampleSent system) := by
  have hquiet : Event.request .finish (.ok ()) ∉ system.up.trace :=
    fun hmem => nomatch hphase.symm.trans (hrun.phase_of_finish_mem hmem)
  have hup := Transition.avoids_of_stays (Event.request .finish (.ok ()) ∈ ·.up.trace)
    (fun _ _ hstep => hstep.mem_trace) hquiet hrun
  have hsteps : ReflTransGen
      (fun before after => RunStep humanBytes sampleConfig before after ∧ ¬ after.Overtaken)
      { CancelRun.start .files with stage := .uploading }
      { CancelRun.start .files with stage := .uploading, upload := system } :=
    hup.lift (fun upload =>
        ({ CancelRun.start .files with stage := .uploading, upload } : CancelRun .files))
      fun _ _ hstep => ⟨.upload rfl hstep.1 fun hmem => absurd hmem hstep.2, fun h => nomatch h.1⟩
  exact .head ⟨.prepared rfl, fun h => nomatch h.1⟩
    (hsteps.tail ⟨.sentFinish rfl hrunning hphase, fun h => nomatch h.1⟩)

/-- The sample run when the upload has returned and the run waits for its last log line. -/
def sampleLogging (humanBytes : UInt64 → String) (system : UploadSystem (StreamSource Catalog)) :
    CancelRun .files :=
  { sampleSent system with
    stage := .logging (.ok (filesOutcome humanBytes (system.up.stats sampleConfig) ⟨[], []⟩))
    upload :=
      { system with
        up :=
          { system.up with
            phase := .finished
            trace := system.up.trace ++ [.request .finish (.ok ())]
            result := some (.ok (system.up.stats sampleConfig)) } }
    parts := some (Except.ok (Except.ok ⟨[], []⟩) :
      Except String (Except ArchiverError ArchiveReport))
    committed := true }

theorem sampleLogging_reached
    (hrun : UploadReaches sampleConfig archiverProducer.feed (StreamSource.new .pending) system)
    (hphase : system.up.phase = .finishing) (hrunning : system.up.result = none)
    (hverd : system.feed.source.stream.channel.verdict = .sent true) :
    TimelyReaches humanBytes sampleConfig .files (sampleLogging humanBytes system) := by
  have hpend : system.up.pendingRequest sampleConfig = some (.finish, .finished) := by
    rw [Upload.pendingRequest, hphase]
  have hended : SingleArchive.Ended .files system.feed.source (.ok (.ok ⟨[], []⟩)) := by
    intro result hres
    rw [← Except.ok.inj hres]
    exact hverd
  exact (sampleSent_reached hrun hphase hrunning).trans <|
    .head ⟨.committed rfl, by rintro ⟨⟨⟩⟩⟩ <|
    .head ⟨.upload rfl (.upload hrunning (.accepted hpend)) fun _ => rfl, by rintro ⟨⟨⟩⟩⟩ <|
    .head ⟨.upload rfl (.upload hrunning (.returned rfl)) fun _ => rfl, by rintro ⟨⟨⟩⟩⟩ <|
    .single ⟨@RunStep.joined humanBytes sampleConfig .files _ (.ok (system.up.stats sampleConfig))
      (.ok (.ok ⟨[], []⟩)) rfl rfl hended, by rintro ⟨⟨⟩⟩⟩

end Samples

/-- A run that nobody cancels is committed and reported as a success. -/
theorem uncancelled_reported : ∃ run : CancelRun .files,
    TimelyReaches (fun _ => "2 B") sampleConfig .files run ∧
      run.committed = true ∧ ∃ rest warning,
        run.stage = .reported (.ok ⟨"backed up " ++ rest, warning⟩) .success := by
  obtain ⟨system, hrun, hphase, hrunning, hverdict⟩ := sampleArchive_finishing
  have hdone := (@sampleLogging_reached (fun _ => "2 B") _ hrun hphase hrunning hverdict).trans <|
    .head ⟨.logged rfl, fun h => nomatch h.1⟩ <|
    .single ⟨.concluded rfl, fun h => nomatch h.1⟩
  have hsound : (sampleLogging (fun _ => "2 B") system).Sound :=
    fun parts hparts => ⟨_, (Option.some.inj hparts).symm⟩
  obtain ⟨rest, warning, hreport, hresult⟩ :=
    (cancelled_runs_reported hdone rfl).2 rfl (mem_append_right _ mem_cons_self) hsound
  exact ⟨_, hdone, rfl, rest, warning, congrArg₂ Stage.reported hreport hresult⟩

/-- A cancel request that arrives while `finish` is on its way drops the run, which is reported
as cancelled, and the server then commits the snapshot.  One that arrives when the reply has
been received, while the run waits for its summary to be taken from the log channel, has a
committed run reported as cancelled as well. -/
theorem cancelled_and_committed :
    (∃ run : CancelRun .files,
      ReflTransGen (RunStep (fun _ => "2 B") sampleConfig) (CancelRun.start .files) run ∧
        run.stage = .reported (.ok (.plain "cancelled")) .failure ∧ run.committed = true) ∧
    (∃ run : CancelRun .files,
      ReflTransGen (RunStep (fun _ => "2 B") sampleConfig) (CancelRun.start .files) run ∧
        run.stage = .reported (.ok (.plain "cancelled")) .failure ∧ run.committed = true ∧
          run.replied ∧ run.Sound) := by
  obtain ⟨system, hrun, hphase, hrunning, hverdict⟩ := sampleArchive_finishing
  have hsent := (@sampleSent_reached (fun _ => "2 B") _ hrun hphase hrunning).reaches
  have hlogging := (@sampleLogging_reached (fun _ => "2 B") _ hrun hphase hrunning hverdict).reaches
  have hwaits : ({ sampleSent system with cancelled := true }).waiting = true := by
    simp [CancelRun.waiting, sampleSent, hphase, awaits]
  constructor
  · exact ⟨_, hsent.trans <| .head .cancelRequested <| .head (.dropped rfl hwaits) <|
      .head (.concluded rfl) <| .single (.committed rfl), rfl, rfl⟩
  · exact ⟨_, hlogging.trans <| .head .cancelRequested <| .head (.dropped rfl rfl) <|
      .single (.concluded rfl), rfl, rfl, mem_append_right _ mem_cons_self,
      fun parts hparts => ⟨_, (Option.some.inj hparts).symm⟩⟩

end PbsGui.Engine.CancelledRuns
