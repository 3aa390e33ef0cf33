import PbsGui.Engine.SqlJobRuns

/-!
# What becomes of each database of a SQL run

The loop of `backup_sql_to_pbs` has seven ways out of its body, and a flag that a
turn can set changes what is decided for the databases after it.  `outcome` names
the way a turn goes, and the report of a run is a function of the outcomes of its databases.
-/

namespace PbsGui.Engine

open Client List

/-- How the turn of a database ends. -/
inductive TurnOutcome
  /-- SQL Server could not be asked about it. -/
  | queryFailed (error : String)
  | skipped (why : String)
  /-- There are no session parameters for its group. -/
  | sessionFailed (error : String)
  /-- Its log backups have found no chain for too long. -/
  | escalated
  | warned (why : String)
  | backupFailed (message : String)
  | backedUp (kind : SqlBackupType) (stats : BackupStats)
  deriving DecidableEq

namespace TurnOutcome

def failure : TurnOutcome → Option String
  | .queryFailed e | .sessionFailed e | .backupFailed e => some e
  | .escalated => some
      ("log backups have found no full backup to start the log chain for over an hour. " ++
        "Check that pbsgui runs this job on the primary replica (see docs/ALWAYS-ON.md)")
  | _ => none

/-- Why the database was warned about, if it was. -/
def warning : TurnOutcome → Option String
  | .warned why => some why
  | _ => none

def skip : TurnOutcome → Option String
  | .skipped why => some why
  | _ => none

/-- The statistics of the backup, if there is one. -/
def stats : TurnOutcome → Option BackupStats
  | .backedUp _ stats => some stats
  | _ => none

end TurnOutcome

/-- Add the counters of a backup; the checksum of the sum stays. -/
def addStats (totals stats : BackupStats) : BackupStats :=
  { totals with
    chunks := totals.chunks + stats.chunks
    uploaded := totals.uploaded + stats.uploaded
    reused := totals.reused + stats.reused
    bytes := totals.bytes + stats.bytes
    uploadedBytes := totals.uploadedBytes + stats.uploadedBytes
    storedBytes := totals.storedBytes + stats.storedBytes }

namespace SqlLoop

/-- What is said of a log backup without a chain before it has lasted. -/
def noChainWarning (role : Role) : String :=
  if role = .secondary then Plan.noChainOnSecondary
  else "no full backup starts the log chain; the next run takes a full backup"

def outcome (plan : PlanKind) (run : SqlRun) (loop : SqlLoop) (turn : DbTurn) : TurnOutcome :=
  match turn.state with
  | .error e => .queryFailed e
  | .ok state =>
    match Plan.decide plan run state loop.localFull with
    | .skip why => .skipped why
    | .backup kind _ _ =>
      match turn.session, turn.result with
      | .error e, _ => .sessionFailed e
      | .ok (), .error message =>
        if kind = .log ∧ Plan.isNoChainError message then
          if noChainEscalateSecs ≤ turn.checkTime -
              (SqlSched.noteNoChain turn.noteIo turn.database turn.noteTime loop.job.file).2
          then .escalated
          else .warned (noChainWarning state.role)
        else .backupFailed message
      | .ok (), .ok stats => .backedUp kind stats

/-- The outcomes of the databases, each with its name, in the order of the list. -/
def outcomes (plan : PlanKind) (run : SqlRun) : SqlLoop → List DbTurn → List (String × TurnOutcome)
  | _, [] => []
  | loop, turn :: rest =>
    (turn.database, loop.outcome plan run turn) ::
      outcomes plan run (loop.takeTurn plan run turn) rest

/-- The variables of the loop with these outcomes added to them. -/
structure Adds (loop : SqlLoop) (entries : List (String × TurnOutcome)) (after : SqlLoop) :
    Prop where
  failed : after.failed = loop.failed ++
    entries.filterMap fun entry => entry.2.failure.map (reason entry.1)
  warned : after.warned = loop.warned ++
    entries.filterMap fun entry => entry.2.warning.map (reason entry.1)
  skipped : after.skipped = loop.skipped ++
    entries.filterMap fun entry => entry.2.skip.map (reason entry.1)
  backedUp : after.backedUp = loop.backedUp + (entries.filterMap fun entry => entry.2.stats).length
  totals : after.totals = (entries.filterMap fun entry => entry.2.stats).foldl addStats loop.totals

section Turn

variable {plan : PlanKind} {run : SqlRun} {loop middle after : SqlLoop} {turn : DbTurn}
  {entries more : List (String × TurnOutcome)}

theorem Adds.nil : loop.Adds [] loop := ⟨by simp, by simp, by simp, by simp, by simp⟩

theorem Adds.append (h : loop.Adds entries middle) (hmore : middle.Adds more after) :
    loop.Adds (entries ++ more) after where
  failed := by rw [hmore.failed, h.failed, filterMap_append, append_assoc]
  warned := by rw [hmore.warned, h.warned, filterMap_append, append_assoc]
  skipped := by rw [hmore.skipped, h.skipped, filterMap_append, append_assoc]
  backedUp := by
    rw [hmore.backedUp, h.backedUp, filterMap_append, length_append, Nat.add_assoc]
  totals := by rw [hmore.totals, h.totals, filterMap_append, foldl_append]

/-- The variables that outcomes are added to depend neither on the job's state nor
on the flag. -/
theorem Adds.of_job {job : SqlJobState} {localFull : Bool}
    (h : { loop with job := job, localFull := localFull }.Adds entries after) :
    loop.Adds entries after :=
  ⟨h.failed, h.warned, h.skipped, h.backedUp, h.totals⟩

/-- A snapshot that was finished without being seen changes the job's state only. -/
theorem land_eq (turn : DbTurn) (kind : SqlBackupType) (copyOnly : Bool) :
    ∃ job, loop.land turn kind copyOnly = { loop with job := job } ∧ job.file = loop.job.file := by
  unfold land
  split
  · exact ⟨_, rfl, rfl⟩
  · exact ⟨loop.job, rfl, rfl⟩

variable {database text : String}

theorem fail_adds {result : TurnOutcome} (h : result.failure = some text) :
    loop.Adds [(database, result)] (loop.fail (reason database text)) := by
  have hnone (reasons : List String) : reasons = reasons ++ [] := (append_nil _).symm
  cases result <;> cases h <;> exact ⟨rfl, hnone _, hnone _, rfl, rfl⟩

theorem warn_adds : loop.Adds [(database, .warned text)] (loop.warn (reason database text)) :=
  ⟨(append_nil _).symm, rfl, (append_nil _).symm, rfl, rfl⟩

theorem skip_adds : loop.Adds [(database, .skipped text)] (loop.skip (reason database text)) :=
  ⟨(append_nil _).symm, (append_nil _).symm, rfl, rfl, rfl⟩

theorem count_adds {database : String} {kind : SqlBackupType} {stats : BackupStats} :
    loop.Adds [(database, .backedUp kind stats)] (loop.count stats) :=
  ⟨(append_nil _).symm, (append_nil _).symm, (append_nil _).symm, rfl, rfl⟩

theorem takeTurn_adds :
    loop.Adds [(turn.database, loop.outcome plan run turn)] (loop.takeTurn plan run turn) := by
  unfold outcome
  fun_cases takeTurn plan run loop turn with
  | case1 e hstate => simpa only [hstate] using fail_adds rfl
  | case2 state hstate why hdec => simpa only [hstate, hdec] using skip_adds
  | case3 state hstate kind copyOnly note hdec e hsess =>
    simpa only [hstate, hdec, hsess] using fail_adds rfl
  | case4 state hstate kind copyOnly note hdec message hres hsess hchain =>
    obtain ⟨job, hland, hfile⟩ := @land_eq loop turn kind copyOnly
    simp only [hstate, hdec, hsess, hres, if_pos hchain, hland]
    unfold noChain
    dsimp only
    rw [hfile]
    split
    · exact Adds.of_job (fail_adds rfl)
    · exact Adds.of_job warn_adds
  | case5 state hstate kind copyOnly note hdec message hres hsess hchain =>
    obtain ⟨job, hland, -⟩ := @land_eq loop turn kind copyOnly
    simp only [hstate, hdec, hsess, hres, if_neg hchain, hland]
    exact Adds.of_job (fail_adds rfl)
  | case6 state hstate kind copyOnly note hdec stats hres hsess =>
    simp only [hstate, hdec, hsess, hres]
    unfold succeed
    dsimp only
    split <;> exact Adds.of_job count_adds

theorem foldl_takeTurn_adds (loop : SqlLoop) (turns : List DbTurn) :
    loop.Adds (outcomes plan run loop turns) (turns.foldl (takeTurn plan run) loop) := by
  induction turns generalizing loop with
  | nil => exact Adds.nil
  | cons turn rest ih => exact takeTurn_adds.append (ih _)

theorem outcomes_databases (loop : SqlLoop) (turns : List DbTurn) :
    (outcomes plan run loop turns).map Prod.fst = turns.map DbTurn.database := by
  induction turns generalizing loop with
  | nil => rfl
  | cons turn rest ih => exact congrArg _ (ih _)

end Turn

end SqlLoop

def SqlRunInput.outcomes (input : SqlRunInput) (job : SqlJobState) : List (String × TurnOutcome) :=
  (input.startLoop job).outcomes input.plan input.run input.turns

theorem foldl_addStats {counter : BackupStats → UInt64}
    (hadd : ∀ totals stats, counter (addStats totals stats) = counter totals + counter stats)
    (taken : List BackupStats) (totals : BackupStats) :
    counter (taken.foldl addStats totals) = counter totals + Lib.u64Sum (taken.map counter) := by
  induction taken generalizing totals with
  | nil => exact (UInt64.add_zero _).symm
  | cons stats rest ih =>
    rw [foldl_cons, ih, hadd, map_cons, Lib.u64Sum_cons, UInt64.add_assoc]

theorem filterMap_ne_nil_iff {α β γ : Type} {entries : List α} {found : α → Option β}
    {name : α → β → γ} :
    (entries.filterMap fun entry => (found entry).map (name entry)) ≠ [] ↔
      ∃ entry ∈ entries, found entry ≠ none := by
  simp [filterMap_eq_nil_iff]

/-- **The report of a run.**  On an instance that can be reached, for every list of
databases that is not empty and whatever the world answers about each:

* every database of the list has one outcome, in the order of the list, and the
  loop ends with these outcomes added to its variables;
* the run fails exactly when some database did;
* otherwise its statistics are absent exactly when no database was backed up, its
  warning flag is set exactly when some database was warned about, and its counters
  are the sums over the databases that were backed up. -/
theorem backupSqlToPbs_report {humanBytes : UInt64 → String} {input : SqlRunInput}
    {job : SqlJobState} {cancelled failoverCluster : Bool}
    (hending : input.ending = .finished cancelled) (hturns : input.turns ≠ [])
    (hconnection : input.connection = .ok failoverCluster) (hconnect : input.connect = .ok ()) :
    (input.outcomes job).map Prod.fst = input.turns.map DbTurn.database ∧
    (input.startLoop job).Adds (input.outcomes job) (input.endLoop job) ∧
    ((∃ message, (backupSqlToPbs humanBytes input job).2 = .error message) ↔
      ∃ entry ∈ input.outcomes job, entry.2.failure ≠ none) ∧
    ∀ report, (backupSqlToPbs humanBytes input job).2 = .ok report →
      (report.stats = none ↔ ∀ entry ∈ input.outcomes job, entry.2.stats = none) ∧
      (report.warning = true ↔ ∃ entry ∈ input.outcomes job, entry.2.warning ≠ none) ∧
      ∀ stats, report.stats = some stats → ∀ taken,
        taken = (input.outcomes job).filterMap (fun entry => entry.2.stats) →
        stats.chunks = Lib.u64Sum (taken.map BackupStats.chunks) ∧
        stats.uploaded = Lib.u64Sum (taken.map BackupStats.uploaded) ∧
        stats.reused = Lib.u64Sum (taken.map BackupStats.reused) ∧
        stats.bytes = Lib.u64Sum (taken.map BackupStats.bytes) ∧
        stats.uploadedBytes = Lib.u64Sum (taken.map BackupStats.uploadedBytes) ∧
        stats.storedBytes = Lib.u64Sum (taken.map BackupStats.storedBytes) := by
  have hadds : (input.startLoop job).Adds (input.outcomes job) (input.endLoop job) := by
    unfold SqlRunInput.endLoop
    rw [hending]
    exact SqlLoop.foldl_takeTurn_adds _ _
  have hfailed : (input.endLoop job).failed ≠ [] ↔
      ∃ entry ∈ input.outcomes job, entry.2.failure ≠ none := by
    rw [hadds.failed]
    exact filterMap_ne_nil_iff
  have hwarned : (input.endLoop job).warned ≠ [] ↔
      ∃ entry ∈ input.outcomes job, entry.2.warning ≠ none := by
    rw [hadds.warned]
    exact filterMap_ne_nil_iff
  have hbackedUp : (input.endLoop job).backedUp = 0 ↔
      ∀ entry ∈ input.outcomes job, entry.2.stats = none := by
    rw [hadds.backedUp]
    simp [SqlRunInput.startLoop, SqlLoop.start, filterMap_eq_nil_iff]
  have hreport : (backupSqlToPbs humanBytes input job).2 = (input.endLoop job).finish humanBytes := by
    unfold backupSqlToPbs
    rw [if_neg fun h => hturns h.1, hconnection, hconnect]
    cases failoverCluster <;> rfl
  refine ⟨SqlLoop.outcomes_databases _ _, hadds, ?_, ?_⟩
  · rw [hreport, ← hfailed]
    rcases (input.endLoop job).finish_cases humanBytes with ⟨hsome, message, h⟩ | ⟨hnone, message, h⟩
    · exact ⟨fun _ => hsome, fun _ => ⟨message, h⟩⟩
    · rw [h]
      exact ⟨fun ⟨_, hwrong⟩ => (by cases hwrong), fun hsome => absurd hnone hsome⟩
  · intro report hok
    rw [hreport] at hok
    rcases (input.endLoop job).finish_cases humanBytes with ⟨-, message, h⟩ | ⟨-, message, h⟩
    · rw [h] at hok
      cases hok
    · rw [h] at hok
      cases hok
      refine ⟨?_, ?_, ?_⟩
      · rw [← hbackedUp]
        simp
      · rw [← hwarned]
        simp
      · intro stats hstats taken htaken
        have htotals : stats = taken.foldl addStats zeroStats := by
          by_cases hnone : (input.endLoop job).backedUp = 0
          · simp [hnone] at hstats
          · rw [htaken, ← Option.some.inj ((if_neg hnone).symm.trans hstats)]
            exact hadds.totals
        subst htotals
        have hcounter : ∀ counter : BackupStats → UInt64, counter zeroStats = 0 →
            (∀ totals stats, counter (addStats totals stats) = counter totals + counter stats) →
            counter (taken.foldl addStats zeroStats) = Lib.u64Sum (taken.map counter) := by
          intro counter hzero hadd
          rw [foldl_addStats hadd, hzero, UInt64.zero_add]
        exact ⟨hcounter _ rfl fun _ _ => rfl, hcounter _ rfl fun _ _ => rfl,
          hcounter _ rfl fun _ _ => rfl, hcounter _ rfl fun _ _ => rfl,
          hcounter _ rfl fun _ _ => rfl, hcounter _ rfl fun _ _ => rfl⟩

/-- Two databases of one chunk each, backed up in a full run. -/
theorem sampleSqlRun_report :
    ∃ report stats, (backupSqlToPbs sampleHumanBytes
        (sampleSqlRun .full .standalone ["sales", "crm"]) .new).2 = .ok report ∧
      report.stats = some stats ∧ stats.chunks = 2 ∧ stats.bytes = 24 := by
  obtain ⟨-, -, -, hreport⟩ := @backupSqlToPbs_report sampleHumanBytes
    (sampleSqlRun .full .standalone ["sales", "crm"]) .new false false rfl (by decide) rfl rfl
  obtain ⟨-, -, hstats⟩ := hreport _ rfl
  obtain ⟨hchunks, -, -, hbytes, -, -⟩ := hstats _ rfl _ rfl
  refine ⟨_, _, rfl, rfl, hchunks.trans ?_, hbytes.trans ?_⟩
  · decide
  · decide

/-- A job without databases fails, and no database did. -/
theorem sampleSqlRun_nothing :
    (backupSqlToPbs sampleHumanBytes (sampleSqlRun .full .standalone []) .new).2 =
        .error "no databases selected" ∧
      (sampleSqlRun .full .standalone []).outcomes .new = [] :=
  ⟨rfl, rfl⟩

end PbsGui.Engine
