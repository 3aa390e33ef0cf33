import PbsGui.Engine.Groups
import PbsGui.Engine.Metrics

/-!
# Stalled chains

Every fifteen minutes the scheduler lists the full and the log group of each database that
is protected to a point in time, and warns about chains that have stopped advancing
(`collect_sql_status`, `refresh_sql_health`).  A listing that fails counts as an empty group,
so a database is marked although its chain advances exactly if a failed listing hides a recent
snapshot and the other group has only old ones.
-/

namespace PbsGui.Engine.ChainHealth

open Metrics List

/-- The result of `i64` arithmetic. -/
def wrapI64 (x : Int) : Int := x.bmod (2 ^ 64)

/-- PBS during one check: what its groups hold, and which listings are answered. -/
structure PbsView (Ctx : Type) where
  /-- The server and the API client of a job, by its id. -/
  sqlJobPbs : String → Option Ctx
  backupId : Ctx → String
  /-- The times of the snapshots of a group. -/
  times : Ctx → String → List Int
  /-- Whether the group of a job's database is listed. -/
  answers : (jobId database : String) → SqlBackupType → Bool
  times_i64 : ∀ ctx group, ∀ time ∈ times ctx group, -2 ^ 63 ≤ time ∧ time < 2 ^ 63

/-- One database of one job, with how long its chain may stand still. -/
structure Check (Ctx : Type) where
  jobId : String
  jobName : String
  ctx : Ctx
  grace : Int
  database : String

/-- A job's chain status for its databases. -/
structure JobSqlStatus where
  jobId : String
  jobName : String
  databases : List SqlDbStatus

variable {Ctx : Type} (view : PbsView Ctx)

/-- The times of the snapshots of one group of a database. -/
def Check.times (check : Check Ctx) (kind : SqlBackupType) : List Int :=
  view.times check.ctx (sqlGroupAndArchive (view.backupId check.ctx) check.database kind).1

/-- What `list_snapshots` returns for it; `none` is an error. -/
def Check.listSnapshots (check : Check Ctx) (kind : SqlBackupType) : Option (List Int) :=
  if view.answers check.jobId check.database kind then some (check.times view kind) else none

/-- Count and the earliest and newest snapshot time of one group. -/
def groupStats (check : Check Ctx) (kind : SqlBackupType) : Nat × Option Int × Option Int :=
  match check.listSnapshots view kind with
  | some times => (times.length % 2 ^ 32, times.min?, times.max?)
  | none => (0, none, none)

def databaseStatus (now : Int) (check : Check Ctx) : SqlDbStatus :=
  let (fullCount, fullMin, fullMax) := groupStats view check .full
  let (logCount, _, logMax) := groupStats view check .log
  let chainLatest := ([fullMax, logMax].filterMap id).max?
  { database := check.database
    chainLatest := chainLatest
    stalled := chainLatest.any fun latest => wrapI64 (now - latest) > check.grace
    fullCount := fullCount
    logCount := logCount
    pitWindowSecs :=
      match chainLatest, fullMin with
      | some latest, some earliest =>
        if logCount > 0 then some (wrapI64 (latest - earliest)) else none
      | _, _ => none }

/-- Several missed log intervals, at least 30 minutes. -/
def graceOf (logIntervalMinutes : Nat) : Int := max (logIntervalMinutes * 60 * 4) 1800

/-- The databases of a job that are checked; `none` if the job is passed over. -/
def checksOf (job : Ipc.Job) : Option (List (Check Ctx)) :=
  match job.source with
  | .sql _ databases (.pointInTime _ logIntervalMinutes) =>
    (view.sqlJobPbs job.id).map fun ctx =>
      databases.map fun database =>
        { jobId := job.id, jobName := job.name, ctx := ctx
          grace := graceOf logIntervalMinutes, database := database }
  | _ => none

/-- The chain status of every point-in-time job's databases. -/
def collectSqlStatus (store : JobStore) (now : Int) : List JobSqlStatus :=
  store.list.filterMap fun job =>
    (checksOf view job).map fun checks =>
      { jobId := job.id, jobName := job.name
        databases := checks.map (databaseStatus view now) }

def allChecks (store : JobStore) : List (Check Ctx) :=
  store.list.flatMap fun job => (checksOf view job).getD []

/-- A warning that a chain has stopped advancing. -/
structure Alert where
  jobName : String
  database : String
  hours : Int

abbrev Alerted := String × String → Option Int

def realertSecs : Int := 6 * 3600

/-- Warn about the stalled databases of one job, unless that was done a short time ago. -/
def alertDatabases (now : Int) (status : JobSqlStatus) :
    Alerted → List SqlDbStatus → Alerted × List Alert
  | alerted, [] => (alerted, [])
  | alerted, db :: rest =>
    let key := (status.jobId, db.database)
    if !db.stalled then alertDatabases now status alerted rest
    else if (alerted key).any fun time => wrapI64 (now - time) < realertSecs then
      alertDatabases now status alerted rest
    else
      let alerted := fun other => if other = key then some now else alerted other
      let (alerted, alerts) := alertDatabases now status alerted rest
      let hours :=
        match db.chainLatest with
        | some latest => max ((wrapI64 (now - latest)).tdiv 3600) 1
        | none => 0
      (alerted, { jobName := status.jobName, database := db.database, hours := hours } :: alerts)

/-- What the check keeps between its rounds. -/
structure Health (F : Type) where
  metrics : MetricsState F
  alerted : Alerted

def refreshStatuses {F : Type} (ops : FloatOps F) (now : Int) :
    Health F → List JobSqlStatus → Health F × List Alert
  | health, [] => (health, [])
  | health, status :: rest =>
    let metrics := health.metrics.setSqlStatus ops status.jobId status.databases
    let (alerted, alerts) := alertDatabases now status health.alerted status.databases
    let (health, later) := refreshStatuses ops now { metrics := metrics, alerted := alerted } rest
    (health, alerts ++ later)

/-- One round: update the metrics and warn about stalled chains. -/
def refreshSqlHealth {F : Type} (ops : FloatOps F) (store : JobStore) (now : Int)
    (health : Health F) : Health F × List Alert :=
  refreshStatuses ops now health (collectSqlStatus view store now)

/-- One round of the check: what the store and PBS are like then. -/
structure Round (Ctx : Type) where
  view : PbsView Ctx
  store : JobStore
  now : Int

def refreshRounds {F : Type} (ops : FloatOps F) : Health F → List (Round Ctx) → List Alert
  | _, [] => []
  | health, round :: rest =>
    let (health, alerts) := refreshSqlHealth round.view ops round.store round.now health
    alerts ++ refreshRounds ops health rest

/-- The newest snapshot over both groups is older than the grace time. -/
def ChainOld (now : Int) (check : Check Ctx) : Prop :=
  ∃ newest, (check.times view .full ++ check.times view .log).max? = some newest ∧
    check.grace < now - newest

/-- A failed listing hides a snapshot that is recent enough. -/
def HidesRecent (now : Int) (check : Check Ctx) : Prop :=
  ∃ kind ∈ [SqlBackupType.full, .log], view.answers check.jobId check.database kind = false ∧
    ∃ time ∈ check.times view kind, now - time ≤ check.grace

section Marks

variable {view} {now : Int} {check : Check Ctx}

theorem wrapI64_sub_le {time : Int} (hnow : 0 ≤ now ∧ now < 2 ^ 63)
    (htime : -2 ^ 63 ≤ time ∧ time < 2 ^ 63) : wrapI64 (now - time) ≤ now - time := by
  rw [wrapI64, Int.bmod_def]
  omega

def shownNewest (view : PbsView Ctx) (check : Check Ctx) (kind : SqlBackupType) : Option Int :=
  (check.listSnapshots view kind).bind List.max?

theorem groupStats_newest (kind : SqlBackupType) :
    (groupStats view check kind).2.2 = shownNewest view check kind := by
  rw [groupStats, shownNewest]
  cases check.listSnapshots view kind <;> rfl

variable {kind : SqlBackupType}

theorem shownNewest_mem {newest : Int} (h : shownNewest view check kind = some newest) :
    newest ∈ check.times view kind := by
  obtain ⟨times, hlist, hmax⟩ := Option.bind_eq_some_iff.mp h
  rw [Check.listSnapshots] at hlist
  split at hlist
  · rw [Option.some.inj hlist]
    exact max?_mem hmax
  · cases hlist

theorem le_shownNewest (hans : view.answers check.jobId check.database kind = true) {time : Int}
    (htime : time ∈ check.times view kind) :
    ∃ newest, shownNewest view check kind = some newest ∧ time ≤ newest := by
  rw [shownNewest, Check.listSnapshots, if_pos hans, Option.bind_some]
  cases hmax : (check.times view kind).max? with
  | none => exact absurd htime (max?_eq_none_iff.mp hmax ▸ not_mem_nil)
  | some newest => exact ⟨newest, rfl, (max?_eq_some_iff.mp hmax).2 time htime⟩

theorem stalled_iff :
    (databaseStatus view now check).stalled = true ↔
      ∃ latest,
        ([shownNewest view check .full, shownNewest view check .log].filterMap id).max? =
            some latest ∧
          check.grace < wrapI64 (now - latest) := by
  rw [← groupStats_newest, ← groupStats_newest, databaseStatus]
  simp only [Option.any_eq_true, decide_eq_true_eq]

theorem old_of_stalled (hnow : 0 ≤ now ∧ now < 2 ^ 63)
    (h : (databaseStatus view now check).stalled = true) :
    (∃ kind ∈ [SqlBackupType.full, .log], check.times view kind ≠ []) ∧
      ∀ kind ∈ [SqlBackupType.full, .log],
        view.answers check.jobId check.database kind = true →
          ∀ time ∈ check.times view kind, check.grace < now - time := by
  obtain ⟨latest, hlate, hgrace⟩ := stalled_iff.mp h
  obtain ⟨hmem, hle⟩ := max?_eq_some_iff.mp hlate
  have hshown : ∀ time, time ∈ [shownNewest view check .full, shownNewest view check .log].filterMap id ↔
      ∃ kind ∈ [SqlBackupType.full, .log], shownNewest view check kind = some time := by
    intro time
    simp [mem_filterMap, @eq_comm _ (some time)]
  obtain ⟨kind, hkind, hnew⟩ := (hshown latest).mp hmem
  have hlatestMem := shownNewest_mem hnew
  have hold : check.grace < now - latest :=
    lt_of_lt_of_le hgrace (wrapI64_sub_le hnow (view.times_i64 _ _ latest hlatestMem))
  refine ⟨⟨kind, hkind, ne_nil_of_mem hlatestMem⟩, fun kind hkind hans time htime => ?_⟩
  obtain ⟨newest, hsome, htimeLe⟩ := le_shownNewest hans htime
  have hnewestLe := hle newest ((hshown newest).mpr ⟨kind, hkind, hsome⟩)
  omega

theorem chainOld_iff (hnow : 0 ≤ now ∧ now < 2 ^ 63)
    (h : (databaseStatus view now check).stalled = true) :
    ChainOld view now check ↔ ¬ HidesRecent view now check := by
  obtain ⟨⟨kind, hkind, hsome⟩, hold⟩ := old_of_stalled hnow h
  have hmem : ∀ time, time ∈ check.times view .full ++ check.times view .log ↔
      ∃ kind ∈ [SqlBackupType.full, .log], time ∈ check.times view kind := by
    intro time
    simp
  constructor
  · rintro ⟨newest, hnew, hgrace⟩ ⟨kind, hkind, -, time, htime, hrecent⟩
    have hle := (max?_eq_some_iff.mp hnew).2 time ((hmem time).mpr ⟨kind, hkind, htime⟩)
    omega
  · intro hshown
    cases hnew : (check.times view .full ++ check.times view .log).max? with
    | none =>
      obtain ⟨time, htime⟩ := exists_mem_of_ne_nil _ hsome
      have hall := (hmem time).mpr ⟨kind, hkind, htime⟩
      rw [max?_eq_none_iff.mp hnew] at hall
      exact absurd hall not_mem_nil
    | some newest =>
      obtain ⟨kind, hkind, htime⟩ := (hmem newest).mp (max?_mem hnew)
      refine ⟨newest, hnew, ?_⟩
      cases hans : view.answers check.jobId check.database kind with
      | true => exact hold kind hkind hans newest htime
      | false =>
        by_contra hrecent
        exact hshown ⟨kind, hkind, hans, newest, htime, Int.not_lt.mp hrecent⟩

end Marks

section Rounds

variable {view} {store : JobStore} {now : Int}

variable {status : JobSqlStatus}

theorem mem_collectSqlStatus {db : SqlDbStatus} (hstat : status ∈ collectSqlStatus view store now)
    (hdb : db ∈ status.databases) :
    ∃ check ∈ allChecks view store, status.jobName = check.jobName ∧
      db = databaseStatus view now check := by
  obtain ⟨job, hjob, hchecks⟩ := mem_filterMap.mp hstat
  obtain ⟨checks, hsome, rfl⟩ := Option.map_eq_some_iff.mp hchecks
  obtain ⟨check, hcheck, rfl⟩ := mem_map.mp hdb
  refine ⟨check, mem_flatMap.mpr ⟨job, hjob, by rw [hsome]; exact hcheck⟩, ?_, rfl⟩
  rw [checksOf] at hsome
  split at hsome
  · obtain ⟨ctx, -, rfl⟩ := Option.map_eq_some_iff.mp hsome
    obtain ⟨database, -, rfl⟩ := mem_map.mp hcheck
    rfl
  · cases hsome

variable {alert : Alert}

theorem mem_alertDatabases {alerted : Alerted} {dbs : List SqlDbStatus}
    (h : alert ∈ (alertDatabases now status alerted dbs).2) :
    alert.jobName = status.jobName ∧
      ∃ db ∈ dbs, db.stalled = true ∧ alert.database = db.database := by
  induction dbs generalizing alerted with
  | nil => cases h
  | cons db rest ih =>
    have hlater : ∀ {alerted}, alert ∈ (alertDatabases now status alerted rest).2 →
        alert.jobName = status.jobName ∧
          ∃ other ∈ db :: rest, other.stalled = true ∧ alert.database = other.database := by
      intro alerted hmem
      obtain ⟨hname, other, hother, hstalled⟩ := ih hmem
      exact ⟨hname, other, mem_cons_of_mem _ hother, hstalled⟩
    rw [alertDatabases] at h
    split at h
    · exact hlater h
    rename_i hstalled
    split at h
    · exact hlater h
    · rcases mem_cons.mp h with rfl | hrest
      · exact ⟨rfl, db, mem_cons_self, by simpa using hstalled, rfl⟩
      · exact hlater hrest

theorem mem_refreshStatuses {F : Type} {ops : FloatOps F} {health : Health F}
    {statuses : List JobSqlStatus} (h : alert ∈ (refreshStatuses ops now health statuses).2) :
    ∃ status ∈ statuses, alert.jobName = status.jobName ∧
      ∃ db ∈ status.databases, db.stalled = true ∧ alert.database = db.database := by
  induction statuses generalizing health with
  | nil => cases h
  | cons status rest ih =>
    rw [refreshStatuses] at h
    rcases mem_append.mp h with hfirst | hlater
    · obtain ⟨hname, hdb⟩ := mem_alertDatabases hfirst
      exact ⟨status, mem_cons_self, hname, hdb⟩
    · obtain ⟨other, hother, hdb⟩ := ih hlater
      exact ⟨other, mem_cons_of_mem _ hother, hdb⟩

theorem mem_refreshSqlHealth {F : Type} {ops : FloatOps F} {health : Health F}
    (h : alert ∈ (refreshSqlHealth view ops store now health).2) :
    ∃ check ∈ allChecks view store, alert.jobName = check.jobName ∧
      alert.database = check.database ∧ (databaseStatus view now check).stalled = true := by
  obtain ⟨status, hstat, hname, db, hdb, hstalled, hdatabase⟩ := mem_refreshStatuses h
  obtain ⟨check, hcheck, hcheckName, rfl⟩ := mem_collectSqlStatus hstat hdb
  exact ⟨check, hcheck, hname.trans hcheckName, hdatabase, hstalled⟩

theorem mem_refreshRounds {F : Type} {ops : FloatOps F} {health : Health F}
    {rounds : List (Round Ctx)} (h : alert ∈ refreshRounds ops health rounds) :
    ∃ round ∈ rounds, ∃ check ∈ allChecks round.view round.store,
      alert.jobName = check.jobName ∧ alert.database = check.database ∧
        (databaseStatus round.view round.now check).stalled = true := by
  induction rounds generalizing health with
  | nil => cases h
  | cons round rest ih =>
    rcases mem_append.mp h with hfirst | hlater
    · exact ⟨round, mem_cons_self, mem_refreshSqlHealth hfirst⟩
    · obtain ⟨other, hother, hcheck⟩ := ih hlater
      exact ⟨other, mem_cons_of_mem _ hother, hcheck⟩

/-- No failed listing hides a recent snapshot of a database that is marked. -/
def Round.Shown (round : Round Ctx) : Prop :=
  ∀ check ∈ allChecks round.view round.store,
    (databaseStatus round.view round.now check).stalled = true →
      ¬ HidesRecent round.view round.now check

end Rounds

/-- A database with one full from the start and a log backup a minute old; the log group is
listed as `logAnswers` says. -/
def sampleView (logAnswers : Bool) (logTime : Int) : PbsView Unit where
  sqlJobPbs := fun _ => some ()
  backupId := fun _ => "b"
  times := fun _ group => if group = "b-db" then [0] else [wrapI64 logTime]
  answers := fun _ _ kind => kind = .full || logAnswers
  times_i64 := by
    intro ctx group time htime
    split at htime <;> rw [List.mem_singleton.mp htime]
    · decide
    · rw [wrapI64, Int.bmod_def]
      omega

def sampleStore : JobStore where
  path := ⟨"C", "jobs.json"⟩
  loadError := none
  items :=
    [{ id := "1", name := "sql", source := .sql "c" ["db"] (.pointInTime .manual 15)
       destination := .pbs "s" "b", schedule := .manual }]

end PbsGui.Engine.ChainHealth
