import Mathlib.Data.List.Basic

/-!
# What a run does with one database

The rules of `sql/plan.rs`: whether a run of a SQL job backs up a database on this
machine, and how, or skips it.
-/

namespace PbsGui.Engine

/-- The backup type for a SQL Server source. -/
inductive SqlBackupType
  | full
  | differential
  | log
  deriving DecidableEq

/-- Which backup a SQL job runs on a given trigger. -/
inductive SqlRun
  | full
  | log
  deriving DecidableEq

/-- The protection plan, reduced to what the rules need. -/
inductive PlanKind
  /-- Fulls plus log backups. -/
  | pointInTime
  /-- Fulls only. -/
  | restorePoints
  /-- Copy-only fulls only, alongside another backup tool. -/
  | secondaryCopy
  deriving DecidableEq

/-- This instance's role for one database. -/
inductive Role
  /-- Not in an availability group. -/
  | standalone
  /-- The availability group primary. -/
  | primary
  /-- A secondary, or a replica still resolving its role. -/
  | secondary
  deriving DecidableEq

/-- What SQL Server reports about one database on this instance. -/
structure DbState where
  role : Role
  /-- Whether this is the preferred backup replica. -/
  preferred : Bool
  simpleRecovery : Bool
  readOnly : Bool
  /-- A log backup can extend the chain. -/
  logChain : Bool
  deriving DecidableEq

/-- The decision for one database. -/
inductive Action
  /-- Back it up; the note says why this differs from the run's usual backup. -/
  | backup (kind : SqlBackupType) (copyOnly : Bool) (note : Option String)
  /-- Nothing to do, and why. -/
  | skip (why : String)
  deriving DecidableEq

namespace Plan

def notPreferred : String := "not the Always On preferred backup replica"

def fullOnPrimary : String :=
  "point-in-time full backups are taken on the Always On primary replica"

def simple : String := "SIMPLE recovery model (no log backups; log is auto-managed)"

def promoted : String :=
  "no full backup starts the log chain yet, so taking a full backup instead of a log backup"

def firstFull : String :=
  "this job has no full backup from this machine yet, so taking a full backup before log backups"

def readOnly : String := "read-only database (no log backups; its full backups cover it)"

def noChainOnSecondary : String :=
  "no full backup starts the log chain yet, and a secondary cannot take one; pbsgui on the " ++
    "primary replica takes it on its next run (install pbsgui on every replica with this job)"

/-- Decide what to do with one database.  `localFull` says whether this job has
recorded a successful full on this machine. -/
def decide (plan : PlanKind) (run : SqlRun) (s : DbState) (localFull : Bool) : Action :=
  match plan, run with
  | .pointInTime, .full =>
    match s.role with
    | .standalone | .primary => .backup .full false none
    | .secondary => .skip fullOnPrimary
  | .pointInTime, .log =>
    if s.simpleRecovery then .skip simple
    else if s.readOnly then .skip readOnly
    else if s.role ≠ .secondary ∧ s.logChain = false then .backup .full false (some promoted)
    else if s.role ≠ .secondary ∧ localFull = false then .backup .full false (some firstFull)
    else if s.preferred = false then .skip notPreferred
    else .backup .log false none
  | .restorePoints, _ | .secondaryCopy, _ =>
    if s.preferred = false then .skip notPreferred
    else .backup .full (plan = .secondaryCopy ∨ s.role = .secondary) none

/-- `str::contains`. -/
def contains (text pattern : String) : Bool :=
  text.toList.tails.any fun rest => pattern.toList.isPrefixOf rest

/-- Whether a failed log backup failed because no full backup starts the chain. -/
def isNoChainError (message : String) : Bool :=
  contains message "4214" || contains message "no current database backup"

/-- Whether a full run backs up a database in this state. -/
def TakesFull : PlanKind → DbState → Prop
  | .pointInTime, s => s.role ≠ .secondary
  | .restorePoints, s | .secondaryCopy, s => s.preferred = true

/-- Whether a log run takes a log backup of a database in this state, outside a
secondary, once this job has recorded a full. -/
def TakesLog (s : DbState) : Prop :=
  s.simpleRecovery = false ∧ s.readOnly = false ∧ s.logChain = true ∧ s.preferred = true

section Decide

variable {plan : PlanKind} {run : SqlRun} {s : DbState} {localFull copyOnly : Bool}
  {note : Option String}

/-- Outside a secondary a log is only taken by a log run, of a database that allows
it, once this job has recorded a full. -/
theorem decide_eq_log (h : decide plan run s localFull = .backup .log copyOnly note)
    (hrole : s.role ≠ .secondary) : run = .log ∧ localFull = true ∧ TakesLog s := by
  revert h
  fun_cases decide plan run s localFull <;> simp_all [TakesLog]

theorem decide_full (h : TakesFull plan s) :
    ∃ copyOnly, decide plan .full s localFull = .backup .full copyOnly none := by
  cases plan with
  | pointInTime =>
    have hrole : s.role ≠ .secondary := h
    cases hcase : s.role with
    | standalone | primary => exact ⟨false, by simp [decide, hcase]⟩
    | secondary => exact absurd hcase hrole
  | restorePoints | secondaryCopy =>
    have hpreferred : s.preferred = true := h
    exact ⟨_, if_neg (by simp [hpreferred])⟩

end Decide

end Plan

end PbsGui.Engine
