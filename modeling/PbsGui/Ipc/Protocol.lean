import Mathlib.Data.List.Basic

/-!
# Messages between the GUI and the engine

The data types of `pbsgui-ipc` that the engine stores and acts on: jobs with their
source, destination and schedule, and the saved connections that jobs refer to.
Times are unix seconds.
-/

namespace PbsGui.Ipc

/-- A saved Proxmox Backup Server connection. -/
structure PbsServer where
  id : String
  name : String
  /-- Repository string, e.g. `user@pbs!token@host:8007:datastore`. -/
  repository : String
  /-- Expected server certificate SHA-256 fingerprint. -/
  fingerprint : String
  deriving DecidableEq

/-- How to authenticate to a SQL Server instance. -/
inductive SqlAuth
  | integrated
  | windowsAccount (username : String)
  | sqlLogin (username : String)
  | azureAd (username : String)
  deriving DecidableEq

/-- A saved SQL Server connection. -/
structure SqlConnection where
  id : String
  name : String
  server : String
  port : Option UInt16 := none
  auth : SqlAuth
  failoverCluster : Bool := false
  relayAgent : Option String := none
  deriving DecidableEq

/-- When a job runs automatically. -/
inductive Schedule
  /-- Only on demand. -/
  | manual
  /-- Every `minutes` minutes. -/
  | interval (minutes : Nat)
  /-- Every day at the given local time. -/
  | daily (hour minute : Nat)
  /-- Every week on `days` (0 = Sunday .. 6 = Saturday) at the given local time. -/
  | weekly (days : List Nat) (hour minute : Nat)
  /-- Every month on `day`; a day past the end of a shorter month means its last day. -/
  | monthly (day hour minute : Nat)
  deriving DecidableEq

/-- What a SQL job lets you restore. -/
inductive SqlProtection
  /-- Periodic fulls plus frequent log backups. -/
  | pointInTime (full : Schedule) (logIntervalMinutes : Nat)
  /-- Fulls only. -/
  | dailyRestorePoints (schedule : Schedule)
  /-- Copy-only fulls alongside another backup tool. -/
  | secondaryCopy (schedule : Schedule)
  deriving DecidableEq

/-- What a job backs up. -/
inductive JobSource
  | files (sources excludes : List String) (changeDetection : Bool)
  | sql (connectionId : String) (databases : List String) (protection : SqlProtection)
  deriving DecidableEq

/-- Where a job sends its backup. -/
inductive JobDestination
  | pbs (serverId backupId : String)
  | folder (path : String)
  deriving DecidableEq

/-- A persisted backup job. -/
structure Job where
  id : String
  name : String
  source : JobSource
  destination : JobDestination
  schedule : Schedule
  /-- Last run time. -/
  lastRun : Option Int := none
  /-- Outcome of the last run ("ok" or an error message). -/
  lastStatus : Option String := none
  encrypted : Bool := false
  compress : Bool := true
  deriving DecidableEq

def Job.isSql (job : Job) : Bool :=
  match job.source with
  | .sql _ _ _ => true
  | .files _ _ _ => false

end PbsGui.Ipc
